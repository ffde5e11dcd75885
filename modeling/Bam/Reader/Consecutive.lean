import Bam.Reader.RegionViewer

set_option autoImplicit false

/- `Reader` of src/src/bam_reader.rs (lines 453-510), the reader over the records of a whole
file: its `read_into` is `fill_from` on the stream, the end of the stream being
`NoMoreRecords`, and `next` maps only `NoMoreRecords` to `None`. -/
namespace Bam

namespace Reader

open RegionViewer (stops)

/-- `BamReader::read_into` of `Reader`: the next fill, `NoMoreRecords` once none is left; with
the fills after the call. -/
def readInto : List Fill → Except RecordError Record × List Fill
  | [] => (.error .noMoreRecords, [])
  | fill :: rest => (fill, rest)

/-- `Iterator::next` of `Reader`: `None` on `NoMoreRecords`; with the fills after the call. -/
def next (fills : List Fill) : Option (Except RecordError Record) × List Fill :=
  match readInto fills with
  | (.ok record, rest) => (some (.ok record), rest)
  | (.error .noMoreRecords, rest) => (none, rest)
  | (.error e, rest) => (some (.error e), rest)

@[simp] theorem next_nil : next [] = (none, []) := rfl

@[simp] theorem next_cons (fill : Fill) (rest : List Fill) :
    next (fill :: rest) = (if stops fill then none else some fill, rest) := by
  rcases fill with (_ | _ | _) | _ <;> rfl

end Reader

end Bam
