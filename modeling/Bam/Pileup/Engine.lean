import Bam.Pileup.Cursor

set_option autoImplicit false

/- `Pileup` of src/src/pileup.rs (lines 173-301): the live entries, the latched error and the
position of the last ingested record, over what is left of `record_iter`. The two `while`
loops of `next` run on fuel: `none` is a call still running when the fuel is spent, and
`.error msg` is a panic with the message of the failed assertion. -/
namespace Bam

/-- An item of `record_iter`, an `io::Result<Record>`. -/
abbrev Item := Except IoError Record

/-- The error `read_next` latches on an out-of-order record. -/
def unsortedError : IoError := ⟨.invalidData, "Input file is unsorted"⟩

/-- A call run on a fuel bound: `none` while it still runs when the fuel is spent,
`some (.error msg)` when it panics, `some (.ok a)` when it returns `a`. -/
abbrev Exec (α : Type) := Option (Except String α)

/-- The state of a `Pileup`: what is left of `record_iter`, the live `entries`, the latched
`error`, and `last_ref_id`, `last_ref_pos`. `read_filter` is a parameter of the functions. -/
structure Pileup where
  recordIter : List Item
  entries : List PileupEntry
  error : Option IoError
  lastRefId : Nat
  lastRefPos : Nat

structure PileupColumn where
  entries : List PileupEntry
  refId : Nat
  refPos : Nat

/-- What a call of `next` returns: `None`, `Some(Err(e))` or `Some(Ok(column))`. -/
abbrev Output := Option (Except IoError PileupColumn)

/-- The position of an entry: `entry.record.ref_id() as u32` and `entry.ref_pos`. -/
def PileupEntry.pos (e : PileupEntry) : Nat × Nat := (e.record.refId.toNat, e.refPos)

def swapRemove (entries : List PileupEntry) (i : Nat) : List PileupEntry :=
  match entries.getLast? with
  | none => entries
  | some last => (entries.set i last).dropLast

/-- One step of the `for` loop at lines 254-262 that computes the target. -/
def targetStep (target : Nat × Nat) (e : PileupEntry) : Nat × Nat :=
  if e.record.refId.toNat < target.1 then (e.record.refId.toNat, e.refPos)
  else if e.record.refId.toNat = target.1 then (target.1, min target.2 e.refPos)
  else target

/-- The `for i in (0..len).rev()` loop at lines 277-290, over the indices below `i`: the live
entries and the entries of the column built so far. -/
def columnLoop (target : Nat × Nat) :
    Nat → List PileupEntry → List PileupEntry →
      Except String (List PileupEntry × List PileupEntry)
  | 0, live, column => .ok (live, column)
  | i + 1, live, column =>
    match live[i]? with
    | none => .error "index out of bounds"
    | some entry =>
      if entry.record.refId.toNat = target.1 ∧ entry.refPos = target.2 then
        match entry.moveForward with
        | .error msg => .error msg
        | .ok (some moved) => columnLoop target i (live.set i moved) (column ++ [entry])
        | .ok none => columnLoop target i (swapRemove live i) (column ++ [entry])
      else if entry.record.refId.toNat > target.1 ∨ entry.refPos > target.2 then
        columnLoop target i live column
      else .error "Record is to the left of the new pileup position"

namespace Pileup

variable (readFilter : Record → Bool)

def recordPasses (record : Record) : Except String Bool :=
  if !record.mapped then .ok false
  else if 0 ≤ record.refId ∧ 0 ≤ record.start then .ok (readFilter record)
  else .error "assertion failed: record.ref_id() >= 0 && record.start() >= 0"

/-- The `loop` of `read_next`: pull items until one is not skipped. -/
def readLoop (p : Pileup) : List Item → Except String Pileup
  | [] => .ok { p with recordIter := [], lastRefId := u32Max }
  | .error e :: rest => .ok { p with recordIter := rest, error := some e, lastRefId := u32Max }
  | .ok record :: rest =>
    match recordPasses readFilter record with
    | .error msg => .error msg
    | .ok false => readLoop p rest
    | .ok true =>
      let recRefId := record.refId.toNat
      let recStart := record.start.toNat
      let p := if recRefId < p.lastRefId ∨ (recRefId = p.lastRefId ∧ recStart < p.lastRefPos)
        then { p with error := some unsortedError, lastRefId := u32Max } else p
      let p := { p with lastRefId := recRefId, lastRefPos := recStart }
      match PileupEntry.new record with
      | .error msg => .error msg
      | .ok entry => .ok { p with recordIter := rest, entries := p.entries ++ [entry] }

def readNext (p : Pileup) : Except String Pileup :=
  if p.lastRefId = u32Max ∨ p.error.isSome then .ok p else readLoop readFilter p p.recordIter

/-- `Pileup::with_filter`: the state after its first `read_next`. -/
def withFilter (recordIter : List Item) : Except String Pileup :=
  readNext readFilter
    { recordIter := recordIter, entries := [], error := none, lastRefId := 0, lastRefPos := 0 }

def ingestGuard (target : Nat × Nat) (p : Pileup) : Prop :=
  p.lastRefId < u32Max ∧ p.lastRefId ≤ target.1 ∧ p.lastRefPos ≤ target.2

instance (target : Nat × Nat) (p : Pileup) : Decidable (ingestGuard target p) :=
  inferInstanceAs (Decidable (_ ∧ _ ∧ _))

/-- The ingestion loop at lines 264-268. -/
def ingest (target : Nat × Nat) : Nat → Pileup → Exec Pileup
  | 0, _ => none
  | fuel + 1, p =>
    if ingestGuard target p then
      match readNext readFilter p with
      | .error msg => some (.error msg)
      | .ok p => ingest target fuel p
    else some (.ok p)

/-- The loop at lines 253-274: the target and the state it ends in. It also ends when the
ingestion latched an error, which `next` then returns (lines 269-273). -/
def search : Nat → Nat × Nat → Pileup → Exec ((Nat × Nat) × Pileup)
  | 0, _, _ => none
  | fuel + 1, target, p =>
    if target.1 = u32Max ∧ (p.entries ≠ [] ∨ p.lastRefId < u32Max) then
      let target := p.entries.foldl targetStep target
      match ingest readFilter target fuel p with
      | none => none
      | some (.error msg) => some (.error msg)
      | some (.ok p) => if p.error.isSome then some (.ok (target, p)) else search fuel target p
    else some (.ok (target, p))

/-- Lines 246-248 and 270-272: the live set is cleared, the input marked exhausted, and the
latched error taken out. -/
def failed (p : Pileup) : Pileup := { p with entries := [], lastRefId := u32Max, error := none }

/-- `Iterator::next` of `Pileup`. -/
def next (fuel : Nat) (p : Pileup) : Exec (Output × Pileup) :=
  match p.error with
  | some e => some (.ok (some (.error e), p.failed))
  | none =>
    match search readFilter fuel (u32Max, u32Max) p with
    | none => none
    | some (.error msg) => some (.error msg)
    | some (.ok (target, p)) =>
      match p.error with
      | some e => some (.ok (some (.error e), p.failed))
      | none =>
        match columnLoop target p.entries.length p.entries [] with
        | .error msg => some (.error msg)
        | .ok (live, column) =>
          some (.ok (if column = [] then none else some (.ok ⟨column, target.1, target.2⟩),
            { p with entries := live }))

/-- A call of `next` on `p` returns `out` and leaves `p'`. -/
def Returns (p : Pileup) (out : Output) (p' : Pileup) : Prop :=
  ∃ fuel, next readFilter fuel p = some (.ok (out, p'))

/-- Successive calls of `next` that all return, with their results in order. -/
inductive Steps : Pileup → List Output → Pileup → Prop
  | refl (p : Pileup) : Steps p [] p
  | step {p p' p'' : Pileup} {out : Output} {outs : List Output} :
      Returns readFilter p out p' → Steps p' outs p'' → Steps p (out :: outs) p''

end Pileup

end Bam
