import Mathlib.Data.List.Basic

set_option autoImplicit false

/- The record view the pileup engine and the region viewer read. `record.rs`, `cigar.rs` and
`index.rs` are not under src/: the op table and `calculate_end` follow the spec, and the value
of `aligned_query_end` is carried as a field of the record. -/
namespace Bam

/-- `std::u32::MAX`. -/
def u32Max : Nat := 4294967295

/-- Modelled from the spec: the cigar operations of `cigar.rs` (M, I, D, N, S, H, P, =, X). -/
inductive CigarOp
  | alnMatch | insertion | deletion | skip | soft | hard | padding | seqMatch | seqMismatch
deriving DecidableEq, Repr

namespace CigarOp

/-- Modelled from the spec: the op table's `consumes_ref`. -/
def consumesRef : CigarOp → Bool
  | alnMatch | deletion | skip | seqMatch | seqMismatch => true
  | insertion | soft | hard | padding => false

/-- Modelled from the spec: the op table's `consumes_query`. -/
def consumesQuery : CigarOp → Bool
  | alnMatch | insertion | soft | seqMatch | seqMismatch => true
  | deletion | skip | hard | padding => false

end CigarOp

/-- A cigar as `cigar().at(i)` reads it: pairs `(len, op)`. -/
abbrev Cigar := List (Nat × CigarOp)

namespace Cigar

def refLen : Cigar → Nat
  | [] => 0
  | (len, op) :: rest => (if op.consumesRef then len else 0) + refLen rest

def queryLen : Cigar → Nat
  | [] => 0
  | (len, op) :: rest => (if op.consumesQuery then len else 0) + queryLen rest

/-- The soft clip at the end of the cigar, behind its hard clips. -/
def softClipEnd (cigar : Cigar) : Nat :=
  go cigar.reverse
where
  go : Cigar → Nat
    | (_, .hard) :: rest => go rest
    | (len, .soft) :: _ => len
    | _ => 0

@[simp] theorem refLen_nil : refLen [] = 0 := rfl

@[simp] theorem refLen_cons (len : Nat) (op : CigarOp) (rest : Cigar) :
    refLen ((len, op) :: rest) = (if op.consumesRef then len else 0) + refLen rest := rfl

@[simp] theorem queryLen_nil : queryLen [] = 0 := rfl

@[simp] theorem queryLen_cons (len : Nat) (op : CigarOp) (rest : Cigar) :
    queryLen ((len, op) :: rest) = (if op.consumesQuery then len else 0) + queryLen rest := rfl

theorem refLen_append (front back : Cigar) :
    refLen (front ++ back) = refLen front + refLen back := by
  induction front with
  | nil => simp
  | cons head rest ih => obtain ⟨len, op⟩ := head; simp [ih, Nat.add_assoc]

theorem queryLen_append (front back : Cigar) :
    queryLen (front ++ back) = queryLen front + queryLen back := by
  induction front with
  | nil => simp
  | cons head rest ih => obtain ⟨len, op⟩ := head; simp [ih, Nat.add_assoc]

end Cigar

/-- The fields of a BAM record that the core reads. `ref_id` and `start` are `i32`;
`alnQueryEnd` is what `aligned_query_end()` returns. -/
structure Record where
  refId : Int
  start : Int
  mapped : Bool
  bin : Nat
  cigar : Cigar
  alnQueryEnd : Nat
  refId_range : -2147483648 ≤ refId ∧ refId < 2147483648 := by decide
  start_range : -2147483648 ≤ start ∧ start < 2147483648 := by decide
deriving DecidableEq

namespace Record

/-- Modelled from the spec: `Record::calculate_end`, the start plus the reference length of
the cigar, or -1 when no op consumes the reference. -/
def calculateEnd (r : Record) : Int :=
  if r.cigar.any (fun op => op.2.consumesRef) then r.start + r.cigar.refLen else -1

theorem calculateEnd_cases (r : Record) : r.calculateEnd = -1 ∨ r.start ≤ r.calculateEnd := by
  unfold calculateEnd
  split
  · exact .inr (by omega)
  · exact .inl rfl

theorem refId_toNat_lt (r : Record) : r.refId.toNat < 2147483648 := by
  have := r.refId_range
  omega

theorem start_toNat_lt (r : Record) : r.start.toNat < 2147483648 := by
  have := r.start_range
  omega

end Record

/-- `std::io::ErrorKind`, as far as the pileup uses it. -/
inductive ErrorKind
  | invalidData | invalidInput | unexpectedEof | other
deriving DecidableEq, Repr

/-- An `io::Error`: its kind and message. -/
structure IoError where
  kind : ErrorKind
  msg : String
deriving DecidableEq, Repr

end Bam
