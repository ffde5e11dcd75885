import Bam.Record

set_option autoImplicit false

/- `PileupEntry` of src/src/pileup.rs: a record with a cursor that walks its cigar one reference
position at a time (`new`, `update_query_end`, `move_forward`, lines 33-150). `u32` counters
are naturals whose arithmetic panics as in a debug build: `cigar_remaining -= 1` below zero,
and each `+=` past `u32::MAX`. -/
namespace Bam

/-- A `u32` addition of a debug build. -/
def addU32 (a b : Nat) : Except String Nat :=
  if a + b ≤ u32Max then .ok (a + b) else .error "attempt to add with overflow"

theorem addU32_eq_ok {a b v : Nat} : addU32 a b = .ok v ↔ a + b ≤ u32Max ∧ v = a + b := by
  unfold addU32
  by_cases fits : a + b ≤ u32Max <;> simp [fits, eq_comm]

theorem addU32_error {a b : Nat} {msg : String} (failed : addU32 a b = .error msg) :
    msg = "attempt to add with overflow" := by
  unfold addU32 at failed
  split at failed
  · cases failed
  · exact (Except.error.inj failed).symm

theorem addU32_of_le {a b : Nat} (fits : a + b ≤ u32Max) : addU32 a b = .ok (a + b) :=
  addU32_eq_ok.mpr ⟨fits, rfl⟩

/-- `if cond { a += b }` on a `u32`, the shape of every addition of the walk. -/
def addIf (cond : Bool) (a b : Nat) : Except String Nat :=
  if cond then addU32 a b else .ok a

theorem addIf_eq_ok {cond : Bool} {a b v : Nat} :
    addIf cond a b = .ok v ↔ (cond → a + b ≤ u32Max) ∧ v = if cond then a + b else a := by
  unfold addIf addU32
  cases cond
  · simp [eq_comm]
  · by_cases fits : a + b ≤ u32Max <;> simp [fits, eq_comm]

theorem addIf_of_le {cond : Bool} {a b : Nat} (fits : cond → a + b ≤ u32Max) :
    addIf cond a b = .ok (if cond then a + b else a) :=
  addIf_eq_ok.mpr ⟨fits, rfl⟩

theorem addIf_error {cond : Bool} {a b : Nat} {msg : String} (failed : addIf cond a b = .error msg) :
    msg = "attempt to add with overflow" := by
  unfold addIf at failed
  split at failed
  · exact addU32_error failed
  · cases failed

@[simp] theorem ok_bind {α β : Type} (a : α) (f : α → Except String β) :
    (Except.ok a : Except String α).bind f = f a := rfl

@[simp] theorem error_bind {α β : Type} (msg : String) (f : α → Except String β) :
    (Except.error msg : Except String α).bind f = .error msg := rfl

theorem bind_eq_ok {α β : Type} {x : Except String α} {f : α → Except String β} {b : β} :
    x.bind f = .ok b ↔ ∃ a, x = .ok a ∧ f a = .ok b := by
  cases x <;> simp

theorem map_eq_ok {α β : Type} {x : Except String α} {f : α → β} {b : β} :
    x.map f = .ok b ↔ ∃ a, x = .ok a ∧ f a = b := by
  cases x <;> simp [Except.map]

theorem map_eq_error {α β : Type} {x : Except String α} {f : α → β} {msg : String}
    (failed : x.map f = .error msg) : x = .error msg := by
  cases x <;> simp_all [Except.map]

theorem bind_eq_error {α β : Type} {x : Except String α} {f : α → Except String β}
    {msg : String} (failed : x.bind f = .error msg) :
    x = .error msg ∨ ∃ a, x = .ok a ∧ f a = .error msg := by
  cases x
  · exact .inl (by simpa using failed)
  · exact .inr ⟨_, rfl, failed⟩

theorem addIf_bind_ok {β : Type} {cond : Bool} {a b : Nat} {f : Nat → Except String β} {x : β}
    (ran : (addIf cond a b).bind f = .ok x) :
    (cond → a + b ≤ u32Max) ∧ f (if cond then a + b else a) = .ok x := by
  obtain ⟨v, added, rest⟩ := bind_eq_ok.mp ran
  obtain ⟨fits, rfl⟩ := addIf_eq_ok.mp added
  exact ⟨fits, rest⟩

/-- The `loop` of `PileupEntry::new`: from op `index` on, with `queryPos` query bases behind,
the index and length of the first reference-consuming op and the query offset there. -/
def firstRefOp : Cigar → Nat → Nat → Except String (Nat × Nat × Nat)
  | [], _, _ => .error "index out of bounds"
  | (len, op) :: rest, index, queryPos =>
    if op.consumesRef then .ok (index, len, queryPos)
    else (addIf op.consumesQuery queryPos len).bind (firstRefOp rest (index + 1))

/-- The `while self.cigar_remaining == 0` loop of `move_forward`, entered when op `index` is
used up; `ops` are the ops after it. `none` is its `return false`. -/
def skipOps (alnQueryEnd : Nat) : Cigar → Nat → Nat → Except String (Option (Nat × Nat × Nat))
  | [], _, _ => .ok none
  | (len, op) :: rest, index, queryStart =>
    if alnQueryEnd ≤ queryStart then .ok none
    else if op.consumesRef then
      if len = 0 then skipOps alnQueryEnd rest (index + 1) queryStart
      else .ok (some (index + 1, len, queryStart))
    else (addIf op.consumesQuery queryStart len).bind (skipOps alnQueryEnd rest (index + 1))

/-- The `while` loop of `update_query_end` over the ops after the cursor: add the
query-consuming ops up to the next reference-consuming op, while below `aln_query_end`. -/
def insertionEnd (alnQueryEnd : Nat) : Cigar → Nat → Except String Nat
  | [], queryEnd => .ok queryEnd
  | (len, op) :: rest, queryEnd =>
    if queryEnd < alnQueryEnd then
      if op.consumesRef then .ok queryEnd
      else (addIf op.consumesQuery queryEnd len).bind (insertionEnd alnQueryEnd rest)
    else .ok queryEnd

theorem firstRefOp_some {ops : Cigar} {index queryPos i n q : Nat}
    (found : firstRefOp ops index queryPos = .ok (i, n, q)) :
    index ≤ i ∧ ∃ op, ops[i - index]? = some (n, op) ∧ op.consumesRef := by
  induction ops generalizing index queryPos with
  | nil => cases found
  | cons head rest ih =>
    obtain ⟨len, op⟩ := head
    simp only [firstRefOp] at found
    split at found
    · cases found
      exact ⟨le_rfl, op, by simp, by assumption⟩
    · obtain ⟨before, op', at_op, consumes⟩ := ih (addIf_bind_ok found).2
      refine ⟨by omega, op', ?_, consumes⟩
      rwa [show i - index = (i - (index + 1)) + 1 by omega, List.getElem?_cons_succ]

theorem skipOps_some {alnQueryEnd : Nat} {ops : Cigar} {index queryStart j n q : Nat}
    (found : skipOps alnQueryEnd ops index queryStart = .ok (some (j, n, q))) :
    index < j ∧ ∃ op, ops[j - index - 1]? = some (n, op) ∧ op.consumesRef := by
  induction ops generalizing index queryStart with
  | nil => cases found
  | cons head rest ih =>
    obtain ⟨len, op⟩ := head
    simp only [skipOps] at found
    have later : ∀ {q'}, skipOps alnQueryEnd rest (index + 1) q' = .ok (some (j, n, q)) →
        index < j ∧ ∃ op', ((len, op) :: rest)[j - index - 1]? = some (n, op') ∧
          op'.consumesRef :=
      fun found' => by
        obtain ⟨before, op', at_op, consumes⟩ := ih found'
        refine ⟨by omega, op', ?_, consumes⟩
        rwa [show j - index - 1 = (j - (index + 1) - 1) + 1 by omega, List.getElem?_cons_succ]
    split at found
    · cases found
    split at found
    · split at found
      · exact later found
      · cases found
        exact ⟨by omega, op, by simp, by assumption⟩
    · exact later (addIf_bind_ok found).2

theorem skipOps_error {alnQueryEnd : Nat} {ops : Cigar} {index queryStart : Nat} {msg : String}
    (failed : skipOps alnQueryEnd ops index queryStart = .error msg) :
    msg = "attempt to add with overflow" := by
  induction ops generalizing index queryStart with
  | nil => cases failed
  | cons head rest ih =>
    obtain ⟨len, op⟩ := head
    simp only [skipOps] at failed
    split at failed
    · cases failed
    split at failed
    · split at failed
      · exact ih failed
      · cases failed
    · rcases bind_eq_error failed with added | ⟨_, -, rest_failed⟩
      · exact addIf_error added
      · exact ih rest_failed

theorem firstRefOp_error {ops : Cigar} {index queryPos : Nat} {msg : String}
    (failed : firstRefOp ops index queryPos = .error msg) :
    msg = "index out of bounds" ∨ msg = "attempt to add with overflow" := by
  induction ops generalizing index queryPos with
  | nil => exact .inl (Except.error.inj failed).symm
  | cons head rest ih =>
    obtain ⟨len, op⟩ := head
    simp only [firstRefOp] at failed
    split at failed
    · cases failed
    · rcases bind_eq_error failed with added | ⟨_, -, rest_failed⟩
      · exact .inr (addIf_error added)
      · exact ih rest_failed

theorem insertionEnd_error {alnQueryEnd : Nat} {ops : Cigar} {queryEnd : Nat} {msg : String}
    (failed : insertionEnd alnQueryEnd ops queryEnd = .error msg) :
    msg = "attempt to add with overflow" := by
  induction ops generalizing queryEnd with
  | nil => cases failed
  | cons head rest ih =>
    obtain ⟨len, op⟩ := head
    simp only [insertionEnd] at failed
    split at failed
    · split at failed
      · cases failed
      · rcases bind_eq_error failed with added | ⟨_, -, rest_failed⟩
        · exact addIf_error added
        · exact ih rest_failed
    · cases failed

theorem lt_length_of_getElem? {cigar : Cigar} {i : Nat} {x : Nat × CigarOp}
    (at_i : cigar[i]? = some x) :
    i < cigar.length :=
  (List.getElem?_eq_some.mp at_i).1

theorem get_of_getElem? {cigar : Cigar} {i : Nat} {x : Nat × CigarOp} (at_i : cigar[i]? = some x) :
    cigar.get ⟨i, lt_length_of_getElem? at_i⟩ = x := by
  simpa using (List.getElem?_eq_some.mp at_i).2

theorem firstRefOp_cursor {cigar : Cigar} {i n q : Nat}
    (found : firstRefOp cigar 0 0 = .ok (i, n, q)) :
    cigar[i]? = some (n, (cigar[i]?.getD (0, .hard)).2) ∧
      (cigar[i]?.getD (0, .hard)).2.consumesRef := by
  obtain ⟨-, op, at_op, consumes⟩ := firstRefOp_some found
  simp only [Nat.sub_zero] at at_op
  simp [at_op, consumes]

theorem skipOps_cursor {alnQueryEnd : Nat} {cigar : Cigar} {index queryStart j n q : Nat}
    (found : skipOps alnQueryEnd (cigar.drop (index + 1)) index queryStart = .ok (some (j, n, q))) :
    cigar[j]? = some (n, (cigar[j]?.getD (0, .hard)).2) ∧
      (cigar[j]?.getD (0, .hard)).2.consumesRef := by
  obtain ⟨after, op, at_op, consumes⟩ := skipOps_some found
  rw [List.getElem?_drop, show index + 1 + (j - index - 1) = j by omega] at at_op
  simp [at_op, consumes]

/-- A pileup entry: the record and its cursor. The cursor always points into the cigar, at a
reference-consuming op; `new` and `move_forward` establish both facts. -/
structure PileupEntry where
  record : Record
  queryStart : Nat
  queryEnd : Nat
  alnQueryEnd : Nat
  refPos : Nat
  cigarIndex : Nat
  cigarRemaining : Nat
  index_lt : cigarIndex < record.cigar.length
  consumes_ref : (record.cigar.get ⟨cigarIndex, index_lt⟩).2.consumesRef
deriving DecidableEq

/-- Type of the record sequence at a reference position (`AlnType`). -/
inductive AlnType
  | deletion | alnMatch | insertion (len : Nat)
deriving DecidableEq, Repr

namespace PileupEntry

/-- `record.cigar().at(cigar_index)`. -/
def opAt (e : PileupEntry) : Nat × CigarOp := e.record.cigar.get ⟨e.cigarIndex, e.index_lt⟩

/-- The `query_end` that `update_query_end` computes from the rest of the cursor. -/
def endOf (e : PileupEntry) : Except String Nat :=
  if !e.opAt.2.consumesQuery then .ok e.queryStart
  else if e.cigarRemaining = 1 then
    (addU32 e.queryStart 1).bind fun queryEnd =>
      (insertionEnd e.alnQueryEnd (e.record.cigar.drop (e.cigarIndex + 1)) queryEnd).map
        fun queryEnd => min queryEnd e.alnQueryEnd
  else addU32 e.queryStart 1

/-- `update_query_end`. -/
def updateQueryEnd (e : PileupEntry) : Except String PileupEntry :=
  e.endOf.map fun queryEnd => { e with queryEnd }

/-- `PileupEntry::new`. The `assert!(cigar_index < record.cigar().len())` after its loop holds:
the loop only stops at an op of the cigar. -/
def new (record : Record) : Except String PileupEntry :=
  if record.start < 0 then .error "Pileup record cannot be unmapped"
  else
    match found : firstRefOp record.cigar 0 0 with
    | .error msg => .error msg
    | .ok (cigarIndex, cigarRemaining, queryPos) =>
      updateQueryEnd
        { record, queryStart := queryPos, queryEnd := queryPos,
          alnQueryEnd := record.alnQueryEnd, refPos := record.start.toNat, cigarIndex,
          cigarRemaining,
          index_lt := lt_length_of_getElem? (firstRefOp_cursor found).1,
          consumes_ref := by
            rw [get_of_getElem? (firstRefOp_cursor found).1]
            exact (firstRefOp_cursor found).2 }

/-- The `assert!(self.query_end <= self.aln_query_end)` that ends `move_forward`. -/
def checkQueryEnd (e : PileupEntry) : Except String (Option PileupEntry) :=
  if e.queryEnd ≤ e.alnQueryEnd then .ok (some e)
  else .error "assertion failed: self.query_end <= self.aln_query_end"

/-- `move_forward`: `some` the moved entry when it returns `true`, `none` when it returns
`false` (the caller then drops the entry). -/
def moveForward (e : PileupEntry) : Except String (Option PileupEntry) :=
  if e.cigarRemaining = 0 then .error "attempt to subtract with overflow"
  else
    (addIf e.opAt.2.consumesRef e.refPos 1).bind fun refPos =>
    (addIf e.opAt.2.consumesQuery e.queryStart 1).bind fun queryStart =>
    if e.cigarRemaining - 1 = 0 then
      match found : skipOps e.alnQueryEnd (e.record.cigar.drop (e.cigarIndex + 1)) e.cigarIndex
          queryStart with
      | .error msg => .error msg
      | .ok none => .ok none
      | .ok (some (cigarIndex, cigarRemaining, queryStart)) =>
        (updateQueryEnd
          { e with
            refPos, cigarIndex, cigarRemaining, queryStart,
            index_lt := lt_length_of_getElem? (skipOps_cursor found).1,
            consumes_ref := by
              rw [get_of_getElem? (skipOps_cursor found).1]
              exact (skipOps_cursor found).2 }).bind checkQueryEnd
    else (updateQueryEnd
      { e with cigarRemaining := e.cigarRemaining - 1, refPos, queryStart }).bind checkQueryEnd

def len (e : PileupEntry) : Nat := e.queryEnd - e.queryStart

def alnType (e : PileupEntry) : AlnType :=
  match e.len with
  | 0 => .deletion
  | 1 => .alnMatch
  | x + 2 => .insertion (x + 1)

end PileupEntry

end Bam
