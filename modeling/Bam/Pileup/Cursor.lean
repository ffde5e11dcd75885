import Bam.Pileup.Entry

set_option autoImplicit false

/- The cursor of a pileup entry over a whole walk: what one `move_forward` does, the states
`new` and `move_forward` go through, and the measure that bounds them. -/
namespace Bam

namespace PileupEntry

theorem updateQueryEnd_ok {e e' : PileupEntry} (updated : e.updateQueryEnd = .ok e') :
    ∃ queryEnd, e.endOf = .ok queryEnd ∧ e' = { e with queryEnd } := by
  unfold updateQueryEnd at updated
  cases ended : e.endOf <;> simp only [ended, Except.map] at updated <;> cases updated
  exact ⟨_, rfl, rfl⟩

theorem updateQueryEnd_error {e : PileupEntry} {msg : String}
    (failed : e.updateQueryEnd = .error msg) : e.endOf = .error msg := by
  unfold updateQueryEnd at failed
  cases ended : e.endOf <;> simp only [ended, Except.map] at failed <;> cases failed
  rfl

theorem updateQueryEnd_of_endOf {e : PileupEntry} {queryEnd : Nat} (ended : e.endOf = .ok queryEnd) :
    e.updateQueryEnd = .ok { e with queryEnd } := by
  simp [updateQueryEnd, ended, Except.map]

theorem getElem?_cigarIndex (e : PileupEntry) : e.record.cigar[e.cigarIndex]? = some e.opAt := by
  simp [opAt]

theorem opAt_consumesRef (e : PileupEntry) : e.opAt.2.consumesRef := e.consumes_ref

theorem checkQueryEnd_eq_some {e e' : PileupEntry} :
    e.checkQueryEnd = .ok (some e') ↔ e = e' ∧ e.queryEnd ≤ e.alnQueryEnd := by
  unfold checkQueryEnd
  split
  · simp_all
  · simp only [reduceCtorEq, false_iff, not_and]
    rintro rfl
    assumption

/-- The state `move_forward` builds from `e` before `update_query_end`: one reference base on,
within the op or at the op `skipOps` finds. -/
structure Stepped (e c : PileupEntry) : Prop where
  record : c.record = e.record
  aln : c.alnQueryEnd = e.alnQueryEnd
  refPos : c.refPos = e.refPos + 1
  cursor : let queryStart := if e.opAt.2.consumesQuery then e.queryStart + 1 else e.queryStart
    (1 < e.cigarRemaining ∧ c.cigarIndex = e.cigarIndex ∧
        c.cigarRemaining = e.cigarRemaining - 1 ∧ c.queryStart = queryStart) ∨
      (e.cigarRemaining = 1 ∧ skipOps e.alnQueryEnd (e.record.cigar.drop (e.cigarIndex + 1))
        e.cigarIndex queryStart = .ok (some (c.cigarIndex, c.cigarRemaining, c.queryStart)))

theorem Stepped.withQueryEnd {e c : PileupEntry} (stepped : Stepped e c) (queryEnd : Nat) :
    Stepped e { c with queryEnd } :=
  ⟨stepped.record, stepped.aln, stepped.refPos, stepped.cursor⟩

/-- What `move_forward` can do: panic on a used-up op or on an overflowing `+= 1`, stop or
panic in its loop, or build the next state and update and check its `query_end`. -/
theorem moveForward_cases (e : PileupEntry) :
    (e.cigarRemaining = 0 ∧ e.moveForward = .error "attempt to subtract with overflow") ∨
      (0 < e.cigarRemaining ∧
        (u32Max < e.refPos + 1 ∨ e.opAt.2.consumesQuery ∧ u32Max < e.queryStart + 1) ∧
        e.moveForward = .error "attempt to add with overflow") ∨
      (e.cigarRemaining = 1 ∧ e.moveForward = .ok none ∧
        skipOps e.alnQueryEnd (e.record.cigar.drop (e.cigarIndex + 1)) e.cigarIndex
          (if e.opAt.2.consumesQuery then e.queryStart + 1 else e.queryStart) = .ok none) ∨
      (∃ msg, e.cigarRemaining = 1 ∧ e.moveForward = .error msg ∧
        skipOps e.alnQueryEnd (e.record.cigar.drop (e.cigarIndex + 1)) e.cigarIndex
          (if e.opAt.2.consumesQuery then e.queryStart + 1 else e.queryStart) = .error msg) ∨
      ∃ c, Stepped e c ∧ e.moveForward = c.updateQueryEnd.bind checkQueryEnd := by
  unfold moveForward
  split
  · exact .inl ⟨‹_›, rfl⟩
  rename_i used
  by_cases refFits : e.refPos + 1 ≤ u32Max
  swap
  · refine .inr (.inl ⟨by omega, .inl (by omega), ?_⟩)
    simp [addIf, addU32, opAt_consumesRef, refFits]
  by_cases queryFits : e.opAt.2.consumesQuery → e.queryStart + 1 ≤ u32Max
  swap
  · refine .inr (.inl ⟨by omega, .inr (by simpa using queryFits), ?_⟩)
    simp only [Classical.not_imp, not_le] at queryFits
    simp [addIf, addU32, opAt_consumesRef, refFits, queryFits.1, not_le.mpr queryFits.2]
  rw [addIf_of_le (fun _ => refFits), ok_bind, addIf_of_le queryFits, ok_bind,
    if_pos (opAt_consumesRef e)]
  split
  · split
    · exact .inr (.inr (.inr (.inl ⟨_, by omega, rfl, ‹_›⟩)))
    · exact .inr (.inr (.inl ⟨by omega, rfl, ‹_›⟩))
    · refine .inr (.inr (.inr (.inr ⟨_, ?_, rfl⟩)))
      exact ⟨rfl, rfl, rfl, .inr ⟨by omega, ‹_›⟩⟩
  · refine .inr (.inr (.inr (.inr ⟨_, ?_, rfl⟩)))
    exact ⟨rfl, rfl, rfl, .inl ⟨by omega, rfl, rfl, rfl⟩⟩

/-- What `move_forward` does when it returns `true`. -/
theorem moveForward_some {e e' : PileupEntry} (moved : e.moveForward = .ok (some e')) :
    Stepped e e' ∧ e'.endOf = .ok e'.queryEnd ∧ e'.queryEnd ≤ e'.alnQueryEnd := by
  rcases moveForward_cases e with ⟨-, failed⟩ | ⟨-, -, failed⟩ | ⟨-, stopped, -⟩ |
      ⟨_, -, failed, -⟩ | ⟨c, stepped, built⟩
  · cases moved.symm.trans failed
  · cases moved.symm.trans failed
  · cases moved.symm.trans stopped
  · cases moved.symm.trans failed
  · obtain ⟨c', updated, checked⟩ := bind_eq_ok.mp (built ▸ moved)
    obtain ⟨rfl, bound⟩ := checkQueryEnd_eq_some.mp checked
    obtain ⟨_, ended, rfl⟩ := updateQueryEnd_ok updated
    exact ⟨stepped.withQueryEnd _, ended, bound⟩

theorem moveForward_none {e : PileupEntry} (stopped : e.moveForward = .ok none) :
    e.cigarRemaining = 1 ∧ skipOps e.alnQueryEnd (e.record.cigar.drop (e.cigarIndex + 1))
      e.cigarIndex (if e.opAt.2.consumesQuery then e.queryStart + 1 else e.queryStart) =
        .ok none := by
  rcases moveForward_cases e with ⟨-, failed⟩ | ⟨-, -, failed⟩ | ⟨last, -, none_found⟩ |
      ⟨_, -, failed, -⟩ | ⟨c, -, built⟩
  · cases stopped.symm.trans failed
  · cases stopped.symm.trans failed
  · exact ⟨last, none_found⟩
  · cases stopped.symm.trans failed
  · obtain ⟨_, -, checked⟩ := bind_eq_ok.mp (built ▸ stopped)
    unfold checkQueryEnd at checked
    split at checked <;> cases checked

/-- What `PileupEntry::new` can do: panic on an unmapped record or in its loop, or build the
cursor at the op its loop finds and update its `query_end`. -/
theorem new_cases (r : Record) :
    (r.start < 0 ∧ PileupEntry.new r = .error "Pileup record cannot be unmapped") ∨
      (0 ≤ r.start ∧ ∃ msg, firstRefOp r.cigar 0 0 = .error msg ∧ PileupEntry.new r = .error msg) ∨
      (0 ≤ r.start ∧ ∃ c : PileupEntry, c.record = r ∧ c.alnQueryEnd = r.alnQueryEnd ∧
        c.refPos = r.start.toNat ∧
        firstRefOp r.cigar 0 0 = .ok (c.cigarIndex, c.cigarRemaining, c.queryStart) ∧
        PileupEntry.new r = c.updateQueryEnd) := by
  unfold PileupEntry.new
  split
  · exact .inl ⟨‹_›, rfl⟩
  split
  · exact .inr (.inl ⟨by omega, _, ‹_›, rfl⟩)
  · exact .inr (.inr ⟨by omega, _, rfl, rfl, rfl, ‹_›, rfl⟩)

theorem new_ok {r : Record} {e : PileupEntry} (created : PileupEntry.new r = .ok e) :
    0 ≤ r.start ∧ e.record = r ∧ e.alnQueryEnd = r.alnQueryEnd ∧
      e.refPos = r.start.toNat ∧ e.endOf = .ok e.queryEnd ∧
      firstRefOp r.cigar 0 0 = .ok (e.cigarIndex, e.cigarRemaining, e.queryStart) := by
  rcases new_cases r with ⟨-, failed⟩ | ⟨-, _, -, failed⟩ |
      ⟨nonneg, c, record, aln, refPos, found, built⟩
  · cases created.symm.trans failed
  · cases created.symm.trans failed
  · obtain ⟨_, ended, rfl⟩ := updateQueryEnd_ok (built ▸ created)
    exact ⟨nonneg, record, aln, refPos, ended, found⟩

theorem endOf_error {e : PileupEntry} {msg : String} (failed : e.endOf = .error msg) :
    msg = "attempt to add with overflow" := by
  unfold endOf at failed
  split at failed
  · cases failed
  split at failed
  · rcases bind_eq_error failed with added | ⟨_, -, inserted⟩
    · exact addU32_error added
    · exact insertionEnd_error (map_eq_error inserted)
  · exact addU32_error failed

theorem new_error {r : Record} {msg : String} (failed : PileupEntry.new r = .error msg) :
    msg = "Pileup record cannot be unmapped" ∨ msg = "index out of bounds" ∨
      msg = "attempt to add with overflow" := by
  rcases new_cases r with ⟨-, failed'⟩ | ⟨-, _, found, failed'⟩ | ⟨-, c, -, -, -, -, built⟩
  · exact .inl (Except.error.inj (failed.symm.trans failed'))
  · cases failed.symm.trans failed'
    exact .inr (firstRefOp_error found)
  · exact .inr (.inr (endOf_error (map_eq_error (built ▸ failed))))

theorem moveForward_error {e : PileupEntry} {msg : String} (failed : e.moveForward = .error msg) :
    msg = "attempt to subtract with overflow" ∨ msg = "attempt to add with overflow" ∨
      msg = "assertion failed: self.query_end <= self.aln_query_end" := by
  rcases moveForward_cases e with ⟨-, failed'⟩ | ⟨-, -, failed'⟩ | ⟨-, stopped, -⟩ |
      ⟨_, -, failed', found⟩ | ⟨c, -, built⟩
  · exact .inl (Except.error.inj (failed.symm.trans failed'))
  · exact .inr (.inl (Except.error.inj (failed.symm.trans failed')))
  · cases failed.symm.trans stopped
  · cases failed.symm.trans failed'
    exact .inr (.inl (skipOps_error found))
  · rcases bind_eq_error (built ▸ failed) with updated | ⟨c', -, checked⟩
    · exact .inr (.inl (endOf_error (map_eq_error updated)))
    · unfold checkQueryEnd at checked
      split at checked
      · cases checked
      · exact .inr (.inr (Except.error.inj checked).symm)

/-- A record whose first reference-consuming op has length 0 (`0M5M`): `new` stops at that op
and leaves `cigar_remaining = 0`, where `move_forward`'s own loop would have skipped it. -/
def recordZeroFirst : Record :=
  { refId := 0, start := 0, mapped := true, bin := 4681,
    cigar := [(0, .alnMatch), (5, .alnMatch)], alnQueryEnd := 5 }

theorem new_zero_length_op_underflows :
    ∃ e, PileupEntry.new recordZeroFirst = .ok e ∧ e.cigarRemaining = 0 ∧
      e.moveForward = .error "attempt to subtract with overflow" :=
  ⟨_, rfl, rfl, rfl⟩

theorem opAt_congr {e e' : PileupEntry} (record : e.record = e'.record)
    (index : e.cigarIndex = e'.cigarIndex) : e.opAt = e'.opAt := by
  have same := getElem?_cigarIndex e
  rw [record, index, getElem?_cigarIndex e'] at same
  exact (Option.some.inj same).symm

/-- The states a walk from `e₀` shows: `e₀` itself, and each state after a `move_forward`
that returned `true`. -/
inductive Emitted (e₀ : PileupEntry) : PileupEntry → Prop
  | start : Emitted e₀ e₀
  | step {e e' : PileupEntry} : Emitted e₀ e → e.moveForward = .ok (some e') → Emitted e₀ e'

end PileupEntry

end Bam
