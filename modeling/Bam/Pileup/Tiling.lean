import Bam.Pileup.Direct

set_option autoImplicit false

/- How the walk of a record splits its query among the entries, whose `[query_start, query_end)`
`sequence()` and `qualities()` slice (lines 154-170). After the last base of a deletion or skip
`update_query_end` does not look ahead (line 69), so an insertion behind a deletion lies in no
entry's interval. -/
namespace Bam

theorem skipOps_queryRun {alnQueryEnd : Nat} :
    ∀ {ops : Cigar} {m q₀ j n q : Nat}, (∀ x ∈ ops, 0 < x.1) →
      skipOps alnQueryEnd ops m q₀ = .ok (some (j, n, q)) →
      q = q₀ + Cigar.queryRun ops ∧ q < alnQueryEnd
  | [], _, _, _, _, _, _, found => by cases found
  | (len, op) :: rest, m, q₀, j, n, q, positive, found => by
    simp only [skipOps] at found
    split at found
    · cases found
    rename_i below
    split at found
    · rename_i consumes
      split at found
      · rename_i empty
        exact absurd (positive _ (.head _)) (by simp [empty])
      · cases found
        simp [Cigar.queryRun, consumes]
        omega
    · rename_i other
      obtain ⟨run, bound⟩ :=
        skipOps_queryRun (fun x mem => positive x (.tail _ mem)) (addIf_bind_ok found).2
      simp only [Cigar.queryRun, other, Bool.false_eq_true, if_false]
      by_cases query : op.consumesQuery <;>
        simp only [query, if_true, Bool.false_eq_true, if_false, Nat.zero_add] at run ⊢ <;> omega

theorem skipOps_none_queryRun {alnQueryEnd : Nat} :
    ∀ {ops : Cigar} {m q₀ : Nat}, (∀ x ∈ ops, 0 < x.1) →
      skipOps alnQueryEnd ops m q₀ = .ok none →
      alnQueryEnd ≤ q₀ + Cigar.queryRun ops ∨ Cigar.queryRun ops = Cigar.queryLen ops
  | [], _, _, _, _ => .inr rfl
  | (len, op) :: rest, m, q₀, positive, stopped => by
    simp only [skipOps] at stopped
    split at stopped
    · exact .inl (by omega)
    split at stopped
    · rename_i consumes
      split at stopped
      · rename_i empty
        exact absurd (positive _ (.head _)) (by simp [empty])
      · cases stopped
    · rename_i other
      have rest_run := skipOps_none_queryRun (fun x mem => positive x (.tail _ mem))
        (addIf_bind_ok stopped).2
      simp only [Cigar.queryRun, other, Bool.false_eq_true, if_false, Cigar.queryLen_cons]
      by_cases query : op.consumesQuery <;>
        simp only [query, if_true, Bool.false_eq_true, if_false, Nat.zero_add] at rest_run ⊢ <;>
        omega

namespace PileupEntry

/-- The query bases the walk passes over after `e`: the query run behind the last base of a
deletion or skip, nothing elsewhere. -/
def skippedAfter (e : PileupEntry) : Nat :=
  if e.opAt.2.consumesQuery ∨ e.cigarRemaining ≠ 1 then 0
  else Cigar.queryRun (e.record.cigar.drop (e.cigarIndex + 1))

section Tiling

variable {r : Record} (alnEq : r.alnQueryEnd = r.cigar.queryLen - r.cigar.softClipEnd)
  (positive : ∀ x ∈ r.cigar, 0 < x.1)

include alnEq in
theorem AtBase.queryStart_le {i k : Nat} {e : PileupEntry} (at_base : AtBase r i k e) :
    e.queryStart ≤ e.queryEnd ∧ e.queryEnd ≤ r.alnQueryEnd := by
  have bounded := at_base.queryEnd_le alnEq
  rw [at_base.aln] at bounded
  by_cases query : e.opAt.2.consumesQuery
  · exact ⟨Nat.le_of_succ_le (at_base.queryStart_lt alnEq query), bounded⟩
  · have same := at_base.queryEnd
    simp only [query, Bool.false_eq_true, if_false] at same
    exact ⟨same.ge, bounded⟩

include alnEq positive in
theorem AtBase.queryStart_moveForward {i k : Nat} {e e' : PileupEntry} (at_base : AtBase r i k e)
    (moved : e.moveForward = .ok (some e')) : e'.queryStart = e.queryEnd + e.skippedAfter := by
  obtain ⟨⟨-, -, -, cursor⟩, -, -⟩ := PileupEntry.moveForward_some moved
  have base := at_base.base
  have remaining := at_base.remaining
  have ends := at_base.queryEnd
  unfold skippedAfter
  rw [at_base.record, at_base.index]
  rcases cursor with ⟨more, -, -, start⟩ | ⟨last, found⟩
  · -- within the op
    have inner : ¬ k + 1 = e.opAt.1 := by omega
    rw [if_pos (.inr (by omega)), start]
    by_cases query : e.opAt.2.consumesQuery
    · have covered := at_base.queryStart_lt alnEq query
      simp only [query, if_true, inner, if_false, Nat.add_zero] at ends ⊢
      omega
    · simp [query, ends]
  · -- at the last base, on to the op the loop finds
    rw [at_base.record, at_base.index, at_base.aln] at found
    obtain ⟨run, below⟩ :=
      skipOps_queryRun (fun x mem => positive x (List.mem_of_mem_drop mem)) found
    have final : k + 1 = e.opAt.1 := by omega
    by_cases query : e.opAt.2.consumesQuery
    · simp only [query, if_true, final, true_or] at ends run ⊢
      omega
    · simp only [query, Bool.false_eq_true, if_false, false_or, last, ne_eq,
        not_true_eq_false] at ends run ⊢
      omega

include alnEq positive in
theorem AtBase.alnQueryEnd_le_of_stop {i k : Nat} {e : PileupEntry} (at_base : AtBase r i k e)
    (stopped : e.moveForward = .ok none) : r.alnQueryEnd ≤ e.queryEnd + e.skippedAfter := by
  obtain ⟨last, none_found⟩ := moveForward_none stopped
  have base := at_base.base
  have remaining := at_base.remaining
  have ends := at_base.queryEnd
  have before := at_base.queryStart
  have total := Cigar.queryLen_eq_queryBefore_add r.cigar (i + 1)
  have next := Cigar.queryBefore_succ at_base.op
  unfold skippedAfter
  rw [at_base.record, at_base.index, at_base.aln] at none_found
  rw [at_base.record, at_base.index]
  have reached := skipOps_none_queryRun (fun x mem => positive x (List.mem_of_mem_drop mem))
    none_found
  have final : k + 1 = e.opAt.1 := by omega
  by_cases query : e.opAt.2.consumesQuery
  · simp only [query, if_true, final, true_or] at ends before next reached ⊢
    omega
  · simp only [query, Bool.false_eq_true, if_false, false_or, last, ne_eq,
      not_true_eq_false, Nat.add_zero] at ends before next reached ⊢
    omega

include alnEq positive in
theorem AtBase.queryEnd_le_emitted {i k : Nat} {e e' e'' : PileupEntry}
    (at_base : AtBase r i k e) (moved : e.moveForward = .ok (some e')) (later : Emitted e' e'') :
    e.queryEnd ≤ e''.queryStart := by
  induction later with
  | start =>
    rw [at_base.queryStart_moveForward alnEq positive moved]
    exact Nat.le_add_right _ _
  | @step c c' walked moved' ih =>
    obtain ⟨i₁, k₁, at_e'⟩ := atBase_moveForward alnEq at_base moved
    obtain ⟨i', k', at_c⟩ := at_e'.emitted alnEq walked
    calc e.queryEnd ≤ c.queryStart := ih
      _ ≤ c.queryEnd := (at_c.queryStart_le alnEq).1
      _ ≤ c'.queryStart := by
        rw [at_c.queryStart_moveForward alnEq positive moved']
        exact Nat.le_add_right _ _

end Tiling

/-- `5M2D3I5M` at `(0, 0)`: three inserted bases behind a deletion. -/
def recordDeletionInsertion : Record :=
  { refId := 0, start := 0, mapped := true, bin := 4681,
    cigar := [(5, .alnMatch), (2, .deletion), (3, .insertion), (5, .alnMatch)],
    alnQueryEnd := 13 }

end PileupEntry

end Bam
