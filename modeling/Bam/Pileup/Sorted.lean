import Bam.Pileup.Order

set_option autoImplicit false

/- A run on a sorted input without `Err` items. The most recently ingested record stays live at
its start until the target reaches it, and no passing record still to read lies before it; so
the guard of the ingestion loop (lines 264-266) holds exactly when that record lies at the
target, as the comment there says. -/
namespace Bam

namespace Pileup

variable (readFilter : Record → Bool) (input : List Item)

/-- The target the first pass of the loop at lines 253-274 computes. -/
def aim (p : Pileup) : Nat × Nat := p.entries.foldl targetStep (u32Max, u32Max)

/-- The invariant of a run on a sorted input with no `Err` items. -/
structure Tracked (p : Pileup) : Prop where
  clean : p.error = none
  bounded : p.lastRefId ≤ u32Max
  latest : ∃ pulled, input = pulled ++ p.recordIter ∧ (p.lastRefId < u32Max →
    ∃ r, (passingRecords readFilter pulled).getLast? = some r ∧ r.pos = p.last ∧
      ∃ e ∈ p.entries, PileupEntry.new r = .ok e)
  unread : ∀ r ∈ passingRecords readFilter p.recordIter, AtOrBefore p.last r.pos

/-- The ingestion loop's view toward `target`: its guard holds exactly when the last ingested record
lies at or before the target, then at it; the target is the least live position. -/
structure Aimed (target : Nat × Nat) (q : Pileup) : Prop where
  guard_iff : ingestGuard target q ↔ q.lastRefId < u32Max ∧ AtOrBefore q.last target
  at_target : ingestGuard target q → q.last = target
  least : ∀ e ∈ q.entries, AtOrBefore target e.pos
  attained : q.entries ≠ [] → ∃ e ∈ q.entries, e.pos = target

variable {readFilter input}

theorem Tracked.ordered {p : Pileup} (tracked : Tracked readFilter input p) : Ordered none p := by
  refine ⟨tracked.bounded, fun fresh => ?_, fun _ _ => trivial, fun _ => trivial⟩
  obtain ⟨_, _, latest⟩ := tracked.latest
  obtain ⟨r, -, at_last, e, mem, created⟩ := latest fresh
  exact ⟨e, mem, (PileupEntry.pos_of_new created).trans at_last⟩

theorem tracked_columnLoop {target : Nat × Nat} {q : Pileup} {live column : List PileupEntry}
    (tracked : Tracked readFilter input q) (settled : Settled target q)
    (looped : columnLoop target q.entries.length q.entries [] = .ok (live, column)) :
    Tracked readFilter input { q with entries := live } := by
  obtain ⟨pulled, split, latest⟩ := tracked.latest
  refine ⟨tracked.clean, tracked.bounded, ⟨pulled, split, fun fresh => ?_⟩, tracked.unread⟩
  obtain ⟨r, last_r, at_last, e, mem, created⟩ := latest fresh
  refine ⟨r, last_r, at_last, e, columnLoop_keeps looped mem fun same => ?_, created⟩
  exact (settled.past fresh).ne (same.symm.trans ((PileupEntry.pos_of_new created).trans at_last))

section Sorted

variable (sorted : (passingRecords readFilter input).Pairwise fun a b => AtOrBefore a.pos b.pos)
  (no_errors : ∀ err, Except.error err ∉ input)
include sorted no_errors

theorem tracked_readLoop {p p' : Pileup} (clean : p.error = none) (pulled : List Item)
    (split : input = pulled ++ p.recordIter)
    (unread : ∀ r ∈ passingRecords readFilter p.recordIter, AtOrBefore p.last r.pos)
    (looped : readLoop readFilter p p.recordIter = .ok p') : Tracked readFilter input p' := by
  rcases readLoop_cases readFilter looped with
      ⟨-, rfl⟩ | ⟨skipped, e, rest, items, -, rfl⟩ |
      ⟨skipped, r, rest, entry, items, none_before, passed, created, rfl⟩
  · exact ⟨clean, le_refl _, ⟨pulled ++ p.recordIter, by simp [split],
      fun stop => absurd stop (lt_irrefl _)⟩, by simp [passingRecords]⟩
  · exact absurd (by rw [split, items]; simp) (no_errors e)
  · have kept := (recordPasses_true readFilter passed).1
    obtain ⟨passing, tail⟩ :=
      passingRecords_ingested readFilter sorted split items none_before kept
    have sorted_r := unread r (by simp [passing])
    have bound := r.refId_toNat_lt
    refine ⟨by simp [ingested, clean, sorted_r.not_before],
      by simp only [ingested, u32Max]; omega,
      ⟨pulled ++ skipped ++ [.ok r], by simp [split, items, ingested],
        fun _ => ⟨r, ?_, rfl, entry, by simp [ingested], created⟩⟩, tail⟩
    simp [passingRecords, none_before, kept]

theorem tracked_readNext {p p' : Pileup} (tracked : Tracked readFilter input p)
    (read : readNext readFilter p = .ok p') : Tracked readFilter input p' := by
  rcases readNext_cases readFilter read with ⟨rfl, -⟩ | ⟨-, -, looped⟩
  · exact tracked
  · obtain ⟨pulled, split, -⟩ := tracked.latest
    exact tracked_readLoop sorted no_errors tracked.clean pulled split tracked.unread looped

theorem tracked_withFilter {p : Pileup} (created : withFilter readFilter input = .ok p) :
    Tracked readFilter input p := by
  rcases readNext_cases readFilter created with ⟨-, start | latched⟩ | ⟨-, -, looped⟩
  · simp [u32Max] at start
  · simp at latched
  · exact tracked_readLoop sorted no_errors rfl [] (by rfl)
      (fun r _ => by simp only [AtOrBefore, last]; omega) looped

theorem tracked_next {fuel : Nat} {p p' : Pileup} {out : Output}
    (tracked : Tracked readFilter input p)
    (returned : next readFilter fuel p = some (.ok (out, p'))) : Tracked readFilter input p' := by
  unfold next at returned
  split at returned
  · rename_i latched
    rw [tracked.clean] at latched
    cases latched
  · split at returned
    · cases returned
    · cases returned
    · rename_i target q searched
      have tracked_q : Tracked readFilter input q := search_invariant readFilter _
        (fun _ _ holds read => tracked_readNext sorted no_errors holds read) fuel tracked searched
      split at returned
      · rename_i latched
        rw [tracked_q.clean] at latched
        cases latched
      · split at returned
        · cases returned
        · rename_i live column looped
          cases returned
          obtain ⟨-, settled⟩ := settled_search readFilter fuel
            (fun _ => ⟨tracked.ordered, .inl rfl⟩) searched tracked_q.clean
          exact tracked_columnLoop tracked_q settled looped

theorem steps_tracked {p p' : Pileup} {outs : List Output} (tracked : Tracked readFilter input p)
    (run : Steps readFilter p outs p') : Tracked readFilter input p' := by
  induction run with
  | refl => exact tracked
  | step returns _ ih =>
    obtain ⟨fuel, returned⟩ := returns
    exact ih (tracked_next sorted no_errors tracked returned)

theorem aimed_reach {p q : Pileup} (tracked : Tracked readFilter input p)
    (reach : IngestReach readFilter (aim p) p q) :
    Tracked readFilter input q ∧ Aimed (aim p) q := by
  have tracked_q : Tracked readFilter input q := reach.invariant readFilter _ tracked
    fun _ _ holds _ read => tracked_readNext sorted no_errors holds read
  have rising : Rising none (aim p) q := reach.invariant readFilter _
    (fun _ => ⟨tracked.ordered, (foldl_targetStep p.entries _).2.2⟩)
    fun _ _ holds _ read => rising_readNext readFilter holds read
  obtain ⟨-, least⟩ := rising tracked_q.clean
  have bounded := tracked_q.bounded
  have at_last := tracked_q.ordered.target_le_last least
  have at_target : ingestGuard (aim p) q → q.last = aim p := by
    intro guard
    have le := at_last guard.1
    simp only [ingestGuard, AtOrBefore, last] at guard le ⊢
    ext <;> omega
  refine ⟨tracked_q,
    ⟨⟨fun guard => ⟨guard.1, ?_⟩, fun ⟨fresh, le⟩ => ?_⟩, at_target, least, ?_⟩⟩
  · rw [at_target guard]
    exact .inr ⟨rfl, le_refl _⟩
  · have ge := at_last fresh
    simp only [ingestGuard, AtOrBefore, last] at le ge ⊢
    omega
  · by_cases empty : p.entries = []
    · have exhausted : ¬ p.lastRefId < u32Max := fun fresh => by
        obtain ⟨e, mem, -⟩ := tracked.ordered.live fresh
        simp [empty] at mem
      have unmoved : q = p ∨ ingestGuard (aim p) p := reach.invariant readFilter
        (fun q => q = p ∨ ingestGuard (aim p) p) (.inl rfl)
        fun _ _ holds guard _ => .inr (holds.elim (fun same => by subst same; exact guard) id)
      rcases unmoved with rfl | guard
      · exact fun nonempty => absurd empty nonempty
      · exact absurd guard.1 exhausted
    · obtain ⟨⟨e, mem, at_e⟩, -⟩ := target_least empty
      have grown : e ∈ q.entries := reach.invariant readFilter (fun q => e ∈ q.entries) mem
        fun _ _ holds _ read => readNext_entries readFilter read e holds
      exact fun _ => ⟨e, grown, at_e.symm⟩

/-- On a sorted input with no `Err` items a run keeps its invariant, the ingestion guard holds
exactly at the target, and no call fails the left-of-position assertion. -/
theorem sorted_input_invariant {p₀ p : Pileup} {outs : List Output}
    (created : withFilter readFilter input = .ok p₀) (run : Steps readFilter p₀ outs p) :
    Tracked readFilter input p ∧
      (∀ q, IngestReach readFilter (aim p) p q →
        Tracked readFilter input q ∧ Aimed (aim p) q) ∧
      ∀ fuel, next readFilter fuel p ≠
        some (.error "Record is to the left of the new pileup position") := by
  have tracked := steps_tracked sorted no_errors (tracked_withFilter sorted no_errors created) run
  exact ⟨tracked, fun q reach => aimed_reach sorted no_errors tracked reach,
    fun fuel => next_ne_left readFilter fuel fun _ => tracked.ordered⟩

end Sorted

theorem sorted_input_invariant_two_refs :
    ∃ p₀ out p, withFilter (fun _ => true) [.ok recordRefZero, .ok recordRefOne] = .ok p₀ ∧
      Steps (fun _ => true) p₀ [out] p ∧ aim p = (0, 1) ∧ ¬ ingestGuard (aim p) p ∧
      Tracked (fun _ => true) [.ok recordRefZero, .ok recordRefOne] p ∧ Aimed (aim p) p ∧
      ∀ fuel, next (fun _ => true) fuel p ≠
        some (.error "Record is to the left of the new pileup position") := by
  obtain ⟨p₀, out, p, created, run, aimed_at, off⟩ :
      ∃ p₀ out p, withFilter (fun _ => true) [.ok recordRefZero, .ok recordRefOne] = .ok p₀ ∧
        Steps (fun _ => true) p₀ [out] p ∧ aim p = (0, 1) ∧ ¬ ingestGuard (aim p) p :=
    ⟨_, _, _, rfl, .step ⟨3, rfl⟩ (.refl _), rfl, by decide⟩
  obtain ⟨tracked, reach, never⟩ := sorted_input_invariant (by decide) (by simp) created run
  exact ⟨p₀, out, p, created, run, aimed_at, off, tracked, (reach p .start).2, never⟩

end Pileup

end Bam
