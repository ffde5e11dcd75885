import Bam.Pileup.Complete

set_option autoImplicit false

/- How far the pileup reads ahead of its columns. The ingestion loop (lines 264-266) calls
`read_next` only while the last record read lies at the target, where the column is built: on a
sorted input the pileup holds at most one record past the column it returns, and none that
belongs to the column is left unread. -/
namespace Bam

namespace Pileup

variable (readFilter : Record → Bool) (input : List Item)

/-- The passing records read from `input` before `p`, all but the most recent, lie at or before
`bound`. -/
def Behind (bound : Nat × Nat) (p : Pileup) : Prop :=
  ∃ pulled, input = pulled ++ p.recordIter ∧
    ∀ r ∈ (passingRecords readFilter pulled).dropLast, AtOrBefore r.pos bound

variable {readFilter input}

theorem Behind.mono {bound bound' : Nat × Nat} {p : Pileup}
    (behind : Behind readFilter input bound p) (le : AtOrBefore bound bound') :
    Behind readFilter input bound' p :=
  let ⟨pulled, split, before⟩ := behind
  ⟨pulled, split, fun r mem => (before r mem).trans le⟩

/-- One pass of the loop of `read_next` reads at most one passing record. -/
theorem behind_readLoop {bound : Nat × Nat} {p p' : Pileup} (pulled : List Item)
    (split : input = pulled ++ p.recordIter)
    (before : ∀ r ∈ passingRecords readFilter pulled, AtOrBefore r.pos bound)
    (looped : readLoop readFilter p p.recordIter = .ok p') : Behind readFilter input bound p' := by
  rcases readLoop_cases readFilter looped with
      ⟨none_left, rfl⟩ | ⟨skipped, e, rest, items, none_before, rfl⟩ |
      ⟨skipped, r, rest, entry, items, none_before, passed, -, rfl⟩
  · refine ⟨pulled ++ p.recordIter, by simp [split], fun r mem => before r ?_⟩
    simpa [none_left] using List.dropLast_subset _ mem
  · refine ⟨pulled ++ (skipped ++ [.error e]), by simp [split, items], fun r mem => before r ?_⟩
    simpa [none_before, passingRecords] using List.dropLast_subset _ mem
  · have kept := (recordPasses_true readFilter passed).1
    refine ⟨pulled ++ (skipped ++ [.ok r]), by simp [split, items, ingested], ?_⟩
    simpa [none_before, passingRecords, kept] using before

theorem behind_readNext {bound : Nat × Nat} {q q' : Pileup}
    (tracked : Tracked readFilter input q) (behind : Behind readFilter input bound q)
    (at_bound : q.last = bound) (read : readNext readFilter q = .ok q') :
    Behind readFilter input bound q' := by
  rcases readNext_cases readFilter read with ⟨rfl, -⟩ | ⟨fresh, -, looped⟩
  · exact behind
  obtain ⟨pulled, split, before⟩ := behind
  obtain ⟨pulled', split', latest⟩ := tracked.latest
  obtain rfl : pulled = pulled' := List.append_cancel_right (split.symm.trans split')
  obtain ⟨r, last_r, at_last, -⟩ := latest (lt_of_le_of_ne tracked.bounded fresh)
  refine behind_readLoop pulled split (fun r' mem => ?_) looped
  rw [← List.dropLast_append_getLast? r last_r] at mem
  rcases List.mem_append.mp mem with inside | latest_r
  · exact before r' inside
  · rw [List.mem_singleton.mp latest_r, at_last, at_bound]
    exact .inr ⟨rfl, le_refl _⟩

theorem behind_withFilter {p : Pileup} (created : withFilter readFilter input = .ok p)
    (bound : Nat × Nat) : Behind readFilter input bound p := by
  rcases readNext_cases readFilter created with ⟨-, start | latched⟩ | ⟨-, -, looped⟩
  · simp [u32Max] at start
  · simp at latched
  · exact behind_readLoop [] (by rfl) (by simp [passingRecords]) looped

section ReadAhead

variable (sorted : (passingRecords readFilter input).Pairwise fun a b => AtOrBefore a.pos b.pos)
  (no_errors : ∀ err, Except.error err ∉ input)
include sorted no_errors

theorem behind_reach {p q : Pileup} (tracked : Tracked readFilter input p)
    (behind : Behind readFilter input (aim p) p) (reach : IngestReach readFilter (aim p) p q) :
    Behind readFilter input (aim p) q := by
  induction reach with
  | start => exact behind
  | step reach' guard read ih =>
    obtain ⟨tracked_q, aimed⟩ := aimed_reach sorted no_errors tracked reach'
    exact behind_readNext tracked_q ih (aimed.at_target guard) read

theorem next_behind {fuel : Nat} {p p' : Pileup} {out : Output}
    (tracked : Tracked readFilter input p)
    (behind : ∀ e ∈ p.entries, Behind readFilter input e.pos p)
    (returned : next readFilter fuel p = some (.ok (out, p'))) :
    (∀ e ∈ p'.entries, Behind readFilter input e.pos p') ∧
      ∀ c : PileupColumn, out = some (.ok c) →
        Behind readFilter input (c.refId, c.refPos) p' ∧
          ∀ r ∈ passingRecords readFilter p'.recordIter, Before (c.refId, c.refPos) r.pos := by
  unfold next at returned
  simp only [tracked.clean] at returned
  split at returned
  · cases returned
  · cases returned
  rename_i target q searched
  have tracked_q : Tracked readFilter input q := search_invariant readFilter _
    (fun _ _ holds read => tracked_readNext sorted no_errors holds read) fuel tracked searched
  split at returned
  · rename_i latched
    cases tracked_q.clean.symm.trans latched
  split at returned
  · cases returned
  rename_i live column looped
  cases returned
  obtain ⟨-, settled⟩ := settled_search readFilter fuel
    (fun _ => ⟨tracked.ordered, .inl rfl⟩) searched tracked_q.clean
  rcases search_cases readFilter tracked searched with ⟨none_live, -, same⟩ |
      ⟨nonempty, rfl, reach⟩
  · subst same
    rw [none_live] at looped
    obtain ⟨rfl, rfl⟩ : live = [] ∧ column = [] := by simpa [columnLoop] using looped.symm
    simp
  obtain ⟨⟨e, mem, at_e⟩, -⟩ := target_least nonempty
  have at_aim : aim p = e.pos := at_e
  have behind_q := behind_reach sorted no_errors tracked (at_aim ▸ behind e mem) reach
  have unread : ∀ r ∈ passingRecords readFilter q.recordIter, Before (aim p) r.pos := by
    intro r inside
    have after_last := tracked_q.unread r inside
    by_cases fresh : q.lastRefId < u32Max
    · exact (settled.past fresh).trans_atOrBefore after_last
    · have bound := r.refId_toNat_lt
      simp only [AtOrBefore, last, Record.pos, u32Max] at after_last fresh
      omega
  refine ⟨fun e' moved => ?_, fun c found => ?_⟩
  · obtain ⟨-, -, past, -⟩ := columnLoop_moved settled.least looped e' moved
    exact behind_q.mono (.of_before past)
  · split at found
    · cases found
    · cases found
      exact ⟨behind_q, unread⟩

theorem steps_behind {p p' : Pileup} {outs : List Output} (tracked : Tracked readFilter input p)
    (behind : ∀ e ∈ p.entries, Behind readFilter input e.pos p)
    (run : Steps readFilter p outs p') :
    Tracked readFilter input p' ∧ ∀ e ∈ p'.entries, Behind readFilter input e.pos p' := by
  induction run with
  | refl => exact ⟨tracked, behind⟩
  | step returns _ ih =>
    obtain ⟨fuel, returned⟩ := returns
    exact ih (tracked_next sorted no_errors tracked returned)
      (next_behind sorted no_errors tracked behind returned).1

/-- The pileup reads at most one record ahead of its columns: past a column at `q` lies every
passing record to read, and every one read but the last lies at or before `q`. -/
theorem reads_one_ahead {p₀ p p' : Pileup} {outs : List Output} {c : PileupColumn}
    (created : withFilter readFilter input = .ok p₀) (run : Steps readFilter p₀ outs p)
    (returned : Returns readFilter p (some (.ok c)) p') :
    ∃ pulled, input = pulled ++ p'.recordIter ∧
      (∀ r ∈ (passingRecords readFilter pulled).dropLast,
        AtOrBefore r.pos (c.refId, c.refPos)) ∧
      ∀ r ∈ passingRecords readFilter p'.recordIter, Before (c.refId, c.refPos) r.pos := by
  obtain ⟨tracked, behind⟩ := steps_behind sorted no_errors
    (tracked_withFilter sorted no_errors created) (fun e _ => behind_withFilter created e.pos) run
  obtain ⟨fuel, called⟩ := returned
  obtain ⟨⟨pulled, split, before⟩, unread⟩ :=
    (next_behind sorted no_errors tracked behind called).2 c rfl
  exact ⟨pulled, split, before, unread⟩

end ReadAhead

theorem reads_one_ahead_two_refs :
    ∃ p₀ c p', withFilter (fun _ => true) [.ok recordRefZero, .ok recordRefOne] = .ok p₀ ∧
      Returns (fun _ => true) p₀ (some (.ok c)) p' ∧
      ∃ pulled, [.ok recordRefZero, .ok recordRefOne] = pulled ++ p'.recordIter ∧
        (∀ r ∈ (passingRecords (fun _ => true) pulled).dropLast,
          AtOrBefore r.pos (c.refId, c.refPos)) ∧
        ∀ r ∈ passingRecords (fun _ => true) p'.recordIter, Before (c.refId, c.refPos) r.pos := by
  obtain ⟨p₀, c, p', created, returned⟩ :
      ∃ p₀ c p', withFilter (fun _ => true) [.ok recordRefZero, .ok recordRefOne] = .ok p₀ ∧
        Returns (fun _ => true) p₀ (some (.ok c)) p' :=
    ⟨_, _, _, rfl, 3, rfl⟩
  exact ⟨p₀, c, p', created, returned,
    reads_one_ahead (by decide) (by simp) created (.refl _) returned⟩

end Pileup

end Bam
