import Bam.Pileup.Order

set_option autoImplicit false

/- The end of a run, for every input and filter: a call returns `None` only with the live set
empty and the input exhausted, and one that returns an error drains the state (lines 246-248,
270-272); after either, every call returns `None`. On a sorted input every error a run returns
is the first `Err` item of the input, which `read_next` latches (lines 231-234). -/
namespace Bam

namespace Pileup

variable (readFilter : Record → Bool)

theorem search_ends {fuel : Nat} {target found : Nat × Nat} {p q : Pileup}
    (start : target.1 = u32Max ∨ ∃ e ∈ p.entries, e.pos = target)
    (searched : search readFilter fuel target p = some (.ok (found, q))) :
    q.error.isSome ∨ (q.entries = [] ∧ ¬ q.lastRefId < u32Max) ∨
      ∃ e ∈ q.entries, e.pos = found := by
  induction fuel generalizing target p with
  | zero => cases searched
  | succ fuel ih =>
    simp only [search] at searched
    split at searched
    · rename_i started
      have aimed : (p.entries.foldl targetStep target).1 = u32Max ∨
          ∃ e ∈ p.entries, e.pos = p.entries.foldl targetStep target := by
        rcases (foldl_targetStep p.entries target).1 with same | ⟨e, mem, at_e⟩
        · rw [same]
          exact .inl started.1
        · exact .inr ⟨e, mem, at_e.symm⟩
      split at searched
      · cases searched
      · cases searched
      · rename_i q' ingested
        have reach := (ingest_reach readFilter fuel .start ingested).1
        have grown : ∀ e ∈ p.entries, e ∈ q'.entries := fun e mem =>
          reach.invariant readFilter (fun q => e ∈ q.entries) mem
            fun _ _ holds _ read => readNext_entries readFilter read e holds
        split at searched
        · cases searched
          exact .inl ‹_›
        · exact ih (aimed.imp_right fun ⟨e, mem, at_e⟩ => ⟨e, grown e mem, at_e⟩) searched
    · rename_i idle
      cases searched
      rcases start with unset | found
      · simp only [unset, true_and, not_or, not_not] at idle
        exact .inr (.inl ⟨idle.1, by omega⟩)
      · exact .inr (.inr found)

theorem next_drained {p : Pileup} (empty : p.entries = []) (exhausted : ¬ p.lastRefId < u32Max)
    (clean : p.error = none) (fuel : Nat) :
    next readFilter (fuel + 1) p = some (.ok (none, p)) := by
  obtain ⟨items, entries, error, lastId, lastPos⟩ := p
  simp only at empty clean exhausted
  subst empty clean
  simp [next, search, columnLoop, exhausted]

theorem next_none_drained {fuel : Nat} {p p' : Pileup}
    (returned : next readFilter fuel p = some (.ok (none, p'))) :
    p'.entries = [] ∧ ¬ p'.lastRefId < u32Max ∧ p'.error = none := by
  unfold next at returned
  split at returned
  · cases returned
  split at returned
  · cases returned
  · cases returned
  rename_i target q searched
  split at returned
  · cases returned
  rename_i clean
  split at returned
  · cases returned
  rename_i live column looped
  have empty : column = [] := by
    by_contra nonempty
    simp [nonempty] at returned
  simp only [empty, if_true, Option.some.injEq, Except.ok.injEq, Prod.mk.injEq,
    true_and] at returned
  subst returned
  have column_eq := @columnLoop_spec target _ _ q.entries [] []
    (by simpa only [List.append_nil] using looped)
  rcases search_ends readFilter (.inl rfl) searched with latched | ⟨drained, exhausted⟩ |
      ⟨e, mem, at_e⟩
  · simp [clean] at latched
  · rw [drained] at looped
    simp only [List.length_nil, columnLoop, Except.ok.injEq, Prod.mk.injEq] at looped
    exact ⟨looped.1.symm, exhausted, clean⟩
  · obtain ⟨-, -, -, found⟩ := column_eq
    have inside : e ∈ column := by simp [found, mem, at_e]
    simp [empty] at inside

theorem next_error_drained {fuel : Nat} {p p' : Pileup} {err : IoError}
    (returned : next readFilter fuel p = some (.ok (some (.error err), p'))) :
    p'.entries = [] ∧ ¬ p'.lastRefId < u32Max ∧ p'.error = none := by
  unfold next at returned
  split at returned
  · cases returned
    exact ⟨rfl, lt_irrefl _, rfl⟩
  split at returned
  · cases returned
  · cases returned
  split at returned
  · cases returned
    exact ⟨rfl, lt_irrefl _, rfl⟩
  split at returned
  · cases returned
  · split at returned <;> simp at returned

/-- After a call of `next` returns `None` or an error, every later call returns `None`, on every
input and for every filter. -/
theorem none_after_end {fuel : Nat} {p p' : Pileup} {out : Output}
    (returned : next readFilter fuel p = some (.ok (out, p')))
    (ended : out = none ∨ ∃ err, out = some (.error err)) :
    ∀ fuel', next readFilter (fuel' + 1) p' = some (.ok (none, p')) := by
  obtain ⟨empty, exhausted, clean⟩ : p'.entries = [] ∧ ¬ p'.lastRefId < u32Max ∧
    p'.error = none := by
    rcases ended with rfl | ⟨err, rfl⟩
    · exact next_none_drained readFilter returned
    · exact next_error_drained readFilter returned
  exact next_drained readFilter empty exhausted clean

theorem none_after_end_error_item :
    ∃ p₀ p', withFilter (fun _ => true) [.error ⟨.other, "read failed"⟩] = .ok p₀ ∧
      next (fun _ => true) 1 p₀ = some (.ok (some (.error ⟨.other, "read failed"⟩), p')) ∧
      ∀ fuel', next (fun _ => true) (fuel' + 1) p' = some (.ok (none, p')) := by
  obtain ⟨p₀, p', created, returned⟩ : ∃ p₀ p',
      withFilter (fun _ => true) [.error ⟨.other, "read failed"⟩] = .ok p₀ ∧
      next (fun _ => true) 1 p₀ = some (.ok (some (.error ⟨.other, "read failed"⟩), p')) :=
    ⟨_, _, rfl, rfl⟩
  exact ⟨p₀, p', created, returned, none_after_end _ returned (.inr ⟨_, rfl⟩)⟩


/-- One pass of the loop of `read_next` reads up to the next passing record or `Err` item. -/
theorem readLoop_read {p p' : Pileup} :
    ∀ {items : List Item}, readLoop readFilter p items = .ok p' →
      ∃ read, items = read ++ p'.recordIter ∧ ∀ err, Except.error err ∉ read.dropLast
  | [], looped => ⟨[], by rw [← Except.ok.inj looped]; rfl, by simp⟩
  | .error e :: rest, looped => ⟨[.error e], by rw [← Except.ok.inj looped]; rfl, by simp⟩
  | .ok r :: rest, looped => by
    simp only [readLoop] at looped
    split at looped
    · cases looped
    · obtain ⟨read, items, clean⟩ := readLoop_read looped
      refine ⟨.ok r :: read, by rw [items]; rfl, fun err mem => ?_⟩
      rcases read with _ | ⟨x, read⟩
      · simp at mem
      · rw [List.dropLast_cons₂, List.mem_cons] at mem
        exact mem.elim (fun same => by cases same) (clean err)
    · split at looped
      · cases looped
      · cases looped
        exact ⟨[.ok r], rfl, by simp⟩

variable (input : List Item)

/-- The invariant behind the errors a run returns: before the end of the input nothing is latched; a
latched error is the first `Err` item, read right before what is left. -/
structure Reported (p : Pileup) : Prop where
  bounded : p.lastRefId ≤ u32Max
  fresh : p.lastRefId < u32Max → p.error = none ∧
    ∃ pulled, input = pulled ++ p.recordIter ∧ (∀ err, Except.error err ∉ pulled) ∧
      ∀ r ∈ passingRecords readFilter p.recordIter, AtOrBefore p.last r.pos
  latched : ∀ err, p.error = some err →
    ∃ front, input = front ++ .error err :: p.recordIter ∧ ∀ e, Except.error e ∉ front

variable {readFilter input}

theorem reported_failed (p : Pileup) : Reported readFilter input p.failed :=
  ⟨le_refl _, fun stop => absurd stop (lt_irrefl _), fun _ latched => by cases latched⟩

section Reported

variable (sorted : (passingRecords readFilter input).Pairwise fun a b => AtOrBefore a.pos b.pos)
include sorted

theorem reported_readNext {p p' : Pileup} (reported : Reported readFilter input p)
    (read : readNext readFilter p = .ok p') : Reported readFilter input p' := by
  rcases readNext_cases readFilter read with ⟨rfl, -⟩ | ⟨fresh, clean, looped⟩
  · exact reported
  obtain ⟨-, pulled, split, clean_pulled, unread⟩ :=
    reported.fresh (lt_of_le_of_ne reported.bounded fresh)
  obtain ⟨taken, items, clean_read⟩ := readLoop_read readFilter looped
  rcases readLoop_cases readFilter looped with ⟨-, rfl⟩ |
      ⟨skipped, e, rest, items', none_before, rfl⟩ |
      ⟨skipped, r, rest, entry, items', none_before, passed, -, rfl⟩
  · exact ⟨le_refl _, fun stop => absurd stop (lt_irrefl _), fun _ latched => by
      simp [clean] at latched⟩
  · -- an `Err` item, after records the filter skips
    have taken_eq : taken = skipped ++ [.error e] :=
      List.append_cancel_right (by simpa using items.symm.trans items')
    refine ⟨le_refl _, fun stop => absurd stop (lt_irrefl _), fun err latched => ?_⟩
    cases latched
    refine ⟨pulled ++ skipped, by simp [split, items'], fun e' mem => ?_⟩
    rcases List.mem_append.mp mem with inside | inside
    · exact clean_pulled e' inside
    · exact clean_read e' (by simpa [taken_eq] using inside)
  · -- a passing record, after records the filter skips
    have kept := (recordPasses_true readFilter passed).1
    have taken_eq : taken = skipped ++ [.ok r] :=
      List.append_cancel_right (by simpa using items.symm.trans items')
    obtain ⟨passing, tail⟩ :=
      passingRecords_ingested readFilter sorted split items' none_before kept
    have sorted_r := unread r (by simp [passing])
    have bound := r.refId_toNat_lt
    have clean' : (p.ingested r entry rest).error = none := by
      simp [ingested, clean, sorted_r.not_before]
    refine ⟨by simp only [ingested, u32Max]; omega,
      fun _ => ⟨clean', pulled ++ taken, by simp [split, items, ingested], fun err mem => ?_, tail⟩,
      fun _ latched => by simp [clean'] at latched⟩
    rcases List.mem_append.mp mem with inside | inside
    · exact clean_pulled err inside
    · exact clean_read err (by simpa [taken_eq] using inside)

theorem reported_next {fuel : Nat} {p p' : Pileup} {out : Output}
    (reported : Reported readFilter input p)
    (returned : next readFilter fuel p = some (.ok (out, p'))) :
    Reported readFilter input p' ∧ ∀ err, out = some (.error err) →
      ∃ front, input = front ++ .error err :: p'.recordIter ∧ ∀ e, Except.error e ∉ front := by
  unfold next at returned
  split at returned
  · rename_i err latched
    cases returned
    exact ⟨reported_failed p, fun _ same => by cases same; exact reported.latched err latched⟩
  split at returned
  · cases returned
  · cases returned
  rename_i target q searched
  have reported_q : Reported readFilter input q := search_invariant readFilter _
    (fun _ _ holds read => reported_readNext sorted holds read) fuel reported searched
  split at returned
  · rename_i err latched
    cases returned
    exact ⟨reported_failed q, fun _ same => by cases same; exact reported_q.latched err latched⟩
  split at returned
  · cases returned
  cases returned
  refine ⟨⟨reported_q.1, reported_q.2, reported_q.3⟩, fun err found => ?_⟩
  split at found <;> cases found

theorem steps_reported {p p' : Pileup} {outs : List Output}
    (reported : Reported readFilter input p) (run : Steps readFilter p outs p') :
    Reported readFilter input p' := by
  induction run with
  | refl => exact reported
  | step returns _ ih =>
    obtain ⟨fuel, returned⟩ := returns
    exact ih (reported_next sorted reported returned).1

/-- The pileup reports the errors of its input as they come: every error a call returns is the first
`Err` item, and what is left is the input after it. -/
theorem returned_error_first_item {p₀ p p' : Pileup} {outs : List Output} {err : IoError}
    (created : withFilter readFilter input = .ok p₀) (run : Steps readFilter p₀ outs p)
    (returned : Returns readFilter p (some (.error err)) p') :
    ∃ front, input = front ++ .error err :: p'.recordIter ∧ ∀ e, Except.error e ∉ front := by
  have start : Reported readFilter input
      { recordIter := input, entries := [], error := none, lastRefId := 0, lastRefPos := 0 } :=
    ⟨by simp [u32Max], fun _ => ⟨rfl, [], rfl, by simp,
      fun r _ => by simp only [AtOrBefore, last]; omega⟩, fun _ latched => by cases latched⟩
  obtain ⟨fuel, called⟩ := returned
  exact (reported_next sorted (steps_reported sorted (reported_readNext sorted start created) run)
    called).2 err rfl

end Reported

theorem returned_error_first_item_after_record :
    ∃ p₀ p', withFilter (fun _ => true)
        [.ok recordRefZero, .error ⟨.other, "read failed"⟩, .ok recordRefOne] = .ok p₀ ∧
      Returns (fun _ => true) p₀ (some (.error ⟨.other, "read failed"⟩)) p' ∧
      ∃ front, [.ok recordRefZero, .error ⟨.other, "read failed"⟩, .ok recordRefOne] =
          front ++ .error ⟨.other, "read failed"⟩ :: p'.recordIter ∧
        ∀ e, Except.error e ∉ front := by
  obtain ⟨p₀, p', created, returned⟩ : ∃ p₀ p', withFilter (fun _ => true)
        [.ok recordRefZero, .error ⟨.other, "read failed"⟩, .ok recordRefOne] = .ok p₀ ∧
      Returns (fun _ => true) p₀ (some (.error ⟨.other, "read failed"⟩)) p' :=
    ⟨_, _, rfl, 3, rfl⟩
  exact ⟨p₀, p', created, returned,
    returned_error_first_item (by decide) created (.refl _) returned⟩

end Pileup

end Bam
