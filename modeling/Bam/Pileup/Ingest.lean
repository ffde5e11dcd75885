import Bam.Pileup.Column

set_option autoImplicit false

/- What one `read_next` can do, said once: leave the state alone, mark the input exhausted,
latch an `Err` item, or ingest the next passing record, after skipping the records that
`record_passes` rejects. The invariants of the engine are derived from this inversion. -/
namespace Bam

/-- The position `(ref_id as u32, start as u32)` of a record that `record_passes` accepted. -/
def Record.pos (r : Record) : Nat × Nat := (r.refId.toNat, r.start.toNat)

theorem PileupEntry.pos_of_new {r : Record} {e : PileupEntry}
    (created : PileupEntry.new r = .ok e) :
    e.pos = r.pos := by
  obtain ⟨-, record, -, refPos, -⟩ := new_ok created
  simp [PileupEntry.pos, Record.pos, record, refPos]

namespace Pileup

/-- `(last_ref_id, last_ref_pos)`. -/
def last (p : Pileup) : Nat × Nat := (p.lastRefId, p.lastRefPos)

variable (readFilter : Record → Bool)

/-- A passing record: mapped and kept by `read_filter`. -/
def passes (r : Record) : Bool := r.mapped && readFilter r

/-- The passing records of a stretch of the input, in order. -/
def passingRecords : List Item → List Record
  | [] => []
  | .ok r :: rest => if passes readFilter r then r :: passingRecords rest else passingRecords rest
  | .error _ :: rest => passingRecords rest

@[simp] theorem passingRecords_append (front back : List Item) :
    passingRecords readFilter (front ++ back) =
      passingRecords readFilter front ++ passingRecords readFilter back := by
  induction front with
  | nil => rfl
  | cons item rest ih =>
    cases item with
    | error e => exact ih
    | ok r => by_cases kept : passes readFilter r <;> simp [passingRecords, kept, ih]

theorem passingRecords_ingested {input pulled items skipped rest : List Item} {r : Record}
    (sorted : (passingRecords readFilter input).Pairwise fun a b => AtOrBefore a.pos b.pos)
    (split : input = pulled ++ items) (items_eq : items = skipped ++ .ok r :: rest)
    (none_before : passingRecords readFilter skipped = []) (kept : passes readFilter r = true) :
    passingRecords readFilter items = r :: passingRecords readFilter rest ∧
      ∀ r' ∈ passingRecords readFilter rest, AtOrBefore r.pos r'.pos := by
  have passing : passingRecords readFilter items = r :: passingRecords readFilter rest := by
    simp [items_eq, passingRecords, none_before, kept]
  rw [split, passingRecords_append, passing] at sorted
  exact ⟨passing, (List.pairwise_cons.mp (List.pairwise_append.mp sorted).2.1).1⟩

/-- The state after `read_next` ingests the passing record `r` as `entry`, with `rest` left; the
error is latched when `r` lies before the last ingested record. -/
def ingested (p : Pileup) (r : Record) (entry : PileupEntry) (rest : List Item) : Pileup :=
  { recordIter := rest, entries := p.entries ++ [entry],
    error := if Before r.pos p.last then some unsortedError else p.error,
    lastRefId := r.refId.toNat, lastRefPos := r.start.toNat }

theorem recordPasses_true {r : Record} (passed : recordPasses readFilter r = .ok true) :
    passes readFilter r = true ∧ 0 ≤ r.refId ∧ 0 ≤ r.start := by
  unfold recordPasses at passed
  cases mapped : r.mapped <;> by_cases nonneg : 0 ≤ r.refId ∧ 0 ≤ r.start <;>
    simp_all [passes]

theorem recordPasses_false {r : Record} (skipped : recordPasses readFilter r = .ok false) :
    passes readFilter r = false := by
  unfold recordPasses at skipped
  cases mapped : r.mapped <;> by_cases nonneg : 0 ≤ r.refId ∧ 0 ≤ r.start <;>
    simp_all [passes]

/-- Inversion of the `loop` of `read_next`. -/
theorem readLoop_cases {p p' : Pileup} {items : List Item}
    (read : readLoop readFilter p items = .ok p') :
    (passingRecords readFilter items = [] ∧
        p' = { p with recordIter := [], lastRefId := u32Max }) ∨
    (∃ skipped e rest, items = skipped ++ .error e :: rest ∧
      passingRecords readFilter skipped = [] ∧
      p' = { p with recordIter := rest, error := some e, lastRefId := u32Max }) ∨
    (∃ skipped r rest entry, items = skipped ++ .ok r :: rest ∧
      passingRecords readFilter skipped = [] ∧ recordPasses readFilter r = .ok true ∧
      PileupEntry.new r = .ok entry ∧ p' = p.ingested r entry rest) := by
  induction items with
  | nil => exact .inl ⟨rfl, (Except.ok.inj read).symm⟩
  | cons item rest ih =>
    cases item with
    | error e => exact .inr (.inl ⟨[], e, rest, rfl, rfl, (Except.ok.inj read).symm⟩)
    | ok r =>
      simp only [readLoop] at read
      split at read
      · cases read
      · rename_i skipped
        rcases ih read with ⟨none_left, rfl⟩ | ⟨front, e, back, rfl, none_before, rfl⟩ |
            ⟨front, r', back, entry, rfl, none_before, passed, created, rfl⟩
        · refine .inl ⟨?_, rfl⟩
          simpa [passingRecords, recordPasses_false readFilter skipped] using none_left
        · exact .inr (.inl ⟨.ok r :: front, e, back, rfl, by
            simpa [passingRecords, recordPasses_false readFilter skipped] using none_before, rfl⟩)
        · exact .inr (.inr ⟨.ok r :: front, r', back, entry, rfl, by
            simpa [passingRecords, recordPasses_false readFilter skipped] using none_before,
            passed, created, rfl⟩)
      · rename_i passed
        split at read
        · cases read
        · rename_i entry created
          refine .inr (.inr ⟨[], r, rest, entry, rfl, rfl, passed, created, ?_⟩)
          rw [← Except.ok.inj read]
          unfold ingested Before Record.pos last
          split <;> simp_all

/-- Inversion of `read_next`: it returns at once, or runs its loop on what is left. -/
theorem readNext_cases {p p' : Pileup} (read : readNext readFilter p = .ok p') :
    (p' = p ∧ (p.lastRefId = u32Max ∨ p.error.isSome)) ∨
    (p.lastRefId ≠ u32Max ∧ p.error = none ∧
      readLoop readFilter p p.recordIter = .ok p') := by
  unfold readNext at read
  split at read
  · exact .inl ⟨(Except.ok.inj read).symm, ‹_›⟩
  · rename_i fresh
    simp only [not_or, Option.not_isSome_iff_eq_none] at fresh
    exact .inr ⟨fresh.1, fresh.2, read⟩

theorem ingested_clean {p : Pileup} {r : Record} {entry : PileupEntry} {rest : List Item}
    (clean : (p.ingested r entry rest).error = none) : p.error = none ∧
      AtOrBefore p.last r.pos := by
  unfold ingested at clean
  split at clean
  · cases clean
  · rename_i sorted
    refine ⟨clean, ?_⟩
    unfold Before AtOrBefore at *
    omega

theorem readNext_entries {p p' : Pileup} (read : readNext readFilter p = .ok p') :
    ∀ e ∈ p.entries, e ∈ p'.entries := by
  rcases readNext_cases readFilter read with ⟨rfl, -⟩ | ⟨-, -, looped⟩
  · exact fun _ mem => mem
  rcases readLoop_cases readFilter looped with ⟨-, rfl⟩ | ⟨_, _, _, -, -, rfl⟩ |
      ⟨_, _, _, _, -, -, -, -, rfl⟩
  · exact fun _ mem => mem
  · exact fun _ mem => mem
  · exact fun _ mem => List.mem_append_left _ mem

theorem readLoop_error {p : Pileup} {items : List Item} {msg : String}
    (failed : readLoop readFilter p items = .error msg) :
    msg ≠ "Record is to the left of the new pileup position" := by
  induction items with
  | nil => cases failed
  | cons item rest ih =>
    cases item with
    | error e => cases failed
    | ok r =>
      simp only [readLoop] at failed
      split at failed
      · rename_i assertion
        unfold recordPasses at assertion
        split at assertion
        · cases assertion
        · split at assertion
          · cases assertion
          · cases assertion
            cases failed
            decide
      · exact ih failed
      · split at failed
        · rename_i creation
          cases failed
          rcases PileupEntry.new_error creation with rfl | rfl | rfl <;> decide
        · cases failed

theorem readNext_error {p : Pileup} {msg : String} (failed : readNext readFilter p = .error msg) :
    msg ≠ "Record is to the left of the new pileup position" := by
  unfold readNext at failed
  split at failed
  · cases failed
  · exact readLoop_error readFilter failed

/-- The states the ingestion loop at lines 264-268 passes through from `p`, toward `target`. -/
inductive IngestReach (target : Nat × Nat) (p : Pileup) : Pileup → Prop
  | start : IngestReach target p p
  | step {q q' : Pileup} : IngestReach target p q → ingestGuard target q →
      readNext readFilter q = .ok q' → IngestReach target p q'

theorem IngestReach.invariant {target : Nat × Nat} {p q : Pileup} (P : Pileup → Prop)
    (start : P p)
    (step : ∀ q q', P q → ingestGuard target q → readNext readFilter q = .ok q' → P q')
    (reach : IngestReach readFilter target p q) : P q := by
  induction reach with
  | start => exact start
  | step _ guard read ih => exact step _ _ ih guard read

theorem ingest_reach {target : Nat × Nat} (fuel : Nat) {p q q' : Pileup}
    (reach : IngestReach readFilter target p q)
    (done : ingest readFilter target fuel q = some (.ok q')) :
    IngestReach readFilter target p q' ∧ ¬ ingestGuard target q' := by
  induction fuel generalizing q with
  | zero => cases done
  | succ fuel ih =>
    simp only [ingest] at done
    split at done
    · split at done
      · cases done
      · exact ih (reach.step ‹_› ‹_›) done
    · cases done
      exact ⟨reach, ‹_›⟩

theorem ingest_error {target : Nat × Nat} (fuel : Nat) {p : Pileup} {msg : String}
    (failed : ingest readFilter target fuel p = some (.error msg)) :
    msg ≠ "Record is to the left of the new pileup position" := by
  induction fuel generalizing p with
  | zero => cases failed
  | succ fuel ih =>
    simp only [ingest] at failed
    split at failed
    · split at failed
      · cases failed
        exact readNext_error readFilter ‹_›
      · exact ih failed
    · cases failed

theorem search_invariant (P : Pileup → Prop)
    (step : ∀ q q', P q → readNext readFilter q = .ok q' → P q') (fuel : Nat)
    {target found : Nat × Nat} {p p' : Pileup} (start : P p)
    (done : search readFilter fuel target p = some (.ok (found, p'))) : P p' := by
  induction fuel generalizing target p with
  | zero => cases done
  | succ fuel ih =>
    simp only [search] at done
    split at done
    · split at done
      · cases done
      · cases done
      · rename_i q ingested
        have kept : P q := ((ingest_reach readFilter fuel .start ingested).1).invariant readFilter
          P start fun q q' holds _ read => step q q' holds read
        split at done
        · cases done
          exact kept
        · exact ih kept done
    · cases done
      exact start

theorem search_error (fuel : Nat) {target : Nat × Nat} {p : Pileup} {msg : String}
    (failed : search readFilter fuel target p = some (.error msg)) :
    msg ≠ "Record is to the left of the new pileup position" := by
  induction fuel generalizing target p with
  | zero => cases failed
  | succ fuel ih =>
    simp only [search] at failed
    split at failed
    · split at failed
      · cases failed
      · cases failed
        exact ingest_error readFilter fuel ‹_›
      · split at failed
        · cases failed
        · exact ih failed
    · cases failed

end Pileup

end Bam
