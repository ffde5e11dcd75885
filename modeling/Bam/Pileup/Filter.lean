import Bam.Pileup.Engine

set_option autoImplicit false

/- The read filter of `Pileup::with_filter` acts in `read_next` alone (lines 201-205, 216-219):
a rejected record is skipped before the order check. So a pileup with a filter behaves, call by
call, as `Pileup::new` over the input without those records; the assertion of `record_passes`
runs before the filter, so a mapped record at a negative position still panics. -/
namespace Bam

namespace Pileup

/-- `Pileup::new`: `with_filter` with the filter that keeps every record. -/
def new (recordIter : List Item) : Except String Pileup := withFilter (fun _ => true) recordIter

variable (readFilter : Record → Bool)

def rejected : Item → Bool
  | .ok record =>
    match recordPasses readFilter record with
    | .ok false => true
    | _ => false
  | .error _ => false

/-- The input without the items the filter rejects. -/
def dropRejected (items : List Item) : List Item := items.filter fun item => !rejected readFilter item

def dropState (p : Pileup) : Pileup := { p with recordIter := dropRejected readFilter p.recordIter }

@[simp] theorem dropState_entries (p : Pileup) : (dropState readFilter p).entries = p.entries :=
  rfl

@[simp] theorem dropState_error (p : Pileup) : (dropState readFilter p).error = p.error := rfl

@[simp] theorem dropState_lastRefId (p : Pileup) :
    (dropState readFilter p).lastRefId = p.lastRefId := rfl

@[simp] theorem dropState_lastRefPos (p : Pileup) :
    (dropState readFilter p).lastRefPos = p.lastRefPos := rfl

theorem recordPasses_kept {record : Record} (kept : rejected readFilter (.ok record) = false) :
    recordPasses (fun _ => true) record = recordPasses readFilter record := by
  unfold rejected recordPasses at kept
  unfold recordPasses
  by_cases mapped : record.mapped
  · by_cases valid : 0 ≤ record.refId ∧ 0 ≤ record.start
    · cases keeps : readFilter record <;> simp_all
    · simp [mapped, valid]
  · simp [mapped] at kept

theorem readLoop_dropRejected (p : Pileup) :
    ∀ items : List Item,
      readLoop (fun _ => true) (dropState readFilter p) (dropRejected readFilter items) =
        (readLoop readFilter p items).map (dropState readFilter)
  | [] => rfl
  | .error e :: rest => rfl
  | .ok record :: rest => by
    cases kept : rejected readFilter (.ok record)
    · have same := recordPasses_kept readFilter kept
      simp only [dropRejected, List.filter_cons, kept, Bool.not_false, if_true, readLoop, same]
      rcases passes : recordPasses readFilter record with msg | _ | _
      · rfl
      · simp [rejected, passes] at kept
      · rcases PileupEntry.new record with msg | entry
        · rfl
        · simp only [dropState_lastRefId, dropState_lastRefPos]
          split_ifs <;> rfl
    · have skipped : recordPasses readFilter record = .ok false := by
        simp only [rejected] at kept
        split at kept
        · assumption
        · cases kept
      simp only [dropRejected, List.filter_cons, kept, Bool.not_true, Bool.false_eq_true,
        if_false]
      rw [readLoop, skipped]
      exact readLoop_dropRejected p rest

theorem readNext_dropRejected (p : Pileup) :
    readNext (fun _ => true) (dropState readFilter p) =
      (readNext readFilter p).map (dropState readFilter) := by
  unfold readNext
  simp only [dropState_lastRefId, dropState_error]
  by_cases idle : p.lastRefId = u32Max ∨ p.error.isSome
  · rw [if_pos idle, if_pos idle]
    rfl
  · rw [if_neg idle, if_neg idle]
    exact readLoop_dropRejected readFilter p p.recordIter

theorem ingest_dropRejected (target : Nat × Nat) :
    ∀ (fuel : Nat) (p : Pileup),
      ingest (fun _ => true) target fuel (dropState readFilter p) =
        (ingest readFilter target fuel p).map (Except.map (dropState readFilter))
  | 0, _ => rfl
  | fuel + 1, p => by
    have guard : ingestGuard target (dropState readFilter p) = ingestGuard target p := rfl
    simp only [ingest, guard, readNext_dropRejected]
    by_cases reading : ingestGuard target p
    · rw [if_pos reading, if_pos reading]
      cases readNext readFilter p with
      | error msg => rfl
      | ok p' => exact ingest_dropRejected target fuel p'
    · rw [if_neg reading, if_neg reading]
      rfl

theorem search_dropRejected :
    ∀ (fuel : Nat) (target : Nat × Nat) (p : Pileup),
      search (fun _ => true) fuel target (dropState readFilter p) =
        (search readFilter fuel target p).map
          (Except.map (Prod.map id (dropState readFilter)))
  | 0, _, _ => rfl
  | fuel + 1, target, p => by
    simp only [search, dropState_entries, dropState_lastRefId]
    by_cases pending : target.1 = u32Max ∧ (p.entries ≠ [] ∨ p.lastRefId < u32Max)
    · rw [if_pos pending, if_pos pending, ingest_dropRejected]
      rcases ingest readFilter (p.entries.foldl targetStep target) fuel p with
        _ | msg | q
      · rfl
      · rfl
      · simp only [Option.map_some', Except.map, dropState_error]
        by_cases latched : q.error.isSome
        · rw [if_pos latched, if_pos latched]
          rfl
        · rw [if_neg latched, if_neg latched]
          exact search_dropRejected fuel _ q
    · rw [if_neg pending, if_neg pending]
      rfl

/-- A call of `next` on a state without the rejected items returns, panics or runs on as the call on
the state itself does. -/
theorem next_dropRejected (fuel : Nat) (p : Pileup) :
    next (fun _ => true) fuel (dropState readFilter p) =
      (next readFilter fuel p).map (Except.map (Prod.map id (dropState readFilter))) := by
  unfold next
  rw [dropState_error]
  split
  · rfl
  · rw [search_dropRejected]
    rcases search readFilter fuel (u32Max, u32Max) p with _ | msg | ⟨target, q⟩
    · rfl
    · rfl
    · simp only [Option.map_some', Except.map, Prod.map, id, dropState_error, dropState_entries]
      split
      · rfl
      · split <;> rfl

theorem returns_dropRejected {p p' : Pileup} {out : Output}
    (returned : Returns readFilter p out p') :
    Returns (fun _ => true) (dropState readFilter p) out (dropState readFilter p') := by
  obtain ⟨fuel, called⟩ := returned
  exact ⟨fuel, by rw [next_dropRejected, called]; rfl⟩

theorem returns_of_dropRejected {p q : Pileup} {out : Output}
    (returned : Returns (fun _ => true) (dropState readFilter p) out q) :
    ∃ p', q = dropState readFilter p' ∧ Returns readFilter p out p' := by
  obtain ⟨fuel, called⟩ := returned
  rw [next_dropRejected] at called
  rcases calling : next readFilter fuel p with _ | msg | ⟨out', p'⟩ <;>
    rw [calling] at called <;> cases called
  exact ⟨p', rfl, fuel, calling⟩

theorem steps_dropRejected {p p' : Pileup} {outs : List Output}
    (run : Steps readFilter p outs p') :
    Steps (fun _ => true) (dropState readFilter p) outs (dropState readFilter p') := by
  induction run with
  | refl => exact .refl _
  | step returned _ ih => exact .step (returns_dropRejected readFilter returned) ih

theorem steps_of_dropRejected {p q : Pileup} {outs : List Output}
    (run : Steps (fun _ => true) (dropState readFilter p) outs q) :
    ∃ p', q = dropState readFilter p' ∧ Steps readFilter p outs p' := by
  generalize start : dropState readFilter p = p₁ at run
  induction run generalizing p with
  | refl => exact ⟨p, start.symm, .refl _⟩
  | step returned _ ih =>
    subst start
    obtain ⟨p', rfl, first⟩ := returns_of_dropRejected readFilter returned
    obtain ⟨p'', rfl, rest⟩ := ih rfl
    exact ⟨p'', rfl, .step first rest⟩

/-- Filtering in the pileup is filtering its input: `Pileup::new` over the input without the
rejected records returns, call by call, what `with_filter` returns. -/
theorem filter_as_input (input : List Item) :
    new (dropRejected readFilter input) = (withFilter readFilter input).map (dropState readFilter) ∧
      (∀ fuel p, next (fun _ => true) fuel (dropState readFilter p) =
        (next readFilter fuel p).map (Except.map (Prod.map id (dropState readFilter)))) ∧
      ∀ p outs, (∃ p', Steps readFilter p outs p') ↔
        ∃ q, Steps (fun _ => true) (dropState readFilter p) outs q :=
  ⟨readNext_dropRejected readFilter
      { recordIter := input, entries := [], error := none, lastRefId := 0, lastRefPos := 0 },
    next_dropRejected readFilter,
    fun _ _ => ⟨fun ⟨_, run⟩ => ⟨_, steps_dropRejected readFilter run⟩,
      fun ⟨_, run⟩ => (steps_of_dropRejected readFilter run).imp fun _ => And.right⟩⟩

end Pileup

end Bam
