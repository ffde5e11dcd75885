import Bam.Pileup.Engine

set_option autoImplicit false

/- The ingestion loop can run forever. `read_next` sets `last_ref_id = u32::MAX` on an
out-of-order record and then overwrites it with the record's own `ref_id` (lines 225-227), so
the loop guard, which does not look at the latched error, can stay true while every further
`read_next` returns at once. -/
namespace Bam

namespace Pileup

variable (readFilter : Record → Bool)

theorem readNext_of_error {p : Pileup}
    (latched : p.error.isSome) : readNext readFilter p = .ok p := by
  simp [readNext, latched]

/-- With an error latched and the guard true, the ingestion loop never ends. -/
theorem ingest_stuck {target : Nat × Nat} {p : Pileup} (guard : ingestGuard target p)
    (latched : p.error.isSome) (fuel : Nat) : ingest readFilter target fuel p = none := by
  induction fuel with
  | zero => rfl
  | succ fuel ih => simp only [ingest, guard, ite_true, readNext_of_error readFilter latched, ih]

theorem next_stuck {p stuck : Pileup} {target : Nat × Nat} (clear : p.error = none)
    (live : p.entries ≠ []) (aimed : p.entries.foldl targetStep (u32Max, u32Max) = target)
    (guard : ingestGuard target p) (read : readNext readFilter p = .ok stuck)
    (guard' : ingestGuard target stuck) (latched : stuck.error.isSome) (fuel : Nat) :
    next readFilter fuel p = none := by
  have spins := ingest_stuck readFilter guard' latched
  match fuel with
  | 0 => simp [next, clear, search]
  | 1 => simp [next, clear, search, live, aimed, ingest]
  | fuel + 2 => simp [next, clear, search, live, aimed, ingest, guard, read, spins]

/-- Scenario S5: record A at `(0, 200)`, then record B at `(0, 100)`. -/
def recordA : Record :=
  { refId := 0, start := 200, mapped := true, bin := 4681, cigar := [(10, .alnMatch)],
    alnQueryEnd := 10 }

def recordB : Record :=
  { refId := 0, start := 100, mapped := true, bin := 4681, cigar := [(10, .alnMatch)],
    alnQueryEnd := 10 }

theorem s5_first_call :
    ∃ p, withFilter (fun _ => true) [.ok recordA, .ok recordB] = .ok p ∧ p.error = none ∧
      p.entries ≠ [] ∧ p.entries.foldl targetStep (u32Max, u32Max) = (0, 200) ∧
      ingestGuard (0, 200) p ∧ ∃ stuck, readNext (fun _ => true) p = .ok stuck ∧
        ingestGuard (0, 200) stuck ∧ stuck.error.isSome :=
  ⟨_, rfl, rfl, by decide, rfl, by decide, _, rfl, by decide, rfl⟩

/-- On S5 the first call of `next` never returns, whatever the fuel. -/
theorem next_unsorted_never_returns :
    ∃ p, withFilter (fun _ => true) [.ok recordA, .ok recordB] = .ok p ∧
      ∀ fuel, next (fun _ => true) fuel p = none := by
  obtain ⟨p, built, clear, live, aimed, guard, stuck, read, guard', latched⟩ := s5_first_call
  exact ⟨p, built, next_stuck _ clear live aimed guard read guard' latched⟩

/-- S5 holds a passing record behind its predecessor, yet no call of `next` ever returns, so
the `Some(Err(InvalidData))` for it never comes. -/
theorem unsorted_error_never_returned :
    recordB.refId = recordA.refId ∧ recordB.start < recordA.start ∧
      ∃ p, withFilter (fun _ => true) [.ok recordA, .ok recordB] = .ok p ∧
        ∀ out p', ¬ Returns (fun _ => true) p out p' := by
  obtain ⟨p, built, clear, live, aimed, guard, stuck, read, guard', latched⟩ := s5_first_call
  refine ⟨rfl, by decide, p, built, fun out p' ⟨fuel, returned⟩ => ?_⟩
  rw [next_stuck _ clear live aimed guard read guard' latched fuel] at returned
  cases returned

end Pileup

end Bam
