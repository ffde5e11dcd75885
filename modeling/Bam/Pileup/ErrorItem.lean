import Bam.Pileup.Complete
import Bam.Pileup.Final

set_option autoImplicit false

/- An `Err` item of the input is not lost. Over `front ++ Err err :: back` the pileup does what
it does over `front` until `read_next` reaches the end of `front`; there it latches the item
(lines 231-234), and the call returns it (lines 269-273). -/
namespace Bam

namespace Pileup

variable (readFilter : Record → Bool) (err : IoError) (back : List Item)

/-- The state over `front ++ Err err :: back` a state over `front` stands for: `Err err` and `back`
still to read, or once `front` is exhausted, the item latched. -/
def extend (p : Pileup) : Pileup :=
  if p.lastRefId = u32Max then { p with recordIter := back, error := some err }
  else { p with recordIter := p.recordIter ++ .error err :: back }

variable {err back}

theorem extend_of_ne {p : Pileup} (fresh : p.lastRefId ≠ u32Max) :
    extend err back p = { p with recordIter := p.recordIter ++ .error err :: back } :=
  if_neg fresh

theorem readLoop_append_error (p : Pileup) (x : List Item) :
    ∀ items : List Item, (∀ e, Except.error e ∉ items) →
      readLoop readFilter { p with recordIter := x } (items ++ .error err :: back) =
        (readLoop readFilter p items).map (extend err back)
  | [], _ => by
    show Except.ok _ = Except.ok (extend err back _)
    rw [extend, if_pos rfl]
  | .error e :: rest, clean => absurd (.head _) (clean e)
  | .ok r :: rest, clean => by
    have clean_rest : ∀ e, Except.error e ∉ rest := fun e mem => clean e (.tail _ mem)
    simp only [List.cons_append, readLoop]
    rcases recordPasses readFilter r with msg | _ | _
    · rfl
    · exact readLoop_append_error p x rest clean_rest
    · rcases PileupEntry.new r with msg | entry
      · rfl
      · have bound := r.refId_toNat_lt
        simp only [Except.map]
        rw [extend_of_ne (by simp only [u32Max]; omega)]
        split_ifs <;> rfl

theorem readNext_suffix {p p' : Pileup} (read : readNext readFilter p = .ok p') :
    ∃ taken, p.recordIter = taken ++ p'.recordIter := by
  rcases readNext_cases readFilter read with ⟨rfl, -⟩ | ⟨-, -, looped⟩
  · exact ⟨[], rfl⟩
  · obtain ⟨taken, items, -⟩ := readLoop_read readFilter looped
    exact ⟨taken, items⟩

theorem readNext_append_error {p : Pileup} (fresh : p.lastRefId ≠ u32Max)
    (clean : ∀ e, Except.error e ∉ p.recordIter) :
    readNext readFilter (extend err back p) = (readNext readFilter p).map (extend err back) := by
  rw [extend_of_ne fresh]
  unfold readNext
  by_cases idle : p.lastRefId = u32Max ∨ p.error.isSome
  · rw [if_pos idle, if_pos idle]
    simp only [Except.map]
    rw [extend_of_ne fresh]
  · rw [if_neg idle, if_neg idle]
    exact readLoop_append_error readFilter p _ p.recordIter clean

theorem ingest_append_error (target : Nat × Nat) :
    ∀ (fuel : Nat) (p : Pileup), p.lastRefId ≠ u32Max → (∀ e, Except.error e ∉ p.recordIter) →
      ingest readFilter target fuel (extend err back p) =
        (ingest readFilter target fuel p).map (Except.map (extend err back))
  | 0, _, _, _ => rfl
  | fuel + 1, p, fresh, clean => by
    have guard : ingestGuard target (extend err back p) = ingestGuard target p := by
      rw [extend_of_ne fresh]
      rfl
    simp only [ingest, guard]
    by_cases reading : ingestGuard target p
    · rw [if_pos reading, if_pos reading, readNext_append_error readFilter fresh clean]
      rcases read : readNext readFilter p with msg | q
      · rfl
      · obtain ⟨taken, items⟩ := readNext_suffix readFilter read
        have clean_q : ∀ e, Except.error e ∉ q.recordIter := fun e mem =>
          clean e (items ▸ List.mem_append_right _ mem)
        show ingest readFilter target fuel (extend err back q) = _
        by_cases ended : q.lastRefId = u32Max
        · have stop : ¬ ingestGuard target q := fun holds => by
            simp only [ingestGuard, ended] at holds
            omega
          cases fuel with
          | zero => rfl
          | succ fuel =>
            have stop' : ¬ ingestGuard target (extend err back q) := by
              rw [extend, if_pos ended]
              exact stop
            simp only [ingest, if_neg stop, if_neg stop', Option.map_some', Except.map]
        · exact ingest_append_error target fuel q ended clean_q
    · rw [if_neg reading, if_neg reading]
      simp only [Option.map_some', Except.map]

theorem ingest_suffix {target : Nat × Nat} {fuel : Nat} {p q : Pileup}
    (done : ingest readFilter target fuel p = some (.ok q)) :
    ∃ taken, p.recordIter = taken ++ q.recordIter :=
  (ingest_reach readFilter fuel .start done).1.invariant readFilter
    (fun q => ∃ taken, p.recordIter = taken ++ q.recordIter) ⟨[], rfl⟩
    fun _ _ ⟨taken, split⟩ _ read =>
      let ⟨taken', split'⟩ := readNext_suffix readFilter read
      ⟨taken ++ taken', by rw [split, split', List.append_assoc]⟩

theorem search_append_error :
    ∀ (fuel : Nat) (target : Nat × Nat) (p : Pileup), p.lastRefId ≠ u32Max →
      (∀ e, Except.error e ∉ p.recordIter) → ∀ {found : Nat × Nat} {q : Pileup},
      search readFilter fuel target p = some (.ok (found, q)) →
        (∃ found' q', search readFilter fuel target (extend err back p) =
            some (.ok (found', q')) ∧ q'.error = some err) ∨
          (search readFilter fuel target (extend err back p) =
            some (.ok (found, extend err back q)) ∧ q.lastRefId ≠ u32Max)
  | 0, _, _, _, _, _, _, searched => by cases searched
  | fuel + 1, target, p, fresh, clean, found, q, searched => by
    have same : (extend err back p).entries = p.entries ∧
        (extend err back p).lastRefId = p.lastRefId := by
      rw [extend_of_ne fresh]
      exact ⟨rfl, rfl⟩
    simp only [search, same.1, same.2] at searched ⊢
    by_cases started : target.1 = u32Max ∧ (p.entries ≠ [] ∨ p.lastRefId < u32Max)
    · rw [if_pos started] at searched ⊢
      rw [ingest_append_error readFilter _ fuel p fresh clean]
      rcases ingested : ingest readFilter (p.entries.foldl targetStep target) fuel p with
          _ | msg | q₁ <;> rw [ingested] at searched
      · cases searched
      · cases searched
      simp only at searched
      obtain ⟨taken, items⟩ := ingest_suffix readFilter ingested
      have clean_q₁ : ∀ e, Except.error e ∉ q₁.recordIter := fun e mem =>
        clean e (items ▸ List.mem_append_right _ mem)
      simp only [Option.map_some', Except.map]
      by_cases ended : q₁.lastRefId = u32Max
      · have erred : (extend err back q₁).error = some err := by rw [extend, if_pos ended]
        refine .inl ⟨p.entries.foldl targetStep target, extend err back q₁, ?_, erred⟩
        rw [if_pos (by rw [erred]; rfl)]
      · have latched_same : (extend err back q₁).error = q₁.error := by
          rw [extend_of_ne ended]
        rw [latched_same]
        by_cases latched : q₁.error.isSome
        · rw [if_pos latched] at searched ⊢
          cases searched
          exact .inr ⟨rfl, ended⟩
        · rw [if_neg latched] at searched ⊢
          exact search_append_error fuel _ q₁ ended clean_q₁ searched
    · rw [if_neg started] at searched ⊢
      cases searched
      exact .inr ⟨rfl, fresh⟩

section Appended

variable {readFilter} {front : List Item}
  (sorted : (passingRecords readFilter front).Pairwise fun a b => AtOrBefore a.pos b.pos)
  (no_errors : ∀ err, Except.error err ∉ front)
include sorted no_errors

/-- One call over the whole input from a state of a run over `front`: it returns the `Err` item, or
what the call over `front` returns. -/
theorem next_append_error {fuel : Nat} {p p' : Pileup} {out : Output}
    (tracked : Tracked readFilter front p) (fresh : p.lastRefId ≠ u32Max)
    (returned : next readFilter fuel p = some (.ok (out, p'))) :
    (∃ q, next readFilter fuel (extend err back p) = some (.ok (some (.error err), q))) ∨
      (next readFilter fuel (extend err back p) = some (.ok (out, extend err back p')) ∧
        p'.lastRefId ≠ u32Max) := by
  obtain ⟨pulled, split, -⟩ := tracked.latest
  have clean_p : ∀ e, Except.error e ∉ p.recordIter := fun e mem =>
    no_errors e (split ▸ List.mem_append_right _ mem)
  have clean_ext : (extend err back p).error = none := by
    rw [extend_of_ne fresh]
    exact tracked.clean
  unfold next at returned ⊢
  rw [tracked.clean] at returned
  rw [clean_ext]
  simp only at returned ⊢
  rcases searched : search readFilter fuel (u32Max, u32Max) p with _ | msg | ⟨target, q⟩ <;>
    rw [searched] at returned
  · cases returned
  · cases returned
  simp only at returned
  have tracked_q : Tracked readFilter front q := search_invariant readFilter _
    (fun _ _ holds read => tracked_readNext sorted no_errors holds read) fuel tracked searched
  rw [tracked_q.clean] at returned
  simp only at returned
  rcases search_append_error readFilter fuel _ p fresh clean_p searched with
      ⟨found', q', extended, latched⟩ | ⟨extended, ended⟩
  · rw [extended]
    simp only [latched]
    exact .inl ⟨_, rfl⟩
  · rw [extended]
    rw [extend_of_ne ended]
    simp only [tracked_q.clean]
    split at returned
    · cases returned
    · cases returned
      exact .inr ⟨by simp only [extend, ended, if_false], ended⟩

theorem steps_append_error {p p₁ p₂ : Pileup} {outs : List Output}
    (tracked : Tracked readFilter front p) (fresh : p.lastRefId ≠ u32Max)
    (run : Steps readFilter p outs p₁) (last : Returns readFilter p₁ none p₂) :
    ∃ outs' q q', Steps readFilter (extend err back p) outs' q ∧
      Returns readFilter q (some (.error err)) q' := by
  induction run with
  | refl =>
    obtain ⟨fuel, returned⟩ := last
    rcases next_append_error sorted no_errors tracked fresh returned with
        ⟨q, reached⟩ | ⟨-, ended⟩
    · exact ⟨[], _, q, .refl _, fuel, reached⟩
    · have bounded := (tracked_next sorted no_errors tracked returned).bounded
      have drained := (next_none_drained readFilter returned).2.1
      omega
  | step returns _ ih =>
    obtain ⟨fuel, returned⟩ := returns
    rcases next_append_error sorted no_errors tracked fresh returned with
        ⟨q, reached⟩ | ⟨followed, ended⟩
    · exact ⟨[], _, q, .refl _, fuel, reached⟩
    · obtain ⟨outs', q, q', run', reached⟩ :=
        ih (tracked_next sorted no_errors tracked returned) ended last
      exact ⟨_, q, q', .step ⟨fuel, followed⟩ run', reached⟩

variable (asserted : ∀ r, Except.ok r ∈ front → r.mapped → 0 ≤ r.refId ∧ 0 ≤ r.start)
  (shaped : ∀ r ∈ passingRecords readFilter front, Shaped r)
include asserted shaped

/-- An `Err` item of the input is returned, whatever follows it, when the input before it is sorted,
has no `Err` item and is shaped as for completeness. -/
theorem error_item_returned :
    ∃ (p₀ : Pileup) (outs : List Output) (p p' : Pileup),
      withFilter readFilter (front ++ .error err :: back) = .ok p₀ ∧
        Steps readFilter p₀ outs p ∧ Returns readFilter p (some (.error err)) p' := by
  obtain ⟨q₀, columns, q, q', created, run, last⟩ :=
    runs_to_none sorted no_errors asserted shaped
  have start : withFilter readFilter (front ++ .error err :: back) =
      (withFilter readFilter front).map (extend err back) :=
    readNext_append_error readFilter (p := ⟨front, [], none, 0, 0⟩) (by simp [u32Max]) no_errors
  rw [created] at start
  by_cases ended : q₀.lastRefId = u32Max
  · refine ⟨_, [], _, (extend err back q₀).failed, start, .refl _, 0, ?_⟩
    simp only [next, extend, ended, if_true]
  · obtain ⟨outs, p, p', run', reached⟩ :=
      steps_append_error sorted no_errors (tracked_withFilter sorted no_errors created) ended run
        last
    exact ⟨_, outs, p, p', start, run', reached⟩

end Appended

theorem error_item_returned_after_deletion :
    ∃ (p₀ : Pileup) (outs : List Output) (p p' : Pileup),
      withFilter (fun _ => true) [.ok recordTrailingDeletion, .error ⟨.other, "read failed"⟩] =
          .ok p₀ ∧
        Steps (fun _ => true) p₀ outs p ∧
        Returns (fun _ => true) p (some (.error ⟨.other, "read failed"⟩)) p' :=
  @error_item_returned (fun _ => true) ⟨.other, "read failed"⟩ [] [.ok recordTrailingDeletion]
    (by decide) (by simp) (by simp [recordTrailingDeletion])
    (by simp [passingRecords, passes, shaped_recordTrailingDeletion])

end Pileup

end Bam
