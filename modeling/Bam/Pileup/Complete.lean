import Mathlib.Data.List.Nodup
import Bam.Pileup.Pending

set_option autoImplicit false

/- A sorted input with no `Err` items, whose mapped records pass the assertion of
`record_passes` and whose passing records are shaped: every call of `next` returns, the calls
end in `None`, and the columns returned hold each pair of each passing record's walk once. -/
namespace Bam

theorem count_flatMap_keys {r : Record} {pos : Nat} (start_le : r.start.toNat ≤ pos)
    (lt_end : pos < r.start.toNat + r.walkedLen) :
    ∀ records : List Record, (records.flatMap Record.keys).count (r, pos) = records.count r
  | [] => rfl
  | r' :: rest => by
    have nodup : r'.keys.Nodup := (List.nodup_range' _ _).map (Prod.mk.inj_left r')
    -- `count` on pairs compares with the pair `BEq`, the `Nodup` count lemma with `DecidableEq`
    have lawful : (instBEqProd : BEq (Record × Nat)) = instBEqOfDecidableEq :=
      @lawful_beq_subsingleton _ instBEqProd instBEqOfDecidableEq Prod.instLawfulBEq instLawfulBEq
    rw [List.flatMap_cons, List.count_append, List.count_cons, count_flatMap_keys start_le lt_end,
      lawful, List.count_eq_of_nodup nodup]
    by_cases same : r' = r
    · simp [same, Record.mem_keys, start_le, lt_end, Nat.add_comm]
    · simp [same, Record.mem_keys, Ne.symm same]

theorem length_filter_record {entries : List PileupEntry} {r : Record} {pos : Nat}
    (at_pos : ∀ e ∈ entries, e.refPos = pos) :
    (entries.filter fun e => e.record = r).length =
      (entries.map PileupEntry.key).count (r, pos) := by
  rw [List.count, List.countP_map, List.countP_eq_length_filter]
  congr 1
  refine List.filter_congr fun e inside => Bool.eq_iff_iff.mpr ?_
  simp [PileupEntry.key, at_pos e inside]

theorem PileupEntry.pos_of_key {e : PileupEntry} {r : Record} {pos : Nat}
    (key_eq : e.key = (r, pos)) : e.pos = (r.refId.toNat, pos) := by
  cases key_eq
  rfl

theorem count_keys_column {r : Record} {pos : Nat} {c : PileupColumn} :
    ∀ {columns : List PileupColumn}, c ∈ columns →
      (columns.map fun c => (c.refId, c.refPos)).Nodup →
      (∀ c' ∈ columns, ∀ e ∈ c'.entries, e.pos = (c'.refId, c'.refPos)) →
      (c.refId, c.refPos) = (r.refId.toNat, pos) →
      (columns.flatMap fun c => c.entries.map PileupEntry.key).count (r, pos) =
        (c.entries.map PileupEntry.key).count (r, pos)
  | [], mem, _, _, _ => absurd mem (List.not_mem_nil _)
  | c₀ :: rest, mem, distinct, at_c, position => by
    have at_pair : ∀ c' ∈ c₀ :: rest, (r, pos) ∈ c'.entries.map PileupEntry.key →
        (c'.refId, c'.refPos) = (r.refId.toNat, pos) := by
      intro c' mem' inside
      obtain ⟨e, inside, key_eq⟩ := List.mem_map.mp inside
      exact (at_c c' mem' e inside).symm.trans (PileupEntry.pos_of_key key_eq)
    obtain ⟨fresh, distinct_rest⟩ := List.nodup_cons.mp distinct
    rw [List.flatMap_cons, List.count_append]
    rcases List.mem_cons.mp mem with rfl | mem_rest
    · rw [Nat.add_right_eq_self, List.count_eq_zero]
      intro inside
      obtain ⟨c', mem', inside'⟩ := List.mem_flatMap.mp inside
      exact fresh (List.mem_map.mpr ⟨c', mem', (at_pair c' (.tail _ mem') inside').trans position.symm⟩)
    · rw [count_keys_column mem_rest distinct_rest (fun c' mem' => at_c c' (.tail _ mem')) position,
        Nat.add_left_eq_self, List.count_eq_zero]
      intro inside
      exact fresh (List.mem_map.mpr ⟨c, mem_rest, position.trans (at_pair c₀ (.head _) inside).symm⟩)

namespace Pileup

variable (readFilter : Record → Bool)

theorem recordPasses_asserted {r : Record}
    (asserted : r.mapped → 0 ≤ r.refId ∧ 0 ≤ r.start) :
    recordPasses readFilter r = .ok (passes readFilter r) := by
  unfold recordPasses passes
  cases mapped : r.mapped
  · rfl
  · simp [asserted mapped]

theorem readLoop_ok (p : Pileup) :
    ∀ items : List Item,
      (∀ r, Except.ok r ∈ items → r.mapped → 0 ≤ r.refId ∧ 0 ≤ r.start) →
      (∀ r ∈ passingRecords readFilter items, Shaped r) →
      ∃ p', readLoop readFilter p items = .ok p'
  | [], _, _ => ⟨_, rfl⟩
  | .error _ :: _, _, _ => ⟨_, rfl⟩
  | .ok r :: rest, asserted, shaped => by
    have passing := recordPasses_asserted readFilter (asserted r (by simp))
    have asserted_rest := fun r' (mem : Except.ok r' ∈ rest) => asserted r' (.tail _ mem)
    cases kept : passes readFilter r
    · simp only [readLoop, passing, kept]
      exact readLoop_ok p rest asserted_rest (by simpa [passingRecords, kept] using shaped)
    · have nonneg := (asserted r (by simp) (by simp [passes] at kept; exact kept.1)).2
      have shaped_r := shaped r (by simp [passingRecords, kept])
      obtain ⟨entry, created⟩ := PileupEntry.new_total shaped_r.positive nonneg shaped_r.hasRef
        shaped_r.queryFits
      simp only [readLoop, passing, kept, created]
      exact ⟨_, rfl⟩

def readsLeft (p : Pileup) : Nat := p.recordIter.length + if p.lastRefId = u32Max then 0 else 1

/-- The invariant of a run toward the end: the sorted run's invariant, and the live entries in
closed form. -/
structure Live (input : List Item) (p : Pileup) : Prop where
  tracked : Tracked readFilter input p
  walking : Walking p

theorem search_cases {input : List Item} {fuel : Nat} {p q : Pileup} {target : Nat × Nat}
    (tracked : Tracked readFilter input p)
    (searched : search readFilter fuel (u32Max, u32Max) p = some (.ok (target, q))) :
    (p.entries = [] ∧ p.lastRefId = u32Max ∧ q = p) ∨
      (p.entries ≠ [] ∧ target = aim p ∧ IngestReach readFilter (aim p) p q) := by
  cases fuel with
  | zero => cases searched
  | succ fuel =>
    simp only [search] at searched
    split at searched
    · rename_i started
      have nonempty : p.entries ≠ [] := started.2.elim id fun fresh => by
        obtain ⟨e, mem, -⟩ := tracked.ordered.live fresh
        exact List.ne_nil_of_mem mem
      split at searched
      · cases searched
      · cases searched
      · rename_i q' ingested
        have reach := (ingest_reach readFilter fuel .start ingested).1
        split at searched
        · cases searched
          exact .inr ⟨nonempty, rfl, reach⟩
        · cases fuel with
          | zero => cases searched
          | succ fuel =>
            obtain ⟨⟨e, -, at_e⟩, -⟩ := target_least nonempty
            have bound := e.refId_lt_u32Max
            simp only [search] at searched
            rw [if_neg fun again => by
              simp only [at_e, PileupEntry.pos] at again
              omega] at searched
            cases searched
            exact .inr ⟨nonempty, rfl, reach⟩
    · rename_i idle
      cases searched
      have bounded := tracked.bounded
      simp only [true_and, not_or, not_not] at idle
      exact .inl ⟨idle.1, by omega, rfl⟩

section Complete

variable {readFilter} {input : List Item}
  (sorted : (passingRecords readFilter input).Pairwise fun a b => AtOrBefore a.pos b.pos)
  (no_errors : ∀ err, Except.error err ∉ input)
  (asserted : ∀ r, Except.ok r ∈ input → r.mapped → 0 ≤ r.refId ∧ 0 ≤ r.start)
  (shaped : ∀ r ∈ passingRecords readFilter input, Shaped r)
include sorted no_errors asserted shaped

omit sorted in
theorem Live.ahead {p : Pileup} (live : Live readFilter input p) :
    (∀ err, Except.error err ∉ p.recordIter) ∧
      (∀ r, Except.ok r ∈ p.recordIter → r.mapped → 0 ≤ r.refId ∧ 0 ≤ r.start) ∧
      ∀ r ∈ passingRecords readFilter p.recordIter, Shaped r := by
  obtain ⟨pulled, split, -⟩ := live.tracked.latest
  refine ⟨fun err mem => no_errors err (split ▸ List.mem_append_right _ mem),
    fun r mem => asserted r (split ▸ List.mem_append_right _ mem), fun r mem => shaped r ?_⟩
  rw [split, passingRecords_append]
  exact List.mem_append_right _ mem

theorem Live.readNext {p p' : Pileup} (live : Live readFilter input p)
    (read : readNext readFilter p = .ok p') : Live readFilter input p' :=
  ⟨tracked_readNext sorted no_errors live.tracked read,
    walking_readNext readFilter live.walking
      (live.ahead no_errors asserted shaped).2.2 read⟩

omit sorted in
theorem readNext_progress {p : Pileup} (live : Live readFilter input p)
    (fresh : p.lastRefId ≠ u32Max) :
    ∃ p', readNext readFilter p = .ok p' ∧ readsLeft p' < readsLeft p := by
  obtain ⟨-, asserted_p, shaped_p⟩ := live.ahead no_errors asserted shaped
  obtain ⟨p', looped⟩ := readLoop_ok readFilter p p.recordIter asserted_p shaped_p
  have read : readNext readFilter p = .ok p' := by
    rw [readNext, if_neg (by simp [fresh, live.tracked.clean]), looped]
  refine ⟨p', read, ?_⟩
  unfold readsLeft
  rw [if_neg fresh]
  rcases readLoop_cases readFilter looped with
      ⟨-, rfl⟩ | ⟨skipped, e, rest, items, -, rfl⟩ |
      ⟨skipped, r, rest, entry, items, -, -, -, rfl⟩
  · simp
  · simp only [items, List.length_append, List.length_cons, ite_true]
    omega
  · simp only [ingested, items, List.length_append, List.length_cons]
    split <;> omega

theorem ingest_returns (target : Nat × Nat) :
    ∀ (fuel : Nat) (p : Pileup), Live readFilter input p → readsLeft p < fuel →
      ∃ p', ingest readFilter target fuel p = some (.ok p')
  | 0, _, _, short => absurd short (Nat.not_lt_zero _)
  | fuel + 1, p, live, enough => by
    simp only [ingest]
    split
    · rename_i guard
      obtain ⟨p', read, fewer⟩ :=
        readNext_progress no_errors asserted shaped live (Nat.ne_of_lt guard.1)
      rw [read]
      exact ingest_returns target fuel p' (live.readNext sorted no_errors asserted shaped read)
        (by omega)
    · exact ⟨p, rfl⟩

theorem search_returns {p : Pileup} (live : Live readFilter input p) :
    ∃ target q, search readFilter (readsLeft p + 2)
      (u32Max, u32Max) p = some (.ok (target, q)) := by
  simp only [search]
  split
  · rename_i started
    have nonempty : p.entries ≠ [] := started.2.elim id fun fresh => by
      obtain ⟨e, mem, -⟩ := live.tracked.ordered.live fresh
      exact List.ne_nil_of_mem mem
    obtain ⟨q, ingested⟩ := ingest_returns sorted no_errors asserted shaped
      (p.entries.foldl targetStep (u32Max, u32Max)) (readsLeft p + 1) p live (by omega)
    simp only [ingested]
    split
    · exact ⟨_, _, rfl⟩
    · obtain ⟨⟨e, -, at_e⟩, -⟩ := target_least nonempty
      have bound := e.refId_lt_u32Max
      rw [if_neg fun again => by simp only [at_e, PileupEntry.pos] at again; omega]
      exact ⟨_, _, rfl⟩
  · exact ⟨_, _, rfl⟩

theorem Live.search {fuel : Nat} {target : Nat × Nat} {p q : Pileup}
    (live : Live readFilter input p)
    (searched : search readFilter fuel (u32Max, u32Max) p = some (.ok (target, q))) :
    Live readFilter input q ∧ pending readFilter q = pending readFilter p :=
  search_invariant readFilter
    (fun q => Live readFilter input q ∧ pending readFilter q = pending readFilter p)
    (fun _ _ ⟨live_q, same⟩ read => ⟨live_q.readNext sorted no_errors asserted shaped read,
      (pending_readNext readFilter (live_q.ahead no_errors asserted shaped).1 read).trans same⟩)
    fuel ⟨live, rfl⟩ searched

/-- Every call of `next` from a state of the run returns: no entry lies before the settled target,
and `move_forward` does not panic on a cursor in closed form. -/
theorem next_returns {p : Pileup} (live : Live readFilter input p) :
    ∃ fuel out p', next readFilter fuel p = some (.ok (out, p')) := by
  obtain ⟨target, q, searched⟩ := search_returns sorted no_errors asserted shaped live
  obtain ⟨live_q, -⟩ := live.search sorted no_errors asserted shaped searched
  obtain ⟨-, settled⟩ := settled_search readFilter _
    (fun _ => ⟨live.tracked.ordered, .inl rfl⟩) searched live_q.tracked.clean
  obtain ⟨res, looped⟩ :
      ∃ res, columnLoop target q.entries.length q.entries [] = .ok res := by
    cases looped : columnLoop target q.entries.length q.entries [] with
    | ok res => exact ⟨res, rfl⟩
    | error msg =>
      obtain ⟨e, mem, failing⟩ :=
        columnLoop_error q.entries [] [] (by simpa only [List.append_nil] using looped)
      obtain ⟨shaped_e, i, k, at_base⟩ := live_q.walking e mem
      obtain ⟨out, advanced⟩ :=
        advance_ok (settled.least e mem) (at_base.moveForward_ok shaped_e.alnEq shaped_e.refFits
          shaped_e.queryFits)
      cases advanced.symm.trans failing
  refine ⟨readsLeft p + 2, ?_⟩
  simp only [next, live.tracked.clean, searched, live_q.tracked.clean, looped]
  exact ⟨_, _, rfl⟩

theorem next_pending {fuel : Nat} {p p' : Pileup} {out : Output} (live : Live readFilter input p)
    (returned : next readFilter fuel p = some (.ok (out, p'))) :
    Live readFilter input p' ∧
      (pending readFilter p).Perm (columnKeys out ++ pending readFilter p') ∧
      ((out = none ∧ pending readFilter p = []) ∨
        ∃ c : PileupColumn, out = some (.ok c) ∧ c.entries ≠ [] ∧
          ∀ e ∈ c.entries, e.pos = (c.refId, c.refPos)) := by
  unfold next at returned
  simp only [live.tracked.clean] at returned
  split at returned
  · cases returned
  · cases returned
  rename_i target q searched
  obtain ⟨live_q, same⟩ := live.search sorted no_errors asserted shaped searched
  split at returned
  · rename_i latched
    cases live_q.tracked.clean.symm.trans latched
  split at returned
  · cases returned
  rename_i live' column looped
  cases returned
  obtain ⟨-, settled⟩ := settled_search readFilter fuel
    (fun _ => ⟨live.tracked.ordered, .inl rfl⟩) searched live_q.tracked.clean
  have column_eq := columnLoop_column looped
  refine ⟨⟨tracked_columnLoop live_q.tracked settled looped,
    walking_columnLoop live_q.walking looped⟩, ?_, ?_⟩
  · rw [columnKeys_column, ← same]
    simp only [pending, ← List.append_assoc]
    exact (columnLoop_keys looped).append_right _
  by_cases empty : column = []
  · refine .inl ⟨by simp [empty], ?_⟩
    rcases search_cases readFilter live.tracked searched with ⟨none_live, exhausted, rfl⟩ |
        ⟨nonempty, rfl, reach⟩
    · have drained : passingRecords readFilter q.recordIter = [] :=
        List.eq_nil_iff_forall_not_mem.mpr fun r mem => by
          have after := live.tracked.unread r mem
          have bound := r.refId_toNat_lt
          simp only [AtOrBefore, last, exhausted, Record.pos, u32Max] at after
          omega
      simp [pending, none_live, drained]
    · obtain ⟨⟨e, mem, at_e⟩, -⟩ := target_least nonempty
      have grown : e ∈ q.entries := reach.invariant readFilter (fun q => e ∈ q.entries) mem
        fun _ _ holds _ read => readNext_entries readFilter read e holds
      have inside : e ∈ column := by
        rw [column_eq, List.mem_reverse, List.mem_filter]
        exact ⟨grown, by simpa using at_e.symm⟩
      simp [empty] at inside
  · refine .inr ⟨⟨column, target.1, target.2⟩, by simp [empty], empty, fun e mem => ?_⟩
    rw [column_eq, List.mem_reverse, List.mem_filter] at mem
    simpa using mem.2

theorem steps_pending {p q : Pileup} {outs : List Output} (live : Live readFilter input p)
    (run : Steps readFilter p outs q) :
    Live readFilter input q ∧
      (pending readFilter p).Perm (outs.flatMap columnKeys ++ pending readFilter q) ∧
      ∀ c : PileupColumn, some (.ok c) ∈ outs →
        c.entries ≠ [] ∧ ∀ e ∈ c.entries, e.pos = (c.refId, c.refPos) := by
  induction run with
  | refl => exact ⟨live, by simp, by simp⟩
  | step returns _ ih =>
    obtain ⟨fuel, returned⟩ := returns
    obtain ⟨live', split, shape⟩ := next_pending sorted no_errors asserted shaped live returned
    obtain ⟨live_q, split', columns⟩ := ih live'
    refine ⟨live_q, ?_, fun c mem => ?_⟩
    · rw [List.flatMap_cons, List.append_assoc]
      exact split.trans (split'.append_left _)
    rcases List.mem_cons.mp mem with rfl | later
    · rcases shape with ⟨none_out, -⟩ | ⟨c', same, facts⟩
      · cases none_out
      · cases same
        exact facts
    · exact columns c later

theorem steps_to_none {p : Pileup} (live : Live readFilter input p) :
    ∃ (columns : List PileupColumn) (q q' : Pileup),
      Steps readFilter p (columns.map fun c => some (.ok c)) q ∧
        Returns readFilter q none q' := by
  obtain ⟨n, size⟩ : ∃ n, (pending readFilter p).length = n := ⟨_, rfl⟩
  induction n using Nat.strong_induction_on generalizing p with
  | _ n ih =>
    obtain ⟨fuel, out, p', returned⟩ := next_returns sorted no_errors asserted shaped live
    obtain ⟨live', split, shape⟩ := next_pending sorted no_errors asserted shaped live returned
    rcases shape with ⟨rfl, -⟩ | ⟨c, rfl, nonempty, -⟩
    · exact ⟨[], p, p', .refl _, fuel, returned⟩
    · have shorter : (pending readFilter p').length < n := by
        have sizes := split.length_eq
        have taken := List.length_pos.mpr nonempty
        simp only [columnKeys, List.length_append, List.length_map] at sizes
        omega
      obtain ⟨columns, q, q', run, last⟩ := ih _ shorter live' rfl
      exact ⟨c :: columns, q, q', .step ⟨fuel, returned⟩ run, last⟩

omit asserted in
theorem live_withFilter {p₀ : Pileup} (created : withFilter readFilter input = .ok p₀) :
    Live readFilter input p₀ ∧
      pending readFilter p₀ = (passingRecords readFilter input).flatMap Record.keys :=
  ⟨⟨tracked_withFilter sorted no_errors created,
      walking_readNext readFilter (fun _ mem => by cases mem) shaped created⟩,
    (pending_readNext readFilter no_errors created).trans (by simp [pending])⟩

/-- Every run that reaches `None` returns each pair of each passing record's walk once, in non-empty
columns of entries at their position, at increasing positions. -/
theorem complete_run {p₀ p p' : Pileup} {columns : List PileupColumn}
    (created : withFilter readFilter input = .ok p₀)
    (run : Steps readFilter p₀ (columns.map fun c => some (.ok c)) p)
    (last : Returns readFilter p none p') :
    (columns.flatMap fun c => c.entries.map PileupEntry.key).Perm
        ((passingRecords readFilter input).flatMap Record.keys) ∧
      (∀ c ∈ columns, c.entries ≠ [] ∧ ∀ e ∈ c.entries, e.pos = (c.refId, c.refPos)) ∧
      (columns.map fun c => (c.refId, c.refPos)).Pairwise Before := by
  obtain ⟨live₀, pending₀⟩ := live_withFilter sorted no_errors shaped created
  obtain ⟨live, split, columns_ok⟩ := steps_pending sorted no_errors asserted shaped live₀ run
  obtain ⟨fuel, returned⟩ := last
  obtain ⟨-, -, ⟨-, drained⟩ | ⟨c, none_eq, -⟩⟩ :=
    next_pending sorted no_errors asserted shaped live returned
  · refine ⟨?_, fun c mem => columns_ok c (List.mem_map_of_mem _ mem), ?_⟩
    · rw [← pending₀]
      simpa [drained, columnKeys, List.flatMap_map] using split.symm
    · have positions : (columns.map fun c => some (.ok c)).filterMap columnPos =
          columns.map fun c => (c.refId, c.refPos) := by
        rw [List.filterMap_map]
        exact congrFun (List.filterMap_eq_map _) columns
      rw [← positions]
      exact (steps_ordered readFilter run (ordered_withFilter readFilter created)).2
  · cases none_eq

/-- The calls of `next` from the state `with_filter` builds reach `None`. -/
theorem runs_to_none :
    ∃ (p₀ : Pileup) (columns : List PileupColumn) (p p' : Pileup),
      withFilter readFilter input = .ok p₀ ∧
        Steps readFilter p₀ (columns.map fun c => some (.ok c)) p ∧
          Returns readFilter p none p' := by
  obtain ⟨p₀, created⟩ : ∃ p₀, withFilter readFilter input = .ok p₀ :=
    readLoop_ok readFilter _ input asserted shaped
  obtain ⟨columns, p, p', run, last⟩ := steps_to_none sorted no_errors asserted shaped
    (live_withFilter sorted no_errors shaped created).1
  exact ⟨p₀, columns, p, p', created, run, last⟩

/-- Pileup completeness over the positions the walks cover: on a sorted input of shaped passing
records the calls reach `None`, and each walked pair comes out once, in order. -/
theorem pileup_walks_complete :
    (∃ (p₀ : Pileup) (columns : List PileupColumn) (p p' : Pileup),
      withFilter readFilter input = .ok p₀ ∧
        Steps readFilter p₀ (columns.map fun c => some (.ok c)) p ∧
          Returns readFilter p none p') ∧
      ∀ (p₀ : Pileup) (columns : List PileupColumn) (p p' : Pileup),
        withFilter readFilter input = .ok p₀ →
        Steps readFilter p₀ (columns.map fun c => some (.ok c)) p →
        Returns readFilter p none p' →
        (columns.flatMap fun c => c.entries.map PileupEntry.key).Perm
            ((passingRecords readFilter input).flatMap Record.keys) ∧
          (∀ c ∈ columns, c.entries ≠ [] ∧
            ∀ e ∈ c.entries, e.pos = (c.refId, c.refPos)) ∧
          (columns.map fun c => (c.refId, c.refPos)).Pairwise Before :=
  ⟨runs_to_none sorted no_errors asserted shaped,
    fun _ _ _ _ created run last =>
      complete_run sorted no_errors asserted shaped created run last⟩

/-- Each position of a passing record's walk gets exactly one column, holding one entry of the
record per time it passes; every entry lies on a passing record's walk. -/
theorem walk_positions_once :
    (∃ (p₀ : Pileup) (columns : List PileupColumn) (p p' : Pileup),
      withFilter readFilter input = .ok p₀ ∧
        Steps readFilter p₀ (columns.map fun c => some (.ok c)) p ∧
          Returns readFilter p none p') ∧
      ∀ (p₀ : Pileup) (columns : List PileupColumn) (p p' : Pileup),
        withFilter readFilter input = .ok p₀ →
        Steps readFilter p₀ (columns.map fun c => some (.ok c)) p →
        Returns readFilter p none p' →
        (∀ c ∈ columns, ∀ e ∈ c.entries, e.record ∈ passingRecords readFilter input ∧
          e.record.start.toNat ≤ e.refPos ∧
            e.refPos < e.record.start.toNat + e.record.walkedLen) ∧
        ∀ r ∈ passingRecords readFilter input, ∀ pos,
          r.start.toNat ≤ pos → pos < r.start.toNat + r.walkedLen →
          ∃ c ∈ columns, (c.refId, c.refPos) = (r.refId.toNat, pos) ∧
            (c.entries.filter fun e => e.record = r).length =
              (passingRecords readFilter input).count r ∧
            ∀ c' ∈ columns, (c'.refId, c'.refPos) = (r.refId.toNat, pos) → c' = c := by
  refine ⟨runs_to_none sorted no_errors asserted shaped,
    fun p₀ columns p p' created run last => ?_⟩
  obtain ⟨keys_perm, columns_ok, increasing⟩ :=
    complete_run sorted no_errors asserted shaped created run last
  refine ⟨fun c mem e inside => ?_, fun r passing pos start_le lt_end => ?_⟩
  · obtain ⟨r, passing, on_walk⟩ := List.mem_flatMap.mp
      (keys_perm.subset (List.mem_flatMap.mpr ⟨c, mem, List.mem_map_of_mem _ inside⟩))
    obtain ⟨rfl, bounds⟩ := Record.mem_keys.mp on_walk
    exact ⟨passing, bounds⟩
  have counted : (columns.flatMap fun c => c.entries.map PileupEntry.key).count (r, pos) =
      (passingRecords readFilter input).count r := by
    rw [List.count, keys_perm.countP_eq, ← List.count, count_flatMap_keys start_le lt_end]
  have present : (r, pos) ∈ columns.flatMap fun c => c.entries.map PileupEntry.key :=
    List.count_pos_iff.mp (counted ▸ List.count_pos_iff.mpr passing)
  obtain ⟨c, mem, inside⟩ := List.mem_flatMap.mp present
  obtain ⟨e, inside, key_eq⟩ := List.mem_map.mp inside
  have at_c := fun c mem => (columns_ok c mem).2
  have position : (c.refId, c.refPos) = (r.refId.toNat, pos) :=
    (at_c c mem e inside).symm.trans (PileupEntry.pos_of_key key_eq)
  have at_pos : ∀ e' ∈ c.entries, e'.refPos = pos := fun e' inside' =>
    congrArg Prod.snd ((at_c c mem e' inside').trans position)
  have distinct := increasing.imp Before.ne
  refine ⟨c, mem, position, ?_, fun c' mem' at_pos => ?_⟩
  · rw [length_filter_record at_pos, ← count_keys_column mem distinct at_c position, counted]
  · exact List.inj_on_of_nodup_map distinct mem' mem (at_pos.trans position.symm)

end Complete

/-- `5M3D` at `(0, 0)`: its deletion covers reference positions 5 to 7 and starts at query
offset 5, its `aligned_query_end`. -/
def recordTrailingDeletion : Record :=
  { refId := 0, start := 0, mapped := true, bin := 4681,
    cigar := [(5, .alnMatch), (3, .deletion)], alnQueryEnd := 5 }

def recordNegativeRef : Record :=
  { refId := -1, start := 0, mapped := true, bin := 4681, cigar := [(5, .alnMatch)],
    alnQueryEnd := 5 }

theorem shaped_recordTrailingDeletion : Shaped recordTrailingDeletion :=
  ⟨by decide, by decide, by decide, by decide, by decide⟩

theorem pileup_walks_complete_trailing_deletion :
    ∃ (p₀ : Pileup) (columns : List PileupColumn) (p p' : Pileup),
      withFilter (fun _ => true) [.ok recordTrailingDeletion] = .ok p₀ ∧
        Steps (fun _ => true) p₀ (columns.map fun c => some (.ok c)) p ∧
        Returns (fun _ => true) p none p' :=
  (pileup_walks_complete (by decide) (by simp) (by simp [recordTrailingDeletion])
    (by simp [passingRecords, passes, shaped_recordTrailingDeletion])).1

theorem walk_positions_once_last_base :
    ∃ (p₀ : Pileup) (columns : List PileupColumn) (p p' : Pileup),
      withFilter (fun _ => true) [.ok recordTrailingDeletion, .ok recordTrailingDeletion] =
        .ok p₀ ∧
        Steps (fun _ => true) p₀ (columns.map fun c => some (.ok c)) p ∧
        Returns (fun _ => true) p none p' ∧
        ∃ c ∈ columns, (c.refId, c.refPos) = (0, 4) ∧
          (c.entries.filter fun e => e.record = recordTrailingDeletion).length = 2 ∧
          ∀ c' ∈ columns, (c'.refId, c'.refPos) = (0, 4) → c' = c := by
  have once := @walk_positions_once (fun _ => true)
    [.ok recordTrailingDeletion, .ok recordTrailingDeletion] (by decide) (by simp)
    (by simp [recordTrailingDeletion])
    (by simp [passingRecords, passes, show recordTrailingDeletion.mapped from rfl,
      shaped_recordTrailingDeletion])
  obtain ⟨p₀, columns, p, p', created, run, last⟩ := once.1
  obtain ⟨c, mem, position, twice, unique⟩ := (once.2 p₀ columns p p' created run last).2
    recordTrailingDeletion (by simp [passingRecords, passes, recordTrailingDeletion]) 4
    (by decide) (by decide)
  exact ⟨p₀, columns, p, p', created, run, last, c, mem, position,
    twice.trans (by simp [passingRecords, passes, recordTrailingDeletion]), unique⟩

/-- On `5M3D` the positions under the trailing deletion get no column, though they lie in `[start,
calculate_end)`; a mapped record with `ref_id = -1` makes `with_filter` panic. -/
theorem trailing_deletion_not_piled :
    (Shaped recordTrailingDeletion ∧ recordTrailingDeletion.cigar[1]? = some (3, .deletion) ∧
      recordTrailingDeletion.cigar.refBefore 1 = 5 ∧ 5 < recordTrailingDeletion.calculateEnd ∧
      ∀ (p₀ : Pileup) (columns : List PileupColumn) (p p' : Pileup),
        withFilter (fun _ => true) [.ok recordTrailingDeletion] = .ok p₀ →
        Steps (fun _ => true) p₀ (columns.map fun c => some (.ok c)) p →
        Returns (fun _ => true) p none p' →
        ∀ c ∈ columns, ∀ e ∈ c.entries, e.refPos < 5) ∧
      Shaped recordNegativeRef ∧
      withFilter (fun _ => true) [.ok recordNegativeRef] =
        .error "assertion failed: record.ref_id() >= 0 && record.start() >= 0" := by
  refine ⟨⟨shaped_recordTrailingDeletion, rfl, by decide, by decide,
    fun p₀ columns p p' created run last c mem e inside => ?_⟩,
      ⟨by decide, by decide, by decide, by decide, by decide⟩, rfl⟩
  have covered := ((complete_run (by decide) (by simp) (by simp [recordTrailingDeletion])
    (by simp [passingRecords, passes, shaped_recordTrailingDeletion]) created run last).1.subset
    (List.mem_flatMap.mpr ⟨c, mem, List.mem_map_of_mem _ inside⟩))
  have walked : recordTrailingDeletion.walkedLen = 5 := by decide
  simp only [passingRecords, passes, Record.keys, PileupEntry.key, List.mem_flatMap,
    List.mem_map, List.mem_range'_1] at covered
  obtain ⟨r, kept, pos, ⟨-, below⟩, same⟩ := covered
  obtain ⟨rfl, rfl⟩ := Prod.mk.inj same
  have only_r : e.record = recordTrailingDeletion := by simpa [recordTrailingDeletion] using kept
  rw [only_r, walked] at below
  exact below

end Pileup

end Bam
