import Bam.Pileup.Ingest

set_option autoImplicit false

/- The columns of a run come out in strictly increasing `(ref_id, ref_pos)` order, for every
input and filter: within a call the target lies at or before the live set, and the ingestion
loop stops strictly before the last ingested record, so every entry the column loop keeps or
moves ends up past the target. -/
namespace Bam

theorem Before.trans_atOrBefore {a b c : Nat × Nat} (first : Before a b)
    (second : AtOrBefore b c) : Before a c := by
  unfold Before AtOrBefore at *
  omega

theorem AtOrBefore.of_before {a b : Nat × Nat} (before : Before a b) : AtOrBefore a b := by
  unfold Before AtOrBefore at *
  omega

theorem Before.ne {a b : Nat × Nat} (before : Before a b) : a ≠ b := by
  rintro rfl
  unfold Before at before
  omega

theorem AtOrBefore.not_before {a b : Nat × Nat} (le : AtOrBefore a b) : ¬ Before b a := by
  unfold Before AtOrBefore at *
  omega

/-- `q` lies after the last column returned, if there is one. -/
def Above : Option (Nat × Nat) → Nat × Nat → Prop
  | none, _ => True
  | some floor, q => Before floor q

theorem Above.mono {floor : Option (Nat × Nat)} {a b : Nat × Nat} (above : Above floor a)
    (le : AtOrBefore a b) : Above floor b := by
  cases floor with
  | none => trivial
  | some floor => exact Before.trans_atOrBefore above le

/-- The position of the column a call returned, if it returned one. -/
def columnPos : Output → Option (Nat × Nat)
  | some (.ok column) => some (column.refId, column.refPos)
  | _ => none

theorem PileupEntry.pos_moveForward {e e' : PileupEntry} (moved : e.moveForward = .ok (some e')) :
    e'.pos = (e.pos.1, e.pos.2 + 1) := by
  obtain ⟨⟨record, -, refPos, -⟩, -⟩ := PileupEntry.moveForward_some moved
  simp [PileupEntry.pos, record, refPos]

theorem advance_past {target : Nat × Nat} {e : PileupEntry} {out : List PileupEntry}
    (advanced : advance target e = .ok out) (least : AtOrBefore target e.pos) :
    ∀ e' ∈ out, Before target e'.pos ∧ AtOrBefore e.pos e'.pos := by
  unfold advance at advanced
  split at advanced
  · rename_i here
    have at_target := (e.pos_eq_iff target).mpr here
    split at advanced
    · cases advanced
    · rename_i moved moving
      cases advanced
      intro e' mem
      rw [List.mem_singleton.mp mem, PileupEntry.pos_moveForward moving, at_target]
      unfold Before AtOrBefore
      omega
    · cases advanced
      simp
  · split at advanced
    · rename_i off _
      cases advanced
      intro e' mem
      rw [List.mem_singleton.mp mem]
      refine ⟨Before.of_atOrBefore_of_ne least fun same => off ?_, .inr ⟨rfl, le_refl _⟩⟩
      exact (e.pos_eq_iff target).mp same.symm
    · cases advanced

theorem advance_off {target : Nat × Nat} {e : PileupEntry} {out : List PileupEntry}
    (advanced : advance target e = .ok out) (off : e.pos ≠ target) : out = [e] := by
  unfold advance at advanced
  rw [if_neg fun here => off ((e.pos_eq_iff target).mpr here)] at advanced
  split at advanced
  · exact (Except.ok.inj advanced).symm
  · cases advanced

theorem PileupEntry.moveForward_not_left {e : PileupEntry} {msg : String}
    (failed : e.moveForward = .error msg) :
    msg ≠ "Record is to the left of the new pileup position" := by
  rcases PileupEntry.moveForward_error failed with rfl | rfl | rfl <;> decide

theorem columnLoop_keeps {target : Nat × Nat} {entries live column : List PileupEntry}
    (looped : columnLoop target entries.length entries [] = .ok (live, column))
    {e : PileupEntry} (mem : e ∈ entries) (off : e.pos ≠ target) : e ∈ live := by
  obtain ⟨outs, all, perm, -⟩ :=
    columnLoop_spec entries [] [] (by simpa only [List.append_nil] using looped)
  obtain ⟨out, inside, advanced⟩ := exists_of_mem_forall₂ all mem
  rw [advance_off advanced off] at inside
  exact perm.mem_iff.mpr (by simpa using ⟨_, inside, List.mem_singleton_self e⟩)

namespace Pileup

/-- The invariant behind the order of the columns, for a state with no latched error: `floor` is the
position of the last column returned. -/
structure Ordered (floor : Option (Nat × Nat)) (p : Pileup) : Prop where
  bounded : p.lastRefId ≤ u32Max
  live : p.lastRefId < u32Max → ∃ e ∈ p.entries, e.pos = p.last
  above : ∀ e ∈ p.entries, Above floor e.pos
  lastAbove : p.lastRefId < u32Max → Above floor p.last

def Rising (floor : Option (Nat × Nat)) (target : Nat × Nat) (p : Pileup) : Prop :=
  p.error = none → Ordered floor p ∧ ∀ e ∈ p.entries, AtOrBefore target e.pos

/-- After the loop at lines 253-274: the target lies at or before every live entry and
strictly before the last ingested record. -/
structure Settled (target : Nat × Nat) (p : Pileup) : Prop where
  least : ∀ e ∈ p.entries, AtOrBefore target e.pos
  past : p.lastRefId < u32Max → Before target p.last

theorem Ordered.target_le_last {floor : Option (Nat × Nat)} {target : Nat × Nat} {p : Pileup}
    (ordered : Ordered floor p) (least : ∀ e ∈ p.entries, AtOrBefore target e.pos)
    (fresh : p.lastRefId < u32Max) : AtOrBefore target p.last := by
  obtain ⟨e, mem, at_last⟩ := ordered.live fresh
  exact at_last ▸ least e mem

theorem Ordered.settled {floor : Option (Nat × Nat)} {target : Nat × Nat} {p : Pileup}
    (ordered : Ordered floor p) (least : ∀ e ∈ p.entries, AtOrBefore target e.pos)
    (stop : ¬ ingestGuard target p) : Settled target p := by
  refine ⟨least, fun fresh => ?_⟩
  have le := ordered.target_le_last least fresh
  simp only [ingestGuard, Before, AtOrBefore, last] at stop le ⊢
  omega

theorem ordered_drained {floor : Option (Nat × Nat)} {p : Pileup} (empty : p.entries = [])
    (exhausted : p.lastRefId = u32Max) : Ordered floor p :=
  ⟨exhausted.le, fun fresh => absurd fresh (by omega), by simp [empty],
    fun fresh => absurd fresh (by omega)⟩

theorem ordered_ingested {floor : Option (Nat × Nat)} {p : Pileup} {r : Record}
    {entry : PileupEntry} {rest : List Item} (created : PileupEntry.new r = .ok entry)
    (old : ∀ e ∈ p.entries, Above floor e.pos) (above_r : Above floor r.pos) :
    Ordered floor (p.ingested r entry rest) := by
  have at_r := PileupEntry.pos_of_new created
  have bound := r.refId_toNat_lt
  refine ⟨by simp only [ingested, u32Max]; omega, fun _ => ⟨entry, by simp [ingested], at_r⟩,
    ?_, fun _ => above_r⟩
  simp only [ingested, List.mem_append, List.mem_singleton]
  rintro e (mem | rfl)
  · exact old e mem
  · exact at_r ▸ above_r

variable (readFilter : Record → Bool)

theorem rising_readNext {floor : Option (Nat × Nat)} {target : Nat × Nat} {p p' : Pileup}
    (rising : Rising floor target p) (read : readNext readFilter p = .ok p') :
    Rising floor target p' := by
  intro clean'
  rcases readNext_cases readFilter read with ⟨rfl, -⟩ | ⟨fresh, clean, looped⟩
  · exact rising clean'
  obtain ⟨ordered, least⟩ := rising clean
  have fresh : p.lastRefId < u32Max := lt_of_le_of_ne ordered.bounded fresh
  rcases readLoop_cases readFilter looped with ⟨-, rfl⟩ | ⟨_, e, _, -, -, rfl⟩ |
      ⟨_, r, rest, entry, -, -, -, created, rfl⟩
  · exact ⟨⟨le_refl _, fun stop => absurd stop (lt_irrefl _), ordered.above,
      fun stop => absurd stop (lt_irrefl _)⟩, least⟩
  · cases clean'
  · have sorted := (ingested_clean clean').2
    have at_r := PileupEntry.pos_of_new created
    have after_r : AtOrBefore target r.pos := (ordered.target_le_last least fresh).trans sorted
    refine ⟨ordered_ingested created ordered.above ((ordered.lastAbove fresh).mono sorted), ?_⟩
    simp only [ingested, List.mem_append, List.mem_singleton]
    rintro e (old | rfl)
    · exact least e old
    · exact at_r ▸ after_r

theorem rising_ingest {floor : Option (Nat × Nat)} {target : Nat × Nat} (fuel : Nat)
    {p p' : Pileup} (rising : Rising floor target p)
    (done : ingest readFilter target fuel p = some (.ok p')) :
    Rising floor target p' ∧ ¬ ingestGuard target p' := by
  obtain ⟨reach, stop⟩ := ingest_reach readFilter fuel .start done
  exact ⟨reach.invariant readFilter _ rising fun _ _ holds _ read =>
    rising_readNext readFilter holds read, stop⟩

theorem settled_search {floor : Option (Nat × Nat)} (fuel : Nat) {target found : Nat × Nat}
    {p p' : Pileup}
    (ready : p.error = none →
      Ordered floor p ∧ (target = (u32Max, u32Max) ∨ Settled target p))
    (done : search readFilter fuel target p = some (.ok (found, p'))) (clean : p'.error = none) :
    Ordered floor p' ∧ Settled found p' := by
  induction fuel generalizing target p with
  | zero => cases done
  | succ fuel ih =>
    simp only [search] at done
    split at done
    · have least := (foldl_targetStep p.entries target).2.2
      have rising : Rising floor (p.entries.foldl targetStep target) p :=
        fun clean => ⟨(ready clean).1, least⟩
      split at done
      · cases done
      · cases done
      · rename_i q ingested
        obtain ⟨rising', stop⟩ := rising_ingest readFilter fuel rising ingested
        split at done
        · rename_i latched
          cases done
          simp [clean] at latched
        · rename_i clean_q
          simp only [Bool.not_eq_true, Option.not_isSome, Option.isNone_iff_eq_none] at clean_q
          obtain ⟨ordered, least'⟩ := rising' clean_q
          exact ih (fun _ => ⟨ordered, .inr (ordered.settled least' stop)⟩) done
    · rename_i idle
      cases done
      obtain ⟨ordered, start | settled⟩ := ready clean
      · subst start
        simp only [true_and, not_or, not_not] at idle
        have exhausted : p'.lastRefId = u32Max := by have := ordered.bounded; omega
        exact ⟨ordered, ⟨by simp [idle.1], fun fresh => absurd fresh (by omega)⟩⟩
      · exact ⟨ordered, settled⟩

theorem ordered_withFilter {input : List Item} {p : Pileup}
    (created : withFilter readFilter input = .ok p) : p.error = none → Ordered none p := by
  intro clean
  rcases readNext_cases readFilter created with ⟨-, start | latched⟩ | ⟨-, -, looped⟩
  · simp [u32Max] at start
  · simp at latched
  · rcases readLoop_cases readFilter looped with ⟨-, rfl⟩ | ⟨_, e, _, -, -, rfl⟩ |
        ⟨_, r, rest, entry, -, -, -, made, rfl⟩
    · exact ordered_drained rfl rfl
    · cases clean
    · exact ordered_ingested made (by simp) trivial

theorem columnLoop_moved {target : Nat × Nat} {entries live column : List PileupEntry}
    (least : ∀ e ∈ entries, AtOrBefore target e.pos)
    (looped : columnLoop target entries.length entries [] = .ok (live, column)) :
    ∀ e' ∈ live, ∃ e ∈ entries, Before target e'.pos ∧ AtOrBefore e.pos e'.pos := by
  obtain ⟨outs, all, perm, -⟩ :=
    columnLoop_spec entries [] [] (by simpa only [List.append_nil] using looped)
  intro e' mem
  obtain ⟨e, mem_e, out, advanced, inside⟩ :=
    exists_of_mem_flatten all (by simpa using perm.subset mem)
  exact ⟨e, mem_e, advance_past advanced (least e mem_e) e' inside⟩

theorem columnLoop_settled {floor : Option (Nat × Nat)} {target : Nat × Nat} {p : Pileup}
    {live column : List PileupEntry} (ordered : Ordered floor p) (settled : Settled target p)
    (looped : columnLoop target p.entries.length p.entries [] = .ok (live, column)) :
    Ordered ((if column = [] then none else some target).or floor) { p with entries := live } ∧
      (column ≠ [] → Above floor target) := by
  have moved := columnLoop_moved settled.least looped
  obtain ⟨-, -, -, rfl⟩ :=
    columnLoop_spec p.entries [] [] (by simpa only [List.append_nil] using looped)
  have kept : p.lastRefId < u32Max → ∃ e ∈ live, e.pos = p.last := by
    intro fresh
    obtain ⟨e, mem, at_last⟩ := ordered.live fresh
    refine ⟨e, columnLoop_keeps looped mem fun same => ?_, at_last⟩
    exact (settled.past fresh).ne (same.symm.trans at_last)
  by_cases empty : ([] ++ (p.entries.filter fun e => e.pos = target).reverse) = []
  · simp only [empty, if_true, Option.none_or, ne_eq, not_true_eq_false, false_imp_iff, and_true]
    refine ⟨ordered.bounded, kept, fun e' mem => ?_, ordered.lastAbove⟩
    obtain ⟨e, mem_e, -, le⟩ := moved e' mem
    exact (ordered.above e mem_e).mono le
  · simp only [empty, if_false, Option.or_some]
    obtain ⟨e, mem, at_target⟩ : ∃ e ∈ p.entries, e.pos = target := by
      simpa [List.eq_nil_iff_forall_not_mem] using empty
    exact ⟨⟨ordered.bounded, kept, fun e' mem' => (moved e' mem').elim fun _ facts => facts.2.1,
      settled.past⟩,
      fun _ => at_target ▸ ordered.above e mem⟩

/-- One call of `next` keeps the invariant, the column it returns lying past the old floor and
becoming the new one. -/
theorem next_ordered {floor : Option (Nat × Nat)} {fuel : Nat} {p p' : Pileup} {out : Output}
    (ready : p.error = none → Ordered floor p)
    (returned : next readFilter fuel p = some (.ok (out, p'))) :
    (p'.error = none → Ordered ((columnPos out).or floor) p') ∧
      ∀ q, columnPos out = some q → Above floor q := by
  unfold next at returned
  split at returned
  · cases returned
    exact ⟨fun _ => ordered_drained rfl rfl, fun q found => by cases found⟩
  · rename_i clean
    split at returned
    · cases returned
    · cases returned
    · rename_i target q searched
      split at returned
      · cases returned
        exact ⟨fun _ => ordered_drained rfl rfl, fun q found => by cases found⟩
      · rename_i clean_q
        split at returned
        · cases returned
        · rename_i live column looped
          cases returned
          obtain ⟨ordered, settled⟩ :=
            settled_search readFilter fuel (fun _ => ⟨ready clean, .inl rfl⟩) searched clean_q
          obtain ⟨ordered', above⟩ := columnLoop_settled ordered settled looped
          by_cases empty : column = []
          · simp only [empty, if_true, Option.none_or] at ordered' ⊢
            exact ⟨fun _ => ordered', fun q found => by cases found⟩
          · simp only [empty, if_false, columnPos, Option.or_some] at ordered' ⊢
            exact ⟨fun _ => ordered', fun q found => Option.some.inj found ▸ above empty⟩

theorem steps_ordered {floor : Option (Nat × Nat)} {p p' : Pileup} {outs : List Output}
    (run : Steps readFilter p outs p') (ready : p.error = none → Ordered floor p) :
    (∀ q ∈ outs.filterMap columnPos, Above floor q) ∧
      (outs.filterMap columnPos).Pairwise Before := by
  induction run generalizing floor with
  | refl => simp
  | @step _ _ _ out _ returns _ ih =>
    obtain ⟨fuel, returned⟩ := returns
    obtain ⟨ready', first⟩ := next_ordered readFilter ready returned
    obtain ⟨above, pairwise⟩ := ih ready'
    cases found : columnPos out with
    | none =>
      simp only [found, Option.none_or] at above
      simp only [List.filterMap_cons, found]
      exact ⟨above, pairwise⟩
    | some q =>
      simp only [found, Option.or_some] at above
      simp only [List.filterMap_cons, found, List.mem_cons, forall_eq_or_imp,
        List.pairwise_cons]
      exact ⟨⟨first q found, fun r mem => (first q found).mono (.of_before (above r mem))⟩,
        above, pairwise⟩

theorem steps_ready {floor : Option (Nat × Nat)} {p p' : Pileup} {outs : List Output}
    (run : Steps readFilter p outs p') (ready : p.error = none → Ordered floor p) :
    ∃ floor', p'.error = none → Ordered floor' p' := by
  induction run generalizing floor with
  | refl => exact ⟨floor, ready⟩
  | step returns _ ih =>
    obtain ⟨fuel, returned⟩ := returns
    exact ih (next_ordered readFilter ready returned).1

/-- From an ordered state `next` never fails the assertion at lines 286-287: the search settles its
target at or before every live entry. -/
theorem next_ne_left {floor : Option (Nat × Nat)} (fuel : Nat) {p : Pileup}
    (ready : p.error = none → Ordered floor p) :
    next readFilter fuel p ≠
      some (.error "Record is to the left of the new pileup position") := by
  intro failed
  unfold next at failed
  split at failed
  · cases failed
  · rename_i clean
    split at failed
    · cases failed
    · cases failed
      exact search_error readFilter fuel ‹_› rfl
    · rename_i target q searched
      split at failed
      · cases failed
      · rename_i clean_q
        split at failed
        · rename_i looped
          cases failed
          obtain ⟨-, settled⟩ :=
            settled_search readFilter fuel (fun _ => ⟨ready clean, .inl rfl⟩) searched clean_q
          rcases columnLoop_left q.entries [] [] (by simpa only [List.append_nil] using looped) with
            ⟨e, mem, before⟩ | ⟨e, -, moving⟩
          · exact (settled.least e mem).not_before before
          · exact PileupEntry.moveForward_not_left moving rfl
        · cases failed

/-- The columns that successive calls of `next` return come in strictly increasing `(ref_id,
ref_pos)` order, for every input and filter. -/
theorem columns_strictly_increase {input : List Item} {p₀ p : Pileup} {outs : List Output}
    (created : withFilter readFilter input = .ok p₀) (run : Steps readFilter p₀ outs p) :
    (outs.filterMap columnPos).Pairwise Before :=
  (steps_ordered readFilter run (ordered_withFilter readFilter created)).2

/-- A record `2M` at `(0, 0)`. -/
def recordRefZero : Record :=
  { refId := 0, start := 0, mapped := true, bin := 4681, cigar := [(2, .alnMatch)],
    alnQueryEnd := 2 }

/-- A record `1M` at `(1, 0)`, on the next reference. -/
def recordRefOne : Record :=
  { refId := 1, start := 0, mapped := true, bin := 4681, cigar := [(1, .alnMatch)],
    alnQueryEnd := 1 }

theorem columns_strictly_increase_two_refs :
    ∃ p₀ outs p, withFilter (fun _ => true) [.ok recordRefZero, .ok recordRefOne] = .ok p₀ ∧
      Steps (fun _ => true) p₀ outs p ∧ outs.filterMap columnPos = [(0, 0), (0, 1), (1, 0)] ∧
      (outs.filterMap columnPos).Pairwise Before := by
  obtain ⟨p₀, outs, p, created, run, columns⟩ :
      ∃ p₀ outs p,
        withFilter (fun _ => true) [.ok recordRefZero, .ok recordRefOne] = .ok p₀ ∧
        Steps (fun _ => true) p₀ outs p ∧ outs.filterMap columnPos = [(0, 0), (0, 1), (1, 0)] :=
    ⟨_, _, _, rfl,
      .step ⟨3, rfl⟩ (.step ⟨3, rfl⟩ (.step ⟨3, rfl⟩ (.step ⟨3, rfl⟩ (.refl _)))),
      rfl⟩
  exact ⟨p₀, outs, p, created, run, columns, columns_strictly_increase _ created run⟩

/-- No call of `next` on a state a run reaches fails the assertion "Record is to the left of the new
pileup position". -/
theorem left_assertion_never_fails {input : List Item} {p₀ p : Pileup} {outs : List Output}
    (created : withFilter readFilter input = .ok p₀) (run : Steps readFilter p₀ outs p)
    (fuel : Nat) :
    next readFilter fuel p ≠ some (.error "Record is to the left of the new pileup position") :=
  (steps_ready readFilter run (ordered_withFilter readFilter created)).elim
    fun _ ready => next_ne_left readFilter fuel ready

theorem left_assertion_never_fails_two_refs :
    ∃ p₀, withFilter (fun _ => true) [.ok recordRefZero, .ok recordRefOne] = .ok p₀ ∧
      next (fun _ => true) 3 p₀ ≠
        some (.error "Record is to the left of the new pileup position") := by
  obtain ⟨p₀, created⟩ :
      ∃ p₀, withFilter (fun _ => true) [.ok recordRefZero, .ok recordRefOne] = .ok p₀ :=
    ⟨_, rfl⟩
  exact ⟨p₀, created, left_assertion_never_fails _ created (.refl _) 3⟩

end Pileup

end Bam
