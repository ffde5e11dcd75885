import Bam.Pileup.Walk
import Bam.Pileup.Sorted

set_option autoImplicit false

/- What a pileup state still owes: the (record, position) pairs of the walks of its live
entries and of the passing records it has not read. `read_next` keeps them, and the column
loop splits them into the column it builds and what stays live. -/
namespace Bam

theorem advance_keys {target : Nat × Nat} {e : PileupEntry} {out : List PileupEntry}
    (advanced : advance target e = .ok out) :
    e.keys = (if e.pos = target then [e.key] else []) ++ out.flatMap PileupEntry.keys := by
  unfold advance at advanced
  split at advanced
  · rename_i here
    rw [if_pos ((e.pos_eq_iff target).mpr here)]
    split at advanced
    · cases advanced
    · rename_i moved moving
      cases advanced
      simp [PileupEntry.keys_moveForward moving]
    · rename_i stopped
      cases advanced
      simp [PileupEntry.keys_moveForward_none stopped]
  · rename_i off
    rw [if_neg fun at_target => off ((e.pos_eq_iff target).mp at_target)]
    split at advanced
    · cases advanced
      simp
    · cases advanced

theorem mem_advance {target : Nat × Nat} {e e' : PileupEntry} {out : List PileupEntry}
    (advanced : advance target e = .ok out) (mem : e' ∈ out) :
    e' = e ∨ e.moveForward = .ok (some e') := by
  unfold advance at advanced
  split at advanced
  · split at advanced
    · cases advanced
    · rename_i moving
      cases advanced
      exact .inr (List.mem_singleton.mp mem ▸ moving)
    · cases advanced
      cases mem
  · split at advanced
    · cases advanced
      exact .inl (List.mem_singleton.mp mem)
    · cases advanced

theorem advance_ok {target : Nat × Nat} {e : PileupEntry} (least : AtOrBefore target e.pos)
    (safe : ∃ moved, e.moveForward = .ok moved) : ∃ out, advance target e = .ok out := by
  obtain ⟨moved, moving⟩ := safe
  unfold advance
  split
  · rw [moving]
    rcases moved with _ | moved
    · exact ⟨[], rfl⟩
    · exact ⟨[moved], rfl⟩
  · rename_i off
    rw [if_pos (by simp only [AtOrBefore, PileupEntry.pos] at least; omega)]
    exact ⟨[e], rfl⟩

theorem columnLoop_error {target : Nat × Nat} {msg : String} (front : List PileupEntry) :
    ∀ (back column : List PileupEntry),
      columnLoop target front.length (front ++ back) column = .error msg →
      ∃ e ∈ front, advance target e = .error msg := by
  induction front using List.reverseRecOn with
  | nil => intro back column failed; cases failed
  | append_singleton front x ih =>
    intro back column failed
    simp only [List.length_append, List.length_singleton, List.append_assoc,
      List.singleton_append, columnLoop_succ] at failed
    have widen : (∃ e ∈ front, advance target e = .error msg) →
        ∃ e ∈ front ++ [x], advance target e = .error msg := fun ⟨e, mem, failing⟩ =>
      ⟨e, List.mem_append_left _ mem, failing⟩
    split at failed
    · rename_i here
      split at failed
      · rename_i moving
        cases failed
        exact ⟨x, by simp, by rw [advance, if_pos here, moving]⟩
      · exact widen (ih _ _ failed)
      · obtain ⟨back', removed, -⟩ := swapRemove_middle front back x
        rw [removed] at failed
        exact widen (ih _ _ failed)
    · rename_i off
      split at failed
      · exact widen (ih _ _ failed)
      · rename_i not_past
        cases failed
        exact ⟨x, by simp, by rw [advance, if_neg off, if_neg not_past]⟩

theorem columnLoop_column {target : Nat × Nat} {entries live column : List PileupEntry}
    (looped : columnLoop target entries.length entries [] = .ok (live, column)) :
    column = (entries.filter fun e => e.pos = target).reverse := by
  obtain ⟨-, -, -, found⟩ :=
    columnLoop_spec entries [] [] (by simpa only [List.append_nil] using looped)
  simpa using found

theorem forall₂_advance_keys {target : Nat × Nat} {front : List PileupEntry}
    {outs : List (List PileupEntry)}
    (all : List.Forall₂ (fun e out => advance target e = .ok out) front outs) :
    (front.flatMap PileupEntry.keys).Perm
      ((front.filter fun e => e.pos = target).map PileupEntry.key ++
        outs.flatten.flatMap PileupEntry.keys) := by
  induction all with
  | nil => simp
  | @cons e out rest outs' advanced _ ih =>
    have head : ((e :: rest).filter fun e => e.pos = target).map PileupEntry.key =
        (if e.pos = target then [e.key] else []) ++
          (rest.filter fun e => e.pos = target).map PileupEntry.key := by
      by_cases here : e.pos = target <;> simp [List.filter_cons, here]
    rw [List.flatMap_cons, advance_keys advanced, head, List.flatten_cons, List.flatMap_append]
    simp only [List.append_assoc]
    exact ((ih.append_left _).trans (List.perm_append_comm_assoc _ _ _)).append_left _

/-- The column loop splits the walks of the live entries into the column's pairs and the walks of
the entries it leaves. -/
theorem columnLoop_keys {target : Nat × Nat} {entries live column : List PileupEntry}
    (looped : columnLoop target entries.length entries [] = .ok (live, column)) :
    (entries.flatMap PileupEntry.keys).Perm
      (column.map PileupEntry.key ++ live.flatMap PileupEntry.keys) := by
  obtain ⟨outs, all, perm, rfl⟩ :=
    columnLoop_spec entries [] [] (by simpa only [List.append_nil] using looped)
  have live_keys : (live.flatMap PileupEntry.keys).Perm (outs.flatten.flatMap PileupEntry.keys) :=
    (perm.flatMap_right _).trans (by simp)
  refine (forall₂_advance_keys all).trans (List.Perm.append ?_ live_keys.symm)
  rw [List.nil_append, List.map_reverse]
  exact (List.reverse_perm _).symm

namespace Pileup

variable (readFilter : Record → Bool)

/-- The pairs still to come out of a state: the walks of its live entries and of the passing records
it has not read. -/
def pending (p : Pileup) : List (Record × Nat) :=
  p.entries.flatMap PileupEntry.keys ++ (passingRecords readFilter p.recordIter).flatMap Record.keys

def columnKeys : Output → List (Record × Nat)
  | some (.ok column) => column.entries.map PileupEntry.key
  | _ => []

theorem columnKeys_column (target : Nat × Nat) (column : List PileupEntry) :
    columnKeys (if column = [] then none else some (.ok ⟨column, target.1, target.2⟩)) =
      column.map PileupEntry.key := by
  split
  · simp [columnKeys, *]
  · rfl

theorem pending_readNext {p p' : Pileup} (no_errors : ∀ err, Except.error err ∉ p.recordIter)
    (read : readNext readFilter p = .ok p') : pending readFilter p' = pending readFilter p := by
  rcases readNext_cases readFilter read with ⟨rfl, -⟩ | ⟨-, -, looped⟩
  · rfl
  rcases readLoop_cases readFilter looped with
      ⟨none_left, rfl⟩ | ⟨skipped, e, rest, items, -, rfl⟩ |
      ⟨skipped, r, rest, entry, items, none_before, passed, created, rfl⟩
  · simp [pending, none_left, passingRecords]
  · exact absurd (by rw [items]; simp) (no_errors e)
  · simp [pending, ingested, items, none_before, passingRecords,
      (recordPasses_true readFilter passed).1, PileupEntry.keys_new created]

end Pileup

/-- A passing record as the completeness result asks: positive op lengths, a reference-consuming op,
`aligned_query_end` the query length less the trailing soft clip, coordinates within `u32`. -/
structure Shaped (r : Record) : Prop where
  positive : ∀ x ∈ r.cigar, 0 < x.1
  hasRef : r.cigar.any fun x => x.2.consumesRef
  alnEq : r.alnQueryEnd = r.cigar.queryLen - r.cigar.softClipEnd
  refFits : r.start.toNat + r.cigar.refLen ≤ u32Max
  queryFits : r.cigar.queryLen ≤ u32Max

namespace Pileup

variable (readFilter : Record → Bool)

/-- Every live entry is a cursor in closed form over a shaped record. -/
def Walking (p : Pileup) : Prop :=
  ∀ e ∈ p.entries, Shaped e.record ∧ ∃ i k, PileupEntry.AtBase e.record i k e

theorem walking_readNext {p p' : Pileup} (walking : Walking p)
    (shaped : ∀ r ∈ passingRecords readFilter p.recordIter, Shaped r)
    (read : readNext readFilter p = .ok p') : Walking p' := by
  rcases readNext_cases readFilter read with ⟨rfl, -⟩ | ⟨-, -, looped⟩
  · exact walking
  rcases readLoop_cases readFilter looped with ⟨-, rfl⟩ | ⟨_, _, _, -, -, rfl⟩ |
      ⟨skipped, r, rest, entry, items, none_before, passed, created, rfl⟩
  · exact walking
  · exact walking
  · have shaped_r : Shaped r := shaped r (by
      simp [items, none_before, passingRecords, (recordPasses_true readFilter passed).1])
    obtain ⟨-, record, -⟩ := PileupEntry.new_ok created
    simp only [Walking, ingested, List.mem_append, List.mem_singleton]
    rintro e (old | rfl)
    · exact walking e old
    · rw [record]
      exact ⟨shaped_r, _, 0, PileupEntry.atBase_new shaped_r.alnEq shaped_r.positive created⟩

theorem walking_columnLoop {target : Nat × Nat} {q : Pileup} {live column : List PileupEntry}
    (walking : Walking q)
      (looped : columnLoop target q.entries.length q.entries [] = .ok (live, column)) :
    Walking { q with entries := live } := by
  obtain ⟨outs, all, perm, -⟩ :=
    columnLoop_spec q.entries [] [] (by simpa only [List.append_nil] using looped)
  intro e' mem
  obtain ⟨e, mem_e, out, advanced, inside⟩ :=
    exists_of_mem_flatten all (by simpa using perm.subset mem)
  obtain ⟨shaped, i, k, at_base⟩ := walking e mem_e
  rcases mem_advance advanced inside with rfl | moving
  · exact ⟨shaped, i, k, at_base⟩
  · obtain ⟨⟨record, -⟩, -⟩ := PileupEntry.moveForward_some moving
    rw [record]
    exact ⟨shaped, PileupEntry.atBase_moveForward shaped.alnEq at_base moving⟩

end Pileup

end Bam
