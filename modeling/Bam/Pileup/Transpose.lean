import Bam.Pileup.Complete

set_option autoImplicit false

/- What a pileup is for, stated apart from the engine: the transposition of the walks, the
(record, position) pairs grouped by reference position, one column for each position a pair lies
at, in increasing position order. The transposition pins the columns down up to the order of the
entries within each column; every run of `next` to `None` on a valid input computes it. -/
namespace Bam

def pairPos (x : Record × Nat) : Nat × Nat := (x.1.refId.toNat, x.2)

def PileupColumn.pos (c : PileupColumn) : Nat × Nat := (c.refId, c.refPos)

/-- `columns` transposes `pairs`: the column positions strictly increase, they are the positions the
pairs lie at, and each column holds the pairs at its position. -/
structure Transposes (pairs : List (Record × Nat)) (columns : List PileupColumn) : Prop where
  ordered : (columns.map PileupColumn.pos).Pairwise Before
  covered : ∀ q, q ∈ columns.map PileupColumn.pos ↔ ∃ x ∈ pairs, pairPos x = q
  grouped : ∀ c ∈ columns,
    (c.entries.map PileupEntry.key).Perm (pairs.filter fun x => pairPos x = c.pos)

/-- The transposition is unique, up to the order of the entries within a column. -/
theorem Transposes.unique {pairs : List (Record × Nat)} {columns columns' : List PileupColumn}
    (first : Transposes pairs columns) (second : Transposes pairs columns') :
    columns'.map PileupColumn.pos = columns.map PileupColumn.pos ∧
      ∀ c ∈ columns, ∀ c' ∈ columns', c.pos = c'.pos →
        (c.entries.map PileupEntry.key).Perm (c'.entries.map PileupEntry.key) := by
  have same_positions : (columns'.map PileupColumn.pos).Perm (columns.map PileupColumn.pos) :=
    (List.perm_ext_iff_of_nodup (second.ordered.imp Before.ne) (first.ordered.imp Before.ne)).mpr
      fun q => (second.covered q).trans (first.covered q).symm
  refine ⟨same_positions.eq_of_sorted (fun a b _ _ ab ba => absurd ba
    (AtOrBefore.of_before ab).not_before) second.ordered first.ordered,
    fun c mem c' mem' at_same => ?_⟩
  have grouped' := second.grouped c' mem'
  rw [← at_same] at grouped'
  exact (first.grouped c mem).trans grouped'.symm

theorem keys_filter_pairPos {c : PileupColumn}
    (at_c : ∀ e ∈ c.entries, e.pos = c.pos) (q : Nat × Nat) :
    (c.entries.map PileupEntry.key).filter (fun x => pairPos x = q) =
      if c.pos = q then c.entries.map PileupEntry.key else [] := by
  split
  · rename_i here
    refine List.filter_eq_self.mpr fun x mem => ?_
    obtain ⟨e, inside, rfl⟩ := List.mem_map.mp mem
    simpa [← here] using at_c e inside
  · rename_i off
    refine List.filter_eq_nil_iff.mpr fun x mem => ?_
    obtain ⟨e, inside, rfl⟩ := List.mem_map.mp mem
    simpa using fun same => off ((at_c e inside).symm.trans same)

theorem flatMap_keys_filter {c : PileupColumn} :
    ∀ {columns : List PileupColumn}, (columns.map PileupColumn.pos).Nodup →
      (∀ d ∈ columns, ∀ e ∈ d.entries, e.pos = d.pos) → c ∈ columns →
      (columns.flatMap fun d => d.entries.map PileupEntry.key).filter
          (fun x => pairPos x = c.pos) = c.entries.map PileupEntry.key
  | [], _, _, mem => absurd mem (List.not_mem_nil _)
  | d :: rest, distinct, at_pos, mem => by
    obtain ⟨fresh, distinct_rest⟩ := List.nodup_cons.mp distinct
    have rest_at := fun d' (inside : d' ∈ rest) => at_pos d' (.tail _ inside)
    rw [List.flatMap_cons, List.filter_append, keys_filter_pairPos (at_pos d (.head _))]
    rcases List.mem_cons.mp mem with rfl | later
    · have none_after : (rest.flatMap fun d => d.entries.map PileupEntry.key).filter
          (fun x => pairPos x = c.pos) = [] := by
        rw [List.filter_flatMap, List.flatMap_eq_nil_iff]
        intro d' inside
        rw [keys_filter_pairPos (rest_at d' inside), if_neg fun same : d'.pos = c.pos =>
          fresh (same ▸ List.mem_map_of_mem PileupColumn.pos inside)]
      rw [if_pos rfl, none_after, List.append_nil]
    · have other : d.pos ≠ c.pos := fun same =>
        fresh (same.symm ▸ List.mem_map_of_mem PileupColumn.pos later)
      rw [if_neg other, List.nil_append, flatMap_keys_filter distinct_rest rest_at later]

theorem transposes_of_perm {pairs : List (Record × Nat)} {columns : List PileupColumn}
    (perm : (columns.flatMap fun c => c.entries.map PileupEntry.key).Perm pairs)
    (columns_ok : ∀ c ∈ columns, c.entries ≠ [] ∧ ∀ e ∈ c.entries, e.pos = (c.refId, c.refPos))
    (increasing : (columns.map fun c => (c.refId, c.refPos)).Pairwise Before) :
    Transposes pairs columns := by
  have at_pos : ∀ d ∈ columns, ∀ e ∈ d.entries, e.pos = d.pos := fun d mem =>
    (columns_ok d mem).2
  refine ⟨increasing, fun q => ⟨fun listed => ?_, fun ⟨x, mem, at_q⟩ => ?_⟩, fun c mem => ?_⟩
  · obtain ⟨c, listed_c, rfl⟩ := List.mem_map.mp listed
    obtain ⟨e, inside⟩ := List.exists_mem_of_ne_nil _ (columns_ok c listed_c).1
    exact ⟨e.key, perm.subset (List.mem_flatMap.mpr ⟨c, listed_c, List.mem_map_of_mem _ inside⟩),
      at_pos c listed_c e inside⟩
  · obtain ⟨c, listed_c, keyed⟩ := List.mem_flatMap.mp (perm.symm.subset mem)
    obtain ⟨e, inside, rfl⟩ := List.mem_map.mp keyed
    exact List.mem_map.mpr ⟨c, listed_c, (at_pos c listed_c e inside).symm.trans at_q⟩
  · rw [← flatMap_keys_filter (increasing.imp Before.ne) at_pos mem]
    exact perm.filter _

namespace Pileup

section Transposition

variable {readFilter : Record → Bool} {input : List Item}
  (sorted : (passingRecords readFilter input).Pairwise fun a b => AtOrBefore a.pos b.pos)
  (no_errors : ∀ err, Except.error err ∉ input)
  (asserted : ∀ r, Except.ok r ∈ input → r.mapped → 0 ≤ r.refId ∧ 0 ≤ r.start)
  (shaped : ∀ r ∈ passingRecords readFilter input, Shaped r)
include sorted no_errors asserted shaped

/-- The pileup computes the transposition of the walks: on the inputs of the completeness result the
calls reach `None`, and every run that does transposes the walked pairs. -/
theorem pileup_transposes :
    (∃ (p₀ : Pileup) (columns : List PileupColumn) (p p' : Pileup),
      withFilter readFilter input = .ok p₀ ∧
        Steps readFilter p₀ (columns.map fun c => some (.ok c)) p ∧
          Returns readFilter p none p') ∧
      ∀ (p₀ : Pileup) (columns : List PileupColumn) (p p' : Pileup),
        withFilter readFilter input = .ok p₀ →
        Steps readFilter p₀ (columns.map fun c => some (.ok c)) p →
        Returns readFilter p none p' →
        Transposes ((passingRecords readFilter input).flatMap Record.keys) columns ∧
          ∀ columns', Transposes ((passingRecords readFilter input).flatMap Record.keys) columns' →
            columns'.map PileupColumn.pos = columns.map PileupColumn.pos ∧
              ∀ c ∈ columns, ∀ c' ∈ columns', c.pos = c'.pos →
                (c.entries.map PileupEntry.key).Perm (c'.entries.map PileupEntry.key) := by
  refine ⟨runs_to_none sorted no_errors asserted shaped,
    fun p₀ columns p p' created run last => ?_⟩
  obtain ⟨perm, columns_ok, increasing⟩ :=
    complete_run sorted no_errors asserted shaped created run last
  have transposes := transposes_of_perm perm columns_ok increasing
  exact ⟨transposes, fun columns' other => transposes.unique other⟩

end Transposition

theorem pileup_transposes_trailing_deletion :
    ∃ (p₀ : Pileup) (columns : List PileupColumn) (p p' : Pileup),
      withFilter (fun _ => true) [.ok recordTrailingDeletion] = .ok p₀ ∧
        Steps (fun _ => true) p₀ (columns.map fun c => some (.ok c)) p ∧
        Returns (fun _ => true) p none p' ∧
        Transposes recordTrailingDeletion.keys columns := by
  have transposes := @pileup_transposes (fun _ => true) [.ok recordTrailingDeletion]
    (by decide) (by simp) (by simp [recordTrailingDeletion])
    (by simp [passingRecords, passes, shaped_recordTrailingDeletion])
  obtain ⟨p₀, columns, p, p', created, run, last⟩ := transposes.1
  have done := (transposes.2 p₀ columns p p' created run last).1
  simp only [passingRecords, passes, recordTrailingDeletion] at done
  exact ⟨p₀, columns, p, p', created, run, last, by simpa using done⟩

end Pileup

end Bam
