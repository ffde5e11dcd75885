import Bam.Pileup.Cursor

set_option autoImplicit false

/- The cursor in closed form. At base `k` of reference-consuming op `i`, `ref_pos`,
`query_start` and `query_end` are sums over the cigar before and after op `i`. `new` lands on
base 0 of the first reference-consuming op, each `move_forward` that returns `true` on the next
base of the walk, and where the record's coordinates fit in a `u32` no step panics. -/
namespace Bam

namespace Cigar

/-- `Q_i`, the query bases of the ops before op `i`. -/
def queryBefore (cigar : Cigar) (i : Nat) : Nat := queryLen (cigar.take i)

/-- `R_i`, the reference bases of the ops before op `i`. -/
def refBefore (cigar : Cigar) (i : Nat) : Nat := refLen (cigar.take i)

/-- Query bases of the leading ops of `cigar` that do not consume the reference. -/
def queryRun : Cigar → Nat
  | [] => 0
  | (len, op) :: rest =>
    if op.consumesRef then 0 else (if op.consumesQuery then len else 0) + queryRun rest

theorem drop_eq_cons {cigar : Cigar} {m : Nat} {x : Nat × CigarOp} {rest : Cigar}
    (split : cigar.drop m = x :: rest) : cigar[m]? = some x ∧ cigar.drop (m + 1) = rest := by
  constructor
  · rw [← Nat.add_zero m, ← List.getElem?_drop, split]
    simp
  · rw [← List.drop_drop, split]
    rfl

theorem queryBefore_succ {cigar : Cigar} {i : Nat} {x : Nat × CigarOp}
    (at_i : cigar[i]? = some x) :
    cigar.queryBefore (i + 1) = cigar.queryBefore i + (if x.2.consumesQuery then x.1 else 0) := by
  obtain ⟨len, op⟩ := x
  simp [queryBefore, List.take_succ, at_i, queryLen_append]

theorem refBefore_succ {cigar : Cigar} {i : Nat} {x : Nat × CigarOp} (at_i : cigar[i]? = some x) :
    cigar.refBefore (i + 1) = cigar.refBefore i + (if x.2.consumesRef then x.1 else 0) := by
  obtain ⟨len, op⟩ := x
  simp [refBefore, List.take_succ, at_i, refLen_append]

@[simp] theorem queryBefore_zero (cigar : Cigar) : cigar.queryBefore 0 = 0 := by simp [queryBefore]

@[simp] theorem refBefore_zero (cigar : Cigar) : cigar.refBefore 0 = 0 := by simp [refBefore]

theorem queryLen_reverse (cigar : Cigar) : queryLen cigar.reverse = cigar.queryLen := by
  induction cigar with
  | nil => rfl
  | cons head rest ih =>
    obtain ⟨len, op⟩ := head
    simp [queryLen_append, ih, Nat.add_comm]

theorem queryLen_eq_queryBefore_add (cigar : Cigar) (i : Nat) :
    cigar.queryLen = cigar.queryBefore i + queryLen (cigar.drop i) := by
  rw [queryBefore, ← queryLen_append, List.take_append_drop]

theorem refLen_eq_refBefore_add (cigar : Cigar) (i : Nat) :
    cigar.refLen = cigar.refBefore i + refLen (cigar.drop i) := by
  rw [refBefore, ← refLen_append, List.take_append_drop]

theorem queryBefore_mono (cigar : Cigar) {i j : Nat} (le : i ≤ j) :
    cigar.queryBefore i ≤ cigar.queryBefore j := by
  rw [queryBefore, queryBefore, ← Nat.add_sub_cancel' le, List.take_add, queryLen_append]
  exact Nat.le_add_right _ _

theorem softClipEnd_go_le (back : Cigar) (n : Nat) (op : CigarOp) (front : Cigar)
    (consumes : op.consumesRef) :
    softClipEnd.go (back ++ (n, op) :: front) ≤ back.queryLen := by
  induction back with
  | nil => cases op <;> simp_all [softClipEnd.go, CigarOp.consumesRef]
  | cons head rest ih =>
    obtain ⟨len, op'⟩ := head
    cases op' <;> simp_all [softClipEnd.go, CigarOp.consumesQuery]

/-- With `aln_query_end` the query length less the trailing soft clip, every
reference-consuming op ends at or before `aln_query_end`. -/
theorem queryBefore_succ_le {cigar : Cigar} {i : Nat} {x : Nat × CigarOp}
    (at_i : cigar[i]? = some x) (consumes : x.2.consumesRef) :
    cigar.queryBefore (i + 1) ≤ cigar.queryLen - cigar.softClipEnd := by
  obtain ⟨n, op⟩ := x
  have last : cigar.take (i + 1) = cigar.take i ++ [(n, op)] := by simp [List.take_succ, at_i]
  have reversed :
      cigar.reverse = (cigar.drop (i + 1)).reverse ++ (n, op) :: (cigar.take i).reverse := by
    conv_lhs => rw [← List.take_append_drop (i + 1) cigar, last]
    simp
  have clip : cigar.softClipEnd ≤ queryLen (cigar.drop (i + 1)) := by
    rw [softClipEnd, reversed, ← queryLen_reverse (cigar.drop (i + 1))]
    exact softClipEnd_go_le _ n op _ consumes
  have total := queryLen_eq_queryBefore_add cigar (i + 1)
  omega

end Cigar

theorem insertionEnd_min {alnQueryEnd : Nat} :
    ∀ {ops : Cigar} {queryEnd v : Nat}, insertionEnd alnQueryEnd ops queryEnd = .ok v →
      min v alnQueryEnd = min (queryEnd + Cigar.queryRun ops) alnQueryEnd
  | [], _, _, ended => by cases ended; simp [Cigar.queryRun]
  | (len, op) :: rest, queryEnd, v, ended => by
    simp only [insertionEnd] at ended
    simp only [Cigar.queryRun]
    split at ended
    · split at ended
      · cases ended
        simp [*]
      · rename_i other
        rw [insertionEnd_min (addIf_bind_ok ended).2, if_neg other]
        split <;> simp [Nat.add_assoc]
    · cases ended
      omega

/-- Stepping the query offset over an op does not overflow while the query left fits a `u32`. -/
theorem addIf_queryLen {len q : Nat} {op : CigarOp} {rest : Cigar}
    (fits : q + Cigar.queryLen ((len, op) :: rest) ≤ u32Max) :
    ∃ q', addIf op.consumesQuery q len = .ok q' ∧ q' + rest.queryLen ≤ u32Max := by
  by_cases query : op.consumesQuery <;> simp [query] at fits
  · exact ⟨_, addIf_of_le (fun _ => by omega), by simp [query]; omega⟩
  · exact ⟨_, addIf_of_le (by simp [query]), by simpa [query] using fits⟩

theorem insertionEnd_ok {alnQueryEnd : Nat} :
    ∀ (ops : Cigar) (queryEnd : Nat), queryEnd + ops.queryLen ≤ u32Max →
      ∃ v, insertionEnd alnQueryEnd ops queryEnd = .ok v
  | [], _, _ => ⟨_, rfl⟩
  | (len, op) :: rest, queryEnd, fits => by
    simp only [insertionEnd]
    split
    · split
      · exact ⟨_, rfl⟩
      · obtain ⟨_, added, rest_fits⟩ := addIf_queryLen fits
        rw [added, ok_bind]
        exact insertionEnd_ok rest _ rest_fits
    · exact ⟨_, rfl⟩

open Cigar in
/-- The op `new` stops at is the first reference-consuming one: no reference bases before it,
and the query offset it reports is the query bases before it. -/
theorem firstRefOp_found {cigar : Cigar} {i n q : Nat} :
    ∀ (ops : Cigar) (m q₀ : Nat), cigar.drop m = ops → q₀ = cigar.queryBefore m →
      firstRefOp ops m q₀ = .ok (i, n, q) →
      ∃ op, cigar[i]? = some (n, op) ∧ op.consumesRef ∧ q = cigar.queryBefore i ∧
        cigar.refBefore i = cigar.refBefore m
  | [], _, _, _, _, found => by cases found
  | (len, op) :: rest, m, q₀, suffix, start, found => by
    obtain ⟨at_m, rest_eq⟩ := drop_eq_cons suffix
    simp only [firstRefOp] at found
    split at found
    · cases found
      exact ⟨op, at_m, by assumption, start, rfl⟩
    · rename_i other
      obtain ⟨op', at_i, consumes, query, ref⟩ := firstRefOp_found rest (m + 1) _ rest_eq
        (by rw [queryBefore_succ at_m, start]; split <;> simp) (addIf_bind_ok found).2
      exact ⟨op', at_i, consumes, query, by rw [ref, refBefore_succ at_m]; simp [other]⟩

open Cigar in
/-- The op the loop of `move_forward` stops at: the next reference-consuming op of positive length,
reached below `aln_query_end`, with no reference bases in between. -/
theorem skipOps_found {cigar : Cigar} {a j n q : Nat} :
    ∀ (ops : Cigar) (m q₀ : Nat), cigar.drop (m + 1) = ops →
      q₀ = cigar.queryBefore (m + 1) →
      skipOps a ops m q₀ = .ok (some (j, n, q)) →
      ∃ op, cigar[j]? = some (n, op) ∧ op.consumesRef ∧ n ≠ 0 ∧ m < j ∧ q < a ∧
        q = cigar.queryBefore j ∧ cigar.refBefore j = cigar.refBefore (m + 1)
  | [], _, _, _, _, found => by cases found
  | (len, op) :: rest, m, q₀, suffix, start, found => by
    obtain ⟨at_m, rest_eq⟩ := drop_eq_cons suffix
    simp only [skipOps] at found
    split at found
    · cases found
    rename_i below
    split at found
    · rename_i consumes
      split at found
      · rename_i empty
        obtain ⟨op', at_j, consumes', positive, after, bound, query, ref⟩ :=
          skipOps_found rest (m + 1) _ rest_eq
            (by rw [queryBefore_succ at_m, start]; simp [empty]) found
        exact ⟨op', at_j, consumes', positive, by omega, bound, query,
          by rw [ref, refBefore_succ at_m]; simp [empty]⟩
      · cases found
        exact ⟨op, at_m, consumes, by assumption, by omega, by omega, start, rfl⟩
    · rename_i other
      obtain ⟨op', at_j, consumes', positive, after, bound, query, ref⟩ :=
        skipOps_found rest (m + 1) _ rest_eq (by rw [queryBefore_succ at_m, start]; split <;> simp)
          (addIf_bind_ok found).2
      exact ⟨op', at_j, consumes', positive, by omega, bound, query,
        by rw [ref, refBefore_succ at_m]; simp [other]⟩

open Cigar in
theorem skipOps_none_found {cigar : Cigar} {a : Nat} (positive : ∀ x ∈ cigar, 0 < x.1) :
    ∀ (ops : Cigar) (m q₀ : Nat), cigar.drop (m + 1) = ops →
      q₀ = cigar.queryBefore (m + 1) → skipOps a ops m q₀ = .ok none →
      ∀ j x, m < j → cigar[j]? = some x → x.2.consumesRef →
        cigar.refBefore j = cigar.refBefore (m + 1) → a ≤ cigar.queryBefore j
  | [], m, _, suffix, _, _, j, x, after, at_j, _, _ => by
    have := lt_length_of_getElem? at_j
    simp only [List.drop_eq_nil_iff] at suffix
    omega
  | (len, op) :: rest, m, q₀, suffix, start, stopped, j, x, after, at_j, consumes, ref => by
    obtain ⟨at_m, rest_eq⟩ := drop_eq_cons suffix
    simp only [skipOps] at stopped
    split at stopped
    · have := queryBefore_mono cigar (show m + 1 ≤ j by omega)
      omega
    split at stopped
    · split at stopped
      · exact absurd (positive _ (List.getElem?_mem at_m)) (by simp [*])
      · cases stopped
    · rename_i other
      have later : m + 1 < j := by
        refine lt_of_le_of_ne after fun same => ?_
        subst same
        rw [at_m] at at_j
        cases at_j
        exact other consumes
      exact skipOps_none_found positive rest (m + 1) _ rest_eq
        (by rw [queryBefore_succ at_m, start]; split <;> simp) (addIf_bind_ok stopped).2
        j x later at_j consumes (by rw [ref, refBefore_succ at_m]; simp [other])

theorem skipOps_ok {a : Nat} :
    ∀ (ops : Cigar) (m q₀ : Nat), q₀ + ops.queryLen ≤ u32Max → ∃ x, skipOps a ops m q₀ = .ok x
  | [], _, _, _ => ⟨_, rfl⟩
  | (len, op) :: rest, m, q₀, fits => by
    simp only [skipOps]
    split
    · exact ⟨_, rfl⟩
    split
    · split
      · exact skipOps_ok rest _ _ (by simp at fits; omega)
      · exact ⟨_, rfl⟩
    · obtain ⟨_, added, rest_fits⟩ := addIf_queryLen fits
      rw [added, ok_bind]
      exact skipOps_ok rest _ _ rest_fits

theorem firstRefOp_ok :
    ∀ (ops : Cigar) (index queryPos : Nat), ops.any (fun x => x.2.consumesRef) →
      queryPos + ops.queryLen ≤ u32Max → ∃ x, firstRefOp ops index queryPos = .ok x
  | [], _, _, has, _ => by simp at has
  | (len, op) :: rest, index, queryPos, has, fits => by
    simp only [firstRefOp]
    split
    · exact ⟨_, rfl⟩
    · rename_i other
      have has_rest : rest.any (fun x => x.2.consumesRef) := by simpa [other] using has
      obtain ⟨_, added, rest_fits⟩ := addIf_queryLen fits
      rw [added, ok_bind]
      exact firstRefOp_ok rest _ _ has_rest rest_fits

namespace PileupEntry

/-- `e`'s cursor is at base `k` of op `i` of `r`, with `ref_pos = start + R_i + k`, and
`query_start = Q_i + k` on a query-consuming op, `Q_i` on a deletion or skip. -/
structure Placed (r : Record) (i k : Nat) (e : PileupEntry) : Prop where
  record : e.record = r
  aln : e.alnQueryEnd = r.alnQueryEnd
  index : e.cigarIndex = i
  op : r.cigar[i]? = some e.opAt
  base : k < e.opAt.1
  remaining : e.cigarRemaining = e.opAt.1 - k
  refPos : e.refPos = r.start.toNat + r.cigar.refBefore i + k
  queryStart : e.queryStart = r.cigar.queryBefore i + (if e.opAt.2.consumesQuery then k else 0)

/-- The closed form at base `k` of op `i`: placed there, and on a query-consuming op `query_end =
min (query_start + 1 + J) aln_query_end`, `J` the query run behind its last base. -/
structure AtBase (r : Record) (i k : Nat) (e : PileupEntry) extends Placed r i k e : Prop where
  queryEnd : e.queryEnd =
    if e.opAt.2.consumesQuery then
      min (e.queryStart + 1 +
          (if k + 1 = e.opAt.1 then Cigar.queryRun (r.cigar.drop (i + 1)) else 0))
        r.alnQueryEnd
    else e.queryStart

/-- Where the walk goes after base `k` of op `i`: `e'` is at the next base of op `i`, or, past
its last base, at base 0 of the next reference-consuming op, reached below `aln_query_end`. -/
def NextBase (r : Record) (i k : Nat) (e' : PileupEntry) : Prop :=
  AtBase r i (k + 1) e' ∨
    r.cigar[i]?.map Prod.fst = some (k + 1) ∧
      ∃ j, i < j ∧ r.cigar.refBefore j = r.cigar.refBefore (i + 1) ∧
        r.cigar.queryBefore j < r.alnQueryEnd ∧ AtBase r j 0 e'

/-- Base `k` of op `i` ends the walk: it is the op's last base, and the next
reference-consuming op, if any, starts at or past `aln_query_end`. -/
def LastBase (r : Record) (i k : Nat) : Prop :=
  r.cigar[i]?.map Prod.fst = some (k + 1) ∧
    ∀ j x, i < j → r.cigar[j]? = some x → x.2.consumesRef →
      r.cigar.refBefore j = r.cigar.refBefore (i + 1) → r.alnQueryEnd ≤ r.cigar.queryBefore j

section Closed

variable {r : Record} {i k : Nat} {e : PileupEntry}

theorem Placed.withQueryEnd (placed : Placed r i k e) (queryEnd : Nat) :
    Placed r i k { e with queryEnd } :=
  ⟨placed.record, placed.aln, placed.index, placed.op, placed.base, placed.remaining,
    placed.refPos, placed.queryStart⟩

theorem Placed.lastLen (placed : Placed r i k e) (last : k + 1 = e.opAt.1) :
    r.cigar[i]?.map Prod.fst = some (k + 1) := by
  rw [placed.op, last]
  rfl

theorem Placed.nextQuery (placed : Placed r i k e) (last : k + 1 = e.opAt.1) :
    (if e.opAt.2.consumesQuery then e.queryStart + 1 else e.queryStart) =
      r.cigar.queryBefore (i + 1) := by
  rw [Cigar.queryBefore_succ placed.op, placed.queryStart]
  by_cases query : e.opAt.2.consumesQuery <;> simp [query]
  omega

/-- On a placed cursor `update_query_end`, when it does not panic, computes the closed form's
`query_end`. -/
theorem Placed.endOf_eq (alnEq : r.alnQueryEnd = r.cigar.queryLen - r.cigar.softClipEnd)
    {v : Nat} (placed : Placed r i k e) (ended : e.endOf = .ok v) :
    v = if e.opAt.2.consumesQuery then
      min (e.queryStart + 1 +
          (if k + 1 = e.opAt.1 then Cigar.queryRun (r.cigar.drop (i + 1)) else 0))
        r.alnQueryEnd
    else e.queryStart := by
  have bound := Cigar.queryBefore_succ_le placed.op (opAt_consumesRef e)
  rw [Cigar.queryBefore_succ placed.op, ← alnEq] at bound
  have start := placed.queryStart
  have remaining := placed.remaining
  have base := placed.base
  unfold endOf at ended
  rw [placed.record, placed.index, placed.aln] at ended
  by_cases query : e.opAt.2.consumesQuery
  · simp only [query, Bool.not_true, Bool.false_eq_true, if_false, if_true] at ended bound start ⊢
    split at ended
    · obtain ⟨_, added, inserted⟩ := bind_eq_ok.mp ended
      obtain ⟨-, rfl⟩ := addU32_eq_ok.mp added
      obtain ⟨w, found_end, rfl⟩ := map_eq_ok.mp inserted
      rw [if_pos (by omega), insertionEnd_min found_end]
    · obtain ⟨-, rfl⟩ := addU32_eq_ok.mp ended
      rw [if_neg (by omega)]
      omega
  · simp only [query, Bool.not_false, if_true] at ended
    simp [query, (Except.ok.inj ended).symm]

theorem Placed.endOf_ok (placed : Placed r i k e) (queryFits : r.cigar.queryLen ≤ u32Max) :
    ∃ v, e.endOf = .ok v := by
  have next := Cigar.queryBefore_succ placed.op
  have total := Cigar.queryLen_eq_queryBefore_add r.cigar (i + 1)
  have start := placed.queryStart
  have base := placed.base
  unfold endOf
  rw [placed.record, placed.index]
  by_cases query : e.opAt.2.consumesQuery
  · simp only [query, if_true] at next start
    have fits : e.queryStart + 1 ≤ u32Max := by omega
    simp only [query, Bool.not_true, Bool.false_eq_true, if_false]
    split
    · obtain ⟨w, inserted⟩ := @insertionEnd_ok e.alnQueryEnd
        (r.cigar.drop (i + 1)) (e.queryStart + 1) (by omega)
      exact ⟨_, by rw [addU32_of_le fits, ok_bind, inserted]; rfl⟩
    · exact ⟨_, addU32_of_le fits⟩
  · exact ⟨e.queryStart, by simp [query]⟩

theorem Placed.atBase (alnEq : r.alnQueryEnd = r.cigar.queryLen - r.cigar.softClipEnd)
    (placed : Placed r i k e) (ended : e.endOf = .ok e.queryEnd) : AtBase r i k e :=
  ⟨placed, placed.endOf_eq alnEq ended⟩

/-- One step of `move_forward` from a placed cursor, before `update_query_end`: the next base
of the op, or past its last base, base 0 of the next reference-consuming op. -/
theorem Placed.stepped {c : PileupEntry} (placed : Placed r i k e) (stepped : Stepped e c) :
    Placed r i (k + 1) c ∨
      r.cigar[i]?.map Prod.fst = some (k + 1) ∧
        ∃ j, i < j ∧ r.cigar.refBefore j = r.cigar.refBefore (i + 1) ∧
          r.cigar.queryBefore j < r.alnQueryEnd ∧ Placed r j 0 c := by
  obtain ⟨record, aln, refPos, step⟩ := stepped
  have record' : c.record = r := record.trans placed.record
  have aln' : c.alnQueryEnd = r.alnQueryEnd := aln.trans placed.aln
  have remaining := placed.remaining
  rcases step with ⟨more, index, remaining', queryStart'⟩ | ⟨last, found⟩
  · have same : c.opAt = e.opAt := opAt_congr record index
    have base : k + 1 < c.opAt.1 := by rw [same]; omega
    have start : c.queryStart =
        r.cigar.queryBefore i + (if c.opAt.2.consumesQuery then k + 1 else 0) := by
      rw [queryStart', same, placed.queryStart]
      by_cases query : e.opAt.2.consumesQuery <;> simp [query]
      omega
    exact .inl ⟨record', aln', index.trans placed.index, same ▸ placed.op, base,
      by rw [same, remaining']; omega, by rw [refPos, placed.refPos]; rfl, start⟩
  · have final : k + 1 = e.opAt.1 := by have := placed.base; omega
    rw [placed.record, placed.index, placed.aln, placed.nextQuery final] at found
    obtain ⟨op', at_j, -, positive, after, below, query, ref⟩ := skipOps_found _ i _ rfl rfl found
    have at_c : r.cigar[c.cigarIndex]? = some c.opAt := by
      rw [← record']
      exact getElem?_cigarIndex c
    have opAt_eq : c.opAt = (c.cigarRemaining, op') := Option.some.inj (at_c.symm.trans at_j)
    refine .inr ⟨placed.lastLen final, c.cigarIndex, after, ref, query ▸ below,
      record', aln', rfl, at_c, by rw [opAt_eq]; omega, by rw [opAt_eq]; rfl, ?_, by simp [query]⟩
    rw [refPos, placed.refPos, ref, Cigar.refBefore_succ placed.op, if_pos (opAt_consumesRef e)]
    omega

theorem Placed.moveForward_none (positive : ∀ x ∈ r.cigar, 0 < x.1) (placed : Placed r i k e)
    (stopped : e.moveForward = .ok none) : LastBase r i k := by
  obtain ⟨last, none_found⟩ := PileupEntry.moveForward_none stopped
  have final : k + 1 = e.opAt.1 := by have := placed.base; have := placed.remaining; omega
  rw [placed.record, placed.index, placed.aln, placed.nextQuery final] at none_found
  exact ⟨placed.lastLen final, skipOps_none_found positive _ i _ rfl rfl none_found⟩

theorem placed_of_firstRefOp (positive : ∀ x ∈ r.cigar, 0 < x.1) {c : PileupEntry}
    (record : c.record = r) (aln : c.alnQueryEnd = r.alnQueryEnd) (refPos : c.refPos = r.start.toNat)
    (found : firstRefOp r.cigar 0 0 = .ok (c.cigarIndex, c.cigarRemaining, c.queryStart)) :
    Placed r c.cigarIndex 0 c := by
  obtain ⟨op, at_i, -, query, ref⟩ := firstRefOp_found r.cigar 0 0 rfl (by simp) found
  have at_c : r.cigar[c.cigarIndex]? = some c.opAt := by
    rw [← record]
    exact getElem?_cigarIndex c
  have opAt_eq : c.opAt = (c.cigarRemaining, op) := Option.some.inj (at_c.symm.trans at_i)
  exact ⟨record, aln, rfl, at_c, positive _ (List.getElem?_mem at_c), by simp [opAt_eq],
    by simp [refPos, ref], by simp [query]⟩

/-- `PileupEntry::new` does not panic at a nonnegative start, with positive op lengths, a
reference-consuming op and a query length within `u32`. -/
theorem new_total (positive : ∀ x ∈ r.cigar, 0 < x.1) (nonneg : 0 ≤ r.start)
    (hasRef : r.cigar.any fun x => x.2.consumesRef) (queryFits : r.cigar.queryLen ≤ u32Max) :
    ∃ e, PileupEntry.new r = .ok e := by
  rcases new_cases r with ⟨negative, -⟩ | ⟨-, _, failed, -⟩ |
      ⟨-, c, record, aln, refPos, found, built⟩
  · omega
  · obtain ⟨_, ok⟩ := firstRefOp_ok r.cigar 0 0 hasRef (by simpa using queryFits)
    cases ok.symm.trans failed
  · obtain ⟨v, ended⟩ := (placed_of_firstRefOp positive record aln refPos found).endOf_ok queryFits
    exact ⟨_, built.trans (updateQueryEnd_of_endOf ended)⟩

variable (alnEq : r.alnQueryEnd = r.cigar.queryLen - r.cigar.softClipEnd)
include alnEq

theorem atBase_new (positive : ∀ x ∈ r.cigar, 0 < x.1) (created : PileupEntry.new r = .ok e) :
    AtBase r e.cigarIndex 0 e :=
  let ⟨_, record, aln, refPos, ended, found⟩ := new_ok created
  (placed_of_firstRefOp positive record aln refPos found).atBase alnEq ended

theorem AtBase.queryEnd_le (at_base : AtBase r i k e) : e.queryEnd ≤ e.alnQueryEnd := by
  have bound := Cigar.queryBefore_succ_le at_base.op (opAt_consumesRef e)
  rw [Cigar.queryBefore_succ at_base.op, ← alnEq] at bound
  rw [at_base.queryEnd, at_base.aln, at_base.queryStart]
  split <;> omega

theorem AtBase.moveForward_some {e' : PileupEntry} (at_base : AtBase r i k e)
    (moved : e.moveForward = .ok (some e')) : NextBase r i k e' := by
  obtain ⟨stepped, ended, -⟩ := PileupEntry.moveForward_some moved
  rcases at_base.stepped stepped with within | ⟨last, j, after, ref, below, placed⟩
  · exact .inl (within.atBase alnEq ended)
  · exact .inr ⟨last, j, after, ref, below, placed.atBase alnEq ended⟩

theorem atBase_moveForward {e' : PileupEntry} (at_base : AtBase r i k e)
    (moved : e.moveForward = .ok (some e')) : ∃ i' k', AtBase r i' k' e' := by
  rcases at_base.moveForward_some alnEq moved with within | ⟨-, j, -, -, -, at_j⟩
  · exact ⟨i, k + 1, within⟩
  · exact ⟨j, 0, at_j⟩

/-- From the closed form `move_forward` does not panic where the record's coordinates fit a
`u32`. -/
theorem AtBase.moveForward_ok (at_base : AtBase r i k e)
    (refFits : r.start.toNat + r.cigar.refLen ≤ u32Max) (queryFits : r.cigar.queryLen ≤ u32Max) :
    ∃ moved, e.moveForward = .ok moved := by
  have base := at_base.base
  have remaining := at_base.remaining
  have ref_next := Cigar.refBefore_succ at_base.op
  have ref_total := Cigar.refLen_eq_refBefore_add r.cigar (i + 1)
  have query_next := Cigar.queryBefore_succ at_base.op
  have query_total := Cigar.queryLen_eq_queryBefore_add r.cigar (i + 1)
  have start := at_base.queryStart
  have ref_pos := at_base.refPos
  rw [if_pos (opAt_consumesRef e)] at ref_next
  rcases moveForward_cases e with ⟨used, -⟩ | ⟨-, overflow, -⟩ | ⟨-, stopped, -⟩ |
      ⟨msg, last, -, failed⟩ | ⟨c, stepped, built⟩
  · omega
  · by_cases query : e.opAt.2.consumesQuery <;> simp only [query, if_true] at query_next start <;>
      simp [query] at overflow <;> omega
  · exact ⟨none, stopped⟩
  · rw [at_base.record, at_base.index, at_base.aln, at_base.nextQuery (by omega)] at failed
    obtain ⟨_, ok⟩ := skipOps_ok (a := r.alnQueryEnd) (r.cigar.drop (i + 1)) i
      (r.cigar.queryBefore (i + 1)) (by omega)
    cases ok.symm.trans failed
  · obtain ⟨i', k', placed⟩ : ∃ i' k', Placed r i' k' c := by
      rcases at_base.stepped stepped with within | ⟨-, j, -, -, -, at_j⟩
      exacts [⟨_, _, within⟩, ⟨_, _, at_j⟩]
    obtain ⟨v, ended⟩ := placed.endOf_ok queryFits
    have updated := updateQueryEnd_of_endOf ended
    have at_c : AtBase r i' k' { c with queryEnd := v } :=
      (placed.withQueryEnd v).atBase alnEq ended
    exact ⟨_, by rw [built, updated, ok_bind, checkQueryEnd, if_pos (at_c.queryEnd_le alnEq)]⟩

theorem AtBase.queryStart_lt (at_base : AtBase r i k e) (query : e.opAt.2.consumesQuery) :
    e.queryStart + 1 ≤ e.queryEnd := by
  have bound := Cigar.queryBefore_succ_le at_base.op (opAt_consumesRef e)
  rw [Cigar.queryBefore_succ at_base.op, ← alnEq] at bound
  have start := at_base.queryStart
  have base := at_base.base
  rw [at_base.queryEnd]
  simp only [query, ite_true] at bound start ⊢
  omega

theorem AtBase.emitted {e' : PileupEntry} (at_base : AtBase r i k e) (emitted : Emitted e e') :
    ∃ i' k', AtBase r i' k' e' := by
  induction emitted with
  | start => exact ⟨i, k, at_base⟩
  | step _ moved ih =>
    obtain ⟨i', k', at_e⟩ := ih
    exact atBase_moveForward alnEq at_e moved

end Closed

theorem refBefore_new {r : Record} {e : PileupEntry} (created : PileupEntry.new r = .ok e) :
    r.cigar.refBefore e.cigarIndex = 0 := by
  obtain ⟨-, -, -, -, -, found⟩ := new_ok created
  obtain ⟨-, -, -, -, ref⟩ := firstRefOp_found r.cigar 0 0 rfl (by simp) found
  simpa using ref

/-- The walk of a record in closed form: from base 0 of the first reference-consuming op it goes
base by base and stops at the last, with no panic where the coordinates fit a `u32`. -/
theorem emitted_atBase {r : Record} (positive : ∀ x ∈ r.cigar, 0 < x.1)
    (alnEq : r.alnQueryEnd = r.cigar.queryLen - r.cigar.softClipEnd) {e₀ e : PileupEntry}
    (created : PileupEntry.new r = .ok e₀) (emitted : Emitted e₀ e) :
    (AtBase r e₀.cigarIndex 0 e₀ ∧ r.cigar.refBefore e₀.cigarIndex = 0) ∧
      ∃ i k, AtBase r i k e ∧
        e.alnType = (if e.opAt.2.consumesQuery then
          (if e.queryEnd - e.queryStart = 1 then .alnMatch
           else .insertion (e.queryEnd - e.queryStart - 1))
          else .deletion) ∧
        (∀ e', e.moveForward = .ok (some e') → NextBase r i k e') ∧
        (e.moveForward = .ok none → LastBase r i k) ∧
        (r.start.toNat + r.cigar.refLen ≤ u32Max → r.cigar.queryLen ≤ u32Max →
          ∃ moved, e.moveForward = .ok moved) := by
  have start := atBase_new alnEq positive created
  obtain ⟨i, k, at_base⟩ := start.emitted alnEq emitted
  refine ⟨⟨start, refBefore_new created⟩, i, k, at_base, ?_,
    fun _ moved => at_base.moveForward_some alnEq moved, at_base.moveForward_none positive,
    at_base.moveForward_ok alnEq⟩
  unfold alnType len
  by_cases query : e.opAt.2.consumesQuery
  · have covered := at_base.queryStart_lt alnEq query
    simp only [query, ite_true]
    obtain ⟨d, hd⟩ : ∃ d, e.queryEnd - e.queryStart = d + 1 :=
      ⟨e.queryEnd - e.queryStart - 1, by omega⟩
    rw [hd]
    cases d <;> simp
  · have same := at_base.queryEnd
    simp only [query] at same
    simp [query, same]

/-- The five-base match, five-base insertion, five-base match of scenario S2. -/
def recordS2 : Record :=
  { refId := 0, start := 100, mapped := true, bin := 4681,
    cigar := [(5, .alnMatch), (5, .insertion), (5, .alnMatch)], alnQueryEnd := 15 }

theorem emitted_atBase_recordS2 :
    ∃ e₀ e, PileupEntry.new recordS2 = .ok e₀ ∧ Emitted e₀ e ∧ e.refPos = 104 ∧
      e.alnType = .insertion 5 ∧
      (AtBase recordS2 e₀.cigarIndex 0 e₀ ∧ recordS2.cigar.refBefore e₀.cigarIndex = 0) ∧
      ∃ i k, AtBase recordS2 i k e ∧
        e.alnType = (if e.opAt.2.consumesQuery then
          (if e.queryEnd - e.queryStart = 1 then .alnMatch
           else .insertion (e.queryEnd - e.queryStart - 1))
          else .deletion) ∧
        (∀ e', e.moveForward = .ok (some e') → NextBase recordS2 i k e') ∧
        (e.moveForward = .ok none → LastBase recordS2 i k) ∧
        (recordS2.start.toNat + recordS2.cigar.refLen ≤ u32Max →
          recordS2.cigar.queryLen ≤ u32Max → ∃ moved, e.moveForward = .ok moved) := by
  obtain ⟨e₀, e, created, walked, at_104, insertion⟩ :
      ∃ e₀ e, PileupEntry.new recordS2 = .ok e₀ ∧ Emitted e₀ e ∧ e.refPos = 104 ∧
        e.alnType = .insertion 5 :=
    ⟨_, _, rfl, .step (.step (.step (.step .start rfl) rfl) rfl) rfl, rfl, rfl⟩
  exact ⟨e₀, e, created, walked, at_104, insertion,
    emitted_atBase (by decide) (by decide) created walked⟩

end PileupEntry

end Bam
