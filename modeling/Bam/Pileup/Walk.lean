import Bam.Pileup.Direct

set_option autoImplicit false

/- The whole walk of one record: `new`, then `move_forward` until it returns `false`. It
covers a run of reference positions from the record's start, one state per position; the run
ends at the first reference-consuming op, after the first one, that lies at or past query
offset `aln_query_end` (the `query_start >= aln_query_end` test of `move_forward`). -/
namespace Bam

namespace Cigar

/-- The reference bases a walk of the ops covers, `started` once past the first reference-consuming
op: after it such an op is walked only while `query` is below `alnQueryEnd`. -/
def walkedRef (alnQueryEnd : Nat) : Cigar → Bool → Nat → Nat
  | [], _, _ => 0
  | (len, op) :: rest, started, query =>
    let query' := if op.consumesQuery then query + len else query
    if op.consumesRef then
      if started ∧ alnQueryEnd ≤ query then 0
      else len + walkedRef alnQueryEnd rest true query'
    else walkedRef alnQueryEnd rest started query'

theorem walkedRef_late {alnQueryEnd : Nat} :
    ∀ {ops : Cigar} {query : Nat}, alnQueryEnd ≤ query →
      walkedRef alnQueryEnd ops true query = 0
  | [], _, _ => rfl
  | (len, op) :: rest, query, late => by
    simp only [walkedRef]
    split
    · simp [late]
    · exact walkedRef_late (by split <;> omega)

theorem walkedRef_le_refLen (alnQueryEnd : Nat) :
    ∀ (ops : Cigar) (started : Bool) (query : Nat),
      walkedRef alnQueryEnd ops started query ≤ refLen ops
  | [], _, _ => le_rfl
  | (len, op) :: rest, started, query => by
    have tail := walkedRef_le_refLen alnQueryEnd rest
    simp only [walkedRef, refLen_cons]
    split
    · split
      · exact Nat.zero_le _
      · exact Nat.add_le_add_left (tail _ _) _
    · exact (tail _ _).trans (Nat.le_add_left _ _)

end Cigar

open Cigar

theorem skipOps_walkedRef {alnQueryEnd : Nat} :
    ∀ {ops : Cigar} {m query j n q : Nat}, skipOps alnQueryEnd ops m query = .ok (some (j, n, q)) →
      ∃ op, ops[j - m - 1]? = some (n, op) ∧
        walkedRef alnQueryEnd ops true query =
          n + walkedRef alnQueryEnd (ops.drop (j - m)) true (if op.consumesQuery then q + n else q)
  | [], _, _, _, _, _, found => by cases found
  | (len, op) :: rest, m, query, j, n, q, found => by
    have after := (skipOps_some found).1
    simp only [skipOps] at found
    split at found
    · cases found
    rename_i early
    split at found
    · rename_i consumes
      split at found
      · rename_i empty
        obtain ⟨op', at_j, walked⟩ := skipOps_walkedRef found
        have later := (skipOps_some found).1
        refine ⟨op', ?_, ?_⟩
        · rwa [show j - m - 1 = j - (m + 1) - 1 + 1 by omega, List.getElem?_cons_succ]
        · simp only [walkedRef, consumes, early, and_false, if_false, if_true, empty,
            Nat.zero_add, Nat.add_zero, ite_self]
          rw [walked, show j - m = j - (m + 1) + 1 by omega, List.drop_succ_cons]
      · cases found
        refine ⟨op, by simp, ?_⟩
        simp [walkedRef, consumes, early]
    · rename_i other
      replace found := (addIf_bind_ok found).2
      obtain ⟨op', at_j, walked⟩ := skipOps_walkedRef found
      have later := (skipOps_some found).1
      refine ⟨op', ?_, ?_⟩
      · rwa [show j - m - 1 = j - (m + 1) - 1 + 1 by omega, List.getElem?_cons_succ]
      · simp only [walkedRef, other, Bool.false_eq_true, if_false]
        rw [walked, show j - m = j - (m + 1) + 1 by omega, List.drop_succ_cons]

theorem skipOps_walkedRef_none {alnQueryEnd : Nat} :
    ∀ {ops : Cigar} {m query : Nat}, skipOps alnQueryEnd ops m query = .ok none →
      walkedRef alnQueryEnd ops true query = 0
  | [], _, _, _ => rfl
  | (len, op) :: rest, m, query, stopped => by
    simp only [skipOps] at stopped
    split at stopped
    · exact walkedRef_late ‹_›
    rename_i early
    split at stopped
    · rename_i consumes
      split at stopped
      · rename_i empty
        simp only [walkedRef, consumes, early, and_false, if_false, if_true, empty, Nat.zero_add,
          Nat.add_zero, ite_self]
        exact skipOps_walkedRef_none stopped
      · cases stopped
    · rename_i other
      simp only [walkedRef, other, Bool.false_eq_true, if_false]
      exact skipOps_walkedRef_none (addIf_bind_ok stopped).2

theorem firstRefOp_walkedRef {alnQueryEnd : Nat} :
    ∀ {ops : Cigar} {m query i n q : Nat}, firstRefOp ops m query = .ok (i, n, q) →
      ∃ op, ops[i - m]? = some (n, op) ∧
        walkedRef alnQueryEnd ops false query =
          n + walkedRef alnQueryEnd (ops.drop (i - m + 1)) true
            (if op.consumesQuery then q + n else q)
  | [], _, _, _, _, _, found => by cases found
  | (len, op) :: rest, m, query, i, n, q, found => by
    have before := (firstRefOp_some found).1
    simp only [firstRefOp] at found
    split at found
    · rename_i consumes
      cases found
      refine ⟨op, by simp, ?_⟩
      simp [walkedRef, consumes]
    · rename_i other
      replace found := (addIf_bind_ok found).2
      obtain ⟨op', at_i, walked⟩ := firstRefOp_walkedRef found
      have later := (firstRefOp_some found).1
      refine ⟨op', ?_, ?_⟩
      · rwa [show i - m = i - (m + 1) + 1 by omega, List.getElem?_cons_succ]
      · simp only [walkedRef, other, Bool.false_eq_true, if_false]
        rw [walked, show i - m + 1 = i - (m + 1) + 1 + 1 by omega, List.drop_succ_cons]

namespace PileupEntry

/-- The positions left to walk from `e`, itself included. -/
def walkLeft (e : PileupEntry) : Nat :=
  e.cigarRemaining + walkedRef e.alnQueryEnd (e.record.cigar.drop (e.cigarIndex + 1)) true
    (if e.opAt.2.consumesQuery then e.queryStart + e.cigarRemaining else e.queryStart)

theorem walkLeft_moveForward {e e' : PileupEntry} (moved : e.moveForward = .ok (some e')) :
    e.walkLeft = e'.walkLeft + 1 := by
  obtain ⟨⟨record, aln, -, step⟩, -, -⟩ := moveForward_some moved
  unfold walkLeft
  rcases step with ⟨more, index, remaining, queryStart⟩ | ⟨last, found⟩
  · rw [record, aln, index, opAt_congr record index, remaining, queryStart]
    have shifted : e.queryStart + 1 + (e.cigarRemaining - 1) = e.queryStart + e.cigarRemaining := by
      omega
    by_cases query : e.opAt.2.consumesQuery
    · simp only [query, if_true, shifted]
      omega
    · simp only [query, Bool.false_eq_true, if_false]
      omega
  · obtain ⟨op, at_j, walked⟩ := skipOps_walkedRef found
    have later := (skipOps_some found).1
    have at_e' := getElem?_cigarIndex e'
    rw [record] at at_e'
    rw [List.getElem?_drop, show e.cigarIndex + 1 + (e'.cigarIndex - e.cigarIndex - 1) =
      e'.cigarIndex by omega, at_e'] at at_j
    have op_eq : e'.opAt = (e'.cigarRemaining, op) := Option.some.inj at_j
    rw [List.drop_drop, show e.cigarIndex + 1 + (e'.cigarIndex - e.cigarIndex) =
      e'.cigarIndex + 1 by omega] at walked
    simp only [last, record, aln, op_eq]
    omega

theorem walkLeft_moveForward_none {e : PileupEntry} (stopped : e.moveForward = .ok none) :
    e.walkLeft = 1 := by
  obtain ⟨last, none_found⟩ := moveForward_none stopped
  unfold walkLeft
  rw [last, skipOps_walkedRef_none none_found]

/-- The (record, reference position) pair of an entry. -/
def key (e : PileupEntry) : Record × Nat := (e.record, e.refPos)

def keys (e : PileupEntry) : List (Record × Nat) :=
  (List.range' e.refPos e.walkLeft).map fun pos => (e.record, pos)

theorem keys_moveForward {e e' : PileupEntry} (moved : e.moveForward = .ok (some e')) :
    e.keys = e.key :: e'.keys := by
  obtain ⟨⟨record, -, refPos, -⟩, -⟩ := moveForward_some moved
  simp only [keys, key, walkLeft_moveForward moved, List.range'_succ, List.map_cons, record, refPos]

theorem keys_moveForward_none {e : PileupEntry} (stopped : e.moveForward = .ok none) :
    e.keys = [e.key] := by
  simp [keys, key, walkLeft_moveForward_none stopped]

end PileupEntry

namespace Record

/-- The reference bases the walk of `r` covers, from `new` on while `move_forward` returns
`true`. -/
def walkedLen (r : Record) : Nat := walkedRef r.alnQueryEnd r.cigar false 0

/-- The pairs the walk of `r` visits: `walkedLen` positions from its start. -/
def keys (r : Record) : List (Record × Nat) :=
  (List.range' r.start.toNat r.walkedLen).map fun pos => (r, pos)

theorem mem_keys {r r' : Record} {pos : Nat} :
    (r', pos) ∈ r.keys ↔
      r' = r ∧ r.start.toNat ≤ pos ∧ pos < r.start.toNat + r.walkedLen := by
  simp only [keys, List.mem_map, List.mem_range'_1, Prod.mk.injEq]
  constructor
  · rintro ⟨_, bounds, rfl, rfl⟩
    exact ⟨rfl, bounds⟩
  · rintro ⟨rfl, bounds⟩
    exact ⟨pos, bounds, rfl, rfl⟩

theorem walkedLen_le (r : Record) : r.walkedLen ≤ r.cigar.refLen :=
  walkedRef_le_refLen _ _ _ _

end Record

namespace PileupEntry

theorem walkLeft_new {r : Record} {e : PileupEntry} (created : PileupEntry.new r = .ok e) :
    e.walkLeft = r.walkedLen := by
  obtain ⟨-, rfl, aln, -, -, found⟩ := new_ok created
  obtain ⟨op, at_i, walked⟩ := @firstRefOp_walkedRef e.record.alnQueryEnd _ _ _ _ _ _ found
  rw [Nat.sub_zero] at at_i walked
  have op_eq : e.opAt = (e.cigarRemaining, op) :=
    Option.some.inj ((getElem?_cigarIndex e).symm.trans at_i)
  simp only [walkLeft, Record.walkedLen, walked, aln, op_eq]

theorem keys_new {r : Record} {e : PileupEntry} (created : PileupEntry.new r = .ok e) :
    e.keys = r.keys := by
  obtain ⟨-, record, -, refPos, -⟩ := new_ok created
  simp only [keys, Record.keys, walkLeft_new created, record, refPos]

end PileupEntry

end Bam
