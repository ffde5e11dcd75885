import Bam.Pileup.Engine
import Mathlib.Data.List.Forall2
import Mathlib.Data.List.Perm.Basic

set_option autoImplicit false

/- The two loops of `next` that look at the live set as a whole: the target computation, a
fold that yields the least position in `(ref_id, ref_pos)` order, and the column loop, which
walks the entries from the last down and removes with `swap_remove`, so that it treats each
entry once and keeps the others up to order. -/
namespace Bam

/-- `a` lies at or before `b` in `(ref_id, ref_pos)` order. -/
def AtOrBefore (a b : Nat × Nat) : Prop := a.1 < b.1 ∨ (a.1 = b.1 ∧ a.2 ≤ b.2)

/-- `a` lies strictly before `b` in `(ref_id, ref_pos)` order. -/
def Before (a b : Nat × Nat) : Prop := a.1 < b.1 ∨ (a.1 = b.1 ∧ a.2 < b.2)

instance (a b : Nat × Nat) : Decidable (AtOrBefore a b) := inferInstanceAs (Decidable (_ ∨ _))

instance (a b : Nat × Nat) : Decidable (Before a b) := inferInstanceAs (Decidable (_ ∨ _))

theorem AtOrBefore.trans {a b c : Nat × Nat} (first : AtOrBefore a b) (second : AtOrBefore b c) :
    AtOrBefore a c := by
  unfold AtOrBefore at *
  omega

theorem Before.of_atOrBefore_of_ne {a b : Nat × Nat} (le : AtOrBefore a b) (ne : a ≠ b) :
    Before a b := by
  obtain ⟨a₁, a₂⟩ := a
  obtain ⟨b₁, b₂⟩ := b
  simp only [AtOrBefore, Before, ne_eq, Prod.mk.injEq] at *
  omega

theorem PileupEntry.pos_eq_iff (e : PileupEntry) (target : Nat × Nat) :
    e.pos = target ↔ e.record.refId.toNat = target.1 ∧ e.refPos = target.2 := by
  obtain ⟨t₁, t₂⟩ := target
  simp [PileupEntry.pos]

theorem PileupEntry.refId_lt_u32Max (e : PileupEntry) : e.record.refId.toNat < u32Max := by
  have := e.record.refId_toNat_lt
  unfold u32Max
  omega

theorem foldl_targetStep (entries : List PileupEntry) (start : Nat × Nat) :
    let target := entries.foldl targetStep start
    (target = start ∨ ∃ e ∈ entries, target = e.pos) ∧ AtOrBefore target start ∧
      ∀ e ∈ entries, AtOrBefore target e.pos := by
  induction entries generalizing start with
  | nil => simp [AtOrBefore]
  | cons e rest ih =>
    obtain ⟨origin, below, all⟩ := ih (targetStep start e)
    have step : (targetStep start e = start ∨ targetStep start e = e.pos) ∧
        AtOrBefore (targetStep start e) start ∧ AtOrBefore (targetStep start e) e.pos := by
      unfold targetStep PileupEntry.pos AtOrBefore
      split
      · simp_all
      · split
        · rename_i same
          refine ⟨?_, .inr ⟨rfl, Nat.min_le_left _ _⟩,
            .inr ⟨same.symm, Nat.min_le_right _ _⟩⟩
          rcases Nat.le_total start.2 e.refPos with le | le
          · exact .inl (by simp [Nat.min_eq_left le])
          · exact .inr (by simp [Nat.min_eq_right le, same])
        · simp only [true_or, Nat.lt_irrefl, false_and, or_false, true_and]
          omega
    simp only [List.foldl_cons, List.mem_cons, forall_eq_or_imp] at origin all ⊢
    refine ⟨?_, below.trans step.2.1, below.trans step.2.2, all⟩
    rcases origin with same | ⟨e', mem, at_e'⟩
    · rcases step.1 with kept | taken
      · exact .inl (same.trans kept)
      · exact .inr ⟨e, .inl rfl, same.trans taken⟩
    · exact .inr ⟨e', .inr mem, at_e'⟩

theorem target_least {entries : List PileupEntry} (live : entries ≠ []) :
    let target := entries.foldl targetStep (u32Max, u32Max)
    (∃ e ∈ entries, target = e.pos) ∧ ∀ e ∈ entries, AtOrBefore target e.pos := by
  obtain ⟨origin, -, all⟩ := foldl_targetStep entries (u32Max, u32Max)
  refine ⟨origin.resolve_left fun unmoved => ?_, all⟩
  obtain ⟨e, mem⟩ := List.exists_mem_of_ne_nil entries live
  have below := all e mem
  rw [unmoved] at below
  have := e.refId_lt_u32Max
  simp only [AtOrBefore, PileupEntry.pos] at below
  omega

/-- What the column loop makes of one live entry: its moved state or nothing at the target, the
entry itself past it, a panic before it. -/
def advance (target : Nat × Nat) (e : PileupEntry) : Except String (List PileupEntry) :=
  if e.record.refId.toNat = target.1 ∧ e.refPos = target.2 then
    match e.moveForward with
    | .error msg => .error msg
    | .ok (some moved) => .ok [moved]
    | .ok none => .ok []
  else if e.record.refId.toNat > target.1 ∨ e.refPos > target.2 then .ok [e]
  else .error "Record is to the left of the new pileup position"

theorem swapRemove_middle (front back : List PileupEntry) (x : PileupEntry) :
    ∃ back', swapRemove (front ++ x :: back) front.length = front ++ back' ∧
      back'.Perm back := by
  rcases List.eq_nil_or_concat back with rfl | ⟨rest, last, rfl⟩
  · refine ⟨[], ?_, .refl _⟩
    simp [swapRemove, List.set_append_right]
  · rw [List.concat_eq_append]
    refine ⟨last :: rest, ?_, (List.perm_append_singleton last rest).symm⟩
    have shape : front ++ x :: (rest ++ [last]) = (front ++ x :: rest) ++ [last] := by simp
    rw [shape, swapRemove, List.getLast?_concat]
    simp [List.set_append_right, List.set_append_left]
    rw [← List.cons_append, List.dropLast_concat]

theorem exists_of_mem_flatten {R : PileupEntry → List PileupEntry → Prop}
    {front outs : List _} (all : List.Forall₂ R front outs) {e' : PileupEntry}
    (mem : e' ∈ outs.flatten) : ∃ e ∈ front, ∃ out, R e out ∧ e' ∈ out := by
  induction all with
  | nil => simp at mem
  | cons related _ ih =>
    rcases List.mem_append.mp (List.flatten_cons ▸ mem) with here | there
    · exact ⟨_, .head _, _, related, here⟩
    · obtain ⟨e, mem, out, related', inside⟩ := ih there
      exact ⟨e, .tail _ mem, out, related', inside⟩

theorem exists_of_mem_forall₂ {R : PileupEntry → List PileupEntry → Prop}
    {front outs : List _} (all : List.Forall₂ R front outs) {e : PileupEntry}
    (mem : e ∈ front) :
    ∃ out ∈ outs, R e out := by
  induction all with
  | nil => cases mem
  | cons related _ ih =>
    rcases List.mem_cons.mp mem with rfl | there
    · exact ⟨_, .head _, related⟩
    · obtain ⟨out, inside, related'⟩ := ih there
      exact ⟨out, .tail _ inside, related'⟩

theorem columnLoop_succ (target : Nat × Nat) (front back : List PileupEntry) (x : PileupEntry)
    (column : List PileupEntry) :
    columnLoop target (front.length + 1) (front ++ x :: back) column =
      if x.record.refId.toNat = target.1 ∧ x.refPos = target.2 then
        match x.moveForward with
        | .error msg => .error msg
        | .ok (some moved) => columnLoop target front.length (front ++ moved :: back)
          (column ++ [x])
        | .ok none =>
          columnLoop target front.length (swapRemove (front ++ x :: back) front.length)
            (column ++ [x])
      else if x.record.refId.toNat > target.1 ∨ x.refPos > target.2 then
        columnLoop target front.length (front ++ x :: back) column
      else .error "Record is to the left of the new pileup position" := by
  have at_x : (front ++ x :: back)[front.length]? = some x := by
    rw [List.getElem?_append_right (Nat.le_refl _)]
    simp
  have set_x : ∀ moved, (front ++ x :: back).set front.length moved = front ++ moved :: back := by
    simp [List.set_append_right]
  by_cases here : x.record.refId.toNat = target.1 ∧ x.refPos = target.2
  · rcases moving : x.moveForward with msg | _ | moved <;>
      simp only [columnLoop, at_x, set_x, here, moving, if_true]
  · simp only [columnLoop, at_x, here, if_false]

/-- The column loop from index `front.length` down: each entry of `front` goes through `advance`,
those behind stay, and the column collects the entries at the target. -/
theorem columnLoop_spec {target : Nat × Nat} {live' column' : List PileupEntry}
    (front : List PileupEntry) :
    ∀ (back column : List PileupEntry),
      columnLoop target front.length (front ++ back) column = .ok (live', column') →
      ∃ outs, List.Forall₂ (fun e out => advance target e = .ok out) front outs ∧
        live'.Perm (outs.flatten ++ back) ∧
        column' = column ++ (front.filter fun e => e.pos = target).reverse := by
  induction front using List.reverseRecOn with
  | nil =>
    intro back column looped
    simp only [List.length_nil, columnLoop, List.nil_append, Except.ok.injEq,
      Prod.mk.injEq] at looped
    obtain ⟨rfl, rfl⟩ := looped
    exact ⟨[], .nil, by simp, by simp⟩
  | append_singleton front x ih =>
    intro back column looped
    simp only [List.length_append, List.length_singleton, List.append_assoc,
      List.singleton_append, columnLoop_succ] at looped
    have filtered : ((front ++ [x]).filter fun e => e.pos = target).reverse =
        (if x.pos = target then [x] else []) ++ (front.filter fun e => e.pos = target).reverse := by
      by_cases here : x.pos = target <;> simp [List.filter_append, here]
    rw [filtered]
    split at looped
    · rename_i here
      have at_target : x.pos = target := (x.pos_eq_iff target).mpr here
      split at looped
      · cases looped
      · rename_i moved moving
        obtain ⟨outs, all, perm, col⟩ := ih (moved :: back) _ looped
        refine ⟨outs ++ [[moved]], List.rel_append all (.cons ?_ .nil), ?_, ?_⟩
        · rw [advance, if_pos here, moving]
        · simpa using perm
        · simp [col, at_target]
      · rename_i dropped
        obtain ⟨back', removed, perm'⟩ := swapRemove_middle front back x
        rw [removed] at looped
        obtain ⟨outs, all, perm, col⟩ := ih back' _ looped
        refine ⟨outs ++ [[]], List.rel_append all (.cons ?_ .nil), ?_, ?_⟩
        · rw [advance, if_pos here, dropped]
        · simpa using perm.trans (List.Perm.append_left _ perm')
        · simp [col, at_target]
    · rename_i off
      have not_target : ¬ x.pos = target := fun at_target =>
        off ((x.pos_eq_iff target).mp at_target)
      split at looped
      · rename_i past
        obtain ⟨outs, all, perm, col⟩ := ih (x :: back) _ looped
        refine ⟨outs ++ [[x]], List.rel_append all (.cons ?_ .nil), ?_, ?_⟩
        · rw [advance, if_neg off, if_pos past]
        · simpa using perm
        · simp [col, not_target]
      · cases looped

theorem columnLoop_left {target : Nat × Nat} (front : List PileupEntry) :
    ∀ (back column : List PileupEntry),
      columnLoop target front.length (front ++ back) column =
        .error "Record is to the left of the new pileup position" →
      (∃ e ∈ front, Before e.pos target) ∨
        ∃ e ∈ front,
          e.moveForward = .error "Record is to the left of the new pileup position" := by
  induction front using List.reverseRecOn with
  | nil => intro back column failed; cases failed
  | append_singleton front x ih =>
    intro back column failed
    simp only [List.length_append, List.length_singleton, List.append_assoc,
      List.singleton_append, columnLoop_succ] at failed
    have widen : ((∃ e ∈ front, Before e.pos target) ∨ ∃ e ∈ front,
        e.moveForward = .error "Record is to the left of the new pileup position") →
        ((∃ e ∈ front ++ [x], Before e.pos target) ∨ ∃ e ∈ front ++ [x],
          e.moveForward = .error "Record is to the left of the new pileup position") := by
      rintro (⟨e, mem, before⟩ | ⟨e, mem, moving⟩)
      · exact .inl ⟨e, List.mem_append_left _ mem, before⟩
      · exact .inr ⟨e, List.mem_append_left _ mem, moving⟩
    split at failed
    · split at failed
      · rename_i moving
        cases failed
        exact .inr ⟨x, by simp, moving⟩
      · exact widen (ih _ _ failed)
      · obtain ⟨back', removed, -⟩ := swapRemove_middle front back x
        rw [removed] at failed
        exact widen (ih _ _ failed)
    · rename_i off
      split at failed
      · exact widen (ih _ _ failed)
      · rename_i not_past
        refine .inl ⟨x, by simp, ?_⟩
        unfold Before PileupEntry.pos
        omega

end Bam
