import Mathlib.Data.List.Nodup
import Mathlib.Data.List.Perm.Subperm
import Mathlib.Algebra.Order.Ring.Nat
import Mathlib.Algebra.Order.BigOperators.Group.List
import Mathlib.Algebra.BigOperators.Group.List.Basic

/-!
# Blocks laid end to end

A region that is filled by blocks without gaps: the heap of an allocator that only moves its top,
and what a walk from the bottom of such a heap meets. `start` says where a block begins and `size`
how long it is; both may be read off some memory.
-/

namespace JxCore

/-- The blocks `l`, in this order, fill the region from `base` to `top`. -/
def Tiled {α : Type*} (start size : α → Nat) : Nat → List α → Nat → Prop
  | base, [], top => base = top
  | base, a :: l, top => start a = base ∧ Tiled start size (base + size a) l top

namespace Tiled

variable {α : Type*} {start start' size size' : α → Nat} {base mid top : Nat} {l l' : List α}
  {a b : α}

@[simp] theorem nil_iff : Tiled start size base [] top ↔ base = top := Iff.rfl

@[simp] theorem cons_iff :
    Tiled start size base (a :: l) top ↔ start a = base ∧ Tiled start size (base + size a) l top :=
  Iff.rfl

/-! ## Putting regions together -/

theorem append (h : Tiled start size base l mid) (h' : Tiled start size mid l' top) :
    Tiled start size base (l ++ l') top := by
  induction l generalizing base with
  | nil =>
    rw [nil_iff] at h
    rwa [h, List.nil_append]
  | cons a l ih => exact ⟨h.1, ih h.2⟩

theorem of_append (h : Tiled start size base (l ++ l') top) :
    ∃ mid, Tiled start size base l mid ∧ Tiled start size mid l' top := by
  induction l generalizing base with
  | nil => exact ⟨base, rfl, h⟩
  | cons a l ih =>
    obtain ⟨mid, hl, hl'⟩ := ih h.2
    exact ⟨mid, ⟨h.1, hl⟩, hl'⟩

/-- One more block at the top. -/
theorem concat (h : Tiled start size base l top) (ha : start a = top) :
    Tiled start size base (l ++ [a]) (top + size a) :=
  h.append ⟨ha, rfl⟩

/-- Only the blocks of the list matter. -/
theorem congr (h : Tiled start size base l top) (hstart : ∀ a ∈ l, start' a = start a)
    (hsize : ∀ a ∈ l, size' a = size a) : Tiled start' size' base l top := by
  induction l generalizing base with
  | nil => exact h
  | cons a l ih =>
    simp only [List.forall_mem_cons] at hstart hsize
    refine ⟨hstart.1.trans h.1, ?_⟩
    rw [hsize.1]
    exact ih h.2 hstart.2 hsize.2

/-- The same starts and sizes in the same order. -/
theorem of_map_eq {β : Type*} {start' size' : β → Nat} {l' : List β}
    (h : Tiled start size base l top)
    (hmap : (l'.map fun b => (start' b, size' b)) = l.map fun a => (start a, size a)) :
    Tiled start' size' base l' top := by
  induction l generalizing base l' with
  | nil =>
    rw [List.map_nil, List.map_eq_nil_iff] at hmap
    rw [hmap]
    exact h
  | cons a l ih =>
    obtain ⟨b, l', rfl, hb, hl⟩ := List.map_eq_cons_iff.mp hmap
    simp only [Prod.mk.injEq] at hb
    refine ⟨hb.1.trans h.1, ?_⟩
    rw [hb.2]
    exact ih h.2 hl

theorem top_unique (h : Tiled start size base l top) (h' : Tiled start size base l mid) :
    top = mid := by
  induction l generalizing base with
  | nil => exact h.symm.trans h'
  | cons a l ih => exact ih h.2 h'.2

/-! ## Where the blocks are -/

theorem top_eq (h : Tiled start size base l top) : top = base + (l.map size).sum := by
  induction l generalizing base with
  | nil => simpa using h.symm
  | cons a l ih =>
    rw [ih h.2, List.map_cons, List.sum_cons, Nat.add_assoc]

theorem base_le (h : Tiled start size base l top) : base ≤ top := by
  rw [h.top_eq]
  exact Nat.le_add_right _ _

theorem mem_bounds (h : Tiled start size base l top) (ha : a ∈ l) :
    base ≤ start a ∧ start a + size a ≤ top := by
  induction l generalizing base with
  | nil => cases ha
  | cons b l ih =>
    rcases List.mem_cons.mp ha with rfl | ha
    · have hrest := h.2.base_le
      rw [h.1]
      exact ⟨Nat.le_refl _, hrest⟩
    · have hrest := ih h.2 ha
      omega

/-- Two blocks of the list are apart, one way or the other. -/
theorem disjoint (h : Tiled start size base l top) (ha : a ∈ l) (hb : b ∈ l) (hne : a ≠ b) :
    start a + size a ≤ start b ∨ start b + size b ≤ start a := by
  induction l generalizing base with
  | nil => cases ha
  | cons c l ih =>
    rcases List.mem_cons.mp ha with rfl | ha' <;> rcases List.mem_cons.mp hb with rfl | hb'
    · exact absurd rfl hne
    · left
      have hrest := h.2.mem_bounds hb'
      rw [h.1]
      exact hrest.1
    · right
      have hrest := h.2.mem_bounds ha'
      rw [h.1]
      exact hrest.1
    · exact ih h.2 ha' hb'

/-- A cell belongs to one block only. -/
theorem block_unique (h : Tiled start size base l top) (ha : a ∈ l) (hb : b ∈ l) {i j : Nat}
    (hi : i < size a) (hj : j < size b) (heq : start a + i = start b + j) : a = b := by
  by_contra hne
  rcases h.disjoint ha hb hne with hab | hba <;> omega

/-- Blocks that are not empty are met once. -/
theorem nodup (h : Tiled start size base l top) (hpos : ∀ a ∈ l, 0 < size a) : l.Nodup := by
  induction l generalizing base with
  | nil => exact List.nodup_nil
  | cons a l ih =>
    simp only [List.forall_mem_cons] at hpos
    refine List.nodup_cons.mpr ⟨fun ha => ?_, ih h.2 hpos.2⟩
    have hbounds := h.2.mem_bounds ha
    have := h.1
    omega

end Tiled

/-- Distinct members of a list take no more room than the whole list. -/
theorem sum_map_le_of_subset {α : Type*} {l l' : List α} (size : α → Nat) (hl : l.Nodup)
    (hsub : ∀ a ∈ l, a ∈ l') : (l.map size).sum ≤ (l'.map size).sum := by
  obtain ⟨l'', hperm, hsublist⟩ := List.Nodup.subperm hl hsub
  calc (l.map size).sum = (l''.map size).sum := (hperm.map size).sum_eq.symm
    _ ≤ (l'.map size).sum := (hsublist.map size).sum_le_sum fun _ _ => Nat.zero_le _

end JxCore
