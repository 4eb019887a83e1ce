import Mathlib.Order.Defs.Unbundled
import Mathlib.Data.List.Perm.Basic

/-!
# Looking for a least element one by one

A search that goes through a list once and compares each element with the best one so far finds a
least element of a preorder only if every prefix of the list has one: it gives up at the first element
that cannot be compared with the candidate, even if a later one lies below both.
-/

namespace JxCore.Lib

variable {α : Type*}

/-- `m` is in the list and below everything there. -/
def Least (r : α → α → Prop) (l : List α) (m : α) : Prop := m ∈ l ∧ ∀ x ∈ l, r m x

/-- Every prefix has a least element, except the empty one. -/
def LeastThroughout (r : α → α → Prop) (l : List α) : Prop :=
  ∀ l₁ l₂, l = l₁ ++ l₂ → l₁ ≠ [] → ∃ m, Least r l₁ m

section Least

variable {r : α → α → Prop} {l l' : List α} {i j m m' : α}

theorem least_singleton (hrefl : r i i) : Least r [i] i :=
  ⟨List.mem_singleton_self i, fun x hx => by rw [List.mem_singleton.mp hx]; exact hrefl⟩

theorem not_least_nil : ¬ Least r [] m := fun h => List.not_mem_nil h.1

theorem Least.perm (h : Least r l m) (hperm : l.Perm l') : Least r l' m :=
  ⟨hperm.mem_iff.mp h.1, fun x hx => h.2 x (hperm.mem_iff.mpr hx)⟩

theorem Least.unique (h : Least r l m) (h' : Least r l m')
    (hanti : ∀ x ∈ l, ∀ y ∈ l, r x y → r y x → x = y) : m = m' :=
  hanti m h.1 m' h'.1 (h.2 m' h'.1) (h'.2 m h.1)

/-- The candidate stays. -/
theorem Least.append_above (h : Least r l j) (hij : r j i) : Least r (l ++ [i]) j := by
  refine ⟨List.mem_append_left _ h.1, fun x hx => ?_⟩
  rcases List.mem_append.mp hx with hx | hx
  · exact h.2 x hx
  · rw [List.mem_singleton.mp hx]
    exact hij

/-- The new element becomes the candidate. -/
theorem Least.append_below [IsPreorder α r] (h : Least r l j) (hij : r i j) :
    Least r (l ++ [i]) i := by
  refine ⟨List.mem_append_right _ (List.mem_singleton_self i), fun x hx => ?_⟩
  rcases List.mem_append.mp hx with hx | hx
  · exact IsTrans.trans _ _ _ hij (h.2 x hx)
  · rw [List.mem_singleton.mp hx]
    exact refl i

/-- There is none if the new element and the candidate cannot be compared. -/
theorem Least.not_append [IsPreorder α r] (h : Least r l j) (hij : ¬ r i j) (hji : ¬ r j i) :
    ¬ Least r (l ++ [i]) m := by
  rintro ⟨hmem, hall⟩
  have hi := hall i (List.mem_append_right _ (List.mem_singleton_self i))
  rcases List.mem_append.mp hmem with hm | hm
  · exact hji (IsTrans.trans _ _ _ (h.2 m hm) hi)
  · rw [List.mem_singleton.mp hm] at hall
    exact hij (hall j (List.mem_append_left _ h.1))

end Least

end JxCore.Lib
