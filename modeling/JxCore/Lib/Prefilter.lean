import Mathlib.Data.List.Basic

/-!
# Searching behind a filter

A table can be given a key that is made of all its names and is faster to test than the table is to
search. If no name of the table fails the test, then a search that asks the key first finds what the
search finds alone, whether it leaves out the tables that fail or only puts them off.
-/

namespace JxCore.Lib

variable {α β κ : Type*}

/-- Keys that names are added to and tested against. -/
structure Prefilter (α κ : Type*) where
  add : α → κ → κ
  test : α → κ → Bool
  test_add_self : ∀ a k, test a (add a k) = true
  test_add : ∀ a b k, test a k = true → test a (add b k) = true

namespace Prefilter

variable {F : Prefilter α κ} {a : α} {l : List α} {k : κ}

/-- The key after all names of a table. -/
def addAll (F : Prefilter α κ) (k : κ) (l : List α) : κ := l.foldl (fun k a => F.add a k) k

theorem test_addAll (h : F.test a k = true) : F.test a (F.addAll k l) = true := by
  induction l generalizing k with
  | nil => exact h
  | cons b l ih => exact ih (F.test_add a b k h)

/-- **No false negatives**: what was added passes, whatever was added before and after. -/
theorem test_addAll_of_mem (h : a ∈ l) : F.test a (F.addAll k l) = true := by
  induction l generalizing k with
  | nil => exact absurd h List.not_mem_nil
  | cons b l ih =>
    rcases List.mem_cons.mp h with rfl | h
    · exact test_addAll (k := F.add a k) (F.test_add_self a k)
    · exact ih h

end Prefilter

section Search

variable {p : α → Bool} {f : α → Option β} {l : List α}

/-- Every element with an answer passes. -/
def PassesAll (p : α → Bool) (f : α → Option β) (l : List α) : Prop :=
  ∀ x ∈ l, f x ≠ none → p x = true

/-- Leaving out the elements that fail. -/
theorem findSome?_if_eq (h : PassesAll p f l) :
    (l.findSome? fun x => if p x then f x else none) = l.findSome? f := by
  induction l with
  | nil => rfl
  | cons x l ih =>
    have hrest := ih fun y hy => h y (List.mem_cons_of_mem x hy)
    have hx : (if p x then f x else none) = f x := by
      by_cases hp : p x = true
      · exact if_pos hp
      · rw [if_neg hp]
        by_contra hne
        exact hp (h x List.mem_cons_self (Ne.symm hne))
    rw [List.findSome?_cons, List.findSome?_cons, hx, hrest]

/-- There is nothing to be found among them. -/
theorem findSome?_if_not_eq (h : PassesAll p f l) :
    (l.findSome? fun x => if ¬ p x then f x else none) = none := by
  rw [List.findSome?_eq_none_iff]
  intro x hx
  by_cases hp : p x = true
  · exact if_neg (not_not_intro hp)
  · rw [if_pos hp]
    by_contra hne
    exact hp (h x hx hne)

/-- Putting off the elements that fail. -/
theorem findSome?_or_eq (h : PassesAll p f l) :
    ((l.findSome? fun x => if p x then f x else none).or
      (l.findSome? fun x => if ¬ p x then f x else none)) = l.findSome? f := by
  rw [findSome?_if_eq h, findSome?_if_not_eq h, Option.or_none]

/-- If all elements have the same answer, it does not matter in which order they are asked. -/
theorem findSome?_or_of_const {r : Option β} (h : ∀ x ∈ l, f x = r) :
    ((l.findSome? fun x => if p x then f x else none).or
      (l.findSome? fun x => if ¬ p x then f x else none)) = l.findSome? f := by
  cases r with
  | none => exact findSome?_or_eq fun x hx hne => absurd (h x hx) hne
  | some b =>
    cases l with
    | nil => rfl
    | cons x l =>
      have hx := h x List.mem_cons_self
      simp only [List.findSome?_cons, hx]
      by_cases hp : p x = true
      · simp only [if_pos hp, Option.some_or]
      -- what the elements that pass have to say comes first, but it is the same
      · simp only [if_neg hp, if_pos hp]
        cases hfirst : l.findSome? fun y => if p y then f y else none with
        | none => rfl
        | some y =>
          obtain ⟨z, hz, hy⟩ := List.exists_of_findSome?_eq_some hfirst
          have hyb : y = b := by grind
          rw [hyb, Option.some_or]

end Search

end JxCore.Lib
