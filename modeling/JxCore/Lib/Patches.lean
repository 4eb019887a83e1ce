import Mathlib.Data.BitVec
import Mathlib.Data.List.Forall2

/-!
# Patches in a block of bytes

A patch puts a few bytes at an offset. What a list of patches leaves at one place depends on those
patches only that cover the place, and from the last of these on not on what was there before.
-/

namespace JxCore.Lib

/-- Bytes that go to an offset. -/
structure Patch where
  offset : BitVec 32
  bytes : List (BitVec 8)

namespace Patch

def Covers (p : Patch) (i : BitVec 32) : Prop := (i - p.offset).toNat < p.bytes.length

instance (p : Patch) (i : BitVec 32) : Decidable (p.Covers i) :=
  inferInstanceAs (Decidable (_ < _))

/-- The byte at `i` after the patch, where `b` was before. -/
def byteAt (p : Patch) (i : BitVec 32) (b : BitVec 8) : BitVec 8 :=
  (p.bytes[(i - p.offset).toNat]?).getD b

/-- The byte at `i` after all patches. -/
def atAll (ps : List Patch) (i : BitVec 32) (b : BitVec 8) : BitVec 8 :=
  ps.foldl (fun b p => p.byteAt i b) b

/-- The memory after the patches of the block that begins at `base`. -/
def store (base : BitVec 32) (ps : List Patch) (mem : BitVec 32 → BitVec 8) :
    BitVec 32 → BitVec 8 := fun a => atAll ps (a - base) (mem a)

variable {p q : Patch} {ps qs : List Patch} {i : BitVec 32} {b b' : BitVec 8}

theorem byteAt_of_not_covers (h : ¬ p.Covers i) : p.byteAt i b = b := by
  have hnone : p.bytes[(i - p.offset).toNat]? = none := List.getElem?_eq_none (Nat.le_of_not_lt h)
  rw [Patch.byteAt, hnone, Option.getD_none]

theorem byteAt_of_covers (h : p.Covers i) : p.byteAt i b = p.byteAt i b' := by
  have hsome := List.getElem?_eq_getElem h
  rw [Patch.byteAt, Patch.byteAt, hsome, Option.getD_some, Option.getD_some]

@[simp] theorem atAll_nil : atAll [] i b = b := rfl

@[simp] theorem atAll_cons : atAll (p :: ps) i b = atAll ps i (p.byteAt i b) := rfl

/-- A second run of patches forgets what the first one found. -/
theorem atAll_of_covers (h : ∃ p ∈ ps, p.Covers i) : atAll ps i b = atAll ps i b' := by
  induction ps generalizing b b' with
  | nil =>
    obtain ⟨p, hp, -⟩ := h
    cases hp
  | cons p ps ih =>
    rw [atAll_cons, atAll_cons]
    by_cases hrest : ∃ q ∈ ps, q.Covers i
    · exact ih hrest
    · obtain ⟨q, hq, hcovers⟩ := h
      rcases List.mem_cons.mp hq with rfl | hq
      · rw [byteAt_of_covers hcovers]
      · exact absurd ⟨q, hq, hcovers⟩ hrest

/-- A patch, if there is one, that does not cover the place. -/
def Misses (o : Option Patch) (i : BitVec 32) : Prop := ∀ p ∈ o, ¬ p.Covers i

theorem misses_none (i : BitVec 32) : Misses none i := nofun

/-- Only the patches that cover the place have to be the same. -/
theorem atAll_congr {α β : Type} {l : List α} {m : List β} {f : α → Option Patch}
    {g : β → Option Patch}
    (h : List.Forall₂ (fun x y => f x = g y ∨ Misses (f x) i ∧ Misses (g y) i) l m) :
    atAll (l.filterMap f) i b = atAll (m.filterMap g) i b := by
  induction h generalizing b with
  | nil => rfl
  | @cons x y l m hxy _ ih =>
    have hfirst : (f x).elim b (fun p => p.byteAt i b) = (g y).elim b fun p => p.byteAt i b := by
      rcases hxy with heq | ⟨hf, hg⟩
      · rw [heq]
      · have helim : ∀ o, Misses o i → o.elim b (fun p => p.byteAt i b) = b := by
          intro o ho
          cases o with
          | none => rfl
          | some p => exact byteAt_of_not_covers (ho p rfl)
        rw [helim _ hf, helim _ hg]
    have hcons : ∀ {γ : Type} (k : γ → Option Patch) (z : γ) (n : List γ),
        atAll ((z :: n).filterMap k) i b =
          atAll (n.filterMap k) i ((k z).elim b fun p => p.byteAt i b) := by
      intro γ k z n
      cases hz : k z with
      | none => rw [List.filterMap_cons_none hz, Option.elim_none]
      | some p => rw [List.filterMap_cons_some hz, atAll_cons, Option.elim_some]
    rw [hcons, hcons, hfirst, ih]

end Patch

end JxCore.Lib
