import Mathlib.Data.Set.Finite.Basic
import Mathlib.Data.Finite.Defs
import Mathlib.Logic.Function.Iterate

/-!
# Walking from cell to cell

A record in memory says where the next one is, and a loop goes from one to the next until it is at a
record of a certain kind. `Walk` lists the cells that are passed. Among finitely many cells the loop
ends exactly if it never comes back to a cell it has passed.
-/

namespace JxCore.Lib

variable {α : Type} (next : α → α) (stop : α → Prop)

/-- The cells `l` are passed from `a` on, and behind them the loop ends. -/
inductive Walk : α → List α → Prop
  | nil {a : α} (h : stop a) : Walk a []
  | cons {a : α} {l : List α} (h : ¬ stop a) (hl : Walk (next a) l) : Walk a (a :: l)

/-- No cell leads back to an earlier one. -/
def NoReturn (a : α) : Prop :=
  ∀ i j, i < j → (∀ k ≤ j, ¬ stop (next^[k] a)) → next^[i] a ≠ next^[j] a

variable {next stop} {a : α}

theorem Walk.unique {l l' : List α} (h : Walk next stop a l) (h' : Walk next stop a l') : l = l' := by
  induction h generalizing l' with
  | nil hstop =>
    cases h' with
    | nil => rfl
    | cons hgo _ => exact absurd hstop hgo
  | cons hgo _ ih =>
    cases h' with
    | nil hstop => exact absurd hstop hgo
    | cons _ hl => rw [ih hl]

theorem exists_walk_iff : (∃ l, Walk next stop a l) ↔ ∃ n, stop (next^[n] a) := by
  constructor
  · rintro ⟨l, h⟩
    induction h with
    | nil hstop => exact ⟨0, hstop⟩
    | cons _ _ ih =>
      obtain ⟨n, hn⟩ := ih
      exact ⟨n + 1, hn⟩
  · rintro ⟨n, hn⟩
    induction n generalizing a with
    | zero => exact ⟨[], .nil hn⟩
    | succ n ih =>
      by_cases hstop : stop a
      · exact ⟨[], .nil hstop⟩
      · obtain ⟨l, hl⟩ := ih hn
        exact ⟨a :: l, .cons hstop hl⟩

/-- A walk that has come back goes round for ever. -/
theorem not_stop_of_return {i j : Nat} (hij : i < j) (hgo : ∀ k ≤ j, ¬ stop (next^[k] a))
    (heq : next^[i] a = next^[j] a) (k : Nat) : ¬ stop (next^[k] a) := by
  induction k using Nat.strongRecOn with
  | ind k ih =>
    by_cases hk : k ≤ j
    · exact hgo k hk
    · have hsplit : k = (k - j) + j := by omega
      have hback : next^[k] a = next^[(k - j) + i] a := by
        rw [hsplit, Function.iterate_add_apply, ← heq, ← Function.iterate_add_apply,
          Nat.add_sub_cancel]
      rw [hback]
      exact ih ((k - j) + i) (by omega)

theorem exists_walk_iff_noReturn (hfin : (Set.range fun n => next^[n] a).Finite) :
    (∃ l, Walk next stop a l) ↔ NoReturn next stop a := by
  rw [exists_walk_iff]
  constructor
  · rintro ⟨n, hn⟩ i j hij hgo heq
    exact not_stop_of_return hij hgo heq n hn
  · intro h
    by_contra hnone
    have hgo : ∀ n, ¬ stop (next^[n] a) := fun n hn => hnone ⟨n, hn⟩
    have hinj : Function.Injective fun n => next^[n] a := by
      intro i j heq
      rcases Nat.lt_trichotomy i j with hlt | heq' | hlt
      · exact absurd heq (h i j hlt fun k _ => hgo k)
      · exact heq'
      · exact absurd heq.symm (h j i hlt fun k _ => hgo k)
    exact Set.infinite_range_of_injective hinj hfin

end JxCore.Lib
