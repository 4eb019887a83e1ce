import Mathlib.Data.List.Basic

/-!
# Stop and wait

A sender numbers what it sends, modulo `m`, and repeats each package until it is acknowledged. The
receiver takes what has the number that it waits for. It gets each package once as long as at least one
copy of each arrives, since a copy of the last package does not have the next number.
-/

namespace JxCore.Lib.StopAndWait

variable {α β : Type}

/-- `heard` has one copy or more of each package of `sent`, in order. -/
inductive Repeats : List α → List α → Prop where
  | nil : Repeats [] []
  | next {p : α} {ps heard : List α} : Repeats ps heard → Repeats (p :: ps) (p :: heard)
  | again {p : α} {ps heard : List α} : Repeats (p :: ps) heard → Repeats (p :: ps) (p :: heard)

/-- The packages have consecutive numbers from `n` on, and contain `data`. -/
inductive Numbered (decode : α → Option (Nat × β)) (m : Nat) : Nat → List α → List β → Prop where
  | nil {n : Nat} : Numbered decode m n [] []
  | cons {n : Nat} {p : α} {d : β} {ps : List α} {ds : List β} :
      decode p = some (n % m, d) → Numbered decode m (n + 1) ps ds → Numbered decode m n (p :: ps) (d :: ds)

/-- The receiver, which waits for the number `n`. -/
def receive (decode : α → Option (Nat × β)) (m : Nat) : Nat → List α → List β
  | _, [] => []
  | n, p :: heard =>
    match decode p with
    | some (k, d) => if k = n % m then d :: receive decode m (n + 1) heard else receive decode m n heard
    | none => receive decode m n heard

section

variable {decode : α → Option (Nat × β)} {m n : Nat} {p : α} {d : β} {ps qs heard heard' : List α}
  {ds es : List β}

theorem Repeats.append (h : Repeats ps heard) (h' : Repeats qs heard') :
    Repeats (ps ++ qs) (heard ++ heard') := by
  induction h with
  | nil => exact h'
  | next _ ih => exact ih.next
  | again _ ih => exact ih.again

theorem repeats_replicate (k : Nat) : Repeats [p] (p :: List.replicate k p) := by
  induction k with
  | zero => exact .next .nil
  | succ k ih => exact ih.again

theorem Numbered.append (h : Numbered decode m n ps ds) (h' : Numbered decode m (n + ps.length) qs es) :
    Numbered decode m n (ps ++ qs) (ds ++ es) := by
  induction h with
  | nil => exact h'
  | cons hp _ ih =>
    refine .cons hp (ih ?_)
    rwa [List.length_cons, Nat.add_comm _ 1, ← Nat.add_assoc] at h'

theorem receive_take (hp : decode p = some (n % m, d)) :
    receive decode m n (p :: heard) = d :: receive decode m (n + 1) heard := by
  rw [receive, hp]
  exact if_pos rfl

theorem succ_mod_ne (hm : 2 ≤ m) : n % m ≠ (n + 1) % m := by
  intro heq
  rcases Nat.lt_or_ge (n % m + 1) m with hlt | hge
  · rw [← Nat.mod_add_mod, Nat.mod_eq_of_lt hlt] at heq
    omega
  · have hlast : n % m + 1 = m := Nat.le_antisymm (Nat.mod_lt n (by omega)) hge
    rw [← Nat.mod_add_mod, hlast, Nat.mod_self] at heq
    omega

/-- A copy of what has been taken is not taken again. -/
theorem receive_skip (hm : 2 ≤ m) (hp : decode p = some (n % m, d)) :
    receive decode m (n + 1) (p :: heard) = receive decode m (n + 1) heard := by
  rw [receive, hp]
  exact if_neg (succ_mod_ne hm)

/-- Each package is received once, whatever copies arrive: this holds for a receiver that waits for the
first package, and for one that has taken it. -/
theorem receive_repeats_both (hm : 2 ≤ m) (h : Repeats ps heard) :
    (∀ n ds, Numbered decode m n ps ds → receive decode m n heard = ds) ∧
      ∀ n p qs d ds, ps = p :: qs → Numbered decode m n ps (d :: ds) →
        receive decode m (n + 1) heard = ds := by
  induction h with
  | nil =>
    refine ⟨fun n ds hn => ?_, nofun⟩
    cases hn
    rfl
  | next _ ih =>
    constructor
    · intro n ds hn
      cases hn with
      | cons hp hrest => rw [receive_take hp, ih.1 _ _ hrest]
    · intro n p qs d ds _ hn
      cases hn with
      | cons hp hrest => rw [receive_skip hm hp, ih.1 _ _ hrest]
  | again _ ih =>
    constructor
    · intro n ds hn
      cases hn with
      | cons hp hrest => rw [receive_take hp, ih.2 _ _ _ _ _ rfl (.cons hp hrest)]
    · intro n p qs d ds _ hn
      cases hn with
      | cons hp hrest => rw [receive_skip hm hp, ih.2 _ _ _ _ _ rfl (.cons hp hrest)]

theorem receive_repeats (hm : 2 ≤ m) (h : Repeats ps heard) (hn : Numbered decode m n ps ds) :
    receive decode m n heard = ds :=
  (receive_repeats_both hm h).1 n ds hn

end

end JxCore.Lib.StopAndWait
