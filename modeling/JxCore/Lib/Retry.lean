import Mathlib.Data.Nat.Basic
import Mathlib.Logic.Relation
import Mathlib.Order.Basic

/-!
# Attempts that are repeated until one goes through

A routine whose attempts may be spoilt from outside starts again after each spoilt one, and nothing
bounds how often. `retry` is given a number of attempts and ends with the error `out` when they are
used up. If a clock moves on whenever an attempt is spoilt, then the routine ends exactly if the clock
stays bounded, whatever else the attempts do (`ends_iff_bounded`); that holds for attempts which repeat
attempts themselves, too.
-/

namespace JxCore.Lib.Retry

open EStateM (Result)

universe u

variable {ε σ α β : Type u}

/-- The state in which a routine ends, with a value or with an error. -/
def final : Result ε σ α → σ
  | .ok _ s => s
  | .error _ s => s

@[simp] theorem final_ok (a : α) (s : σ) : final (.ok a s : Result ε σ α) = s := rfl

@[simp] theorem final_error (e : ε) (s : σ) : final (.error e s : Result ε σ α) = s := rfl

/-- At most so many attempts; an attempt that gives `none` has been spoilt. -/
def retry (out : ε) (attempt : EStateM ε σ (Option α)) : Nat → EStateM ε σ α
  | 0 => throw out
  | fuel + 1 => do
    match ← attempt with
    | some a => return a
    | none => retry out attempt fuel

/-! ## One routine after the other -/

section Bind

variable {x : EStateM ε σ α} {f : α → EStateM ε σ β} {s s' : σ} {a : α} {b : β} {e : ε}

theorem bind_of_ok (h : x s = .ok a s') : (x >>= f) s = f a s' := by
  simp only [bind, EStateM.bind, h]

theorem bind_of_error (h : x s = .error e s') : (x >>= f) s = .error e s' := by
  simp only [bind, EStateM.bind, h]

/-- What comes back has gone through both parts. -/
theorem bind_ok (h : (x >>= f) s = .ok b s') : ∃ a t, x s = .ok a t ∧ f a t = .ok b s' := by
  cases hx : x s with
  | ok a t => exact ⟨a, t, rfl, (bind_of_ok hx).symm.trans h⟩
  | error e t => cases (bind_of_error hx).symm.trans h

theorem bind_error (h : (x >>= f) s = .error e s') :
    x s = .error e s' ∨ ∃ a t, x s = .ok a t ∧ f a t = .error e s' := by
  cases hx : x s with
  | ok a t => exact Or.inr ⟨a, t, rfl, (bind_of_ok hx).symm.trans h⟩
  | error e' t =>
    obtain ⟨rfl, rfl⟩ := Result.error.inj ((bind_of_error hx).symm.trans h)
    exact Or.inl rfl

/-- The last attempt has gone through, and those before it have been spoilt one after the other. -/
theorem retry_ok {out : ε} {attempt : EStateM ε σ (Option α)} {fuel : Nat}
    (h : retry out attempt fuel s = .ok a s') :
    ∃ t, Relation.ReflTransGen (fun s t => attempt s = .ok none t) s t ∧ attempt t = .ok (some a) s' := by
  induction fuel generalizing s with
  | zero => cases h
  | succ fuel ih =>
    obtain ⟨r, t, hrun, h⟩ := bind_ok h
    cases r with
    | some a' =>
      obtain ⟨rfl, rfl⟩ := Result.ok.inj h
      exact ⟨s, .refl, hrun⟩
    | none =>
      obtain ⟨u, hspoilt, hlast⟩ := ih h
      exact ⟨u, .head hrun hspoilt, hlast⟩

theorem retry_error {out : ε} {attempt : EStateM ε σ (Option α)} {fuel : Nat}
    (h : retry out attempt fuel s = .error e s') : e = out ∨ ∃ t, attempt t = .error e s' := by
  induction fuel generalizing s with
  | zero => exact Or.inl (Result.error.inj h).1.symm
  | succ fuel ih =>
    rcases bind_error h with hrun | ⟨r, t, -, h⟩
    · exact Or.inr ⟨s, hrun⟩
    · cases r with
      | some a' => cases h
      | none => exact ih h

end Bind

/-! ## What every routine does to the state -/

section Keeps

variable {R : σ → σ → Prop} {x : EStateM ε σ α} {f : α → EStateM ε σ β}

/-- The state at the end is related to that at the beginning. -/
def Keeps (R : σ → σ → Prop) (x : EStateM ε σ α) : Prop := ∀ s, R s (final (x s))

theorem Keeps.ok {s s' : σ} {a : α} (h : Keeps R x) (hrun : x s = .ok a s') : R s s' := by
  have hs := h s
  rwa [hrun] at hs

theorem Keeps.error {s s' : σ} {e : ε} (h : Keeps R x) (hrun : x s = .error e s') : R s s' := by
  have hs := h s
  rwa [hrun] at hs

theorem keeps_pure (hrefl : ∀ s, R s s) (a : α) : Keeps R (pure a : EStateM ε σ α) := hrefl

theorem keeps_throw (hrefl : ∀ s, R s s) (e : ε) : Keeps R (throw e : EStateM ε σ α) := hrefl

theorem Keeps.bind (htrans : ∀ {s t u}, R s t → R t u → R s u) (hx : Keeps R x)
    (hf : ∀ a, Keeps R (f a)) : Keeps R (x >>= f) := by
  intro s
  cases hrun : x s with
  | ok a t =>
    rw [bind_of_ok hrun]
    exact htrans (hx.ok hrun) (hf a t)
  | error e t =>
    rw [bind_of_error hrun]
    exact hx.error hrun

theorem Keeps.retry (hrefl : ∀ s, R s s) (htrans : ∀ {s t u}, R s t → R t u → R s u) {out : ε}
    {attempt : EStateM ε σ (Option α)} (h : Keeps R attempt) (fuel : Nat) :
    Keeps R (retry out attempt fuel) := by
  induction fuel with
  | zero => exact keeps_throw hrefl out
  | succ fuel ih =>
    refine h.bind htrans fun r => ?_
    cases r with
    | some a => exact keeps_pure hrefl a
    | none => exact ih

end Keeps

/-! ## More attempts -/

section Refines

variable {out : ε} {x y : EStateM ε σ α} {f g : α → EStateM ε σ β}

/-- `y` does what `x` does, unless `x` has used up its attempts. -/
def Refines (out : ε) (x y : EStateM ε σ α) : Prop := ∀ s, x s = y s ∨ ∃ s', x s = .error out s'

theorem Refines.refl (out : ε) (x : EStateM ε σ α) : Refines out x x := fun _ => Or.inl rfl

theorem Refines.bind (hx : Refines out x y) (hf : ∀ a, Refines out (f a) (g a)) :
    Refines out (x >>= f) (y >>= g) := by
  intro s
  rcases hx s with heq | ⟨s', hout⟩
  · cases hy : y s with
    | ok a t =>
      rw [bind_of_ok (heq.trans hy), bind_of_ok hy]
      exact hf a t
    | error e t =>
      rw [bind_of_error (heq.trans hy), bind_of_error hy]
      exact Or.inl rfl
  · exact Or.inr ⟨s', bind_of_error hout⟩

theorem Refines.retry {attempt attempt' : EStateM ε σ (Option α)} (h : Refines out attempt attempt')
    {m n : Nat} (hle : m ≤ n) : Refines out (retry out attempt m) (retry out attempt' n) := by
  induction m generalizing n with
  | zero => exact fun s => Or.inr ⟨s, rfl⟩
  | succ m ih =>
    obtain ⟨n, rfl⟩ := Nat.exists_eq_succ_of_ne_zero (Nat.ne_zero_of_lt hle)
    refine h.bind fun r => ?_
    cases r with
    | some a => exact Refines.refl out _
    | none => exact ih (Nat.le_of_succ_le_succ hle)

end Refines

/-! ## The clock -/

section Spends

variable {out : ε} {clock : σ → Nat} {fuel : Nat} {x : EStateM ε σ α} {f : α → EStateM ε σ β}

/-- The clock does not go back. -/
def Runs (clock : σ → Nat) (x : EStateM ε σ α) : Prop := Keeps (fun s s' => clock s ≤ clock s') x

/-- Where the attempts are used up, the clock has moved on as often. -/
def Spends (out : ε) (clock : σ → Nat) (fuel : Nat) (x : EStateM ε σ α) : Prop :=
  ∀ s s', x s = .error out s' → clock s + fuel ≤ clock s'

theorem spends_of_ne (h : ∀ s s', x s ≠ .error out s') : Spends out clock fuel x :=
  fun s s' hrun => absurd hrun (h s s')

theorem Spends.bind (hx : Spends out clock fuel x) (hkeeps : Runs clock x)
    (hf : ∀ a, Spends out clock fuel (f a)) : Spends out clock fuel (x >>= f) := by
  intro s s' h
  rcases bind_error h with hout | ⟨a, t, hok, hout⟩
  · exact hx s s' hout
  · have hle := hkeeps.ok hok
    have hspent := hf a t s' hout
    omega

/-- Each spoilt attempt is paid for. -/
theorem Spends.retry {attempt : EStateM ε σ (Option α)} (h : Spends out clock fuel attempt)
    (hspoilt : ∀ s s', attempt s = .ok none s' → clock s < clock s') :
    Spends out clock fuel (retry out attempt fuel) := by
  suffices ∀ n ≤ fuel, Spends out clock n (Retry.retry out attempt n) from this fuel le_rfl
  intro n hn
  induction n with
  | zero =>
    intro s s' hrun
    obtain rfl : s = s' := (Result.error.inj hrun).2
    exact le_rfl
  | succ n ih =>
    intro s s' hrun
    rcases bind_error hrun with hout | ⟨r, t, hok, hout⟩
    · have hspent := h s s' hout
      omega
    · cases r with
      | some a => cases hout
      | none =>
        have hmoved := hspoilt s t hok
        have hspent := ih (Nat.le_of_succ_le hn) t s' hout
        omega

end Spends

/-! ## When the attempts come to an end -/

section Ends

variable {out : ε} {clock : σ → Nat} {run : Nat → EStateM ε σ α} {s : σ}

/-- Enough attempts are enough. -/
def Ends (out : ε) (run : Nat → EStateM ε σ α) (s : σ) : Prop :=
  ∃ n, ∀ fuel ≥ n, ∀ s', run fuel s ≠ .error out s'

/-- However many attempts are made, the clock does not get beyond `b`. -/
def BoundedBy (clock : σ → Nat) (run : Nat → EStateM ε σ α) (s : σ) (b : Nat) : Prop :=
  ∀ fuel, clock (final (run fuel s)) ≤ b

theorem ends_of_bounded (hspends : ∀ fuel, Spends out clock fuel (run fuel)) {b : Nat}
    (h : BoundedBy clock run s b) : Ends out run s := by
  refine ⟨b + 1, fun fuel hfuel s' hout => ?_⟩
  have hspent := hspends fuel s s' hout
  have hle := h fuel
  rw [hout, final_error] at hle
  omega

/-- From some number of attempts on, more of them change nothing. -/
theorem eq_of_ends (hrefines : ∀ {m n}, m ≤ n → Refines out (run m) (run n)) {m n : Nat}
    (hm : ∀ s', run m s ≠ .error out s') (hle : m ≤ n) : run n s = run m s := by
  rcases hrefines hle s with heq | ⟨s', hout⟩
  · exact heq.symm
  · exact absurd hout (hm s')

theorem bounded_of_ends (hrefines : ∀ {m n}, m ≤ n → Refines out (run m) (run n))
    (h : Ends out run s) : ∃ b, BoundedBy clock run s b := by
  obtain ⟨n, hn⟩ := h
  -- below `n` there are finitely many values, and from `n` on there is one
  suffices ∀ k, ∃ b, ∀ fuel < k, clock (final (run fuel s)) ≤ b by
    obtain ⟨b, hb⟩ := this (n + 1)
    refine ⟨b, fun fuel => ?_⟩
    by_cases hlt : fuel < n
    · exact hb fuel (Nat.lt_succ_of_lt hlt)
    · rw [eq_of_ends hrefines (hn n le_rfl) (Nat.le_of_not_lt hlt)]
      exact hb n (Nat.lt_succ_self n)
  intro k
  induction k with
  | zero => exact ⟨0, fun _ hlt => absurd hlt (Nat.not_lt_zero _)⟩
  | succ k ih =>
    obtain ⟨b, hb⟩ := ih
    refine ⟨max b (clock (final (run k s))), fun fuel hlt => ?_⟩
    rcases Nat.lt_succ_iff_lt_or_eq.mp hlt with hbelow | rfl
    · exact (hb fuel hbelow).trans (le_max_left _ _)
    · exact le_max_right _ _

theorem ends_iff_bounded (hspends : ∀ fuel, Spends out clock fuel (run fuel))
    (hrefines : ∀ {m n}, m ≤ n → Refines out (run m) (run n)) :
    Ends out run s ↔ ∃ b, BoundedBy clock run s b :=
  ⟨bounded_of_ends hrefines, fun ⟨_, hb⟩ => ends_of_bounded hspends hb⟩

end Ends

end JxCore.Lib.Retry
