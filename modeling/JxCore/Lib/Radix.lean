import Mathlib.Algebra.Order.Ring.Nat
import Mathlib.Data.Nat.ModEq
import Mathlib.Tactic.Linarith
import Mathlib.Tactic.Ring

/-!
# Numbers as strings of digits

A string of digits lies in an array, the most significant digit first; `value` is the number it stands
for. The second half is the arithmetic of long division: how a digit of the quotient is found from the
first digits of the dividend and the divisor, and how the quotient grows by a digit.
-/

namespace JxCore.Lib.Radix

variable {B : Nat}

/-! ## Values -/

/-- The number whose digits are the `n` entries of `p` from `a` on. -/
def value (B : Nat) (p : Nat → Nat) (a : Nat) : Nat → Nat
  | 0 => 0
  | n + 1 => value B p a n * B + p (a + n)

/-- The entries are digits. -/
def Digits (B : Nat) (p : Nat → Nat) (a n : Nat) : Prop := ∀ i < n, p (a + i) < B

section Value

variable {p p' : Nat → Nat} {a n : Nat}

theorem Digits.tail (h : Digits B p a (n + 1)) : Digits B p (a + 1) n := fun i hi => by
  rw [Nat.add_assoc, Nat.add_comm 1]
  exact h (i + 1) (Nat.succ_lt_succ hi)

theorem value_succ (B : Nat) (p : Nat → Nat) (a n : Nat) :
    value B p a (n + 1) = value B p a n * B + p (a + n) := rfl

theorem value_congr (h : ∀ i < n, p (a + i) = p' (a + i)) : value B p a n = value B p' a n := by
  induction n with
  | zero => rfl
  | succ n ih =>
    rw [value_succ, value_succ, ih fun i hi => h i (Nat.lt_succ_of_lt hi), h n (Nat.lt_succ_self n)]

theorem value_shift (k : Nat) : value B (fun i => p (k + i)) a n = value B p (k + a) n := by
  induction n with
  | zero => rfl
  | succ n ih => rw [value_succ, value_succ, ih, Nat.add_assoc]

theorem value_zeros (h : ∀ i < n, p (a + i) = 0) : value B p a n = 0 := by
  induction n with
  | zero => rfl
  | succ n ih =>
    rw [value_succ, ih fun i hi => h i (Nat.lt_succ_of_lt hi), h n (Nat.lt_succ_self n), Nat.zero_mul]

theorem value_append (B : Nat) (p : Nat → Nat) (a m n : Nat) :
    value B p a (m + n) = value B p a m * B ^ n + value B p (a + m) n := by
  induction n with
  | zero => simp [value]
  | succ n ih =>
    rw [← Nat.add_assoc, value_succ, ih, value_succ, Nat.add_assoc a m n]
    ring

/-- Zeros in front do not count. -/
theorem value_skip (B : Nat) {p : Nat → Nat} {a m : Nat} (n : Nat) (h : ∀ i < m, p (a + i) = 0) :
    value B p a (m + n) = value B p (a + m) n := by
  rw [value_append, value_zeros h, Nat.zero_mul, Nat.zero_add]

/-- The first digit counts most. -/
theorem value_cons (B : Nat) (p : Nat → Nat) (a n : Nat) :
    value B p a (n + 1) = p a * B ^ n + value B p (a + 1) n := by
  rw [Nat.add_comm n 1, value_append]
  simp [value]

theorem value_lt (h : Digits B p a n) : value B p a n < B ^ n := by
  induction n with
  | zero => simp [value]
  | succ n ih =>
    have hinit := ih fun i hi => h i (Nat.lt_succ_of_lt hi)
    have hlast := h n (Nat.lt_succ_self n)
    calc value B p a n * B + p (a + n)
        < value B p a n * B + B := by omega
      _ = (value B p a n + 1) * B := by ring
      _ ≤ B ^ n * B := Nat.mul_le_mul_right B hinit
      _ = B ^ (n + 1) := (pow_succ B n).symm

theorem le_value (h : p a ≠ 0) : B ^ n ≤ value B p a (n + 1) := by
  rw [value_cons]
  exact Nat.le_add_right_of_le (Nat.le_mul_of_pos_left _ (Nat.pos_of_ne_zero h))

/-- A number that needs fewer digits starts with zeros. -/
theorem eq_zero_of_value_lt (h : value B p a (n + 1) < B ^ n) : p a = 0 := by
  by_contra hne
  exact absurd h (Nat.not_lt.mpr (le_value hne))

end Value

/-! ## Shifts by less than a digit -/

section Shift

variable {p p' : Nat → Nat} {a n s s' : Nat}

/-- Every digit is multiplied and takes what the digit behind it gives up; the last one takes `c`. -/
theorem value_mul (c : Nat → Nat)
    (h : ∀ i < n, p' (a + i) + c i * B = p (a + i) * s + c (i + 1)) :
    value B p' a n + c 0 * B ^ n = value B p a n * s + c n := by
  induction n with
  | zero => simp [value]
  | succ n ih =>
    have hinit := ih fun i hi => h i (Nat.lt_succ_of_lt hi)
    have hlast := h n (Nat.lt_succ_self n)
    calc value B p' a (n + 1) + c 0 * B ^ (n + 1)
        = (value B p' a n + c 0 * B ^ n) * B + p' (a + n) := by rw [value_succ]; ring
      _ = (value B p a n * s) * B + (p' (a + n) + c n * B) := by rw [hinit]; ring
      _ = (value B p a n * B + p (a + n)) * s + c (n + 1) := by rw [hlast]; ring
      _ = value B p a (n + 1) * s + c (n + 1) := by rw [value_succ]

/-- Every digit is divided and takes the rest of the digit before it. -/
theorem value_div (hs : 0 < s) (hB : B = s * s') (hfirst : p a % s = 0)
    (h : ∀ i < n, p' (a + 1 + i) = p (a + 1 + i) / s + p (a + i) % s * s') :
    value B p' (a + 1) n = value B p (a + 1) n / s ∧
      value B p (a + 1) n % s = p (a + n) % s := by
  subst hB
  induction n with
  | zero => simp [value, hfirst]
  | succ n ih =>
    obtain ⟨hdiv, hmod⟩ := ih fun i hi => h i (Nat.lt_succ_of_lt hi)
    have hlast := h n (Nat.lt_succ_self n)
    have hvalue : value (s * s') p (a + 1) (n + 1) =
        s * (value (s * s') p (a + 1) n * s') + p (a + 1 + n) := by
      rw [value_succ]
      ring
    constructor
    · rw [hvalue, Nat.mul_add_div hs, value_succ, hdiv, hlast, ← hmod]
      set x := value (s * s') p (a + 1) n
      have hsplit := Nat.div_add_mod x s
      calc x / s * (s * s') + (p (a + 1 + n) / s + x % s * s')
          = (s * (x / s) + x % s) * s' + p (a + 1 + n) / s := by ring
        _ = x * s' + p (a + 1 + n) / s := by rw [hsplit]
    · rw [hvalue, Nat.mul_add_mod, Nat.add_right_comm, Nat.add_assoc]

end Shift

/-! ## One digit of a quotient -/

section Estimate

variable {U V P top v₁ v₂ u₂ qhat rhat : Nat}

/-- The dividend `U` starts with the two digits of `top` and `u₂`, the divisor `V` with `v₁` and `v₂`; `P`
is the weight of the third digit of `U`. -/
structure Heads (B U V P top v₁ v₂ u₂ : Nat) : Prop where
  weight : 0 < P
  divisor_pos : 0 < v₁
  second : v₂ < B
  third : u₂ < B
  divisor_ge : (v₁ * B + v₂) * P ≤ V
  divisor_lt : V < (v₁ * B + v₂ + 1) * P
  dividend_ge : (top * B + u₂) * P ≤ U
  dividend_lt : U < (top * B + u₂ + 1) * P

/-- The first digits, as they stand in two arrays. -/
theorem Heads.of_digits {u v : Nat → Nat} {w k : Nat} (hu : Digits B u w (k + 3))
    (hv : Digits B v 1 (k + 2)) (hfirst : v 1 ≠ 0) :
    Heads B (value B u w (k + 3)) (value B v 1 (k + 2)) (B ^ k) (u w * B + u (w + 1)) (v 1) (v 2)
      (u (w + 2)) := by
  have hB : 0 < B := Nat.lt_of_le_of_lt (Nat.zero_le _) (hu 0 (by omega))
  have hU : value B u w (k + 3) =
      ((u w * B + u (w + 1)) * B + u (w + 2)) * B ^ k + value B u (w + 3) k := by
    rw [value_cons, value_cons, value_cons]
    ring
  have hV : value B v 1 (k + 2) = (v 1 * B + v 2) * B ^ k + value B v 3 k := by
    rw [value_cons, value_cons]
    ring
  have hUrest : value B u (w + 3) k < B ^ k := value_lt fun i hi => by
    rw [Nat.add_assoc, Nat.add_comm 3]
    exact hu (i + 3) (by omega)
  have hVrest : value B v 3 k < B ^ k := value_lt fun i hi => by
    rw [show 3 + i = 1 + (i + 2) by omega]
    exact hv (i + 2) (by omega)
  refine ⟨Nat.pow_pos hB, Nat.pos_of_ne_zero hfirst, hv 1 (by omega), hu 2 (by omega), ?_, ?_, ?_, ?_⟩
  · omega
  · rw [Nat.add_one_mul]
    omega
  · omega
  · rw [Nat.add_one_mul]
    omega

/-- Dividing by the first digit alone is never too little. -/
theorem Heads.div_le (h : Heads B U V P top v₁ v₂ u₂) : U / V ≤ top / v₁ := by
  have htop : top + 1 ≤ (top / v₁ + 1) * v₁ := by
    have h := Nat.lt_div_mul_add h.divisor_pos (a := top)
    rw [Nat.add_mul]
    omega
  apply Nat.le_of_lt_succ
  apply Nat.div_lt_of_lt_mul
  calc U < (top * B + u₂ + 1) * P := h.dividend_lt
    _ ≤ (top * B + B) * P := Nat.mul_le_mul_right P (Nat.add_le_add_left h.third (top * B))
    _ = (top + 1) * (B * P) := by ring
    _ ≤ (top / v₁ + 1) * v₁ * (B * P) := Nat.mul_le_mul_right _ htop
    _ = (top / v₁ + 1) * (v₁ * B * P) := by ring
    _ ≤ (top / v₁ + 1) * ((v₁ * B + v₂) * P) :=
        Nat.mul_le_mul_left _ (Nat.mul_le_mul_right P (Nat.le_add_right _ _))
    _ ≤ (top / v₁ + 1) * V := Nat.mul_le_mul_left _ h.divisor_ge
    _ = V * (top / v₁ + 1) := Nat.mul_comm _ _

/-- An estimate that fails the test of the second digit is too large. -/
theorem Heads.div_lt (h : Heads B U V P top v₁ v₂ u₂) (htop : v₁ * qhat + rhat = top)
    (htest : rhat * B + u₂ < v₂ * qhat) : U / V < qhat := by
  have hfirst : top * B + u₂ + 1 ≤ (v₁ * B + v₂) * qhat := by
    calc top * B + u₂ + 1 = v₁ * qhat * B + (rhat * B + u₂ + 1) := by rw [← htop]; ring
      _ ≤ v₁ * qhat * B + v₂ * qhat := Nat.add_le_add_left htest _
      _ = (v₁ * B + v₂) * qhat := by ring
  apply Nat.div_lt_of_lt_mul
  calc U < (top * B + u₂ + 1) * P := h.dividend_lt
    _ ≤ (v₁ * B + v₂) * qhat * P := Nat.mul_le_mul_right _ hfirst
    _ = (v₁ * B + v₂) * P * qhat := by ring
    _ ≤ V * qhat := Nat.mul_le_mul_right _ h.divisor_ge

/-- An estimate that passes the test is too large by one at most. -/
theorem Heads.le_div (h : Heads B U V P top v₁ v₂ u₂) (hqhat : qhat ≤ B)
    (htop : v₁ * qhat + rhat = top) (htest : v₂ * qhat ≤ rhat * B + u₂) : qhat ≤ U / V + 1 := by
  have hfirst : qhat * (v₁ * B + v₂) ≤ top * B + u₂ := by
    calc qhat * (v₁ * B + v₂) = v₁ * qhat * B + v₂ * qhat := by ring
      _ ≤ v₁ * qhat * B + (rhat * B + u₂) := Nat.add_le_add_left htest _
      _ = top * B + u₂ := by rw [← htop]; ring
  have hweight : B * P ≤ V := by
    calc B * P ≤ v₁ * B * P := Nat.mul_le_mul_right P (Nat.le_mul_of_pos_left B h.divisor_pos)
      _ ≤ (v₁ * B + v₂) * P := Nat.mul_le_mul_right P (Nat.le_add_right _ _)
      _ ≤ V := h.divisor_ge
  obtain _ | k := qhat
  · exact Nat.zero_le _
  · have hpos : 0 < V := Nat.lt_of_lt_of_le
      (Nat.mul_pos (Nat.lt_of_lt_of_le (Nat.succ_pos k) hqhat) h.weight) hweight
    have hlt : (k + 1) * V < U + V := by
      calc (k + 1) * V < (k + 1) * ((v₁ * B + v₂ + 1) * P) :=
            Nat.mul_lt_mul_of_pos_left h.divisor_lt (Nat.succ_pos k)
        _ = (k + 1) * (v₁ * B + v₂) * P + (k + 1) * P := by ring
        _ ≤ (top * B + u₂) * P + B * P :=
            Nat.add_le_add (Nat.mul_le_mul_right P hfirst) (Nat.mul_le_mul_right P hqhat)
        _ ≤ U + V := Nat.add_le_add h.dividend_ge hweight
    rw [Nat.add_mul, Nat.one_mul] at hlt
    apply Nat.succ_le_succ
    rw [Nat.le_div_iff_mul_le hpos]
    omega

/-- A rest of two digits makes the test of the second digit unnecessary. -/
theorem Heads.test (h : Heads B U V P top v₁ v₂ u₂) (hqhat : qhat ≤ B) (hrhat : B ≤ rhat) :
    v₂ * qhat ≤ rhat * B + u₂ :=
  Nat.le_add_right_of_le (Nat.mul_le_mul (Nat.le_of_lt (Nat.lt_of_lt_of_le h.second hrhat)) hqhat)

end Estimate

/-! ## The digits of a quotient -/

section Quotient

variable {V d : Nat}

/-- A further digit of the dividend is a further digit of the quotient. -/
theorem div_snoc (hV : 0 < V) (N d : Nat) :
    (N * B + d) / V = N / V * B + (N % V * B + d) / V := by
  have hsplit := Nat.div_add_mod N V
  calc (N * B + d) / V = (V * (N / V * B) + (N % V * B + d)) / V := by
        conv_lhs => rw [← hsplit]
        congr 1
        ring
    _ = N / V * B + (N % V * B + d) / V := Nat.mul_add_div hV _ _

theorem mod_snoc (N V d : Nat) : (N * B + d) % V = (N % V * B + d) % V :=
  ((Nat.mod_modEq N V).symm.mul_right B).add_right d

/-- A rest with a further digit is less than a digit times the divisor. -/
theorem snoc_lt {R : Nat} (hR : R < V) (hd : d < B) : R * B + d < V * B := by
  calc R * B + d < R * B + B := Nat.add_lt_add_left hd _
    _ = (R + 1) * B := (Nat.add_one_mul R B).symm
    _ ≤ V * B := Nat.mul_le_mul_right B hR

end Quotient

end JxCore.Lib.Radix
