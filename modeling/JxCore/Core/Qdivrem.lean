import JxCore.Basic
import JxCore.Lib.Radix
import Mathlib.Logic.Function.Basic

/-!
# The 64-bit division of the 32-bit machine (`arch/minic.c`)

A `jlong` is divided by `__divdi3` and `__moddi3`, which the compiler calls for `/` and `%`. Both rest on
`__qdivrem`, which divides strings of four 16-bit digits by program D of the textbooks. The digits lie in
arrays of `u4_t`; a pointer into an array is an index.
-/

namespace JxCore.Qdivrem

open Lib Radix

/-! ## The routine -/

/-- An array of digits. -/
abbrev Space := Nat → Nat

/-- `B`, the digit base. -/
def base : Nat := 2 ^ 16

/-- `HHALF`. -/
def hhalf (x : Nat) : Nat := x / base

/-- `LHALF`. -/
def lhalf (x : Nat) : Nat := x % base

/-- `COMBINE`. -/
def combine (a b : Nat) : Nat := u4 (a <<< 16) ||| b

/-- The difference of two `u4_t`. -/
def usub (a b : Nat) : Nat := u4 (a + (2 ^ 32 - b))

/-- The number with these four digits, as a `union uu`. -/
def union (p : Space) : Nat := combine (p 1) (p 2) * 2 ^ 32 + combine (p 3) (p 4)

/-- The digits of a `union uu`, from the second entry on. -/
def digits (q : Nat) : Space
  | 1 => hhalf (q / 2 ^ 32)
  | 2 => lhalf (q / 2 ^ 32)
  | 3 => hhalf (q % 2 ^ 32)
  | 4 => lhalf (q % 2 ^ 32)
  | _ => 0

/-- `shl` on the digits from `p` on. The loop ascends, so that a digit is read before it is written. -/
def shl (a : Space) (p len sh : Nat) : Space := fun i =>
  if p ≤ i ∧ i < p + len then lhalf (u4 (a i <<< sh)) ||| a (i + 1) >>> (16 - sh)
  else if i = p + len then lhalf (u4 (a i <<< sh))
  else a i

/-- The division by a single digit. -/
def shortDivision (u : Space) (t : Nat) : Nat × Nat :=
  let q₁ := u 1 / t
  let rbj := combine (u 1 % t) (u 2)
  let q₂ := rbj / t
  let rbj := combine (rbj % t) (u 3)
  let q₃ := rbj / t
  let rbj := combine (rbj % t) (u 4)
  let q₄ := rbj / t
  (combine q₁ q₂ * 2 ^ 32 + combine q₃ q₄, rbj % t)

/-- The search for the first digit of the divisor: `n`, and where `v` points to. -/
def divisorStart (vspace : Space) : (n : Nat) → (v : Nat) → Nat × Nat
  | 0, v => (0, v)
  | n + 1, v =>
    if vspace (v + 1) ≠ 0 then (n + 1, v)
    else if n = 1 then (1, v)
    else divisorStart vspace n (v + 1)

/-- The search for the first digit of the dividend: `m`, and where `u` points to. With `uq >= vq` there
is one when `m` is 0. -/
def dividendStart (uspace : Space) : (m : Nat) → (u : Nat) → Nat × Nat
  | 0, u => (0, u)
  | m + 1, u => if uspace (u + 1) ≠ 0 then (m + 1, u) else dividendStart uspace m (u + 1)

/-- D1, the loop that counts `d`; `t` has doubled to `B / 2` after 15 rounds. -/
def shiftCount : (fuel : Nat) → (t : Nat) → Nat
  | 0, _ => 0
  | fuel + 1, t => if t < base / 2 then shiftCount fuel (u4 (t <<< 1)) + 1 else 0

/-- D3, the loop with the test of the second digit. -/
def adjust (v₁ v₂ uj₂ : Nat) : (qhat rhat : Nat) → Nat
  | 0, _ => 0
  | qhat + 1, rhat =>
    if combine rhat uj₂ < u4 (v₂ * (qhat + 1)) then
      if base ≤ rhat + v₁ then qhat else adjust v₁ v₂ uj₂ qhat (rhat + v₁)
    else qhat + 1

/-- D3, with the jump into the loop for `uj0 == v1`. -/
def estimate (v₁ v₂ uj₀ uj₁ uj₂ : Nat) : Nat :=
  if uj₀ = v₁ then
    if base ≤ uj₁ + v₁ then base - 1 else adjust v₁ v₂ uj₂ (base - 1) (uj₁ + v₁)
  else adjust v₁ v₂ uj₂ (combine uj₀ uj₁ / v₁) (combine uj₀ uj₁ % v₁)

/-- D4, the loop: the borrow and the digits behind `w`. -/
def mulSub (v : Space) (w qhat : Nat) : (i t : Nat) → Space → Nat × Space
  | 0, t, u => (t, u)
  | i + 1, t, u =>
    let t := usub (usub (u (w + (i + 1))) (u4 (v (i + 1) * qhat))) t
    mulSub v w qhat i ((base - hhalf t) &&& (base - 1)) (Function.update u (w + (i + 1)) (lhalf t))

/-- D6, the loop. -/
def addBack (v : Space) (w : Nat) : (i t : Nat) → Space → Nat × Space
  | 0, t, u => (t, u)
  | i + 1, t, u =>
    let t := u4 (t + u4 (u (w + (i + 1)) + v (i + 1)))
    addBack v w i (hhalf t) (Function.update u (w + (i + 1)) (lhalf t))

/-- D4 to D6 with `w` for `u + j`: the digit of the quotient, and the rest. -/
def subtract (v : Space) (n w qhat : Nat) (u : Space) : Nat × Space :=
  let r := mulSub v w qhat n 0 u
  let t := usub (r.2 w) r.1
  let u := Function.update r.2 w (lhalf t)
  if hhalf t ≠ 0 then
    let r := addBack v w n 0 u
    (usub qhat 1, Function.update r.2 w (lhalf (r.2 w + r.1)))
  else (qhat, u)

/-- One round, D3 to D6. -/
def round (v : Space) (n w : Nat) (u : Space) : Nat × Space :=
  subtract v n w (estimate (v 1) (v 2) (u w) (u (w + 1)) (u (w + 2))) u

/-- D7, with `q` for `q + j`. -/
def rounds (v : Space) (n : Nat) : (c w q : Nat) → (u qspace : Space) → Space × Space
  | 0, _, _, u, qspace => (u, qspace)
  | c + 1, w, q, u, qspace =>
    let r := round v n w u
    rounds v n c (w + 1) (q + 1) r.2 (Function.update qspace q r.1)

/-- The loop that shifts the remainder back, with `p` for `u + m`. The loop descends, so that a digit is
read before it is written. -/
def shiftBack (a : Space) (p n d : Nat) : Space := fun i =>
  if p < i ∧ i ≤ p + n then a i >>> d ||| lhalf (u4 (a (i - 1) <<< (16 - d)))
  else if i = p then 0
  else a i

/-- Program D: the quotient and the remainder. -/
def programD (uspace vspace : Space) (n v : Nat) : Nat × Nat :=
  let start := dividendStart uspace (4 - n) 0
  let m := start.1
  let u := start.2
  let d := shiftCount 16 (vspace (v + 1))
  let uspace := if 0 < d then shl uspace u (m + n) d else uspace
  let vspace := if 0 < d then shl vspace (v + 1) (n - 1) d else vspace
  let r := rounds (fun i => vspace (v + i)) n (m + 1) u (4 - m) uspace fun _ => 0
  (union r.2, union (if 0 < d then shiftBack r.1 (u + m) n d else r.1))

/-- `__qdivrem`: the quotient and the remainder. -/
def qdivrem (uq vq : Nat) : Except Stop (Nat × Nat) :=
  if vq = 0 then throw .divideError
  else if uq < vq then return (0, uq)
  else
    let start := divisorStart (digits vq) 4 0
    if start.1 = 1 then return shortDivision (digits uq) (digits vq (start.2 + 2))
    else return programD (digits uq) (digits vq) start.1 start.2

/-! ## Single digits -/

theorem lhalf_lt (x : Nat) : lhalf x < base := Nat.mod_lt x (by decide)

theorem lhalf_add_hhalf (x : Nat) : lhalf x + base * hhalf x = x := Nat.mod_add_div x base

theorem combine_eq {a b : Nat} (ha : a < base) (hb : b < base) : combine a b = a * base + b := by
  have hshift : a <<< 16 = a * base := Nat.shiftLeft_eq a 16
  have hfits : a * base < 2 ^ 32 := by
    simp only [base] at ha ⊢
    omega
  rw [combine, u4_of_lt (by rwa [hshift]), ← Nat.shiftLeft_add_eq_or_of_lt hb, hshift]

theorem usub_one {x : Nat} (h : x + 1 < 2 ^ 32) : usub (x + 1) 1 = x := by
  simp only [usub, u4]
  omega

/-- A product of two digits is a `u4_t`. -/
theorem mul_le_of_digits {a b : Nat} (ha : a < base) (hb : b < base) :
    a * b ≤ (base - 1) * (base - 1) :=
  Nat.mul_le_mul (Nat.le_sub_one_of_lt ha) (Nat.le_sub_one_of_lt hb)

/-- One digit of D4: the borrow is what is missing, in units of the next digit. -/
theorem borrow_spec {u v qhat t : Nat} (hu : u < base) (hv : v < base) (hqhat : qhat < base)
    (ht : t < base) :
    ∃ t', (base - hhalf (usub (usub u (u4 (v * qhat))) t)) &&& (base - 1) = t' ∧ t' < base ∧
      lhalf (usub (usub u (u4 (v * qhat))) t) + v * qhat + t = u + base * t' := by
  refine ⟨_, rfl, ?_, ?_⟩
  · exact Nat.lt_of_le_of_lt Nat.and_le_right (by decide)
  · have hprod := mul_le_of_digits hv hqhat
    rw [show base - 1 = 2 ^ 16 - 1 from rfl, Nat.and_two_pow_sub_one_eq_mod]
    simp only [base, lhalf, hhalf, usub, u4] at *
    omega

/-- One digit of D6. -/
theorem carry_spec {u v t : Nat} (hu : u < base) (hv : v < base) (ht : t ≤ 1) :
    hhalf (u4 (t + u4 (u + v))) ≤ 1 ∧
      lhalf (u4 (t + u4 (u + v))) + base * hhalf (u4 (t + u4 (u + v))) = u + v + t := by
  simp only [base, lhalf, hhalf, u4] at *
  omega

/-! ## The loops of a round -/

section Loops

variable {v u : Space} {w qhat i t : Nat}

/-- What a loop over the digits behind `w` leaves: digits there, and the rest of the array. -/
structure Written (w i : Nat) (u u' : Space) : Prop where
  digits : Digits base u' (w + 1) i
  outside : ∀ k, k ≤ w ∨ w + i < k → u' k = u k

theorem Written.refl (w : Nat) (u : Space) : Written w 0 u u :=
  ⟨fun k hk => absurd hk (Nat.not_lt_zero k), fun _ _ => rfl⟩

/-- The loop writes a digit and goes on with the ones before it. -/
theorem Written.succ {u' : Space} {x : Nat} (hx : x < base)
    (h : Written w i (Function.update u (w + (i + 1)) x) u') : Written w (i + 1) u u' := by
  have hlast : u' (w + (i + 1)) = x := by
    rw [h.outside _ (Or.inr (by omega)), Function.update_self]
  constructor
  · intro k hk
    obtain hk | rfl := Nat.lt_succ_iff_lt_or_eq.mp hk
    · exact h.digits k hk
    · rwa [Nat.add_assoc, Nat.add_comm 1, hlast]
  · intro k hk
    rw [h.outside k (by omega), Function.update_of_ne (by omega)]

/-- The value of the digits, the last of which has been written first. -/
theorem Written.value_succ {u' : Space} {x : Nat}
    (h : Written w i (Function.update u (w + (i + 1)) x) u') :
    value base u' (w + 1) (i + 1) = value base u' (w + 1) i * base + x := by
  have hlast : u' (w + 1 + i) = x := by
    rw [Nat.add_assoc, Nat.add_comm 1, h.outside _ (Or.inr (by omega)), Function.update_self]
  rw [Radix.value_succ, hlast]

/-- The digits before the one that is written. -/
theorem value_update (u : Space) (w i x : Nat) :
    value base (Function.update u (w + (i + 1)) x) (w + 1) i = value base u (w + 1) i :=
  value_congr fun k hk => Function.update_of_ne (by omega) _ _

theorem digits_update {x : Nat} (hu : Digits base u (w + 1) (i + 1)) :
    Digits base (Function.update u (w + (i + 1)) x) (w + 1) i := by
  intro k hk
  rw [Function.update_of_ne (by omega)]
  exact hu k (Nat.lt_succ_of_lt hk)

/-- D4 subtracts, and the borrow is left. -/
theorem mulSub_spec (hv : Digits base v 1 i) (hu : Digits base u (w + 1) i) (hqhat : qhat < base)
    (ht : t < base) :
    (mulSub v w qhat i t u).1 < base ∧ Written w i u (mulSub v w qhat i t u).2 ∧
      value base (mulSub v w qhat i t u).2 (w + 1) i + value base v 1 i * qhat + t =
        value base u (w + 1) i + base ^ i * (mulSub v w qhat i t u).1 := by
  induction i generalizing u t with
  | zero => exact ⟨ht, .refl w u, by simp [value, mulSub]⟩
  | succ i ih =>
    have hlast : u (w + (i + 1)) < base := by
      have h := hu i (Nat.lt_succ_self i)
      rwa [Nat.add_assoc, Nat.add_comm 1] at h
    have hvlast : v (i + 1) < base := by
      have h := hv i (Nat.lt_succ_self i)
      rwa [Nat.add_comm 1] at h
    obtain ⟨t', ht', hlt, hdigit⟩ := borrow_spec hlast hvlast hqhat ht
    rw [mulSub, ht']
    set x := lhalf (usub (usub (u (w + (i + 1))) (u4 (v (i + 1) * qhat))) t) with hx
    obtain ⟨hborrow, hwritten, hvalue⟩ := ih (fun k hk => hv k (Nat.lt_succ_of_lt hk))
      (@digits_update u w i x hu) hlt
    set r := mulSub v w qhat i t' (Function.update u (w + (i + 1)) x)
    refine ⟨hborrow, hwritten.succ (lhalf_lt _), ?_⟩
    rw [value_update] at hvalue
    rw [hwritten.value_succ, Radix.value_succ, Radix.value_succ, Nat.add_comm 1 i,
      show w + 1 + i = w + (i + 1) by omega]
    calc value base r.2 (w + 1) i * base + x + (value base v 1 i * base + v (i + 1)) * qhat + t
        = (value base r.2 (w + 1) i + value base v 1 i * qhat) * base +
            (x + v (i + 1) * qhat + t) := by ring
      _ = (value base r.2 (w + 1) i + value base v 1 i * qhat + t') * base +
            u (w + (i + 1)) := by rw [hdigit]; ring
      _ = value base u (w + 1) i * base + u (w + (i + 1)) + base ^ (i + 1) * r.1 := by
            rw [hvalue]; ring

/-- D6 adds, and the carry is left. -/
theorem addBack_spec (hv : Digits base v 1 i) (hu : Digits base u (w + 1) i) (ht : t ≤ 1) :
    (addBack v w i t u).1 ≤ 1 ∧ Written w i u (addBack v w i t u).2 ∧
      value base (addBack v w i t u).2 (w + 1) i + base ^ i * (addBack v w i t u).1 =
        value base u (w + 1) i + value base v 1 i + t := by
  induction i generalizing u t with
  | zero => exact ⟨ht, .refl w u, by simp [value, addBack]⟩
  | succ i ih =>
    have hlast : u (w + (i + 1)) < base := by
      have h := hu i (Nat.lt_succ_self i)
      rwa [Nat.add_assoc, Nat.add_comm 1] at h
    have hvlast : v (i + 1) < base := by
      have h := hv i (Nat.lt_succ_self i)
      rwa [Nat.add_comm 1] at h
    obtain ⟨hle, hdigit⟩ := carry_spec hlast hvlast ht
    rw [addBack]
    set x := u4 (t + u4 (u (w + (i + 1)) + v (i + 1)))
    obtain ⟨hcarry, hwritten, hvalue⟩ := ih (fun k hk => hv k (Nat.lt_succ_of_lt hk))
      (@digits_update u w i (lhalf x) hu) hle
    set r := addBack v w i (hhalf x) (Function.update u (w + (i + 1)) (lhalf x))
    refine ⟨hcarry, hwritten.succ (lhalf_lt _), ?_⟩
    rw [value_update] at hvalue
    rw [hwritten.value_succ, Radix.value_succ, Radix.value_succ, Nat.add_comm 1 i,
      show w + 1 + i = w + (i + 1) by omega]
    calc value base r.2 (w + 1) i * base + lhalf x + base ^ (i + 1) * r.1
        = (value base r.2 (w + 1) i + base ^ i * r.1) * base + lhalf x := by ring
      _ = (value base u (w + 1) i + value base v 1 i) * base + (lhalf x + base * hhalf x) := by
            rw [hvalue]; ring
      _ = value base u (w + 1) i * base + u (w + (i + 1)) +
            (value base v 1 i * base + v (i + 1)) + t := by rw [hdigit]; ring

/-- What one round leaves in the window of `n + 1` digits from `w` on. -/
structure Divided (n w U V : Nat) (u : Space) (r : Nat × Space) : Prop where
  quotient : r.1 = U / V
  rest : value base r.2 w (n + 1) = U % V
  digits : Digits base r.2 w (n + 1)
  outside : ∀ k, k < w ∨ w + n < k → r.2 k = u k

/-- The first digit of the window. -/
theorem borrow_top {x b : Nat} (hx : x < base) (hb : b < base) :
    (hhalf (usub x b) ≠ 0 ↔ x < b) ∧
      lhalf (usub x b) + b = x + if x < b then base else 0 := by
  simp only [base, lhalf, hhalf, usub, u4] at *
  split_ifs <;> omega

/-- The digits of a window after its first digit and the others have been written. -/
theorem Written.window {u' : Space} {n x : Nat} (h : Written w n u u') (hx : x < base) :
    Digits base (Function.update u' w x) w (n + 1) ∧
      value base (Function.update u' w x) w (n + 1) = x * base ^ n + value base u' (w + 1) n ∧
      ∀ k, k < w ∨ w + n < k → Function.update u' w x k = u k := by
  refine ⟨fun k hk => ?_, ?_, fun k hk => ?_⟩
  · obtain _ | k := k
    · rwa [Nat.add_zero, Function.update_self]
    · rw [Function.update_of_ne (by omega), ← Nat.add_assoc, Nat.add_right_comm]
      exact h.digits k (Nat.lt_of_succ_lt_succ hk)
  · rw [value_cons, Function.update_self]
    congr 1
    exact value_congr fun k _ => Function.update_of_ne (by omega) _ _
  · rw [Function.update_of_ne (by omega), h.outside k (by omega)]

/-- D4 to D6 find the digit of the quotient if the estimate is too large by one at most. -/
theorem subtract_spec {n U V : Nat} (hv : Digits base v 1 n) (hu : Digits base u w (n + 1))
    (hV : value base v 1 n = V) (hU : value base u w (n + 1) = U) (hpos : 0 < V)
    (hqhat : qhat < base) (hge : U / V ≤ qhat) (hle : qhat ≤ U / V + 1) :
    Divided n w U V u (subtract v n w qhat u) := by
  have htail : Digits base u (w + 1) n := fun k hk => by
    rw [Nat.add_assoc, Nat.add_comm 1]
    exact hu (k + 1) (Nat.succ_lt_succ hk)
  have htop : u w < base := hu 0 (Nat.succ_pos n)
  obtain ⟨hb, hwritten, hvalue⟩ := mulSub_spec hv htail hqhat (by decide : 0 < base)
  rw [subtract]
  set r := mulSub v w qhat n 0 u
  rw [hwritten.outside w (Or.inl (le_refl w))]
  obtain ⟨hborrow, hdigit⟩ := borrow_top htop hb
  set x := lhalf (usub (u w) r.1)
  obtain ⟨hdigits, hwindow, houtside⟩ := hwritten.window (show x < base from lhalf_lt _)
  have hUsplit := value_cons base u w n
  rw [hU] at hUsplit
  have hdivmod := Nat.div_add_mod U V
  have hmod := Nat.mod_lt U hpos
  rw [hV, Nat.add_zero] at hvalue
  by_cases hlt : u w < r.1
  · rw [if_pos (hborrow.mpr hlt)]
    rw [if_pos hlt] at hdigit
    have hfull : value base (Function.update r.2 w x) w (n + 1) + V * qhat =
        U + base ^ (n + 1) := by
      calc value base (Function.update r.2 w x) w (n + 1) + V * qhat
          = x * base ^ n + (value base r.2 (w + 1) n + V * qhat) := by
              rw [hwindow, Nat.add_assoc]
        _ = (x + r.1) * base ^ n + value base u (w + 1) n := by rw [hvalue]; ring
        _ = U + base ^ (n + 1) := by rw [hdigit, hUsplit]; ring
    have hlarge := value_lt hdigits
    have hq : qhat = U / V + 1 := by
      refine le_antisymm hle (Nat.succ_le_of_lt ?_)
      rw [Nat.div_lt_iff_lt_mul hpos, Nat.mul_comm]
      omega
    have htail' : Digits base (Function.update r.2 w x) (w + 1) n := fun k hk => by
      rw [Nat.add_assoc, Nat.add_comm 1]
      exact hdigits (k + 1) (Nat.succ_lt_succ hk)
    obtain ⟨hc, hwritten', hvalue'⟩ := addBack_spec hv htail' (Nat.zero_le 1)
    dsimp only
    set r' := addBack v w n 0 (Function.update r.2 w x)
    rw [hwritten'.outside w (Or.inl (le_refl w)), Function.update_self]
    have hcarry := lhalf_add_hhalf (x + r'.1)
    set y := lhalf (x + r'.1)
    obtain ⟨hdigits', hwindow', houtside'⟩ := hwritten'.window (show y < base from lhalf_lt _)
    have hone : hhalf (x + r'.1) ≤ 1 := by
      have hx : x < base := lhalf_lt _
      simp only [hhalf, base] at hx ⊢
      omega
    have htotal : value base (Function.update r'.2 w y) w (n + 1) +
        base ^ (n + 1) * hhalf (x + r'.1) = U % V + base ^ (n + 1) := by
      have hsplit := value_cons base (Function.update r.2 w x) w n
      rw [Function.update_self] at hsplit
      have hsum : value base (Function.update r'.2 w y) w (n + 1) +
          base ^ (n + 1) * hhalf (x + r'.1) =
            value base (Function.update r.2 w x) w (n + 1) + V := by
        calc value base (Function.update r'.2 w y) w (n + 1) + base ^ (n + 1) * hhalf (x + r'.1)
            = (y + base * hhalf (x + r'.1)) * base ^ n + value base r'.2 (w + 1) n := by
                rw [hwindow']; ring
          _ = x * base ^ n + (value base r'.2 (w + 1) n + base ^ n * r'.1) := by
                rw [hcarry]; ring
          _ = value base (Function.update r.2 w x) w (n + 1) + V := by
                rw [hvalue', hsplit, hV]; ring
      rw [hq, Nat.mul_add, Nat.mul_one] at hfull
      omega
    have hsmall := value_lt hdigits'
    have hcarried : hhalf (x + r'.1) = 1 := by
      obtain hzero | hone := Nat.le_one_iff_eq_zero_or_eq_one.mp hone
      · rw [hzero] at htotal
        omega
      · exact hone
    rw [hcarried, Nat.mul_one] at htotal
    have hfits : qhat < 2 ^ 32 := Nat.lt_trans hqhat (by decide)
    have hpred : usub qhat 1 = U / V := by
      rw [hq] at hfits ⊢
      exact usub_one hfits
    exact ⟨hpred, Nat.add_right_cancel htotal, hdigits', fun k hk =>
      (houtside' k hk).trans (houtside k hk)⟩
  · rw [if_neg (fun h => hlt (hborrow.mp h))]
    rw [if_neg hlt, Nat.add_zero] at hdigit
    have htotal : value base (Function.update r.2 w x) w (n + 1) + V * qhat = U := by
      calc value base (Function.update r.2 w x) w (n + 1) + V * qhat
          = x * base ^ n + (value base r.2 (w + 1) n + V * qhat) := by
              rw [hwindow, Nat.add_assoc]
        _ = (x + r.1) * base ^ n + value base u (w + 1) n := by rw [hvalue]; ring
        _ = U := by rw [hdigit, hUsplit]
    have hq : qhat = U / V := by
      refine le_antisymm ?_ hge
      rw [Nat.le_div_iff_mul_le hpos, Nat.mul_comm]
      omega
    have hrest : value base (Function.update r.2 w x) w (n + 1) = U % V := by
      rw [hq] at htotal
      omega
    exact ⟨hq, hrest, hdigits, houtside⟩

end Loops

/-! ## The estimate -/

section Estimate

variable {U V P top v₁ v₂ u₂ qhat rhat : Nat}

/-- The estimate is never too small, and too large by one at most. -/
def Near (U V qhat : Nat) : Prop := U / V ≤ qhat ∧ qhat ≤ U / V + 1

theorem adjust_near (h : Heads base U V P top v₁ v₂ u₂) (hqhat : qhat < base)
    (hge : U / V ≤ qhat) (hrhat : rhat < base) (htop : v₁ * qhat + rhat = top) :
    Near U V (adjust v₁ v₂ u₂ qhat rhat) ∧ adjust v₁ v₂ u₂ qhat rhat ≤ qhat := by
  induction qhat generalizing rhat with
  | zero => exact ⟨⟨hge, Nat.zero_le _⟩, le_refl 0⟩
  | succ qhat ih =>
    have hprod := mul_le_of_digits h.second hqhat
    have hcombine := combine_eq hrhat h.third
    have hu4 : u4 (v₂ * (qhat + 1)) = v₂ * (qhat + 1) :=
      u4_of_lt (Nat.lt_of_le_of_lt hprod (by decide))
    rw [adjust, hcombine, hu4]
    split_ifs with htest hover
    · have hpred := Nat.le_of_lt_succ (h.div_lt htop htest)
      have htop' : v₁ * qhat + (rhat + v₁) = top := by rw [← htop]; ring
      have hle := h.le_div (by omega) htop' (h.test (by omega) hover)
      exact ⟨⟨hpred, hle⟩, Nat.le_succ qhat⟩
    · have hpred := Nat.le_of_lt_succ (h.div_lt htop htest)
      have htop' : v₁ * qhat + (rhat + v₁) = top := by rw [← htop]; ring
      obtain ⟨hnear, hle⟩ := ih (by omega) hpred (by omega) htop'
      exact ⟨hnear, Nat.le_succ_of_le hle⟩
    · have hle := h.le_div (Nat.le_of_lt hqhat) htop (Nat.not_lt.mp htest)
      exact ⟨⟨hge, hle⟩, le_refl _⟩

theorem estimate_near {uj₀ uj₁ : Nat} (h : Heads base U V P (uj₀ * base + uj₁) v₁ v₂ u₂)
    (huj₁ : uj₁ < base) (hv₁ : v₁ < base) (hle : uj₀ ≤ v₁) (hlt : U < V * base) :
    Near U V (estimate v₁ v₂ uj₀ uj₁ u₂) ∧ estimate v₁ v₂ uj₀ uj₁ u₂ < base := by
  have hdigit : U / V ≤ base - 1 := Nat.le_sub_one_of_lt (Nat.div_lt_of_lt_mul hlt)
  rw [estimate]
  split_ifs with heq hover
  · have htop : v₁ * (base - 1) + (uj₁ + v₁) = uj₀ * base + uj₁ := by
      rw [heq]
      simp only [base]
      omega
    exact ⟨⟨hdigit, h.le_div (Nat.sub_le _ _) htop (h.test (Nat.sub_le _ _) hover)⟩, by decide⟩
  · have htop : v₁ * (base - 1) + (uj₁ + v₁) = uj₀ * base + uj₁ := by
      rw [heq]
      simp only [base]
      omega
    obtain ⟨hnear, hbound⟩ := adjust_near h (by decide) hdigit (Nat.not_le.mp hover) htop
    exact ⟨hnear, Nat.lt_of_le_of_lt hbound (by decide)⟩
  · have hless : uj₀ < v₁ := lt_of_le_of_ne hle heq
    rw [combine_eq (Nat.lt_trans hless hv₁) huj₁]
    have hquotient : (uj₀ * base + uj₁) / v₁ < base := by
      apply Nat.div_lt_of_lt_mul
      calc uj₀ * base + uj₁ < uj₀ * base + base := Nat.add_lt_add_left huj₁ _
        _ = (uj₀ + 1) * base := (Nat.add_one_mul _ _).symm
        _ ≤ v₁ * base := Nat.mul_le_mul_right _ hless
    obtain ⟨hnear, hbound⟩ := adjust_near h hquotient h.div_le
      (Nat.lt_trans (Nat.mod_lt _ h.divisor_pos) hv₁) (Nat.div_add_mod _ _)
    exact ⟨hnear, Nat.lt_of_le_of_lt hbound hquotient⟩

end Estimate

/-- One round divides the window: its digit of the quotient is right. -/
theorem round_spec {v u : Space} {n w U V : Nat} (hn : 2 ≤ n) (hv : Digits base v 1 n)
    (hu : Digits base u w (n + 1)) (hfirst : v 1 ≠ 0) (hV : value base v 1 n = V)
    (hU : value base u w (n + 1) = U) (hlt : U < V * base) :
    Divided n w U V u (round v n w u) := by
  obtain ⟨k, rfl⟩ := Nat.exists_eq_add_of_le' hn
  have hheads := Heads.of_digits hu hv hfirst
  have hpos : 0 < V := hV ▸ Nat.lt_of_lt_of_le (Nat.pow_pos (by decide)) (le_value hfirst)
  have hle : u w ≤ v 1 := by
    have hVlt : V < (v 1 + 1) * base ^ (k + 1) := by
      have htail : value base v 2 (k + 1) < base ^ (k + 1) := value_lt fun i hi => by
        rw [show 2 + i = 1 + (i + 1) by omega]
        exact hv (i + 1) (by omega)
      rw [← hV, value_cons, Nat.add_one_mul]
      exact Nat.add_lt_add_left htail _
    apply Nat.le_of_lt_succ
    apply Nat.lt_of_mul_lt_mul_right (a := base ^ (k + 2))
    calc u w * base ^ (k + 2) ≤ U := by rw [← hU, value_cons]; exact Nat.le_add_right _ _
      _ < V * base := hlt
      _ ≤ (v 1 + 1) * base ^ (k + 1) * base := Nat.mul_le_mul_right _ (Nat.le_of_lt hVlt)
      _ = (v 1 + 1) * base ^ (k + 2) := by ring
  rw [hU, hV] at hheads
  obtain ⟨⟨hge, hle'⟩, hbound⟩ := estimate_near hheads (hu 1 (by omega)) (hv 0 (by omega)) hle hlt
  exact subtract_spec hv hu hV hU hpos hbound hge hle'

/-- What the rounds leave: the digits of the quotient, zeros, and the remainder. -/
structure Finished (n c w q N V : Nat) (u qspace : Space) (r : Space × Space) : Prop where
  quotient : value base r.2 q c = N / V
  quotientDigits : Digits base r.2 q c
  quotientOutside : ∀ k, k < q ∨ q + c ≤ k → r.2 k = qspace k
  rest : value base r.1 (w + c) n = N % V
  restDigits : Digits base r.1 (w + c) n
  zeros : ∀ k, w ≤ k → k < w + c → r.1 k = 0
  outside : ∀ k, k < w → r.1 k = u k

/-- Round by round the dividend is brought down, digit after digit. -/
theorem rounds_spec {v u qspace : Space} {n c w q V : Nat} (hn : 2 ≤ n) (hv : Digits base v 1 n)
    (hu : Digits base u w (n + c)) (hfirst : v 1 ≠ 0) (hV : value base v 1 n = V)
    (hlt : value base u w n < V) :
    Finished n c w q (value base u w (n + c)) V u qspace (rounds v n c w q u qspace) := by
  have hpos : 0 < V := Nat.lt_of_le_of_lt (Nat.zero_le _) hlt
  induction c generalizing u w q qspace with
  | zero =>
    refine ⟨(Nat.div_eq_of_lt hlt).symm, fun k hk => absurd hk (Nat.not_lt_zero k),
      fun _ _ => rfl, (Nat.mod_eq_of_lt hlt).symm, hu, fun k hk hk' => ?_, fun _ _ => rfl⟩
    exact absurd hk' (Nat.not_lt.mpr hk)
  | succ c ih =>
    have hwindow : Digits base u w (n + 1) := fun k hk => hu k (by omega)
    have hU : value base u w (n + 1) < V * base := snoc_lt hlt (hu n (by omega))
    have hround := round_spec hn hv hwindow hfirst hV rfl hU
    rw [rounds]
    set r := round v n w u
    set U := value base u w (n + 1) with hUdef
    have hsmall : value base r.2 w (n + 1) < V := hround.rest ▸ Nat.mod_lt U hpos
    have hVsmall : V < base ^ n := hV ▸ value_lt hv
    have htop : r.2 w = 0 := eq_zero_of_value_lt (Nat.lt_trans hsmall hVsmall)
    have hrest : value base r.2 (w + 1) n = U % V := by
      rw [← hround.rest, value_cons, htop, Nat.zero_mul, Nat.zero_add]
    have hbehind : ∀ i < c, r.2 (w + (n + 1) + i) = u (w + (n + 1) + i) := fun i _ =>
      hround.outside _ (Or.inr (by omega))
    have hdigits : Digits base r.2 (w + 1) (n + c) := fun k hk => by
      rw [Nat.add_assoc, Nat.add_comm 1]
      by_cases hin : k + 1 < n + 1
      · exact hround.digits (k + 1) hin
      · rw [hround.outside _ (Or.inr (by omega))]
        exact hu (k + 1) (by omega)
    have hN : value base u w (n + (c + 1)) = U * base ^ c + value base u (w + (n + 1)) c := by
      rw [show n + (c + 1) = n + 1 + c by omega, value_append]
    have hN' : value base r.2 (w + 1) (n + c) =
        U % V * base ^ c + value base u (w + (n + 1)) c := by
      rw [value_append, hrest, show w + 1 + n = w + (n + 1) by omega, value_congr hbehind]
    have h := @ih r.2 (Function.update qspace q r.1) (w + 1) (q + 1) hdigits
      (hrest ▸ Nat.mod_lt U hpos)
    rw [hN'] at h
    set r' := rounds v n c (w + 1) (q + 1) r.2 (Function.update qspace q r.1)
    have hfirstDigit : r'.2 q = U / V := by
      rw [h.quotientOutside q (Or.inl (Nat.lt_succ_self q)), Function.update_self, hround.quotient]
    rw [hN]
    refine ⟨?_, fun k hk => ?_, fun k hk => ?_, ?_, ?_, fun k hk hk' => ?_, fun k hk => ?_⟩
    · rw [value_cons, hfirstDigit, h.quotient]
      exact (div_snoc hpos U _).symm
    · obtain _ | k := k
      · rw [Nat.add_zero, hfirstDigit]
        exact Nat.div_lt_of_lt_mul hU
      · rw [← Nat.add_assoc, Nat.add_right_comm]
        exact h.quotientDigits k (Nat.lt_of_succ_lt_succ hk)
    · rw [h.quotientOutside k (by omega), Function.update_of_ne (by omega)]
    · rw [show w + (c + 1) = w + 1 + c by omega, h.rest, mod_snoc U]
    · rw [show w + (c + 1) = w + 1 + c by omega]
      exact h.restDigits
    · obtain rfl | hne := Nat.eq_or_lt_of_le hk
      · rw [h.outside w (Nat.lt_succ_self w), htop]
      · exact h.zeros k hne (by omega)
    · rw [h.outside k (by omega), hround.outside k (Or.inl hk)]

/-! ## Shifts -/

section Shifts

variable {a : Space} {p n d x y : Nat}

theorem base_eq (hd : d ≤ 16) : base = 2 ^ (16 - d) * 2 ^ d := by
  rw [← Nat.pow_add, Nat.sub_add_cancel hd, base]

/-- The part of a shifted digit that stays. -/
theorem lhalf_shiftLeft (hd : d ≤ 16) (hx : x < base) :
    lhalf (u4 (x <<< d)) = (x % 2 ^ (16 - d)) <<< d := by
  have hfits : x * 2 ^ d < 2 ^ 32 := by
    calc x * 2 ^ d < base * 2 ^ d := Nat.mul_lt_mul_of_pos_right hx (Nat.two_pow_pos d)
      _ ≤ base * 2 ^ 16 := Nat.mul_le_mul_left _ (Nat.pow_le_pow_right (by decide) hd)
      _ = 2 ^ 32 := rfl
  rw [Nat.shiftLeft_eq, u4_of_lt hfits, Nat.shiftLeft_eq, lhalf, base_eq hd, Nat.mul_mod_mul_right]

/-- The part of a shifted digit that goes to the one before it. -/
theorem shiftRight_lt (hd : d ≤ 16) (hy : y < base) : y >>> (16 - d) < 2 ^ d := by
  rw [Nat.shiftRight_eq_div_pow]
  exact Nat.div_lt_of_lt_mul (base_eq hd ▸ hy)

/-- A digit of `shl`. -/
theorem shl_digit (hd : d ≤ 16) (hx : x < base) (hy : y < base) :
    lhalf (u4 (x <<< d)) ||| y >>> (16 - d) = x * 2 ^ d % base + y * 2 ^ d / base := by
  rw [lhalf_shiftLeft hd hx, ← Nat.shiftLeft_add_eq_or_of_lt (shiftRight_lt hd hy),
    Nat.shiftLeft_eq, Nat.shiftRight_eq_div_pow, base_eq hd, Nat.mul_mod_mul_right,
    Nat.mul_div_mul_right _ _ (Nat.two_pow_pos d)]

/-- A digit of `shiftBack`. -/
theorem shiftBack_digit (hd : d ≤ 16) (hx : x < base) (hy : y < base) :
    x >>> d ||| lhalf (u4 (y <<< (16 - d))) = x / 2 ^ d + y % 2 ^ d * 2 ^ (16 - d) := by
  have hrest : 16 - (16 - d) = d := Nat.sub_sub_self hd
  have hlow := @shiftRight_lt (16 - d) x (Nat.sub_le 16 d) hx
  rw [hrest] at hlow
  rw [lhalf_shiftLeft (Nat.sub_le 16 d) hy, hrest, Nat.or_comm,
    ← Nat.shiftLeft_add_eq_or_of_lt hlow, Nat.shiftLeft_eq, Nat.shiftRight_eq_div_pow, Nat.add_comm]

/-- `shl` multiplies, if nothing falls out on the left. -/
theorem shl_spec (hd : d ≤ 16) (ha : Digits base a p (n + 1)) (hfirst : a p * 2 ^ d < base) :
    value base (shl a p n d) p (n + 1) = value base a p (n + 1) * 2 ^ d ∧
      Digits base (shl a p n d) p (n + 1) ∧ ∀ k, k < p ∨ p + n < k → shl a p n d k = a k := by
  -- what a digit gives to the one before it; the last one takes nothing
  let c (i : Nat) : Nat := if i ≤ n then a (p + i) * 2 ^ d / base else 0
  have hdigit : ∀ i < n + 1, shl a p n d (p + i) = a (p + i) * 2 ^ d % base + c (i + 1) := by
    intro i hi
    have hx := ha i hi
    by_cases hlast : i = n
    · have hc : c (i + 1) = 0 := if_neg (by omega)
      rw [shl, if_neg (by omega), if_pos (by omega), hc, lhalf_shiftLeft hd hx, Nat.shiftLeft_eq,
        base_eq hd, Nat.mul_mod_mul_right, Nat.add_zero]
    · have hc : c (i + 1) = a (p + i + 1) * 2 ^ d / base := if_pos (by omega)
      rw [shl, if_pos (by omega), hc, Nat.add_assoc p i 1, shl_digit hd hx (ha (i + 1) (by omega))]
  have hc₀ : c 0 = 0 := (if_pos (Nat.zero_le n)).trans (Nat.div_eq_of_lt hfirst)
  have hcEnd : c (n + 1) = 0 := if_neg (by omega)
  have hmul := @value_mul base a (shl a p n d) p (n + 1) (2 ^ d) c fun i hi => by
    have hci : c i = a (p + i) * 2 ^ d / base := if_pos (by omega)
    have hsplit := Nat.mod_add_div (a (p + i) * 2 ^ d) base
    rw [Nat.mul_comm base] at hsplit
    rw [hdigit i hi, hci]
    omega
  rw [hc₀, hcEnd, Nat.zero_mul, Nat.add_zero, Nat.add_zero] at hmul
  refine ⟨hmul, fun i hi => ?_, fun k hk => ?_⟩
  · rw [shl]
    split_ifs
    · exact Nat.or_lt_two_pow (lhalf_lt _)
        (Nat.lt_of_le_of_lt (Nat.shiftRight_le _ _) (ha (i + 1) (by omega)))
    · exact lhalf_lt _
    · exact ha i hi
  · rw [shl, if_neg (by omega), if_neg (by omega)]

/-- `shiftBack` divides, if nothing comes in on the left. -/
theorem shiftBack_spec (hd : d ≤ 16) (ha : Digits base a (p + 1) n) (hfirst : a p = 0) :
    value base (shiftBack a p n d) (p + 1) n = value base a (p + 1) n / 2 ^ d ∧
      Digits base (shiftBack a p n d) (p + 1) n ∧ shiftBack a p n d p = 0 ∧
      ∀ k < p, shiftBack a p n d k = a k := by
  have hbefore : ∀ i < n, a (p + i) < base := by
    intro i hi
    obtain _ | i := i
    · rw [Nat.add_zero, hfirst]
      decide
    · rw [Nat.add_comm i 1, ← Nat.add_assoc]
      exact ha i (by omega)
  have hdiv := @value_div base a (shiftBack a p n d) p n (2 ^ d) (2 ^ (16 - d)) (Nat.two_pow_pos d)
    ((base_eq hd).trans (Nat.mul_comm _ _)) (by rw [hfirst, Nat.zero_mod]) fun i hi => by
      rw [shiftBack, if_pos (by omega), show p + 1 + i - 1 = p + i by omega]
      exact shiftBack_digit hd (ha i hi) (hbefore i hi)
  refine ⟨hdiv.1, fun i hi => ?_, ?_, fun k hk => ?_⟩
  · rw [shiftBack, if_pos (by omega)]
    exact Nat.or_lt_two_pow (Nat.lt_of_le_of_lt (Nat.shiftRight_le _ _) (ha i hi)) (lhalf_lt _)
  · rw [shiftBack, if_neg (by omega), if_pos rfl]
  · rw [shiftBack, if_neg (by omega), if_neg (by omega)]

/-- D1 makes the first digit as large as it can. -/
theorem shiftCount_spec {fuel t : Nat} (ht : t < base) : t * 2 ^ shiftCount fuel t < base := by
  induction fuel generalizing t with
  | zero => rwa [shiftCount, Nat.pow_zero, Nat.mul_one]
  | succ fuel ih =>
    rw [shiftCount]
    split_ifs with hsmall
    · have hdouble : u4 (t <<< 1) = t * 2 := by
        rw [Nat.shiftLeft_eq, Nat.pow_one]
        exact u4_of_lt (by simp only [base] at hsmall; omega)
      rw [hdouble, Nat.pow_succ, Nat.mul_comm _ 2, ← Nat.mul_assoc]
      exact ih (by simp only [base] at hsmall ⊢; omega)
    · rwa [Nat.pow_zero, Nat.mul_one]

theorem shiftCount_lt {fuel t : Nat} (ht : t < base) (hpos : t ≠ 0) : shiftCount fuel t < 16 := by
  have h := @shiftCount_spec fuel t ht
  have hpow : 2 ^ shiftCount fuel t < 2 ^ 16 :=
    Nat.lt_of_le_of_lt (Nat.le_mul_of_pos_left _ (Nat.pos_of_ne_zero hpos)) h
  exact (Nat.pow_lt_pow_iff_right (by decide)).mp hpow

end Shifts

/-! ## The whole routine -/

theorem digits_digits {q : Nat} (hq : q < 2 ^ 64) : Digits base (digits q) 0 5 := by
  intro i hi
  have : i = 0 ∨ i = 1 ∨ i = 2 ∨ i = 3 ∨ i = 4 := by omega
  obtain rfl | rfl | rfl | rfl | rfl := this <;> simp only [digits, hhalf, lhalf, base] <;> omega

theorem value_digits (q : Nat) : value base (digits q) 0 5 = q := by
  simp only [value, digits, hhalf, lhalf, base]
  omega

theorem union_eq {p : Space} (hp : Digits base p 1 4) : union p = value base p 1 4 := by
  have h₁ := hp 0 (by decide)
  have h₂ := hp 1 (by decide)
  have h₃ := hp 2 (by decide)
  have h₄ := hp 3 (by decide)
  rw [union, combine_eq h₁ h₂, combine_eq h₃ h₄]
  simp only [value, base]
  omega

/-- The division by a single digit, digit by digit. -/
theorem shortDivision_spec {u : Space} {t : Nat} (hu : Digits base u 1 4) (ht : 0 < t)
    (hlt : t < base) : shortDivision u t = (value base u 1 4 / t, value base u 1 4 % t) := by
  -- a rest and the next digit of the dividend
  have hstep (N : Nat) {d : Nat} (hd : d < base) :
      combine (N % t) d = N % t * base + d ∧ (N % t * base + d) / t < base :=
    ⟨combine_eq (Nat.lt_trans (Nat.mod_lt N ht) hlt) hd,
      Nat.div_lt_of_lt_mul (snoc_lt (Nat.mod_lt N ht) hd)⟩
  have h₁ : u 1 < base := hu 0 (by decide)
  obtain ⟨hr₂, hq₂⟩ := hstep (u 1) (show u 2 < base from hu 1 (by decide))
  obtain ⟨hr₃, hq₃⟩ := hstep (u 1 * base + u 2) (show u 3 < base from hu 2 (by decide))
  obtain ⟨hr₄, hq₄⟩ := hstep ((u 1 * base + u 2) * base + u 3)
    (show u 4 < base from hu 3 (by decide))
  have hq₁ : u 1 / t < base := Nat.lt_of_le_of_lt (Nat.div_le_self _ _) h₁
  have hN₂ : (u 1 * base + u 2) / t = _ := div_snoc ht (u 1) (u 2)
  have hN₃ : ((u 1 * base + u 2) * base + u 3) / t = _ := div_snoc ht _ (u 3)
  have hN₄ : (((u 1 * base + u 2) * base + u 3) * base + u 4) / t = _ := div_snoc ht _ (u 4)
  have hvalue : value base u 1 4 = ((u 1 * base + u 2) * base + u 3) * base + u 4 := by
    simp [value]
  simp only [shortDivision]
  rw [hr₂, ← mod_snoc, hr₃, ← mod_snoc, hr₄, ← mod_snoc, combine_eq hq₁ hq₂, combine_eq hq₃ hq₄,
    hvalue, hN₄, hN₃, hN₂]
  refine Prod.ext ?_ rfl
  simp only [base]
  ring

theorem divisorStart_spec (v : Space) :
    (divisorStart v 4 0 = (1, 2) ∧ v 1 = 0 ∧ v 2 = 0 ∧ v 3 = 0) ∨
      ∃ n p, divisorStart v 4 0 = (n, p) ∧ 2 ≤ n ∧ n + p = 4 ∧ v (p + 1) ≠ 0 ∧
        ∀ i < p, v (1 + i) = 0 := by
  by_cases h₁ : v 1 = 0
  · by_cases h₂ : v 2 = 0
    · by_cases h₃ : v 3 = 0
      · exact Or.inl ⟨by simp [divisorStart, h₁, h₂, h₃], h₁, h₂, h₃⟩
      · refine Or.inr ⟨2, 2, by simp [divisorStart, h₁, h₂, h₃], by decide, rfl, h₃, ?_⟩
        intro i hi
        obtain rfl | rfl : i = 0 ∨ i = 1 := by omega
        · exact h₁
        · exact h₂
    · refine Or.inr ⟨3, 1, by simp [divisorStart, h₁, h₂], by decide, rfl, h₂, ?_⟩
      intro i hi
      obtain rfl : i = 0 := Nat.lt_one_iff.mp hi
      exact h₁
  · exact Or.inr ⟨4, 0, by simp [divisorStart, h₁], by decide, rfl, h₁,
      fun i hi => absurd hi (Nat.not_lt_zero i)⟩

theorem dividendStart_spec {u : Space} {m p : Nat} (h : ∀ i ≤ p, u i = 0) :
    (dividendStart u m p).1 + (dividendStart u m p).2 = m + p ∧
      ∀ i ≤ (dividendStart u m p).2, u i = 0 := by
  induction m generalizing p with
  | zero => exact ⟨rfl, h⟩
  | succ m ih =>
    rw [dividendStart]
    split_ifs with hfirst
    · exact ⟨rfl, h⟩
    · obtain ⟨hsum, hzero⟩ := @ih (p + 1) fun i hi => by
        obtain hlt | rfl := Nat.lt_or_eq_of_le hi
        · exact h i (Nat.le_of_lt_succ hlt)
        · exact not_not.mp hfirst
      exact ⟨by omega, hzero⟩

/-- D1, for the dividend and for the divisor: both are multiplied. -/
theorem normalize_spec {a : Space} {p n d : Nat} (hd : d ≤ 16) (ha : Digits base a p (n + 1))
    (hfirst : a p * 2 ^ d < base) :
    value base (if 0 < d then shl a p n d else a) p (n + 1) = value base a p (n + 1) * 2 ^ d ∧
      Digits base (if 0 < d then shl a p n d else a) p (n + 1) ∧
      ∀ k, k < p ∨ p + n < k → (if 0 < d then shl a p n d else a) k = a k := by
  split_ifs with hpos
  · exact shl_spec hd ha hfirst
  · obtain rfl : d = 0 := Nat.eq_zero_of_not_pos hpos
    exact ⟨by rw [Nat.pow_zero, Nat.mul_one], ha, fun _ _ => rfl⟩

/-- The remainder: what was multiplied is divided again. -/
theorem denormalize_spec {a : Space} {p n d : Nat} (hd : d ≤ 16) (ha : Digits base a (p + 1) n)
    (hfirst : a p = 0) :
    value base (if 0 < d then shiftBack a p n d else a) (p + 1) n =
        value base a (p + 1) n / 2 ^ d ∧
      Digits base (if 0 < d then shiftBack a p n d else a) (p + 1) n ∧
      (if 0 < d then shiftBack a p n d else a) p = 0 ∧
      ∀ k < p, (if 0 < d then shiftBack a p n d else a) k = a k := by
  split_ifs with hpos
  · exact shiftBack_spec hd ha hfirst
  · obtain rfl : d = 0 := Nat.eq_zero_of_not_pos hpos
    exact ⟨by rw [Nat.pow_zero, Nat.div_one], ha, hfirst, fun _ _ => rfl⟩

/-- The dividend behind D1. -/
theorem dividend_normalized {uspace : Space} {u k d : Nat} (hd : d ≤ 16)
    (hu : Digits base uspace 0 (u + (k + 1))) (hzeros : ∀ i ≤ u, uspace i = 0) :
    ∃ us, (if 0 < d then shl uspace u k d else uspace) = us ∧
      value base us u (k + 1) = value base uspace 0 (u + (k + 1)) * 2 ^ d ∧
      Digits base us u (k + 1) ∧ (∀ i < u, us i = 0) ∧
      value base uspace 0 (u + (k + 1)) < base ^ k := by
  have hdigits : Digits base uspace u (k + 1) := fun i hi => by
    have h := hu (u + i) (by omega)
    rwa [Nat.zero_add] at h
  have hvalue : value base uspace 0 (u + (k + 1)) = value base uspace u (k + 1) := by
    have h := @value_skip base uspace 0 u (k + 1) fun i hi => by
      rw [Nat.zero_add, hzeros i (Nat.le_of_lt hi)]
    rwa [Nat.zero_add] at h
  have hzero := hzeros u (le_refl u)
  obtain ⟨hus, husDigits, hout⟩ := normalize_spec hd hdigits (by rw [hzero, Nat.zero_mul]; decide)
  refine ⟨_, rfl, ?_, husDigits, fun i hi => ?_, ?_⟩
  · rw [hus, hvalue]
  · rw [hout i (Or.inl hi), hzeros i (Nat.le_of_lt hi)]
  · rw [hvalue, value_cons, hzero, Nat.zero_mul, Nat.zero_add]
    exact value_lt (Digits.tail hdigits)

/-- The divisor behind D1, as the rounds see it. -/
theorem divisor_normalized {vspace : Space} {v k d : Nat} (hd : d ≤ 16)
    (hv : Digits base vspace (v + 1) (k + 1)) (hfirst : vspace (v + 1) ≠ 0)
    (hfits : vspace (v + 1) * 2 ^ d < base) :
    ∃ vs, (if 0 < d then shl vspace (v + 1) k d else vspace) = vs ∧
      value base (fun i => vs (v + i)) 1 (k + 1) = value base vspace (v + 1) (k + 1) * 2 ^ d ∧
      Digits base (fun i => vs (v + i)) 1 (k + 1) ∧ vs (v + 1) ≠ 0 ∧
      base ^ k ≤ value base vspace (v + 1) (k + 1) := by
  obtain ⟨hvs, hdigits, -⟩ := normalize_spec hd hv hfits
  have hlarge := @le_value base vspace (v + 1) k hfirst
  refine ⟨_, rfl, ?_, fun i hi => ?_, fun hzero => ?_, hlarge⟩
  · rw [value_shift, hvs]
  · have h := hdigits i hi
    rwa [Nat.add_assoc] at h
  · have hsmall := value_lt (Digits.tail hdigits)
    rw [value_cons, hzero, Nat.zero_mul, Nat.zero_add] at hvs
    rw [hvs] at hsmall
    have hle := Nat.le_mul_of_pos_right (value base vspace (v + 1) (k + 1)) (Nat.two_pow_pos d)
    omega

/-- The digits of the quotient, with the zeros before them. -/
theorem Finished.union_quotient {n m w N V : Nat} {u : Space} {r : Space × Space} (hm : m ≤ 2)
    (h : Finished n (m + 1) w (4 - m) N V u (fun _ => 0) r) : union r.2 = N / V := by
  have hzeros : ∀ i < 3 - m, r.2 (1 + i) = 0 := fun i hi =>
    h.quotientOutside (1 + i) (Or.inl (by omega))
  have hdigits : Digits base r.2 1 4 := fun i hi => by
    by_cases hin : i < 3 - m
    · rw [hzeros i hin]
      decide
    · have hdigit := h.quotientDigits (i - (3 - m)) (by omega)
      rwa [show 4 - m + (i - (3 - m)) = 1 + i by omega] at hdigit
  have hskip := value_skip base (m + 1) hzeros
  rw [show 3 - m + (m + 1) = 4 by omega, show 1 + (3 - m) = 4 - m by omega] at hskip
  rw [union_eq hdigits, hskip, h.quotient]

/-- The digits of the remainder, shifted back, with the zeros before them. -/
theorem Finished.union_rest {n m w q d N V : Nat} {us qspace : Space} {r : Space × Space}
    (hd : d ≤ 16) (hsum : n + (m + w) = 4) (hzeros : ∀ i < w, us i = 0)
    (h : Finished n (m + 1) w q (N * 2 ^ d) (V * 2 ^ d) us qspace r) :
    union (if 0 < d then shiftBack r.1 (w + m) n d else r.1) = N % V := by
  obtain ⟨hrest, hdigits, hfirst, hout⟩ := @denormalize_spec r.1 (w + m) n d hd h.restDigits
    (h.zeros (w + m) (by omega) (by omega))
  set rem := if 0 < d then shiftBack r.1 (w + m) n d else r.1
  have hremZeros : ∀ i < w + m, rem (1 + i) = 0 := fun i hi => by
    by_cases hlast : 1 + i = w + m
    · rw [hlast, hfirst]
    · rw [hout (1 + i) (by omega)]
      by_cases hin : 1 + i < w
      · rw [h.outside (1 + i) hin, hzeros (1 + i) hin]
      · exact h.zeros (1 + i) (by omega) (by omega)
  have hremDigits : Digits base rem 1 4 := fun i hi => by
    by_cases hin : i < w + m
    · rw [hremZeros i hin]
      decide
    · have hdigit := hdigits (i - (w + m)) (by omega)
      rwa [show w + m + 1 + (i - (w + m)) = 1 + i by omega] at hdigit
  have hskip := value_skip base n hremZeros
  rw [show w + m + n = 4 by omega, Nat.add_comm 1] at hskip
  rw [union_eq hremDigits, hskip, hrest, Nat.add_assoc w m 1, h.rest, Nat.mul_mod_mul_right,
    Nat.mul_div_cancel _ (Nat.two_pow_pos d)]

/-- Program D divides. -/
theorem programD_spec {uspace vspace : Space} {n v : Nat} (hu : Digits base uspace 0 5)
    (hu₀ : uspace 0 = 0) (hv : Digits base vspace (v + 1) n) (hn : 2 ≤ n) (hsum : n + v = 4)
    (hfirst : vspace (v + 1) ≠ 0) :
    programD uspace vspace n v =
      (value base uspace 0 5 / value base vspace (v + 1) n,
        value base uspace 0 5 % value base vspace (v + 1) n) := by
  obtain ⟨k, rfl⟩ := Nat.exists_eq_add_of_le' (Nat.le_trans (by decide : 1 ≤ 2) hn)
  obtain ⟨hstart, hzeros⟩ := @dividendStart_spec uspace (4 - (k + 1)) 0 fun i hi => by
    rw [Nat.le_zero.mp hi, hu₀]
  rw [programD]
  set m := (dividendStart uspace (4 - (k + 1)) 0).1
  set u := (dividendStart uspace (4 - (k + 1)) 0).2
  have hvlt : vspace (v + 1) < base := hv 0 (by omega)
  have hd := Nat.le_of_lt (@shiftCount_lt 16 _ hvlt hfirst)
  have hfits := @shiftCount_spec 16 _ hvlt
  set d := shiftCount 16 (vspace (v + 1))
  have hlen : u + (m + (k + 1) + 1) = 5 := by omega
  obtain ⟨us, hus, husValue, husDigits, husZeros, hUlt⟩ :=
    @dividend_normalized uspace u (m + (k + 1)) d hd (by rwa [hlen]) hzeros
  obtain ⟨vs, hvs, hvsValue, hvsDigits, hvsFirst, hVge⟩ := divisor_normalized hd hv hfirst hfits
  rw [hlen] at husValue hUlt
  rw [hus, Nat.add_sub_cancel, hvs]
  set U := value base uspace 0 5
  set V := value base vspace (v + 1) (k + 1)
  have hcount : m + (k + 1) + 1 = k + 1 + (m + 1) := by omega
  rw [hcount] at husValue husDigits
  have hwindow : value base us u (k + 1) < V * 2 ^ d := by
    apply Nat.lt_of_mul_lt_mul_right (a := base ^ (m + 1))
    calc value base us u (k + 1) * base ^ (m + 1) ≤ U * 2 ^ d := by
          rw [← husValue, value_append base us u (k + 1)]; exact Nat.le_add_right _ _
      _ < base ^ (m + (k + 1)) * 2 ^ d := Nat.mul_lt_mul_of_pos_right hUlt (Nat.two_pow_pos d)
      _ = base ^ k * 2 ^ d * base ^ (m + 1) := by ring
      _ ≤ V * 2 ^ d * base ^ (m + 1) := Nat.mul_le_mul_right _ (Nat.mul_le_mul_right _ hVge)
  have h := @rounds_spec (fun i => vs (v + i)) us (fun _ => 0) (k + 1) (m + 1) u (4 - m) _ hn
    hvsDigits husDigits hvsFirst hvsValue hwindow
  rw [husValue] at h
  rw [h.union_quotient (by omega), h.union_rest hd (by omega) husZeros,
    Nat.mul_div_mul_right _ _ (Nat.two_pow_pos d)]

/-- The digits of the divisor, without the zeros before them. -/
theorem value_start {q n p : Nat} (hsum : n + p = 4) (hzeros : ∀ i < p, digits q (1 + i) = 0) :
    value base (digits q) (p + 1) n = q := by
  have hskip := value_skip base n hzeros
  rw [show p + n = 4 by omega, Nat.add_comm 1 p] at hskip
  rw [← hskip]
  conv_rhs => rw [← value_digits q]
  simp [value, digits]

/-- **`__qdivrem` divides**: quotient and remainder of 64-bit numbers. -/
theorem qdivrem_eq {uq vq : Nat} (hvq : vq ≠ 0) (hu : uq < 2 ^ 64) (hv : vq < 2 ^ 64) :
    qdivrem uq vq = .ok (uq / vq, uq % vq) := by
  rw [qdivrem, if_neg hvq]
  by_cases hless : uq < vq
  · rw [if_pos hless, Nat.div_eq_of_lt hless, Nat.mod_eq_of_lt hless]
    rfl
  rw [if_neg hless]
  have huDigits := digits_digits hu
  have hvDigits := digits_digits hv
  obtain ⟨hstart, h₁, h₂, h₃⟩ | ⟨n, p, hstart, hn, hsum, hfirst, hzeros⟩ :=
    divisorStart_spec (digits vq)
  · have hdigit : digits vq 4 = vq := by
      have h := @value_start vq 1 3 rfl fun i hi => by
        obtain rfl | rfl | rfl : i = 0 ∨ i = 1 ∨ i = 2 := by omega
        · exact h₁
        · exact h₂
        · exact h₃
      rwa [value_succ, value, Nat.zero_mul, Nat.zero_add] at h
    have huValue : value base (digits uq) 1 4 = uq :=
      @value_start uq 4 0 rfl fun i hi => absurd hi (Nat.not_lt_zero i)
    have hlt : digits vq 4 < base := hvDigits 4 (by decide)
    rw [hdigit] at hlt
    simp only [hstart, if_true]
    rw [hdigit, shortDivision_spec huDigits.tail (Nat.pos_of_ne_zero hvq) hlt, huValue]
    rfl
  · have hdigits : Digits base (digits vq) (p + 1) n := fun i hi => by
      have h := hvDigits (p + 1 + i) (by omega)
      rwa [Nat.zero_add] at h
    simp only [hstart, if_neg (show n ≠ 1 by omega)]
    rw [programD_spec huDigits rfl hdigits hn hsum hfirst, value_digits, value_start hsum hzeros]
    rfl

/-! ## Signed division -/

/-- The sign handling of `__divdi3` and `__moddi3`: the magnitude of a `quad_t`. -/
def magnitude (a : BitVec 64) : BitVec 64 := if a.toInt < 0 then -a else a

/-- A result with its sign. -/
def signed (neg : Prop) [Decidable neg] (x : Nat) : BitVec 64 :=
  if neg then -BitVec.ofNat 64 x else BitVec.ofNat 64 x

/-- `__divdi3`. -/
def divdi3 (a b : BitVec 64) : Except Stop (BitVec 64) := do
  let r ← qdivrem (magnitude a).toNat (magnitude b).toNat
  return signed (¬(a.toInt < 0 ↔ b.toInt < 0)) r.1

/-- `__moddi3`. Its sign is found like the one of `__divdi3`, with both arguments. -/
def moddi3 (a b : BitVec 64) : Except Stop (BitVec 64) := do
  let r ← qdivrem (magnitude a).toNat (magnitude b).toNat
  return signed (¬(a.toInt < 0 ↔ b.toInt < 0)) r.2

section Signed

variable {a b : BitVec 64}

theorem magnitude_ne_zero (hb : b ≠ 0) : (magnitude b).toNat ≠ 0 := by
  have hmag : magnitude b ≠ 0 := by
    rw [magnitude]
    split_ifs
    · exact fun h => hb (BitVec.neg_eq_zero_iff.mp h)
    · exact hb
  exact fun h => hmag (BitVec.eq_of_toNat_eq h)

theorem ofNat_div (x y : BitVec 64) : BitVec.ofNat 64 (x.toNat / y.toNat) = x.udiv y := by
  apply BitVec.eq_of_toNat_eq
  rw [BitVec.toNat_ofNat, BitVec.udiv_eq, BitVec.toNat_udiv]
  exact Nat.mod_eq_of_lt (Nat.lt_of_le_of_lt (Nat.div_le_self _ _) x.isLt)

theorem ofNat_mod (x y : BitVec 64) : BitVec.ofNat 64 (x.toNat % y.toNat) = x.umod y := by
  apply BitVec.eq_of_toNat_eq
  rw [BitVec.toNat_ofNat, BitVec.umod_eq, BitVec.toNat_umod]
  exact Nat.mod_eq_of_lt (Nat.lt_of_le_of_lt (Nat.mod_le _ _) x.isLt)

theorem qdivrem_magnitude (hb : b ≠ 0) :
    qdivrem (magnitude a).toNat (magnitude b).toNat =
      .ok ((magnitude a).toNat / (magnitude b).toNat, (magnitude a).toNat % (magnitude b).toNat) :=
  qdivrem_eq (magnitude_ne_zero hb) (BitVec.isLt _) (BitVec.isLt _)

/-- The quotient is truncated. -/
theorem divdi3_eq (hb : b ≠ 0) : divdi3 a b = .ok (a.sdiv b) := by
  rw [divdi3, qdivrem_magnitude hb]
  apply congrArg Except.ok
  rw [signed, ofNat_div, BitVec.sdiv_eq, BitVec.msb_eq_toInt, BitVec.msb_eq_toInt]
  by_cases ha : a.toInt < 0 <;> by_cases hb' : b.toInt < 0 <;> simp [ha, hb', magnitude]

/-- The remainder is that of the truncated quotient, but for a sign that a negative divisor flips. -/
theorem moddi3_eq (hb : b ≠ 0) :
    moddi3 a b = .ok (if b.toInt < 0 then -a.srem b else a.srem b) := by
  rw [moddi3, qdivrem_magnitude hb]
  apply congrArg Except.ok
  rw [signed, ofNat_mod, BitVec.srem_eq, BitVec.msb_eq_toInt, BitVec.msb_eq_toInt]
  by_cases ha : a.toInt < 0 <;> by_cases hb' : b.toInt < 0 <;> simp [ha, hb', magnitude]

end Signed

end JxCore.Qdivrem
