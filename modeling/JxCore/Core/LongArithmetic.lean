import JxCore.Core.Qdivrem

/-!
# Arithmetic on `jlong` (`core/load.c`)

The compiler calls these helpers for the long instructions of the virtual machine. Multiplication,
comparison and the other two shifts do what the machine asks for; `longUShr` corrects an arithmetic shift
by a term that is computed in 32 bits, the remainder takes its sign from both arguments, and the division
has no check for zero.
-/

namespace JxCore.LongArithmetic

open Qdivrem

/-! ## The helpers -/

/-- `longDiv`. -/
def longDiv (a b : BitVec 64) : Except Stop (BitVec 64) := divdi3 a b

/-- `longRem`. -/
def longRem (a b : BitVec 64) : Except Stop (BitVec 64) := moddi3 a b

/-- `longShr`. -/
def longShr (a : BitVec 64) (b : BitVec 32) : BitVec 64 := a.sshiftRight (b &&& 63).toNat

/-- `longShl`. -/
def longShl (a : BitVec 64) (b : BitVec 32) : BitVec 64 := a <<< (b &&& 63).toNat

/-- `2 << n` of `int`. The processor takes the count modulo 32. -/
def twoShl (n : BitVec 32) : BitVec 32 := 2 <<< (n &&& 31).toNat

/-- `longUShr`. -/
def longUShr (a : BitVec 64) (b : BitVec 32) : BitVec 64 :=
  let b := b &&& 63
  if 0 ≤ a.toInt then a.sshiftRight b.toNat
  else a.sshiftRight b.toNat + (twoShl (~~~b)).signExtend 64

/-- `longCmp`. -/
def longCmp (a b : BitVec 64) : BitVec 32 :=
  if b.toInt < a.toInt then 1 else if a.toInt < b.toInt then -1 else 0

/-- `longMul`. -/
def longMul (a b : BitVec 64) : BitVec 64 := a * b

/-! ## The instructions

What the virtual machine asks for, in terms of the numbers. -/

/-- A helper asks for an exception. -/
def Raises (x : Except Stop (BitVec 64)) : Prop := ∃ e msg, x = .error (.throw e msg)

/-- The helpers do what the instructions ask for. -/
structure Agrees (a b : BitVec 64) (s : BitVec 32) : Prop where
  shl : longShl a s = BitVec.ofInt 64 (a.toInt * 2 ^ (s.toNat % 64))
  shr : (longShr a s).toInt = a.toInt / 2 ^ (s.toNat % 64)
  ushr : (longUShr a s).toNat = a.toNat / 2 ^ (s.toNat % 64)
  mul : longMul a b = BitVec.ofInt 64 (a.toInt * b.toInt)
  cmp : (longCmp a b).toInt = (a.toInt - b.toInt).sign
  div : b ≠ 0 → longDiv a b = .ok (BitVec.ofInt 64 (a.toInt.tdiv b.toInt))
  rem : b ≠ 0 → longRem a b = .ok (BitVec.ofInt 64 (a.toInt.tmod b.toInt))
  zero : b = 0 → Raises (longDiv a b) ∧ Raises (longRem a b)

/-! ## Shifts -/

theorem toNat_and_63 (s : BitVec 32) : (s &&& 63).toNat = s.toNat % 64 := by
  rw [BitVec.toNat_and]
  exact Nat.and_two_pow_sub_one_eq_mod s.toNat 6

theorem longShl_eq (a : BitVec 64) (s : BitVec 32) :
    longShl a s = BitVec.ofInt 64 (a.toInt * 2 ^ (s.toNat % 64)) := by
  have hpow (n : Nat) : BitVec.ofInt 64 (2 ^ n) = BitVec.twoPow 64 n := by
    apply BitVec.eq_of_toNat_eq
    rw [BitVec.toNat_twoPow, show (2 : Int) ^ n = (2 ^ n : Nat) from (Int.natCast_pow 2 n).symm,
      BitVec.ofInt_natCast, BitVec.toNat_ofNat]
  rw [longShl, toNat_and_63, BitVec.shiftLeft_eq_mul_twoPow, BitVec.ofInt_mul, BitVec.ofInt_toInt,
    hpow]

theorem longShr_eq (a : BitVec 64) (s : BitVec 32) :
    (longShr a s).toInt = a.toInt / 2 ^ (s.toNat % 64) := by
  rw [longShr, toNat_and_63, BitVec.toInt_sshiftRight, Int.shiftRight_eq_div_pow]
  rfl

/-- The term that makes an arithmetic shift of a negative number a logical one. -/
theorem sshiftRight_add {a : BitVec 64} {n : Nat} (ha : a.msb = true) (hn : n < 64) :
    a.sshiftRight n + BitVec.twoPow 64 (64 - n) = a >>> n := by
  have hpow : 2 ^ n * 2 ^ (64 - n) = 2 ^ 64 := by
    rw [← Nat.pow_add, Nat.add_sub_cancel' (Nat.le_of_lt hn)]
  -- the bits of `a` and of its complement fill the shifted word
  have hfill : (2 ^ 64 - 1 - a.toNat) / 2 ^ n + (a.toNat / 2 ^ n + 1) = 2 ^ (64 - n) := by
    have hlt : a.toNat < 2 ^ n * 2 ^ (64 - n) := hpow ▸ a.isLt
    rw [Nat.sub_sub, Nat.add_comm 1, ← hpow, Nat.mul_sub_div _ _ _ hlt]
    exact Nat.sub_add_cancel (Nat.div_lt_of_lt_mul hlt)
  apply BitVec.eq_of_toNat_eq
  rw [BitVec.toNat_add, BitVec.toNat_sshiftRight_of_msb_true ha, BitVec.toNat_twoPow,
    BitVec.toNat_ushiftRight, Nat.shiftRight_eq_div_pow, Nat.shiftRight_eq_div_pow,
    Nat.add_mod_mod]
  have hle : a.toNat / 2 ^ n < 2 ^ 64 := Nat.lt_of_le_of_lt (Nat.div_le_self _ _) a.isLt
  have hle' : (2 ^ 64 - 1 - a.toNat) / 2 ^ n ≤ 2 ^ 64 - 1 - a.toNat := Nat.div_le_self _ _
  rw [← hfill, show 2 ^ 64 - 1 - (2 ^ 64 - 1 - a.toNat) / 2 ^ n +
    ((2 ^ 64 - 1 - a.toNat) / 2 ^ n + (a.toNat / 2 ^ n + 1)) = a.toNat / 2 ^ n + 2 ^ 64 by omega,
    Nat.add_mod_right, Nat.mod_eq_of_lt hle]

/-- The counts at which the term comes out right. -/
theorem signExtend_twoShl_eq_iff : ∀ n : Fin 64,
    (twoShl (~~~BitVec.ofNat 32 n)).signExtend 64 = BitVec.twoPow 64 (64 - n) ↔
      n.val = 0 ∨ 34 ≤ n.val := by
  decide

/-- The shifts that `longUShr` gets right. -/
def UShrFits (a : BitVec 64) (s : BitVec 32) : Prop :=
  0 ≤ a.toInt ∨ s.toNat % 64 = 0 ∨ 34 ≤ s.toNat % 64

theorem longUShr_eq_iff (a : BitVec 64) (s : BitVec 32) :
    (longUShr a s).toNat = a.toNat / 2 ^ (s.toNat % 64) ↔ UShrFits a s := by
  have hs : s.toNat % 64 < 64 := Nat.mod_lt _ (by decide)
  have hshift : (a >>> (s.toNat % 64)).toNat = a.toNat / 2 ^ (s.toNat % 64) := by
    rw [BitVec.toNat_ushiftRight, Nat.shiftRight_eq_div_pow]
  rw [← hshift, BitVec.toNat_inj, longUShr, toNat_and_63, UShrFits]
  split_ifs with ha
  · have hmsb : a.msb = false := by
      rw [BitVec.msb_eq_toInt]
      exact decide_eq_false (not_lt.mpr ha)
    simp [ha, BitVec.sshiftRight_eq_of_msb_false hmsb]
  · have hmsb : a.msb = true := by
      rw [BitVec.msb_eq_toInt]
      exact decide_eq_true (not_le.mp ha)
    have hcount : s &&& 63 = BitVec.ofNat 32 (s.toNat % 64) := by
      apply BitVec.eq_of_toNat_eq
      rw [toNat_and_63, BitVec.toNat_ofNat]
      exact (Nat.mod_eq_of_lt (by omega)).symm
    have hterm := signExtend_twoShl_eq_iff ⟨s.toNat % 64, hs⟩
    rw [← sshiftRight_add hmsb hs, BitVec.add_right_inj, hcount]
    simpa [ha] using hterm

/-! ## The other instructions -/

theorem longMul_eq (a b : BitVec 64) : longMul a b = BitVec.ofInt 64 (a.toInt * b.toInt) := by
  rw [longMul, BitVec.ofInt_mul, BitVec.ofInt_toInt, BitVec.ofInt_toInt]

theorem longCmp_eq (a b : BitVec 64) : (longCmp a b).toInt = (a.toInt - b.toInt).sign := by
  rw [longCmp]
  split_ifs with hgt hlt
  · exact (Int.sign_eq_one_of_pos (Int.sub_pos_of_lt hgt)).symm
  · exact (Int.sign_eq_neg_one_of_neg (Int.sub_neg_of_lt hlt)).symm
  · rw [le_antisymm (not_lt.mp hgt) (not_lt.mp hlt), Int.sub_self]
    rfl

theorem longDiv_eq {a b : BitVec 64} (hb : b ≠ 0) :
    longDiv a b = .ok (BitVec.ofInt 64 (a.toInt.tdiv b.toInt)) := by
  rw [longDiv, divdi3_eq hb]
  congr 1
  apply BitVec.eq_of_toInt_eq
  rw [BitVec.toInt_sdiv, BitVec.toInt_ofInt]

/-- The only remainder that is its own negative is 0. -/
theorem neg_srem_eq_iff {a b : BitVec 64} (hb : b ≠ 0) :
    -a.srem b = a.srem b ↔ b.toInt ∣ a.toInt := by
  rw [Int.dvd_iff_tmod_eq_zero, ← BitVec.toInt_srem]
  constructor
  · intro h
    have hlt : (a.srem b).toInt.natAbs < b.toInt.natAbs := by
      rw [BitVec.toInt_srem, Int.natAbs_tmod]
      exact Nat.mod_lt _ (Int.natAbs_pos.mpr fun h => hb (BitVec.eq_of_toInt_eq h))
    -- the other fixed point of the negation is the smallest number, and no remainder is as large
    have hself := congrArg BitVec.toInt h
    rw [BitVec.toInt_neg] at hself
    have hmin := BitVec.le_toInt b
    have hmax := BitVec.toInt_lt (x := b)
    have hmod := Int.emod_bmod (-(a.srem b).toInt) (2 ^ 64)
    rw [hself, Int.bmod] at *
    omega
  · intro h
    rw [BitVec.eq_of_toInt_eq (h.trans BitVec.toInt_zero.symm), BitVec.neg_zero]

/-- The remainders that `longRem` gets right. -/
def RemFits (a b : BitVec 64) : Prop := 0 ≤ b.toInt ∨ b.toInt ∣ a.toInt

theorem longRem_eq_iff {a b : BitVec 64} (hb : b ≠ 0) :
    longRem a b = .ok (BitVec.ofInt 64 (a.toInt.tmod b.toInt)) ↔ RemFits a b := by
  rw [longRem, moddi3_eq hb, ← BitVec.toInt_srem, BitVec.ofInt_toInt, Except.ok.injEq, RemFits]
  split_ifs with hneg
  · rw [neg_srem_eq_iff hb]
    exact ⟨.inr, fun h => h.resolve_left (not_le.mpr hneg)⟩
  · exact iff_of_true rfl (.inl (not_lt.mp hneg))

/-- A divide error is no exception of the program. -/
theorem not_raises_divideError : ¬ Raises (.error .divideError) := by
  rintro ⟨e, msg, h⟩
  cases h

/-- **The helpers agree with the instructions exactly for divisors other than zero, which are not negative
or divide the dividend, and for logical shifts of non-negative numbers or by 0 or at least 34 places.** -/
theorem agrees_iff (a b : BitVec 64) (s : BitVec 32) :
    Agrees a b s ↔ b ≠ 0 ∧ RemFits a b ∧ UShrFits a s := by
  constructor
  · intro h
    have hb : b ≠ 0 := by
      intro hb
      subst hb
      exact not_raises_divideError (h.zero rfl).1
    exact ⟨hb, (longRem_eq_iff hb).mp (h.rem hb), (longUShr_eq_iff a s).mp h.ushr⟩
  · rintro ⟨hb, hrem, hs⟩
    exact ⟨longShl_eq a s, longShr_eq a s, (longUShr_eq_iff a s).mpr hs, longMul_eq a b,
      longCmp_eq a b, longDiv_eq, fun _ => (longRem_eq_iff hb).mpr hrem, fun h => absurd h hb⟩

/-- The logical shift of -1 by one place, the remainder of 7 by -2, and the division by zero. -/
theorem not_agrees : ¬ Agrees (-1) 1 1 ∧ ¬ Agrees 7 (-2) 0 ∧ ¬ Agrees 1 0 0 := by
  refine ⟨fun h => absurd h.ushr (by decide), fun h => ?_, fun h => ?_⟩
  · exact absurd ((longRem_eq_iff (by decide)).mp (h.rem (by decide))) (by unfold RemFits; decide)
  · exact not_raises_divideError (h.zero rfl).1

end JxCore.LongArithmetic
