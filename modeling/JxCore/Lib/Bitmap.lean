import Mathlib.Data.Finset.Card
import Mathlib.Order.Interval.Finset.Nat

/-!
# Bit sets stored in bytes

A bitmap is a byte array addressed from zero; bit `i` is bit `i % 8` of byte `i / 8`. The C code
reads it as `bitmap[i >> 3] & 1 << (i & 7)` and updates it with `|=` and `&= ~`. Everything below
is phrased through `getBit`, so that clients never look at a byte again.

* `getBit_setBit`, `getBit_clearBit` — one update, every bit;
* `clearCount` — how many of the first `n` bits are clear, and how one update changes it.
-/

namespace JxCore.Lib

/-- A byte array without an end: index to byte. -/
abbrev Bytes := Nat → BitVec 8

namespace Bytes

/-- The byte with only bit `o` set, `1 << o`. -/
def bitMask (o : Nat) : BitVec 8 := 1#8 <<< o

/-- `bitmap[i >> 3] & 1 << (i & 7)`, as a truth value. -/
def getBit (m : Bytes) (i : Nat) : Bool := m (i >>> 3) &&& bitMask (i &&& 7) != 0#8

/-- `bitmap[i >> 3] |= 1 << (i & 7)`. -/
def setBit (m : Bytes) (i : Nat) : Bytes :=
  Function.update m (i >>> 3) (m (i >>> 3) ||| bitMask (i &&& 7))

/-- `bitmap[i >> 3] &= ~(1 << (i & 7))`. -/
def clearBit (m : Bytes) (i : Nat) : Bytes :=
  Function.update m (i >>> 3) (m (i >>> 3) &&& ~~~ bitMask (i &&& 7))

/-- `memset(bitmap, 0, n)`. -/
def zero (m : Bytes) (n : Nat) : Bytes := fun p => if p < n then 0#8 else m p

/-! ## One bit inside one byte -/

theorem shiftRight_three (i : Nat) : i >>> 3 = i / 8 := Nat.shiftRight_eq_div_pow i 3

theorem and_seven (i : Nat) : i &&& 7 = i % 8 := Nat.and_two_pow_sub_one_eq_mod i 3

theorem getLsbD_bitMask {o : Nat} (ho : o < 8) (j : Nat) :
    (bitMask o).getLsbD j = decide (j = o) := by
  have hone : (1#8).getLsbD (j - o) = decide (j - o = 0) := by
    rw [BitVec.getLsbD_one]
    simp
  rw [bitMask, BitVec.getLsbD_shiftLeft, hone]
  by_cases hj : j = o
  · subst hj
    simp [ho]
  · by_cases hlt : j < o
    · simp [hlt, hj]
    · have hpos : j - o ≠ 0 := by omega
      simp [hpos, hj]

/-- Masking with `1 << o` leaves a non-zero byte exactly when bit `o` is set. -/
theorem and_bitMask_ne_zero (b : BitVec 8) {o : Nat} (ho : o < 8) :
    (b &&& bitMask o != 0#8) = b.getLsbD o := by
  cases hb : b.getLsbD o with
  | false =>
    have hzero : b &&& bitMask o = 0#8 := by
      apply BitVec.eq_of_getLsbD_eq
      intro j hj
      rw [BitVec.getLsbD_and, getLsbD_bitMask ho]
      by_cases h : j = o
      · subst h
        simp [hb]
      · simp [h]
    simp [hzero]
  | true =>
    have hne : b &&& bitMask o ≠ 0#8 := by
      intro hzero
      have hbit := congrArg (fun v => BitVec.getLsbD v o) hzero
      simp [hb, getLsbD_bitMask ho] at hbit
    simpa using hne

theorem getBit_eq (m : Bytes) (i : Nat) : m.getBit i = (m (i / 8)).getLsbD (i % 8) := by
  rw [getBit, shiftRight_three, and_seven, and_bitMask_ne_zero _ (Nat.mod_lt i (by decide))]

/-! ## Updates -/

@[simp] theorem getBit_setBit (m : Bytes) (i j : Nat) :
    (m.setBit i).getBit j = (decide (j = i) || m.getBit j) := by
  rw [getBit_eq, getBit_eq, setBit, shiftRight_three, and_seven]
  by_cases hb : j / 8 = i / 8
  · rw [hb, Function.update_self, BitVec.getLsbD_or, getLsbD_bitMask (Nat.mod_lt i (by decide))]
    have hiff : j % 8 = i % 8 ↔ j = i := by omega
    simp [hiff, Bool.or_comm]
  · have hne : j ≠ i := by
      rintro rfl
      exact hb rfl
    rw [Function.update_of_ne hb]
    simp [hne]

@[simp] theorem getBit_clearBit (m : Bytes) (i j : Nat) :
    (m.clearBit i).getBit j = (!decide (j = i) && m.getBit j) := by
  rw [getBit_eq, getBit_eq, clearBit, shiftRight_three, and_seven]
  by_cases hb : j / 8 = i / 8
  · have hiff : j % 8 = i % 8 ↔ j = i := by omega
    rw [hb, Function.update_self, BitVec.getLsbD_and, BitVec.getLsbD_not,
      getLsbD_bitMask (Nat.mod_lt i (by decide))]
    simp [hiff, Nat.mod_lt j (show 0 < 8 by decide), Bool.and_comm]
  · have hne : j ≠ i := by
      rintro rfl
      exact hb rfl
    rw [Function.update_of_ne hb]
    simp [hne]

/-- A zeroed byte holds eight clear bits. -/
theorem getBit_zero (m : Bytes) {n i : Nat} (hi : i / 8 < n) : (m.zero n).getBit i = false := by
  rw [getBit_eq, zero, if_pos hi]
  simp

/-- A bit only depends on its own byte. -/
theorem getBit_congr {m m' : Bytes} {i : Nat} (h : m (i / 8) = m' (i / 8)) :
    m.getBit i = m'.getBit i := by
  rw [getBit_eq, getBit_eq, h]

/-! ## Counting the clear bits -/

/-- The clear bits among the first `n`. -/
def clearBits (m : Bytes) (n : Nat) : Finset Nat := {i ∈ Finset.range n | m.getBit i = false}

/-- The number of clear bits among the first `n`. -/
def clearCount (m : Bytes) (n : Nat) : Nat := (m.clearBits n).card

theorem mem_clearBits {m : Bytes} {n i : Nat} :
    i ∈ m.clearBits n ↔ i < n ∧ m.getBit i = false := by
  simp [clearBits]

/-- A bitmap whose first `n` bits are all clear counts to `n`. -/
theorem clearCount_of_clear {m : Bytes} {n : Nat} (h : ∀ i < n, m.getBit i = false) :
    m.clearCount n = n := by
  have hall : m.clearBits n = Finset.range n := by
    ext i
    rw [mem_clearBits, Finset.mem_range]
    exact ⟨fun hi => hi.1, fun hi => ⟨hi, h i hi⟩⟩
  rw [clearCount, hall, Finset.card_range]

theorem clearCount_congr {m m' : Bytes} {n : Nat} (h : ∀ i < n, m.getBit i = m'.getBit i) :
    m.clearCount n = m'.clearCount n := by
  have heq : m.clearBits n = m'.clearBits n := by
    ext i
    rw [mem_clearBits, mem_clearBits]
    constructor
    · rintro ⟨hi, hb⟩
      exact ⟨hi, h i hi ▸ hb⟩
    · rintro ⟨hi, hb⟩
      exact ⟨hi, (h i hi).trans hb⟩
  rw [clearCount, clearCount, heq]

/-- Setting a clear bit costs exactly one. -/
theorem clearCount_setBit {m : Bytes} {n i : Nat} (hi : i < n) (hb : m.getBit i = false) :
    (m.setBit i).clearCount n + 1 = m.clearCount n := by
  have heq : (m.setBit i).clearBits n = (m.clearBits n).erase i := by
    ext j
    rw [Finset.mem_erase, mem_clearBits, mem_clearBits, getBit_setBit]
    by_cases hj : j = i <;> simp [hj]
  rw [clearCount, clearCount, heq]
  exact Finset.card_erase_add_one (mem_clearBits.mpr ⟨hi, hb⟩)

/-- Clearing a set bit gains exactly one. -/
theorem clearCount_clearBit {m : Bytes} {n i : Nat} (hi : i < n) (hb : m.getBit i = true) :
    (m.clearBit i).clearCount n = m.clearCount n + 1 := by
  have hnot : i ∉ m.clearBits n := by
    rw [mem_clearBits]
    simp [hb]
  have heq : (m.clearBit i).clearBits n = insert i (m.clearBits n) := by
    ext j
    rw [Finset.mem_insert, mem_clearBits, mem_clearBits, getBit_clearBit]
    by_cases hj : j = i
    · simp [hj, hi]
    · simp [hj]
  rw [clearCount, clearCount, heq, Finset.card_insert_of_notMem hnot]

/-- Only clear bits count. -/
theorem clearCount_eq_iff {m : Bytes} {n : Nat} :
    m.clearCount n = n ↔ ∀ i < n, m.getBit i = false := by
  refine ⟨fun h i hi => ?_, clearCount_of_clear⟩
  have hsub : m.clearBits n ⊆ Finset.range n := Finset.filter_subset _ _
  have hall : m.clearBits n = Finset.range n := by
    apply Finset.eq_of_subset_of_card_le hsub
    rw [Finset.card_range]
    exact Nat.le_of_eq h.symm
  have hmem : i ∈ m.clearBits n := by
    rw [hall]
    exact Finset.mem_range.mpr hi
  exact (mem_clearBits.mp hmem).2

/-! ## Setting a run of bits -/

/-- The `k` bits from `i` on, one after the other. -/
def setRun : Bytes → Nat → Nat → Bytes
  | m, _, 0 => m
  | m, i, k + 1 => setRun (m.setBit i) (i + 1) k

theorem getBit_setRun (m : Bytes) (i k j : Nat) :
    (m.setRun i k).getBit j = (decide (i ≤ j ∧ j < i + k) || m.getBit j) := by
  induction k generalizing m i with
  | zero =>
    have hnone : ¬ (i ≤ j ∧ j < i + 0) := by omega
    rw [setRun, decide_eq_false hnone, Bool.false_or]
  | succ k ih =>
    have hiff : (i ≤ j ∧ j < i + (k + 1)) ↔ (i + 1 ≤ j ∧ j < i + 1 + k) ∨ j = i := by omega
    rw [setRun, ih, getBit_setBit, ← Bool.or_assoc, decide_eq_decide.mpr hiff, Bool.decide_or]

/-- A run of clear bits costs its length. -/
theorem clearCount_setRun {m : Bytes} {n i k : Nat} (hle : i + k ≤ n)
    (hclear : ∀ j < k, m.getBit (i + j) = false) :
    (m.setRun i k).clearCount n + k = m.clearCount n := by
  induction k generalizing m i with
  | zero => rfl
  | succ k ih =>
    have hrest : ∀ j < k, (m.setBit i).getBit (i + 1 + j) = false := by
      intro j hj
      have hne : ¬ i + 1 + j = i := by omega
      have hbit := hclear (j + 1) (Nat.succ_lt_succ hj)
      rw [getBit_setBit, decide_eq_false hne, Bool.false_or]
      rwa [show i + 1 + j = i + (j + 1) by omega]
    have hfirst := clearCount_setBit (show i < n by omega) (hclear 0 (Nat.succ_pos k))
    have hih := ih (show i + 1 + k ≤ n by omega) hrest
    rw [Nat.add_zero] at hfirst
    rw [setRun]
    omega

theorem clearCount_le (m : Bytes) (n : Nat) : m.clearCount n ≤ n := by
  have h := Finset.card_filter_le (Finset.range n) (fun i => m.getBit i = false)
  rw [Finset.card_range] at h
  exact h

end Bytes

end JxCore.Lib
