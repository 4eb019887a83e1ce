import Mathlib.Tactic.SplitIfs

/-!
# Cyclic redundancy checks

A shift register of `w` bits that takes the bits of a message one by one. `poly` is the generator with
the coefficient of the highest power in bit 0. `shift` is linear, so that several bits may be taken at
a time with a table, and it is injective if the generator has a constant term, so that an error that is
not longer than the register does not cancel out.
-/

namespace JxCore.Lib.Crc

variable {w : Nat} {poly : BitVec w}

/-- The lowest bit leaves the register. -/
def shift (poly crc : BitVec w) : BitVec w :=
  if crc.getLsbD 0 then crc >>> 1 ^^^ poly else crc >>> 1

def shifts (poly : BitVec w) : Nat → BitVec w → BitVec w
  | 0, crc => crc
  | n + 1, crc => shifts poly n (shift poly crc)

/-- The bits in a register, the first in bit 0. -/
def word (w : Nat) (bits : List Bool) : BitVec w := (BitVec.ofBoolListLE bits).setWidth w

/-- One more bit of the message. -/
def feed (poly crc : BitVec w) (bit : Bool) : BitVec w := shift poly (crc ^^^ word w [bit])

/-- The bits of a message. -/
def feedAll (poly crc : BitVec w) (bits : List Bool) : BitVec w := bits.foldl (feed poly) crc

/-! ## Linearity -/

theorem xor_cancel (a b c : BitVec w) : a ^^^ c ^^^ (b ^^^ c) = a ^^^ b := by
  rw [BitVec.xor_comm b c, BitVec.xor_assoc, ← BitVec.xor_assoc c, BitVec.xor_self, BitVec.zero_xor]

theorem shift_xor (a b : BitVec w) : shift poly (a ^^^ b) = shift poly a ^^^ shift poly b := by
  unfold shift
  rw [BitVec.getLsbD_xor, BitVec.ushiftRight_xor_distrib]
  cases a.getLsbD 0 <;> cases b.getLsbD 0
  · rfl
  · exact BitVec.xor_assoc _ _ _
  · exact (BitVec.xor_assoc _ _ _).trans
      ((congrArg _ (BitVec.xor_comm _ _)).trans (BitVec.xor_assoc _ _ _).symm)
  · exact (xor_cancel _ _ _).symm

theorem shifts_xor (n : Nat) (a b : BitVec w) :
    shifts poly n (a ^^^ b) = shifts poly n a ^^^ shifts poly n b := by
  induction n generalizing a b with
  | zero => rfl
  | succ n ih => rw [shifts, shift_xor, ih, shifts, shifts]

/-- As long as only zeros leave the register, it moves. -/
theorem shifts_of_zeros {n : Nat} {a : BitVec w} (h : ∀ i < n, a.getLsbD i = false) :
    shifts poly n a = a >>> n := by
  induction n generalizing a with
  | zero => rfl
  | succ n ih =>
    have hstep : shift poly a = a >>> 1 := by
      unfold shift
      rw [h 0 (Nat.succ_pos n), if_neg Bool.false_ne_true]
    rw [shifts, hstep, ih, ← BitVec.shiftRight_add, Nat.add_comm]
    intro i hi
    rw [BitVec.getLsbD_ushiftRight]
    exact h (1 + i) (by omega)

/-- Several shifts at a time: what the low bits `low` come to is looked up, and the others move. -/
theorem shifts_eq_table {n : Nat} {a low : BitVec w} (hlow : ∀ i < n, low.getLsbD i = a.getLsbD i)
    (hhigh : low >>> n = 0#w) : shifts poly n a = shifts poly n low ^^^ a >>> n := by
  have hrest : shifts poly n (a ^^^ low) = a >>> n := by
    rw [shifts_of_zeros, BitVec.ushiftRight_xor_distrib, hhigh, BitVec.xor_zero]
    intro i hi
    rw [BitVec.getLsbD_xor, hlow i hi, Bool.xor_self]
  rw [← hrest, ← shifts_xor, BitVec.xor_comm a, ← BitVec.xor_assoc, BitVec.xor_self, BitVec.zero_xor]

/-! ## Words -/

theorem getLsbD_word (bits : List Bool) {i : Nat} (hi : i < w) :
    (word w bits).getLsbD i = bits.getD i false := by
  rw [word, BitVec.getLsbD_setWidth, BitVec.getLsbD_ofBoolListLE, decide_eq_true hi, Bool.true_and]

theorem word_nil : word w [] = 0#w := by
  refine BitVec.eq_of_getLsbD_eq fun i hi => ?_
  rw [getLsbD_word [] hi, BitVec.getLsbD_zero]
  rfl

/-- The bits can be read from the register again. -/
theorem word_injective {bits bits' : List Bool} (hlength : bits.length = bits'.length)
    (hle : bits.length ≤ w) (h : word w bits = word w bits') : bits = bits' := by
  refine List.ext_getElem hlength fun i hi hi' => ?_
  have hbit : (word w bits).getLsbD i = (word w bits').getLsbD i := by rw [h]
  rw [getLsbD_word bits (by omega), getLsbD_word bits' (by omega)] at hbit
  simpa [List.getD, hi, hi'] using hbit

/-- The first bit of a word leaves it, and the rest moves. -/
theorem shift_word {bit : Bool} {bits : List Bool} (hle : bits.length < w) :
    shift poly (word w (bit :: bits)) = shift poly (word w [bit]) ^^^ word w bits := by
  have hsplit : word w (bit :: bits) = word w [bit] ^^^ word w (false :: bits) := by
    refine BitVec.eq_of_getLsbD_eq fun i hi => ?_
    rw [BitVec.getLsbD_xor, getLsbD_word _ hi, getLsbD_word _ hi, getLsbD_word _ hi]
    cases i with
    | zero => simp
    | succ i => simp
  have hrest : shift poly (word w (false :: bits)) = word w bits := by
    have hfirst : (word w (false :: bits)).getLsbD 0 = false := getLsbD_word _ (by omega)
    unfold shift
    rw [hfirst, if_neg Bool.false_ne_true]
    refine BitVec.eq_of_getLsbD_eq fun i hi => ?_
    rw [BitVec.getLsbD_ushiftRight, getLsbD_word _ hi]
    by_cases hlt : 1 + i < w
    · rw [getLsbD_word _ hlt, Nat.add_comm, List.getD_cons_succ]
    · -- all bits of the message have been taken
      rw [BitVec.getLsbD_of_ge _ _ (Nat.not_lt.mp hlt), List.getD_eq_getElem?_getD,
        List.getElem?_eq_none (by omega), Option.getD_none]
  rw [hsplit, shift_xor, hrest]

/-- Bits may be taken together, up to the length of the register. -/
theorem feedAll_eq_shifts {bits : List Bool} (hle : bits.length ≤ w) (crc : BitVec w) :
    feedAll poly crc bits = shifts poly bits.length (crc ^^^ word w bits) := by
  induction bits generalizing crc with
  | nil => rw [word_nil, BitVec.xor_zero]; rfl
  | cons bit bits ih =>
    rw [List.length_cons] at hle
    have hmove : shift poly (word w (bit :: bits)) = shift poly (word w [bit]) ^^^ word w bits :=
      shift_word (by omega)
    calc feedAll poly crc (bit :: bits)
        = feedAll poly (feed poly crc bit) bits := rfl
      _ = shifts poly bits.length (feed poly crc bit ^^^ word w bits) := ih (by omega) _
      _ = shifts poly bits.length (shift poly (crc ^^^ word w (bit :: bits))) := by
          rw [feed, shift_xor, shift_xor, hmove, BitVec.xor_assoc]
      _ = shifts poly (bits.length + 1) (crc ^^^ word w (bit :: bits)) := rfl

theorem feedAll_append (crc : BitVec w) (bits bits' : List Bool) :
    feedAll poly crc (bits ++ bits') = feedAll poly (feedAll poly crc bits) bits' :=
  List.foldl_append

/-! ## Errors -/

/-- The bit that has left can be told from the highest one. -/
theorem shift_injective (hpoly : poly.msb = true) {a b : BitVec w} (h : shift poly a = shift poly b) :
    a = b := by
  have hw : 0 < w := by
    refine Nat.pos_of_ne_zero fun hzero => ?_
    subst hzero
    rw [BitVec.of_length_zero (x := poly)] at hpoly
    cases hpoly
  have htop : ∀ x : BitVec w, (x >>> 1).getLsbD (w - 1) = false := by
    intro x
    rw [BitVec.getLsbD_ushiftRight, BitVec.getLsbD_of_ge]
    omega
  have hout : ∀ x : BitVec w, (shift poly x).getLsbD (w - 1) = x.getLsbD 0 := by
    intro x
    rw [BitVec.msb_eq_getLsbD_last] at hpoly
    unfold shift
    split_ifs with hbit
    · rw [BitVec.getLsbD_xor, htop, hpoly, hbit]
      rfl
    · rw [htop]
      exact (Bool.eq_false_iff.mpr hbit).symm
  have hbit : a.getLsbD 0 = b.getLsbD 0 := by rw [← hout a, ← hout b, h]
  have hmove : a >>> 1 = b >>> 1 := by
    unfold shift at h
    rw [hbit] at h
    split_ifs at h
    · exact (BitVec.xor_left_inj poly).mp h
    · exact h
  refine BitVec.eq_of_getLsbD_eq fun i hi => ?_
  cases i with
  | zero => exact hbit
  | succ i =>
    have hrest : (a >>> 1).getLsbD i = (b >>> 1).getLsbD i := by rw [hmove]
    rwa [BitVec.getLsbD_ushiftRight, BitVec.getLsbD_ushiftRight, Nat.add_comm] at hrest

theorem shifts_injective (hpoly : poly.msb = true) {n : Nat} {a b : BitVec w}
    (h : shifts poly n a = shifts poly n b) : a = b := by
  induction n generalizing a b with
  | zero => exact h
  | succ n ih => exact shift_injective hpoly (ih h)

theorem feedAll_injective (hpoly : poly.msb = true) {bits : List Bool} {a b : BitVec w}
    (h : feedAll poly a bits = feedAll poly b bits) : a = b := by
  induction bits generalizing a b with
  | nil => exact h
  | cons bit bits ih => exact (BitVec.xor_left_inj _).mp (shift_injective hpoly (ih h))

/-- An error that lies within as many bits as the register has is always noticed. -/
theorem burst_noticed (hpoly : poly.msb = true) {crc : BitVec w} {before burst burst' after : List Bool}
    (hlength : burst.length = burst'.length) (hle : burst.length ≤ w) (hne : burst ≠ burst') :
    feedAll poly crc (before ++ burst ++ after) ≠ feedAll poly crc (before ++ burst' ++ after) := by
  intro h
  rw [feedAll_append, feedAll_append, feedAll_append, feedAll_append] at h
  have hburst : feedAll poly (feedAll poly crc before) burst =
      feedAll poly (feedAll poly crc before) burst' := feedAll_injective hpoly h
  have hle' : burst'.length ≤ w := hlength ▸ hle
  rw [feedAll_eq_shifts hle, feedAll_eq_shifts hle', ← hlength] at hburst
  exact hne (word_injective hlength hle ((BitVec.xor_right_inj _).mp (shifts_injective hpoly hburst)))

end JxCore.Lib.Crc
