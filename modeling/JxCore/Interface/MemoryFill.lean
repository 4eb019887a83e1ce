import JxCore.Interface.RegionAccess
import JxCore.Lib.ByteFill

/-!
# Filling a memory

Three operations fill a memory. `jxwmemset`, which two of them use, counts bytes. `memory_fill16`
multiplies the number of half-words by two; `memory_clear` divides the size by four, as for a loop over
words, and so clears the first quarter of the memory only.
-/

namespace JxCore.Memory

open Lib Access

/-! ## The store -/

/-- The pattern that `jxwmemset` leaves: an odd byte in front, and then half-words. -/
def halfWords (value : BitVec 16) (n i : Nat) : BitVec 8 := byteOf value ((i - n % 2) % 2)

theorem byteOf_append_self (value : BitVec 16) (i : Nat) :
    byteOf (value ++ value) (i % 4) = byteOf value (i % 2) := by
  have hcases : i % 4 = 0 ∧ i % 2 = 0 ∨ i % 4 = 1 ∧ i % 2 = 1 ∨ i % 4 = 2 ∧ i % 2 = 0 ∨
      i % 4 = 3 ∧ i % 2 = 1 := by omega
  unfold byteOf
  rcases hcases with ⟨h4, h2⟩ | ⟨h4, h2⟩ | ⟨h4, h2⟩ | ⟨h4, h2⟩
  · rw [h4, h2, BitVec.extractLsb'_append_eq_of_add_le (by omega)]
  · rw [h4, h2, BitVec.extractLsb'_append_eq_of_add_le (by omega)]
  · rw [h4, h2, BitVec.extractLsb'_append_eq_of_le (by omega)]
  · rw [h4, h2, BitVec.extractLsb'_append_eq_of_le (by omega)]

theorem does_jxwmemset (dst : Address) (value : BitVec 16) (nbytes : Jint) :
    Does (jxwmemset dst value nbytes) ()
      (Filled dst nbytes.toNat (halfWords value nbytes.toNat)) := by
  have hlt := nbytes.isLt
  have hbyte : Does (optionally (nbytes.toNat % 2 = 1)
      (write8 dst (value.extractLsb' 0 8) : Acc Unit) (dst + 1) dst)
      (dst + BitVec.ofNat 32 (nbytes.toNat % 2))
      (Filled dst (nbytes.toNat % 2) fun _ => value.extractLsb' 0 8) := by
    refine Does.optional (fun h => ?_) (fun h b => ?_) (fun h => by simp [h])
      (fun h => by rw [Nat.mod_two_ne_one.mp h, BitVec.add_zero])
    · rw [h]
      exact does_write8 dst _
    · rw [Nat.mod_two_ne_one.mp h]
      exact filled_zero dst _ b
  have hhalf : ∀ a : Address, Does (optionally (nbytes.toNat / 2 % 2 = 1)
      (write16 a value : Acc Unit) (a + 2) a) (a + BitVec.ofNat 32 (2 * (nbytes.toNat / 2 % 2)))
      (Filled a (2 * (nbytes.toNat / 2 % 2)) (byteOf value)) := by
    intro a
    refine Does.optional (fun h => ?_) (fun h b => ?_) (fun h => by simp [h])
      (fun h => by rw [Nat.mod_two_ne_one.mp h, Nat.mul_zero, BitVec.add_zero])
    · rw [h]
      exact does_write16 a value
    · rw [Nat.mod_two_ne_one.mp h]
      exact filled_zero a _ b
  have hrest : ∀ a : Address, Does (optionally (nbytes.toNat / 2 % 2 = 1)
      (write16 a value : Acc Unit) (a + 2) a >>= repStosl (value ++ value) (nbytes.toNat / 4)) ()
      (Filled a (2 * (nbytes.toNat / 2 % 2) + 4 * (nbytes.toNat / 4)) fun i => byteOf value (i % 2)) := by
    intro a
    refine (hhalf a).bind (does_repStosl (value ++ value) (by omega)) ?_
    intro old mid new hfirst hwords
    refine (hfirst.congr ?_).append (hwords.congr ?_) (by omega)
    · intro i hi
      rw [Nat.mod_eq_of_lt (by omega)]
    · intro i hi
      rw [byteOf_append_self, Nat.mul_add_mod]
  have hcount : nbytes.toNat =
      nbytes.toNat % 2 + (2 * (nbytes.toNat / 2 % 2) + 4 * (nbytes.toNat / 4)) := by omega
  refine hbyte.bind (hrest _) fun old mid new hfirst hwords => ?_
  rw [hcount]
  refine (hfirst.congr ?_).append (hwords.congr ?_) (by omega)
  · intro i hi
    have hzero : i - nbytes.toNat % 2 = 0 := by omega
    rw [← hcount, halfWords, hzero]
    rfl
  · intro i hi
    rw [← hcount, halfWords, Nat.add_sub_cancel_left]

/-! ## The three operations -/

inductive Fill where
  | clear
  | fill16 (what : BitVec 16) (pos length : Jint)
  | fill32 (what pos length : Jint)

namespace Fill

def run (self : MemoryProxy) : Fill → Acc Unit
  | clear => Memory.clear self
  | fill16 what pos length => Memory.fill16 self what pos length
  | fill32 what pos length => Memory.fill32 self what pos length

/-- Position and length are those of half-words, or words, of the memory. -/
def InRange (self : MemoryProxy) : Fill → Prop
  | clear => True
  | fill16 _ pos length => 0 ≤ pos.toInt ∧ 0 ≤ length.toInt ∧
      pos.toNat + length.toNat ≤ self.size.toNat / 2
  | fill32 _ pos length => 0 ≤ pos.toInt ∧ 0 ≤ length.toInt ∧
      pos.toNat + length.toNat ≤ self.size.toNat / 4

/-- Where the bytes to be filled begin. -/
def start (self : MemoryProxy) : Fill → Address
  | clear => self.mem
  | fill16 _ pos _ => self.mem + 2 * pos
  | fill32 _ pos _ => self.mem + 4 * pos

/-- How many bytes there are to be filled. -/
def count (self : MemoryProxy) : Fill → Nat
  | clear => self.size.toNat
  | fill16 _ _ length => 2 * length.toNat
  | fill32 _ _ length => 4 * length.toNat

/-- What they are to be filled with. -/
def pattern : Fill → Nat → BitVec 8
  | clear, _ => 0
  | fill16 what _ _, i => byteOf what (i % 2)
  | fill32 what _ _, i => byteOf what (i % 4)

/-- Whatever was in the memory before, the operation writes the intended bytes, with the intended
values, and no others. -/
structure Correct (p : MemoryProxy) (f : Fill) : Prop where
  bytes : Does (f.run p) () (Filled (f.start p) (f.count p) f.pattern)
  writes : Footprint (f.run p) (fun _ => False) (Run (f.start p) (f.count p))

end Fill

section Correct

variable {p : MemoryProxy} (hp : p.Wf)

include hp

theorem correct_fill16 {what : BitVec 16} {pos length : Jint}
    (h : (Fill.fill16 what pos length).InRange p) : (Fill.fill16 what pos length).Correct p := by
  obtain ⟨hpos, hlength, hsum⟩ := h
  have hsize := hp.size_lt
  have htest : ¬ (p.size / 2).ult (pos + length) = true := by
    rw [BitVec.ult, decide_eq_true_eq, BitVec.toNat_udiv, BitVec.toNat_add,
      Nat.mod_eq_of_lt (by omega)]
    show ¬ p.size.toNat / 2 < _
    omega
  have hcount : (length * 2).toNat = 2 * length.toNat := by
    rw [BitVec.toNat_mul]
    show length.toNat * 2 % 2 ^ 32 = _
    omega
  have hrun : (Fill.fill16 what pos length).run p =
      jxwmemset (p.mem + 2 * pos) what (length * 2) := by
    show fill16 p what pos length = _
    rw [fill16, checkValid_bind hp, if_neg htest]
  have hdoes := does_jxwmemset (p.mem + 2 * pos) what (length * 2)
  have hfoot := footprint_jxwmemset (p.mem + 2 * pos) what (length * 2)
  rw [hcount] at hdoes hfoot
  constructor
  · rw [hrun]
    intro m
    obtain ⟨m', hm', hfilled⟩ := hdoes m
    refine ⟨m', hm', hfilled.congr fun i _ => ?_⟩
    rw [halfWords, Nat.mul_mod_right, Nat.sub_zero]
    rfl
  · rw [hrun]
    exact hfoot

theorem correct_fill32 {what pos length : Jint} (h : (Fill.fill32 what pos length).InRange p) :
    (Fill.fill32 what pos length).Correct p := by
  obtain ⟨hpos, hlength, hsum⟩ := h
  have hsize := hp.size_lt
  have htest : ¬ (p.size / 4).ult (pos + length) = true := by
    rw [BitVec.ult, decide_eq_true_eq, BitVec.toNat_udiv, BitVec.toNat_add,
      Nat.mod_eq_of_lt (by omega)]
    show ¬ p.size.toNat / 4 < _
    omega
  have hcount : length.toInt.toNat = length.toNat := by
    rcases toInt_cases length with ⟨-, heq⟩ | ⟨-, -, heq⟩ <;> omega
  have hrun : (Fill.fill32 what pos length).run p =
      repStosl what length.toNat (p.mem + 4 * pos) := by
    show fill32 p what pos length = _
    rw [fill32, checkValid_bind hp, if_neg htest, hcount]
  constructor
  · rw [hrun]
    exact does_repStosl what (by omega)
  · rw [hrun]
    exact Footprint.repStosl what length.toNat (p.mem + 4 * pos)

/-- A quarter of the bytes is cleared, and that is all of them only if there are none. -/
theorem correct_clear_iff : Fill.clear.Correct p ↔ p.size = 0 := by
  have hrun : Fill.clear.run p = jxwmemset p.mem 0 (p.size / 4) := by
    show clear p = _
    rw [clear, checkValid_bind hp]
  have hcount : (p.size / 4).toNat = p.size.toNat / 4 := BitVec.toNat_udiv
  have hdoes := does_jxwmemset p.mem 0 (p.size / 4)
  rw [hcount] at hdoes
  constructor
  · intro h
    by_contra hne
    have hpos : p.size.toNat ≠ 0 := fun hzero => hne (BitVec.eq_of_toNat_eq hzero)
    -- the last byte, in a memory full of ones
    obtain ⟨m, hm, hfilled⟩ := h.bytes ⟨fun _ => 1, [], []⟩
    obtain ⟨m', hm', hpart⟩ := hdoes ⟨fun _ => 1, [], []⟩
    rw [hrun, hm'] at hm
    obtain rfl := (Prod.mk.inj hm).2
    have hlast := hfilled.target (p.size.toNat - 1) (by show _ < p.size.toNat; omega)
    have hout : ¬ Run p.mem (p.size.toNat / 4) (p.mem + BitVec.ofNat 32 (p.size.toNat - 1)) := by
      rintro ⟨i, hi, heq⟩
      have hlt := p.size.isLt
      have := ofNat_inj (by omega) (by omega) heq
      omega
    have hkept := hpart.other _ hout
    have hone : (1 : BitVec 8) = 0 := hkept.symm.trans hlast
    exact absurd hone (by decide)
  · intro hzero
    have hsize : p.size.toNat = 0 := congrArg BitVec.toNat hzero
    have hfoot := footprint_jxwmemset p.mem 0 (p.size / 4)
    rw [hcount, hsize] at hfoot
    rw [hsize] at hdoes
    constructor
    · rw [hrun]
      intro m
      obtain ⟨m', hm', hfilled⟩ := hdoes m
      refine ⟨m', hm', ?_⟩
      show Filled p.mem p.size.toNat _ _ _
      rw [hsize]
      exact hfilled.congr fun i hi => absurd hi (Nat.not_lt_zero i)
    · rw [hrun]
      show Footprint _ _ (Run p.mem p.size.toNat)
      rw [hsize]
      exact hfoot

/-- The fills are right for all arguments in range, and clearing is right for the empty memory only. -/
theorem fill_correct_iff {f : Fill} (h : f.InRange p) : f.Correct p ↔ (f = .clear → p.size = 0) := by
  cases f with
  | clear =>
    rw [correct_clear_iff hp]
    simp
  | fill16 what pos length => exact iff_of_true (correct_fill16 hp h) nofun
  | fill32 what pos length => exact iff_of_true (correct_fill32 hp h) nofun

end Correct

/-- Three half-words, from the second one on, in a memory of nine bytes. -/
theorem fill_correct_odd :
    (⟨9, 0x100000, true⟩ : MemoryProxy).Wf ∧
      (Fill.fill16 0x1234 1 3).Correct ⟨9, 0x100000, true⟩ := by
  have hp : (⟨9, 0x100000, true⟩ : MemoryProxy).Wf := ⟨rfl, by decide⟩
  refine ⟨hp, (fill_correct_iff hp ?_).mpr nofun⟩
  exact ⟨by decide, by decide, by decide⟩

/-- Of sixteen bytes four are cleared. -/
theorem not_fill_correct_clear :
    (⟨16, 0x100000, true⟩ : MemoryProxy).Wf ∧ Fill.clear.InRange ⟨16, 0x100000, true⟩ ∧
      ¬ Fill.clear.Correct ⟨16, 0x100000, true⟩ := by
  have hp : (⟨16, 0x100000, true⟩ : MemoryProxy).Wf := ⟨rfl, by decide⟩
  refine ⟨hp, trivial, fun hcorrect => ?_⟩
  have hzero := (correct_clear_iff hp).mp hcorrect
  exact absurd hzero (by decide)

end JxCore.Memory
