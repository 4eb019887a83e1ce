import Mathlib.Data.Nat.Bitwise
import JxCore.Core.LzoAgree
import JxCore.Core.LzoCompress

/-!
# Matches and what they mean (`core/minilzo.c`)

The compressor writes a match in one of four forms, and a length that is too large for its form is
written in the bytes that follow. `Encodes` says that the decompressor gets the offset and the length
back, whatever number of literals is entered into the match later.
-/

namespace JxCore.Lzo

open Lib.Lz

/-! ## Bytes of the compressor -/

section Bytes

variable {n t : Nat} {b₀ b₁ : BitVec 8}

theorem toNat_lzoByte (n : Nat) : (lzoByte n).toNat = n % 256 := by
  rw [lzoByte, BitVec.toNat_ofNat, Nat.and_two_pow_sub_one_eq_mod n 8, Nat.mod_mod]

theorem toNat_lzoByte_of_lt (h : n < 256) : (lzoByte n).toNat = n := by
  rw [toNat_lzoByte, Nat.mod_eq_of_lt h]

/-- The number of literals goes into the two lowest bits. -/
theorem toNat_or_lzoByte (hb : b₀.toNat % 4 = 0) (ht : t < 4) :
    (b₀ ||| lzoByte t).toNat = b₀.toNat + t := by
  have hsplit : b₀.toNat = 2 ^ 2 * (b₀.toNat / 4) := by omega
  rw [BitVec.toNat_or, toNat_lzoByte_of_lt (by omega), hsplit, ← Nat.two_pow_add_eq_or_of_lt ht]

theorem or_lzoByte_zero : b₀ ||| lzoByte 0 = b₀ := by
  refine BitVec.eq_of_toNat_eq ?_
  rw [BitVec.toNat_or, toNat_lzoByte_of_lt (by decide), Nat.or_zero]

theorem modify_append_pair {α : Type} (l : List α) (a b : α) (f : α → α) :
    (l ++ [a, b]).modify l.length f = l ++ [f a, b] := by
  induction l with
  | nil => rfl
  | cons x l ih => exact congrArg (x :: ·) ih

theorem orBack_eq (pre : List (BitVec 8)) :
    orBack t (pre ++ [b₀, b₁]) = some (pre ++ [b₀ ||| lzoByte t, b₁]) := by
  have hlength : (pre ++ [b₀, b₁]).length = pre.length + 2 := List.length_append
  unfold orBack
  rw [hlength, if_pos (Nat.le_add_left 2 _), Nat.add_sub_cancel, modify_append_pair]

theorem lengthBytes_ne_nil : lengthBytes n ≠ [] := by
  unfold lengthBytes
  split
  · exact List.cons_ne_nil _ _
  · exact List.cons_ne_nil _ _

end Bytes

/-! ## What is in the input -/

/-- The input has `bytes` at `ip`. -/
def Config.Has (c : Config) (ip : Nat) (bytes : List (BitVec 8)) : Prop := bytes <+: c.mem.drop ip

/-- The buffers are large enough for a text of `n` bytes. -/
structure Config.Holds (c : Config) (n : Nat) : Prop where
  sized : c.Sized
  inLen : c.inLen = c.mem.length
  outLen : n ≤ c.outLen
  room : c.outLen ≤ c.room

section Has

variable {c : Config} {ip n : Nat} {b : BitVec 8} {bytes bytes' : List (BitVec 8)} {s : St}

theorem Config.Has.right (h : c.Has ip (bytes ++ bytes')) : c.Has (ip + bytes.length) bytes' := by
  obtain ⟨rest, hrest⟩ := h
  refine ⟨rest, ?_⟩
  rw [← List.drop_drop, ← hrest, List.append_assoc, List.drop_left]

theorem Config.Has.left (h : c.Has ip (bytes ++ bytes')) : c.Has ip bytes :=
  (List.prefix_append _ _).trans h

theorem Config.Has.tail (h : c.Has ip (b :: bytes)) : c.Has (ip + 1) bytes :=
  @Config.Has.right c ip [b] bytes h

theorem Config.Has.lt (h : c.Has ip (b :: bytes)) : ip + bytes.length < c.mem.length := by
  have hle := h.length_le
  rw [List.length_drop, List.length_cons] at hle
  omega

theorem Config.Has.drop (h : c.Has ip (b :: bytes)) : c.mem.drop ip = b :: c.mem.drop (ip + 1) := by
  obtain ⟨rest, hrest⟩ := h
  rw [← List.drop_drop, ← hrest]
  rfl

theorem Config.Has.read (h : c.Has ip (b :: bytes)) : c.read ip = pure b.toNat := by
  have hget : c.mem[ip]? = some b := by
    rw [← List.head?_drop, h.drop]
    rfl
  unfold Config.read
  rw [hget]

theorem Config.Has.take (h : c.Has ip bytes) : (c.mem.drop ip).take bytes.length = bytes :=
  (List.prefix_iff_eq_take.mp h).symm

/-- Literals that the input has are copied. -/
theorem copyLiterals_has (h : c.Has s.ip (bytes ++ [b])) (hroom : s.op.length + bytes.length ≤ c.room) :
    c.copyLiterals bytes.length s = pure ⟨s.ip + bytes.length, s.op ++ bytes⟩ := by
  have hlt := h.right.lt
  unfold Config.copyLiterals Config.put
  rw [h.left.take, if_pos (by simp only [List.length_nil] at hlt; omega),
    if_pos (by rw [List.length_append]; exact hroom), pure_bind]

/-! ## Lengths -/

/-- The decompressor gets a length back from its bytes. -/
theorem zeroRun_lengthBytes {base t : Nat} (hholds : c.Holds n) {m : Nat} (hm : 0 < m)
    (hsmall : t + m + base < 2 ^ 32) (h : c.Has s.ip (lengthBytes m)) :
    c.zeroRun base (c.mem.drop s.ip) t s =
      pure (t + m + base, ⟨s.ip + (lengthBytes m).length, s.op⟩) := by
  induction m using Nat.strongRecOn generalizing t s with
  | ind m ih =>
    by_cases hlong : 255 < m
    · have hbytes : lengthBytes m = 0#8 :: lengthBytes (m - 255) := by
        rw [lengthBytes, if_pos hlong]
      rw [hbytes] at h
      have hlt := h.tail.length_le
      have hpos : 0 < (lengthBytes (m - 255)).length := List.length_pos_iff.mpr lengthBytes_ne_nil
      rw [List.length_drop] at hlt
      have hneed : c.needIp 1 ⟨s.ip + 1, s.op⟩ = pure () := by
        refine needIp_ok hholds.sized ?_
        rw [hholds.inLen]
        show s.ip + 1 + 1 ≤ c.mem.length
        omega
      have hcount : u4 (t + 255) = t + 255 := u4_of_lt (by omega)
      rw [h.drop, Config.zeroRun, if_pos (show (0#8 : BitVec 8).toNat = 0 from rfl), hneed, pure_bind, hcount]
      have hrest := @ih (m - 255) (by omega) ⟨s.ip + 1, s.op⟩ (t + 255) (by omega) (by omega) h.tail
      have hsum : t + 255 + (m - 255) + base = t + m + base := by omega
      simp only at hrest
      rw [hrest, hsum, hbytes, List.length_cons, Nat.add_assoc s.ip 1, Nat.add_comm 1]
    · have hbytes : lengthBytes m = [lzoByte m] := by
        rw [lengthBytes, if_neg hlong]
      rw [hbytes] at h
      have hbyte : (lzoByte m).toNat = m := toNat_lzoByte_of_lt (by omega)
      have hcount : u4 (t + (base + m)) = t + m + base := by
        rw [u4_of_lt (by omega)]
        omega
      rw [h.drop, Config.zeroRun, if_neg (by omega), hbyte, hcount, hbytes]
      rfl

theorem runLength_lengthBytes {base : Nat} (hholds : c.Holds n) {m : Nat} (hm : 0 < m)
    (hsmall : m + base < 2 ^ 32) (h : c.Has s.ip (lengthBytes m)) :
    c.runLength base 0 s = pure (m + base, ⟨s.ip + (lengthBytes m).length, s.op⟩) := by
  have hneed : c.needIp 1 s = pure () := by
    refine needIp_ok hholds.sized ?_
    have hlt := h.length_le
    have hpos : 0 < (lengthBytes m).length := List.length_pos_iff.mpr lengthBytes_ne_nil
    rw [List.length_drop] at hlt
    rw [hholds.inLen]
    omega
  unfold Config.runLength
  rw [if_pos rfl, hneed, pure_bind, zeroRun_lengthBytes hholds hm (by omega) h, Nat.zero_add]

/-- How a length `m` is written: into its code if it is at most `base`, else into the bytes that follow. -/
def Counted (base l : Nat) (lens : List (BitVec 8)) (m : Nat) : Prop :=
  (l = m ∧ lens = [] ∧ 0 < m) ∨ (l = 0 ∧ lens = lengthBytes (m - base) ∧ base < m)

theorem runLength_counted {base l m : Nat} {lens : List (BitVec 8)} (hholds : c.Holds n)
    (hcounted : Counted base l lens m) (hsmall : m < 2 ^ 32) (h : c.Has s.ip lens) :
    c.runLength base l s = pure (m, ⟨s.ip + lens.length, s.op⟩) := by
  rcases hcounted with ⟨rfl, rfl, hpos⟩ | ⟨rfl, rfl, hlt⟩
  · unfold Config.runLength
    rw [if_neg (Nat.pos_iff_ne_zero.mp hpos)]
    rfl
  · have hm : m - base + base = m := Nat.sub_add_cancel (Nat.le_of_lt hlt)
    rw [runLength_lengthBytes hholds (Nat.sub_pos_of_lt hlt) (by omega) h, hm]

end Has

/-! ## Matches -/

/-- Where the decompressor finds `pre`, `b₀` and `b₁`, it repeats `len` bytes from `off` places back. The
number of literals that follow may be entered into `b₀` later. -/
structure Encodes (pre : List (BitVec 8)) (b₀ b₁ : BitVec 8) (off len : Nat) : Prop where
  low : b₀.toNat % 4 = 0
  decodes : ∀ (c : Config) (n t : Nat) (s : St), c.Holds n → t < 4 →
    c.Has s.ip (pre ++ [b₀ ||| lzoByte t, b₁]) → off ≤ s.op.length → s.op.length + len ≤ n →
    ∃ first second rest, pre ++ [b₀ ||| lzoByte t, b₁] = first :: second :: rest ∧ 16 ≤ first.toNat ∧
      c.stepCode first.toNat ⟨s.ip + 1, s.op⟩ =
        pure (.matchDone, ⟨s.ip + pre.length + 2, copyBack off len s.op⟩)

section Encodes

variable {c : Config} {n off len l o h : Nat} {lens : List (BitVec 8)}

theorem copyMatch_holds {t : Nat} {copy : List (BitVec 8) → List (BitVec 8)} {s : St}
    (hholds : c.Holds n) (hpos : 0 < off) (hnear : off ≤ s.op.length) (hroom : s.op.length + len ≤ n)
    (ht : 0 < t) (hcopy : Repeats off len copy) :
    c.copyMatch off len t copy s = pure (.matchDone, ⟨s.ip, copyBack off len s.op⟩) := by
  have hout : s.op.length + len ≤ c.outLen := Nat.le_trans hroom hholds.outLen
  have hlength : (copyBack off len s.op).length = s.op.length + len := length_copyBack hpos hnear
  unfold Config.copyMatch Config.testLookbehind Config.positive Config.put
  rw [if_neg fun h => absurd h.2 (Nat.not_lt.mpr hnear), if_neg (by omega), pure_bind,
    needOp_ok hholds.sized fun _ => hout, pure_bind, if_pos ht, pure_bind, hcopy.drop hnear, hlength,
    if_pos (Nat.le_trans hout hholds.room), pure_bind]

theorem toNat_shortByte (hlen : 3 ≤ len) (hle : len ≤ 8) :
    (lzoByte ((len - 1) <<< 5 ||| (o &&& 7) <<< 2)).toNat = (len - 1) * 32 + o % 8 * 4 := by
  have hlow : (o &&& 7) <<< 2 = o % 8 * 4 := by
    rw [Nat.and_two_pow_sub_one_eq_mod o 3, Nat.shiftLeft_eq]
  have hsplit : (len - 1) <<< 5 ||| (o &&& 7) <<< 2 = (len - 1) * 32 + o % 8 * 4 := by
    rw [hlow, ← Nat.shiftLeft_add_eq_or_of_lt (by omega), Nat.shiftLeft_eq]
  rw [hsplit, toNat_lzoByte_of_lt (by omega)]

/-- A short match that is near. -/
theorem encodes_m2 (hlen : 3 ≤ len) (hle : len ≤ 8) (hpos : 0 < off) (hoff : off ≤ 0x800) :
    Encodes [] (lzoByte ((len - 1) <<< 5 ||| ((off - 1) &&& 7) <<< 2)) (lzoByte ((off - 1) >>> 3)) off
      len := by
  have hb₀ := toNat_shortByte (o := off - 1) hlen hle
  have hb₁ : (lzoByte ((off - 1) >>> 3)).toNat = (off - 1) / 8 := by
    rw [Nat.shiftRight_eq_div_pow, toNat_lzoByte_of_lt (by omega)]
  have hlow : (lzoByte ((len - 1) <<< 5 ||| ((off - 1) &&& 7) <<< 2)).toNat % 4 = 0 := by omega
  refine ⟨hlow, fun c n t s hholds ht h hnear hroom => ?_⟩
  have hfirst := toNat_or_lzoByte hlow ht
  have hcode : 64 ≤ (len - 1) * 32 + (off - 1) % 8 * 4 + t := by omega
  have hdist : 1 + (((len - 1) * 32 + (off - 1) % 8 * 4 + t) >>> 2 &&& 7) + ((off - 1) / 8) <<< 3 = off := by
    rw [Nat.and_two_pow_sub_one_eq_mod _ 3, Nat.shiftRight_eq_div_pow, Nat.shiftLeft_eq]
    omega
  have hcount : ((len - 1) * 32 + (off - 1) % 8 * 4 + t) >>> 5 - 1 = len - 2 := by
    rw [Nat.shiftRight_eq_div_pow]
    omega
  have htwo : len - 2 + 2 = len := Nat.sub_add_cancel (by omega)
  refine ⟨_, _, _, rfl, ?_, ?_⟩
  · omega
  unfold Config.stepCode
  rw [hfirst, hb₀, if_pos hcode, Config.Has.read h.tail, pure_bind, hb₁]
  simp only
  rw [hdist, hcount, htwo]
  exact copyMatch_holds (s := ⟨s.ip + 2, s.op⟩) hholds hpos hnear hroom (by omega)
    repeats_copyBack

theorem toNat_offsetLow (o : Nat) : (lzoByte ((o &&& 63) <<< 2)).toNat = o % 64 * 4 := by
  rw [Nat.and_two_pow_sub_one_eq_mod o 6, Nat.shiftLeft_eq, toNat_lzoByte_of_lt (by omega)]

theorem toNat_offsetHigh (o : Nat) : (lzoByte (o >>> 6)).toNat = o / 64 % 256 := by
  rw [Nat.shiftRight_eq_div_pow, toNat_lzoByte]

theorem offset_decodes {t : Nat} (o : Nat) (ht : t < 4) :
    (o % 64 * 4 + t + (o / 64 % 256) <<< 8) >>> 2 = o % 0x4000 := by
  rw [Nat.shiftLeft_eq, Nat.shiftRight_eq_div_pow]
  omega

/-- A byte comes in front of the two bytes of the offset. -/
theorem exists_second (first b₀ b₁ : BitVec 8) (lens : List (BitVec 8)) :
    ∃ second rest, first :: lens ++ [b₀, b₁] = first :: second :: rest := by
  cases lens with
  | nil => exact ⟨b₀, [b₁], rfl⟩
  | cons second rest => exact ⟨second, rest ++ [b₀, b₁], rfl⟩

theorem encodes_m3 (hcounted : Counted 31 l lens (len - 2)) (hl : l < 32) (hpos : 0 < off)
    (hoff : off ≤ 0x4000) :
    Encodes (lzoByte (32 ||| l) :: lens) (lzoByte (((off - 1) &&& 63) <<< 2)) (lzoByte ((off - 1) >>> 6))
      off len := by
  have hlow : (lzoByte (((off - 1) &&& 63) <<< 2)).toNat % 4 = 0 := by
    rw [toNat_offsetLow]
    omega
  have hcode : (lzoByte (32 ||| l)).toNat = 32 + l := by
    have hor : 32 + l = 32 ||| l := Nat.two_pow_add_eq_or_of_lt (i := 5) hl 1
    rw [← hor, toNat_lzoByte_of_lt (by omega)]
  refine ⟨hlow, fun c n t s hholds ht h hnear hroom => ?_⟩
  obtain ⟨second, rest, hcons⟩ := exists_second (lzoByte (32 ||| l))
    (lzoByte (((off - 1) &&& 63) <<< 2) ||| lzoByte t) (lzoByte ((off - 1) >>> 6)) lens
  refine ⟨_, second, rest, hcons, by omega, ?_⟩
  have hlen : 3 ≤ len := by
    rcases hcounted with hcounted | hcounted <;> omega
  have hout := hholds.outLen
  have hsized := hholds.sized.output
  have hand : 32 + l &&& 31 = l := by
    rw [Nat.and_two_pow_sub_one_eq_mod _ 5]
    omega
  have htail : c.Has (s.ip + 1) (lens ++ [lzoByte (((off - 1) &&& 63) <<< 2) ||| lzoByte t,
      lzoByte ((off - 1) >>> 6)]) := h.tail
  have hrun := runLength_counted (s := ⟨s.ip + 1, s.op⟩) hholds hcounted (by omega) htail.left
  have hb₀ := htail.right.read
  have hb₁ := htail.right.tail.read
  rw [toNat_or_lzoByte hlow ht, toNat_offsetLow] at hb₀
  rw [toNat_offsetHigh] at hb₁
  have hdist : 1 + (off - 1) % 0x4000 = off := by omega
  have htwo : len - 2 + 2 = len := Nat.sub_add_cancel (by omega)
  unfold Config.stepCode
  rw [hcode, if_neg (by omega), if_pos (by omega), hand, hrun, pure_bind]
  simp only
  rw [hb₀, pure_bind, hb₁, pure_bind, offset_decodes _ ht, hdist, htwo, List.length_cons,
    Nat.add_comm lens.length 1, ← Nat.add_assoc]
  refine copyMatch_holds (s := ⟨s.ip + 1 + lens.length + 2, s.op⟩) hholds hpos hnear hroom (by omega) ?_
  exact htwo ▸ repeats_copyLong hpos

/-- The bit of the offset that goes into the code. -/
theorem highBit (o : Nat) : (o &&& 0x4000) >>> 11 = 8 * (o / 0x4000 % 2) := by
  have hand : o &&& 0x4000 = o / 0x4000 % 2 * 0x4000 := by
    rw [← Nat.toNat_testBit o 14]
    exact Nat.and_two_pow o 14
  rw [hand, Nat.shiftRight_eq_div_pow]
  omega

theorem encodes_m4 (hcounted : Counted 7 l lens (len - 2)) (hl : l < 8) (hpos : 0x4000 < off)
    (hoff : off ≤ 0xbfff) :
    Encodes (lzoByte (16 ||| ((off - 0x4000) &&& 0x4000) >>> 11 ||| l) :: lens)
      (lzoByte (((off - 0x4000) &&& 63) <<< 2)) (lzoByte ((off - 0x4000) >>> 6)) off len := by
  generalize ho : off - 0x4000 = o
  have hlow : (lzoByte ((o &&& 63) <<< 2)).toNat % 4 = 0 := by
    rw [toNat_offsetLow]
    omega
  have hcode : (lzoByte (16 ||| (o &&& 0x4000) >>> 11 ||| l)).toNat = 16 + 8 * (o / 0x4000 % 2) + l := by
    have hhigh : 16 ||| (o &&& 0x4000) >>> 11 = 8 * (2 + o / 0x4000 % 2) := by
      rw [highBit]
      rcases Nat.mod_two_eq_zero_or_one (o / 0x4000) with hbit | hbit
      · rw [hbit]
        rfl
      · rw [hbit]
        rfl
    have hor : 8 * (2 + o / 0x4000 % 2) + l = 8 * (2 + o / 0x4000 % 2) ||| l :=
      Nat.two_pow_add_eq_or_of_lt (i := 3) hl _
    rw [hhigh, ← hor, toNat_lzoByte_of_lt (by omega)]
    omega
  refine ⟨hlow, fun c n t s hholds ht h hnear hroom => ?_⟩
  obtain ⟨second, rest, hcons⟩ := exists_second (lzoByte (16 ||| (o &&& 0x4000) >>> 11 ||| l))
    (lzoByte ((o &&& 63) <<< 2) ||| lzoByte t) (lzoByte (o >>> 6)) lens
  refine ⟨_, second, rest, hcons, by omega, ?_⟩
  have hlen : 3 ≤ len := by
    rcases hcounted with hcounted | hcounted <;> omega
  have hout := hholds.outLen
  have hsized := hholds.sized.output
  have hand : 16 + 8 * (o / 0x4000 % 2) + l &&& 7 = l := by
    rw [Nat.and_two_pow_sub_one_eq_mod _ 3]
    omega
  have hhigh : (16 + 8 * (o / 0x4000 % 2) + l &&& 8) <<< 11 = o / 0x4000 % 2 * 0x4000 := by
    have hbit : 16 + 8 * (o / 0x4000 % 2) + l &&& 8 = (16 + 8 * (o / 0x4000 % 2) + l) / 8 % 2 * 8 := by
      rw [← Nat.toNat_testBit _ 3]
      exact Nat.and_two_pow _ 3
    rw [hbit, Nat.shiftLeft_eq]
    omega
  have htail : c.Has (s.ip + 1) (lens ++ [lzoByte ((o &&& 63) <<< 2) ||| lzoByte t, lzoByte (o >>> 6)]) :=
    h.tail
  have hrun := runLength_counted (s := ⟨s.ip + 1, s.op⟩) hholds hcounted (by omega) htail.left
  have hb₀ := htail.right.read
  have hb₁ := htail.right.tail.read
  rw [toNat_or_lzoByte hlow ht, toNat_offsetLow] at hb₀
  rw [toNat_offsetHigh] at hb₁
  have hdist : o / 0x4000 % 2 * 0x4000 + o % 0x4000 = o := by omega
  have hback : o + 0x4000 = off := by omega
  have htwo : len - 2 + 2 = len := Nat.sub_add_cancel (by omega)
  unfold Config.stepCode
  rw [hcode, if_neg (by omega), if_neg (by omega), if_pos (by omega), hand, hhigh, hrun, pure_bind]
  simp only
  rw [hb₀, pure_bind, hb₁, pure_bind, offset_decodes _ ht, hdist, if_neg (by omega), hback, htwo,
    List.length_cons, Nat.add_comm lens.length 1, ← Nat.add_assoc]
  refine copyMatch_holds (s := ⟨s.ip + 1 + lens.length + 2, s.op⟩) hholds (by omega) hnear hroom
    (by omega) ?_
  exact htwo ▸ repeats_copyLong (by omega)

theorem shortMatch_encodes (hlen : 3 ≤ len) (hle : len ≤ 8) (hpos : 0 < off) (hoff : off ≤ 0xbfff) :
    ∃ pre b₀ b₁, shortMatch off len = pre ++ [b₀, b₁] ∧ Encodes pre b₀ b₁ off len := by
  unfold shortMatch
  split
  · exact ⟨_, _, _, rfl, encodes_m2 hlen hle hpos ‹_›⟩
  split
  · exact ⟨_, _, _, rfl, encodes_m3 (.inl ⟨rfl, rfl, by omega⟩) (by omega) hpos ‹_›⟩
  · exact ⟨_, _, _, rfl, encodes_m4 (.inl ⟨rfl, rfl, by omega⟩) (by omega) (by omega) hoff⟩

theorem longMatch_encodes (hlen : 9 ≤ len) (hpos : 0 < off) (hoff : off ≤ 0xbfff) :
    ∃ pre b₀ b₁, longMatch off len = pre ++ [b₀, b₁] ∧ Encodes pre b₀ b₁ off len := by
  unfold longMatch
  split
  · split
    · exact ⟨_, _, _, rfl, encodes_m3 (.inl ⟨rfl, rfl, by omega⟩) (by omega) hpos ‹_›⟩
    · refine ⟨_, _, _, rfl, encodes_m3 (l := 0) (.inr ⟨rfl, ?_, by omega⟩) (by omega) hpos ‹_›⟩
      rw [Nat.sub_sub]
  · split
    · exact ⟨_, _, _, rfl, encodes_m4 (.inl ⟨rfl, rfl, by omega⟩) (by omega) (by omega) hoff⟩
    · refine ⟨_, _, _, rfl, ?_⟩
      have hcounted : Counted 7 0 (lengthBytes (len - 9)) (len - 2) :=
        .inr ⟨rfl, by rw [Nat.sub_sub], by omega⟩
      have hencodes := encodes_m4 hcounted (by omega) (by omega) hoff
      rwa [Nat.or_zero] at hencodes

end Encodes

end JxCore.Lzo
