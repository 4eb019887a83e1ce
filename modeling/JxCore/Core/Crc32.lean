import JxCore.Lib.ByteFill
import JxCore.Lib.Crc

/-!
# The check of a package (`core/crc32.c`)

`crc32` takes a byte at a time with a table, and eight bytes in each turn of its loop.
-/

namespace JxCore.Crc32

open Lib.Crc Lib.Access

def crcTable : List (BitVec 32) := [
  0x00000000, 0x77073096, 0xee0e612c, 0x990951ba, 0x076dc419, 0x706af48f, 0xe963a535,
  0x9e6495a3, 0x0edb8832, 0x79dcb8a4, 0xe0d5e91e, 0x97d2d988, 0x09b64c2b, 0x7eb17cbd,
  0xe7b82d07, 0x90bf1d91, 0x1db71064, 0x6ab020f2, 0xf3b97148, 0x84be41de, 0x1adad47d,
  0x6ddde4eb, 0xf4d4b551, 0x83d385c7, 0x136c9856, 0x646ba8c0, 0xfd62f97a, 0x8a65c9ec,
  0x14015c4f, 0x63066cd9, 0xfa0f3d63, 0x8d080df5, 0x3b6e20c8, 0x4c69105e, 0xd56041e4,
  0xa2677172, 0x3c03e4d1, 0x4b04d447, 0xd20d85fd, 0xa50ab56b, 0x35b5a8fa, 0x42b2986c,
  0xdbbbc9d6, 0xacbcf940, 0x32d86ce3, 0x45df5c75, 0xdcd60dcf, 0xabd13d59, 0x26d930ac,
  0x51de003a, 0xc8d75180, 0xbfd06116, 0x21b4f4b5, 0x56b3c423, 0xcfba9599, 0xb8bda50f,
  0x2802b89e, 0x5f058808, 0xc60cd9b2, 0xb10be924, 0x2f6f7c87, 0x58684c11, 0xc1611dab,
  0xb6662d3d, 0x76dc4190, 0x01db7106, 0x98d220bc, 0xefd5102a, 0x71b18589, 0x06b6b51f,
  0x9fbfe4a5, 0xe8b8d433, 0x7807c9a2, 0x0f00f934, 0x9609a88e, 0xe10e9818, 0x7f6a0dbb,
  0x086d3d2d, 0x91646c97, 0xe6635c01, 0x6b6b51f4, 0x1c6c6162, 0x856530d8, 0xf262004e,
  0x6c0695ed, 0x1b01a57b, 0x8208f4c1, 0xf50fc457, 0x65b0d9c6, 0x12b7e950, 0x8bbeb8ea,
  0xfcb9887c, 0x62dd1ddf, 0x15da2d49, 0x8cd37cf3, 0xfbd44c65, 0x4db26158, 0x3ab551ce,
  0xa3bc0074, 0xd4bb30e2, 0x4adfa541, 0x3dd895d7, 0xa4d1c46d, 0xd3d6f4fb, 0x4369e96a,
  0x346ed9fc, 0xad678846, 0xda60b8d0, 0x44042d73, 0x33031de5, 0xaa0a4c5f, 0xdd0d7cc9,
  0x5005713c, 0x270241aa, 0xbe0b1010, 0xc90c2086, 0x5768b525, 0x206f85b3, 0xb966d409,
  0xce61e49f, 0x5edef90e, 0x29d9c998, 0xb0d09822, 0xc7d7a8b4, 0x59b33d17, 0x2eb40d81,
  0xb7bd5c3b, 0xc0ba6cad, 0xedb88320, 0x9abfb3b6, 0x03b6e20c, 0x74b1d29a, 0xead54739,
  0x9dd277af, 0x04db2615, 0x73dc1683, 0xe3630b12, 0x94643b84, 0x0d6d6a3e, 0x7a6a5aa8,
  0xe40ecf0b, 0x9309ff9d, 0x0a00ae27, 0x7d079eb1, 0xf00f9344, 0x8708a3d2, 0x1e01f268,
  0x6906c2fe, 0xf762575d, 0x806567cb, 0x196c3671, 0x6e6b06e7, 0xfed41b76, 0x89d32be0,
  0x10da7a5a, 0x67dd4acc, 0xf9b9df6f, 0x8ebeeff9, 0x17b7be43, 0x60b08ed5, 0xd6d6a3e8,
  0xa1d1937e, 0x38d8c2c4, 0x4fdff252, 0xd1bb67f1, 0xa6bc5767, 0x3fb506dd, 0x48b2364b,
  0xd80d2bda, 0xaf0a1b4c, 0x36034af6, 0x41047a60, 0xdf60efc3, 0xa867df55, 0x316e8eef,
  0x4669be79, 0xcb61b38c, 0xbc66831a, 0x256fd2a0, 0x5268e236, 0xcc0c7795, 0xbb0b4703,
  0x220216b9, 0x5505262f, 0xc5ba3bbe, 0xb2bd0b28, 0x2bb45a92, 0x5cb36a04, 0xc2d7ffa7,
  0xb5d0cf31, 0x2cd99e8b, 0x5bdeae1d, 0x9b64c2b0, 0xec63f226, 0x756aa39c, 0x026d930a,
  0x9c0906a9, 0xeb0e363f, 0x72076785, 0x05005713, 0x95bf4a82, 0xe2b87a14, 0x7bb12bae,
  0x0cb61b38, 0x92d28e9b, 0xe5d5be0d, 0x7cdcefb7, 0x0bdbdf21, 0x86d3d2d4, 0xf1d4e242,
  0x68ddb3f8, 0x1fda836e, 0x81be16cd, 0xf6b9265b, 0x6fb077e1, 0x18b74777, 0x88085ae6,
  0xff0f6a70, 0x66063bca, 0x11010b5c, 0x8f659eff, 0xf862ae69, 0x616bffd3, 0x166ccf45,
  0xa00ae278, 0xd70dd2ee, 0x4e048354, 0x3903b3c2, 0xa7672661, 0xd06016f7, 0x4969474d,
  0x3e6e77db, 0xaed16a4a, 0xd9d65adc, 0x40df0b66, 0x37d83bf0, 0xa9bcae53, 0xdebb9ec5,
  0x47b2cf7f, 0x30b5ffe9, 0xbdbdf21c, 0xcabac28a, 0x53b39330, 0x24b4a3a6, 0xbad03605,
  0xcdd70693, 0x54de5729, 0x23d967bf, 0xb3667a2e, 0xc4614ab8, 0x5d681b02, 0x2a6f2b94,
  0xb40bbe37, 0xc30c8ea1, 0x5a05df1b, 0x2d02ef8d]

/-! ## The routines -/

def crc32start : BitVec 32 := 0#32 ^^^ 0xffffffff#32

def crc32end (crc : BitVec 32) : BitVec 32 := crc ^^^ 0xffffffff#32

/-- `DO1`. -/
def do1 (crc : BitVec 32) (b : BitVec 8) : BitVec 32 :=
  crcTable.getD ((crc ^^^ b.setWidth 32) &&& 0xff#32).toNat 0#32 ^^^ crc >>> 8

/-- `DO2`. -/
def do2 (crc : BitVec 32) (b₀ b₁ : BitVec 8) : BitVec 32 := do1 (do1 crc b₀) b₁

/-- `DO4`. -/
def do4 (crc : BitVec 32) (b₀ b₁ b₂ b₃ : BitVec 8) : BitVec 32 := do2 (do2 crc b₀ b₁) b₂ b₃

/-- `DO8`. -/
def do8 (crc : BitVec 32) (b₀ b₁ b₂ b₃ b₄ b₅ b₆ b₇ : BitVec 8) : BitVec 32 :=
  do4 (do4 crc b₀ b₁ b₂ b₃) b₄ b₅ b₆ b₇

/-- `crc32`, where `len` is the length of the buffer. -/
def crc32 : BitVec 32 → List (BitVec 8) → BitVec 32
  | crc, b₀ :: b₁ :: b₂ :: b₃ :: b₄ :: b₅ :: b₆ :: b₇ :: buf =>
    crc32 (do8 crc b₀ b₁ b₂ b₃ b₄ b₅ b₆ b₇) buf
  | crc, buf => buf.foldl do1 crc

/-! ## Bit by bit -/

/-- The generator. -/
def generator : BitVec 32 := 0xedb88320#32

/-- The bits of a byte in the order in which a serial line sends them. -/
def bitsOf (b : BitVec 8) : List Bool := (List.range 8).map b.getLsbD

theorem length_bitsOf (b : BitVec 8) : (bitsOf b).length = 8 := by
  rw [bitsOf, List.length_map, List.length_range]

theorem word_bitsOf (b : BitVec 8) : word 32 (bitsOf b) = b.setWidth 32 := by
  refine BitVec.eq_of_getLsbD_eq fun i hi => ?_
  rw [getLsbD_word _ hi, BitVec.getLsbD_setWidth, decide_eq_true hi, Bool.true_and]
  by_cases hlt : i < 8
  · simp [bitsOf, List.getD, hlt]
  · rw [BitVec.getLsbD_of_ge _ _ (Nat.not_lt.mp hlt)]
    simp [bitsOf, List.getD, hlt]

/-- An entry of the table is what the bits of its index come to. -/
theorem crcTable_eq : ∀ n < 256, crcTable.getD n 0#32 = shifts generator 8 (BitVec.ofNat 32 n) := by
  decide +kernel

theorem do1_eq_feedAll (crc : BitVec 32) (b : BitVec 8) :
    do1 crc b = feedAll generator crc (bitsOf b) := by
  have hbits : ∀ i < 32, (0xff#32 : BitVec 32).getLsbD i = decide (i < 8) := by decide
  have hbyte : b.setWidth 32 >>> 8 = 0#32 := by
    refine BitVec.eq_of_getLsbD_eq fun i hi => ?_
    rw [BitVec.getLsbD_ushiftRight, BitVec.getLsbD_setWidth, BitVec.getLsbD_of_ge b _ (by omega),
      Bool.and_false, BitVec.getLsbD_zero]
  have hlt : ((crc ^^^ b.setWidth 32) &&& 0xff#32).toNat < 256 := by
    have hle := Nat.and_le_right (n := (crc ^^^ b.setWidth 32).toNat) (m := 0xff)
    rw [BitVec.toNat_and]
    exact Nat.lt_succ_of_le hle
  have htable : shifts generator 8 (crc ^^^ b.setWidth 32) =
      shifts generator 8 ((crc ^^^ b.setWidth 32) &&& 0xff#32) ^^^ (crc ^^^ b.setWidth 32) >>> 8 := by
    refine shifts_eq_table (fun i hi => ?_) ?_
    · rw [BitVec.getLsbD_and, hbits i (by omega), decide_eq_true hi, Bool.and_true]
    · refine BitVec.eq_of_getLsbD_eq fun i hi => ?_
      rw [BitVec.getLsbD_ushiftRight, BitVec.getLsbD_and, BitVec.getLsbD_zero]
      by_cases hin : 8 + i < 32
      · rw [hbits _ hin, decide_eq_false (by omega), Bool.and_false]
      · rw [BitVec.getLsbD_of_ge _ _ (Nat.not_lt.mp hin), Bool.false_and]
  rw [feedAll_eq_shifts (by rw [length_bitsOf]; omega), length_bitsOf, word_bitsOf, htable,
    BitVec.ushiftRight_xor_distrib, hbyte, BitVec.xor_zero, do1, crcTable_eq _ hlt, BitVec.ofNat_toNat,
    BitVec.setWidth_eq]

theorem foldl_do1 (buf : List (BitVec 8)) (crc : BitVec 32) :
    buf.foldl do1 crc = feedAll generator crc (buf.flatMap bitsOf) := by
  induction buf generalizing crc with
  | nil => rfl
  | cons b buf ih =>
    rw [List.foldl_cons, ih, List.flatMap_cons, feedAll_append, do1_eq_feedAll]

/-- The bytes may be taken one by one. -/
theorem crc32_eq_foldl (crc : BitVec 32) (buf : List (BitVec 8)) : crc32 crc buf = buf.foldl do1 crc := by
  fun_induction crc32 crc buf with
  | case1 crc b₀ b₁ b₂ b₃ b₄ b₅ b₆ b₇ buf ih => exact ih
  | case2 => rfl

/-- The table and the turns of eight bytes do what the shift register does bit by bit. -/
theorem crc32_eq_feedAll (crc : BitVec 32) (buf : List (BitVec 8)) :
    crc32 crc buf = feedAll generator crc (buf.flatMap bitsOf) := by
  rw [crc32_eq_foldl, foldl_do1]

/-! ## Blocks with a check -/

/-- The bytes of a `u4_t` in memory. -/
def u4Bytes (x : BitVec 32) : List (BitVec 8) := [byteOf x 0, byteOf x 1, byteOf x 2, byteOf x 3]

/-- A block with its check behind it. -/
def withCrc (block : List (BitVec 8)) : List (BitVec 8) :=
  block ++ u4Bytes (crc32end (crc32 crc32start block))

theorem word_u4Bytes (crc : BitVec 32) : word 32 ((u4Bytes crc).flatMap bitsOf) = crc := by
  have hbits : (u4Bytes crc).flatMap bitsOf = (List.range 32).map crc.getLsbD := by
    have height : List.range 8 = [0, 1, 2, 3, 4, 5, 6, 7] := rfl
    simp [u4Bytes, bitsOf, byteOf, height, List.range_succ]
  refine BitVec.eq_of_getLsbD_eq fun i hi => ?_
  rw [getLsbD_word _ hi, hbits]
  simp [List.getD, hi]

/-- The register has the same content behind each block with its check. -/
theorem feedAll_withCrc (block : List (BitVec 8)) :
    feedAll generator crc32start ((withCrc block).flatMap bitsOf) =
      shifts generator 32 (BitVec.allOnes 32) := by
  have hcancel : ∀ crc : BitVec 32, crc ^^^ crc32end crc = BitVec.allOnes 32 := by
    intro crc
    rw [crc32end, ← BitVec.xor_assoc, BitVec.xor_self, BitVec.zero_xor]
    rfl
  have hlength : ((u4Bytes (crc32end (crc32 crc32start block))).flatMap bitsOf).length = 32 := rfl
  rw [withCrc, List.flatMap_append, feedAll_append, feedAll_eq_shifts (Nat.le_of_eq hlength), hlength,
    word_u4Bytes, ← crc32_eq_feedAll, hcancel]

/-- A block with its check that is changed within 32 consecutive bits, of the block or of the check, is no
block with its check any more. -/
theorem withCrc_burst {block changed : List (BitVec 8)} {before burst burst' after : List Bool}
    (hbits : (withCrc block).flatMap bitsOf = before ++ burst ++ after)
    (hchanged : changed.flatMap bitsOf = before ++ burst' ++ after)
    (hlength : burst.length = burst'.length) (hle : burst.length ≤ 32) (hne : burst ≠ burst')
    (block' : List (BitVec 8)) : withCrc block' ≠ changed := by
  intro hsame
  have hmsb : generator.msb = true := by decide
  have hnoticed : feedAll generator crc32start (before ++ burst ++ after) ≠
      feedAll generator crc32start (before ++ burst' ++ after) := burst_noticed hmsb hlength hle hne
  rw [← hbits, ← hchanged, ← hsame, feedAll_withCrc, feedAll_withCrc] at hnoticed
  exact hnoticed rfl

/-- Another byte before the same check. -/
theorem withCrc_burst_byte : withCrc [2#8] ≠ 2#8 :: u4Bytes (crc32end (crc32 crc32start [1#8])) :=
  @withCrc_burst [1#8] _ [] (bitsOf 1#8) (bitsOf 2#8)
    ((u4Bytes (crc32end (crc32 crc32start [1#8]))).flatMap bitsOf) rfl rfl rfl (by decide) (by decide) [2#8]

end JxCore.Crc32
