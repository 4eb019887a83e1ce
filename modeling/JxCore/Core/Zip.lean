import JxCore.Basic
import JxCore.Lib.Reader

/-!
# The boot archive (`core/zip.c`, `read_codefile` of `core/load.c`)

The boot module is a zip file with uncompressed entries. `zip_init` copies the central directory, and
`zip_next_entry` walks over the copy. Counts and lengths are 16-bit fields, which `makeword` extends
with their sign, and an entry has room for a name of 79 characters: whatever is in the image, a name that
is given out fits, and the calls are counted.
-/

namespace JxCore.Zip

open Lib

abbrev Bytes := List (BitVec 8)

/-- Why a routine does not come back. -/
inductive Fault where
  | panic (msg : String)
  /-- A read outside the image or outside the copy of the directory. -/
  | outside
  /-- A write behind the end of `entry->filename`. -/
  | overflow
  deriving DecidableEq

abbrev Result := Except Fault

/-! ## The routines -/

def lrecSize : BitVec 32 := 30
def ecrecSize : BitVec 32 := 22

def localHeaderSignature : BitVec 32 := 0x04034b50
def lFilenameLength : BitVec 32 := 26
def lExtraFieldLength : BitVec 32 := 28

def centralHeaderSignature : BitVec 32 := 0x02014b50
def cCompressionMethod : BitVec 32 := 10
def cUncompressedSize : BitVec 32 := 24
def cFilenameLength : BitVec 32 := 28
def cExtraFieldLength : BitVec 32 := 30
def cCommentLength : BitVec 32 := 32
def cRelativeOffsetLocalHeader : BitVec 32 := 42
def cFilename : BitVec 32 := 46

def endCentralDirSignature : BitVec 32 := 0x06054b50
def totalEntriesCentralDir : BitVec 32 := 10
def sizeCentralDirectory : BitVec 32 := 12

/-- `sizeof(entry->filename)`. -/
def filenameSize : Nat := 80

/-- A check that ends in `sys_panic`. -/
def panicIf (cond : Prop) [Decidable cond] (msg : String) : Result Unit :=
  if cond then throw (.panic msg) else return ()

/-- `b[offset]`. -/
def byteAt (b : Bytes) (offset : BitVec 32) : Result (BitVec 8) :=
  match b[offset.toNat]? with
  | some c => return c
  | none => throw .outside

/-- `makeword`; a `char` is signed. -/
def makeword (b : Bytes) (offset : BitVec 32) : Result (BitVec 32) := do
  let hi ← byteAt b (offset + 1)
  let lo ← byteAt b offset
  return hi.signExtend 32 <<< 8 ||| lo.signExtend 32 &&& 0xff#32

/-- `makelong`. -/
def makelong (b : Bytes) (offset : BitVec 32) : Result (BitVec 32) := do
  let b₃ ← byteAt b (offset + 3)
  let b₂ ← byteAt b (offset + 2)
  let b₁ ← byteAt b (offset + 1)
  let b₀ ← byteAt b offset
  return b₃.signExtend 32 <<< 24 &&& 0xff000000#32 ||| b₂.signExtend 32 <<< 16 &&& 0x00ff0000#32 |||
    b₁.signExtend 32 <<< 8 &&& 0x0000ff00#32 ||| b₀.signExtend 32 &&& 0xff#32

/-- `strncpy`, up to the zeros it fills the buffer with. -/
def strncpy (b : Bytes) (offset : BitVec 32) : Nat → Result Bytes
  | 0 => return []
  | count + 1 => do
    let c ← byteAt b offset
    if c = 0 then return []
    else return c :: (← strncpy b (offset + 1) count)

/-- `makestring` on `entry->filename`. The length is unsigned for `strncpy`. -/
def makestring (b : Bytes) (offset len : BitVec 32) : Result Bytes :=
  if filenameSize ≤ len.toNat then throw .overflow else strncpy b offset len.toNat

/-- The variables of `zip.c`; `mempos` is relative to `zip`. -/
structure State where
  zip : Bytes
  count : BitVec 32
  dirofs : BitVec 32
  mempos : BitVec 32
  dirbuf : Bytes
  current : BitVec 32
  deriving DecidableEq

/-- `zipentry`; `data` is relative to the image. -/
structure Entry where
  filename : Bytes
  uncompressedSize : BitVec 32
  compressionMethod : BitVec 32
  data : BitVec 32
  deriving DecidableEq

/-- `zseek`, as the new `mempos`. -/
def zseek (pos : BitVec 32) : Result (BitVec 32) :=
  if pos.toInt < 0 then throw (.panic "Seeking to negative position ") else return pos

/-- `zread`. -/
def zread (zip : Bytes) (mempos len : BitVec 32) : Result Bytes :=
  if mempos.toNat + len.toNat ≤ zip.length then return (zip.drop mempos.toNat).take len.toNat
  else throw .outside

/-- `zip_reset`. -/
def zipReset (z : State) : State := { z with mempos := 0, dirofs := 0, current := 0 }

/-- `zip_init`. -/
def zipInit (zipstart : Bytes) (ziplen : BitVec 32) : Result State := do
  let mempos ← zseek (ziplen - ecrecSize)
  let buffer ← zread zipstart mempos ecrecSize
  let signature ← makelong buffer 0
  panicIf (signature ≠ endCentralDirSignature) "Wrong signature"
  let count ← makeword buffer totalEntriesCentralDir
  let dirSize ← makelong buffer sizeCentralDirectory
  let mempos ← zseek (ziplen - (dirSize + ecrecSize))
  let dirbuf ← zread zipstart mempos dirSize
  return { zip := zipstart, count, dirofs := 0, mempos, dirbuf, current := 0 }

/-- The part of `zip_next_entry` that reads the local header: the place of the data. -/
def localData (zip : Bytes) (localHeaderOffset : BitVec 32) : Result (BitVec 32) := do
  let mempos ← zseek localHeaderOffset
  let header ← zread zip mempos lrecSize
  let signature ← makelong header 0
  panicIf (signature ≠ localHeaderSignature) "wrong local header signature"
  let filenameLength ← makeword header lFilenameLength
  let extraLength ← makeword header lExtraFieldLength
  return localHeaderOffset + lrecSize + filenameLength + extraLength

/-- The part of `zip_next_entry` behind the check of `count`. -/
def centralEntry (z : State) : Result (Entry × State) := do
  let signature ← makelong z.dirbuf z.dirofs
  panicIf (signature ≠ centralHeaderSignature) "wrong central header signature"
  let uncompressedSize ← makelong z.dirbuf (z.dirofs + cUncompressedSize)
  let filenameLength ← makeword z.dirbuf (z.dirofs + cFilenameLength)
  let cextraLength ← makeword z.dirbuf (z.dirofs + cExtraFieldLength)
  let commentLength ← makeword z.dirbuf (z.dirofs + cCommentLength)
  let localHeaderOffset ← makelong z.dirbuf (z.dirofs + cRelativeOffsetLocalHeader)
  let data ← localData z.zip localHeaderOffset
  let filename ← makestring z.dirbuf (z.dirofs + cFilename) filenameLength
  let compressionMethod ← makeword z.dirbuf (z.dirofs + cCompressionMethod)
  panicIf (compressionMethod ≠ 0) "Compression not supported."
  return (⟨filename, uncompressedSize, compressionMethod, data⟩,
    { z with
      mempos := localHeaderOffset
      dirofs := z.dirofs + (cFilename + filenameLength + cextraLength + commentLength)
      current := z.current + 1 })

/-- `zip_next_entry`; no entry is the result -1. -/
def zipNextEntry (z : State) : Result (Option Entry × State) :=
  if z.current = z.count then return (none, z)
  else do
    let (entry, z) ← centralEntry z
    return (some entry, z)

/-- The loop of `read_codefile`. The result is the place of the data and its size, or `NULL`. -/
def findEntry (filename : Bytes) :
    Nat → State → Option (Result (Option (BitVec 32 × BitVec 32) × State))
  | 0, _ => none
  | fuel + 1, z =>
    match zipNextEntry z with
    | .error e => some (throw e)
    | .ok (none, z) => some (return (none, z))
    | .ok (some entry, z) =>
      if entry.filename = filename then some (return (some (entry.data, entry.uncompressedSize), z))
      else findEntry filename fuel z

/-- `read_codefile`. -/
def readCodefile (fuel : Nat) (z : State) (filename : Bytes) :
    Option (Result (Option (BitVec 32 × BitVec 32) × State)) :=
  findEntry filename fuel (zipReset z)

/-- The calls that move through the directory. -/
inductive Step : State → State → Prop
  | reset (z : State) : Step z (zipReset z)
  | next {z z' : State} {entry : Option Entry} : zipNextEntry z = .ok (entry, z') → Step z z'

/-- Repeated calls of `zip_next_entry` give these entries, and then -1. -/
inductive Lists : State → List Entry → Prop
  | done {z z' : State} : zipNextEntry z = .ok (none, z') → Lists z []
  | entry {z z' : State} {e : Entry} {l : List Entry} :
      zipNextEntry z = .ok (some e, z') → Lists z' l → Lists z (e :: l)

/-! ## Fields -/

/-- A 16-bit field of the format. -/
def half (n : Nat) : Bytes := [BitVec.ofNat 8 n, BitVec.ofNat 8 (n / 256)]

/-- A 32-bit field of the format. -/
def word (n : Nat) : Bytes := Reader.wordBytes (BitVec.ofNat 32 n)

@[simp] theorem length_half (n : Nat) : (half n).length = 2 := rfl

@[simp] theorem length_word (n : Nat) : (word n).length = 4 := rfl

/-- The bytes stand in `b` from position `n` on. -/
def At (b : Bytes) (n : Nat) (bytes : Bytes) : Prop := bytes <+: b.drop n

section Cells

variable {b x y : Bytes} {n k : Nat}

theorem at_append : At b n (x ++ y) ↔ At b n x ∧ At b (n + x.length) y := by
  simp only [At, ← List.drop_drop]
  constructor
  · intro h
    obtain ⟨t, ht⟩ := h
    rw [← ht, List.append_assoc, List.drop_left]
    exact ⟨List.prefix_append x _, List.prefix_append y t⟩
  · rintro ⟨⟨t, ht⟩, h⟩
    rw [← ht, List.drop_left] at h
    rw [← ht]
    exact (List.prefix_append_right_inj x).mpr h

theorem at_cons {c : BitVec 8} : At b n (c :: x) ↔ At b n [c] ∧ At b (n + 1) x :=
  @at_append b [c] x n

theorem At.length_le (h : At b n x) (hx : x ≠ []) : n + x.length ≤ b.length := by
  have hle := List.IsPrefix.length_le h
  have hpos := List.length_pos_iff.mpr hx
  rw [List.length_drop] at hle
  omega

theorem At.take_drop (h : At b n x) : (b.drop n).take x.length = x :=
  (List.prefix_iff_eq_take.mp h).symm

theorem byteAt_of_at {c : BitVec 8} {l : Bytes} (hb : b.length < 2 ^ 32) (h : At b n (c :: l)) :
    byteAt b (BitVec.ofNat 32 n) = .ok c := by
  have hn := h.length_le (List.cons_ne_nil c l)
  simp only [List.length_cons] at hn
  obtain ⟨t, ht⟩ := h
  have hget : b[n]? = some c := by
    rw [← List.head?_drop, ← ht]
    rfl
  have hofs : (BitVec.ofNat 32 n).toNat = n := by
    rw [BitVec.toNat_ofNat]
    exact Nat.mod_eq_of_lt (by omega)
  simp only [byteAt, hofs, hget]
  rfl

/-- What `makeword` makes of a 16-bit field. -/
def extended (n : Nat) : BitVec 32 := (BitVec.ofNat 16 n).signExtend 32

theorem extended_eq (hi lo : BitVec 8) :
    (hi.signExtend 32 <<< 8 ||| lo.signExtend 32 &&& 0xff#32) = (hi ++ lo).signExtend 32 := by
  apply BitVec.eq_of_getLsbD_eq
  intro i hi
  have h₀ : ∀ i < 32, BitVec.getLsbD 0xff#32 i = decide (i < 8) := by decide
  simp only [BitVec.getLsbD_or, BitVec.getLsbD_and, BitVec.getLsbD_shiftLeft,
    BitVec.getLsbD_signExtend, BitVec.getLsbD_append, BitVec.msb_append, h₀ i hi]
  grind

theorem masked_eq (b₃ b₂ b₁ b₀ : BitVec 8) :
    (b₃.signExtend 32 <<< 24 &&& 0xff000000#32 ||| b₂.signExtend 32 <<< 16 &&& 0x00ff0000#32 |||
      b₁.signExtend 32 <<< 8 &&& 0x0000ff00#32 ||| b₀.signExtend 32 &&& 0xff#32) =
      b₃ ++ b₂ ++ b₁ ++ b₀ := by
  apply BitVec.eq_of_getLsbD_eq
  intro i hi
  have h₃ : ∀ i < 32, BitVec.getLsbD 0xff000000#32 i = decide (24 ≤ i) := by decide
  have h₂ : ∀ i < 32, BitVec.getLsbD 0x00ff0000#32 i = decide (16 ≤ i ∧ i < 24) := by
    decide
  have h₁ : ∀ i < 32, BitVec.getLsbD 0x0000ff00#32 i = decide (8 ≤ i ∧ i < 16) := by
    decide
  have h₀ : ∀ i < 32, BitVec.getLsbD 0xff#32 i = decide (i < 8) := by decide
  simp only [BitVec.getLsbD_or, BitVec.getLsbD_and, BitVec.getLsbD_shiftLeft,
    BitVec.getLsbD_signExtend, BitVec.getLsbD_append, h₃ i hi, h₂ i hi, h₁ i hi, h₀ i hi]
  grind

theorem half_append (k : Nat) : BitVec.ofNat 8 (k / 256) ++ BitVec.ofNat 8 k = BitVec.ofNat 16 k := by
  apply BitVec.eq_of_toNat_eq
  have hor := Nat.shiftLeft_add_eq_or_of_lt (Nat.mod_lt k (by decide : 0 < 2 ^ 8)) (k / 256 % 2 ^ 8)
  rw [Nat.shiftLeft_eq] at hor
  rw [BitVec.toNat_append, Nat.shiftLeft_eq]
  simp only [BitVec.toNat_ofNat]
  omega

theorem makeword_half (hb : b.length < 2 ^ 32) (h : At b n (half k)) :
    makeword b (BitVec.ofNat 32 n) = .ok (extended k) := by
  obtain ⟨hlo, hhi⟩ := at_cons.mp h
  simp only [makeword, extended, ← half_append, ← extended_eq]
  rw [show BitVec.ofNat 32 n + 1 = BitVec.ofNat 32 (n + 1) from (BitVec.ofNat_add n 1).symm,
    byteAt_of_at hb hlo, byteAt_of_at hb hhi]
  rfl

theorem makelong_word (hb : b.length < 2 ^ 32) (h : At b n (word k)) :
    makelong b (BitVec.ofNat 32 n) = .ok (BitVec.ofNat 32 k) := by
  set w := BitVec.ofNat 32 k with hw
  obtain ⟨h₀, hrest⟩ := at_cons.mp h
  obtain ⟨h₁, hrest⟩ := at_cons.mp hrest
  obtain ⟨h₂, h₃⟩ := at_cons.mp hrest
  have hofs (i : Nat) : BitVec.ofNat 32 n + BitVec.ofNat 32 i = BitVec.ofNat 32 (n + i) :=
    (BitVec.ofNat_add n i).symm
  rw [← Reader.append_extractLsb' w, ← masked_eq]
  simp only [makelong]
  rw [show BitVec.ofNat 32 n + 3 = _ from hofs 3, show BitVec.ofNat 32 n + 2 = _ from hofs 2,
    show BitVec.ofNat 32 n + 1 = _ from hofs 1, byteAt_of_at hb h₀, byteAt_of_at hb h₁,
    byteAt_of_at hb h₂, byteAt_of_at hb h₃]
  rfl

theorem strncpy_name (hb : b.length < 2 ^ 32) {name : Bytes} (h : At b n name) :
    strncpy b (BitVec.ofNat 32 n) name.length = .ok (name.takeWhile (· ≠ 0)) := by
  induction name generalizing n with
  | nil => rfl
  | cons c name ih =>
    obtain ⟨hc, hname⟩ := at_cons.mp h
    rw [List.length_cons, strncpy, byteAt_of_at hb hc]
    change (if c = 0 then _ else _) = _
    by_cases hzero : c = 0
    · rw [if_pos hzero, List.takeWhile_cons_of_neg (by simpa using hzero)]
      rfl
    · rw [if_neg hzero, List.takeWhile_cons_of_pos (by simpa using hzero),
        show BitVec.ofNat 32 n + 1 = BitVec.ofNat 32 (n + 1) from (BitVec.ofNat_add n 1).symm,
        ih hname]
      rfl

end Cells

theorem panicIf_neg {cond : Prop} [Decidable cond] (h : ¬ cond) (msg : String) :
    panicIf cond msg = .ok () := if_neg h

theorem toNat_extended {n : Nat} (h : n < 2 ^ 16) :
    (extended n).toNat = if n < 2 ^ 15 then n else n + (2 ^ 32 - 2 ^ 16) := by
  rw [extended, BitVec.toNat_signExtend, BitVec.msb_eq_decide, BitVec.toNat_setWidth,
    BitVec.toNat_ofNat, Nat.mod_eq_of_lt h, Nat.mod_eq_of_lt (by omega)]
  split_ifs <;> grind

/-- A length is read as it is exactly if its sign bit is clear. -/
theorem extended_eq_iff {n : Nat} (h : n < 2 ^ 16) : extended n = BitVec.ofNat 32 n ↔ n < 2 ^ 15 := by
  rw [← BitVec.toNat_inj, toNat_extended h, BitVec.toNat_ofNat, Nat.mod_eq_of_lt (by omega)]
  split_ifs <;> omega

theorem makestring_name {b name : Bytes} {n : Nat} (hb : b.length < 2 ^ 32) (h : At b n name)
    (hlen : name.length < 2 ^ 16) :
    makestring b (BitVec.ofNat 32 n) (extended name.length) =
      if filenameSize ≤ name.length then throw .overflow else .ok (name.takeWhile (· ≠ 0)) := by
  have hext := toNat_extended hlen
  by_cases hlong : filenameSize ≤ name.length
  · have hover : filenameSize ≤ (extended name.length).toNat := by
      rw [hext]
      split_ifs <;> omega
    rw [makestring, if_pos hover, if_pos hlong]
  · rw [if_pos (by simp only [filenameSize] at hlong; omega)] at hext
    rw [makestring, hext, if_neg hlong, if_neg hlong, strncpy_name hb h]

theorem zseek_of_lt {n : Nat} (h : n < 2 ^ 31) :
    zseek (BitVec.ofNat 32 n) = .ok (BitVec.ofNat 32 n) := by
  have hpos : ¬ (BitVec.ofNat 32 n).toInt < 0 := by
    rw [BitVec.toInt_eq_toNat_of_lt (by rw [BitVec.toNat_ofNat]; omega)]
    omega
  rw [zseek, if_neg hpos]
  rfl

theorem zread_of_at {b x : Bytes} {n : Nat} (hb : b.length < 2 ^ 31) (h : At b n x)
    (hle : n + x.length ≤ b.length) :
    zread b (BitVec.ofNat 32 n) (BitVec.ofNat 32 x.length) = .ok x := by
  have hn : (BitVec.ofNat 32 n).toNat = n := by
    rw [BitVec.toNat_ofNat]
    exact Nat.mod_eq_of_lt (by omega)
  have hlen : (BitVec.ofNat 32 x.length).toNat = x.length := by
    rw [BitVec.toNat_ofNat]
    exact Nat.mod_eq_of_lt (by omega)
  rw [zread, hn, hlen, if_pos hle, h.take_drop]
  rfl

/-! ## Every entry that is given out -/

/-- A name that fits into an entry. -/
def NameFits (name : Bytes) : Prop := name.length < 80 ∧ 0 ∉ name

theorem strncpy_nameFits {b : Bytes} {offset : BitVec 32} {count : Nat} {name : Bytes}
    (h : strncpy b offset count = .ok name) : name.length ≤ count ∧ 0 ∉ name := by
  induction count generalizing offset name with
  | zero =>
    cases h
    exact ⟨le_refl 0, List.not_mem_nil⟩
  | succ count ih =>
    obtain ⟨c, -, hrest⟩ := bind_eq_ok.mp h
    split_ifs at hrest with hzero
    · cases hrest
      exact ⟨Nat.zero_le _, List.not_mem_nil⟩
    · obtain ⟨tail, htail, hname⟩ := bind_eq_ok.mp hrest
      cases hname
      obtain ⟨hlen, hmem⟩ := ih htail
      refine ⟨Nat.succ_le_succ hlen, ?_⟩
      rw [List.mem_cons, not_or]
      exact ⟨fun heq => hzero heq.symm, hmem⟩

theorem makestring_nameFits {b : Bytes} {offset len : BitVec 32} {name : Bytes}
    (h : makestring b offset len = .ok name) : NameFits name := by
  rw [makestring] at h
  split_ifs at h with hlen
  obtain ⟨hle, hmem⟩ := strncpy_nameFits h
  simp only [filenameSize] at hlen
  exact ⟨by omega, hmem⟩

/-- What a call leaves as it is, and that it counts. -/
structure Moved (z z' : State) : Prop where
  zip : z'.zip = z.zip
  count : z'.count = z.count
  dirbuf : z'.dirbuf = z.dirbuf
  current : z'.current = z.current + 1

theorem centralEntry_ok {z z' : State} {e : Entry} (h : centralEntry z = .ok (e, z')) :
    NameFits e.filename ∧ Moved z z' := by
  obtain ⟨signature, -, h⟩ := bind_eq_ok.mp h
  obtain ⟨-, -, h⟩ := bind_eq_ok.mp h
  obtain ⟨uncompressedSize, -, h⟩ := bind_eq_ok.mp h
  obtain ⟨filenameLength, -, h⟩ := bind_eq_ok.mp h
  obtain ⟨cextraLength, -, h⟩ := bind_eq_ok.mp h
  obtain ⟨commentLength, -, h⟩ := bind_eq_ok.mp h
  obtain ⟨localHeaderOffset, -, h⟩ := bind_eq_ok.mp h
  obtain ⟨data, -, h⟩ := bind_eq_ok.mp h
  obtain ⟨filename, hname, h⟩ := bind_eq_ok.mp h
  obtain ⟨compressionMethod, -, h⟩ := bind_eq_ok.mp h
  obtain ⟨-, -, h⟩ := bind_eq_ok.mp h
  cases h
  exact ⟨makestring_nameFits hname, rfl, rfl, rfl, rfl⟩

theorem zipNextEntry_some {z z' : State} {e : Entry} (h : zipNextEntry z = .ok (some e, z')) :
    z.current ≠ z.count ∧ centralEntry z = .ok (e, z') := by
  rw [zipNextEntry] at h
  split_ifs at h with hlast
  · cases h
  · obtain ⟨⟨e', z''⟩, hentry, heq⟩ := bind_eq_ok.mp h
    cases heq
    exact ⟨hlast, hentry⟩

theorem zipNextEntry_none {z z' : State} (h : zipNextEntry z = .ok (none, z')) :
    z.current = z.count ∧ z' = z := by
  rw [zipNextEntry] at h
  split_ifs at h with hlast
  · cases h
    exact ⟨hlast, rfl⟩
  · obtain ⟨⟨e', z''⟩, -, heq⟩ := bind_eq_ok.mp h
    cases heq

/-- No name that does not fit is ever given out. -/
theorem Lists.nameFits {z : State} {l : List Entry} (h : Lists z l) : ∀ e ∈ l, NameFits e.filename := by
  induction h with
  | done => exact fun e he => absurd he List.not_mem_nil
  | @entry z z' e l hnext _ ih =>
    intro e' he'
    obtain rfl | hl := List.mem_cons.mp he'
    · exact (centralEntry_ok (zipNextEntry_some hnext).2).1
    · exact ih e' hl

/-- The calls are counted. -/
theorem Lists.count {z : State} {l : List Entry} (h : Lists z l) :
    z.current + BitVec.ofNat 32 l.length = z.count := by
  induction h with
  | done hnext => simpa using (zipNextEntry_none hnext).1
  | @entry z z' e l hnext _ ih =>
    have hmoved := (centralEntry_ok (zipNextEntry_some hnext).2).2
    rw [hmoved.current, hmoved.count] at ih
    rw [← ih, List.length_cons, Nat.add_comm l.length 1, BitVec.ofNat_add, ← BitVec.add_assoc]
    rfl

/-- `read_codefile` finds the first entry with the name. -/
theorem findEntry_of_lists {z : State} {l : List Entry} (h : Lists z l) (filename : Bytes) :
    ∃ z', ∀ fuel > l.length, findEntry filename fuel z = some (.ok
      ((l.find? (·.filename = filename)).map fun e => (e.data, e.uncompressedSize), z')) := by
  induction h with
  | @done z z' hnext =>
    refine ⟨z', fun fuel hfuel => ?_⟩
    obtain ⟨fuel, rfl⟩ := Nat.exists_eq_succ_of_ne_zero (Nat.ne_zero_of_lt hfuel)
    rw [findEntry, hnext]
    rfl
  | @entry z z₁ e l hnext _ ih =>
    by_cases hname : e.filename = filename
    · refine ⟨z₁, fun fuel hfuel => ?_⟩
      obtain ⟨fuel, rfl⟩ := Nat.exists_eq_succ_of_ne_zero (Nat.ne_zero_of_lt hfuel)
      rw [findEntry, hnext, List.find?_cons_of_pos (by simpa using hname)]
      exact if_pos hname
    · obtain ⟨z', hz'⟩ := ih
      refine ⟨z', fun fuel hfuel => ?_⟩
      obtain ⟨fuel, rfl⟩ := Nat.exists_eq_succ_of_ne_zero (Nat.ne_zero_of_lt hfuel)
      rw [findEntry, hnext, List.find?_cons_of_neg (by simpa using hname)]
      exact (if_neg hname).trans (hz' fuel (Nat.lt_of_succ_lt_succ hfuel))

/-- Starting again forgets how far a walk had come. -/
theorem zipReset_of_steps {z₀ z : State} (h : Relation.ReflTransGen Step z₀ z) :
    zipReset z = zipReset z₀ := by
  induction h with
  | refl => rfl
  | tail _ hstep ih =>
    rw [← ih]
    cases hstep with
    | reset => rfl
    | @next _ entry hnext =>
      cases entry with
      | none => rw [(zipNextEntry_none hnext).2]
      | some e =>
        have hmoved := (centralEntry_ok (zipNextEntry_some hnext).2).2
        simp only [zipReset, hmoved.zip, hmoved.count, hmoved.dirbuf]

end JxCore.Zip
