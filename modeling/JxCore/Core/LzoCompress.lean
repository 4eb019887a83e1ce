import JxCore.Basic

/-!
# Compression (`core/minilzo.c`)

`lzo1x_1_compress` looks for matches with a dictionary of places in the input, which nobody clears: an
entry may be any pointer, and the compressor checks what it gets. A pointer is its distance from `in`.
The result is `none` if the compressor reads outside of its input.
-/

namespace JxCore.Lzo

/-! ## Looking for a match -/

/-- `DINDEX1`. -/
def dindex1 (b₀ b₁ b₂ b₃ : BitVec 8) : Nat :=
  let dx2 := ((b₃.toNat <<< 6 ^^^ b₂.toNat) <<< 5) ^^^ b₁.toNat
  let dx3 := dx2 <<< 5 ^^^ b₀.toNat
  u4 (0x21 * dx3) >>> 5 &&& 0x3fff

/-- `DINDEX2`. -/
def dindex2 (dindex : Nat) : Nat := (dindex &&& (0x3fff &&& 0x7ff)) ^^^ (0x2000 ||| 0x1f)

/-- `LZO_CHECK_MPOS_NON_DET` with `M4_MAX_OFFSET`: how far back the entry is, if it can be used. -/
def checkMpos (ip : Nat) (mPos : Int) : Option Nat :=
  if mPos < 0 ∨ ip - mPos ≤ 0 ∨ 0xbfff < ip - mPos then none else some (ip - mPos).toNat

/-- From `try_match` on: the first three bytes are the same. -/
def tryMatch (inp : List (BitVec 8)) (ip off : Nat) : Option Bool := do
  let m₀ ← inp[ip - off]?
  let m₁ ← inp[ip - off + 1]?
  let m₂ ← inp[ip - off + 2]?
  let b₀ ← inp[ip]?
  let b₁ ← inp[ip + 1]?
  let b₂ ← inp[ip + 2]?
  pure (m₀ = b₀ ∧ m₁ = b₁ ∧ m₂ = b₂)

/-- An entry that is near enough or has the same fourth byte is tried. -/
def worthTrying (inp : List (BitVec 8)) (ip off : Nat) : Option Bool :=
  if off ≤ 0x800 then
    pure true
  else do
    let m₃ ← inp[ip - off + 3]?
    let b₃ ← inp[ip + 3]?
    pure (m₃ = b₃)

/-- The place in the dictionary, and how far back the match is if there is one. -/
def findMatch (inp : List (BitVec 8)) (dict : Nat → Int) (ip : Nat) : Option (Nat × Option Nat) := do
  let b₀ ← inp[ip]?
  let b₁ ← inp[ip + 1]?
  let b₂ ← inp[ip + 2]?
  let b₃ ← inp[ip + 3]?
  let dindex := dindex1 b₀ b₁ b₂ b₃
  match checkMpos ip (dict dindex) with
  | none => pure (dindex, none)
  | some off =>
    if ← worthTrying inp ip off then
      pure (dindex, if ← tryMatch inp ip off then some off else none)
    else
      let dindex := dindex2 dindex
      match checkMpos ip (dict dindex) with
      | none => pure (dindex, none)
      | some off =>
        if ← worthTrying inp ip off then
          pure (dindex, if ← tryMatch inp ip off then some off else none)
        else
          pure (dindex, none)

/-- The bytes from `ip` on that are the same `off` places back, at most `n`. -/
def extend (inp : List (BitVec 8)) (off : Nat) : (n ip : Nat) → Option Nat
  | 0, ip => pure ip
  | n + 1, ip => do
    let m ← inp[ip - off]?
    let b ← inp[ip]?
    if m = b then extend inp off n (ip + 1) else pure ip

/-! ## Writing -/

/-- `LZO_BYTE(x)`. -/
def lzoByte (x : Nat) : BitVec 8 := BitVec.ofNat 8 (x &&& 0xff)

/-- `while (n > 255)`, and the last byte. -/
def lengthBytes (n : Nat) : List (BitVec 8) :=
  if 255 < n then 0#8 :: lengthBytes (n - 255) else [lzoByte n]
termination_by n
decreasing_by omega

/-- `op[-2] |= t`. -/
def orBack (t : Nat) (op : List (BitVec 8)) : Option (List (BitVec 8)) :=
  if 2 ≤ op.length then some (op.modify (op.length - 2) (· ||| lzoByte t)) else none

/-- What comes in front of `t` literals, where `t` is positive. -/
def literalHead (t : Nat) (op : List (BitVec 8)) : Option (List (BitVec 8)) :=
  if t ≤ 3 then orBack t op
  else if t ≤ 18 then some (op ++ [lzoByte (t - 3)])
  else some (op ++ (0#8 :: lengthBytes (t - 18)))

/-- `m3_m4_offset`. -/
def offsetBytes (off : Nat) : List (BitVec 8) := [lzoByte ((off &&& 63) <<< 2), lzoByte (off >>> 6)]

/-- A match of at most `M2_MAX_LEN` bytes. -/
def shortMatch (off len : Nat) : List (BitVec 8) :=
  if off ≤ 0x800 then
    [lzoByte ((len - 1) <<< 5 ||| ((off - 1) &&& 7) <<< 2), lzoByte ((off - 1) >>> 3)]
  else if off ≤ 0x4000 then
    lzoByte (32 ||| (len - 2)) :: offsetBytes (off - 1)
  else
    lzoByte (16 ||| ((off - 0x4000) &&& 0x4000) >>> 11 ||| (len - 2)) :: offsetBytes (off - 0x4000)

def longMatch (off len : Nat) : List (BitVec 8) :=
  if off ≤ 0x4000 then
    (if len ≤ 33 then [lzoByte (32 ||| (len - 2))] else lzoByte 32 :: lengthBytes (len - 33)) ++
      offsetBytes (off - 1)
  else
    (if len ≤ 9 then [lzoByte (16 ||| ((off - 0x4000) &&& 0x4000) >>> 11 ||| (len - 2))]
      else lzoByte (16 ||| ((off - 0x4000) &&& 0x4000) >>> 11) :: lengthBytes (len - 9)) ++
      offsetBytes (off - 0x4000)

/-! ## The loop -/

structure Compressor where
  ip : Nat
  /-- The first byte that has not been written yet. -/
  ii : Nat
  op : List (BitVec 8)
  /-- `wrkmem`. -/
  dict : Nat → Int

/-- `UPDATE_I`. -/
def Compressor.update (s : Compressor) (dindex : Nat) : Compressor :=
  { s with dict := fun d => if d = dindex then s.ip else s.dict d }

/-- The literals from `ii` to `ip`. -/
def writeLiterals (inp : List (BitVec 8)) (s : Compressor) : Option Compressor :=
  if 0 < s.ip - s.ii then do
    let op ← literalHead (s.ip - s.ii) s.op
    pure { s with op := op ++ (inp.drop s.ii).take (s.ip - s.ii), ii := s.ip }
  else
    pure s

/-- From `match` on. -/
def writeMatch (inp : List (BitVec 8)) (off : Nat) (s : Compressor) : Option Compressor := do
  let s ← writeLiterals inp s
  let ip ← extend inp off 6 (s.ip + 3)
  if ip < s.ip + 9 then
    pure { s with ip, ii := ip, op := s.op ++ shortMatch off (ip - s.ii) }
  else
    let ip ← extend inp off (inp.length - ip) ip
    pure { s with ip, ii := ip, op := s.op ++ longMatch off (ip - s.ii) }

/-- One turn of the loop, up to its test. -/
def turn (inp : List (BitVec 8)) (s : Compressor) : Option Compressor := do
  let (dindex, found) ← findMatch inp s.dict s.ip
  let s := s.update dindex
  match found with
  | none => pure { s with ip := s.ip + 1 }
  | some off => writeMatch inp off s

/-- `for (;;)`, where `ipEnd` is `in_end - M2_MAX_LEN - 5`. -/
def turns (inp : List (BitVec 8)) (ipEnd : Nat) : Nat → Compressor → Option Compressor
  | 0, _ => none
  | fuel + 1, s => do
    let s ← turn inp s
    if ipEnd ≤ s.ip then pure s else turns inp ipEnd fuel s

/-- `do_compress`. -/
def doCompress (inp : List (BitVec 8)) (dict : Nat → Int) : Option Compressor :=
  turns inp (inp.length - 13) (inp.length + 1) { ip := 4, ii := 0, op := [], dict }

/-- The literals that are left, and the code of the end. -/
def finish (inp : List (BitVec 8)) (t : Nat) (op : List (BitVec 8)) : Option (List (BitVec 8)) := do
  let op ←
    if 0 < t then do
      let op ← if op = [] ∧ t ≤ 238 then some [lzoByte (17 + t)] else literalHead t op
      pure (op ++ (inp.drop (inp.length - t)).take t)
    else
      pure op
  pure (op ++ [17#8, 0#8, 0#8])

/-- `lzo1x_1_compress`. -/
def compress (inp : List (BitVec 8)) (dict : Nat → Int) : Option (List (BitVec 8)) :=
  if inp.length ≤ 13 then
    finish inp inp.length []
  else do
    let s ← doCompress inp dict
    finish inp (inp.length - s.ii) s.op

end JxCore.Lzo
