import JxCore.Basic
import JxCore.Lib.Footprint

/-!
# Memory portals (`Interface/zero_Memory_org.c`)

The accessors a Java domain calls on a memory object. Every `jint` is a `BitVec 32`, so that the
signed and unsigned comparisons of the source (`slt`/`sle` and `ult`/`ule`) and the sums that wrap
are the processor's own. Each accessor carries its hand-written test; `Confined` says what these
tests are there for, and `Call.InRange` when they do their job.
-/

namespace JxCore.Memory

open Lib Access

/-- A `jint`. -/
abbrev Jint := BitVec 32

/-- A memory object: `data[0]` is the size, `data[1]` the start, and `dz->valid` the revocation
flag. -/
structure MemoryProxy where
  size : Jint
  mem : Address
  valid : Bool
  deriving DecidableEq

/-- A `byte[]`; with `ALL_ARRAYS_32BIT` an element takes a whole word. -/
structure ByteArray where
  size : Jint
  data : Address
  deriving DecidableEq

abbrev Acc (α : Type) := Access Stop α

/-- `exceptionHandler(THROW_MemoryIndexOutOfBounds)`. -/
def outOfBounds {α : Type} : Acc α := throw (.throw .memoryIndexOutOfBounds "")

/-- `CHECKVALID`. -/
def checkValid (self : MemoryProxy) : Acc Unit :=
  if self.valid then pure () else throw (.throw .invalidMemory "")

/-- `CHECK_NULL_PTR` on an argument. -/
def checkNullPtr {α : Type} : Option α → Acc α
  | some a => pure a
  | none => throw (.throw .nullPointerException "")

/-! ## Single elements -/

/-- `memory_set8`. -/
def set8 (self : MemoryProxy) (pos : Jint) (what : BitVec 8) : Acc Unit := do
  checkValid self
  if self.size.sle pos then outOfBounds else write8 (self.mem + pos) what

/-- `memory_get8`. -/
def get8 (self : MemoryProxy) (pos : Jint) : Acc Jint := do
  checkValid self
  if self.size.sle pos || pos.slt 0 then outOfBounds
  else return (← read8 (self.mem + pos)).signExtend 32

/-- `memory_set16`; the division makes the comparison unsigned. -/
def set16 (self : MemoryProxy) (pos : Jint) (what : BitVec 16) : Acc Unit := do
  checkValid self
  if (self.size / 2).ule pos then outOfBounds else write16 (self.mem + 2 * pos) what

/-- `memory_get16`. -/
def get16 (self : MemoryProxy) (pos : Jint) : Acc Jint := do
  checkValid self
  if (self.size / 2).ule pos then outOfBounds
  else return (← read16 (self.mem + 2 * pos)).zeroExtend 32

/-- `memory_set32`; the shift leaves the comparison signed. -/
def set32 (self : MemoryProxy) (pos what : Jint) : Acc Unit := do
  checkValid self
  if (self.size.sshiftRight 2).sle pos then
    throw (.throw .runtimeException "Writing Memory access out of range")
  else write32 (self.mem + 4 * pos) what

/-- `memory_get32`. -/
def get32 (self : MemoryProxy) (pos : Jint) : Acc Jint := do
  checkValid self
  if (self.size / 4).ule pos then throw (.panic "Reading Memory access out of range")
  else read32 (self.mem + 4 * pos)

/-! ## Filling -/

/-- `jnc 1f; act; 1:` — the step is taken if the carry flag is set, and moves the pointers. -/
def optionally {α : Type} (carry : Prop) [Decidable carry] (act : Acc Unit) (moved same : α) :
    Acc α :=
  if carry then act >>= fun _ => pure moved else pure same

/-- `jxwmemset`: `nbytes` bytes of the pattern `value`, a byte and a half-word first. -/
def jxwmemset (dst : Address) (value : BitVec 16) (nbytes : Jint) : Acc Unit := do
  let n := nbytes.toNat
  let dst ← optionally (n % 2 = 1) (write8 dst (value.extractLsb' 0 8)) (dst + 1) dst
  let dst ← optionally (n / 2 % 2 = 1) (write16 dst value) (dst + 2) dst
  repStosl (value ++ value) (n / 4) dst

/-- `memory_fill16`. -/
def fill16 (self : MemoryProxy) (what : BitVec 16) (pos length : Jint) : Acc Unit := do
  checkValid self
  if (self.size / 2).ult (pos + length) then outOfBounds
  else jxwmemset (self.mem + 2 * pos) what (length * 2)

/-- `memory_fill32`; its loop runs while `length > 0`. -/
def fill32 (self : MemoryProxy) (what pos length : Jint) : Acc Unit := do
  checkValid self
  if (self.size / 4).ult (pos + length) then outOfBounds
  else repStosl what length.toInt.toNat (self.mem + 4 * pos)

/-! ## Copying -/

/-- The first branch of `memory_move`: direction flag clear, odd byte and half-word first. -/
def moveUp (src dst : Address) (count : Jint) : Acc Unit := do
  let n := count.toNat
  let (src, dst) ← optionally (n % 2 = 1) (movsb src dst) (src + 1, dst + 1) (src, dst)
  let (src, dst) ← optionally (n / 2 % 2 = 1) (movsw src dst) (src + 2, dst + 2) (src, dst)
  repMovsl (n / 4) src dst

/-- The second branch: direction flag set, from four bytes before the end downwards. -/
def moveDown (src dst : Address) (count : Jint) : Acc Unit := do
  let n := count.toNat
  let (src, dst) := (count - 4 + src, count - 4 + dst)
  let (src, dst) ← optionally (n % 2 = 1) (movsb (src + 3) (dst + 3)) (src - 1, dst - 1) (src, dst)
  let (src, dst) ←
    optionally (n / 2 % 2 = 1) (movsw (src + 2) (dst + 2)) (src - 2, dst - 2) (src, dst)
  repMovslDown (n / 4) src dst

/-- `memory_move`; there is no `CHECKVALID`. -/
def move (self : MemoryProxy) (dst src count : Jint) : Acc Unit :=
  if self.size.slt (dst + count) || self.size.slt (src + count) then outOfBounds
  else if (self.mem + dst).ult (self.mem + src) then
    moveUp (self.mem + src) (self.mem + dst) count
  else moveDown (self.mem + src) (self.mem + dst) count

/-- `memory_copy`; its loop runs while `i < len`. -/
def copy (self : MemoryProxy) (source target len : Jint) : Acc Unit := do
  checkValid self
  if self.size.slt (target + len) then throw (.panic "to+len out of range")
  else if self.size.slt (source + len) then throw (.panic "from+len out of range")
  else repMovsb len.toInt.toNat (self.mem + source) (self.mem + target)

/-- The loop of `memory_copyToByteArray`: bytes to words. -/
def widenLoop : Nat → Address → Address → Acc Unit
  | 0, _, _ => return ()
  | n + 1, src, dst => do
    write32 dst ((← read8 src).signExtend 32)
    widenLoop n (src + 1) (dst + 4)

/-- The loop of `memory_copyFromByteArray`: words to bytes. -/
def narrowLoop : Nat → Address → Address → Acc Unit
  | 0, _, _ => return ()
  | n + 1, src, dst => do
    write8 dst ((← read32 src).truncate 8)
    narrowLoop n (src + 4) (dst + 1)

/-- `memory_copyToByteArray`. -/
def copyToByteArray (self : MemoryProxy) (bytes : Option ByteArray)
    (arrayOffset memOffset len : Jint) : Acc Unit := do
  let bytes ← checkNullPtr bytes
  checkValid self
  if self.size.slt (memOffset + len) then outOfBounds
  else if bytes.size.slt (arrayOffset + len) then outOfBounds
  else widenLoop len.toInt.toNat (self.mem + memOffset) (bytes.data + 4 * arrayOffset)

/-- `memory_copyFromByteArray`. -/
def copyFromByteArray (self : MemoryProxy) (bytes : Option ByteArray)
    (arrayOffset memOffset len : Jint) : Acc Unit := do
  let bytes ← checkNullPtr bytes
  checkValid self
  if self.size.slt (memOffset + len) then outOfBounds
  else if bytes.size.slt (arrayOffset + len) then outOfBounds
  else narrowLoop len.toInt.toNat (bytes.data + 4 * arrayOffset) (self.mem + memOffset)

/-- The end of `memory_copyToMemory` and `memory_copyFromMemory`: `jxwordcpy` if everything is
aligned, else `jxbytecpy`. -/
def wordOrByteCpy (smem mem : Address) (len : Jint) : Acc Unit :=
  if (smem ||| mem ||| len) &&& 3 = 0 then repMovsl (len.sshiftRight 2).toNat smem mem
  else repMovsb len.toNat smem mem

/-- `memory_copyToMemory`; only `self` is checked to be valid. -/
def copyToMemory (self : MemoryProxy) (dst : Option MemoryProxy) (srcOffset dstOffset len : Jint) :
    Acc Unit := do
  let dst ← checkNullPtr dst
  checkValid self
  if dst.size.slt (dstOffset + len) || self.size.slt (srcOffset + len) then outOfBounds
  else wordOrByteCpy (self.mem + srcOffset) (dst.mem + dstOffset) len

/-- `memory_copyFromMemory`. -/
def copyFromMemory (self : MemoryProxy) (src : Option MemoryProxy)
    (srcOffset dstOffset len : Jint) : Acc Unit := do
  let src ← checkNullPtr src
  checkValid self
  checkValid src
  if self.size.slt (dstOffset + len) || src.size.slt (srcOffset + len) then outOfBounds
  else wordOrByteCpy (src.mem + srcOffset) (self.mem + dstOffset) len

/-! ## Little and big endian -/

/-- The common frame of the endian accessors: `if (offset + width > size)` raise. -/
def atOffset {α : Type} (self : MemoryProxy) (offset width : Jint) (act : Address → Acc α) :
    Acc α := do
  checkValid self
  if self.size.slt (offset + width) then outOfBounds else act (self.mem + offset)

/-- `memory_getLittleEndian32`. -/
def getLittleEndian32 (self : MemoryProxy) (offset : Jint) : Acc Jint := atOffset self offset 4 read32

/-- `memory_setLittleEndian32`. -/
def setLittleEndian32 (self : MemoryProxy) (offset value : Jint) : Acc Unit :=
  atOffset self offset 4 fun a => write32 a value

/-- `memory_getLittleEndian16`. -/
def getLittleEndian16 (self : MemoryProxy) (offset : Jint) : Acc Jint :=
  atOffset self offset 2 fun a => return (← read16 a).zeroExtend 32

/-- `memory_setLittleEndian16`. -/
def setLittleEndian16 (self : MemoryProxy) (offset : Jint) (value : BitVec 16) : Acc Unit :=
  atOffset self offset 2 fun a => write16 a value

/-- `((value & 0x00ff) << 8) | ((value & 0xff00) >> 8)`. -/
def swap16 (value : Jint) : Jint := (value &&& 0xff) <<< 8 ||| (value &&& 0xff00) >>> 8

section BigEndian

-- What `asm volatile ("bswap %%eax" : "=r" (value))` leaves in `value`: the operand list names
-- neither `eax` nor an input, so this is up to the compiler.
variable (bswap : Jint → Jint)

/-- `memory_getBigEndian32`. -/
def getBigEndian32 (self : MemoryProxy) (offset : Jint) : Acc Jint :=
  atOffset self offset 4 fun a => return bswap (← read32 a)

/-- `memory_setBigEndian32`. -/
def setBigEndian32 (self : MemoryProxy) (offset value : Jint) : Acc Unit :=
  atOffset self offset 4 fun a => write32 a (bswap value)

end BigEndian

/-- `memory_getBigEndian16`. -/
def getBigEndian16 (self : MemoryProxy) (offset : Jint) : Acc Jint :=
  atOffset self offset 2 fun a => return swap16 ((← read16 a).signExtend 32)

/-- `memory_setBigEndian16`. -/
def setBigEndian16 (self : MemoryProxy) (offset : Jint) (value : BitVec 16) : Acc Unit :=
  atOffset self offset 2 fun a => write16 a ((swap16 (value.signExtend 32)).truncate 16)

/-! ## The sandbox -/

/-- One call of an accessor. -/
inductive Call where
  | set8 (self : MemoryProxy) (pos : Jint) (what : BitVec 8)
  | get8 (self : MemoryProxy) (pos : Jint)
  | set16 (self : MemoryProxy) (pos : Jint) (what : BitVec 16)
  | get16 (self : MemoryProxy) (pos : Jint)
  | set32 (self : MemoryProxy) (pos what : Jint)
  | get32 (self : MemoryProxy) (pos : Jint)
  | fill16 (self : MemoryProxy) (what : BitVec 16) (pos length : Jint)
  | fill32 (self : MemoryProxy) (what pos length : Jint)
  | move (self : MemoryProxy) (dst src count : Jint)
  | copy (self : MemoryProxy) (source target len : Jint)
  | copyToByteArray (self : MemoryProxy) (bytes : Option ByteArray)
      (arrayOffset memOffset len : Jint)
  | copyFromByteArray (self : MemoryProxy) (bytes : Option ByteArray)
      (arrayOffset memOffset len : Jint)
  | copyToMemory (self : MemoryProxy) (dst : Option MemoryProxy) (srcOffset dstOffset len : Jint)
  | copyFromMemory (self : MemoryProxy) (src : Option MemoryProxy) (srcOffset dstOffset len : Jint)
  | getLittleEndian32 (self : MemoryProxy) (offset : Jint)
  | setLittleEndian32 (self : MemoryProxy) (offset value : Jint)
  | getLittleEndian16 (self : MemoryProxy) (offset : Jint)
  | setLittleEndian16 (self : MemoryProxy) (offset : Jint) (value : BitVec 16)
  | getBigEndian32 (self : MemoryProxy) (offset : Jint)
  | setBigEndian32 (self : MemoryProxy) (offset value : Jint)
  | getBigEndian16 (self : MemoryProxy) (offset : Jint)
  | setBigEndian16 (self : MemoryProxy) (offset : Jint) (value : BitVec 16)

/-- The offset of `a` in the memory is in `[0, size)`. -/
def MemoryProxy.Inside (p : MemoryProxy) (a : Address) : Prop := (a - p.mem).toNat < p.size.toNat

/-- The address belongs to an element of the array. -/
def ByteArray.Inside (b : ByteArray) (a : Address) : Prop :=
  (a - b.data).toNat < 4 * b.size.toNat

/-- A memory that has not been revoked; its size is a non-negative `jint`. -/
structure MemoryProxy.Wf (p : MemoryProxy) : Prop where
  valid : p.valid = true
  size_lt : p.size.toNat < 2 ^ 31

/-- An array fits into the address space. -/
def ByteArray.Wf (b : ByteArray) : Prop := 4 * b.size.toNat < 2 ^ 32

namespace Call

/-- Run the call and drop its value. -/
def run (bswap : Jint → Jint) : Call → Acc Unit
  | set8 self pos what => Memory.set8 self pos what
  | get8 self pos => discard (Memory.get8 self pos)
  | set16 self pos what => Memory.set16 self pos what
  | get16 self pos => discard (Memory.get16 self pos)
  | set32 self pos what => Memory.set32 self pos what
  | get32 self pos => discard (Memory.get32 self pos)
  | fill16 self what pos length => Memory.fill16 self what pos length
  | fill32 self what pos length => Memory.fill32 self what pos length
  | move self dst src count => Memory.move self dst src count
  | copy self source target len => Memory.copy self source target len
  | copyToByteArray self bytes arrayOffset memOffset len =>
    Memory.copyToByteArray self bytes arrayOffset memOffset len
  | copyFromByteArray self bytes arrayOffset memOffset len =>
    Memory.copyFromByteArray self bytes arrayOffset memOffset len
  | copyToMemory self dst srcOffset dstOffset len =>
    Memory.copyToMemory self dst srcOffset dstOffset len
  | copyFromMemory self src srcOffset dstOffset len =>
    Memory.copyFromMemory self src srcOffset dstOffset len
  | getLittleEndian32 self offset => discard (Memory.getLittleEndian32 self offset)
  | setLittleEndian32 self offset value => Memory.setLittleEndian32 self offset value
  | getLittleEndian16 self offset => discard (Memory.getLittleEndian16 self offset)
  | setLittleEndian16 self offset value => Memory.setLittleEndian16 self offset value
  | getBigEndian32 self offset => discard (Memory.getBigEndian32 bswap self offset)
  | setBigEndian32 self offset value => Memory.setBigEndian32 bswap self offset value
  | getBigEndian16 self offset => discard (Memory.getBigEndian16 self offset)
  | setBigEndian16 self offset value => Memory.setBigEndian16 self offset value

/-- The memory the call is made on. -/
def self : Call → MemoryProxy
  | set8 p _ _ | get8 p _ | set16 p _ _ | get16 p _ | set32 p _ _ | get32 p _
  | fill16 p _ _ _ | fill32 p _ _ _ | move p _ _ _ | copy p _ _ _
  | copyToByteArray p _ _ _ _ | copyFromByteArray p _ _ _ _
  | copyToMemory p _ _ _ _ | copyFromMemory p _ _ _ _
  | getLittleEndian32 p _ | setLittleEndian32 p _ _ | getLittleEndian16 p _
  | setLittleEndian16 p _ _ | getBigEndian32 p _ | setBigEndian32 p _ _ | getBigEndian16 p _
  | setBigEndian16 p _ _ => p

/-- Where the call may read. -/
def Readable : Call → Address → Prop
  | copyFromByteArray _ (some bytes) _ _ _ => bytes.Inside
  | copyFromMemory _ (some src) _ _ _ => src.Inside
  | call => call.self.Inside

/-- Where the call may write. -/
def Writable : Call → Address → Prop
  | copyToByteArray _ (some bytes) _ _ _ => bytes.Inside
  | copyToMemory _ (some dst) _ _ _ => dst.Inside
  | call => call.self.Inside

/-- The memories and arrays of the call are well-formed. -/
def Wf : Call → Prop
  | copyToByteArray p bytes _ _ _ | copyFromByteArray p bytes _ _ _ => p.Wf ∧ ∀ b ∈ bytes, b.Wf
  | copyToMemory p q _ _ _ | copyFromMemory p q _ _ _ => p.Wf ∧ ∀ p' ∈ q, p'.Wf
  | call => call.self.Wf

end Call

/-- **The sandbox.** The action raises without touching memory, or reads only `R` and writes
only `W`. -/
def Confined (act : Acc Unit) (R W : Address → Prop) : Prop :=
  ∀ byte, match act.run ⟨byte, [], []⟩ with
    | (.error _, m) => m = ⟨byte, [], []⟩
    | (.ok _, m) => (∀ a ∈ m.reads, R a) ∧ ∀ a ∈ m.writes, W a

/-- The test `off + len > size` of the source, on wrapping signed numbers. -/
def exceeds (size off len : Jint) : Bool := size.slt (off + len)

/-- `off` and `len` are non-negative and their sum does not overflow. -/
def Plain (off len : Jint) : Prop := 0 ≤ off.toInt ∧ 0 ≤ len.toInt ∧ off.toInt + len.toInt < 2 ^ 31

/-- The arguments on which the tests of the source keep the call inside: either they reject it, or
nothing is touched, or offset and length are what the tests take them for. -/
def Call.InRange : Call → Prop
  | set8 _ pos _ => 0 ≤ pos.toInt
  | get8 _ _ | set16 _ _ _ | get16 _ _ | get32 _ _ => True
  | set32 self pos _ => 0 ≤ pos.toInt ∨ (4 * pos).toNat + 4 ≤ self.size.toNat
  | fill16 self _ pos length => (self.size / 2).ult (pos + length) ∨ (length * 2).toNat = 0 ∨
      (2 * pos).toNat + (length * 2).toNat < 2 ^ 32
  | fill32 self _ pos length => (self.size / 4).ult (pos + length) ∨ length.toInt ≤ 0 ∨
      0 ≤ pos.toInt
  | move self dst src count => exceeds self.size dst count ∨ exceeds self.size src count ∨
      count = 0 ∨ Plain dst count ∧ Plain src count
  | copy self source target len => exceeds self.size target len ∨ exceeds self.size source len ∨
      len.toInt ≤ 0 ∨ Plain target len ∧ Plain source len
  | copyToByteArray self bytes arrayOffset memOffset len
  | copyFromByteArray self bytes arrayOffset memOffset len => ∀ b ∈ bytes,
      exceeds self.size memOffset len ∨ exceeds b.size arrayOffset len ∨ len.toInt ≤ 0 ∨
      Plain memOffset len ∧ arrayOffset.toNat % 2 ^ 30 + len.toNat ≤ b.size.toNat
  | copyToMemory self other srcOffset dstOffset len => ∀ dst ∈ other,
      exceeds dst.size dstOffset len ∨ exceeds self.size srcOffset len ∨ len = 0 ∨
      Plain dstOffset len ∧ Plain srcOffset len
  | copyFromMemory self other srcOffset dstOffset len => ∀ src ∈ other,
      exceeds self.size dstOffset len ∨ exceeds src.size srcOffset len ∨ len = 0 ∨
      Plain dstOffset len ∧ Plain srcOffset len
  | getLittleEndian32 self offset | setLittleEndian32 self offset _
  | getBigEndian32 self offset | setBigEndian32 self offset _ =>
      exceeds self.size offset 4 ∨ Plain offset 4
  | getLittleEndian16 self offset | setLittleEndian16 self offset _
  | getBigEndian16 self offset | setBigEndian16 self offset _ =>
      exceeds self.size offset 2 ∨ Plain offset 2

end JxCore.Memory
