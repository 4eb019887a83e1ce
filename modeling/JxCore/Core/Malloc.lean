import JxCore.Basic
import JxCore.Lib.Bitmap

/-!
# The block allocator (`core/malloc.c`)

Managed memory is cut into blocks of `BLOCKSIZE` bytes. A bitmap at the start of that memory holds
one bit per block, and `current_block` is a rotating pointer from which the next search starts.

The C statics become the fields of `Allocator`, and the search loops take fuel: `none` means that
the loop is still running when the fuel is used up, which is different from a panic.
-/

namespace JxCore.Malloc

open Lib

/-- `BLOCKSIZE`. -/
def blockSize : Nat := 1024

/-- `ALIGN_NEXT_BLOCK(a)`; the addition wraps, and `& ~(BLOCKSIZE - 1)` drops the low bits. -/
def alignNextBlock (a : Nat) : Nat := u4 (a + (blockSize - 1)) / blockSize * blockSize

/-- How far an address lies behind the start of the managed memory. -/
def offsetOf (start addr : Nat) : Nat := u4 (addr + (2 ^ 32 - start))

/-- The block an address lies in. -/
def blockAt (start addr : Nat) : Nat := offsetOf start addr / blockSize

/-- `((char *) addr - jxmem_start) / BLOCKSIZE`, as an `u4_t`. The difference of two pointers is
signed, and so is the quotient. -/
def blockOf (start addr : Nat) : Nat :=
  if offsetOf start addr < 2 ^ 31 then offsetOf start addr / blockSize
  else u4 (2 ^ 32 - (2 ^ 32 - offsetOf start addr) / blockSize)

/-- The statics of `malloc.c`. Memory is addressed from `jxmem_start` on, so that `bitmap`, which
points there, is the managed memory itself. -/
structure Allocator where
  jxmemStart : Nat
  nBlocks : Nat
  nFree : Nat
  currentBlock : Nat
  bitmap : Bytes
  bitmapSize : Nat
  bitmapSizeBlocks : Nat

namespace Allocator

/-- `GETADDR(block)`. -/
def getAddr (s : Allocator) (block : Nat) : Nat := u4 (s.jxmemStart + block * blockSize)

/-- `current_block %= n_blocks` after `current_block` was set to `c`. -/
def moveTo (s : Allocator) (c : Nat) : Except Stop Allocator :=
  if s.nBlocks = 0 then .error .divideError
  else .ok { s with currentBlock := u4 c % s.nBlocks }

/-- `markCurrentUsed`. -/
def markCurrentUsed (s : Allocator) : Allocator :=
  { s with bitmap := s.bitmap.setBit s.currentBlock, nFree := u4 (2 ^ 32 - 1 + s.nFree) }

/-- The loop of `markUsed`. -/
def markUsed : Nat → Allocator → Except Stop Allocator
  | 0, s => .ok s
  | n + 1, s => do
    let s' ← s.markCurrentUsed.moveTo (s.currentBlock + 1)
    markUsed n s'

/-- `markUnused`, with the `CHECK_FREE` test that `DEBUG` switches on. -/
def markUnused (s : Allocator) (blocknr : Nat) : Except Stop Allocator :=
  if s.bitmap.getBit blocknr = false then .error (.panic "freed block was not marked as used!")
  else .ok { s with bitmap := s.bitmap.clearBit blocknr, nFree := u4 (1 + s.nFree) }

/-- `nextFree`. -/
def nextFree (dontCross : Nat) : Nat → Allocator → Option (Except Stop Allocator)
  | 0, _ => none
  | fuel + 1, s =>
    if s.bitmap.getBit s.currentBlock then
      match s.moveTo (s.currentBlock + 1) with
      | .error e => some (.error e)
      | .ok s' =>
        if s'.currentBlock = dontCross then some (.error (.panic "Out of memory"))
        else nextFree dontCross fuel s'
    else some (.ok s)

/-- The first offset below `nblocks` at which the run starting at `current_block` is used. -/
def firstUsed (s : Allocator) (nblocks : Nat) : Option Nat :=
  (List.range nblocks).find? fun i => s.bitmap.getBit (u4 (s.currentBlock + i))

/-- `isFree`: the answer, and the moved `current_block`. -/
def isFree (s : Allocator) (nblocks : Nat) : Except Stop (Bool × Allocator) :=
  if s.nBlocks < u4 (s.currentBlock + nblocks) then
    if s.currentBlock = 0 then .error (.panic "Out of memory")
    else .ok (false, { s with currentBlock := 0 })
  else
    match s.firstUsed nblocks with
    | some i => do
      let s' ← s.moveTo (s.currentBlock + i + 1)
      return (false, s')
    | none => .ok (true, s)

/-- The search loop of `jxmalloc_internal`; `startBlock` is `current_block` at its entry. -/
def search (startBlock sizeBlk align : Nat) :
    Nat → Allocator → Option (Except Stop (Nat × Allocator))
  | 0, _ => none
  | fuel + 1, s =>
    match s.isFree sizeBlk with
    | .error e => some (.error e)
    | .ok (free, s') =>
      if free ∧ s'.getAddr s'.currentBlock &&& u4 (2 ^ 32 - 1 + align) = 0 then
        some (do return (s'.getAddr s'.currentBlock, ← markUsed sizeBlk s'))
      else if ¬ free ∧ s'.currentBlock = startBlock then
        some (.error (.panic "Out of memory"))
      else
        match nextFree s'.currentBlock fuel s' with
        | none => none
        | some (.error e) => some (.error e)
        | some (.ok s'') => search startBlock sizeBlk align fuel s''

/-- `jxmalloc_internal`: the returned address and the allocator after the call. -/
def jxmallocInternal (fuel : Nat) (s : Allocator) (sizeBlk align : Nat) :
    Option (Except Stop (Nat × Allocator)) :=
  search s.currentBlock sizeBlk align fuel s

/-- The number of blocks `jxmalloc` asks `jxmalloc_internal` for. -/
def sizeBlkOf (size : Nat) : Nat := alignNextBlock size / blockSize

/-- `jxmalloc`. -/
def jxmalloc (fuel : Nat) (s : Allocator) (size : Nat) : Option (Except Stop (Nat × Allocator)) :=
  s.jxmallocInternal fuel (sizeBlkOf size) 1

/-- `jxmalloc_align`; `size_blk` is a number of blocks. -/
def jxmallocAlign (fuel : Nat) (s : Allocator) (sizeBlk align : Nat) :
    Option (Except Stop (Nat × Allocator)) :=
  s.jxmallocInternal fuel sizeBlk align

/-- The loop of `jxfree`: the blocks `b`, …, `b + nb - 1`. -/
def markUnusedFrom (b : Nat) : Nat → Allocator → Except Stop Allocator
  | 0, s => .ok s
  | nb + 1, s => do
    let s' ← s.markUnused (u4 b)
    markUnusedFrom (b + 1) nb s'

/-- `jxfree`. -/
def jxfree (s : Allocator) (addr size : Nat) : Except Stop Allocator :=
  markUnusedFrom (blockOf s.jxmemStart addr) (sizeBlkOf size) s

end Allocator

/-- `jxmalloc_init` from the point where `jxmem_start` and `jxmem_end` are known; `size` is their
difference and `mem` what the memory held before. -/
def jxmallocInit (start size : Nat) (mem : Bytes) : Except Stop Allocator :=
  let nBlocks := size / blockSize
  let bitmapSize := nBlocks >>> 3
  let bitmapSizeBlocks := alignNextBlock bitmapSize / blockSize
  Allocator.markUsed bitmapSizeBlocks
    { jxmemStart := start, nBlocks := nBlocks, nFree := nBlocks, currentBlock := 0,
      bitmap := mem.zero bitmapSize, bitmapSize := bitmapSize,
      bitmapSizeBlocks := bitmapSizeBlocks }

/-! ## The allocator and its clients -/

/-- A live allocation: the returned address, the size it was requested with (in bytes) and the
number of blocks that were marked for it. -/
structure Region where
  addr : Nat
  size : Nat
  nblk : Nat
  deriving DecidableEq

/-- The allocator together with the allocations that have not been freed. -/
structure World where
  alloc : Allocator
  live : List Region

/-- The blocks of an allocation. -/
def World.blocks (w : World) (r : Region) : Finset Nat :=
  Finset.Ico (blockAt w.alloc.jxmemStart r.addr) (blockAt w.alloc.jxmemStart r.addr + r.nblk)

/-- What a client of the allocator does. -/
inductive Op where
  | malloc (size : Nat)
  | mallocAlign (sizeBlk align : Nat)
  | free (r : Region)
  /-- The owner of a live region stores a byte in it. -/
  | store (r : Region) (off : Nat) (value : BitVec 8)

/-- One completed call. A panic ends the run: it has no successor state. -/
inductive Step : Op → World → World → Prop where
  | malloc {w : World} {size fuel addr : Nat} {a : Allocator} (hsize : size < 2 ^ 32)
      (hcall : w.alloc.jxmalloc fuel size = some (.ok (addr, a))) :
      Step (.malloc size) w ⟨a, ⟨addr, size, Allocator.sizeBlkOf size⟩ :: w.live⟩
  | mallocAlign {w : World} {sizeBlk align fuel addr : Nat} {a : Allocator}
      (hsize : sizeBlk < 2 ^ 32)
      (hcall : w.alloc.jxmallocAlign fuel sizeBlk align = some (.ok (addr, a))) :
      Step (.mallocAlign sizeBlk align) w ⟨a, ⟨addr, sizeBlk * blockSize, sizeBlk⟩ :: w.live⟩
  | free {w : World} {r : Region} {a : Allocator} (hlive : r ∈ w.live)
      (hcall : w.alloc.jxfree r.addr (u4 r.size) = .ok a) :
      Step (.free r) w ⟨a, w.live.erase r⟩
  | store {w : World} {r : Region} {off : Nat} {value : BitVec 8} (hlive : r ∈ w.live)
      (hoff : off < r.nblk * blockSize) :
      Step (.store r off value) w
        ⟨{ w.alloc with
            bitmap := Function.update w.alloc.bitmap
              (blockAt w.alloc.jxmemStart r.addr * blockSize + off) value }, w.live⟩

/-- The states reached from `jxmalloc_init` by calls that all satisfy `ok`. -/
inductive Reach (start size : Nat) (mem : Bytes) (ok : Op → Prop) : World → Prop where
  | init {a : Allocator} (h : jxmallocInit start size mem = .ok a) : Reach start size mem ok ⟨a, []⟩
  | step {w w' : World} {op : Op} (hw : Reach start size mem ok w) (hop : ok op)
      (h : Step op w w') : Reach start size mem ok w'

/-- **The block allocator invariant.** -/
structure Sound (w : World) : Prop where
  /-- `n_free` counts the clear bits. -/
  nFree_eq : w.alloc.nFree = w.alloc.bitmap.clearCount w.alloc.nBlocks
  /-- Live allocations do not share a block. -/
  disjoint : w.live.Pairwise fun r r' => Disjoint (w.blocks r) (w.blocks r')
  /-- They lie inside the managed blocks. -/
  inside : ∀ r ∈ w.live, ∀ b ∈ w.blocks r, b < w.alloc.nBlocks
  /-- Their bits are set. -/
  marked : ∀ r ∈ w.live, ∀ b ∈ w.blocks r, w.alloc.bitmap.getBit b = true
  /-- They stay away from the blocks that hold the bitmap. -/
  offBitmap : ∀ r ∈ w.live, ∀ b ∈ w.blocks r, w.alloc.bitmapSizeBlocks ≤ b
  /-- Every bit lives in a byte that was zeroed and that is reserved for the bitmap. -/
  bitmapHolds : ∀ i < w.alloc.nBlocks,
    i / 8 < w.alloc.bitmapSize ∧ i / 8 < w.alloc.bitmapSizeBlocks * blockSize
  /-- A region is as large as was asked for. -/
  large : ∀ r ∈ w.live, r.size ≤ r.nblk * blockSize

/-! ## Arithmetic of blocks -/

theorem alignNextBlock_of_le {a : Nat} (h : a ≤ 2 ^ 32 - 1024) :
    alignNextBlock a = (a + 1023) / 1024 * 1024 := by
  rw [alignNextBlock, blockSize, u4_of_lt (by omega)]

theorem sizeBlkOf_of_le {size : Nat} (h : size ≤ 2 ^ 32 - 1024) :
    Allocator.sizeBlkOf size = (size + 1023) / 1024 := by
  rw [Allocator.sizeBlkOf, alignNextBlock_of_le h, blockSize, Nat.mul_div_cancel _ (by decide)]

theorem blockAt_getAddr {s : Allocator} {b : Nat} (hstart : s.jxmemStart < 2 ^ 32)
    (hb : b < 2 ^ 22) : blockAt s.jxmemStart (s.getAddr b) = b := by
  simp only [blockAt, offsetOf, Allocator.getAddr, u4, blockSize]
  omega

/-- Less than 2 GiB behind the start, where `jxfree` finds the block of an address. -/
def Near (start addr : Nat) : Prop := offsetOf start addr < 2 ^ 31

theorem blockOf_of_near {start addr : Nat} (h : Near start addr) :
    blockOf start addr = blockAt start addr :=
  if_pos h

/-- Farther behind it, `jxfree` takes a block for one before the start, which no bit stands for. -/
theorem blockOf_of_not_near {start addr nblk : Nat} (h : ¬ Near start addr) (hpos : 0 < nblk)
    (hinside : blockAt start addr + nblk < 2 ^ 22) :
    2 ^ 32 - 2 ^ 21 ≤ blockOf start addr ∧ blockOf start addr + nblk ≤ 2 ^ 32 := by
  have hlt : offsetOf start addr < 2 ^ 32 := Nat.mod_lt _ (by decide)
  rw [Near] at h
  rw [blockOf, if_neg h]
  simp only [blockAt, u4, blockSize] at hinside ⊢
  omega

/-! ## What the helpers do to the allocator -/

namespace Allocator

/-- `s'` is `s` with some other `current_block` inside the memory. -/
def Moved (s s' : Allocator) : Prop :=
  ∃ c, c ≤ s.nBlocks - 1 ∧ s' = { s with currentBlock := c }

theorem Moved.trans {s s' s'' : Allocator} (h : s.Moved s') (h' : s'.Moved s'') :
    s.Moved s'' := by
  obtain ⟨c, _, rfl⟩ := h
  obtain ⟨c', hc', rfl⟩ := h'
  exact ⟨c', hc', rfl⟩

theorem moveTo_moved {s s' : Allocator} {c : Nat} (h : s.moveTo c = .ok s') : s.Moved s' := by
  rw [moveTo] at h
  split at h
  · cases h
  · cases h
    have hlt := Nat.mod_lt (u4 c) (Nat.pos_of_ne_zero ‹_›)
    exact ⟨u4 c % s.nBlocks, by omega, rfl⟩

theorem nextFree_moved {dontCross fuel : Nat} {s s' : Allocator}
    (hcur : s.currentBlock ≤ s.nBlocks - 1)
    (h : nextFree dontCross fuel s = some (.ok s')) : s.Moved s' := by
  induction fuel generalizing s with
  | zero => cases h
  | succ fuel ih =>
    rw [nextFree] at h
    split at h
    · split at h
      · cases h
      · next s₁ hmove =>
        have hmoved := moveTo_moved hmove
        split at h
        · cases h
        · have hcur₁ : s₁.currentBlock ≤ s₁.nBlocks - 1 := by
            obtain ⟨c, hc, rfl⟩ := hmoved
            exact hc
          exact hmoved.trans (ih hcur₁ h)
    · injection h with h
      injection h with h
      exact ⟨s.currentBlock, hcur, h.symm⟩

/-- A run that `isFree` accepts lies inside the memory and is clear; `current_block` stays put. -/
theorem isFree_true {s s' : Allocator} {nblocks : Nat} (hwrap : s.currentBlock + nblocks < 2 ^ 32)
    (h : s.isFree nblocks = .ok (true, s')) :
    s' = s ∧ s.currentBlock + nblocks ≤ s.nBlocks ∧
      ∀ i < nblocks, s.bitmap.getBit (s.currentBlock + i) = false := by
  rw [isFree, u4_of_lt hwrap] at h
  split at h
  · split at h <;> cases h
  · next hle =>
    split at h
    · cases hm : s.moveTo (s.currentBlock + ‹Nat› + 1) <;> rw [hm] at h <;> cases h
    · next hnone =>
      cases h
      refine ⟨rfl, by omega, fun i hi => ?_⟩
      rw [firstUsed, List.find?_eq_none] at hnone
      have hbit := hnone i (List.mem_range.mpr hi)
      rw [u4_of_lt (by omega)] at hbit
      simpa using hbit

theorem isFree_moved {s s' : Allocator} {nblocks : Nat} {free : Bool}
    (hcur : s.currentBlock ≤ s.nBlocks - 1) (h : s.isFree nblocks = .ok (free, s')) :
    s.Moved s' := by
  rw [isFree] at h
  split at h
  · split at h
    · cases h
    · cases h
      exact ⟨0, Nat.zero_le _, rfl⟩
  · split at h
    · cases hm : s.moveTo (s.currentBlock + ‹Nat› + 1) with
      | error e => rw [hm] at h; cases h
      | ok s₁ =>
        rw [hm] at h
        cases h
        exact moveTo_moved hm
    · cases h
      exact ⟨s.currentBlock, hcur, rfl⟩

/-- The statics that never change after `jxmalloc_init`. -/
structure SameConst (s s' : Allocator) : Prop where
  jxmemStart : s'.jxmemStart = s.jxmemStart
  nBlocks : s'.nBlocks = s.nBlocks
  bitmapSize : s'.bitmapSize = s.bitmapSize
  bitmapSizeBlocks : s'.bitmapSizeBlocks = s.bitmapSizeBlocks

theorem SameConst.trans {s s' s'' : Allocator} (h : s.SameConst s') (h' : s'.SameConst s'') :
    s.SameConst s'' :=
  ⟨h'.1.trans h.1, h'.2.trans h.2, h'.3.trans h.3, h'.4.trans h.4⟩

/-- Bit and count agree, and `current_block` is inside. -/
structure Counted (s : Allocator) : Prop where
  nFree_eq : s.nFree = s.bitmap.clearCount s.nBlocks
  current_le : s.currentBlock ≤ s.nBlocks - 1
  small : s.nBlocks < 2 ^ 22

theorem Counted.moved {s s' : Allocator} (h : s.Counted) (hm : s.Moved s') : s'.Counted := by
  obtain ⟨c, hc, rfl⟩ := hm
  exact ⟨h.nFree_eq, hc, h.small⟩

/-- `s'` is `s` after the blocks `b`, …, `b + n - 1` were marked used. -/
structure MarkedUsed (s : Allocator) (b n : Nat) (s' : Allocator) : Prop where
  same : s.SameConst s'
  counted : s'.Counted
  bits : ∀ j, s'.bitmap.getBit j = (decide (b ≤ j ∧ j < b + n) || s.bitmap.getBit j)

@[simp] theorem markCurrentUsed_nBlocks (s : Allocator) :
    s.markCurrentUsed.nBlocks = s.nBlocks := rfl

@[simp] theorem markCurrentUsed_currentBlock (s : Allocator) :
    s.markCurrentUsed.currentBlock = s.currentBlock := rfl

@[simp] theorem markCurrentUsed_bitmap (s : Allocator) :
    s.markCurrentUsed.bitmap = s.bitmap.setBit s.currentBlock := rfl

@[simp] theorem markCurrentUsed_nFree (s : Allocator) :
    s.markCurrentUsed.nFree = u4 (2 ^ 32 - 1 + s.nFree) := rfl

theorem markCurrentUsed_counted {s : Allocator} (h : s.Counted) (hlt : s.currentBlock < s.nBlocks)
    (hclear : s.bitmap.getBit s.currentBlock = false) : s.markCurrentUsed.Counted := by
  have hcount := Bytes.clearCount_setBit hlt hclear
  have hle := s.bitmap.clearCount_le s.nBlocks
  have hsmall := h.small
  refine ⟨?_, by simpa using h.current_le, by simpa using h.small⟩
  rw [markCurrentUsed_nFree, markCurrentUsed_bitmap, markCurrentUsed_nBlocks, h.nFree_eq, ← hcount,
    u4_pred (Nat.succ_pos _) (by omega),
    Nat.succ_eq_add_one, Nat.add_sub_cancel]

theorem markUsed_spec {n : Nat} {s s' : Allocator} (hs : s.Counted)
    (hrun : s.currentBlock + n ≤ s.nBlocks)
    (hclear : ∀ i < n, s.bitmap.getBit (s.currentBlock + i) = false)
    (h : markUsed n s = .ok s') : s.MarkedUsed s.currentBlock n s' := by
  induction n generalizing s with
  | zero =>
    injection h with h
    subst h
    refine ⟨⟨rfl, rfl, rfl, rfl⟩, hs, fun j => ?_⟩
    simp
  | succ n ih =>
    have hsmall := hs.small
    have hne : s.nBlocks ≠ 0 := by omega
    rw [markUsed, moveTo, markCurrentUsed_nBlocks, if_neg hne] at h
    have hcounted := markCurrentUsed_counted hs (by omega) (hclear 0 (Nat.succ_pos n))
    have hmod : u4 (s.currentBlock + 1) % s.nBlocks =
        if s.currentBlock + 1 = s.nBlocks then 0 else s.currentBlock + 1 := by
      rw [u4_of_lt (by omega)]
      split
      · next heq => rw [heq, Nat.mod_self]
      · exact Nat.mod_eq_of_lt (by omega)
    -- past the last block the pointer wraps, but then no block is left to mark
    have hnext : ∀ i < n, s.markCurrentUsed.bitmap.getBit
        (u4 (s.currentBlock + 1) % s.nBlocks + i) = false := by
      intro i hi
      have hi' := hclear (i + 1) (by omega)
      rw [hmod, if_neg (by omega)]
      rw [markCurrentUsed_bitmap, Bytes.getBit_setBit,
        show s.currentBlock + 1 + i = s.currentBlock + (i + 1) by omega, hi']
      simp
    have hbound : u4 (s.currentBlock + 1) % s.nBlocks + n ≤ s.nBlocks := by
      rw [hmod]
      split <;> omega
    have hlast := Nat.mod_lt (u4 (s.currentBlock + 1)) (Nat.pos_of_ne_zero hne)
    have hmoved : s.markCurrentUsed.Moved
        { s.markCurrentUsed with currentBlock := u4 (s.currentBlock + 1) % s.nBlocks } :=
      ⟨_, by rw [markCurrentUsed_nBlocks]; omega, rfl⟩
    have hrest := ih (hcounted.moved hmoved) hbound hnext h
    refine ⟨⟨hrest.same.1, hrest.same.2, hrest.same.3, hrest.same.4⟩, hrest.counted, fun j => ?_⟩
    rw [hrest.bits j]
    show (decide (u4 (s.currentBlock + 1) % s.nBlocks ≤ j ∧
        j < u4 (s.currentBlock + 1) % s.nBlocks + n) ||
      (s.bitmap.setBit s.currentBlock).getBit j) = _
    rw [Bytes.getBit_setBit, ← Bool.or_assoc, ← Bool.decide_or]
    congr 2
    rw [hmod]
    apply propext
    split <;> omega

/-- The whole search: the returned blocks were free, and exactly they are marked. -/
theorem search_spec {startBlock sizeBlk align fuel addr : Nat} {s a : Allocator} (hs : s.Counted)
    (hwrap : sizeBlk + s.nBlocks ≤ 2 ^ 32) (hlt : sizeBlk < 2 ^ 32)
    (h : search startBlock sizeBlk align fuel s = some (.ok (addr, a))) :
    ∃ b, b + sizeBlk ≤ s.nBlocks ∧ b ≤ s.nBlocks - 1 ∧ addr = s.getAddr b ∧
      (∀ i < sizeBlk, s.bitmap.getBit (b + i) = false) ∧ s.MarkedUsed b sizeBlk a := by
  induction fuel generalizing s with
  | zero => cases h
  | succ fuel ih =>
    have hcur := hs.current_le
    have hsmall := hs.small
    rw [search] at h
    split at h
    · cases h
    · next free s₁ hfree =>
      split at h
      · next hyes =>
        rw [hyes.1] at hfree
        obtain ⟨rfl, hrun, hclear⟩ := isFree_true (by omega) hfree
        cases hm : markUsed sizeBlk s₁ with
        | error e => rw [hm] at h; cases h
        | ok s₂ =>
          rw [hm] at h
          cases h
          exact ⟨s₁.currentBlock, hrun, hcur, rfl, hclear, markUsed_spec hs hrun hclear hm⟩
      · have hmoved := isFree_moved hcur hfree
        split at h
        · cases h
        · split at h
          · cases h
          · cases h
          · next s₂ hnext =>
            have hmoved₂ := hmoved.trans (nextFree_moved (hs.moved hmoved).current_le hnext)
            have hs₂ := hs.moved hmoved₂
            obtain ⟨c, hc, rfl⟩ := hmoved₂
            obtain ⟨b, hrun, hb, haddr, hclear, hmarked⟩ := ih hs₂ hwrap h
            have hsame := hmarked.same
            exact ⟨b, hrun, hb, haddr, hclear, ⟨hsame.1, hsame.2, hsame.3, hsame.4⟩,
              hmarked.counted, hmarked.bits⟩

/-- `s'` is `s` after the blocks `b`, …, `b + n - 1` were marked unused. -/
structure MarkedUnused (s : Allocator) (b n : Nat) (s' : Allocator) : Prop where
  same : s.SameConst s'
  counted : s'.Counted
  bits : ∀ j, s'.bitmap.getBit j = (!decide (b ≤ j ∧ j < b + n) && s.bitmap.getBit j)

theorem markUnused_counted {s s' : Allocator} {b : Nat} (hs : s.Counted) (hb : b < s.nBlocks)
    (h : s.markUnused b = .ok s') : s'.Counted := by
  have hsmall := hs.small
  have hle := s.bitmap.clearCount_le s.nBlocks
  rw [markUnused] at h
  split at h
  · cases h
  · next hset =>
    cases h
    refine ⟨?_, hs.current_le, hs.small⟩
    show u4 (1 + s.nFree) = (s.bitmap.clearBit b).clearCount s.nBlocks
    rw [Bytes.clearCount_clearBit hb (by simpa using hset), hs.nFree_eq, u4_of_lt (by omega),
      Nat.add_comm]

theorem markUnused_eq {s s' : Allocator} {b : Nat} (h : s.markUnused b = .ok s') :
    s.SameConst s' ∧ s'.bitmap = s.bitmap.clearBit b := by
  rw [markUnused] at h
  split at h
  · cases h
  · cases h
    exact ⟨⟨rfl, rfl, rfl, rfl⟩, rfl⟩

theorem markUnusedFrom_spec {b n : Nat} {s s' : Allocator} (hs : s.Counted)
    (hrun : b + n ≤ s.nBlocks) (h : markUnusedFrom b n s = .ok s') : s.MarkedUnused b n s' := by
  induction n generalizing s b with
  | zero =>
    injection h with h
    subst h
    refine ⟨⟨rfl, rfl, rfl, rfl⟩, hs, fun j => ?_⟩
    rw [decide_eq_false (by omega)]
    rfl
  | succ n ih =>
    have hsmall := hs.small
    rw [markUnusedFrom, u4_of_lt (by omega)] at h
    cases hone : s.markUnused b with
    | error e => rw [hone] at h; cases h
    | ok s₁ =>
      rw [hone] at h
      obtain ⟨hsame, hbits⟩ := markUnused_eq hone
      have hs₁ := markUnused_counted hs (by omega) hone
      have hrest := ih hs₁ (by rw [hsame.nBlocks]; omega) h
      refine ⟨hsame.trans hrest.same, hrest.counted, fun j => ?_⟩
      rw [hrest.bits j, hbits, Bytes.getBit_clearBit, ← Bool.and_assoc, ← Bool.not_or,
        ← Bool.decide_or]
      congr 3
      apply propext
      omega

end Allocator

/-! ## The invariant of every run -/

/-- The calls in whose rounding and block arithmetic no 32-bit sum wraps, on `n` blocks from `start`
on, and the releases of regions whose block `jxfree` finds. -/
def Fits (start n : Nat) : Op → Prop
  | .malloc size => size ≤ 2 ^ 32 - 1024
  | .mallocAlign sizeBlk _ => sizeBlk + n ≤ 2 ^ 32
  | .free r => r.nblk = 0 ∨ Near start r.addr
  | .store _ _ _ => True

/-- What an allocator on `n` blocks from `start` on looks like between two calls. -/
structure Allocator.Ready (start n : Nat) (s : Allocator) : Prop where
  start_eq : s.jxmemStart = start
  nBlocks_eq : s.nBlocks = n
  bitmapSize_eq : s.bitmapSize = n / 8
  bitmapSizeBlocks_eq : s.bitmapSizeBlocks = (n / 8 + 1023) / 1024
  counted : s.Counted
  /-- The blocks of the bitmap are marked. -/
  reserved : ∀ b < s.bitmapSizeBlocks, s.bitmap.getBit b = true

/-- The inductive invariant of a run. -/
structure Inv (start n : Nat) (w : World) : Prop where
  ready : w.alloc.Ready start n
  disjoint : w.live.Pairwise fun r r' => Disjoint (w.blocks r) (w.blocks r')
  inside : ∀ r ∈ w.live, blockAt start r.addr + r.nblk ≤ n
  marked : ∀ r ∈ w.live, ∀ b ∈ w.blocks r, w.alloc.bitmap.getBit b = true
  offBitmap : ∀ r ∈ w.live, ∀ b ∈ w.blocks r, w.alloc.bitmapSizeBlocks ≤ b
  large : ∀ r ∈ w.live, r.size ≤ r.nblk * blockSize
  /-- `jxfree` recomputes the number of blocks the region was allocated with. -/
  sameBlk : ∀ r ∈ w.live, Allocator.sizeBlkOf (u4 r.size) = r.nblk

/-- Which blocks a region has only depends on where the memory starts. -/
theorem blocks_congr {w w' : World} (h : w'.alloc.jxmemStart = w.alloc.jxmemStart) (r : Region) :
    w'.blocks r = w.blocks r := by
  simp only [World.blocks, h]

theorem mem_blocks {w : World} {r : Region} {b : Nat} :
    b ∈ w.blocks r ↔ blockAt w.alloc.jxmemStart r.addr ≤ b ∧
      b < blockAt w.alloc.jxmemStart r.addr + r.nblk :=
  Finset.mem_Ico

namespace Allocator.Ready

variable {start n : Nat} {s s' : Allocator}

/-- With a multiple of eight blocks every bit is in the bitmap's own bytes and blocks. -/
theorem bitmapHolds (hs : s.Ready start n) (h8 : n % 8 = 0) {i : Nat} (hi : i < n) :
    i / 8 < s.bitmapSize ∧ i / 8 < s.bitmapSizeBlocks * blockSize := by
  rw [hs.bitmapSize_eq, hs.bitmapSizeBlocks_eq, blockSize]
  omega

/-- Changing bits outside the bitmap's own blocks keeps the allocator ready. -/
theorem of_same (hs : s.Ready start n) (hsame : s.SameConst s') (hcounted : s'.Counted)
    (hbits : ∀ b < s.bitmapSizeBlocks, s'.bitmap.getBit b = true) : s'.Ready start n where
  start_eq := hsame.jxmemStart.trans hs.start_eq
  nBlocks_eq := hsame.nBlocks.trans hs.nBlocks_eq
  bitmapSize_eq := hsame.bitmapSize.trans hs.bitmapSize_eq
  bitmapSizeBlocks_eq := hsame.bitmapSizeBlocks.trans hs.bitmapSizeBlocks_eq
  counted := hcounted
  reserved := fun b hb => hbits b (hsame.bitmapSizeBlocks ▸ hb)

end Allocator.Ready

theorem jxmallocInit_ready {start size : Nat} {mem : Bytes} {a : Allocator}
    (hsize : size < 2 ^ 32) (h8 : size / blockSize % 8 = 0)
    (h : jxmallocInit start size mem = .ok a) : a.Ready start (size / blockSize) := by
  have hn : size / blockSize < 2 ^ 22 := by
    simp only [blockSize]
    omega
  rw [jxmallocInit] at h
  generalize size / blockSize = n at hn h8 h
  have hres : alignNextBlock (n / 8) / blockSize = (n / 8 + 1023) / 1024 := by
    rw [alignNextBlock_of_le (by omega), blockSize, Nat.mul_div_cancel _ (by decide)]
  simp only [Bytes.shiftRight_three, hres] at h
  have hzeroed : ∀ i < n, (mem.zero (n / 8)).getBit i = false := by
    intro i hi
    exact Bytes.getBit_zero mem (by omega)
  have hmarked := Allocator.markUsed_spec
    ⟨(Bytes.clearCount_of_clear hzeroed).symm, Nat.zero_le _, hn⟩
    (by show 0 + (n / 8 + 1023) / 1024 ≤ n; omega)
    (fun i hi => hzeroed (0 + i) (by omega)) h
  refine ⟨hmarked.same.1, hmarked.same.2, hmarked.same.3, hmarked.same.4, hmarked.counted, ?_⟩
  intro b hb
  rw [hmarked.same.4] at hb
  rw [hmarked.bits b, decide_eq_true ⟨Nat.zero_le b, by simpa using hb⟩, Bool.true_or]

namespace Inv

variable {start n : Nat} {w w' : World}

/-- A completed search adds one region and keeps the rest. -/
theorem alloc (hw : Inv start n w) (hstart : start < 2 ^ 32)
    {sizeBlk align fuel addr size : Nat} {a : Allocator}
    (hwrap : sizeBlk + n ≤ 2 ^ 32) (hlt : sizeBlk < 2 ^ 32)
    (hcall : w.alloc.jxmallocInternal fuel sizeBlk align = some (.ok (addr, a)))
    (hlarge : size ≤ sizeBlk * blockSize)
    (hsame : sizeBlk ≤ n → Allocator.sizeBlkOf (u4 size) = sizeBlk) :
    Inv start n ⟨a, ⟨addr, size, sizeBlk⟩ :: w.live⟩ := by
  have hn := hw.ready.counted.small
  have hnb := hw.ready.nBlocks_eq
  obtain ⟨b, hrun, hb, rfl, hclear, hmarked⟩ :=
    Allocator.search_spec hw.ready.counted (hnb ▸ hwrap) hlt hcall
  have hstart' := hmarked.same.jxmemStart
  have hblocks : ∀ r,
      World.blocks ⟨a, ⟨w.alloc.getAddr b, size, sizeBlk⟩ :: w.live⟩ r = w.blocks r :=
    fun r => blocks_congr hstart' r
  have hof : blockAt w.alloc.jxmemStart (w.alloc.getAddr b) = b :=
    blockAt_getAddr (hw.ready.start_eq ▸ hstart) (by omega)
  have hkeep : ∀ j, w.alloc.bitmap.getBit j = true → a.bitmap.getBit j = true := by
    intro j hj
    rw [hmarked.bits j, hj, Bool.or_true]
  -- the new blocks were clear, the blocks of live regions and of the bitmap are not
  have hnew : ∀ j ∈ w.blocks ⟨w.alloc.getAddr b, size, sizeBlk⟩,
      w.alloc.bitmap.getBit j = false := by
    intro j hj
    rw [mem_blocks, hof] at hj
    have hbit := hclear (j - b) (Nat.sub_lt_left_of_lt_add hj.1 hj.2)
    rwa [Nat.add_sub_cancel' hj.1] at hbit
  refine ⟨hw.ready.of_same hmarked.same hmarked.counted ?_, ?_, ?_, ?_, ?_, ?_, ?_⟩
  · intro j hj
    exact hkeep j (hw.ready.reserved j hj)
  · simp only [hblocks]
    refine List.Pairwise.cons (fun r hr => ?_) hw.disjoint
    rw [Finset.disjoint_left]
    intro j hj hjr
    have hset := hw.marked r hr j hjr
    rw [hnew j hj] at hset
    cases hset
  · intro r hr
    rcases List.mem_cons.mp hr with rfl | hr
    · show blockAt start (w.alloc.getAddr b) + sizeBlk ≤ n
      rw [← hw.ready.start_eq, hof, ← hnb]
      exact hrun
    · exact hw.inside r hr
  · intro r hr j hj
    rw [hblocks] at hj
    rcases List.mem_cons.mp hr with rfl | hr
    · rw [mem_blocks, hof] at hj
      show a.bitmap.getBit j = true
      rw [hmarked.bits j, decide_eq_true hj, Bool.true_or]
    · exact hkeep j (hw.marked r hr j hj)
  · intro r hr j hj
    rw [hblocks] at hj
    show a.bitmapSizeBlocks ≤ j
    rw [hmarked.same.bitmapSizeBlocks]
    rcases List.mem_cons.mp hr with rfl | hr
    · by_contra hlow
      have hset := hw.ready.reserved j (by omega)
      rw [hnew j hj] at hset
      cases hset
    · exact hw.offBitmap r hr j hj
  · intro r hr
    rcases List.mem_cons.mp hr with rfl | hr
    · exact hlarge
    · exact hw.large r hr
  · intro r hr
    rcases List.mem_cons.mp hr with rfl | hr
    · exact hsame (by omega)
    · exact hw.sameBlk r hr

/-- Freeing a live region clears its own blocks and no others, where `jxfree` finds them. -/
theorem free (hw : Inv start n w) {r : Region} {a : Allocator} (hlive : r ∈ w.live)
    (hfit : r.nblk = 0 ∨ Near start r.addr)
    (hcall : w.alloc.jxfree r.addr (u4 r.size) = .ok a) : Inv start n ⟨a, w.live.erase r⟩ := by
  have hnb := hw.ready.nBlocks_eq
  have hstart := hw.ready.start_eq
  have hfrom : Allocator.markUnusedFrom (blockAt start r.addr) r.nblk w.alloc = .ok a := by
    rw [Allocator.jxfree, hw.sameBlk r hlive, hstart] at hcall
    obtain hzero | hnear := hfit
    · rw [hzero] at hcall ⊢
      exact hcall
    · rwa [blockOf_of_near hnear] at hcall
  have hmarked := Allocator.markUnusedFrom_spec hw.ready.counted
    (hnb ▸ hw.inside r hlive) hfrom
  have hsub : ∀ r' ∈ w.live.erase r, r' ∈ w.live := fun r' => List.mem_of_mem_erase
  have hblocks : ∀ r', World.blocks ⟨a, w.live.erase r⟩ r' = w.blocks r' :=
    fun r' => blocks_congr hmarked.same.jxmemStart r'
  have hother : ∀ j, j ∉ w.blocks r → a.bitmap.getBit j = w.alloc.bitmap.getBit j := by
    intro j hj
    rw [mem_blocks, hstart] at hj
    rw [hmarked.bits j, decide_eq_false hj]
    rfl
  have hsplit : (r :: w.live.erase r).Pairwise
      fun r r' => Disjoint (w.blocks r) (w.blocks r') :=
    ((List.perm_cons_erase hlive).pairwise_iff fun h => h.symm).mp hw.disjoint
  refine ⟨hw.ready.of_same hmarked.same hmarked.counted ?_, ?_, ?_, ?_, ?_, ?_, ?_⟩
  · intro j hj
    rw [hother j fun hjr => absurd (hw.offBitmap r hlive j hjr) (by omega)]
    exact hw.ready.reserved j hj
  · simp only [hblocks]
    exact hsplit.of_cons
  · exact fun r' hr' => hw.inside r' (hsub r' hr')
  · intro r' hr' j hj
    rw [hblocks] at hj
    have hdisj := List.rel_of_pairwise_cons hsplit hr'
    show a.bitmap.getBit j = true
    rw [hother j fun hjr => Finset.disjoint_left.mp hdisj hjr hj]
    exact hw.marked r' (hsub r' hr') j hj
  · intro r' hr' j hj
    rw [hblocks] at hj
    show a.bitmapSizeBlocks ≤ j
    rw [hmarked.same.bitmapSizeBlocks]
    exact hw.offBitmap r' (hsub r' hr') j hj
  · exact fun r' hr' => hw.large r' (hsub r' hr')
  · exact fun r' hr' => hw.sameBlk r' (hsub r' hr')

/-- A store of an owner never reaches a bit of the bitmap. -/
theorem store (hw : Inv start n w) (h8 : n % 8 = 0) {r : Region} {off : Nat} {value : BitVec 8}
    (hlive : r ∈ w.live) (hoff : off < r.nblk * blockSize) :
    Inv start n ⟨{ w.alloc with
      bitmap := Function.update w.alloc.bitmap
        (blockAt w.alloc.jxmemStart r.addr * blockSize + off) value }, w.live⟩ := by
  have hnb := hw.ready.nBlocks_eq
  have hfirst : w.alloc.bitmapSizeBlocks ≤ blockAt w.alloc.jxmemStart r.addr := by
    refine hw.offBitmap r hlive _ (mem_blocks.mpr ⟨le_refl _, ?_⟩)
    have hpos : 0 < r.nblk := Nat.pos_of_mul_pos_right (Nat.lt_of_le_of_lt (Nat.zero_le _) hoff)
    omega
  have hbits : ∀ j < n, Bytes.getBit (Function.update w.alloc.bitmap
      (blockAt w.alloc.jxmemStart r.addr * blockSize + off) value) j = w.alloc.bitmap.getBit j := by
    intro j hj
    have hlow := (hw.ready.bitmapHolds h8 hj).2
    have hmul : w.alloc.bitmapSizeBlocks * blockSize ≤
        blockAt w.alloc.jxmemStart r.addr * blockSize :=
      Nat.mul_le_mul_right _ hfirst
    refine Bytes.getBit_congr (Function.update_of_ne ?_ _ _)
    omega
  have hres : w.alloc.bitmapSizeBlocks ≤ n := by
    rw [hw.ready.bitmapSizeBlocks_eq]
    omega
  have hcounted := hw.ready.counted
  refine ⟨hw.ready.of_same ⟨rfl, rfl, rfl, rfl⟩
    ⟨?_, hcounted.current_le, hcounted.small⟩ ?_, hw.disjoint, hw.inside, ?_, hw.offBitmap,
    hw.large, hw.sameBlk⟩
  · show w.alloc.nFree = _
    rw [hcounted.nFree_eq]
    exact Bytes.clearCount_congr fun j hj => (hbits j (hnb ▸ hj)).symm
  · intro j hj
    exact (hbits j (by omega)).trans (hw.ready.reserved j hj)
  · intro r' hr' j hj
    have hlt := hw.inside r' hr'
    have hj' := mem_blocks.mp hj
    rw [hw.ready.start_eq] at hj'
    exact (hbits j (Nat.lt_of_lt_of_le hj'.2 hlt)).trans (hw.marked r' hr' j hj)

theorem step (hw : Inv start n w) (hstart : start < 2 ^ 32) (h8 : n % 8 = 0) {op : Op}
    (hop : Fits start n op) (h : Step op w w') : Inv start n w' := by
  have hn := hw.ready.counted.small
  rw [hw.ready.nBlocks_eq] at hn
  cases h with
  | @malloc _ size fuel addr a hsize hcall =>
    have hfit : size ≤ 2 ^ 32 - 1024 := hop
    have hblk := sizeBlkOf_of_le hfit
    refine hw.alloc hstart (by omega) (by omega) hcall ?_ fun _ => by rw [u4_of_lt hsize]
    rw [hblk, blockSize]
    omega
  | @mallocAlign _ sizeBlk align fuel addr a hsize hcall =>
    have hfit : sizeBlk + n ≤ 2 ^ 32 := hop
    refine hw.alloc hstart hfit hsize hcall (le_refl _) fun hle => ?_
    rw [blockSize, u4_of_lt (by omega), sizeBlkOf_of_le (by omega)]
    omega
  | free hlive hcall => exact hw.free hlive hop hcall
  | store hlive hoff => exact hw.store h8 hlive hoff

theorem of_reach {size : Nat} {mem : Bytes} (hstart : start < 2 ^ 32) (hsize : size < 2 ^ 32)
    (h8 : size / blockSize % 8 = 0) (hw : Reach start size mem (Fits start (size / blockSize)) w) :
    Inv start (size / blockSize) w := by
  induction hw with
  | init h =>
    exact ⟨jxmallocInit_ready hsize h8 h, List.Pairwise.nil, by simp, by simp, by simp, by simp,
      by simp⟩
  | step _ hop h ih => exact ih.step hstart h8 hop h

theorem sound (hw : Inv start n w) (h8 : n % 8 = 0) : Sound w where
  nFree_eq := hw.ready.counted.nFree_eq
  disjoint := hw.disjoint
  inside := by
    intro r hr b hb
    rw [mem_blocks, hw.ready.start_eq] at hb
    rw [hw.ready.nBlocks_eq]
    exact Nat.lt_of_lt_of_le hb.2 (hw.inside r hr)
  marked := hw.marked
  offBitmap := hw.offBitmap
  bitmapHolds := by
    intro i hi
    exact hw.ready.bitmapHolds h8 (hw.ready.nBlocks_eq ▸ hi)
  large := hw.large

end Inv

/-- **The allocator is sound in every run** on a number of blocks that is a multiple of eight, as
long as the requested sizes do not wrap when they are rounded up and no region is freed that lies 2 GiB
behind the start. -/
theorem sound_of_reach {start size : Nat} {mem : Bytes} {w : World} (hstart : start < 2 ^ 32)
    (hsize : size < 2 ^ 32) (h8 : size / blockSize % 8 = 0)
    (hw : Reach start size mem (Fits start (size / blockSize)) w) : Sound w :=
  (Inv.of_reach hstart hsize h8 hw).sound h8

set_option maxRecDepth 10000 in
/-- A run on sixteen blocks at one megabyte: five thousand bytes are requested, the last of them is
written, and the region is freed again. -/
theorem sound_of_sixteen_blocks : ∃ w : World,
    Reach 0x100000 (16 * 1024) (fun _ => 0) (Fits 0x100000 16) w ∧ w.live = [] ∧
      w.alloc.currentBlock = 6 ∧ Sound w := by
  have h₀ : Reach 0x100000 (16 * 1024) (fun _ => 0) (Fits 0x100000 16) _ := Reach.init rfl
  have h₁ := h₀.step (show Fits 0x100000 16 (.malloc 5000) from Nat.le_of_ble_eq_true rfl)
    (@Step.malloc _ 5000 5 _ _ (by decide) rfl)
  have h₂ := h₁.step (show Fits 0x100000 16 (.store _ 4999 7) from trivial)
    (Step.store (List.mem_cons_self ..) (by decide))
  have h₃ := h₂.step (show Fits 0x100000 16 (.free ⟨0x100400, 5000, 5⟩) from .inr (by unfold Near; decide))
    (Step.free (List.mem_cons_self ..) rfl)
  exact ⟨_, h₃, rfl, rfl, sound_of_reach (by decide) (by decide) (by decide) h₃⟩

/-- `jxfree` far behind the bits: the count grows, the bits stay. -/
theorem Allocator.markUnusedFrom_far {b nb : Nat} {s s' : Allocator} (hb : s.nBlocks ≤ b)
    (hlt : b + nb ≤ 2 ^ 32) (h : markUnusedFrom b nb s = .ok s') :
    s'.nFree % 2 ^ 32 = (s.nFree + nb) % 2 ^ 32 ∧ s'.nBlocks = s.nBlocks ∧
      ∀ j < s.nBlocks, s'.bitmap.getBit j = s.bitmap.getBit j := by
  induction nb generalizing s b with
  | zero =>
    cases h
    exact ⟨rfl, rfl, fun _ _ => rfl⟩
  | succ nb ih =>
    rw [markUnusedFrom, u4_of_lt (by omega)] at h
    cases hone : s.markUnused b with
    | error e => rw [hone] at h; cases h
    | ok s₁ =>
      rw [hone] at h
      obtain ⟨hsame, hbits⟩ := markUnused_eq hone
      have hfree : s₁.nFree = u4 (1 + s.nFree) := by
        rw [markUnused] at hone
        split at hone <;> cases hone
        rfl
      obtain ⟨hcount, hn, hrest⟩ := ih (by rw [hsame.nBlocks]; omega) (by omega) h
      refine ⟨?_, hn.trans hsame.nBlocks, fun j hj => ?_⟩
      · rw [hcount, hfree, u4]
        omega
      · rw [hrest j (by rw [hsame.nBlocks]; exact hj), hbits, Bytes.getBit_clearBit,
          decide_eq_false (by omega)]
        rfl

/-- The last condition is needed: a region that lies 2 GiB behind the start is never freed in order. -/
theorem not_sound_of_far {start size : Nat} {mem : Bytes} {w : World} (hstart : start < 2 ^ 32)
    (hsize : size < 2 ^ 32) (h8 : size / blockSize % 8 = 0)
    (hw : Reach start size mem (Fits start (size / blockSize)) w) {r : Region} (hlive : r ∈ w.live)
    (hblk : 0 < r.nblk) (hfar : ¬ Near start r.addr) {w' : World} (h : Step (.free r) w w') :
    ¬ Sound w' := by
  have hinv := Inv.of_reach hstart hsize h8 hw
  have hcounted := hinv.ready.counted
  have hinside := hinv.inside r hlive
  have hnb := hinv.ready.nBlocks_eq
  have hsmall := hcounted.small
  have hle := w.alloc.bitmap.clearCount_le w.alloc.nBlocks
  cases h with
  | @free _ _ a _ hcall =>
    rw [Allocator.jxfree, hinv.sameBlk r hlive, hinv.ready.start_eq] at hcall
    obtain ⟨hlow, hhigh⟩ := blockOf_of_not_near hfar hblk (show _ + r.nblk < 2 ^ 22 by omega)
    obtain ⟨hfree, hn, hbits⟩ := Allocator.markUnusedFrom_far (by omega) hhigh hcall
    intro hs
    have hcount := hs.nFree_eq
    rw [hn, Bytes.clearCount_congr hbits, ← hcounted.nFree_eq] at hcount
    rw [hcount, hcounted.nFree_eq] at hfree
    omega

set_option maxRecDepth 10000 in
/-- Nine blocks get a bitmap of one byte, so that bit 8 is in a byte nobody zeroed; and a request
for the whole address space wraps to no block at all. -/
theorem not_sound_of_odd_blocks_or_wrap :
    (∃ w : World, Reach 0x100000 (9 * 1024) (fun _ => 0) (fun _ => True) w ∧ ¬ Sound w) ∧
    (∃ w : World, Reach 0x100000 (16 * 1024) (fun _ => 0) (fun _ => True) w ∧
      ⟨0x100400, 0xffffffff, 0⟩ ∈ w.live ∧ ¬ Sound w) := by
  constructor
  · refine ⟨_, Reach.init rfl, fun hs => ?_⟩
    exact absurd (hs.bitmapHolds 8 (by decide)).1 (by decide)
  · have h₀ : Reach 0x100000 (16 * 1024) (fun _ => 0) (fun _ => True) _ := Reach.init rfl
    have h₁ := h₀.step trivial (@Step.malloc _ 0xffffffff 5 _ _ (by decide) rfl)
    refine ⟨_, h₁, List.mem_cons_self .., fun hs => ?_⟩
    exact absurd (hs.large _ (List.mem_cons_self ..)) (by decide)

end JxCore.Malloc
