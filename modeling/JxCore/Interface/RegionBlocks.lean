import JxCore.Interface.RegionRefcount
import JxCore.Core.MallocSearch

/-!
# The blocks of memories (`Interface/zero_Memory_org.c`, `core/malloc.c`)

`createMemoryInstance` asks `jxmalloc` for `bytes - 1` bytes more than the memory has and moves its
start up to the alignment. When the last object of the chain dies, `jxfree` gets the moved start and
the size of the memory, and computes the blocks from these, with a signed division. Memories at a place
that is given, of read-only files or of a device, are made in the same way and die in the same way.
-/

namespace JxCore.Region

open Malloc

/-! ## Blocks -/

section Blocks

/-- The blocks that `jxmalloc` marks for `size` bytes at `addr`. -/
def blocksAt (jxmemStart addr size : Nat) : Finset Nat :=
  let b := blockAt jxmemStart addr
  Finset.Ico b (b + Allocator.sizeBlkOf size)

/-- The blocks that `jxfree` unmarks for `size` bytes at `addr`. -/
def blocksFreed (jxmemStart addr size : Nat) : Finset Nat :=
  let b := blockOf jxmemStart addr
  Finset.Ico b (b + Allocator.sizeBlkOf size)

/-- `block` is what `jxmalloc` answers, in some state, to a request for `size` bytes. -/
def Granted (jxmemStart size block : Nat) : Prop :=
  ∃ (alloc alloc' : Allocator) (fuel : Nat), alloc.jxmemStart = jxmemStart ∧ jxmemStart < 2 ^ 32 ∧
    alloc.jxmalloc fuel size = some (.ok (block, alloc'))

variable {s s' : Allocator} {fuel size addr jxmemStart block bytes : Nat}

/-- `jxmalloc` marks these blocks, which were free. -/
theorem jxmalloc_blocks (hs : s.Counted) (hstart : s.jxmemStart < 2 ^ 32)
    (h : s.jxmalloc fuel size = some (.ok (addr, s'))) (j : Nat) :
    (s'.bitmap.getBit j ↔ j ∈ blocksAt s.jxmemStart addr size ∨ s.bitmap.getBit j) ∧
      (j ∈ blocksAt s.jxmemStart addr size → s.bitmap.getBit j = false) := by
  have hsmall := hs.small
  have hsize : Allocator.sizeBlkOf size < 2 ^ 22 := by
    simp only [Allocator.sizeBlkOf, alignNextBlock, u4, blockSize]
    omega
  obtain ⟨b, hrun, hb, rfl, hclear, hmarked⟩ := Allocator.search_spec hs (by omega) (by omega) h
  have hblock : blockAt s.jxmemStart (s.getAddr b) = b := blockAt_getAddr hstart (by omega)
  have hmem : j ∈ blocksAt s.jxmemStart (s.getAddr b) size ↔
      b ≤ j ∧ j < b + Allocator.sizeBlkOf size := by
    simp only [blocksAt, hblock, Finset.mem_Ico]
  rw [hmem, hmarked.bits j, Bool.or_eq_true, decide_eq_true_eq]
  refine ⟨Iff.rfl, fun hj => ?_⟩
  have hj' := hclear (j - b) (by omega)
  rwa [Nat.add_sub_cancel' hj.1] at hj'

/-- `jxfree` unmarks them. -/
theorem jxfree_blocks (hs : s.Counted)
    (hrun : blockOf s.jxmemStart addr + Allocator.sizeBlkOf size ≤ s.nBlocks)
    (h : s.jxfree addr size = .ok s') (j : Nat) :
    s'.bitmap.getBit j ↔ j ∉ blocksFreed s.jxmemStart addr size ∧ s.bitmap.getBit j := by
  have hbits := (Allocator.markUnusedFrom_spec hs hrun h).bits j
  rw [hbits, Bool.and_eq_true, Bool.not_eq_true', decide_eq_false_iff_not]
  simp only [blocksFreed, Finset.mem_Ico]

theorem isFree_start {n : Nat} {free : Bool} (h : s.isFree n = .ok (free, s')) :
    s'.jxmemStart = s.jxmemStart := by
  unfold Allocator.isFree at h
  split at h
  · split at h <;> cases h
    rfl
  · split at h
    · simp only [bind_eq_ok, pure_eq_ok, Prod.mk.injEq] at h
      obtain ⟨s₁, hmove, -, rfl⟩ := h
      obtain ⟨c, -, rfl⟩ := Allocator.moveTo_moved hmove
      rfl
    · cases h
      rfl

theorem nextFree_start {d : Nat} (h : Allocator.nextFree d fuel s = some (.ok s')) :
    s'.jxmemStart = s.jxmemStart := by
  induction fuel generalizing s with
  | zero => cases h
  | succ fuel ih =>
    rw [Allocator.nextFree] at h
    split at h
    · split at h
      · cases h
      case h_2 s₁ hmove =>
        obtain ⟨c, -, rfl⟩ := Allocator.moveTo_moved hmove
        split at h
        · cases h
        · have hstart := ih h
          exact hstart
    · cases h
      rfl

/-- What `jxmalloc` answers is the address of a block. -/
theorem search_getAddr {startBlock sizeBlk align : Nat}
    (h : Allocator.search startBlock sizeBlk align fuel s = some (.ok (addr, s'))) :
    ∃ b, addr = s.getAddr b := by
  induction fuel generalizing s with
  | zero => cases h
  | succ fuel ih =>
    rw [Allocator.search] at h
    split at h
    · cases h
    case h_2 free s₁ hfree =>
      have hstart := isFree_start hfree
      split at h
      · simp only [Option.some.injEq, bind_eq_ok, pure_eq_ok, Prod.mk.injEq] at h
        obtain ⟨-, -, rfl, -⟩ := h
        exact ⟨s₁.currentBlock, by rw [Allocator.getAddr, Allocator.getAddr, hstart]⟩
      split at h
      · cases h
      split at h
      · cases h
      · cases h
      case h_3 s₂ hnext =>
        obtain ⟨b, hb⟩ := ih h
        rw [Allocator.getAddr, nextFree_start hnext, hstart] at hb
        exact ⟨b, hb⟩

/-- A start that is moved by less than a block stays in its block, on the same side of the 2 GiB. -/
theorem offsetOf_alignedAt {b : Nat} {alloc : Allocator} (hstart : alloc.jxmemStart < 2 ^ 32)
    (hbytes : 0 < bytes) (hmore : bytes ≤ 1024) (htop : alloc.getAddr b + size + bytes < 2 ^ 32) :
    blockAt alloc.jxmemStart (alignedAt (alloc.getAddr b) size bytes).mem =
        blockAt alloc.jxmemStart (alloc.getAddr b) ∧
      (Near alloc.jxmemStart (alignedAt (alloc.getAddr b) size bytes).mem ↔
        Near alloc.jxmemStart (alloc.getAddr b)) := by
  have hmem : (alignedAt (alloc.getAddr b) size bytes).mem < alloc.getAddr b + bytes ∧
      alloc.getAddr b ≤ (alignedAt (alloc.getAddr b) size bytes).mem := by
    have hmod := Nat.mod_lt (alloc.getAddr b) hbytes
    simp only [alignedAt]
    split <;> omega
  simp only [blockAt, Near, offsetOf, Allocator.getAddr, u4, blockSize] at hmem ⊢
  omega

/-- If the sizes do not wrap, the same number of blocks means at most 1023 bytes more. -/
theorem bytes_le_of_sizeBlkOf (htop : size + bytes < 2 ^ 32)
    (h : Allocator.sizeBlkOf (size + bytes - 1) = Allocator.sizeBlkOf size)
    (hne : Allocator.sizeBlkOf size ≠ 0) : bytes ≤ 1024 := by
  simp only [Allocator.sizeBlkOf, alignNextBlock, u4, blockSize] at h hne
  omega

theorem blockOf_ne_blockAt {start addr : Nat} (h : ¬ Near start addr) :
    blockOf start addr ≠ blockAt start addr := by
  have hlt : offsetOf start addr < 2 ^ 32 := Nat.mod_lt _ (by decide)
  rw [Near] at h
  rw [blockOf, if_neg h, blockAt]
  simp only [u4, blockSize]
  omega

/-- The start is moved by less than a block, and so to the same block, if the size with the `bytes - 1`
more bytes has the same number of blocks; else there are blocks that do not come back. And `jxfree` finds
the block less than 2 GiB behind the start. -/
theorem blocksFreed_alignedAt_iff (hblock : Granted jxmemStart (size + bytes - 1) block)
    (hbytes : 0 < bytes) (htop : block + size + bytes < 2 ^ 32) :
    blocksFreed jxmemStart (alignedAt block size bytes).mem size =
        blocksAt jxmemStart block (size + bytes - 1) ↔
      Allocator.sizeBlkOf (size + bytes - 1) = Allocator.sizeBlkOf size ∧
        (Allocator.sizeBlkOf size = 0 ∨ Near jxmemStart block) := by
  obtain ⟨alloc, alloc', fuel, rfl, hstart, hcall⟩ := hblock
  obtain ⟨b, rfl⟩ := search_getAddr hcall
  constructor
  · intro h
    have hcard := congrArg Finset.card h
    simp only [blocksAt, blocksFreed, Nat.card_Ico, Nat.add_sub_cancel_left] at hcard
    refine ⟨hcard.symm, or_iff_not_imp_left.mpr fun hne => ?_⟩
    have hpos := Nat.pos_of_ne_zero hne
    obtain ⟨hfirst, hside⟩ :=
      offsetOf_alignedAt (b := b) hstart hbytes (bytes_le_of_sizeBlkOf (by omega) hcard.symm hne) htop
    rw [← hside]
    by_contra hfar
    have hblocks := blockOf_ne_blockAt hfar
    have hfreed : blockOf alloc.jxmemStart (alignedAt (alloc.getAddr b) size bytes).mem ∈
        blocksAt alloc.jxmemStart (alloc.getAddr b) (size + bytes - 1) := by
      rw [← h]
      exact Finset.left_mem_Ico.mpr (Nat.lt_add_of_pos_right hpos)
    have hreserved : blockAt alloc.jxmemStart (alloc.getAddr b) ∈
        blocksFreed alloc.jxmemStart (alignedAt (alloc.getAddr b) size bytes).mem size := by
      rw [h]
      exact Finset.left_mem_Ico.mpr (Nat.lt_add_of_pos_right (hcard ▸ hpos))
    rw [hfirst] at hblocks
    exact hblocks (Nat.le_antisymm (Finset.mem_Ico.mp hreserved).1 (Finset.mem_Ico.mp hfreed).1)
  · rintro ⟨h, hnear⟩
    rcases Nat.eq_zero_or_pos (Allocator.sizeBlkOf size) with hzero | hpos
    · simp only [blocksAt, blocksFreed, h, hzero, Nat.add_zero, Finset.Ico_self]
    obtain ⟨hfirst, hside⟩ :=
      offsetOf_alignedAt (b := b) hstart hbytes (bytes_le_of_sizeBlkOf (by omega) h hpos.ne') htop
    have hmem := hside.mpr (hnear.resolve_left hpos.ne')
    simp only [blocksAt, blocksFreed, blockOf_of_near hmem, hfirst, h]

end Blocks

/-! ## Memories and their nodes -/

/-- Where a memory comes from. -/
inductive Origin where
  | jxmalloc (a : Allocation)
  | given (start size : Nat)
  deriving DecidableEq

def Origin.isTaken : Origin → Bool
  | jxmalloc _ => true
  | given _ _ => false

/-- The range of a memory; one that is given counts as allocated where it is. -/
def Origin.range : Origin → Allocation
  | jxmalloc a => a
  | given start size => alignedAt start size 1

/-- The blocks that `jxmalloc` reserved for a memory. -/
def Origin.reserved (jxmemStart : Nat) : Origin → Finset Nat
  | jxmalloc a => blocksAt jxmemStart a.block a.blockSize
  | given _ _ => ∅

/-- The state with a record of all memories, in the order of their creation, and of which of them
each node was last made for. -/
structure World where
  sys : Sys
  memories : List Origin
  home : Nat → Nat

def World.init (number : Nat) : World := ⟨Region.init number, [], fun _ => 0⟩

/-- There is an object through which the memory `i` is accessible. -/
def World.Used (w : World) (i : Nat) : Prop :=
  ∃ p ∈ w.sys.proxies, (w.sys.dz p.dz).valid ≠ 0 ∧ w.home p.dz = i

/-- What happens to memory objects, given memories included. -/
inductive Act where
  | life (e : Life)
  | allocReadOnlyMemory (start size room : Nat)
  | allocDeviceMemory (start size room : Nat)

namespace Act

variable (dzMemory dzMemoryBorder jxmemStart : Nat)

def Possible (w : World) : Act → Prop
  | life (.call (.createMemoryInstance block size bytes room)) =>
    (Life.call (.createMemoryInstance block size bytes room)).Possible w.sys ∧
      Granted jxmemStart (size + bytes - 1) block
  | life e => e.Possible w.sys
  | allocReadOnlyMemory start size _ | allocDeviceMemory start size _ => start + size < 2 ^ 32

/-- The memory that the act creates. -/
def created : Act → Option Origin
  | life (.call (.createMemoryInstance block size bytes _)) =>
    some (.jxmalloc (alignedAt block size bytes))
  | life _ => none
  | allocReadOnlyMemory start size _ | allocDeviceMemory start size _ => some (.given start size)

/-- The memory that the act makes nodes for: that of the object it is called on, or a new one. -/
def owner (w : World) : Act → Nat
  | life (.call c) => (c.target w.sys).elim w.memories.length fun self => w.home self.dz
  | _ => w.memories.length

def Runs (s t : Sys) : Act → Prop
  | life e => e.Leads dzMemory dzMemoryBorder s t
  | allocReadOnlyMemory start size room =>
    ∃ o, Region.allocReadOnlyMemory start size room s = .ok (o, t)
  | allocDeviceMemory start size room =>
    ∃ o, memoryManagerAllocDeviceMemory start size room s = .ok (o, t)

/-- The record after an act that leads to `t`. -/
def record (a : Act) (w : World) (t : Sys) : World where
  sys := t
  memories := w.memories ++ a.created.toList
  home n := if n ∈ w.sys.dzMemoryFreeList ∧ n ∉ t.dzMemoryFreeList then a.owner w else w.home n

/-- Other objects lead to the node of `self`, or it is not a node of memory any more, or one at
`NULL`. -/
def Survives (s : Sys) (self : MemoryProxy) : Prop :=
  (s.dz self.dz).valid = 0 ∨
  (s.dz self.dz).mem = 0 ∧ (s.dz self.dz).prev = none ∧ (s.dz self.dz).next = none ∨
  ∃ p ∈ s.proxies.erase self,
    Relation.ReflTransGen (fun x y => (s.dz x).next = some y ∨ (s.dz x).prev = some y) self.dz p.dz

/-- There is an object for every node that the act makes, the bytes for the alignment take no block
more, `jxfree` will find the block, and a given memory does not lose its last object. -/
def Benign (w : World) : Act → Prop
  | life (.call (.createMemoryInstance block size bytes room)) =>
    4 < size ∧ (Allocator.sizeBlkOf (size + bytes - 1) = Allocator.sizeBlkOf size ∧
      (Allocator.sizeBlkOf size = 0 ∨ Near jxmemStart block)) ∧ 1 ≤ room
  | life (.memoryDeleted _ self) =>
    (∃ start size, w.memories[w.home self.dz]? = some (.given start size)) → Survives w.sys self
  | life e => e.Counted w.sys
  | allocReadOnlyMemory _ _ room | allocDeviceMemory _ _ room => 1 ≤ room

end Act

/-- One step of a history. -/
def World.Step (dzMemory dzMemoryBorder jxmemStart : Nat) (w w' : World) : Prop :=
  ∃ a : Act, a.Possible jxmemStart w ∧ ∃ t, a.Runs dzMemory dzMemoryBorder w.sys t ∧ w' = a.record w t

/-- One step in which nothing goes wrong. -/
def World.BenignStep (dzMemory dzMemoryBorder jxmemStart : Nat) (w w' : World) : Prop :=
  ∃ a : Act, a.Possible jxmemStart w ∧ a.Benign jxmemStart w ∧
    ∃ t, a.Runs dzMemory dzMemoryBorder w.sys t ∧ w' = a.record w t

/-- **The blocks of memories.** The calls of `jxfree` are for the memories from `jxmalloc` that no
object gives access to, once for each, with the blocks that `jxmalloc` reserved for it; none is for
a given memory. And no object of a memory from `jxmalloc` dies with a failed assertion. -/
structure BlocksReturned (jxmemStart : Nat) (w : World) : Prop where
  blocks : ∃ dead : List Nat, dead.Nodup ∧
    (∀ i, i ∈ dead ↔ (∃ a, w.memories[i]? = some (.jxmalloc a)) ∧ ¬ w.Used i) ∧
    (dead.map fun i => w.memories[i]?.map (Origin.reserved jxmemStart)) =
      w.sys.freed.map fun f => some (blocksFreed jxmemStart f.1 f.2)
  deleted : ∀ p ∈ w.sys.proxies, (∃ a, w.memories[w.home p.dz]? = some (.jxmalloc a)) →
    ∃ fuel t, memoryDeleted fuel p w.sys = .ok t

/-! ## Runs -/

section Runs

variable {dzMemory dzMemoryBorder jxmemStart number room start size : Nat} {w : World} {s t : Sys}
  {mems : List Allocation} {dead : List Nat} {chain : Nat → List Nat} {stale : List (List Nat)}
  {o : Outcome}

/-- A given memory is made like one that was allocated at its place. -/
theorem createMemoryInstance_of_given (h : allocMemoryProxyInDomain start size room s = .ok (o, t)) :
    createMemoryInstance start size 1 room s =
      .ok (o, { t with allocated := s.allocated ++ [alignedAt start size 1] }) := by
  unfold allocMemoryProxyInDomain createDZMemory at h
  unfold createMemoryInstance createDZMemory
  cases hfree : s.dzMemoryFreeList with
  | nil =>
    rw [hfree] at h
    cases h
  | cons n rest =>
    rw [hfree] at h
    have hresult := Prod.mk.inj (Except.ok.inj h)
    cases room with
    | zero =>
      obtain ⟨rfl, rfl⟩ := hresult
      rfl
    | succ room =>
      obtain ⟨rfl, rfl⟩ := hresult
      simp [allocMemoryProxies, alignedAt]

/-- The books are not about the calls of `jxmalloc`. -/
theorem Books.of_allocated {l : List Allocation}
    (h : Books number mems { t with allocated := l } dead chain stale) :
    Books number mems t dead chain stale :=
  h.recount (fun _ => rfl) rfl rfl (fun _ hp => .inl hp) (fun m hm => (h.free_nodes m hm).1) h.count

/-- The books of the memories, and what the record adds to them. -/
structure World.Booked (number jxmemStart : Nat) (w : World) (dead : List Nat)
    (chain : Nat → List Nat) (stale : List (List Nat)) : Prop where
  books : Books number (w.memories.map Origin.range) w.sys dead chain stale
  held : Held (w.memories.map Origin.range) w.sys dead chain stale
  home : ∀ i, ∀ n ∈ chain i, w.home n = i
  dead_given : ∀ i ∈ dead, ∀ start size, w.memories[i]? = some (.given start size) → start = 0
  sound : ∀ a, .jxmalloc a ∈ w.memories → a.mem ≠ 0 ∧ 4 < a.size ∧
    blocksFreed jxmemStart a.mem a.size = blocksAt jxmemStart a.block a.blockSize

namespace World.Booked

/-- A memory is on no list of free nodes. -/
theorem not_free (h : w.Booked number jxmemStart dead chain stale) {i n : Nat} (hn : n ∈ chain i) :
    n ∉ w.sys.dzMemoryFreeList := fun hfree => by
  have hvalid := (h.books.chained.valid n).mpr ⟨i, hn⟩
  have := h.books.chained.free n hfree
  omega

theorem remaining_of_mem (h : w.Booked number jxmemStart dead chain stale) {i n : Nat}
    (hn : n ∈ chain i) : ∃ m, w.memories[i]? = some m ∧
      remaining (w.memories.map Origin.range) dead i = some m.range := by
  obtain ⟨a, ha⟩ : ∃ a, remaining (w.memories.map Origin.range) dead i = some a := by
    refine Option.ne_none_iff_exists'.mp fun hnone => ?_
    rw [h.books.chained.beyond i hnone] at hn
    cases hn
  have hi := ha
  unfold remaining at hi
  split at hi
  · cases hi
  rw [List.getElem?_map] at hi
  obtain ⟨m, hm, rfl⟩ := Option.map_eq_some_iff.mp hi
  exact ⟨m, hm, ha⟩

/-- A new memory. -/
theorem create (h : w.Booked number jxmemStart dead chain stale) {m : Origin} {n : Nat}
    (hroom : 1 ≤ room) {l : List Allocation}
    (hn : CreatedMemory w.sys { t with allocated := l } m.range room n)
    (hsound : ∀ a, m = .jxmalloc a → a.mem ≠ 0 ∧ 4 < a.size ∧
      blocksFreed jxmemStart a.mem a.size = blocksAt jxmemStart a.block a.blockSize) :
    (World.mk t (w.memories ++ [m]) fun n => if n ∈ w.sys.dzMemoryFreeList ∧
      n ∉ t.dzMemoryFreeList then w.memories.length else w.home n).Booked number jxmemStart dead
      (Function.update chain w.memories.length [n]) stale := by
  obtain ⟨hbooks, hheld⟩ := h.books.create h.held hroom hn
  rw [List.length_map] at hbooks hheld
  constructor
  case books => simpa using hbooks.of_allocated
  case held =>
    have hheld' : Held (w.memories.map Origin.range ++ [m.range]) t dead
        (Function.update chain w.memories.length [n]) stale := ⟨hheld.live, hheld.stale⟩
    simpa using hheld'
  case home =>
    intro i k hk
    by_cases hi : i = w.memories.length
    · subst hi
      rw [Function.update_self, List.mem_singleton] at hk
      have hfree : w.sys.dzMemoryFreeList = n :: t.dzMemoryFreeList := hn.free
      have hnodup := h.books.chained.free_nodup
      rw [hfree, List.nodup_cons] at hnodup
      rw [hk]
      exact if_pos ⟨by simp [hfree], hnodup.1⟩
    · rw [Function.update_of_ne hi] at hk
      exact (if_neg fun hfree => h.not_free hk hfree.1).trans (h.home i k hk)
  case dead_given =>
    intro i hi start size hgiven
    have hlt := h.books.dead_lt i hi
    rw [List.length_map] at hlt
    rw [List.getElem?_append_left hlt] at hgiven
    exact h.dead_given i hi start size hgiven
  case sound =>
    intro a ha
    rcases List.mem_append.mp ha with ha | ha
    · exact h.sound a ha
    · exact hsound a (List.mem_singleton.mp ha).symm

/-- Nodes are exchanged. -/
theorem exchange (h : w.Booked number jxmemStart dead chain stale) {self : MemoryProxy}
    {i : Nat} {left mid new right : List Nat} (hself : self ∈ w.sys.proxies)
    (hi : chain i = left ++ mid ++ right) (hmem : self.dz ∈ mid)
    (hrep : Replaced w.sys t left mid new right) (hcount : Recounted w.sys t mid new new) :
    (World.mk t w.memories fun n => if n ∈ w.sys.dzMemoryFreeList ∧
      n ∉ t.dzMemoryFreeList then w.home self.dz else w.home n).Booked number jxmemStart dead
      (Function.update chain i (left ++ new ++ right)) (mid :: stale) where
  books := h.books.exchange hi (List.ne_nil_of_mem hmem) hrep hcount
  held := h.held.exchange h.books hi hrep hcount hself hmem
  home j n hn := by
    have hold : ∀ j, n ∈ chain j → (if n ∈ w.sys.dzMemoryFreeList ∧
        n ∉ t.dzMemoryFreeList then w.home self.dz else w.home n) = j := fun j hn =>
      (if_neg fun hfree => h.not_free hn hfree.1).trans (h.home j n hn)
    by_cases hj : j = i
    · subst hj
      rw [Function.update_self, List.mem_append, List.mem_append] at hn
      rcases hn with (hleft | hnew) | hright
      · exact hold j (by simp [hi, hleft])
      · have hnodup := (hrep.taken.nodup_iff.mpr h.books.chained.free_nodup)
        have hnot : n ∉ t.dzMemoryFreeList := fun hfree =>
          (List.nodup_append.mp hnodup).2.2 n hnew n hfree rfl
        have hself_home : w.home self.dz = j := h.home j self.dz (by simp [hi, hmem])
        exact (if_pos ⟨hrep.mem_free hnew, hnot⟩).trans hself_home
      · exact hold j (by simp [hi, hright])
    · rw [Function.update_of_ne hj] at hn
      exact hold j hn
  dead_given := h.dead_given
  sound := h.sound

/-- A chain of which `self` was the last object has only the nodes of `self` and of nobody. -/
theorem survives (h : w.Booked number jxmemStart dead chain stale) {self : MemoryProxy} {i : Nat}
    (hself : self ∈ w.sys.proxies) (hi : self.dz ∈ chain i)
    (hzero : ∀ n ∈ chain i, ((w.sys.drop self).dz n).refcount = 0)
    (hsurvives : Act.Survives w.sys self) : (w.sys.dz self.dz).mem = 0 ∧ chain i = [self.dz] := by
  obtain ⟨m, -, hm⟩ := h.remaining_of_mem hi
  have hlinked := (h.books.chained.isChain i _ hm).linked
  rcases hsurvives with hvalid | ⟨hmem, hprev, hnext⟩ | ⟨p, hp, hpath⟩
  · have := (h.books.chained.valid self.dz).mpr ⟨i, hi⟩
    omega
  · refine ⟨hmem, ?_⟩
    obtain ⟨left, right, hleft⟩ := List.append_of_mem hi
    rw [hleft] at hlinked ⊢
    obtain ⟨hp, hn⟩ := hlinked.at_mem
    simp only [hprev, hnext, Option.or_none] at hp hn
    rw [List.getLast?_eq_none_iff.mp hp.symm, List.head?_eq_none_iff.mp hn.symm, List.nil_append]
  · have hdrop := (h.books.drop hself).1.of_mem (p := p) hp
    exact absurd (hzero p.dz (hlinked.mem_of_connected hi hpath)) hdrop.2

/-- An object dies. -/
theorem delete (h : w.Booked number jxmemStart dead chain stale) {self : MemoryProxy}
    (hself : self ∈ w.sys.proxies)
    (hlast : (∃ start size, w.memories[w.home self.dz]? = some (.given start size)) →
      Act.Survives w.sys self) :
    ∃ bound, ∀ fuel, memoryDeleted fuel self w.sys = .error .running ∧ fuel ≤ bound ∨
      ∃ t dead' chain' stale', memoryDeleted fuel self w.sys = .ok t ∧
        (World.mk t w.memories fun n => if n ∈ w.sys.dzMemoryFreeList ∧
          n ∉ t.dzMemoryFreeList then w.memories.length else w.home n).Booked number jxmemStart
          dead' chain' stale' := by
  have hgiven : ∀ i start size, w.memories[i]? = some (.given start size) → self.dz ∈ chain i →
      (∀ n ∈ chain i, ((w.sys.drop self).dz n).refcount = 0) →
      (w.sys.dz self.dz).mem = 0 ∧ chain i = [self.dz] := fun i start size hm hi hzero =>
    h.survives hself hi hzero (hlast ⟨start, size, by rw [h.home i _ hi]; exact hm⟩)
  obtain ⟨bound, hdelete⟩ := h.books.delete h.held hself fun i a ha hi hzero => by
    obtain ⟨m, hm, hrange⟩ := h.remaining_of_mem hi
    obtain rfl : m.range = a := Option.some.inj (hrange.symm.trans ha)
    cases m with
    | jxmalloc a => exact .inl (h.sound a (List.mem_of_getElem? hm)).2.1
    | given start size =>
      obtain ⟨hmem, hchain⟩ := hgiven i start size hm hi hzero
      rw [hchain]
      exact .inr (List.forall_mem_singleton.mpr hmem)
  refine ⟨bound, fun fuel => (hdelete fuel).imp_right ?_⟩
  rintro ⟨t, dead', chain', stale', hok, ht⟩
  refine ⟨t, dead', chain', stale', hok, ht.books, ht.held, fun i n hn => ?_, ?_, h.sound⟩
  · have hn := ht.chain_sub i n hn
    exact (if_neg fun hfree => h.not_free hn hfree.1).trans (h.home i n hn)
  · intro i hi start size hm
    rcases ht.dead_sub i hi with hi | ⟨hi, hzero⟩
    · exact h.dead_given i hi start size hm
    obtain ⟨hmem, hchain⟩ := hgiven i start size hm hi hzero
    obtain ⟨m, hm', hrange⟩ := h.remaining_of_mem hi
    obtain rfl := Option.some.inj (hm.symm.trans hm')
    have htiled := (h.books.chained.isChain i _ hrange).tiled
    rw [hchain] at htiled
    have hstart : (w.sys.dz self.dz).mem = (alignedAt start size 1).mem := htiled.1
    rw [hmem] at hstart
    simpa [alignedAt] using hstart.symm

/-- A copy for another domain. -/
theorem copy (h : w.Booked number jxmemStart dead chain stale) {self : MemoryProxy} {quota : Nat}
    (hself : self ∈ w.sys.proxies) (hrun : copyMemory self quota room w.sys = .ok (o, t)) :
    (World.mk t w.memories fun n => if n ∈ w.sys.dzMemoryFreeList ∧
      n ∉ t.dzMemoryFreeList then w.memories.length else w.home n).Booked number jxmemStart dead
      chain stale := by
  obtain ⟨hbooks, hheld⟩ := h.books.copy h.held hself hrun
  exact ⟨hbooks, hheld, fun i n hn => (if_neg fun hfree => h.not_free hn hfree.1).trans
    (h.home i n hn), h.dead_given, h.sound⟩

theorem record_of_none {a : Act} (ha : a.created = none) : a.record w t =
    ⟨t, w.memories, fun n => if n ∈ w.sys.dzMemoryFreeList ∧
      n ∉ t.dzMemoryFreeList then a.owner w else w.home n⟩ := by
  simp only [Act.record, ha, Option.toList_none, List.append_nil]

theorem call_cases (jxmemStart : Nat) (c : Call) (w : World) :
    (∃ block size bytes room, c = .createMemoryInstance block size bytes room) ∨
    (Act.life (.call c)).created = none ∧
      ((Act.life (.call c)).Possible jxmemStart w → (Life.call c).Possible w.sys) ∧
      ((Act.life (.call c)).Benign jxmemStart w → (Life.call c).Counted w.sys) := by
  cases c with
  | createMemoryInstance block size bytes room => exact .inl ⟨block, size, bytes, room, rfl⟩
  | _ => exact .inr ⟨rfl, id, id⟩

/-- **One step** keeps the books. -/
theorem step (h : w.Booked number jxmemStart dead chain stale) {a : Act}
    (hc : a.Possible jxmemStart w) (hb : a.Benign jxmemStart w)
    (hrun : a.Runs dzMemory dzMemoryBorder w.sys t) :
    ∃ dead' chain' stale', (a.record w t).Booked number jxmemStart dead' chain' stale' := by
  -- A memory that is given.
  have hgiven : ∀ {start size room : Nat}, 1 ≤ room →
      (∃ o, allocMemoryProxyInDomain start size room w.sys = .ok (o, t)) →
      ∃ dead' chain' stale', (World.mk t (w.memories ++ [.given start size]) fun n =>
        if n ∈ w.sys.dzMemoryFreeList ∧ n ∉ t.dzMemoryFreeList then w.memories.length
        else w.home n).Booked number jxmemStart dead' chain' stale' := by
    rintro start size room hroom ⟨o, hrun⟩
    obtain ⟨n, hn⟩ := createMemoryInstance_ok (createMemoryInstance_of_given hrun)
    exact ⟨_, _, _, h.create (m := .given start size) hroom hn (by rintro a ⟨⟩)⟩
  cases a with
  | allocReadOnlyMemory start size room => exact hgiven hb hrun
  | allocDeviceMemory start size room => exact hgiven hb hrun
  | life e =>
    cases e with
    | copyMemory self quota room =>
      obtain ⟨o, hrun⟩ := hrun
      rw [record_of_none rfl]
      exact ⟨_, _, _, h.copy hc hrun⟩
    | memoryDeleted fuel self =>
      obtain ⟨bound, hdelete⟩ := h.delete hc hb
      change memoryDeleted fuel self w.sys = .ok t at hrun
      rw [record_of_none rfl]
      rcases hdelete fuel with ⟨hrunning, -⟩ | ⟨t', dead', chain', stale', hok, ht⟩
      · rw [hrunning] at hrun
        cases hrun
      · obtain rfl : t' = t := Except.ok.inj (hok.symm.trans hrun)
        exact ⟨_, _, _, ht⟩
    | call c =>
      rcases call_cases jxmemStart c w with ⟨block, size, bytes, room, rfl⟩ |
        ⟨hnone, hposs, hcounted⟩
      · obtain ⟨⟨hblock, hbytes, htop⟩, hgranted⟩ := hc
        obtain ⟨hsize, hmore, hroom⟩ := hb
        have hdefined : Defined ((Call.createMemoryInstance block size bytes room).run dzMemory
            dzMemoryBorder w.sys) := Call.defined h.books.chained ⟨hbytes, htop⟩ trivial
        obtain ⟨o, hrun⟩ := Call.Leads.exists_run hrun hdefined
        obtain ⟨n, hn⟩ := createMemoryInstance_ok hrun
        refine ⟨_, _, _, h.create (m := .jxmalloc (alignedAt block size bytes)) hroom hn ?_⟩
        rintro a ⟨⟩
        exact ⟨alignedAt_mem_ne hblock size bytes, hsize,
          (blocksFreed_alignedAt_iff hgranted hbytes htop).mpr hmore⟩
      · obtain ⟨hc, o, hrun⟩ := Life.exists_run h.books.chained (hposs hc) (hcounted hb) hrun
        rw [record_of_none hnone]
        rcases c.counted_cases h.books.chained hc (hcounted hb) hrun with
          ⟨block, size, bytes, room, rfl⟩ | rfl |
          ⟨self, hself, htarget, i, left, mid, new, right, hi, hmem, hrep, hcount⟩
        · cases hnone
        · refine ⟨_, _, _, h.books, h.held, fun i n hn => ?_, h.dead_given, h.sound⟩
          exact (if_neg fun hfree => h.not_free hn hfree.1).trans (h.home i n hn)
        · have howner : (Act.life (.call c)).owner w = w.home self.dz := by
            simp only [Act.owner, htarget, Option.elim_some]
          rw [howner]
          exact ⟨_, _, _, h.exchange hself hi hmem hrep hcount⟩

theorem returned (h : w.Booked number jxmemStart dead chain stale) : BlocksReturned jxmemStart w where
  blocks := by
    have hdead : ∀ i ∈ dead, ∃ m, w.memories[i]? = some m := fun i hi => by
      have hlt := h.books.dead_lt i hi
      rw [List.length_map] at hlt
      exact ⟨_, List.getElem?_eq_getElem hlt⟩
    let isTaken (i : Nat) : Bool := w.memories[i]?.any Origin.isTaken
    have htaken : ∀ i, isTaken i = true ↔ ∃ a, w.memories[i]? = some (.jxmalloc a) := fun i => by
      cases hi : w.memories[i]? with
      | none => simp [isTaken, hi]
      | some m => cases m <;> simp [isTaken, hi, Origin.isTaken]
    refine ⟨dead.filter isTaken, h.books.dead_nodup.filter _, fun i => ?_, ?_⟩
    · rw [List.mem_filter, htaken, and_comm]
      refine and_congr_right ?_
      rintro ⟨a, ha⟩
      refine ⟨fun hi => ?_, fun hunused => ?_⟩
      · rintro ⟨p, hp, hvalid, hhome⟩
        have hp_valid := ((h.books.chained.proxies p hp).resolve_left hvalid).1
        obtain ⟨j, hj⟩ := (h.books.chained.valid p.dz).mp hp_valid
        obtain rfl : j = i := (h.home j _ hj).symm.trans hhome
        rw [h.books.chained.beyond j (by simp [remaining, hi])] at hj
        cases hj
      · by_contra hi
        obtain ⟨n, hn, hcount⟩ := h.held.live i a (by simp [remaining, hi, ha, Origin.range])
        have hvalid := (h.books.chained.valid n).mpr ⟨i, hn⟩
        have hne : n + 1 ≠ number := fun heq => by
          have := (h.books.sentinel n heq).1
          omega
        obtain ⟨p, hp, rfl⟩ := h.books.exists_proxy hne hcount
        exact hunused ⟨p, hp, by omega, h.home i _ hn⟩
    · have hfreed : (dead.filter isTaken).filterMap
          (fun i => (w.memories.map Origin.range)[i]?.bind Allocation.given) = w.sys.freed := by
        rw [← h.books.freed, List.filterMap_filter]
        refine List.filterMap_congr fun i hi => ?_
        obtain ⟨m, hm⟩ := hdead i hi
        cases m with
        | jxmalloc a => rw [if_pos ((htaken i).mpr ⟨a, hm⟩)]
        | given start size =>
          have hstart := h.dead_given i hi start size hm
          simp [isTaken, Origin.isTaken, hm, Origin.range, alignedAt, Allocation.given, hstart]
      rw [← hfreed]
      refine map_eq_map_filterMap (b := fun f : Nat × Nat => blocksFreed jxmemStart f.1 f.2) fun i hi => ?_
      obtain ⟨a, ha⟩ := (htaken i).mp (List.mem_filter.mp hi).2
      obtain ⟨hne, -, hblocks⟩ := h.sound a (List.mem_of_getElem? ha)
      refine ⟨(a.mem, a.size), ?_, ?_⟩
      · simp [ha, Origin.range, Allocation.given, hne]
      · rw [ha, Option.map_some, hblocks]
        rfl
  deleted p hp := by
    rintro ⟨a, ha⟩
    have hnot : ¬ ∃ start size, w.memories[w.home p.dz]? = some (.given start size) := by
      rintro ⟨start, size, hgiven⟩
      rw [ha] at hgiven
      cases hgiven
    obtain ⟨bound, hdelete⟩ := h.delete hp fun hgiven => (hnot hgiven).elim
    rcases hdelete (bound + 1) with ⟨-, hle⟩ | ⟨t, -, -, -, hok, -⟩
    · exact absurd hle (Nat.not_succ_le_self bound)
    · exact ⟨_, t, hok⟩

end World.Booked

/-- In every run in which no bytes for the alignment take a block and no given memory dies, the blocks
come back. -/
theorem blocksReturned_of_benign (number : Nat)
    (hrun : Relation.ReflTransGen (World.BenignStep dzMemory dzMemoryBorder jxmemStart)
      (World.init number) w) : BlocksReturned jxmemStart w := by
  have hbooked : ∃ dead chain stale, w.Booked number jxmemStart dead chain stale := by
    refine invariant_of_run (I := fun w => ∃ dead chain stale,
      w.Booked number jxmemStart dead chain stale) ?_ hrun ⟨[], fun _ => [], [], init_books number,
        init_held number, ?_, ?_, ?_⟩
    · rintro w _ ⟨dead, chain, stale, h⟩ ⟨a, hc, hb, t, hrun, rfl⟩
      exact h.step hc hb hrun
    · exact fun i n hn => by cases hn
    · exact fun i hi => by cases hi
    · exact fun a ha => by cases ha
  obtain ⟨dead, chain, stale, h⟩ := hbooked
  exact h.returned

end Runs

section Steps

variable {dzMemory dzMemoryBorder jxmemStart : Nat} {w : World} {t : Sys} {o : Outcome}

theorem World.BenignStep.of_call {c : Call} (hrun : c.run dzMemory dzMemoryBorder w.sys = .ok (o, t))
    (hc : (Act.life (.call c)).Possible jxmemStart w) (hb : (Act.life (.call c)).Benign jxmemStart w) :
    w.BenignStep dzMemory dzMemoryBorder jxmemStart ((Act.life (.call c)).record w t) :=
  ⟨_, hc, hb, t, Life.Leads.of_call hrun, rfl⟩

theorem World.BenignStep.of_readOnly {start size room : Nat}
    (hrun : allocReadOnlyMemory start size room w.sys = .ok (o, t)) (hc : start + size < 2 ^ 32)
    (hb : 1 ≤ room) : w.BenignStep dzMemory dzMemoryBorder jxmemStart
      ((Act.allocReadOnlyMemory start size room).record w t) :=
  ⟨.allocReadOnlyMemory start size room, hc, hb, t, ⟨o, hrun⟩, rfl⟩

theorem World.BenignStep.of_deleted {fuel : Nat} {self : MemoryProxy}
    (hrun : memoryDeleted fuel self w.sys = .ok t) (hc : self ∈ w.sys.proxies)
    (hb : (Act.life (.memoryDeleted fuel self)).Benign jxmemStart w) : w.BenignStep dzMemory dzMemoryBorder
      jxmemStart ((Act.life (.memoryDeleted fuel self)).record w t) :=
  ⟨.life (.memoryDeleted fuel self), hc, hb, t, hrun, rfl⟩

theorem World.Step.of_call {c : Call} (hrun : c.run dzMemory dzMemoryBorder w.sys = .ok (o, t))
    (hc : (Act.life (.call c)).Possible jxmemStart w) :
    w.Step dzMemory dzMemoryBorder jxmemStart ((Act.life (.call c)).record w t) :=
  ⟨_, hc, t, Life.Leads.of_call hrun, rfl⟩

theorem World.Step.of_readOnly {start size room : Nat}
    (hrun : allocReadOnlyMemory start size room w.sys = .ok (o, t)) (hc : start + size < 2 ^ 32) :
    w.Step dzMemory dzMemoryBorder jxmemStart
      ((Act.allocReadOnlyMemory start size room).record w t) :=
  ⟨.allocReadOnlyMemory start size room, hc, t, ⟨o, hrun⟩, rfl⟩

theorem World.Step.of_deleted {fuel : Nat} {self : MemoryProxy}
    (hrun : memoryDeleted fuel self w.sys = .ok t) (hc : self ∈ w.sys.proxies) :
    w.Step dzMemory dzMemoryBorder jxmemStart ((Act.life (.memoryDeleted fuel self)).record w t) :=
  ⟨.life (.memoryDeleted fuel self), hc, t, hrun, rfl⟩

end Steps

set_option maxRecDepth 10000 in
theorem granted_sixteen {size : Nat} (h : Allocator.sizeBlkOf size = 1 ∨ Allocator.sizeBlkOf size = 2) :
    Granted 0x100000 size 0x100400 := by
  rcases h with h | h
  · exact ⟨sixteen, _, 5, rfl, by decide, by rw [Allocator.jxmalloc, h]; rfl⟩
  · exact ⟨sixteen, _, 5, rfl, by decide, by rw [Allocator.jxmalloc, h]; rfl⟩

/-- A memory with an odd alignment is split and dies, while a read-only memory stays. -/
theorem blocksReturned_split : ∃ w : World, w.sys.freed = [(0x100401, 64)] ∧ w.memories.length = 2 ∧
    BlocksReturned 0x100000 w :=
  ⟨_, rfl, rfl, @blocksReturned_of_benign 0x300000 0x3afc80 0x100000 _ 8
    (.tail (.tail (.tail (.tail (.tail (.tail .refl
      (.of_call (c := .createMemoryInstance 0x100400 64 3 1) rfl
        ⟨⟨by decide, by decide⟩, granted_sixteen (.inl rfl)⟩
          ⟨by decide, ⟨rfl, .inr (by unfold Near; decide)⟩, by decide⟩))
      (@World.BenignStep.of_readOnly _ _ _ _ _ _ 0x8000 100 1 rfl (by decide) (by decide)))
      (.of_call (c := .split2 2 ⟨64, 0x100401, 6⟩ 32 (some 2) 2) rfl
        (by exact List.mem_cons_self) (.inr fun _ => by decide)))
      (@World.BenignStep.of_deleted _ _ _ _ _ 2 ⟨64, 0x100401, 6⟩ rfl
        (by exact List.mem_cons_self) (by rintro ⟨_, _, ⟨⟩⟩)))
      (@World.BenignStep.of_deleted _ _ _ _ _ 3 ⟨32, 0x100401, 4⟩ rfl
        (by exact List.mem_cons_of_mem _ List.mem_cons_self) (by rintro ⟨_, _, ⟨⟩⟩)))
      (@World.BenignStep.of_deleted _ _ _ _ _ 3 ⟨32, 0x100421, 3⟩ rfl
        (by exact List.mem_cons_of_mem _ List.mem_cons_self) (by rintro ⟨_, _, ⟨⟩⟩)))⟩

/-- A memory of 1024 bytes with an alignment of two takes two blocks and gives back one; and a
read-only memory goes to `jxfree` when it dies. -/
theorem not_blocksReturned :
    (∃ w : World, Relation.ReflTransGen (World.Step 0x300000 0x3afc80 0x100000) (.init 8) w ∧
      w.memories = [.jxmalloc ⟨0x100400, 1025, 0x100400, 1024⟩] ∧ w.sys.proxies = [] ∧
      ¬ BlocksReturned 0x100000 w) ∧
    ∃ w : World, Relation.ReflTransGen (World.Step 0x300000 0x3afc80 0x100000) (.init 8) w ∧
      w.memories = [.given 0x200000 100] ∧ w.sys.freed = [(0x200000, 100)] ∧
      ¬ BlocksReturned 0x100000 w := by
  constructor
  · refine ⟨_, .tail (.tail .refl
      (.of_call (c := .createMemoryInstance 0x100400 1024 2 1) rfl
        ⟨⟨by decide, by decide⟩, granted_sixteen (.inr rfl)⟩))
      (@World.Step.of_deleted _ _ _ _ _ 2 ⟨1024, 0x100400, 6⟩ rfl (by exact List.mem_cons_self)),
      rfl, rfl, fun h => ?_⟩
    obtain ⟨dead, -, hdead, hmap⟩ := h.blocks
    change dead.map (fun i => [Origin.jxmalloc ⟨0x100400, 1025, 0x100400, 1024⟩][i]?.map
      (Origin.reserved 0x100000)) = [some (blocksFreed 0x100000 0x100400 1024)] at hmap
    obtain ⟨i, rfl, hi⟩ := List.map_eq_singleton_iff.mp hmap
    cases i with
    | zero => exact absurd hi (by decide)
    | succ i => cases hi
  · refine ⟨_, .tail (.tail .refl (@World.Step.of_readOnly _ _ _ _ _ _ 0x200000 100 1 rfl (by decide)))
      (@World.Step.of_deleted _ _ _ _ _ 2 ⟨100, 0x200000, 6⟩ rfl (by exact List.mem_cons_self)),
      rfl, rfl, fun h => ?_⟩
    obtain ⟨dead, -, hdead, hmap⟩ := h.blocks
    change dead.map (fun i => [Origin.given 0x200000 100][i]?.map (Origin.reserved 0x100000)) =
      [some (blocksFreed 0x100000 0x200000 100)] at hmap
    obtain ⟨i, rfl, hi⟩ := List.map_eq_singleton_iff.mp hmap
    cases i with
    | zero => exact absurd hi (by decide)
    | succ i => cases hi

end JxCore.Region
