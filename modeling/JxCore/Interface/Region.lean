import JxCore.Interface.Memory
import Mathlib.Logic.Function.Basic

/-!
# Regions of memory (`Interface/zero_Memory_org.c`)

A memory object is a `MemoryProxy` on some heap; what it shares with its copies in other domains is
a node of the table `dzMemory`. Splitting, joining and revoking a memory invalidates its node and
puts others in its place, so the nodes of one allocation hang together in the order of their
addresses.

A node is named by its index in `dzMemory`, and the free list, which the source threads through
`next`, is a list of indices. Ranges lie inside the address space, so their sums do not wrap.
-/

namespace JxCore.Region

open Memory (Jint)

/-! ## State -/

/-- A node of `dzMemory`; `valid` is 1, 0 once it is invalidated and 2 while it is free. -/
structure DZMemoryProxy where
  refcount : Nat
  valid : Nat
  mem : Nat
  size : Nat
  prev : Option Nat
  next : Option Nat
  prevOwner : Nat
  nextOwner : Nat
  deriving DecidableEq, Repr

/-- A memory object; `size` and `mem` are what the node said when the object was allocated. -/
structure MemoryProxy where
  size : Nat
  mem : Nat
  dz : Nat
  deriving DecidableEq, Repr

/-- What `createMemoryInstance` got from `jxmalloc`, and the aligned range it made of it. -/
structure Allocation where
  block : Nat
  blockSize : Nat
  mem : Nat
  size : Nat
  deriving DecidableEq, Repr

structure Sys where
  dz : Nat → DZMemoryProxy
  dzMemoryFreeList : List Nat
  /-- The memory objects on all heaps. -/
  proxies : List MemoryProxy
  /-- The calls of `jxmalloc` for memories. -/
  allocated : List Allocation
  /-- The calls of `jxfree`. -/
  freed : List (Nat × Nat)

/-- Why there is no next state. -/
inductive Fault where
  /-- A panic or a failed assertion. -/
  | halted (why : Stop)
  /-- `dzmemory_alloc` waits for a collection to free a node. -/
  | outOfNodes
  /-- A loop is still running. -/
  | running
  /-- The source reads a variable that it has not assigned, or writes to a word that the routines here
  work with through one that is not a pointer. -/
  | undefined
  deriving DecidableEq, Repr

/-- How a call ends: with a value, or with an exception for the caller. -/
inductive Outcome where
  | returned
  | raised (e : Throw)
  deriving DecidableEq, Repr

/-- Give the node `n` other fields. -/
def Sys.set (s : Sys) (n : Nat) (f : DZMemoryProxy → DZMemoryProxy) : Sys :=
  { s with dz := Function.update s.dz n (f (s.dz n)) }

/-- `if (x) x->next = n`. -/
def Sys.setNext (s : Sys) (x n : Option Nat) : Sys :=
  match x with
  | some x => s.set x fun m => { m with next := n }
  | none => s

/-- `if (x) x->prev = n`. -/
def Sys.setPrev (s : Sys) (x n : Option Nat) : Sys :=
  match x with
  | some x => s.set x fun m => { m with prev := n }
  | none => s

/-- `FREE_DZ`. -/
def Sys.freeDZ (s : Sys) (n : Nat) : Sys := s.set n fun m => { m with valid := 0, mem := 0 }

def assert (cond : Prop) [Decidable cond] (text : String) : Except Fault Unit :=
  if cond then .ok () else .error (.halted (.assertion text))

/-! ## Nodes -/

/-- `dzmemory_alloc` and `createDZMemory`. -/
def createDZMemory (size mem : Nat) (s : Sys) : Except Fault (Nat × Sys) :=
  match s.dzMemoryFreeList with
  | [] => .error .outOfNodes
  | n :: rest =>
    .ok (n, { s with
      dzMemoryFreeList := rest
      dz := Function.update s.dz n
        { refcount := 1, valid := 1, mem, size, prev := none, next := none, prevOwner := 0,
          nextOwner := 0 } })

/-- `dzmemory_split3`; `none` is the return value `-1`. -/
def dzmemorySplit3 (cdom dzm : Nat) (offset len : Jint) (s : Sys) :
    Except Fault (Option (Nat × Nat × Nat) × Sys) := do
  let old := s.dz dzm
  assert (old.valid = 1) "dzm->valid == 1"
  assert (old.mem ≠ 0) "dzm->mem != NULL"
  if offset.slt 0 || len.slt 0 || old.size < (offset + len).toNat then return (none, s)
  else do
    let (dzm0, s) ← createDZMemory offset.toNat old.mem s
    let (dzm1, s) ← createDZMemory len.toNat (old.mem + offset.toNat) s
    let (dzm2, s) ← createDZMemory (old.size - len.toNat - offset.toNat)
      (old.mem + len.toNat + offset.toNat) s
    let s := s.setNext old.prev (some dzm0)
    let s := s.set dzm0 fun m =>
      { m with prev := old.prev, next := some dzm1, nextOwner := cdom, prevOwner := old.prevOwner }
    let s := s.set dzm1 fun m =>
      { m with prev := some dzm0, next := some dzm2, nextOwner := cdom, prevOwner := cdom }
    let s := s.set dzm2 fun m =>
      { m with prev := some dzm1, next := old.next, nextOwner := old.nextOwner, prevOwner := cdom }
    let s := s.setPrev old.next (some dzm2)
    return (some (dzm0, dzm1, dzm2),
      s.set dzm fun m => { m with prev := none, next := none, valid := 0, mem := 0 })

/-- `dzmemory_split2`. -/
def dzmemorySplit2 (cdom dzm : Nat) (offset : Jint) (s : Sys) :
    Except Fault (Option (Nat × Nat) × Sys) := do
  let old := s.dz dzm
  assert (old.valid = 1) "dzm->valid == 1"
  assert (old.mem ≠ 0) "dzm->mem != NULL"
  if offset.slt 0 || old.size < offset.toNat then return (none, s)
  else do
    let (dzm0, s) ← createDZMemory offset.toNat old.mem s
    let (dzm1, s) ← createDZMemory (old.size - offset.toNat) (old.mem + offset.toNat) s
    let s := s.setNext old.prev (some dzm0)
    let s := s.set dzm0 fun m =>
      { m with prev := old.prev, prevOwner := old.prevOwner, next := some dzm1, nextOwner := cdom }
    let s := s.set dzm1 fun m =>
      { m with prev := some dzm0, prevOwner := cdom, next := old.next, nextOwner := old.nextOwner }
    let s := s.setPrev old.next (some dzm1)
    return (some (dzm0, dzm1),
      s.set dzm fun m => { m with prev := none, next := none, mem := 0, valid := 0 })

/-- `dzmemory_join`. -/
def dzmemoryJoin (dzm1 dzm2 : Nat) (s : Sys) : Except Fault (Nat × Sys) := do
  let m1 := s.dz dzm1
  let m2 := s.dz dzm2
  assert (m1.valid = 1) "dzm1->valid == 1"
  assert (m2.valid = 1) "dzm2->valid == 1"
  assert (m1.mem ≠ 0) "dzm1->mem"
  assert (m2.mem ≠ 0) "dzm2->mem"
  assert (m1.mem ≤ m2.mem) "dzm1->mem <= dzm2->mem"
  assert (m1.next = some dzm2) "dzm1->next == dzm2"
  assert (m2.prev = some dzm1) "dzm2->prev == dzm1"
  let (dzm, s) ← createDZMemory (m1.size + m2.size) m1.mem s
  let s := s.setNext m1.prev (some dzm)
  let s := s.set dzm fun m =>
    { m with prev := m1.prev, prevOwner := m1.prevOwner, next := m2.next, nextOwner := m2.nextOwner }
  let s := s.setPrev m2.next (some dzm)
  let s := s.set dzm1 fun m => { m with prev := none, valid := 0, mem := 0 }
  return (dzm, s.set dzm2 fun m => { m with next := none, valid := 0, mem := 0 })

/-! ## Memory objects -/

/-- `allocMemoryProxyInDomainDZM` for one node after the other. After `room` of them the heap of
the domain is full, even after a collection, and the allocator raises. -/
def allocMemoryProxies : Nat → List Nat → Sys → Outcome × Sys
  | _, [], s => (.returned, s)
  | 0, _ :: _, s => (.raised .runtimeException, s)
  | room + 1, n :: l, s =>
    allocMemoryProxies room l
      { s with proxies := s.proxies ++ [⟨(s.dz n).size, (s.dz n).mem, n⟩] }

abbrev Result := Except Fault (Outcome × Sys)

def raise (e : Throw) (s : Sys) : Result := .ok (.raised e, s)

/-- `CHECKVALID` in front of the rest of a call. -/
def checkValid (self : MemoryProxy) (s : Sys) (rest : Result) : Result :=
  if (s.dz self.dz).valid = 0 then raise .invalidMemory s else rest

/-- `createMemoryInstance`; `block` is what `jxmalloc` answers. -/
def createMemoryInstance (block size bytes room : Nat) (s : Sys) : Result := do
  let mem := if 1 < bytes ∧ 0 < block % bytes then block + bytes - block % bytes else block
  let s := { s with allocated := s.allocated ++ [⟨block, size + bytes - 1, mem, size⟩] }
  let (dzm, s) ← createDZMemory size mem s
  return allocMemoryProxies room [dzm] s

/-- `allocMemoryProxyInDomain`: a node for memory that is there already, and an object for it. -/
def allocMemoryProxyInDomain (start size room : Nat) (s : Sys) : Result := do
  let (dzm, s) ← createDZMemory size start s
  return allocMemoryProxies room [dzm] s

/-- `allocReadOnlyMemory`. -/
def allocReadOnlyMemory (start size room : Nat) (s : Sys) : Result :=
  allocMemoryProxyInDomain start size room s

/-- `memoryManager_allocDeviceMemory`. -/
def memoryManagerAllocDeviceMemory (start size room : Nat) (s : Sys) : Result :=
  allocMemoryProxyInDomain start size room s

section GetSubRange

-- Where the table is: `dzMemory` and `dzMemoryBorder`.
variable (dzMemory dzMemoryBorder : Nat)

/-- The word at an address outside the table. -/
inductive Word where
  /-- The routines here work with it: a word of a memory object, of which `dz` is one, the list
  `dzMemoryFreeList` or another variable of the kernel, code, or a stack. -/
  | kernel
  /-- Any other word, with its value. -/
  | foreign (value : Nat)
  deriving DecidableEq, Repr

/-- The decrement of the word harms nobody here: it is foreign, and does not reach zero, where it would
be taken for a node of a chain to be freed. -/
def Word.Harmless : Word → Prop
  | kernel => False
  | foreign value => u4 value ≠ 1

instance : (w : Word) → Decidable w.Harmless
  | .kernel => inferInstanceAs (Decidable False)
  | .foreign value => inferInstanceAs (Decidable (u4 value ≠ 1))

/-- `dzmemory_decRefcount(dzm)` on a node where a `MemoryProxy` is expected: what stands there in the
place of `dz` is the size of the node, and the word at this address is decremented. Outside the table it
is `word`. -/
def decRefcountOfNode (dzm : Nat) (word : Word) (s : Sys) : Except Fault Unit :=
  let m := (s.dz dzm).size
  if m < dzMemoryBorder ∧ dzMemory < m + 4 ∨ ¬ word.Harmless then .error .undefined else .ok ()

/-- `memory_getSubRange`; `word0` and `word2` are the words that the two decrements find. -/
def memoryGetSubRange (cdom : Nat) (self : MemoryProxy) (offset len : Jint)
    (word0 word2 : Word) (room : Nat) (s : Sys) : Result :=
  checkValid self s do
    let old := s.dz self.dz
    assert (self.size = old.size) "self->size == self->dz->size"
    assert (self.mem = old.mem) "self->mem == self->dz->mem"
    if (offset + len).toNat = old.size then
      match ← dzmemorySplit2 cdom self.dz offset s with
      | (none, s) => raise .memoryIndexOutOfBounds s
      | (some (dzm0, dzm1), s) =>
        decRefcountOfNode dzMemory dzMemoryBorder dzm0 word0 s
        return allocMemoryProxies room [dzm1] (s.freeDZ self.dz)
    else
      match ← dzmemorySplit3 cdom self.dz offset len s with
      | (none, s) => raise .memoryIndexOutOfBounds s
      | (some (dzm0, dzm1, dzm2), s) =>
        decRefcountOfNode dzMemory dzMemoryBorder dzm0 word0 s
        decRefcountOfNode dzMemory dzMemoryBorder dzm2 word2 s
        return allocMemoryProxies room [dzm1] (s.freeDZ self.dz)

end GetSubRange

/-- The end of a call that makes objects for nodes and then frees its own node; if the heap is full
it does not get so far. -/
def allocThenFree (room : Nat) (l : List Nat) (self : MemoryProxy) (s : Sys) : Outcome × Sys :=
  match allocMemoryProxies room l s with
  | (.returned, s) => (.returned, s.freeDZ self.dz)
  | r => r

/-- `memory_split2`; `arr` is the length of the array for the parts. -/
def memorySplit2 (cdom : Nat) (self : MemoryProxy) (offset : Jint) (arr : Option Nat) (room : Nat)
    (s : Sys) : Result :=
  checkValid self s
    (if arr.getD 0 < 2 then raise .arrayIndexOutOfBounds s
    else do
      match ← dzmemorySplit2 cdom self.dz offset s with
      | (none, s) => raise .memoryIndexOutOfBounds s
      | (some (dzm0, dzm1), s) => return allocThenFree room [dzm0, dzm1] self s)

/-- `memory_split3`. -/
def memorySplit3 (cdom : Nat) (self : MemoryProxy) (offset len : Jint) (arr : Option Nat)
    (room : Nat) (s : Sys) : Result :=
  checkValid self s
    (if arr.getD 0 < 3 then raise .arrayIndexOutOfBounds s
    else do
      let old := s.dz self.dz
      assert (self.size = old.size) "self->size == self->dz->size"
      assert (self.mem = old.mem) "self->mem == self->dz->mem"
      match ← dzmemorySplit3 cdom self.dz offset len s with
      | (none, s) => raise .memoryIndexOutOfBounds s
      | (some (dzm0, dzm1, dzm2), s) => return allocThenFree room [dzm0, dzm1, dzm2] self s)

/-- `memory_joinPrevious`. -/
def memoryJoinPrevious (cdom : Nat) (self : MemoryProxy) (room : Nat) (s : Sys) : Result :=
  checkValid self s do
    let this := s.dz self.dz
    if this.prevOwner ≠ cdom then .error (.halted (.panic "join not allowed"))
    else
      match this.prev with
      | none => .error (.halted (.panic "join: NO prev"))
      | some dzmPrev =>
        let (dzmNew, s) ← dzmemoryJoin dzmPrev self.dz s
        let s := (s.freeDZ dzmPrev).freeDZ self.dz
        return allocMemoryProxies room [dzmNew] s

/-- `memory_joinNext`; it gives `NULL` if the border belongs to another domain. -/
def memoryJoinNext (cdom : Nat) (self : MemoryProxy) (room : Nat) (s : Sys) : Result :=
  checkValid self s do
    let this := s.dz self.dz
    if this.nextOwner ≠ cdom then return (.returned, s)
    else
      match this.next with
      | none => .error (.halted (.panic "join: NO next"))
      | some dzmNext =>
        let (dzmNew, s) ← dzmemoryJoin self.dz dzmNext s
        let s := (s.freeDZ dzmNext).freeDZ self.dz
        return allocMemoryProxies room [dzmNew] s

/-! ### `memory_joinAll` -/

/-- The first loop: up to the first node whose border in front is not the caller's. -/
def findTop (cdom : Nat) (s : Sys) : Nat → Nat → Except Fault Nat
  | 0, _ => .error .running
  | fuel + 1, dzmTop =>
    match (s.dz dzmTop).prev with
    | none => .ok dzmTop
    | some p =>
      if (s.dz dzmTop).prevOwner = cdom then do
        assert ((s.dz p).valid = 1) "dzmTop->prev->valid == 1"
        assert ((s.dz p).mem + (s.dz p).size = (s.dz dzmTop).mem)
          "dzmTop->prev->mem == dzmTop->mem - dzmTop->prev->size"
        findTop cdom s fuel p
      else .ok dzmTop

/-- The second loop: free the nodes down to the first whose border behind is not the caller's.
It gives this node, or `none` if the chain ended first, and the size of all of them. -/
def freeDown (cdom : Nat) : Nat → Nat → Nat → Sys → Except Fault (Option Nat × Nat × Sys)
  | 0, _, _, _ => .error .running
  | fuel + 1, dzmLast, size, s => do
    let m := s.dz dzmLast
    assert (m.valid = 1) "dzmLast->valid == 1"
    assert (∀ n ∈ m.next, (s.dz n).prev = some dzmLast) "dzmLast->next->prev == dzmLast"
    assert (∀ n ∈ m.next, m.mem + m.size = (s.dz n).mem)
      "(dzmLast->mem + dzmLast->size) == dzmLast->next->mem"
    let size := size + m.size
    let s := s.freeDZ dzmLast
    if m.nextOwner = cdom then
      match m.next with
      | some n => freeDown cdom fuel n size s
      | none => return (none, size, s)
    else return (some dzmLast, size, s)

/-- `memory_joinAll`. -/
def memoryJoinAll (fuel cdom : Nat) (self : MemoryProxy) (room : Nat) (s : Sys) : Result :=
  checkValid self s do
    let dzmTop ← findTop cdom s fuel self.dz
    let mem := (s.dz dzmTop).mem
    let (dzmLast, size, s) ← freeDown cdom fuel dzmTop 0 s
    let (dzmNew, s) ← createDZMemory size mem s
    assert (mem ≠ 0) "dzmNew->mem"
    let top := s.dz dzmTop
    let s := s.setNext top.prev (some dzmNew)
    let s := s.set dzmNew fun m => { m with prev := top.prev, prevOwner := top.prevOwner }
    let s := s.set dzmTop fun m => { m with prev := none }
    let s := match dzmLast with
      | some dzmLast =>
        let last := s.dz dzmLast
        let s := s.set dzmNew fun m => { m with next := last.next, nextOwner := last.nextOwner }
        let s := s.setPrev last.next (some dzmNew)
        s.set dzmLast fun m => { m with next := none }
      | none => s.set dzmNew fun m => { m with next := none, nextOwner := cdom }
    return allocMemoryProxies room [dzmNew] s

/-! ### `memory_revoke` -/

/-- The local variables of a walk; `dzmCurNew` is `none` as long as nothing is assigned to it. -/
structure Walk where
  dzmCurOld : Option Nat
  dzmCurNew : Option Nat
  dzmLastNew : Nat

/-- The walk towards the beginning: a new node for each old one. -/
def revokePrev (cdom : Nat) : Nat → Nat → Option Nat → Nat → Sys → Except Fault (Walk × Sys)
  | 0, _, _, _, _ => .error .running
  | fuel + 1, dzmCurOld, dzmCurNew, dzmLastNew, s =>
    if (s.dz dzmCurOld).prevOwner = cdom then
      match (s.dz dzmCurOld).prev with
      | none => .ok (⟨none, dzmCurNew, dzmLastNew⟩, s)
      | some dzmCurOld => do
        let (new, s) ← createDZMemory (s.dz dzmCurOld).size (s.dz dzmCurOld).mem s
        let s := s.set new fun m => { m with next := some dzmLastNew, nextOwner := cdom }
        let s := s.set dzmLastNew fun m => { m with prev := some new, prevOwner := cdom }
        revokePrev cdom fuel dzmCurOld (some new) new (s.freeDZ dzmCurOld)
    else .ok (⟨some dzmCurOld, dzmCurNew, dzmLastNew⟩, s)

/-- The walk towards the end. -/
def revokeNext (cdom : Nat) : Nat → Nat → Option Nat → Nat → Sys → Except Fault (Walk × Sys)
  | 0, _, _, _, _ => .error .running
  | fuel + 1, dzmCurOld, dzmCurNew, dzmLastNew, s =>
    if (s.dz dzmCurOld).nextOwner = cdom then
      match (s.dz dzmCurOld).next with
      | none => .ok (⟨none, dzmCurNew, dzmLastNew⟩, s)
      | some dzmCurOld => do
        let (new, s) ← createDZMemory (s.dz dzmCurOld).size (s.dz dzmCurOld).mem s
        assert (new ≠ dzmLastNew) "dzmCurNew != dzmLastNew"
        let s := s.set new fun m => { m with prev := some dzmLastNew, prevOwner := cdom }
        let s := s.set dzmLastNew fun m => { m with next := some new, nextOwner := cdom }
        revokeNext cdom fuel dzmCurOld (some new) new (s.freeDZ dzmCurOld)
    else .ok (⟨some dzmCurOld, dzmCurNew, dzmLastNew⟩, s)

/-- The neighbour in front that the walk did not reach is tied to `dzmCurNew`. -/
def tiePrev (w : Walk) (s : Sys) : Except Fault Sys :=
  match w.dzmCurOld with
  | none => .ok s
  | some dzmCurOld =>
    match (s.dz dzmCurOld).prev with
    | none => .ok s
    | some p =>
      match w.dzmCurNew with
      | none => .error .undefined
      | some new =>
        let old := s.dz dzmCurOld
        .ok ((s.set p fun m => { m with next := some new }).set new fun m =>
          { m with prev := some p, prevOwner := old.prevOwner })

/-- The neighbour behind that the walk did not reach is tied to `dzmCurNew`. -/
def tieNext (w : Walk) (s : Sys) : Except Fault Sys :=
  match w.dzmCurOld with
  | none => .ok s
  | some dzmCurOld =>
    match (s.dz dzmCurOld).next with
    | none => .ok s
    | some n =>
      match w.dzmCurNew with
      | none => .error .undefined
      | some new =>
        let old := s.dz dzmCurOld
        .ok ((s.set n fun m => { m with prev := some new }).set new fun m =>
          { m with next := some n, nextOwner := old.nextOwner })

/-- `memory_revoke`; the second walk goes on with the `dzmCurNew` of the first. -/
def memoryRevoke (fuel cdom : Nat) (self : MemoryProxy) (room : Nat) (s : Sys) : Result :=
  checkValid self s do
    let (dzmNewThis, s) ← createDZMemory self.size self.mem s
    let (w, s) ← revokePrev cdom fuel self.dz none dzmNewThis s
    let s ← tiePrev w s
    let (w, s) ← revokeNext cdom fuel self.dz w.dzmCurNew dzmNewThis s
    let s ← tieNext w s
    return allocThenFree room [dzmNewThis] self s

/-- `OBJSIZE_MEMORY`: six words and two of the header. -/
def objsizeMemory : Nat := 8

/-- `copy_memory` into the heap of another domain; the copy shares the node. -/
def copyMemory (self : MemoryProxy) (quota room : Nat) (s : Sys) : Result :=
  if quota < objsizeMemory then .error (.halted (.panic ""))
  else
    match allocMemoryProxies room [self.dz] s with
    | (.returned, s) =>
      .ok (.returned, s.set self.dz fun m => { m with refcount := m.refcount + 1 })
    | r => .ok r

/-! ## The death of a memory object -/

/-- `dzmemory_free`. -/
def dzmemoryFree (n : Nat) (s : Sys) : Except Fault Sys := do
  assert ((s.dz n).refcount = 0) "dzm->refcount == 0"
  let s := s.set n fun m => { m with valid := 2 }
  return { s with dzMemoryFreeList := n :: s.dzMemoryFreeList }

/-- The first loop of `dzmemory_free_chunk`: is everything from here on without references? -/
def tailDead (s : Sys) : Nat → Option Nat → Except Fault Bool
  | 0, _ => .error .running
  | _ + 1, none => .ok true
  | fuel + 1, some n =>
    if (s.dz n).refcount ≠ 0 then .ok false else tailDead s fuel (s.dz n).next

/-- The second loop: the first node of the chunk, or `none` if a node with references is in
front. -/
def chunkTop (s : Sys) : Nat → Nat → Except Fault (Option Nat)
  | 0, _ => .error .running
  | fuel + 1, dzm =>
    match (s.dz dzm).prev with
    | none => .ok (some dzm)
    | some p => do
      assert ((s.dz p).next = some dzm) "dzm->prev->next == dzm"
      assert ((s.dz p).mem = 0 ∨ (s.dz dzm).mem = 0 ∨
          (s.dz p).mem + (s.dz p).size = (s.dz dzm).mem)
        "dzm->prev->mem == NULL || dzm->mem == NULL || (dzm->prev->mem + dzm->prev->size) == dzm->mem"
      if (s.dz p).refcount ≠ 0 then return none else chunkTop s fuel p

/-- The third loop: the other nodes are freed and their sizes added to the first one. -/
def freeTail (dzm : Nat) : Nat → Option Nat → Sys → Except Fault Sys
  | 0, _, _ => .error .running
  | _ + 1, none, s => .ok s
  | fuel + 1, some nextObj, s => do
    let next := s.dz nextObj
    assert (next.refcount = 0) "nextObj->refcount == 0"
    assert ((s.dz dzm).mem = 0 ∨ next.mem = 0 ∨ next.mem = (s.dz dzm).mem + (s.dz dzm).size)
      "dzm->mem == NULL || nextObj->mem == NULL || nextObj->mem == (dzm->mem + dzm->size)"
    let s := s.set dzm fun m => { m with size := m.size + next.size }
    let s := s.set nextObj fun m => { m with prev := none, mem := 0, size := 0, next := none }
    let s ← dzmemoryFree nextObj s
    freeTail dzm fuel next.next s

/-- The end of `dzmemory_free_chunk`: the block goes back and the node is free. -/
def freeTop (dzm : Nat) (s : Sys) : Except Fault Sys := do
  let top := s.dz dzm
  assert (top.prev = none) "dzm->prev == NULL"
  assert (top.next = none) "dzm->next == NULL"
  assert (top.refcount = 0) "dzm->refcount == 0"
  if top.mem ≠ 0 then
    assert (4 < top.size) "dzm->size > 4"
    let s := { s with freed := s.freed ++ [(top.mem, top.size)] }
    dzmemoryFree dzm (s.set dzm fun m => { m with mem := 0 })
  else dzmemoryFree dzm s

/-- `dzmemory_free_chunk`. -/
def dzmemoryFreeChunk (fuel dzm : Nat) (s : Sys) : Except Fault Sys := do
  if ← tailDead s fuel (some dzm) then
    assert ((s.dz dzm).refcount = 0) "dzm->refcount == 0"
    if (s.dz dzm).prev.isSome || (s.dz dzm).next.isSome then
      match ← chunkTop s fuel dzm with
      | none => return s
      | some top =>
        let s ← freeTail top fuel (s.dz top).next s
        freeTop top (s.set top fun m => { m with next := none })
    else freeTop dzm s
  else return s

/-- `memory_deleted`, which the collectors call for a memory object that they did not reach. -/
def memoryDeleted (fuel : Nat) (self : MemoryProxy) (s : Sys) : Except Fault Sys :=
  let s := { s with proxies := s.proxies.erase self }
  let s := s.set self.dz fun m =>
    { m with refcount := if m.refcount = 0 then 2 ^ 32 - 1 else m.refcount - 1 }
  if (s.dz self.dz).refcount = 0 then dzmemoryFreeChunk fuel self.dz s else return s

/-! ## Runs -/

/-- A call on a memory object, by the domain `cdom`. -/
inductive Call where
  | createMemoryInstance (block size bytes room : Nat)
  | getSubRange (cdom : Nat) (self : MemoryProxy) (offset len : Jint) (word0 word2 : Word) (room : Nat)
  | split2 (cdom : Nat) (self : MemoryProxy) (offset : Jint) (arr : Option Nat) (room : Nat)
  | split3 (cdom : Nat) (self : MemoryProxy) (offset len : Jint) (arr : Option Nat) (room : Nat)
  | joinPrevious (cdom : Nat) (self : MemoryProxy) (room : Nat)
  | joinNext (cdom : Nat) (self : MemoryProxy) (room : Nat)
  | joinAll (fuel cdom : Nat) (self : MemoryProxy) (room : Nat)
  | revoke (fuel cdom : Nat) (self : MemoryProxy) (room : Nat)

namespace Call

variable (dzMemory dzMemoryBorder : Nat)

def run : Call → Sys → Result
  | createMemoryInstance block size bytes room => Region.createMemoryInstance block size bytes room
  | getSubRange cdom self offset len word0 word2 room =>
    memoryGetSubRange dzMemory dzMemoryBorder cdom self offset len word0 word2 room
  | split2 cdom self offset arr room => memorySplit2 cdom self offset arr room
  | split3 cdom self offset len arr room => memorySplit3 cdom self offset len arr room
  | joinPrevious cdom self room => memoryJoinPrevious cdom self room
  | joinNext cdom self room => memoryJoinNext cdom self room
  | joinAll fuel cdom self room => memoryJoinAll fuel cdom self room
  | revoke fuel cdom self room => memoryRevoke fuel cdom self room

/-- A call is made on an object that exists, and `jxmalloc` answers with a block of the address
space. -/
def Possible (s : Sys) : Call → Prop
  | createMemoryInstance block size bytes _ => 0 < bytes ∧ block + size + bytes < 2 ^ 32
  | getSubRange _ self _ _ _ _ _ | split2 _ self _ _ _ | split3 _ self _ _ _ _
  | joinPrevious _ self _ | joinNext _ self _ | joinAll _ _ self _ | revoke _ _ self _ =>
    self ∈ s.proxies

instance (s : Sys) : (c : Call) → Decidable (c.Possible s)
  | createMemoryInstance _ _ _ _ => inferInstanceAs (Decidable (_ ∧ _))
  | getSubRange _ self _ _ _ _ _ | split2 _ self _ _ _ | split3 _ self _ _ _ _
  | joinPrevious _ self _ | joinNext _ self _ | joinAll _ _ self _ | revoke _ _ self _ =>
    inferInstanceAs (Decidable (self ∈ s.proxies))

/-- The call leads from `s` to `t`; where C leaves open what happens, to any `t`. -/
def Leads (c : Call) (s t : Sys) : Prop :=
  match c.run dzMemory dzMemoryBorder s with
  | .ok (_, s') => t = s'
  | .error .undefined => True
  | .error _ => False

end Call

/-- The indices below `n`, from the last one on. -/
def countdown : Nat → List Nat
  | 0 => []
  | n + 1 => n :: countdown n

/-- `dzmemory_init` with a table of `number` nodes: all of them are free but the last one, which is
`dzInvalid`. -/
def init (number : Nat) : Sys where
  dz n := { refcount := if n + 1 = number then 1 else 0, valid := if n + 1 = number then 0 else 2,
            mem := 0, size := 0, prev := none, next := none, prevOwner := 0, nextOwner := 0 }
  dzMemoryFreeList := countdown (number - 1)
  proxies := []
  allocated := []
  freed := []

end JxCore.Region
