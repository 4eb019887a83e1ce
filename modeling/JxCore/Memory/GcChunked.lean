import JxCore.Core.Malloc
import JxCore.Lib.LinkedQueue
import JxCore.Memory.GcNew

/-!
# The collector for heaps of chunks, `gc_chunked`

A heap of `gc_chunked` is a list of chunks that grows when an object does not fit into the last one.
Each chunk is a block of `jxmalloc` and starts with a `ChunkInfo`, and all but the last one know how
far they are filled:

```
  chunk       chunk + 1   chunk + 2   chunk + 3 ..
  current     last        next        objects
```

The chunk that is being filled has `NULL` for `current`, since the domain has that pointer itself.

A collection copies into a second list of chunks and gives the first one back. How an object is
copied is shared with `gc_new`, and so are the representation of objects and the addresses in words:
a pointer in memory is a byte address, four times the number of the word.
-/

namespace JxCore.GcChunked

open Exec
open GcNew (Kind Gc isForward forwardPtr objsizeObject objsizeArray32bit objsizePortal)

/-! ## State -/

/-- Some words that belong together: what `jxmalloc` has handed out, or an object. -/
structure Block where
  start : Nat
  words : Nat
  deriving DecidableEq, Repr

/-- The domain that pays for the heap, as far as the heap looks at it. -/
structure Account where
  consumed : Nat
  limit : Nat
  collectAtSizeWords : Nat
  /-- What `consumed` will be each time a thread is woken up that waits for it to go down. -/
  wakeups : List Nat

/-- `gc_chunked_mem_t` of a domain, and the memory of the machine around it. -/
structure Heap where
  mem : Nat → Nat
  /-- The blocks in use, of this heap and of everybody else. -/
  blocks : List Block
  /-- Where the blocks will be that `jxmalloc` finds next. -/
  supply : List Nat
  /-- `accountTo`. -/
  account : Option Account
  firstChunk : Nat
  current : Nat
  currentChunk : Nat
  endCurrentChunk : Nat
  firstChunk2 : Nat
  current2 : Nat
  currentChunk2 : Nat
  endCurrentChunk2 : Nat
  totalSizeWords : Int
  freeSizeWords : Int
  usedSizeWords : Int
  collectAtSizeWords : Nat
  chunkSizeWords : Nat
  initialHeapWords : Nat
  /-- `gc.gcThread != NULL`. -/
  gcThread : Bool
  /-- What has been allocated or copied since the last collection, and what the collection that is
  going on has copied. Nothing reads these two. -/
  objects : List Block
  objects2 : List Block
  /-- The calls of `service_decRefcount` so far, last one first: target domain and index. -/
  decRefcount : List (Nat × Nat)

/-- What the collector reads outside of the heap and does not write, see `GcNew.Env`. -/
structure Env where
  base : GcNew.Env
  otherMove : Kind → (ref : Nat) → Heap → Exec (Nat × Heap)
  otherScan : Kind → (obj : Nat) → Heap → Exec Heap
  otherFinalize : Kind → (obj flags : Nat) → Heap → Exec Heap

namespace Heap

def setWord (s : Heap) (a v : Nat) : Heap := { s with mem := Function.update s.mem a v }

/-- The copy routines of `gc_move.c` look at the memory only. -/
def view (s : Heap) : Gc where
  mem := s.mem
  heap := 0
  heapTop := 0
  heapBorder := 0
  heap2 := 0
  heapTop2 := 0
  heapBorder2 := 0
  decRefcount := []

end Heap

/-! ## Blocks -/

/-- `sizeof(ChunkInfo) >> 2`. -/
def chunkInfoWords : Nat := 3

def Block.Apart (a b : Block) : Prop :=
  a.start + a.words ≤ b.start ∨ b.start + b.words ≤ a.start

instance (a b : Block) : Decidable (a.Apart b) := inferInstanceAs (Decidable (_ ∨ _))

/-- The block can be handed out: it is not in the first page, and nobody else has any of it. -/
def Heap.Available (s : Heap) (b : Block) : Prop :=
  0x1000 ≤ 4 * b.start ∧ 4 * (b.start + b.words) ≤ 2 ^ 32 ∧ ∀ a ∈ s.blocks, b.Apart a

instance (s : Heap) (b : Block) : Decidable (s.Available b) :=
  inferInstanceAs (Decidable (_ ∧ _ ∧ _))

/-- What a call of `jxmalloc` for `size` bytes takes: whole blocks of its bitmap. -/
def wordsOf (size : Nat) : Nat := Malloc.Allocator.sizeBlkOf size * (Malloc.blockSize / 4)

/-- `jxmalloc`. Where it finds the block is left open; that nobody has the block is its own
invariant, and the reason for which nothing else is said about a `supply` that breaks it. -/
def jxmalloc (size : Nat) (s : Heap) : Exec (Nat × Heap) :=
  match s.supply with
  | [] => throw (.panic "Out of memory")
  | start :: supply =>
    if s.Available ⟨start, wordsOf size⟩ then
      pure (start, { s with blocks := ⟨start, wordsOf size⟩ :: s.blocks, supply := supply })
    else
      throw (.panic "Out of memory")

/-- `jxfree`. -/
def jxfree (start size : Nat) (s : Heap) : Exec Heap :=
  if ⟨start, wordsOf size⟩ ∈ s.blocks then
    pure { s with blocks := s.blocks.erase ⟨start, wordsOf size⟩ }
  else
    throw (.panic "freed block was not marked as used!")

/-- The `while` loop of `allocChunk`: each round waits until somebody gives memory back. -/
def Account.wait (acc : Account) (size : Nat) : Nat → List Nat → Exec Account
  | consumed, wakeups =>
    if u4 (consumed + size) > acc.limit then
      match wakeups with
      | [] => loop none
      | consumed :: wakeups => acc.wait size consumed wakeups
    else
      pure { acc with consumed := u4 (consumed + size), wakeups := wakeups }

/-- `allocChunk`. -/
def allocChunk (size : Nat) (s : Heap) : Exec (Nat × Heap) :=
  match s.account with
  | none => jxmalloc size s
  | some acc => acc.wait size acc.consumed acc.wakeups >>= fun acc =>
    jxmalloc size { s with account := some acc }

/-- `limit - (collectAtSizeWords << 2)`, with which the last words are left to the collector. -/
def Account.reduced (acc : Account) : Nat := u4 (acc.limit + 2 ^ 32 - u4 (4 * acc.collectAtSizeWords))

/-- `tryAllocChunk`. -/
def tryAllocChunk (size : Nat) (s : Heap) : Exec (Option Nat × Heap) :=
  match s.account with
  | none => (fun (chunk, s) => (some chunk, s)) <$> jxmalloc size s
  | some acc =>
    if u4 (acc.consumed + size) > acc.reduced then
      pure (none, s)
    else
      (fun (chunk, s) => (some chunk, s)) <$>
        jxmalloc size { s with account := some { acc with consumed := u4 (acc.consumed + size) } }

/-- `freeChunk`. Which threads it wakes up is left to `GcChunkedAccount`. -/
def freeChunk (start size : Nat) (s : Heap) : Exec Heap := do
  let s ← jxfree start size s
  pure { s with
    account := s.account.map fun acc => { acc with consumed := u4 (acc.consumed + 2 ^ 32 - u4 size) } }

/-! ## Chunks -/

/-- The header of a chunk that is going to be filled. -/
def Heap.setHeader (s : Heap) (chunk last : Nat) : Heap :=
  ((s.setWord chunk 0).setWord (chunk + 1) (4 * last)).setWord (chunk + 2) 0

/-- `chunkInfo->last`. -/
def Heap.last (s : Heap) (chunk : Nat) : Nat := s.mem (chunk + 1) / 4

/-- `chunkInfo->next`, where 0 is `NULL`. -/
def Heap.next (s : Heap) (chunk : Nat) : Nat := s.mem (chunk + 2) / 4

/-- `gc_chunked_init` on a domain that has `s` in its place so far. The sizes are in bytes. -/
def init (initialHeap chunkSize startGCatTotalSize : Nat) (account : Option Account) (s : Heap) :
    Exec Heap := do
  let s := { s with
    account := account
    collectAtSizeWords := startGCatTotalSize / 4
    chunkSizeWords := chunkSize / 4
    initialHeapWords := initialHeap / 4 }
  let (chunk, s) ← allocChunk (4 * s.initialHeapWords) s
  let s := { s with
    firstChunk := chunk
    current := chunk + chunkInfoWords
    currentChunk := chunk
    endCurrentChunk := chunk + s.initialHeapWords
    current2 := 0
    totalSizeWords := s.initialHeapWords
    freeSizeWords := s.initialHeapWords - chunkInfoWords
    usedSizeWords := s.initialHeapWords - (s.initialHeapWords - chunkInfoWords)
    objects := []
    objects2 := [] }
  pure (s.setHeader chunk (chunk + s.initialHeapWords))

/-- The `while` loop of `gc_chunked_isInHeap`, for the byte address `obj`. -/
def isInHeapFrom (s : Heap) (obj : Nat) : Nat → Nat → Exec Bool
  | 0, _ => loop none
  | fuel + 1, chunk =>
    if chunk = 0 then
      pure false
    else if 4 * chunk ≤ obj ∧ obj < (if s.mem chunk = 0 then 4 * s.current else s.mem chunk) then
      pure true
    else
      isInHeapFrom s obj fuel (s.next chunk)

/-- `gc_chunked_isInHeap`. -/
def isInHeap (fuel : Nat) (s : Heap) (obj : Nat) : Exec Bool := isInHeapFrom s obj fuel s.firstChunk

/-! ## Copies -/

/-- The part of `gc_chunked_allocHeap2` that makes a new chunk the last one of the second list. -/
def linkChunk2 (chunk : Nat) (s : Heap) : Heap :=
  let s := s.setWord (s.currentChunk2 + 2) (4 * chunk)
  let s := { s with
    currentChunk2 := chunk
    endCurrentChunk2 := chunk + s.chunkSizeWords
    current2 := chunk + chunkInfoWords
    totalSizeWords := s.totalSizeWords + s.chunkSizeWords
    freeSizeWords := s.freeSizeWords + (s.chunkSizeWords - chunkInfoWords) }
  s.setHeader chunk (chunk + s.chunkSizeWords)

/-- The part of `gc_chunked_allocHeap2` from `try_alloc` on. -/
def tryAllocHeap2 (objSize : Nat) : Nat → Heap → Exec (Nat × Heap)
  | 0, _ => loop none
  | fuel + 1, s =>
    let nextObj := s.current2 + objSize
    if nextObj ≥ s.endCurrentChunk2 then do
      let s := s.setWord s.currentChunk2 (4 * s.current2)
      let (chunk, s) ← allocChunk (4 * s.chunkSizeWords) s
      tryAllocHeap2 objSize fuel (linkChunk2 chunk s)
    else
      let data := s.current2
      let s := { s with current2 := nextObj }
      let s := s.setWord s.currentChunk2 (4 * s.current2)
      pure (data, { s with
        freeSizeWords := s.freeSizeWords - objSize
        usedSizeWords := s.usedSizeWords + objSize
        objects2 := s.objects2 ++ [⟨data, objSize⟩] })

/-- The first chunk of the second list. -/
def initHeap2 (s : Heap) : Exec Heap := do
  let (chunk, s) ← allocChunk (4 * s.initialHeapWords) s
  let s := { s with
    firstChunk2 := chunk
    current2 := chunk + chunkInfoWords
    currentChunk2 := chunk
    endCurrentChunk2 := chunk + s.initialHeapWords
    totalSizeWords := s.initialHeapWords
    freeSizeWords := s.initialHeapWords - chunkInfoWords
    usedSizeWords := s.initialHeapWords - (s.initialHeapWords - chunkInfoWords) }
  pure (s.setHeader chunk (chunk + s.initialHeapWords))

/-- `gc_chunked_allocHeap2`. -/
def allocHeap2 (fuel objSize : Nat) (s : Heap) : Exec (Nat × Heap) :=
  (if s.current2 = 0 then initHeap2 s else pure s) >>= tryAllocHeap2 objSize fuel

/-- `gc_common_move_object`. -/
def moveObject (env : Env) (fuel obj : Nat) (s : Heap) : Exec (Nat × Heap) := do
  GcNew.assertObject s.view obj
  let inHeap ← isInHeap fuel s (4 * obj)
  if ¬ inHeap then
    throw (.panic "OBJECT OUTSIDE HEAP")
  let cl ← GcNew.obj2ClassDesc env.base s.view obj
  let (dst, s) ← allocHeap2 fuel (objsizeObject cl.instanceSize) s
  let (forward, g) ← GcNew.shallowCopyObject env.base dst obj s.view
  pure (forward, { s with mem := g.mem })

/-- `gc_common_move_array`. -/
def moveArray (fuel obj : Nat) (s : Heap) : Exec (Nat × Heap) := do
  GcNew.assertObject s.view obj
  let (dst, s) ← allocHeap2 fuel (objsizeArray32bit (GcNew.arraySize s.view obj)) s
  let (forward, g) := GcNew.shallowCopyArray dst obj s.view
  pure (forward, { s with mem := g.mem })

/-- `gc_common_move_portal`. -/
def movePortal (fuel obj : Nat) (s : Heap) : Exec (Nat × Heap) := do
  GcNew.assertObject s.view obj
  let (dst, s) ← allocHeap2 fuel objsizePortal s
  let (forward, g) := GcNew.shallowCopyPortal dst obj s.view
  pure (forward, { s with mem := g.mem })

/-- The `switch` of `gc_common_move_reference`; `none` where it returns at once. -/
def moveKind (env : Env) (fuel : Nat) (kind : Option Kind) (ref : Nat) (s : Heap) :
    Exec (Option (Nat × Heap)) :=
  match kind with
  | some .foreignCpustate | some .object =>
    GcNew.obj2ClassDesc env.base s.view ref >>= fun _ => some <$> moveObject env fuel ref s
  | some .portal =>
    GcNew.obj2ClassDesc env.base s.view ref >>= fun _ => some <$> movePortal fuel ref s
  | some .array =>
    GcNew.obj2ClassDesc env.base s.view ref >>= fun _ => some <$> moveArray fuel ref s
  | some .memory =>
    GcNew.obj2ClassDesc env.base s.view ref >>= fun _ => some <$> env.otherMove .memory ref s
  | some .externalString | some .externalCpudesc | some .externalClass | some .externalMethod =>
    pure none
  | some .interceptInboundInfo =>
    throw (.panic "Object Type is OBJFLAGS_INTERCEPTINBOUNDINFO or OBJFLAGS_VMOBJECT")
  | some .vmobject => throw (.panic "Object Type is OBJFLAGS_VMOBJECT")
  | some kind => some <$> env.otherMove kind ref s
  | none => throw (.panic "UNKNOWN OBJECT TYPE")

/-- `gc_common_move_reference` on the word `slot`. -/
def moveReference (env : Env) (fuel : Nat) (s : Heap) (slot : Nat) : Exec Heap :=
  let ref := s.mem slot
  if ref = 0 then
    pure s
  else if ref ≤ 0xfff then
    pure s
  else
    let flags := s.view.getObjFlags (ref / 4)
    if isForward flags then
      pure (s.setWord slot (forwardPtr flags))
    else
      moveKind env fuel (Kind.ofFlags flags) (ref / 4) s >>= fun moved =>
        match moved with
        | none => pure s
        | some (forward, s) =>
          assert (isForward forward = false) "((u4_t) forward & FORWARD_MASK) == 0" >>= fun _ =>
            pure ((s.setWord (ref / 4 - 2) (forward ||| 0x00000001)).setWord slot forward)

/-- `gc_impl_walkContentArray` with `gc_common_move_reference`. -/
def walkContentArray (env : Env) (fuel obj : Nat) (s : Heap) : Exec Heap :=
  if GcNew.isReferenceArray env.base s.view obj then
    ((List.range (GcNew.arraySize s.view obj)).map (obj + 3 + ·)).foldlM (moveReference env fuel) s
  else
    pure s

/-! ## Walks -/

/-- The callbacks of `gc_walkContinuesBlock`; each gets the object and the flags. -/
structure Handlers where
  object : Nat → Nat → Heap → Exec Heap
  array : Nat → Nat → Heap → Exec Heap
  portal : Nat → Nat → Heap → Exec Heap
  other : Kind → Nat → Nat → Heap → Exec Heap

/-- The body of the loop in `gc_walkContinuesBlock`. -/
def visit (env : Env) (h : Handlers) (data : Nat) (s : Heap) : Exec (Nat × Heap) :=
  let obj := data + 2
  let flags := GcNew.walkFlags s.view obj
  match Kind.ofFlags flags with
  | some .array => do
    GcNew.assertObject s.view obj
    (objsizeArray32bit (GcNew.arraySize s.view obj), ·) <$> h.array obj flags s
  | some .externalString => throw (.assertion "domain == domainZero")
  | some .foreignCpustate | some .object => do
    let c ← GcNew.obj2ClassDesc env.base s.view obj
    (objsizeObject c.instanceSize, ·) <$> h.object obj flags s
  | some .portal => (objsizePortal, ·) <$> h.portal obj flags s
  | some .externalCpudesc | some .externalMethod | some .externalClass
  | some .interceptInboundInfo | some .vmobject | some .stack =>
    throw (.panic "WRONG HEAP DATA")
  | some kind => (env.base.otherSize kind, ·) <$> h.other kind obj flags s
  | none => throw (.panic "WRONG HEAP DATA")

/-- `gc_walkContinuesBlock` on the objects of a chunk, whose end is looked up again before each of
them. -/
def walkContinuesBlock (env : Env) (h : Handlers) (chunk : Nat) : Nat → Nat → Heap → Exec Heap
  | 0, _, _ => loop none
  | fuel + 1, data, s =>
    if 4 * data < s.mem chunk then
      visit env h data s >>= fun (objSize, s) =>
        walkContinuesBlock env h chunk fuel (data + objSize) s
    else
      pure s

/-- The `while` loop of `gc_chunked_walkHeap` and `gc_chunked_walkHeap2`. -/
def walkChunks (env : Env) (h : Handlers) : Nat → Nat → Heap → Exec Heap
  | 0, _, _ => loop none
  | fuel + 1, chunk, s =>
    if chunk = 0 then
      pure s
    else
      walkContinuesBlock env h chunk (fuel + 1) (chunk + chunkInfoWords) s >>= fun s =>
        walkChunks env h fuel (s.next chunk) s

/-- `gc_chunked_walkHeap`. -/
def walkHeap (env : Env) (h : Handlers) (fuel : Nat) (s : Heap) : Exec Heap :=
  walkChunks env h fuel s.firstChunk (s.setWord s.currentChunk (4 * s.current))

/-- `gc_chunked_walkHeap2`. -/
def walkHeap2 (env : Env) (h : Handlers) (fuel : Nat) (s : Heap) : Exec Heap :=
  walkChunks env h fuel s.firstChunk2 (s.setWord s.currentChunk2 (4 * s.current2))

/-- A callback that is `NULL`. -/
def skip (_ _ : Nat) (s : Heap) : Exec Heap := pure s

/-- `gc_common_move_scan_heap2_…`. The body of the one for objects is there with `STACK_ON_HEAP`
only. -/
def scanHeap2 (env : Env) (fuel : Nat) : Handlers where
  object := skip
  array obj _ := walkContentArray env fuel obj
  portal := skip
  other kind obj _ := env.otherScan kind obj

/-- `gc_chunked_finalizePortalsCB`. -/
def finalizePortalsCB (env : Env) (obj flags : Nat) (s : Heap) : Exec Heap :=
  let targetDomain := s.mem (obj + 1)
  if isForward flags then
    pure s
  else if targetDomain ≠ 0 ∧ env.base.domainId targetDomain = s.mem (obj + 2) ∧
      targetDomain ≠ env.base.domain then
    pure { s with decRefcount := (targetDomain, s.mem (obj + 3)) :: s.decRefcount }
  else
    pure s

/-- `gc_chunked_finalizeMemory`, which has a callback for memory objects only. -/
def finalizeMemory (env : Env) : Nat → Heap → Exec Heap :=
  walkHeap env ⟨skip, skip, skip, fun kind obj flags s =>
    if kind = .memory then env.otherFinalize kind obj flags s else pure s⟩

/-- `gc_chunked_finalizePortals`. -/
def finalizePortals (env : Env) : Nat → Heap → Exec Heap :=
  walkHeap env ⟨skip, skip, finalizePortalsCB env, fun _ => skip⟩

/-! ## A collection -/

/-- The loop that gives the chunks of the old heap back. -/
def freeChunks : Nat → Nat → Heap → Exec Heap
  | 0, _, _ => loop none
  | fuel + 1, chunk, s =>
    if chunk = 0 then
      pure s
    else
      let chunk2 := s.next chunk
      freeChunk chunk (4 * (s.last chunk - chunk)) s >>= freeChunks fuel chunk2

/-- The second list is the heap now. `endCurrentChunk` and `currentChunk2` stay as they are. -/
def swap (s : Heap) : Heap :=
  { s with
    firstChunk := s.firstChunk2
    current := s.current2
    currentChunk := s.currentChunk2
    firstChunk2 := 0
    current2 := 0
    objects := s.objects2
    objects2 := [] }

/-- `gc_chunked_gc`, where `walkRootSet` comes to the words `roots`. -/
def gcChunkedGc (env : Env) (roots : List Nat) (fuel : Nat) (s : Heap) : Exec Heap := do
  let s := s.setWord s.currentChunk (4 * s.current)
  let s ← roots.foldlM (moveReference env fuel) s
  let s ← walkHeap2 env (scanHeap2 env fuel) fuel s
  let s ← finalizeMemory env fuel s
  let s ← finalizePortals env fuel s
  let s ← freeChunks fuel s.firstChunk s
  pure (swap s)

/-! ## Allocation -/

/-- The part of `gc_chunked_allocDataInDomain` that makes a new chunk the last one. -/
def linkChunk (chunk : Nat) (s : Heap) : Heap :=
  let s := s.setWord (s.currentChunk + 2) (4 * chunk)
  let s := { s with
    currentChunk := chunk
    endCurrentChunk := chunk + s.chunkSizeWords
    current := chunk + chunkInfoWords
    totalSizeWords := s.totalSizeWords + s.chunkSizeWords
    freeSizeWords := s.freeSizeWords + (s.chunkSizeWords - chunkInfoWords) }
  s.setHeader chunk (chunk + s.chunkSizeWords)

/-- The part of `gc_chunked_allocDataInDomain` after a place has been found: the object is cleared
and gets its flags and its magic. -/
def initData (objSize flags : Nat) (s : Heap) : Nat × Heap :=
  let data := s.current
  (data + 2, { s with
    mem := fun w =>
      if w = data + 1 then GcNew.magicObject
      else if w = data then flags
      else if data ≤ w ∧ w < data + objSize then 0
      else s.mem w
    current := data + objSize
    freeSizeWords := s.freeSizeWords - objSize
    usedSizeWords := s.usedSizeWords + objSize
    objects := s.objects ++ [⟨data, objSize⟩] })

/-- `do_collect`: the thread of the collector runs `gc_chunked_gc`. -/
def doCollect (env : Env) (roots : List Nat) (fuel : Nat) (s : Heap) : Exec Heap :=
  if s.gcThread then gcChunkedGc env roots fuel s else throw (.panic "GC but no GC thread availabke")

/-- The part of `gc_chunked_allocDataInDomain` from `try_alloc` on. -/
def tryAlloc (env : Env) (roots : List Nat) (objSize flags : Nat) : Nat → Heap → Exec (Nat × Heap)
  | 0, _ => loop none
  | fuel + 1, s =>
    if objSize > u4 (s.chunkSizeWords + 2 ^ 32 - chunkInfoWords) then
      throw (.panic "not yet implemented")
    else if s.current + objSize ≥ s.endCurrentChunk then do
      let s := s.setWord s.currentChunk (4 * s.current)
      let (chunk, s) ← tryAllocChunk (4 * s.chunkSizeWords) s
      match chunk with
      | none => doCollect env roots fuel s >>= tryAlloc env roots objSize flags fuel
      | some chunk => tryAlloc env roots objSize flags fuel (linkChunk chunk s)
    else
      pure (initData objSize flags s)

/-- `gc_chunked_allocDataInDomain`: the object and the heap with it. If there has to be a collection,
`walkRootSet` will come to `roots`. -/
def allocDataInDomain (env : Env) (roots : List Nat) (objSize flags fuel : Nat) (s : Heap) :
    Exec (Nat × Heap) :=
  (if s.usedSizeWords ≥ s.collectAtSizeWords then doCollect env roots fuel s else pure s) >>=
    tryAlloc env roots objSize flags fuel

end JxCore.GcChunked
