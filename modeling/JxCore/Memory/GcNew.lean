import JxCore.Memory.TypeMap

/-!
# The copying collector `gc_new`

A heap of `gc_new` is two semispaces of one size, of which one is in use. A collection moves the
objects that the roots refer to, then walks the second semispace from its start and moves what the
objects there refer to, and the second semispace grows in front of the walk.

Memory is counted in words. A word that holds a pointer holds the byte address, four times the
number of the word it points to. An object in the heap looks like this, where `obj` is the word its
references point to:

```
  obj - 2     obj - 1     obj        obj + 1 ..
  flags       magic       vtable     fields of an object
                                     arrayClass, size, elements of an array
                                     targetDomain, targetDomainID, index of a portal
```

While the collector runs, the flags word of an object that has been moved holds the address of the
copy with the lowest bit set; the flags themselves are even.
-/

namespace JxCore.GcNew

open Exec

/-! ## Flags -/

/-- The kinds of the flags word: `OBJFLAGS_…`. -/
inductive Kind where
  | object
  | portal
  | memory
  | atomvar
  | service
  | cpustate
  | foreignCpustate
  | externalCpudesc
  | array
  | externalString
  | cas
  | externalMethod
  | externalClass
  | interceptInboundInfo
  | vmobject
  | domain
  | servicePool
  | stack
  deriving DecidableEq, Repr

namespace Kind

def flags : Kind → Nat
  | object => 0x02
  | portal => 0x04
  | memory => 0x06
  | atomvar => 0x0a
  | service => 0x0c
  | cpustate => 0x0e
  | foreignCpustate => 0x10
  | externalCpudesc => 0x14
  | array => 0x16
  | externalString => 0x18
  | cas => 0x1a
  | externalMethod => 0x1c
  | externalClass => 0x1e
  | interceptInboundInfo => 0x20
  | vmobject => 0x24
  | domain => 0x28
  | servicePool => 0x2a
  | stack => 0x2e

def all : List Kind :=
  [object, portal, memory, atomvar, service, cpustate, foreignCpustate, externalCpudesc, array,
    externalString, cas, externalMethod, externalClass, interceptInboundInfo, vmobject, domain,
    servicePool, stack]

/-- The case of `switch (flags & FLAGS_MASK)` that is taken, and `none` for `default`. -/
def ofFlags (flags : Nat) : Option Kind := all.find? fun k => k.flags == flags &&& 0xfe

end Kind

/-- `GC_FORWARD`. -/
def isForward (flags : Nat) : Bool := flags &&& 0x00000001 == 0x00000001

/-- `flags & FORWARD_PTR_MASK`. -/
def forwardPtr (flags : Nat) : Nat := flags &&& 0xfffffffe

/-- `MAGIC_OBJECT`. -/
def magicObject : Nat := 0xbebeceee

/-! ## State -/

/-- The part of a class descriptor that the collector reads. -/
structure ClassDesc where
  instanceSize : Nat
  map : List Nat

/-- A domain's heap, and the memory of the machine around it. -/
structure Gc where
  mem : Nat → Nat
  heap : Nat
  heapTop : Nat
  heapBorder : Nat
  heap2 : Nat
  heapTop2 : Nat
  heapBorder2 : Nat
  /-- The calls of `service_decRefcount` so far, last one first: target domain and index. -/
  decRefcount : List (Nat × Nat)

/-- What the collector reads outside of the heap and does not write. The kinds of objects whose
moves and finalizers reach into other parts of the kernel (memory objects, services, threads) are
left to the environment. -/
structure Env where
  /-- The class descriptor in front of a vtable, `vtable[-1]`. -/
  classDesc : Nat → ClassDesc
  /-- `name` of an array class. -/
  arrayName : Nat → List Char
  /-- `id` of a domain descriptor. -/
  domainId : Nat → Nat
  /-- The domain whose heap is collected. -/
  domain : Nat
  otherSize : Kind → Nat
  otherMove : Kind → (ref : Nat) → Gc → Exec (Nat × Gc)
  otherScan : Kind → (obj : Nat) → Gc → Exec Gc
  otherFinalize : Kind → (obj flags : Nat) → Gc → Exec Gc

namespace Gc

def setWord (g : Gc) (a v : Nat) : Gc := { g with mem := fun w => if w = a then v else g.mem w }

/-- `gc_memcpy4`, in words. -/
def memcpy4 (g : Gc) (dst src size : Nat) : Gc :=
  { g with mem := fun w => if dst ≤ w ∧ w < dst + size then g.mem (src + (w - dst)) else g.mem w }

def getObjFlags (g : Gc) (ref : Nat) : Nat := g.mem (ref - 2)

def setObjFlags (g : Gc) (ref flags : Nat) : Gc := g.setWord (ref - 2) flags

def getObjMagic (g : Gc) (ref : Nat) : Nat := g.mem (ref - 1)

def setObjMagic (g : Gc) (ref magic : Nat) : Gc := g.setWord (ref - 1) magic

end Gc

/-! ## Objects -/

/-- `OBJSIZE_OBJECT`: flags, magic, vtable and a word for a size that objects do not have. -/
def objsizeObject (size : Nat) : Nat := size + 4

/-- `OBJSIZE_ARRAY_32BIT`; the build has `ALL_ARRAYS_32BIT`. -/
def objsizeArray32bit (size : Nat) : Nat := size + 5

/-- `OBJSIZE_PORTAL`. -/
def objsizePortal : Nat := 6

/-- `ASSERTOBJECT`. -/
def assertObject (g : Gc) (obj : Nat) : Exec Unit :=
  assert (g.getObjMagic obj = magicObject) "NOT AN OBJECT"

/-- `obj2ClassDesc`. -/
def obj2ClassDesc (env : Env) (g : Gc) (obj : Nat) : Exec ClassDesc :=
  if g.getObjMagic obj = magicObject ∧ g.mem obj ≠ 0 then
    pure (env.classDesc (g.mem obj))
  else
    throw (.panic "")

/-- `obj->size` of an array. -/
def arraySize (g : Gc) (obj : Nat) : Nat := g.mem (obj + 2)

/-- `arrayClass->name[1] == 'L' || arrayClass->name[1] == '['`. -/
def isReferenceArray (env : Env) (g : Gc) (obj : Nat) : Bool :=
  let c := (env.arrayName (g.mem (obj + 1)))[1]?
  c == some 'L' || c == some '['

/-! ## Copies -/

/-- What every copy starts with: the flags of its kind, the magic and the vtable. -/
def startCopy (kind : Kind) (dstObj srcObj : Nat) (g : Gc) : Gc :=
  let g := (g.setObjFlags dstObj kind.flags).setObjMagic dstObj magicObject
  g.setWord dstObj (g.mem srcObj)

/-- `gc_impl_shallowCopyObject`. The `memcpy` starts at the fields but counts `OBJSIZE_OBJECT`
words, header included. -/
def shallowCopyObject (env : Env) (dst srcObj : Nat) (g : Gc) : Exec (Nat × Gc) := do
  let dstObj := dst + 2
  let g := startCopy .object dstObj srcObj g
  let cl ← obj2ClassDesc env g srcObj
  pure (4 * dstObj, g.memcpy4 (dstObj + 1) (srcObj + 1) (objsizeObject cl.instanceSize))

/-- `gc_impl_shallowCopyArray`. -/
def shallowCopyArray (dst srcObj : Nat) (g : Gc) : Nat × Gc :=
  let dstObj := dst + 2
  let g := startCopy .array dstObj srcObj g
  let g := g.setWord (dstObj + 1) (g.mem (srcObj + 1))
  let g := g.setWord (dstObj + 2) (arraySize g srcObj)
  (4 * dstObj, g.memcpy4 (dstObj + 3) (srcObj + 3) (arraySize g srcObj))

/-- `gc_impl_shallowCopyPortal`. -/
def shallowCopyPortal (dst srcObj : Nat) (g : Gc) : Nat × Gc :=
  let dstObj := dst + 2
  let g := startCopy .portal dstObj srcObj g
  let g := g.setWord (dstObj + 1) (g.mem (srcObj + 1))
  let g := g.setWord (dstObj + 2) (g.mem (srcObj + 2))
  let g := g.setWord (dstObj + 3) (g.mem (srcObj + 3))
  (4 * dstObj, g)

/-! ## Moves -/

/-- `gc_new_isInHeap`. -/
def isInHeap (g : Gc) (obj : Nat) : Prop := g.heap ≤ obj ∧ obj < g.heapTop

instance (g : Gc) (obj : Nat) : Decidable (isInHeap g obj) :=
  inferInstanceAs (Decidable (_ ∧ _))

/-- `gc_new_allocHeap2`, which looks at the top before it is raised. -/
def allocHeap2 (size : Nat) (g : Gc) : Exec (Nat × Gc) :=
  if g.heapTop2 > g.heapBorder2 then
    throw (.panic "target heap too small????")
  else
    pure (g.heapTop2, { g with heapTop2 := g.heapTop2 + size })

/-- `gc_common_move_object`. -/
def moveObject (env : Env) (obj : Nat) (g : Gc) : Exec (Nat × Gc) := do
  assertObject g obj
  if ¬ isInHeap g obj then
    throw (.panic "not in heap")
  let cl ← obj2ClassDesc env g obj
  let (dst, g) ← allocHeap2 (objsizeObject cl.instanceSize) g
  shallowCopyObject env dst obj g

/-- `gc_common_move_array`. -/
def moveArray (obj : Nat) (g : Gc) : Exec (Nat × Gc) := do
  assertObject g obj
  let (dst, g) ← allocHeap2 (objsizeArray32bit (arraySize g obj)) g
  pure (shallowCopyArray dst obj g)

/-- `gc_common_move_portal`. -/
def movePortal (obj : Nat) (g : Gc) : Exec (Nat × Gc) := do
  assertObject g obj
  let (dst, g) ← allocHeap2 objsizePortal g
  pure (shallowCopyPortal dst obj g)

/-- The `switch` of `gc_common_move_reference`; `none` where it returns at once. -/
def moveKind (env : Env) (kind : Option Kind) (ref : Nat) (g : Gc) : Exec (Option (Nat × Gc)) :=
  match kind with
  | some .foreignCpustate | some .object =>
    -- the caller has read the class for its trace before the object is moved
    obj2ClassDesc env g ref >>= fun _ => some <$> moveObject env ref g
  | some .portal => obj2ClassDesc env g ref >>= fun _ => some <$> movePortal ref g
  | some .array => obj2ClassDesc env g ref >>= fun _ => some <$> moveArray ref g
  | some .memory => obj2ClassDesc env g ref >>= fun _ => some <$> env.otherMove .memory ref g
  | some .externalString | some .externalCpudesc | some .externalClass | some .externalMethod =>
    pure none
  | some .interceptInboundInfo =>
    throw (.panic "Object Type is OBJFLAGS_INTERCEPTINBOUNDINFO or OBJFLAGS_VMOBJECT")
  | some .vmobject => throw (.panic "Object Type is OBJFLAGS_VMOBJECT")
  | some kind => some <$> env.otherMove kind ref g
  | none => throw (.panic "UNKNOWN OBJECT TYPE")

/-- `gc_common_move_reference` on the word `slot`; nobody looks at what it returns. -/
def moveReference (env : Env) (g : Gc) (slot : Nat) : Exec Gc :=
  let ref := g.mem slot
  if ref = 0 then
    pure g
  else if ref ≤ 0xfff then
    pure g
  else
    let flags := g.getObjFlags (ref / 4)
    if isForward flags then
      pure (g.setWord slot (forwardPtr flags))
    else
      moveKind env (Kind.ofFlags flags) (ref / 4) g >>= fun moved =>
        match moved with
        | none => pure g
        | some (forward, g) =>
          assert (isForward forward = false) "((u4_t) forward & FORWARD_MASK) == 0" >>= fun _ =>
            pure ((g.setObjFlags (ref / 4) (forward ||| 0x00000001)).setWord slot forward)

/-! ## References inside an object -/

/-- The indices for which `FORBITMAP` runs its first branch. -/
def setIndices (map : List Nat) (mapsize : Nat) : List Nat :=
  (TypeMap.forBitmap map mapsize).zipIdx.filterMap fun (b, index) => if b then some index else none

/-- `gc_impl_walkContentObject` with `gc_common_move_reference`. -/
def walkContentObject (env : Env) (obj : Nat) (g : Gc) : Exec Gc := do
  assert (g.mem obj ≠ 0) "obj->vtable != NULL"
  let cl := env.classDesc (g.mem obj)
  ((setIndices cl.map cl.instanceSize).map (obj + 1 + ·)).foldlM (moveReference env) g

/-- `gc_impl_walkContentArray` with `gc_common_move_reference`. The loop does not write the size of
the array it runs over. -/
def walkContentArray (env : Env) (obj : Nat) (g : Gc) : Exec Gc :=
  if isReferenceArray env g obj then
    ((List.range (arraySize g obj)).map (obj + 3 + ·)).foldlM (moveReference env) g
  else
    pure g

/-! ## Walks -/

/-- The callbacks of `gc_walkContinuesBlock`; each gets the object and the flags. -/
structure Handlers where
  object : Nat → Nat → Gc → Exec Gc
  array : Nat → Nat → Gc → Exec Gc
  portal : Nat → Nat → Gc → Exec Gc
  other : Kind → Nat → Nat → Gc → Exec Gc

/-- The flags of an object, which for a moved one are those of its copy. -/
def walkFlags (g : Gc) (obj : Nat) : Nat :=
  let flags := g.getObjFlags obj
  if isForward flags then
    g.getObjFlags (forwardPtr flags / 4) ||| 0x00000001
  else
    flags

/-- The body of the loop in `gc_walkContinuesBlock`: the size of the object at `data`, and the
state after its callback. -/
def visit (env : Env) (h : Handlers) (data : Nat) (g : Gc) : Exec (Nat × Gc) :=
  let obj := data + 2
  let flags := walkFlags g obj
  match Kind.ofFlags flags with
  | some .array => do
    assertObject g obj
    (objsizeArray32bit (arraySize g obj), ·) <$> h.array obj flags g
  | some .externalString =>
    -- only domain zero has these on its heap, and its heap is not of this kind
    throw (.assertion "domain == domainZero")
  | some .foreignCpustate | some .object => do
    let c ← obj2ClassDesc env g obj
    (objsizeObject c.instanceSize, ·) <$> h.object obj flags g
  | some .portal => (objsizePortal, ·) <$> h.portal obj flags g
  | some .externalCpudesc | some .externalMethod | some .externalClass
  | some .interceptInboundInfo | some .vmobject | some .stack =>
    throw (.panic "WRONG HEAP DATA")
  | some kind => (env.otherSize kind, ·) <$> h.other kind obj flags g
  | none => throw (.panic "WRONG HEAP DATA")

/-- `gc_walkContinuesBlock`. The upper end is looked up again before each object. -/
def walkContinuesBlock (env : Env) (h : Handlers) (top : Gc → Nat) : Nat → Nat → Gc → Exec Gc
  | 0, _, _ => loop none
  | fuel + 1, data, g =>
    if data < top g then
      visit env h data g >>= fun (objSize, g) =>
        walkContinuesBlock env h top fuel (data + objSize) g
    else
      pure g

/-- `gc_new_walkHeap`. -/
def walkHeap (env : Env) (h : Handlers) (fuel : Nat) (g : Gc) : Exec Gc :=
  walkContinuesBlock env h Gc.heapTop fuel g.heap g

/-- `gc_new_walkHeap2`. -/
def walkHeap2 (env : Env) (h : Handlers) (fuel : Nat) (g : Gc) : Exec Gc :=
  walkContinuesBlock env h Gc.heapTop2 fuel g.heap2 g

/-- A callback that is `NULL`. -/
def skip (_ _ : Nat) (g : Gc) : Exec Gc := pure g

/-- `gc_new_scan_heap2_…`. -/
def scanHeap2 (env : Env) : Handlers where
  object obj _ := walkContentObject env obj
  array obj _ := walkContentArray env obj
  portal := skip
  other kind obj _ := env.otherScan kind obj

/-- `gc_new_finalizePortalsCB`. -/
def finalizePortalsCB (env : Env) (obj flags : Nat) (g : Gc) : Exec Gc :=
  let targetDomain := g.mem (obj + 1)
  if isForward flags then
    pure g
  else if targetDomain ≠ 0 ∧ env.domainId targetDomain = g.mem (obj + 2) ∧
      targetDomain ≠ env.domain then
    pure { g with decRefcount := (targetDomain, g.mem (obj + 3)) :: g.decRefcount }
  else
    pure g

/-- `gc_new_finalizeMemory`, which has a callback for memory objects only. -/
def finalizeMemory (env : Env) : Nat → Gc → Exec Gc :=
  walkHeap env ⟨skip, skip, skip, fun kind obj flags g =>
    if kind = .memory then env.otherFinalize kind obj flags g else pure g⟩

/-- `gc_new_finalizePortals`. -/
def finalizePortals (env : Env) : Nat → Gc → Exec Gc :=
  walkHeap env ⟨skip, skip, finalizePortalsCB env, fun _ => skip⟩

/-! ## A collection -/

/-- The second semispace is the heap now, and the old one is empty. -/
def swap (g : Gc) : Gc :=
  { g with
    heap := g.heap2
    heap2 := g.heap
    heapBorder := g.heapBorder2
    heapBorder2 := g.heapBorder
    heapTop := g.heapTop2
    heapTop2 := g.heap }

/-- `gc_new_gc`, where `walkRootSet` comes to the words `roots`. -/
def gcNewGc (env : Env) (roots : List Nat) (fuel : Nat) (g : Gc) : Exec Gc := do
  let g ← roots.foldlM (moveReference env) g
  let g ← walkHeap2 env (scanHeap2 env) fuel g
  let g ← finalizeMemory env fuel g
  let g ← finalizePortals env fuel g
  pure (swap g)

end JxCore.GcNew
