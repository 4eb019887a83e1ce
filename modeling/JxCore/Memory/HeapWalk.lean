import JxCore.Lib.Tiling
import JxCore.Memory.GcNew

/-!
# Walking a heap that has been allocated

`gc_alloc.c` has one routine for each kind of object, and each of them works out the size of what it
asks `gc_new_allocDataInDomain` for. The size is not kept. Whoever walks the heap works it out
again, from the flags and from what the routine has written behind them: `gc_walkContinuesBlock` in
one `switch` and `gc_objSize2` in another.

`Parseable` says that the walk meets what was allocated, and `parseable_of_walkable` that it does as
long as nobody asks for one of the kinds that the two tables do not have.
-/

namespace JxCore.HeapWalk

open Exec GcNew

/-! ## Sizes

In words, as in the source: `XMOFF` is one, and `sizeof` counts bytes. -/

/-- `OBJSIZE_MEMORY`, where a `MemoryProxy` has six words. -/
def objsizeMemory : Nat := 1 + 1 + 24 >>> 2

/-- `OBJSIZE_SERVICEDESC`, where a `DEPDesc` has sixteen words. It has no summand for the magic. -/
def objsizeServicedesc : Nat := (64 + 4) >>> 2 + 1

/-- `OBJSIZE_ATOMVAR`. -/
def objsizeAtomvar : Nat := 1 + 1 + 1 + 3

/-- `OBJSIZE_CAS`. -/
def objsizeCas : Nat := 1 + 1 + 1 + 1

/-- `OBJSIZE_VMOBJECT`. -/
def objsizeVmobject : Nat := 1 + 1 + 1 + 6

/-- `OBJSIZE_CREDENTIAL`. -/
def objsizeCredential : Nat := 1 + 1 + 1 + 2

/-- `OBJSIZE_DOMAIN`. -/
def objsizeDomain : Nat := 1 + 1 + 1 + 2

/-- `OBJSIZE_THREADDESCPROXY`. -/
def objsizeThreaddescproxy (sizeof : Nat) : Nat := 1 + (sizeof + 4) >>> 2 + 1 + 1

/-- `OBJSIZE_FOREIGN_THREADDESC`, where a `ThreadDescForeignProxy` has five words. -/
def objsizeForeignThreaddesc : Nat := 1 + (20 + 4) >>> 2 + 1 + 1

/-- `OBJSIZE_SERVICEPOOL`. -/
def objsizeServicepool (sizeof : Nat) : Nat := (sizeof + 4) >>> 2 + 1

/-- What the sizes depend on besides the object: the class in front of a vtable, and the two records
whose length depends on the build. -/
structure Build where
  env : Env
  sizeofThreadDescProxy : Nat
  sizeofServiceThreadPool : Nat

/-- A class that has been linked. Its descriptor is found at `vtable[-1]`, so the vtable stands for
the class. -/
structure Class where
  vtable : Nat
  vtable_ne : vtable ≠ 0

/-- `c->instanceSize`. -/
def Class.instanceSize (b : Build) (c : Class) : Nat := (b.env.classDesc c.vtable).instanceSize

/-! ## Allocation -/

/-- `HEAP_RESERVE`. -/
def heapReserve : Nat := 10 * 1024

/-- A heap together with what has been allocated there so far: object and size in words. -/
structure Heap where
  gc : Gc
  allocated : List (Nat × Nat)

/-- `gc_new_allocDataInDomain`, and `none` where it starts a collection or cannot go on. Pointers to
words have thirty bits here, and the sum wraps before anybody looks at it. -/
def allocDataInDomain (isInterruptHandlerThread : Bool) (objSize flags : Nat) (h : Heap) :
    Option (Nat × Heap) :=
  let nextObj := (h.gc.heapTop + objSize) % 2 ^ 30
  if nextObj + heapReserve > h.gc.heapBorder ∧
      (isInterruptHandlerThread = false ∨ nextObj > h.gc.heapBorder) then
    none
  else
    let data := h.gc.heapTop
    let mem := fun w => if data ≤ w ∧ w < data + objSize % 2 ^ 30 then 0 else h.gc.mem w
    let gc := { h.gc with heapTop := nextObj, mem := mem }
    let gc := (gc.setObjFlags (data + 2) flags).setObjMagic (data + 2) magicObject
    some (data + 2, { gc := gc, allocated := h.allocated ++ [(data + 2, objSize)] })

/-- The words of an object from its vtable on. -/
def setFields (h : Heap) (obj : Nat) (fields : List Nat) : Heap :=
  { h with gc := { h.gc with mem := fun w =>
      if obj ≤ w ∧ w < obj + fields.length then fields.getD (w - obj) 0 else h.gc.mem w } }

/-- What the allocation routines have in common: the memory is zero, and the first fields are set. -/
def allocFields (irq : Bool) (objSize flags : Nat) (fields : List Nat) (h : Heap) :
    Option (Nat × Heap) :=
  (allocDataInDomain irq objSize flags h).map fun (obj, h) => (obj, setFields h obj fields)

/-- `c->vtable`, and `NULL` without a class. -/
def vtableOf (c : Option Class) : Nat := (c.map Class.vtable).getD 0

/-- `allocProxyInDomain`. The count of the service is not in this heap's layout. -/
def allocProxyInDomain (irq : Bool) (c : Option Class) (targetDomain targetDomainID depIndex : Nat) :
    Heap → Option (Nat × Heap) :=
  allocFields irq objsizePortal Kind.portal.flags
    [vtableOf c, targetDomain, targetDomainID, depIndex]

/-- `allocAtomicVariableProxyInDomain`. -/
def allocAtomicVariableProxyInDomain (irq : Bool) (c : Class) : Heap → Option (Nat × Heap) :=
  allocFields irq objsizeAtomvar Kind.atomvar.flags [c.vtable, 0, 0, 0]

/-- `allocCASProxyInDomain`. -/
def allocCASProxyInDomain (irq : Bool) (c : Class) (index : Nat) : Heap → Option (Nat × Heap) :=
  allocFields irq objsizeCas Kind.cas.flags [c.vtable, index]

/-- `allocVMObjectProxyInDomain`. -/
def allocVMObjectProxyInDomain (irq : Bool) (vmobjectClass : Class) : Heap → Option (Nat × Heap) :=
  allocFields irq objsizeVmobject Kind.vmobject.flags [vmobjectClass.vtable, 0, 0, 0, 0, 0, 0]

/-- `OBJFLAGS_CREDENTIAL`, which no `switch` of the collector has a case for. -/
def credentialFlags : Nat := 0x26

/-- `allocCredentialProxyInDomain`. -/
def allocCredentialProxyInDomain (irq : Bool) (c : Class) (signerDomainID : Nat) :
    Heap → Option (Nat × Heap) :=
  allocFields irq objsizeCredential credentialFlags [c.vtable, 0, signerDomainID]

/-- `allocDomainProxyInDomain`. -/
def allocDomainProxyInDomain (irq : Bool) (domainClass : Class) (domainValue domainID : Nat) :
    Heap → Option (Nat × Heap) :=
  allocFields irq objsizeDomain Kind.domain.flags [domainClass.vtable, domainValue, domainID]

/-- `allocThreadDescProxyInDomain`. -/
def allocThreadDescProxyInDomain (b : Build) (irq : Bool) (c : Option Class) :
    Heap → Option (Nat × Heap) :=
  allocFields irq (objsizeThreaddescproxy b.sizeofThreadDescProxy) Kind.cpustate.flags [vtableOf c]

/-- A thread of another domain as `allocThreadDescForeignProxyInDomain` reads it. -/
structure ThreadOf where
  cls : Class
  desc : Nat
  id : Nat
  domain : Nat
  domainID : Nat
  epoch : Nat

/-- `allocThreadDescForeignProxyInDomain`, which needs a proxy for the thread's domain as well. -/
def allocThreadDescForeignProxyInDomain (irq : Bool) (domainClass : Class) (src : ThreadOf)
    (h : Heap) : Option (Nat × Heap) := do
  let (obj, h) ← allocFields irq objsizeForeignThreaddesc Kind.foreignCpustate.flags
    [src.cls.vtable, 0, src.id, src.desc, src.epoch] h
  let (domain, h) ← allocDomainProxyInDomain irq domainClass src.domain src.domainID h
  pure (obj, setFields h (obj + 1) [4 * domain])

/-- `nonatomic_allocObjectInDomain`. -/
def allocObjectInDomain (b : Build) (irq : Bool) (c : Class) : Heap → Option (Nat × Heap) :=
  allocFields irq (objsizeObject (c.instanceSize b)) Kind.object.flags [c.vtable]

/-- `MAGIC_DEP`. -/
def magicDep : Nat := 0xbabeface

/-- `allocServiceDescInDomain`. -/
def allocServiceDescInDomain (irq : Bool) : Heap → Option (Nat × Heap) :=
  allocFields irq objsizeServicedesc Kind.service.flags [magicDep]

/-- `allocByteArray`, which is `allocArrayInDomain`. Its callers have looked at the sign of `size`. -/
def allocByteArray (irq : Bool) (arrayClass : Nat) (c : Class) (size : Nat) :
    Heap → Option (Nat × Heap) :=
  allocFields irq (objsizeArray32bit size) Kind.array.flags [c.vtable, arrayClass, size]

/-- `internalallocMemoryProxyInDomain`. -/
def allocMemoryProxyInDomain (irq : Bool) (c : Class) (size mem dz : Nat) :
    Heap → Option (Nat × Heap) :=
  allocFields irq objsizeMemory Kind.memory.flags [c.vtable, size, mem, dz]

/-! ## The two tables -/

/-- `gc_objSize2`. -/
def objSize2 (b : Build) (g : Gc) (obj flags : Nat) : Exec Nat := do
  assertObject g obj
  match Kind.ofFlags flags with
  | some .array => pure (objsizeArray32bit (arraySize g obj))
  | some .externalString | some .object =>
    obj2ClassDesc b.env g obj >>= fun c => pure (objsizeObject c.instanceSize)
  | some .portal => pure objsizePortal
  | some .memory => pure objsizeMemory
  | some .service => pure objsizeServicedesc
  | some .servicePool => pure (objsizeServicepool b.sizeofServiceThreadPool)
  | some .atomvar => pure objsizeAtomvar
  | some .cas => pure objsizeCas
  | some .domain => pure objsizeDomain
  | some .cpustate => pure (objsizeThreaddescproxy b.sizeofThreadDescProxy)
  | _ => throw (.panic "WRONG HEAP DATA")

/-- The `switch` of `gc_walkContinuesBlock`. -/
def walkSize (b : Build) (g : Gc) (obj : Nat) : Exec Nat :=
  let flags := walkFlags g obj
  match Kind.ofFlags flags with
  | some .array => objSize2 b g obj flags
  | some .externalString => throw (.assertion "domain == domainZero")
  | some .foreignCpustate | some .object =>
    obj2ClassDesc b.env g obj >>= fun c => pure (objsizeObject c.instanceSize)
  | some .portal => pure objsizePortal
  | some .memory => pure objsizeMemory
  | some .service => pure objsizeServicedesc
  | some .servicePool => pure (objsizeServicepool b.sizeofServiceThreadPool)
  | some .atomvar => pure objsizeAtomvar
  | some .cas => pure objsizeCas
  | some .domain => pure objsizeDomain
  | some .cpustate => pure (objsizeThreaddescproxy b.sizeofThreadDescProxy)
  | _ => throw (.panic "WRONG HEAP DATA")

/-- `gc_walkContinuesBlock`: the objects and sizes that the callbacks get, and where it ends. -/
def walkContinuesBlock (b : Build) : Nat → Nat → Gc → Exec (List (Nat × Nat) × Nat)
  | 0, _, _ => loop none
  | fuel + 1, data, g =>
    if data < g.heapTop then
      walkSize b g (data + 2) >>= fun objSize =>
        walkContinuesBlock b fuel ((data + objSize) % 2 ^ 30) g >>= fun (visited, last) =>
          pure ((data + 2, objSize) :: visited, last)
    else
      pure ([], data)

/-! ## What a request does -/

/-- One call of an allocation routine. -/
inductive Request where
  | proxy (c : Option Class) (targetDomain targetDomainID depIndex : Nat)
  | atomicVariable (c : Class)
  | cas (c : Class) (index : Nat)
  | vmObject (vmobjectClass : Class)
  | credential (c : Class) (signerDomainID : Nat)
  | domain (domainClass : Class) (domainValue domainID : Nat)
  | threadDesc (c : Option Class)
  | threadDescForeign (domainClass : Class) (src : ThreadOf)
  | object (c : Class)
  | serviceDesc
  | array (arrayClass : Nat) (c : Class) (size : Nat)
  | memory (c : Class) (size mem dz : Nat)

namespace Request

def alloc (b : Build) (irq : Bool) : Request → Heap → Option (Nat × Heap)
  | proxy c targetDomain targetDomainID depIndex =>
    allocProxyInDomain irq c targetDomain targetDomainID depIndex
  | atomicVariable c => allocAtomicVariableProxyInDomain irq c
  | cas c index => allocCASProxyInDomain irq c index
  | vmObject vmobjectClass => allocVMObjectProxyInDomain irq vmobjectClass
  | credential c signerDomainID => allocCredentialProxyInDomain irq c signerDomainID
  | domain domainClass domainValue domainID =>
    allocDomainProxyInDomain irq domainClass domainValue domainID
  | threadDesc c => allocThreadDescProxyInDomain b irq c
  | threadDescForeign domainClass src => allocThreadDescForeignProxyInDomain irq domainClass src
  | object c => allocObjectInDomain b irq c
  | serviceDesc => allocServiceDescInDomain irq
  | array arrayClass c size => allocByteArray irq arrayClass c size
  | memory c size mem dz => allocMemoryProxyInDomain irq c size mem dz

/-- Both tables have the kind, with the formula of the allocation routine. -/
def Walkable : Request → Prop
  | vmObject _ | credential _ _ | threadDescForeign _ _ => False
  | _ => True

/-- `objSize` of the routine. -/
def objSize (b : Build) : Request → Nat
  | proxy _ _ _ _ => objsizePortal
  | atomicVariable _ => objsizeAtomvar
  | cas _ _ => objsizeCas
  | vmObject _ => objsizeVmobject
  | credential _ _ => objsizeCredential
  | domain _ _ _ => objsizeDomain
  | threadDesc _ => objsizeThreaddescproxy b.sizeofThreadDescProxy
  | threadDescForeign _ _ => objsizeForeignThreaddesc
  | object c => objsizeObject (c.instanceSize b)
  | serviceDesc => objsizeServicedesc
  | array _ _ size => objsizeArray32bit size
  | memory _ _ _ _ => objsizeMemory

/-- The end of the object is still an address. -/
def Fits (b : Build) (r : Request) (h : Heap) : Prop := h.gc.heapTop + r.objSize b < 2 ^ 30

end Request

/-- The walk from the bottom of the heap meets what was allocated, in order and with its size, and
ends at the top; and the other table agrees on the sizes. -/
structure Parseable (b : Build) (h : Heap) : Prop where
  walk : Returns (fun fuel => walkContinuesBlock b fuel h.gc.heap h.gc) (h.allocated, h.gc.heapTop)
  objSize2 : ∀ o ∈ h.allocated, objSize2 b h.gc o.1 (h.gc.getObjFlags o.1) = pure o.2

/-- A heap where nothing has been allocated yet. -/
structure Heap.Empty (h : Heap) : Prop where
  heapTop : h.gc.heapTop = h.gc.heap
  allocated : h.allocated = []

/-- An allocation that comes back with an object. -/
def Step (b : Build) (h h' : Heap) : Prop :=
  ∃ (irq : Bool) (r : Request) (obj : Nat), r.alloc b irq h = some (obj, h')

/-- An allocation of a kind that can be walked, whose end does not wrap. -/
def WalkableStep (b : Build) (h h' : Heap) : Prop :=
  ∃ (irq : Bool) (r : Request) (obj : Nat), r.Walkable ∧ r.Fits b h ∧
    r.alloc b irq h = some (obj, h')

/-! ## Objects of a known size -/

section Sized

variable {b : Build} {g g' : Gc} {h h' : Heap} {o : Nat × Nat} {kind : Kind} {irq : Bool}
  {objSize flags obj : Nat} {fields : List Nat}

/-- The size that both tables give to an object of this kind. Plain objects need their vtable for
it and arrays their length. -/
def sizeOf (b : Build) (g : Gc) (obj : Nat) : Kind → Option Nat
  | .object =>
    if g.mem obj = 0 then none else some (objsizeObject (b.env.classDesc (g.mem obj)).instanceSize)
  | .array => some (objsizeArray32bit (arraySize g obj))
  | .portal => some objsizePortal
  | .memory => some objsizeMemory
  | .service => some objsizeServicedesc
  | .servicePool => some (objsizeServicepool b.sizeofServiceThreadPool)
  | .atomvar => some objsizeAtomvar
  | .cas => some objsizeCas
  | .domain => some objsizeDomain
  | .cpustate => some (objsizeThreaddescproxy b.sizeofThreadDescProxy)
  | _ => none

/-- The object and size `o` as the walk finds them in memory. -/
structure Sized (b : Build) (g : Gc) (o : Nat × Nat) (kind : Kind) : Prop where
  two_le : 2 ≤ o.1
  flags : g.getObjFlags o.1 = kind.flags
  magic : g.getObjMagic o.1 = magicObject
  size : sizeOf b g o.1 kind = some o.2

theorem ofFlags_flags (kind : Kind) : Kind.ofFlags kind.flags = some kind := by
  cases kind <;> rfl

theorem isForward_flags (kind : Kind) : isForward kind.flags = false := by
  cases kind <;> rfl

theorem Sized.assertObject (hs : Sized b g o kind) : assertObject g o.1 = pure () :=
  assert_pos hs.magic _

theorem Sized.walkFlags (hs : Sized b g o kind) : walkFlags g o.1 = kind.flags := by
  simp [GcNew.walkFlags, hs.flags, isForward_flags]

theorem Sized.object (hs : Sized b g o .object) :
    g.mem o.1 ≠ 0 ∧ objsizeObject (b.env.classDesc (g.mem o.1)).instanceSize = o.2 := by
  have hsize := hs.size
  simp only [sizeOf] at hsize
  split at hsize
  · cases hsize
  · next hvtable => exact ⟨hvtable, Option.some.inj hsize⟩

theorem Sized.obj2ClassDesc (hs : Sized b g o .object) :
    obj2ClassDesc b.env g o.1 = pure (b.env.classDesc (g.mem o.1)) :=
  if_pos ⟨hs.magic, hs.object.1⟩

theorem Sized.objSize2 (hs : Sized b g o kind) :
    HeapWalk.objSize2 b g o.1 kind.flags = pure o.2 := by
  unfold HeapWalk.objSize2
  rw [hs.assertObject, ofFlags_flags, pure_bind]
  have hsize := hs.size
  cases kind with
  | object =>
    simp only [hs.obj2ClassDesc, pure_bind, hs.object.2]
  | array | portal | memory | service | servicePool | atomvar | cas | domain | cpustate =>
    exact congrArg pure (Option.some.inj hsize)
  | _ => cases hsize

theorem Sized.walkSize (hs : Sized b g o kind) : HeapWalk.walkSize b g o.1 = pure o.2 := by
  unfold HeapWalk.walkSize
  simp only [hs.walkFlags, ofFlags_flags]
  have hsize := hs.size
  cases kind with
  | object =>
    simp only [hs.obj2ClassDesc, pure_bind, hs.object.2]
  | array => exact hs.objSize2
  | portal | memory | service | servicePool | atomvar | cas | domain | cpustate =>
    exact congrArg pure (Option.some.inj hsize)
  | _ => cases hsize

theorem Sized.two_le_size (hs : Sized b g o kind) : 2 ≤ o.2 := by
  have hsize := hs.size
  cases kind with
  | object =>
    rw [← hs.object.2, objsizeObject]
    omega
  | array | servicePool | cpustate =>
    rw [← Option.some.inj hsize]
    simp only [objsizeArray32bit, objsizeServicepool, objsizeThreaddescproxy, Nat.shiftRight_eq_div_pow]
    omega
  | portal | memory | service | atomvar | cas | domain =>
    rw [← Option.some.inj hsize]
    decide
  | _ => cases hsize

/-- The size is a matter of the object's own words. -/
theorem Sized.congr (hs : Sized b g o kind)
    (hmem : ∀ w, o.1 - 2 ≤ w → w < o.1 - 2 + o.2 → g'.mem w = g.mem w) : Sized b g' o kind := by
  have htwo := hs.two_le
  have hsize := hs.two_le_size
  refine ⟨htwo, ?_, ?_, ?_⟩
  · exact (hmem _ (by omega) (by omega)).trans hs.flags
  · exact (hmem _ (by omega) (by omega)).trans hs.magic
  · have hold := hs.size
    cases kind with
    | object =>
      have hlen := hs.object.2
      simp only [objsizeObject] at hlen
      simpa only [sizeOf, hmem o.1 (by omega) (by omega)] using hold
    | array =>
      have hlen := Option.some.inj hold
      simp only [objsizeArray32bit] at hlen
      simpa only [sizeOf, arraySize, hmem (o.1 + 2) (by omega) (by omega)] using hold
    | _ => exact hold

/-! ## One allocation -/

/-- `h'` is `h` with one more object at the top, which starts with the given words. -/
structure Allocated (h h' : Heap) (objSize flags : Nat) (fields : List Nat) : Prop where
  heap : h'.gc.heap = h.gc.heap
  heapTop : h'.gc.heapTop = h.gc.heapTop + objSize
  heapBorder : h'.gc.heapBorder = h.gc.heapBorder
  allocated : h'.allocated = h.allocated ++ [(h.gc.heapTop + 2, objSize)]
  below : ∀ w < h.gc.heapTop, h'.gc.mem w = h.gc.mem w
  flags : h'.gc.getObjFlags (h.gc.heapTop + 2) = flags
  magic : h'.gc.getObjMagic (h.gc.heapTop + 2) = magicObject
  fields : ∀ i < fields.length, h'.gc.mem (h.gc.heapTop + 2 + i) = fields.getD i 0

theorem allocFields_spec (hfits : h.gc.heapTop + objSize < 2 ^ 30)
    (halloc : allocFields irq objSize flags fields h = some (obj, h')) :
    Allocated h h' objSize flags fields := by
  have hnext : (h.gc.heapTop + objSize) % 2 ^ 30 = h.gc.heapTop + objSize := Nat.mod_eq_of_lt hfits
  simp only [allocFields, allocDataInDomain, hnext, Option.map_eq_some_iff] at halloc
  obtain ⟨⟨obj', hmid⟩, hdata, hset⟩ := halloc
  split at hdata
  · cases hdata
  · simp only [Option.some.injEq, Prod.mk.injEq] at hdata hset
    obtain ⟨rfl, rfl⟩ := hdata
    obtain ⟨rfl, rfl⟩ := hset
    refine ⟨rfl, rfl, rfl, rfl, fun w hw => ?_, ?_, ?_, fun i hi => ?_⟩
    · simp only [setFields, Gc.setObjMagic, Gc.setObjFlags, Gc.setWord]
      grind
    · simp only [setFields, Gc.getObjFlags, Gc.setObjMagic, Gc.setObjFlags, Gc.setWord]
      grind
    · simp only [setFields, Gc.getObjMagic, Gc.setObjMagic, Gc.setObjFlags, Gc.setWord]
      grind
    · simp only [setFields]
      grind

/-- No collection is needed while the reserve is not touched. -/
theorem exists_allocFields (hfits : h.gc.heapTop + objSize < 2 ^ 30)
    (hroom : h.gc.heapTop + objSize + heapReserve ≤ h.gc.heapBorder) :
    ∃ obj h', allocFields irq objSize flags fields h = some (obj, h') := by
  have hnext : (h.gc.heapTop + objSize) % 2 ^ 30 = h.gc.heapTop + objSize := Nat.mod_eq_of_lt hfits
  simp only [allocFields, allocDataInDomain, hnext]
  rw [if_neg (fun hfull => Nat.not_lt_of_le hroom hfull.1)]
  exact ⟨_, _, rfl⟩

/-- A request of a kind that can be walked is one call of `allocFields`, and the fields that it sets
make the tables come to the size it has asked for. -/
theorem Request.alloc_walkable (r : Request) (hr : r.Walkable) (b : Build) (irq : Bool) :
    ∃ (kind : Kind) (fields : List Nat),
      r.alloc b irq = allocFields irq (r.objSize b) kind.flags fields ∧
      ∀ g obj, (∀ i < fields.length, g.mem (obj + i) = fields.getD i 0) →
        sizeOf b g obj kind = some (r.objSize b) := by
  cases r with
  | proxy => exact ⟨.portal, _, rfl, fun _ _ _ => rfl⟩
  | atomicVariable => exact ⟨.atomvar, _, rfl, fun _ _ _ => rfl⟩
  | cas => exact ⟨.cas, _, rfl, fun _ _ _ => rfl⟩
  | domain => exact ⟨.domain, _, rfl, fun _ _ _ => rfl⟩
  | threadDesc => exact ⟨.cpustate, _, rfl, fun _ _ _ => rfl⟩
  | serviceDesc => exact ⟨.service, _, rfl, fun _ _ _ => rfl⟩
  | memory => exact ⟨.memory, _, rfl, fun _ _ _ => rfl⟩
  | object c =>
    refine ⟨.object, _, rfl, fun g obj hfields => ?_⟩
    have hvtable : g.mem obj = c.vtable := hfields 0 (by simp)
    simp only [sizeOf, hvtable, if_neg c.vtable_ne, Request.objSize, Class.instanceSize]
  | array arrayClass c size =>
    refine ⟨.array, _, rfl, fun g obj hfields => ?_⟩
    have hsize : g.mem (obj + 2) = size := hfields 2 (by simp)
    simp only [sizeOf, arraySize, hsize, Request.objSize]
  | vmObject | credential | threadDescForeign => exact hr.elim

end Sized

/-! ## Runs -/

/-- The objects that were allocated fill the heap, and each can be measured. -/
structure Laid (b : Build) (h : Heap) : Prop where
  tiled : Tiled (fun o => o.1 - 2) Prod.snd h.gc.heap h.allocated h.gc.heapTop
  sized : ∀ o ∈ h.allocated, ∃ kind, Sized b h.gc o kind
  heapTop_lt : h.allocated ≠ [] → h.gc.heapTop < 2 ^ 30

section Runs

variable {b : Build} {h h' : Heap}

theorem Heap.Empty.laid (he : h.Empty) : Laid b h where
  tiled := by
    rw [he.allocated]
    exact he.heapTop.symm
  sized := by
    rw [he.allocated]
    nofun
  heapTop_lt hne := absurd he.allocated hne

/-- A request comes back as long as there is room above the reserve. -/
theorem exists_walkableStep (b : Build) (h : Heap) (r : Request) (hr : r.Walkable)
    (hfits : r.Fits b h) (hroom : h.gc.heapTop + r.objSize b + heapReserve ≤ h.gc.heapBorder) :
    ∃ h', WalkableStep b h h' ∧ h'.allocated = h.allocated ++ [(h.gc.heapTop + 2, r.objSize b)] ∧
      h'.gc.heapTop = h.gc.heapTop + r.objSize b ∧ h'.gc.heapBorder = h.gc.heapBorder := by
  obtain ⟨kind, fields, heq, -⟩ := r.alloc_walkable hr b false
  obtain ⟨obj, h', halloc⟩ : ∃ obj h', allocFields false (r.objSize b) kind.flags fields h =
    some (obj, h') := exists_allocFields hfits hroom
  have hnew := allocFields_spec hfits halloc
  rw [← heq] at halloc
  exact ⟨h', ⟨false, r, obj, hr, hfits, halloc⟩, hnew.allocated, hnew.heapTop, hnew.heapBorder⟩

/-- The new object is the last block, and the older ones have kept their words. -/
theorem Laid.step (hl : Laid b h) (hstep : WalkableStep b h h') : Laid b h' := by
  obtain ⟨irq, r, obj, hr, hfits, halloc⟩ := hstep
  obtain ⟨kind, fields, heq, hsize⟩ := r.alloc_walkable hr b irq
  rw [heq] at halloc
  have hnew := allocFields_spec hfits halloc
  refine ⟨?_, ?_, fun _ => ?_⟩
  · rw [hnew.heap, hnew.heapTop, hnew.allocated]
    exact hl.tiled.concat (Nat.add_sub_cancel _ 2)
  · intro o ho
    rw [hnew.allocated, List.mem_append, List.mem_singleton] at ho
    rcases ho with hold | rfl
    · obtain ⟨kind', hs⟩ := hl.sized o hold
      refine ⟨kind', hs.congr fun w _ hw => hnew.below w ?_⟩
      have hbounds := hl.tiled.mem_bounds hold
      omega
    · exact ⟨kind, by simp, hnew.flags, hnew.magic, hsize _ _ hnew.fields⟩
  · rw [hnew.heapTop]
    exact hfits

/-- The walk over the rest `l` of the heap, from `data` on. -/
theorem walkContinuesBlock_eq {g : Gc} {data : Nat} {l : List (Nat × Nat)}
    (htiled : Tiled (fun o => o.1 - 2) Prod.snd data l g.heapTop)
    (hsized : ∀ o ∈ l, ∃ kind, Sized b g o kind) (hlt : l ≠ [] → g.heapTop < 2 ^ 30) (fuel : Nat)
    (hfuel : l.length < fuel) : walkContinuesBlock b fuel data g = pure (l, g.heapTop) := by
  induction l generalizing data fuel with
  | nil =>
    obtain ⟨n, rfl⟩ := Nat.exists_eq_add_of_lt hfuel
    rw [Tiled.nil_iff] at htiled
    rw [htiled]
    simp [walkContinuesBlock]
  | cons o l ih =>
    obtain ⟨n, rfl⟩ := Nat.exists_eq_add_of_lt hfuel
    obtain ⟨kind, hs⟩ := hsized o List.mem_cons_self
    have hobj : o.1 = data + 2 := by
      have hstart : o.1 - 2 = data := htiled.1
      have htwo := hs.two_le
      omega
    have hbounds := htiled.2.base_le
    have hpos := hs.two_le_size
    have hborder := hlt (List.cons_ne_nil _ _)
    have hrest := ih htiled.2 (fun o' ho' => hsized o' (List.mem_cons_of_mem _ ho'))
      (fun _ => hborder) (l.length + n + 1) (by omega)
    have hsize := hs.walkSize
    rw [hobj] at hsize
    have hmod : (data + o.2) % 2 ^ 30 = data + o.2 := Nat.mod_eq_of_lt (by omega)
    rw [show (o :: l).length + n + 1 = l.length + n + 1 + 1 by simp; omega, walkContinuesBlock,
      if_pos (by omega), hsize, pure_bind, hmod, hrest, pure_bind, ← hobj]

theorem Laid.parseable (hl : Laid b h) : Parseable b h where
  walk := ⟨h.allocated.length + 1, fun fuel hfuel =>
    walkContinuesBlock_eq hl.tiled hl.sized hl.heapTop_lt fuel hfuel⟩
  objSize2 o ho := by
    obtain ⟨kind, hs⟩ := hl.sized o ho
    rw [hs.flags]
    exact hs.objSize2

/-- Whatever is allocated can be walked, as long as it is none of the kinds that the tables do not
have and as long as no sum wraps. -/
theorem parseable_of_walkable (he : h.Empty) (hrun : Relation.ReflTransGen (WalkableStep b) h h') :
    Parseable b h' :=
  (invariant_of_run (I := Laid b) (fun _ _ hl hstep => hl.step hstep) hrun he.laid).parseable

end Runs

/-- A heap of a hundred thousand words. -/
def exampleHeap : Heap where
  gc :=
    { mem := fun _ => 0
      heap := 1000
      heapTop := 1000
      heapBorder := 101000
      heap2 := 101000
      heapTop2 := 101000
      heapBorder2 := 201000
      decRefcount := [] }
  allocated := []

/-- Every class has two fields. -/
def exampleBuild : Build where
  env :=
    { classDesc := fun _ => ⟨2, [0]⟩
      arrayName := fun _ => []
      domainId := fun _ => 0
      domain := 0
      otherSize := fun _ => 0
      otherMove := fun _ _ g => pure (0, g)
      otherScan := fun _ _ g => pure g
      otherFinalize := fun _ _ _ g => pure g }
  sizeofThreadDescProxy := 400
  sizeofServiceThreadPool := 16

def exampleClass : Class := ⟨40000, by decide⟩

theorem exampleHeap_empty : exampleHeap.Empty := ⟨rfl, rfl⟩

/-- A service, an array of three elements and an object. -/
theorem parseable_three : ∃ h', h'.allocated = [(1002, 18), (1020, 8), (1028, 6)] ∧
    h'.gc.heapTop = 1032 ∧ Relation.ReflTransGen (WalkableStep exampleBuild) exampleHeap h' ∧
    Parseable exampleBuild h' := by
  obtain ⟨h₁, hservice, hl₁, ht₁, hb₁⟩ :=
    exists_walkableStep exampleBuild exampleHeap .serviceDesc trivial
      (by unfold Request.Fits; decide) (by decide)
  change h₁.gc.heapTop = 1018 at ht₁
  change h₁.gc.heapBorder = 101000 at hb₁
  obtain ⟨h₂, harray, hl₂, ht₂, hb₂⟩ :=
    exists_walkableStep exampleBuild h₁ (.array 41000 exampleClass 3) trivial
      (by rw [Request.Fits, ht₁]; decide) (by rw [ht₁, hb₁]; decide)
  rw [ht₁] at ht₂ hl₂
  change h₂.gc.heapTop = 1026 at ht₂
  obtain ⟨h₃, hobject, hl₃, ht₃, -⟩ :=
    exists_walkableStep exampleBuild h₂ (.object exampleClass) trivial
      (by rw [Request.Fits, ht₂]; decide) (by rw [ht₂, hb₂, hb₁]; decide)
  rw [ht₂] at ht₃ hl₃
  have hrun := ((Relation.ReflTransGen.single hservice).tail harray).tail hobject
  refine ⟨h₃, ?_, ht₃, hrun, parseable_of_walkable exampleHeap_empty hrun⟩
  rw [hl₃, hl₂, hl₁]
  rfl

/-- `createCredential` leaves an object behind that the next walk does not know. -/
theorem not_parseable_credential : ¬ ∀ (b : Build) (h h' : Heap), h.Empty →
    Relation.ReflTransGen (Step b) h h' → Parseable b h' := by
  intro hall
  obtain ⟨obj, h', halloc⟩ : ∃ obj h', allocCredentialProxyInDomain false exampleClass 5
    exampleHeap = some (obj, h') := exists_allocFields (by decide) (by decide)
  have hnew := allocFields_spec (by decide) halloc
  have hstep : Step exampleBuild exampleHeap h' := ⟨false, .credential exampleClass 5, obj, halloc⟩
  obtain ⟨n, hn⟩ := (hall _ _ _ exampleHeap_empty (.single hstep)).walk
  have hwalk := hn (n + 1) (Nat.le_succ n)
  have hheap : h'.gc.heap = 1000 := hnew.heap
  have htop : h'.gc.heapTop = 1005 := hnew.heapTop
  have hflags : h'.gc.getObjFlags 1002 = credentialFlags := hnew.flags
  have hsize : walkSize exampleBuild h'.gc 1002 = throw (.panic "WRONG HEAP DATA") := by
    have hwalkFlags : walkFlags h'.gc 1002 = credentialFlags := by
      simp only [walkFlags, hflags]
      rfl
    have hkind : Kind.ofFlags credentialFlags = none := rfl
    simp only [walkSize, hwalkFlags, hkind]
  simp only [walkContinuesBlock, hheap, htop] at hwalk
  rw [if_pos (by decide), hsize] at hwalk
  cases hwalk

end JxCore.HeapWalk
