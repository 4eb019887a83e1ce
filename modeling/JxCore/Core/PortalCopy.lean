import JxCore.Memory.HeapWalk
import Mathlib.Logic.Function.Basic

/-!
# Copying parameters to another domain (`core/portal.c`)

The parameters of a portal call, its return value and an exception are copied from the heap of one
domain to the heap of another, with all that they refer to. What has been copied is entered into a
table of the thread, so that a copy can be found again.

The copy goes over objects and not over words: `objs` says which object is at an address, and the
words of an object or an array are a list. Each allocation may start a collection of the heap that
it allocates from, and what that does is left to the environment.
-/

namespace JxCore.PortalCopy

open Exec

/-! ## State -/

inductive Obj where
  | object (cl : Nat) (data : List Nat)
  | array (arrayClass : Nat) (data : List Nat)
  /-- A `Proxy`, where `targetDomain` is 0 for `NULL`. -/
  | portal (vtable targetDomain targetDomainID index : Nat)
  | memory (vtable dz : Nat)
  | domain (vtable domain domainID : Nat)
  | cpustate (vtable : Nat)
  | foreignCpustate (vtable thread : Nat)
  /-- Strings of the code files and CPU descriptors, which no heap contains. -/
  | external
  | atomvar
  | service
  /-- The kinds that `copy_reference_internal` has no case for. -/
  | other
  deriving DecidableEq, Repr

/-- The part of a class descriptor that the copy reads. -/
structure ClassDesc where
  instanceSize : Nat
  map : List Nat
  /-- `implements_interface(cl, portalInterface)`. -/
  isPortal : Bool
  /-- The class of the portals to its objects, and `none` if it implements several interfaces that
  are not related. -/
  ifclass : Option Nat

/-- `DEPDesc`. -/
structure Dep where
  obj : Nat
  proxy : Nat
  deriving DecidableEq

/-- An entry of `services`. -/
inductive Entry where
  | free
  | changing
  | dep (d : Dep)
  deriving DecidableEq

/-- Where an allocation will put its object, and whether it starts a collection. -/
structure Place where
  addr : Nat
  collects : Bool

structure Sys where
  objs : Nat → Option Obj
  services : (domain index : Nat) → Entry
  /-- `copied[0]` to `copied[n_copied - 1]` of the thread: `src` and `dst`. -/
  copied : List (Nat × Nat)
  maxCopied : Nat
  quota : Nat
  /-- How many allocations there have been. -/
  allocs : Nat

/-- What the compiler decides: by how many bytes the first argument of a routine lies below that of the
routine by which it is called. -/
structure Frames where
  /-- `copy_reference` calls `copy_reference_internal`. -/
  reference : Nat
  /-- `copy_reference_internal` calls `copy_object`, and is called by it. -/
  object : Nat
  field : Nat
  /-- `copy_reference_internal` calls itself through `copy_array`. -/
  element : Nat

/-- What the copy does not write. The answers of `vmsupport.c` and `load.c` in it have been given: the
check of the stack has not stopped these routines. -/
structure Env where
  frames : Frames
  /-- What `copy_reference` finds of the stack. -/
  room : Nat
  classDesc : Nat → ClassDesc
  /-- `name` of an array class. -/
  arrayName : Nat → List Char
  /-- The domain whose heap contains the address. -/
  heapOf : Nat → Option Nat
  /-- `id` of a domain. -/
  domainId : Nat → Nat
  /-- `findClass(domain, cl->name) != NULL`. -/
  loaded : (domain cl : Nat) → Bool
  /-- What the `n`-th allocation comes to, if it is one in the heap of `domain`. Some allocations are
  followed by a check of the epoch. -/
  place : (domain : Nat) → (checked : Bool) → (n : Nat) → Option Place
  /-- A collection of the heap of a domain. -/
  collect : (domain : Nat) → Sys → Sys

/-- What a copy returns when it has to be started again. -/
def restartMark : Nat := 0xffffffff

namespace Sys

/-- `obj->data[k]`. -/
def word (s : Sys) (obj k : Nat) : Nat :=
  match s.objs obj with
  | some (.object _ data) | some (.array _ data) => data.getD k 0
  | _ => 0

/-- `obj->data[k] = v`. -/
def setWord (s : Sys) (obj k v : Nat) : Sys :=
  { s with objs := Function.update s.objs obj <|
      match s.objs obj with
      | some (.object cl data) => some (.object cl (data.set k v))
      | some (.array cl data) => some (.array cl (data.set k v))
      | o => o }

end Sys

/-! ## Allocation -/

/-- An allocation in the heap of `d`, and whether it has started a collection. A place where there is
something else would break the invariant of that heap, and nothing is said about it. -/
def allocIn (env : Env) (d : Nat) (checked : Bool) (o : Obj) (s : Sys) : Exec (Nat × Bool × Sys) :=
  match env.place d checked s.allocs with
  | none => throw (.panic "no more memory")
  | some ⟨addr, collects⟩ =>
    let s := { s with allocs := s.allocs + 1 }
    let s := if collects then env.collect d s else s
    if addr ≠ 0 ∧ addr ≠ restartMark ∧ env.heapOf addr = some d ∧ s.objs addr = none then
      pure (addr, collects, { s with objs := Function.update s.objs addr (some o) })
    else
      throw (.panic "no more memory")

/-- An allocation between two looks at the epoch. -/
def alloc (env : Env) (d : Nat) (o : Obj) (s : Sys) : Exec (Nat × Bool × Sys) :=
  allocIn env d true o s

/-- An allocation after which nobody looks at the epoch. -/
def allocUnchecked (env : Env) (d : Nat) (o : Obj) (s : Sys) : Exec (Nat × Sys) := do
  let (addr, _, s) ← allocIn env d false o s
  pure (addr, s)

/-- The quota check that each copy routine starts with. -/
def takeQuota (size : Nat) (msg : String) (s : Sys) : Exec Sys :=
  if s.quota < size then throw (.panic msg) else pure { s with quota := s.quota - size }

/-- `addToRefTable`. -/
def addToRefTable (src dst : Nat) (s : Sys) : Exec Sys :=
  if s.copied.length = s.maxCopied then
    throw (.panic "too many objects copied")
  else
    pure { s with copied := s.copied ++ [(src, dst)] }

/-- An object without references is allocated in `dst` and entered into the table: `copy_portal` and
`copy_domainproxy` from the quota on. -/
def copyLeaf (env : Env) (dst size obj : Nat) (o : Obj) (s : Sys) : Exec (Nat × Sys) := do
  let s ← takeQuota size "" s
  let (target, collected, s) ← alloc env dst o s
  if collected then
    pure (restartMark, s)
  else
    let s ← addToRefTable obj target s
    pure (target, s)

/-! ## Portals -/

/-- `copy_portal` with `addRef`. A portal to a service of `dst` is replaced by the object itself. That
the entry holds a service is not asked: a marker in it would be dereferenced. -/
def copyPortal (env : Env) (dst obj : Nat) (s : Sys) : Exec (Nat × Sys) :=
  if obj = 0 then
    pure (0, s)
  else
    match s.objs obj with
    | some (.portal vtable targetDomain targetDomainID index) =>
      if targetDomainID = env.domainId dst ∧
          ¬ (targetDomainID = 0 ∧ targetDomain = 0 ∧ index = 0) then
        match s.services dst index with
        | .dep d => pure (d.obj, s)
        | _ => throw .wild
      else
        copyLeaf env dst GcNew.objsizePortal obj
          (.portal vtable targetDomain targetDomainID index) s
    | _ => throw (.panic "")

/-- `MAX_SERVICES`. -/
def maxServices : Nat := 1500

/-- The service in an entry of the table. -/
def Entry.service : Entry → Option Dep
  | .dep d => some d
  | _ => none

/-- The service for `obj`. If there is none, the search ends with what is in the last entry. -/
def findService (s : Sys) (d obj : Nat) : Option Dep :=
  ((List.range maxServices).findSome? fun index =>
    (s.services d index).service.filter fun dep => dep.obj = obj).or
      (s.services d (maxServices - 1)).service

/-- The index that `createService` takes. -/
def findFree (s : Sys) (d : Nat) : Option Nat :=
  (List.range maxServices).find? fun index =>
    match s.services d index with
    | .free => true
    | _ => false

/-- `domain->services[index] = …`. -/
def setService (s : Sys) (d index : Nat) (e : Entry) : Sys :=
  { s with services := Function.update s.services d (Function.update (s.services d) index e) }

/-- `createService`, `createPortalInDomain` and `createThread`, as `portal_auto_promo` calls them. -/
def createPromoted (env : Env) (d obj ifclass : Nat) (s : Sys) : Exec (Nat × Sys) :=
  match findFree s d with
  | none => throw (.panic "domain can not create more services")
  | some index => do
    let (_, s) ← allocUnchecked env d .service (setService s d index .changing)
    let s := setService s d index (.dep ⟨obj, 0⟩)
    let (proxy, s) ← allocUnchecked env d (.portal ifclass d (env.domainId d) index) s
    let s := setService s d index (.dep ⟨obj, proxy⟩)
    let (_, s) ← allocUnchecked env d (.cpustate 0) s
    pure (proxy, s)

/-- `portal_auto_promo`: the portal to the service whose object is `obj`. -/
def portalAutoPromo (env : Env) (d obj cl : Nat) (s : Sys) : Exec (Nat × Sys) :=
  match findService s d obj with
  | some dep => pure (dep.proxy, s)
  | none =>
    match (env.classDesc cl).ifclass with
    | none => throw (.throw .runtimeException "Class implements more than one portal interface")
    | some ifclass => createPromoted env d obj ifclass s

/-! ## Contents -/

/-- The loops of `copy_object` and `copy_array` from index `k` on: `copy` for references, which are
marked in the list, and other words as they are. `false` if the copy has to be started again. -/
def copyWords (copy : Nat → Sys → Exec (Nat × Sys)) (obj target : Nat) :
    List Bool → Nat → Sys → Exec (Bool × Sys)
  | [], _, s => pure (true, s)
  | true :: rest, k, s =>
    copy (s.word obj k) s >>= fun (ref, s) =>
      if ref = restartMark then
        pure (false, s)
      else
        copyWords copy obj target rest (k + 1) (s.setWord target k ref)
  | false :: rest, k, s => copyWords copy obj target rest (k + 1) (s.setWord target k (s.word obj k))

/-- The fields of an object that `copy_object` follows. -/
def objectMap (env : Env) (cl : Nat) : List Bool :=
  TypeMap.forBitmap (env.classDesc cl).map (env.classDesc cl).instanceSize

/-- The elements of an array that `copy_array` follows: those of a class `[L…`. -/
def arrayMap (env : Env) (arrayClass size : Nat) : List Bool :=
  List.replicate size ((env.arrayName arrayClass)[1]? = some 'L')

/-- The `NULL` that `copy_array` writes to each element before it gives up. -/
def clearArray (target size : Nat) (s : Sys) : Sys :=
  (List.range size).foldl (fun s k => s.setWord target k 0) s

/-- `copy_object`, from the check of the stack on. -/
def copyObject (env : Env) (copy : Nat → Sys → Exec (Nat × Sys)) (src dst obj cl : Nat) (s : Sys) :
    Exec (Nat × Sys) :=
  if (env.classDesc cl).isPortal then do
    let (proxy, s) ← portalAutoPromo env src obj cl s
    if env.loaded dst cl then
      throw (.throw .runtimeException "Target domain has loaded service class")
    copyPortal env dst proxy s
  else do
    let s ← takeQuota (GcNew.objsizeObject (env.classDesc cl).instanceSize) "" s
    let (target, collected, s) ←
      alloc env dst (.object cl (List.replicate (env.classDesc cl).instanceSize 0)) s
    if collected then
      pure (restartMark, s)
    else
      let s ← addToRefTable obj target s
      let (done, s) ← copyWords copy obj target (objectMap env cl) 0 s
      if done then pure (target, s) else pure (restartMark, s)

/-- `copy_array`. -/
def copyArray (env : Env) (copy : Nat → Sys → Exec (Nat × Sys)) (dst obj arrayClass size : Nat)
    (s : Sys) : Exec (Nat × Sys) := do
  let s ← takeQuota (GcNew.objsizeArray32bit size)
    "PER-CALL QUOTA REACHED: TOO MANY OBJECTS COPIED DURING PORTAL CALL" s
  let (target, collected, s) ← alloc env dst (.array arrayClass (List.replicate size 0)) s
  if collected then
    pure (restartMark, s)
  else
    let s ← addToRefTable obj target s
    let (done, s) ← copyWords copy obj target (arrayMap env arrayClass size) 0 s
    if done then pure (target, s) else pure (restartMark, clearArray target size s)

/-- `copy_memory`, which does not look whether there has been a collection. -/
def copyMemory (env : Env) (dst obj vtable dz : Nat) (s : Sys) : Exec (Nat × Sys) := do
  let s ← takeQuota HeapWalk.objsizeMemory "" s
  let (target, s) ← allocUnchecked env dst (.memory vtable dz) s
  let s ← addToRefTable obj target s
  pure (target, s)

/-- `copy_cpustate`. The object for the thread gets one for the domain of the thread. -/
def copyCpustate (env : Env) (src dst obj vtable : Nat) (s : Sys) : Exec (Nat × Sys) := do
  let s ← takeQuota HeapWalk.objsizeForeignThreaddesc "" s
  let (target, collected, s) ← alloc env dst (.foreignCpustate vtable obj) s
  let (_, collected', s) ← alloc env dst (.domain 0 src (env.domainId src)) s
  if collected || collected' then
    pure (restartMark, s)
  else
    let s ← addToRefTable obj target s
    pure (target, s)

/-- `gc_isValidHeapRef`. -/
def isValidHeapRef (env : Env) (s : Sys) (d ref : Nat) : Prop :=
  env.heapOf ref = some d ∨ s.objs ref = some .external

instance (env : Env) (s : Sys) (d ref : Nat) : Decidable (isValidHeapRef env s d ref) :=
  inferInstanceAs (Decidable (_ ∨ _))

/-- `copy_reference_internal`; `room` is what it finds of the stack. -/
def copyReferenceInternal (env : Env) (src dst : Nat) :
    (fuel room ref : Nat) → Sys → Exec (Nat × Sys)
  | 0, _, _, _ => loop none
  | fuel + 1, room, ref, s =>
    if ref = 0 then
      pure (0, s)
    else do
      checkStackSize room 128
      if src = dst then
        pure (ref, s)
      else
        match s.copied.lookup ref with
        | some target => pure (target, s)
        | none =>
          if ¬ isValidHeapRef env s src ref then
            throw (.panic "invalref")
          else
            match s.objs ref with
            | some (.object cl _) => do
              let room := room - env.frames.object
              checkStackSize room 128
              copyObject env (copyReferenceInternal env src dst fuel (room - env.frames.field)) src dst
                ref cl s
            | some (.portal _ _ _ _) => copyPortal env dst ref s
            | some (.memory vtable dz) => copyMemory env dst ref vtable dz s
            | some (.domain vtable domain domainID) =>
              copyLeaf env dst HeapWalk.objsizeDomain ref (.domain vtable domain domainID) s
            | some (.array arrayClass data) =>
              copyArray env (copyReferenceInternal env src dst fuel (room - env.frames.element)) dst ref
                arrayClass data.length s
            | some .external => pure (ref, s)
            | some (.cpustate vtable) => copyCpustate env src dst ref vtable s
            | some (.foreignCpustate _ _) =>
              throw (.panic "copy foreign cpustate not yet implemented")
            | some .atomvar =>
              throw (.throw .runtimeException "AtomicVariable cannot be copied between domains")
            | _ => throw (.panic "UNKNOWN OBJECT TYPE")

/-- `copy_reference`. -/
def copyReference (env : Env) (src dst fuel ref : Nat) (s : Sys) : Exec (Nat × Sys) := do
  checkStackSize env.room 128
  copyReferenceInternal env src dst fuel (env.room - env.frames.reference) ref s

end JxCore.PortalCopy
