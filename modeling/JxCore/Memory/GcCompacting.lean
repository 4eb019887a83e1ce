import JxCore.Memory.HeapWalk

/-!
# The compacting collector

`gc_compacting_gc` leaves the objects where they are until the end. It marks what can be reached in
the lowest bit of the flags, computes for each marked object where it will go, rewrites every
reference, and slides the objects down.

Marking is recursive, but the recursion is cut off at a depth of ten, because it runs on the stack
of the thread that collects. Passes over the whole heap take it up again until one of them has not
been cut off.

The new address of an object is kept in its magic word. For this reason `GC_COMPACTING_IMPL` takes
`NORMAL_MAGIC` out of the configuration, and without it `ASSERTOBJECT`, `ASSERTCLASSDESC` and the
check in `obj2ClassDesc` are empty. `ASSERT` is not.

Words and addresses are as in `GcNew`.
-/

namespace JxCore.GcCompacting

open Exec GcNew HeapWalk

/-! ## State -/

/-- The heap of a domain and the memory around it. `depth` and `abort` are `u4_t`; neither gets
anywhere near `2 ^ 32`, for a pass comes to each word of the heap at most twice. -/
structure State where
  mem : Nat → Nat
  heap : Nat
  heapTop : Nat
  heapBorder : Nat
  depth : Nat
  abort : Nat
  /-- `gc.data` of the domain. -/
  data : Nat

/-- A callback for an object: object, size and flags. -/
abbrev HandleObject := Nat → Nat → Nat → State → Exec State

/-- What the collector uses and does not define. -/
structure Env where
  classDesc : Nat → ClassDesc
  /-- `name` of an array class. -/
  arrayName : Nat → List Char
  sizeofServiceThreadPool : Nat
  findThreadDesc : Nat → Nat
  /-- `memory_deleted`. -/
  memoryDeleted : Nat → State → Exec State
  /-- What is in the place of `handleDomainProxy`: `gc_compacting_walkHeap` has nine callbacks, and
  all of its calls pass seven. -/
  handleDomainProxy : HandleObject

namespace State

def setWord (s : State) (a v : Nat) : State :=
  { s with mem := fun w => if w = a then v else s.mem w }

def getObjFlags (s : State) (obj : Nat) : Nat := s.mem (obj - 2)

def setObjFlags (s : State) (obj flags : Nat) : State := s.setWord (obj - 2) flags

def getObjMagic (s : State) (obj : Nat) : Nat := s.mem (obj - 1)

def setObjMagic (s : State) (obj magic : Nat) : State := s.setWord (obj - 1) magic

/-- `memcpy`, which copies upwards; all addresses here are those of words. -/
def memcpy (s : State) (dst src size : Nat) : State :=
  (List.range size).foldl (fun s k => s.setWord (dst + k) (s.mem (src + k))) s

/-- `gc_compacting_isInHeap`. -/
def isInHeap (s : State) (ref : Nat) : Prop := 4 * s.heap ≤ ref ∧ ref < 4 * s.heapTop

instance (s : State) (ref : Nat) : Decidable (s.isInHeap ref) :=
  inferInstanceAs (Decidable (_ ∧ _))

end State

/-- `flags & FORWARD_MASK`. -/
def isMarked (flags : Nat) : Bool := flags &&& 0x00000001 != 0

/-! ## The walk -/

/-- The callbacks that the collector passes. -/
structure Handlers where
  object : HandleObject
  array : HandleObject
  portal : HandleObject
  memory : HandleObject
  service : HandleObject
  cas : HandleObject
  atomVar : HandleObject

/-- A callback that is `NULL`. -/
def skip : HandleObject := fun _ _ _ s => pure s

/-- The same callback everywhere. -/
def Handlers.all (h : HandleObject) : Handlers := ⟨h, h, h, h, h, h, h⟩

/-- The body of the loop in `gc_walkContinuesBlock_Alt`. -/
def visit (env : Env) (h : Handlers) (data : Nat) (s : State) : Exec (Nat × State) :=
  let obj := data + 2
  let flags := s.getObjFlags obj
  let call := fun (handle : HandleObject) (objSize : Nat) => (objSize, ·) <$> handle obj objSize flags s
  match Kind.ofFlags flags with
  | some .array => call h.array (objsizeArray32bit (s.mem (obj + 2)))
  | some .externalString =>
    -- only domain zero has these, and it cannot have a heap of this kind
    throw (.assertion "domain == domainZero")
  | some .object => call h.object (objsizeObject (env.classDesc (s.mem obj)).instanceSize)
  | some .portal => call h.portal objsizePortal
  | some .memory => call h.memory objsizeMemory
  | some .service => call h.service objsizeServicedesc
  | some .servicePool => call skip (objsizeServicepool env.sizeofServiceThreadPool)
  | some .atomvar => call h.atomVar objsizeAtomvar
  | some .cas => call h.cas objsizeCas
  | some .domain => call env.handleDomainProxy objsizeDomain
  | _ => throw (.panic "WRONG HEAP DATA")

/-- `gc_walkContinuesBlock_Alt`. -/
def walkContinuesBlockAlt (env : Env) (h : Handlers) (top : Nat) : Nat → Nat → State → Exec State
  | 0, _, _ => loop none
  | fuel + 1, data, s =>
    if data < top then
      visit env h data s >>= fun (objSize, s) =>
        walkContinuesBlockAlt env h top fuel (data + objSize) s
    else
      pure s

/-- `gc_compacting_walkHeap`. -/
def walkHeap (env : Env) (h : Handlers) (fuel : Nat) (s : State) : Exec State :=
  walkContinuesBlockAlt env h s.heapTop fuel s.heap s

/-! ## References inside an object -/

/-- A word that holds a reference, or one that holds a pointer to a thread descriptor. -/
inductive Slot where
  | ref (a : Nat)
  | tcb (a : Nat)
  deriving DecidableEq, Repr

/-- A callback for a reference: it gets the value, and returns what it stores in its place if it
stores anything. -/
abbrev HandleReference := Nat → State → Exec (Option Nat × State)

/-- `cpuState2thread`. -/
def cpuState2thread (env : Env) (s : State) (ref : Nat) : Exec Nat :=
  if ref = 0 then
    pure 0
  else
    match Kind.ofFlags (s.getObjFlags (ref / 4)) with
    | some .cpustate => pure (ref + 4)
    | some .foreignCpustate => pure (env.findThreadDesc ref)
    | _ => throw (.panic "cpustate object has wrong flags")

/-- The callback on one slot; the second case is `MOVETCB`. -/
def handleSlot (env : Env) (handle : HandleReference) (s : State) : Slot → Exec State
  | .ref a => handle (s.mem a) s >>= fun (v, s) => pure (v.elim s (s.setWord a))
  | .tcb a =>
    if s.mem a = 0 then
      pure s
    else
      let tpr := s.mem a - 4
      handle tpr s >>= fun (v, s) =>
        cpuState2thread env s (v.getD tpr) >>= fun t => pure (s.setWord a t)

/-- The slots that `gc_impl_walkContent` comes to, in its order. There are no service pools in this
build, which has no `NEW_PORTALCALL`. -/
def slots (env : Env) (mem : Nat → Nat) (obj : Nat) : List Slot :=
  match Kind.ofFlags (mem (obj - 2)) with
  | some .array =>
    let c := (env.arrayName (mem (obj + 1)))[1]?
    if c = some 'L' ∨ c = some '[' then
      (List.range (mem (obj + 2))).map fun i => .ref (obj + 3 + i)
    else
      []
  | some .object =>
    let cl := env.classDesc (mem obj)
    (setIndices cl.map cl.instanceSize).map fun index => .ref (obj + 1 + index)
  | some .service => [.ref (obj + 9), .ref (obj + 10), .tcb (obj + 6)]
  | some .atomvar => [.tcb (obj + 2), .ref (obj + 1)]
  | some .foreignCpustate => [.ref (obj + 1)]
  | _ => []

/-- `gc_impl_walkContent`. -/
def walkContent (env : Env) (handle : HandleReference) (obj : Nat) (s : State) : Exec State := do
  if Kind.ofFlags (s.getObjFlags obj) = some .object then
    assert (s.mem obj ≠ 0) "obj->vtable != NULL"
  (slots env s.mem obj).foldlM (handleSlot env handle) s

/-! ## Marking -/

/-- `clearMarkCB`. -/
def clearMarkCB : HandleObject := fun obj _ _ s =>
  pure (s.setObjFlags obj (s.getObjFlags obj &&& 0xfffffffe))

/-- `markCB3`. -/
def markCB3 (env : Env) : Nat → HandleReference
  | 0, _, _ => loop none
  | fuel + 1, ref, s =>
    if ref = 0 then
      pure (none, s)
    else if ¬ s.isInHeap ref then
      pure (none, s)
    else
      let flags := s.getObjFlags (ref / 4)
      if isMarked flags then
        pure (none, s)
      else if s.depth > 10 then
        pure (none, { s with abort := s.abort + 1 })
      else
        let s := s.setObjFlags (ref / 4) (flags ||| 0x00000001)
        walkContent env (markCB3 env fuel) (ref / 4) { s with depth := s.depth + 1 } >>= fun s =>
          pure (none, { s with depth := s.depth - 1 })

/-- `mark2CB`. -/
def mark2CB (env : Env) (fuel : Nat) : HandleObject := fun obj _ flags s =>
  let s := { s with depth := 0 }
  if isMarked flags then walkContent env (markCB3 env fuel) obj s else pure s

/-- `markCB`. -/
def markCB : HandleReference := fun ref s =>
  if ref = 0 then
    pure (none, s)
  else if ¬ s.isInHeap ref then
    pure (none, s)
  else
    let flags := s.getObjFlags (ref / 4)
    if isMarked flags then
      pure (none, s)
    else
      pure (none, s.setObjFlags (ref / 4) (flags ||| 0x00000001))

/-- `walkRootSet`, which comes to the words `roots`. -/
def walkRootSet (env : Env) (handle : HandleReference) (roots : List Nat) (s : State) : Exec State :=
  (roots.map Slot.ref).foldlM (handleSlot env handle) s

/-- The `do` loop of `gc_compacting_gc`. -/
def markLoop (env : Env) (fuel : Nat) : Nat → State → Exec State
  | 0, _ => loop none
  | n + 1, s =>
    walkHeap env (.all (mark2CB env fuel)) fuel { s with abort := 0 } >>= fun s =>
      if s.abort > 0 then markLoop env fuel n s else pure s

/-- The first half of `gc_compacting_gc`: clear the marks and mark active objects. -/
def markPhase (env : Env) (roots : List Nat) (fuel : Nat) (s : State) : Exec State := do
  let s ← walkHeap env (.all clearMarkCB) fuel s
  let s ← walkRootSet env markCB roots s
  markLoop env fuel fuel s

/-! ## Sliding -/

/-- `calcAddrCB`. -/
def calcAddrCB : HandleObject := fun obj objSize flags s =>
  if isMarked flags then
    pure { s.setObjMagic obj (4 * s.data) with data := s.data + objSize }
  else
    pure s

/-- `adjustRefCB`. -/
def adjustRefCB : HandleReference := fun ref s =>
  if ref = 0 then
    pure (none, s)
  else if ¬ s.isInHeap ref then
    pure (none, s)
  else
    assert (isMarked (s.getObjFlags (ref / 4))) "flags & FORWARD_MASK" >>= fun _ =>
      pure (some (s.getObjMagic (ref / 4) + 8), s)

/-- `adjustObjectCB`, `adjustArrayCB`, `adjustServiceCB` and `adjustAtomVarCB`, each of which calls
the routine that `gc_impl_walkContent` has for the kind. -/
def adjustCB (env : Env) : HandleObject := fun obj _ flags s =>
  if isMarked flags then walkContent env adjustRefCB obj s else pure s

/-- `moveCB`. -/
def moveCB (env : Env) : HandleObject := fun obj objSize flags s =>
  let src := obj - 2
  if isMarked flags then
    let dst := s.getObjMagic obj / 4
    assert (s.getObjMagic obj ≠ magicObject) "getObjMagic(obj) != MAGIC_OBJECT" >>= fun _ =>
      let s := s.setObjMagic obj magicObject
      if src = dst then pure s else pure (s.memcpy dst src objSize)
  else if Kind.ofFlags flags = some .memory then
    env.memoryDeleted obj s
  else
    pure s

/-- The callbacks of the reference adjustment. -/
def adjustHandlers (env : Env) : Handlers :=
  ⟨adjustCB env, adjustCB env, skip, skip, adjustCB env, skip, adjustCB env⟩

/-- The second half of `gc_compacting_gc`: new addresses, references, moves, and the rest of the
heap is filled. -/
def slidePhase (env : Env) (roots : List Nat) (fuel : Nat) (s : State) : Exec State := do
  let s ← walkHeap env (.all calcAddrCB) fuel { s with data := s.heap }
  let s ← walkRootSet env adjustRefCB roots s
  let s ← walkHeap env (adjustHandlers env) fuel s
  let s ← walkHeap env (.all (moveCB env)) fuel s
  let s := { s with heapTop := s.data }
  pure { s with mem := fun w => if s.heapTop ≤ w ∧ w < s.heapBorder then 0xffffffff else s.mem w }

/-- `gc_compacting_gc`. -/
def gcCompactingGc (env : Env) (roots : List Nat) (fuel : Nat) (s : State) : Exec State :=
  markPhase env roots fuel s >>= slidePhase env roots fuel

end JxCore.GcCompacting
