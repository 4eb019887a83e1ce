import JxCore.Core.ArrayClass
import JxCore.Core.CodeFile
import JxCore.Lib.Patches

/-!
# Linking (`core/load.c`)

The compiler leaves holes in the code of a method, and for each hole a symbol that says what belongs
there. `patchMethodSymbols` fills the holes when the library of the method is linked, and
`repatchMethodSymbols` those of a copy that `cloneMethodInDomain` has made.

What a symbol stands for does not depend on where the code is; only the number that goes into the hole
does. The model keeps the two apart: `resolve` and `reresolve` are the switches over the symbol types,
`Value.bytes` are the patch routines. The build has no event log and no profiler.
-/

namespace JxCore.Link

open CodeFile (Str JInt Byte SymbolKind SymbolDesc)
open Lib (Patch)

/-! ## The state of the kernel -/

/-- What does not change: the addresses of routines and variables, and the table `vmsupport` without its
column `index`. -/
structure Kernel where
  exceptionHandler : JInt
  vmSpecialAllocMultiArray : JInt
  shouldNotBeCalled : JInt
  /-- `allocObjectFunction` and `allocArrayFunction`, which are the same in all calls. -/
  specialAllocObject : JInt
  vmSpecialAllocArray : JInt
  curthrP : JInt
  /-- The offset of `stack` in a `ThreadDesc`. -/
  stackOffset : JInt
  /-- `longops[i]`, and what stands before and behind the table. -/
  longops : Int → JInt
  vmsupportNames : List Str
  vmsupport_ne_nil : vmsupportNames ≠ []
  /-- `vmsupport[i].fkt`, and what stands before and behind the table. -/
  fkt : Int → JInt
  /-- `class_I->classDesc`, and so on, by the number of the type. -/
  primitiveClass : Nat → JInt
  /-- The address of a class descriptor. -/
  address : Nat → JInt
  /-- The address of the n-th string that is made. -/
  string : Nat → JInt

def Kernel.numberVMOperations (K : Kernel) : Nat := K.vmsupportNames.length

/-- The number of entries of `longops`. -/
def longopsLength : Nat := 8

structure Method where
  name : ArrayClass.Name
  signature : ArrayClass.Name
  /-- `NULL` for an abstract method. -/
  code : JInt
  deriving DecidableEq

/-- The classes, with what the linker needs to know of them, and the column `index`. -/
structure State (K : Kernel) extends ArrayClass.State where
  /-- `definingLib->ndx`. -/
  ndx : Nat → JInt
  sfieldOffset : Nat → JInt
  staticFieldsSize : Nat → JInt
  methods : Nat → List Method
  sharedLibsIndexNumber : Nat
  /-- `vmsupport[i].index`, and what stands behind the table. -/
  index : Nat → Int
  index_inside : ∀ i < K.numberVMOperations, 0 ≤ index i ∧ index i < K.numberVMOperations
  /-- How many strings have been made. -/
  strings : Nat

/-- The state before the first library is loaded. -/
def State.boot (K : Kernel) : State K where
  toState := ArrayClass.State.boot
  ndx := fun _ => 0
  sfieldOffset := fun _ => 0
  staticFieldsSize := fun _ => 0
  methods := fun _ => []
  sharedLibsIndexNumber := 0
  index := fun _ => 0
  index_inside := fun _ hi => ⟨Int.le_refl 0, Int.natCast_pos.mpr (Nat.zero_lt_of_lt hi)⟩
  strings := 0

/-- A string as the name of a class. -/
def toName (s : Str) : ArrayClass.Name := s.map fun b => Char.ofNat b.toNat

variable {K : Kernel}

def State.findClassDesc (s : State K) (className : Str) : Option Nat :=
  ArrayClass.findClassDesc s.toState (toName className)

/-- The methods of the classes of this name in the shared libraries; `java/lang/Object` is part of every
library. -/
def State.methodsOf (s : State K) (className : Str) : List Method :=
  if toName className = "java/lang/Object".toList then
    if s.sharedLibs = [] then [] else s.methods ArrayClass.javaLangObject
  else (s.sharedLibs.flatten.filter fun c => s.name c = toName className).flatMap s.methods

/-- `findClassDescAndMethod`, with the code of the method. -/
def State.findMethod (s : State K) (className methodName methodSignature : Str) : Option JInt :=
  ((s.methodsOf className).find? fun m =>
    m.name = toName methodName ∧ m.signature = toName methodSignature).map Method.code

/-! ## What goes into a hole -/

inductive Value where
  /-- `patchByte(code, symbol, value)`. -/
  | byte (value : JInt)
  /-- `patchConstant(code, symbol, value)`. -/
  | constant (value : JInt)
  /-- `patchRelativeAddress(code, symbol, function)`. -/
  | relative (function : JInt)
  /-- `patchUnresolvedJump`. -/
  | jump (targetNCIndex : JInt)
  /-- `patchConstant(code, symbol, (jint) method)`. -/
  | method
  deriving DecidableEq

/-- The bytes that `patchConstant` writes. -/
def patchConstant (value : JInt) : List Byte :=
  [value.extractLsb' 0 8, value.extractLsb' 8 8, value.extractLsb' 16 8, value.extractLsb' 24 8]

/-- The bytes for a hole of the method at `method`, the code of which is at `code`. -/
def Value.bytes (code method nextInstrNCIndex : JInt) : Value → List Byte
  | .byte value => [value.extractLsb' 0 8]
  | .constant value => patchConstant value
  | .relative function => patchConstant (-(code + nextInstrNCIndex - function))
  | .jump targetNCIndex => patchConstant (targetNCIndex + code)
  | .method => patchConstant method

/-- The tables that the linker looks into. -/
inductive Table where
  | longops
  | vmsupport
  | exceptionTable
  deriving DecidableEq

/-- `ExceptionDesc`. -/
structure ExceptionDesc where
  start : JInt
  «end» : JInt
  /-- `NULL` for any class, and for a class that is not found. -/
  type : Option Nat
  addr : JInt
  deriving DecidableEq

/-- What becomes of a symbol: the value for the hole and the entry of the exception table, if there is
one, and the table entries that were used. -/
structure Resolved where
  value : Option Value
  exception : Option ExceptionDesc
  accesses : List (Table × Int)
  deriving DecidableEq

def Resolved.ofValue (value : Value) : Resolved := ⟨some value, none, []⟩

def Resolved.nothing : Resolved := ⟨none, none, []⟩

/-- `patchStaticFieldAddress`. -/
def patchStaticFieldAddress (s : State K) (className : Str) (kind fieldOffset : JInt) :
    Except Stop Value :=
  match s.findClassDesc className with
  | none => throw (.panic "could not find class")
  | some c =>
    match kind.toNat with
    | 0 => return .constant (s.sfieldOffset c + fieldOffset)
    | 1 =>
      if (s.ndx c).toInt < 0 ∨ s.sharedLibsIndexNumber < (s.ndx c).toInt then
        throw (.panic "invalid lib index")
      else return .constant (s.ndx c * 4)
    | 2 => return .constant ((s.sfieldOffset c + fieldOffset) * 4)
    | 3 => return .constant (0xffffffff <<< 13)
    | _ => throw (.panic "unknown static field symbol")

/-- `patchClassPointer`. -/
def patchClassPointer (s : State K) (className : Str) : Except Stop (Value × State K) :=
  if (toName className).head? = some '[' then do
    let (c, t) ← ArrayClass.findSharedArrayClassDesc s.toState (toName className)
    return (.constant (K.address c), { s with toState := t })
  else
    match s.findClassDesc className with
    | none => throw (.panic "Link error: Required class not found")
    | some c => return (.constant (K.address c), s)

/-- `patchDirectMethodAddress`. -/
def patchDirectMethodAddress (s : State K) (className methodName methodSignature : Str) : Value :=
  match s.findMethod className methodName methodSignature with
  | none => .relative K.shouldNotBeCalled
  | some code => if code = 0 then .relative K.shouldNotBeCalled else .relative code

/-- `patchPrimitiveClassPointer`. -/
def patchPrimitiveClassPointer (K : Kernel) (primitiveType : JInt) : Except Stop Value :=
  if primitiveType.toNat ∈ [0, 1, 2, 3, 5, 6, 7, 8] then
    return .constant (K.primitiveClass primitiveType.toNat)
  else throw (.panic "not primitive")

/-- `VMSUPPORT(operation).fkt`, behind the check of the operation. -/
def vmsupport (s : State K) (operation : JInt) (wrong : String) (make : JInt → Value) :
    Except Stop Resolved :=
  if operation.toInt ≤ 0 ∨ (K.numberVMOperations : Int) < operation.toInt then
    throw (.panic wrong)
  else
    let i := s.index operation.toNat
    return ⟨some (make (K.fkt i)), none, [(.vmsupport, operation.toInt), (.vmsupport, i)]⟩

/-- The name that stands for all exceptions. -/
def anyName : ArrayClass.Name := ['a', 'n', 'y']

/-- The entry of the exception table for a symbol. -/
def exceptionDesc (s : State K) (targetNCIndex rangeStart rangeEnd : JInt) (className : Str) :
    ExceptionDesc where
  start := rangeStart
  «end» := rangeEnd
  type := if toName className = anyName then none else s.findClassDesc className
  addr := targetNCIndex

/-! ## The two switches -/

/-- The switch of `patchMethodSymbols`. -/
def resolve (s : State K) (exCount : Nat) : SymbolKind Str → Except Stop (Resolved × State K)
  | .domainZero => throw (.panic "DomainZeroSTEntry no longer used.")
  | .exceptionHandler => return (.ofValue (.relative K.exceptionHandler), s)
  | .depFunction _ _ _ => throw (.panic "DEPFUNCTION no longer supported")
  | .staticField className kind fieldOffset => do
    return (.ofValue (← patchStaticFieldAddress s className kind fieldOffset), s)
  | .allocObject => return (.ofValue (.relative K.specialAllocObject), s)
  | .class className => do
    let (value, s) ← patchClassPointer s className
    return (.ofValue value, s)
  | .directMethodCall className methodName methodSignature =>
    return (.ofValue (patchDirectMethodAddress s className methodName methodSignature), s)
  | .string _ =>
    return (.ofValue (.constant (K.string s.strings)), { s with strings := s.strings + 1 })
  | .allocArray => return (.ofValue (.relative K.vmSpecialAllocArray), s)
  | .allocMultiArray => return (.ofValue (.relative K.vmSpecialAllocMultiArray), s)
  | .longArithmetic operation =>
    return (⟨some (.relative (K.longops operation.toInt)), none, [(.longops, operation.toInt)]⟩, s)
  | .vmSupport operation => do
    return (← vmsupport s operation "wrong vmsupport index" .relative, s)
  | .primitiveClass primitiveType => do
    return (.ofValue (← patchPrimitiveClassPointer K primitiveType), s)
  | .unresolvedJump targetNCIndex => return (.ofValue (.jump targetNCIndex), s)
  | .vmAbsolute operation => do
    return (← vmsupport s operation "wrong vmabssupport index" .constant, s)
  | .oldStackMap _ _ => return (.nothing, s)
  | .stackMap _ _ _ => return (.nothing, s)
  | .exceptionTable targetNCIndex rangeStart rangeEnd className =>
    return (⟨none, some (exceptionDesc s targetNCIndex rangeStart rangeEnd className),
      [(.exceptionTable, exCount)]⟩, s)
  | .currentThreadPointer => return (.ofValue (.constant K.curthrP), s)
  | .stackChunkSize => return (.ofValue (.byte 13), s)
  | .profile _ => throw (.panic "Linker unknown profile symbol")
  | .methodDesc => return (.ofValue .method, s)
  | .tcbOffset kind =>
    if kind = 1 then return (.ofValue (.constant K.stackOffset), s)
    else throw (.panic "Linker unknown TCBOffset symbol")

/-- The switch of `repatchMethodSymbols`. It leaves some symbols as they are in the copy and does not know
the last kind. -/
def reresolve (s : State K) (exCount : Nat) :
    SymbolKind Str → Except Stop (Resolved × State K)
  | .domainZero => return (.nothing, s)
  | .vmAbsolute _ => return (.nothing, s)
  | .exceptionTable _ _ _ _ => return (.nothing, s)
  | .currentThreadPointer => return (.nothing, s)
  | .stackChunkSize => return (.nothing, s)
  | .tcbOffset _ => throw (.panic "Linker unknown symbol")
  | kind => resolve s exCount kind

/-! ## The loop over the symbols -/

/-- The linker in the middle of a method. The last three fields are records of what it did. -/
structure Linking (K : Kernel) where
  state : State K
  byte : JInt → Byte
  /-- `e[0 .. exCount - 1]`. -/
  exceptions : List ExceptionDesc
  writes : List JInt
  accesses : List (Table × Int)

def Linking.start (state : State K) (byte : JInt → Byte) : Linking K := ⟨state, byte, [], [], []⟩

/-- The patch of the code that a symbol makes. -/
def patchOf (code method : JInt) (s : SymbolDesc Str) (r : Resolved) : Option Patch :=
  r.value.map fun v => ⟨s.immediateNCIndex, v.bytes code method s.nextInstrNCIndex⟩

/-- The addresses that a patch of the code at `code` writes. -/
def written (code : JInt) (p : Patch) : List JInt :=
  (List.range p.bytes.length).map fun j => code + p.offset + BitVec.ofNat 32 j

/-- The switch for one kind of symbol. -/
abbrev Switch (K : Kernel) := State K → Nat → SymbolKind Str → Except Stop (Resolved × State K)

/-- One round of the loop. -/
def patchSymbol (switch : Switch K) (code method : JInt) (l : Linking K) (s : SymbolDesc Str) :
    Except Stop (Linking K) := do
  let (r, state) ← switch l.state l.exceptions.length s.kind
  return {
    state
    byte := Patch.store code (patchOf code method s r).toList l.byte
    exceptions := l.exceptions ++ r.exception.toList
    writes := l.writes ++ (patchOf code method s r).toList.flatMap (written code)
    accesses := l.accesses ++ r.accesses }

/-- The loop. A panic leaves behind what was done before it. -/
def patchSymbols (switch : Switch K) (code method : JInt) :
    Linking K → List (SymbolDesc Str) → Linking K × Option Stop
  | l, [] => (l, none)
  | l, s :: rest =>
    match patchSymbol switch code method l s with
    | .error stop => (l, some stop)
    | .ok l => patchSymbols switch code method l rest

/-- `patchMethodSymbols`. -/
def patchMethodSymbols (s : State K) (byte : JInt → Byte) (code method : JInt)
    (symbols : List (SymbolDesc Str)) : Linking K × Option Stop :=
  patchSymbols resolve code method (Linking.start s byte) symbols

/-- `repatchMethodSymbols`. -/
def repatchMethodSymbols (s : State K) (byte : JInt → Byte) (code method : JInt)
    (symbols : List (SymbolDesc Str)) : Linking K × Option Stop :=
  patchSymbols reresolve code method (Linking.start s byte) symbols

/-! ## How many bytes a symbol takes -/

/-- The number of bytes that are written for a symbol. -/
def width {ν : Type} : SymbolKind ν → Nat
  | .domainZero => 0
  | .depFunction _ _ _ => 0
  | .oldStackMap _ _ => 0
  | .stackMap _ _ _ => 0
  | .exceptionTable _ _ _ _ => 0
  | .profile _ => 0
  | .stackChunkSize => 1
  | _ => 4

theorem width_le_four {ν : Type} (kind : SymbolKind ν) : width kind ≤ 4 := by
  cases kind <;> simp [width]

/-- What is known of a symbol that did not make the linker panic. -/
structure Spec (kind : SymbolKind Str) (r : Resolved) : Prop where
  value : ∀ v, r.value = some v →
    0 < width kind ∧ ∀ code method next, (v.bytes code method next).length = width kind
  width_of_none : r.value = none → width kind = 0
  exception : r.exception.toList.length = if kind.isExceptionTable then 1 else 0

section Symbol

variable {kind : SymbolKind Str} {v : Value}

/-- A symbol with a value. -/
theorem Spec.ofValue {accesses : List (Table × Int)} (hwidth : 0 < width kind)
    (hlen : ∀ code method next, (v.bytes code method next).length = width kind)
    (hex : kind.isExceptionTable = false) : Spec kind ⟨some v, none, accesses⟩ where
  value := by
    intro v' hv
    obtain rfl := Option.some.inj hv
    exact ⟨hwidth, hlen⟩
  width_of_none := nofun
  exception := by
    rw [hex]
    rfl

/-- A symbol that has nothing to do with the code. -/
theorem Spec.nothing (hwidth : width kind = 0) (hex : kind.isExceptionTable = false) :
    Spec kind .nothing where
  value := nofun
  width_of_none := fun _ => hwidth
  exception := by
    rw [hex]
    rfl

theorem vmsupport_eq_ok {s : State K} {operation : JInt} {wrong : String} {make : JInt → Value}
    {r : Resolved} (h : vmsupport s operation wrong make = .ok r) :
    0 < operation.toInt ∧ operation.toInt ≤ K.numberVMOperations ∧
      r = ⟨some (make (K.fkt (s.index operation.toNat))), none,
        [(.vmsupport, operation.toInt), (.vmsupport, s.index operation.toNat)]⟩ := by
  unfold vmsupport at h
  split at h
  next => cases h
  next hrange =>
    refine ⟨?_, ?_, (pure_eq_ok.mp h).symm⟩ <;> omega

theorem patchStaticFieldAddress_length {s : State K} {className : Str} {k fieldOffset : JInt}
    (h : patchStaticFieldAddress s className k fieldOffset = .ok v) (code method next : JInt) :
    (v.bytes code method next).length = 4 := by
  unfold patchStaticFieldAddress at h
  split at h
  · cases h
  · split at h
    · cases h
      rfl
    · split at h <;> cases h
      rfl
    · cases h
      rfl
    · cases h
      rfl
    · cases h

theorem patchClassPointer_length {s s' : State K} {className : Str}
    (h : patchClassPointer s className = .ok (v, s')) (code method next : JInt) :
    (v.bytes code method next).length = 4 := by
  unfold patchClassPointer at h
  split at h
  · obtain ⟨p, -, hp⟩ := bind_eq_ok.mp h
    cases hp
    rfl
  · split at h <;> cases h
    rfl

theorem patchDirectMethodAddress_length (s : State K) (className methodName methodSignature : Str)
    (code method next : JInt) :
    ((patchDirectMethodAddress s className methodName methodSignature).bytes
      code method next).length = 4 := by
  unfold patchDirectMethodAddress
  split
  · rfl
  · split <;> rfl

theorem patchPrimitiveClassPointer_length {primitiveType : JInt}
    (h : patchPrimitiveClassPointer K primitiveType = .ok v) (code method next : JInt) :
    (v.bytes code method next).length = 4 := by
  unfold patchPrimitiveClassPointer at h
  split at h <;> cases h
  rfl

theorem resolve_spec {s s' : State K} {exCount : Nat} {r : Resolved}
    (h : resolve s exCount kind = .ok (r, s')) : Spec kind r := by
  cases kind with
  | domainZero => cases h
  | depFunction _ _ _ => cases h
  | profile _ => cases h
  | staticField className k fieldOffset =>
    obtain ⟨v, hv, hret⟩ := bind_eq_ok.mp h
    cases hret
    exact Spec.ofValue (Nat.zero_lt_succ _) (patchStaticFieldAddress_length hv) rfl
  | «class» className =>
    obtain ⟨⟨v, t⟩, hv, hret⟩ := bind_eq_ok.mp h
    cases hret
    exact Spec.ofValue (Nat.zero_lt_succ _) (patchClassPointer_length hv) rfl
  | directMethodCall className methodName methodSignature =>
    cases h
    exact Spec.ofValue (Nat.zero_lt_succ _)
      (patchDirectMethodAddress_length s className methodName methodSignature) rfl
  | primitiveClass primitiveType =>
    obtain ⟨v, hv, hret⟩ := bind_eq_ok.mp h
    cases hret
    exact Spec.ofValue (Nat.zero_lt_succ _) (patchPrimitiveClassPointer_length hv) rfl
  | vmSupport operation =>
    obtain ⟨v, hv, hret⟩ := bind_eq_ok.mp h
    cases hret
    obtain ⟨-, -, rfl⟩ := vmsupport_eq_ok hv
    exact Spec.ofValue (Nat.zero_lt_succ _) (fun _ _ _ => rfl) rfl
  | vmAbsolute operation =>
    obtain ⟨v, hv, hret⟩ := bind_eq_ok.mp h
    cases hret
    obtain ⟨-, -, rfl⟩ := vmsupport_eq_ok hv
    exact Spec.ofValue (Nat.zero_lt_succ _) (fun _ _ _ => rfl) rfl
  | exceptionTable targetNCIndex rangeStart rangeEnd className =>
    cases h
    exact ⟨nofun, fun _ => rfl, rfl⟩
  | tcbOffset k =>
    simp only [resolve] at h
    split at h <;> cases h
    exact Spec.ofValue (Nat.zero_lt_succ _) (fun _ _ _ => rfl) rfl
  | oldStackMap _ _ =>
    cases h
    exact Spec.nothing rfl rfl
  | stackMap _ _ _ =>
    cases h
    exact Spec.nothing rfl rfl
  | _ =>
    cases h
    exact Spec.ofValue (Nat.zero_lt_succ _) (fun _ _ _ => rfl) rfl

end Symbol

end JxCore.Link
