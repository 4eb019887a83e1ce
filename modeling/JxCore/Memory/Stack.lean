import JxCore.Memory.TypeMap

/-!
# Walking a thread's stack

`walkStack` finds the references on the stack of a stopped thread and gives the address of each to
`handleReference`. It follows the chain of saved frame pointers and looks at every frame through its
instruction pointer: compiled Java code has a stack map for the point where it stopped, the few
assembler routines through which C calls Java hold the arguments of the method they called, and
everything else in the kernel's text holds nothing.

The locals of `walkStack` that carry over from one turn of its loop to the next, and that nothing
initialises, are fields of the loop's state.
-/

namespace JxCore.Stack

/-! ## What the compiler says about code -/

/-- `SymbolDescStackMap`. A symbol of another type shares only the first two fields, and
`find_stackmap` looks no further. -/
structure SymbolDesc where
  type : Nat
  immediateNCIndex : Nat
  immediateNCIndexPre : Nat := 0
  nBits : Nat := 0
  map : List Nat := []
  deriving DecidableEq, Repr

structure MethodDesc where
  code : Nat
  numberOfCodeBytes : Nat
  symbols : List SymbolDesc
  numberOfArgs : Nat
  argTypeMap : List Nat
  deriving DecidableEq, Repr

structure ClassDesc where
  methods : List MethodDesc

structure LibDesc where
  allClasses : List ClassDesc

structure DomainDesc where
  libs : List LibDesc
  /-- `domain->gc.isInHeap`. -/
  isInHeap : Nat → Bool

/-- `findMethodAtAddrInDomain`. -/
def findMethodAtAddrInDomain (domain : DomainDesc) (addr : Nat) : Option MethodDesc :=
  if addr = 0 then none
  else (domain.libs.flatMap fun lib => lib.allClasses.flatMap ClassDesc.methods).find?
    fun m => m.code ≤ addr ∧ addr < m.code + m.numberOfCodeBytes

/-- The symbol at which the loop of `find_stackmap` stops. -/
def MethodDesc.stackmapAt (method : MethodDesc) (eip : Nat) : Option SymbolDesc :=
  method.symbols.find? fun sym =>
    (sym.type = 16 ∨ sym.type = 17) ∧
      (method.code + sym.immediateNCIndex = eip ∨ method.code + sym.immediateNCIndexPre = eip)

/-- `find_stackmap`: `none` for `JNI_FALSE`, otherwise the new contents of `stackmap` and
`nslots`. Only the first `n_bits` entries are written. -/
def findStackmap (method : MethodDesc) (eip : Nat) (stackmap : Nat → Bool) (maxslots : Nat) :
    Exec (Option ((Nat → Bool) × Nat)) :=
  match method.stackmapAt eip with
  | none => pure none
  | some sym =>
    if sym.nBits > maxslots then throw (.panic "stack frame too large")
    else
      let bits := TypeMap.forBitmap sym.map sym.nBits
      pure (some (fun k => if k < sym.nBits then bits.getD k false else stackmap k, sym.nBits))

/-! ## The kernel's text -/

/-- A piece of code between two labels, both included as in the source. -/
structure Range where
  first : Nat
  last : Nat
  deriving DecidableEq, Repr

def Range.contains (r : Range) (eip : Nat) : Bool := r.first ≤ eip && eip ≤ r.last

/-- Where the linker has put the routines that `walkStack` knows by name. -/
structure Kernel where
  /-- From `_start` to `end`. -/
  text : Range
  threadExit : Range
  irqExit : Range
  receivePortalcall : Range
  callnativeSpecial : Range
  callnativeStatic : Range
  callnativeSpecialPortal : Range
  returnFromJava0 : Range
  returnFromJava1 : Range
  returnFromJava2 : Range
  neverReturn : Range
  /-- The word at an address inside the text. -/
  word : Nat → Nat

namespace Kernel

variable (kernel : Kernel) (eip : Nat)

/-- `eip_in_last_stackframe`. -/
def eipInLastStackframe : Bool :=
  kernel.threadExit.contains eip || kernel.irqExit.contains eip ||
    kernel.receivePortalcall.contains eip

/-- The routines under which there are no more Java frames. -/
def returnFromJava : Bool :=
  kernel.returnFromJava0.contains eip || kernel.returnFromJava1.contains eip ||
    kernel.returnFromJava2.contains eip || kernel.neverReturn.contains eip

/-- The test before "C -> Java, scan parameters". -/
def cToJava : Bool :=
  kernel.callnativeSpecial.contains eip || kernel.callnativeStatic.contains eip ||
    kernel.callnativeSpecialPortal.contains eip || kernel.returnFromJava eip

end Kernel

/-! ## The walk -/

/-- The registers of one turn of the loop. -/
structure Frame where
  sp : Nat
  ebp : Nat
  eip : Nat
  deriving DecidableEq, Repr

/-- The part of a `ThreadDesc` that is read here. -/
structure ThreadDesc where
  context : Frame
  stackTop : Nat

/-- One call of `handleReference`: the slot it is given, and the stack pointer of the frame for which
it is called. -/
structure Call where
  frame : Nat
  slot : Nat
  deriving DecidableEq, Repr

/-- The locals that no statement initialises before the loop. `stackmap` has 128 entries; what an
index from 128 on reads is the memory behind it. -/
structure Locals where
  method : Option MethodDesc
  stackmap : Nat → Bool
  numSlots : Nat

structure Walk extends Locals where
  mem : Nat → Nat
  calls : List Call

/-- A `HandleReference_t`, as the change it makes to memory when it is given a slot. -/
abbrev HandleReference := (Nat → Nat) → Nat → Nat → Nat

/-- `if (handleReference) handleReference(domain, s)`. -/
def visit (handleReference : Option HandleReference) (frame s : Nat) (w : Walk) : Walk :=
  match handleReference with
  | none => w
  | some handle => { w with mem := handle w.mem s, calls := w.calls ++ [⟨frame, s⟩] }

/-- The loop over the arguments: `n` of them to go, `i` already passed. -/
def scanArgs (handleReference : Option HandleReference) (frame : Nat) (method : MethodDesc) :
    (n i s : Nat) → Walk → Walk
  | 0, _, _, w => w
  | n + 1, i, s, w =>
    scanArgs handleReference frame method n (i + 1) (u4 (s + 4))
      (if TypeMap.isRef method.argTypeMap method.numberOfArgs i then visit handleReference frame s w
        else w)

/-- "scan parameters": `callnative_static` does not put an object onto the stack. -/
def scanParameters (handleReference : Option HandleReference) (frame : Nat) (isStatic : Bool)
    (prevMethod : MethodDesc) (w : Walk) : Walk :=
  if isStatic then
    scanArgs handleReference frame prevMethod prevMethod.numberOfArgs 0 (u4 (frame + 8)) w
  else
    scanArgs handleReference frame prevMethod prevMethod.numberOfArgs 0 (u4 (u4 (frame + 8) + 4))
      (visit handleReference frame (u4 (frame + 8)) w)

/-- `for (s = ebp - 1, k = 0; s > (sp + 1); s--, k++)` over a Java frame. -/
def scanSlots (domain : DomainDesc) (handleReference : Option HandleReference) (sp : Nat) :
    (fuel s k : Nat) → Walk → Option Walk
  | 0, _, _, _ => none
  | fuel + 1, s, k, w =>
    if u4 (sp + 4) < s then
      scanSlots domain handleReference sp fuel (u4 (2 ^ 32 - 4 + s)) (k + 1)
        (if w.stackmap k && domain.isInHeap (w.mem s) then visit handleReference sp s w else w)
    else some w

/-- A frame of "our own text segment"; the truth value says whether the loop is left. -/
def walkNative (kernel : Kernel) (handleReference : Option HandleReference) (f : Frame)
    (prevMethod : Option MethodDesc) (w : Walk) : Exec (Walk × Bool) :=
  if kernel.eipInLastStackframe f.eip then
    if kernel.word (u4 (2 ^ 32 - 4 + f.eip)) = 0xfb then
      throw (.panic "FIXME: interrupted before call in callnative_special_portal")
    else pure (w, true)
  else if kernel.cToJava f.eip then
    match prevMethod with
    | none => pure (w, kernel.returnFromJava f.eip)
    | some prevMethod =>
      pure (scanParameters handleReference f.sp (kernel.callnativeStatic.contains f.eip) prevMethod w,
        kernel.returnFromJava f.eip)
  else pure (w, false)

/-- A frame of compiled Java code. -/
def walkJava (domain : DomainDesc) (handleReference : Option HandleReference) (fuel : Nat)
    (f : Frame) (method : MethodDesc) (w : Walk) : Exec (Walk × Bool) := do
  match ← findStackmap method f.eip w.stackmap 128 with
  | none => throw (.panic "No stackmap for this frame!")
  | some (stackmap, numSlots) =>
    let w ← Exec.loop (scanSlots domain handleReference f.sp fuel (u4 (2 ^ 32 - 4 + f.ebp)) 0
      { w with method := some method, stackmap, numSlots })
    pure (w, false)

/-- One turn of the loop, up to `prevSP = sp`. Proxies have no code of their own in this
configuration, so `findProxyCodeInDomain` finds nothing and leaves `method` alone. -/
def walkFrame (kernel : Kernel) (domain : DomainDesc) (handleReference : Option HandleReference)
    (fuel : Nat) (f : Frame) (w : Walk) : Exec (Walk × Bool) :=
  let prevMethod := w.method
  if kernel.text.contains f.eip then walkNative kernel handleReference f prevMethod w
  else
    match findMethodAtAddrInDomain domain f.eip with
    | some method => walkJava domain handleReference fuel f method w
    | none => pure (w, false)

/-- `while (sp != NULL && sp < thread->stackTop)`. -/
def walkFrames (kernel : Kernel) (domain : DomainDesc) (stackTop : Nat)
    (handleReference : Option HandleReference) : (fuel : Nat) → Frame → Walk → Exec Walk
  | 0, _, _ => Exec.loop none
  | fuel + 1, f, w =>
    if f.sp = 0 ∨ stackTop ≤ f.sp then pure w
    else
      walkFrame kernel domain handleReference fuel f w >>= fun (w, stop) =>
        if stop ∨ f.ebp = 0 then pure w
        else walkFrames kernel domain stackTop handleReference fuel
          ⟨f.ebp, w.mem f.ebp, w.mem (u4 (f.ebp + 4))⟩ w

/-- `walkStack`. -/
def walkStack (kernel : Kernel) (domain : DomainDesc) (thread : ThreadDesc)
    (handleReference : Option HandleReference) (locals : Locals) (mem : Nat → Nat) (fuel : Nat) :
    Exec Walk :=
  walkFrames kernel domain thread.stackTop handleReference fuel thread.context
    { locals with mem, calls := [] }

end JxCore.Stack
