import JxCore.Memory.Stack
import Mathlib.Data.List.Nodup

/-!
# Which stack words the walk reports

A stack is described by the list of its frames, innermost first. `IsRoot` says which of a frame's
words hold a reference, from the frame itself and the one before it; the walk decides the same
question from locals that keep whatever an earlier frame left in them. `FrameClean` is what has to
hold of a frame for the two to agree.

* `walkFrame_spec` — one turn of the loop, on any frame;
* `walkFrames_of_contained`, `contained_of_walkFrames` — the whole loop, in both directions;
* `walkStack_exact_iff` — the walk is exact precisely when every frame is clean.
-/

namespace JxCore.Stack

/-! ## Frames -/

/-- What the instruction pointer of a frame says about it. -/
inductive FrameKind where
  /-- The outermost frame. -/
  | last
  /-- A call from C to Java, with or without a self argument; `stop` if it is outermost. -/
  | enter (isStatic stop : Bool)
  | native
  | java (method : MethodDesc)
  /-- Neither kernel text nor code of the domain. -/
  | strange
  deriving DecidableEq

def frameKind (kernel : Kernel) (domain : DomainDesc) (eip : Nat) : FrameKind :=
  if kernel.text.contains eip then
    if kernel.eipInLastStackframe eip then .last
    else if kernel.cToJava eip then
      .enter (kernel.callnativeStatic.contains eip) (kernel.returnFromJava eip)
    else .native
  else
    match findMethodAtAddrInDomain domain eip with
    | some method => .java method
    | none => .strange

/-- What does not change during one walk. -/
structure Setting where
  kernel : Kernel
  domain : DomainDesc
  thread : ThreadDesc
  /-- Memory before the walk. -/
  mem : Nat → Nat
  /-- The uninitialised locals. -/
  locals : Locals

variable (S : Setting)

namespace Setting

def kind (f : Frame) : FrameKind := frameKind S.kernel S.domain f.eip

/-- The walk does not go beyond this frame, whatever its frame pointer is. -/
def stops (f : Frame) : Bool :=
  match S.kind f with
  | .last => true
  | .enter _ stop => stop
  | _ => false

def javaMethod (f : Frame) : Option MethodDesc :=
  match S.kind f with
  | .java method => some method
  | _ => none

def stackmap (f : Frame) : Option SymbolDesc :=
  (S.javaMethod f).bind fun method => method.stackmapAt f.eip

/-- The method that the frame after `pre` has called, if that is a Java method. -/
def callee (pre : List Frame) : Option MethodDesc := pre.getLast?.bind S.javaMethod

end Setting

/-- The address of slot `k`, counted from the frame pointer down. -/
def Frame.slot (f : Frame) (k : Nat) : Nat := f.ebp - 4 * (k + 1)

/-- The words from `a` on that the arguments of `method` take up. -/
def argsEnd (a : Nat) (isStatic : Bool) (method : MethodDesc) : Nat :=
  a + 4 * ((if isStatic then 0 else 1) + method.numberOfArgs)

/-- The slots of a frame begin above the two words that link it to the frame it has called; the
innermost frame has called none. -/
def lowest (pre : List Frame) (f : Frame) : Nat := if pre = [] then f.sp else f.sp + 8

/-- Word `a` of the frame that comes after `pre` holds a reference into the heap: a slot with its
bit set in the frame's stack map, or an argument of the Java method that the frame has called. -/
def IsRoot (pre : List Frame) (f : Frame) (a : Nat) : Prop :=
  match S.kind f with
  | .java method => ∃ sym k, method.stackmapAt f.eip = some sym ∧ k < sym.nBits ∧
      TypeMap.bit sym.map k ∧ 4 * (k + 1) ≤ f.ebp ∧ a = f.slot k ∧ lowest pre f ≤ a ∧
      S.domain.isInHeap (S.mem a)
  | .enter isStatic _ => ∃ method, S.callee pre = some method ∧
      ((isStatic = false ∧ a = f.sp + 8) ∨
        ∃ i < method.numberOfArgs, TypeMap.bit method.argTypeMap i ∧
          a = f.sp + 8 + 4 * ((if isStatic then 0 else 1) + i))
  | _ => False

/-! ## Well-formed stacks -/

/-- One frame on its own. A Java frame has a stack map of at most 128 slots. -/
structure FrameOk (f : Frame) : Prop where
  sp_pos : f.sp ≠ 0
  sp_lt : f.sp < S.thread.stackTop
  sp_aligned : f.sp % 4 = 0
  java : ∀ method, S.kind f = .java method →
    (∃ sym, method.stackmapAt f.eip = some sym ∧ sym.nBits ≤ 128) ∧
      f.sp + 8 ≤ f.ebp ∧ f.ebp ≤ S.thread.stackTop ∧ f.ebp % 4 = 0

/-- Frame `g` has called frame `f`: the saved registers lie where the frame pointer of `f` says. -/
structure Linked (f g : Frame) : Prop where
  sp_eq : g.sp = f.ebp
  sp_lt : f.sp < f.ebp
  inside : f.ebp + 8 ≤ S.thread.stackTop
  ebp_eq : g.ebp = S.mem f.ebp
  eip_eq : g.eip = S.mem (f.ebp + 4)

/-- The arguments of a call from C to Java lie below `limit`. -/
def ArgsBelow (pre : List Frame) (f : Frame) (limit : Nat) : Prop :=
  ∀ method isStatic stop, S.callee pre = some method → S.kind f = .enter isStatic stop →
    argsEnd (f.sp + 8) isStatic method ≤ limit

/-- The frames after `pre`, down to the outermost. -/
def IsStackFrom (pre : List Frame) : List Frame → Prop
  | [] => False
  | [f] => FrameOk S f ∧ ArgsBelow S pre f S.thread.stackTop ∧
      (S.stops f ∨ f.ebp = 0 ∨ S.thread.stackTop ≤ f.ebp)
  | f :: g :: rest => FrameOk S f ∧ ArgsBelow S pre f f.ebp ∧ S.stops f = false ∧ Linked S f g ∧
      IsStackFrom (pre ++ [f]) (g :: rest)

/-- The stopped thread has exactly these frames on its stack. -/
structure IsStack (frames : List Frame) : Prop where
  head : frames.head? = some S.thread.context
  below : S.thread.stackTop < 2 ^ 32
  chain : IsStackFrom S [] frames

/-- `handleReference` may move the object and update the slot it is given, but it writes to no other
word of the stack. -/
def KeepsStack (handle : HandleReference) : Prop :=
  ∀ mem s a, a < S.thread.stackTop → S.thread.context.sp ≤ a → a ≠ s → handle mem s a = mem a

/-! ## Exactness -/

/-- The walk has called `handleReference` once for every root and for nothing else. -/
structure ReportsRoots (frames : List Frame) (w : Walk) : Prop where
  once : ∀ pre f post, frames = pre ++ f :: post → ∀ a, IsRoot S pre f a →
    w.calls.count ⟨f.sp, a⟩ = 1
  noOther : ∀ c ∈ w.calls, ∃ pre f post, frames = pre ++ f :: post ∧ c.frame = f.sp ∧
    IsRoot S pre f c.slot

/-- The walk comes to an end and has reported the roots. -/
def Exact (handle : HandleReference) (frames : List Frame) : Prop :=
  ∃ w, Exec.Returns (walkStack S.kernel S.domain S.thread (some handle) S.locals S.mem) w ∧
    ReportsRoots S frames w

/-! ## What the locals hold -/

/-- `method` after the frames `pre`: that of the last Java frame among them. -/
def staleMethod (pre : List Frame) : Option MethodDesc :=
  (pre.filterMap S.javaMethod).getLast?.or S.locals.method

/-- `stackmap[k]` after the frames `pre`: the bit in the last of their maps that is long enough. -/
def staleBit (pre : List Frame) (k : Nat) : Bool :=
  match ((pre.filterMap S.stackmap).filter fun sym => k < sym.nBits).getLast? with
  | some sym => TypeMap.bit sym.map k
  | none => S.locals.stackmap k

/-- Nothing left over from the frames `pre` makes the walk report a word of `f` that is no root, and
no root of `f` lies where the walk does not look. -/
structure FrameClean (pre : List Frame) (f : Frame) : Prop where
  /-- Slots beyond the stack map: the bit found there is clear, or the word is no heap address. -/
  slots : ∀ sym, S.stackmap f = some sym → ∀ k, sym.nBits ≤ k → f.sp + 8 + 4 * (k + 1) ≤ f.ebp →
    staleBit S pre k → S.domain.isInHeap (S.mem (f.slot k)) = false
  /-- A call whose callee is no Java method: `method` is `NULL` or has nothing to scan. -/
  args : ∀ isStatic stop, S.kind f = .enter isStatic stop → S.callee pre = none →
    ∀ method, staleMethod S pre = some method →
      isStatic ∧ ∀ i < method.numberOfArgs, TypeMap.bit method.argTypeMap i = false
  /-- The two topmost words of a thread stopped in Java code. -/
  top : pre = [] → ∀ sym, S.stackmap f = some sym → ∀ k < sym.nBits, 4 * (k + 1) ≤ f.ebp →
    f.sp ≤ f.slot k → f.slot k < f.sp + 8 → TypeMap.bit sym.map k →
      S.domain.isInHeap (S.mem (f.slot k)) = false
  /-- The outermost frame does not trip the check for an interrupted portal call. -/
  last : S.kind f = .last → S.kernel.word (u4 (2 ^ 32 - 4 + f.eip)) ≠ 0xfb

/-! ## One scan

A scan reports some slots of one frame. It leaves the locals alone, and of the stack it changes at
most the words it reports. -/

/-- From `w` to `w'` exactly the slots `slots` have been reported, for frame `f`. -/
structure Reported (f : Frame) (slots : List Nat) (w w' : Walk) : Prop where
  calls : w'.calls = w.calls ++ slots.map (Call.mk f.sp)
  mem : ∀ a, S.thread.context.sp ≤ a → a < S.thread.stackTop → a ∉ slots → w'.mem a = w.mem a
  locals : w'.toLocals = w.toLocals

variable {S}
variable {f : Frame} {pre : List Frame} {handle : HandleReference} {w w' : Walk}

theorem Reported.refl (f : Frame) (w : Walk) : Reported S f [] w w :=
  ⟨by simp, fun _ _ _ _ => rfl, rfl⟩

theorem Reported.trans {slots slots' : List Nat} {w'' : Walk} (h : Reported S f slots w w')
    (h' : Reported S f slots' w' w'') : Reported S f (slots ++ slots') w w'' := by
  refine ⟨?_, fun a hlo hhi hnot => ?_, h'.locals.trans h.locals⟩
  · rw [h'.calls, h.calls, List.map_append, List.append_assoc]
  · rw [List.mem_append, not_or] at hnot
    rw [h'.mem a hlo hhi hnot.2, h.mem a hlo hhi hnot.1]

theorem reported_visit (hkeep : KeepsStack S handle) (f : Frame) (s : Nat) (w : Walk) :
    Reported S f [s] w (visit (some handle) f.sp s w) := by
  refine ⟨rfl, fun a hlo hhi hne => ?_, rfl⟩
  exact hkeep w.mem s a hhi hlo (by simpa using hne)

theorem reported_visit_if (hkeep : KeepsStack S handle) (f : Frame) (s : Nat) (w : Walk)
    (b : Bool) :
    Reported S f (if b then [s] else []) w (if b then visit (some handle) f.sp s w else w) := by
  cases b with
  | false => exact Reported.refl f w
  | true => exact reported_visit hkeep f s w

/-- The slots of the reference arguments among the last `n`, the first of which lies at `s`. -/
def argSlots (method : MethodDesc) : (n i s : Nat) → List Nat
  | 0, _, _ => []
  | n + 1, i, s =>
    (if TypeMap.isRef method.argTypeMap method.numberOfArgs i then [s] else []) ++
      argSlots method n (i + 1) (u4 (s + 4))

theorem reported_scanArgs (hkeep : KeepsStack S handle) (f : Frame) (method : MethodDesc)
    (n i s : Nat) (w : Walk) :
    Reported S f (argSlots method n i s) w (scanArgs (some handle) f.sp method n i s w) := by
  induction n generalizing i s w with
  | zero => exact Reported.refl f w
  | succ n ih => exact (reported_visit_if hkeep f s w _).trans (ih (i + 1) (u4 (s + 4)) _)

/-- What `scanParameters` reports. -/
def paramSlots (f : Frame) (isStatic : Bool) (method : MethodDesc) : List Nat :=
  if isStatic then argSlots method method.numberOfArgs 0 (u4 (f.sp + 8))
  else u4 (f.sp + 8) :: argSlots method method.numberOfArgs 0 (u4 (u4 (f.sp + 8) + 4))

theorem reported_scanParameters (hkeep : KeepsStack S handle) (f : Frame) (isStatic : Bool)
    (method : MethodDesc) (w : Walk) :
    Reported S f (paramSlots f isStatic method) w
      (scanParameters (some handle) f.sp isStatic method w) := by
  cases isStatic with
  | true => exact reported_scanArgs hkeep f method _ 0 _ w
  | false =>
    exact (reported_visit hkeep f (u4 (f.sp + 8)) w).trans (reported_scanArgs hkeep f method _ 0 _ _)

/-- The loop over a Java frame with `n` slots to go. Every slot is read before it is reported, so
the walk sees the word that was there at the start. -/
theorem scanSlots_spec (hkeep : KeepsStack S handle) (hlo : S.thread.context.sp ≤ f.sp)
    (htop : f.ebp ≤ S.thread.stackTop) (hbelow : S.thread.stackTop < 2 ^ 32) (n k : Nat)
    (hn : f.ebp = f.sp + 8 + 4 * (k + n)) (w : Walk)
    (hmem : ∀ j, k ≤ j → j < k + n → w.mem (f.slot j) = S.mem (f.slot j)) :
    ∃ w', (∀ fuel, n < fuel →
        scanSlots S.domain (some handle) f.sp fuel (f.sp + 4 + 4 * n) k w = some w') ∧
      Reported S f (((List.range' k n).filter fun j =>
        w.stackmap j && S.domain.isInHeap (S.mem (f.slot j))).map f.slot) w w' := by
  induction n generalizing k w with
  | zero =>
    refine ⟨w, fun fuel hfuel => ?_, by simpa using Reported.refl f w⟩
    obtain ⟨fuel, rfl⟩ := Nat.exists_eq_add_of_lt hfuel
    rw [scanSlots, if_neg]
    rw [u4_of_lt] <;> omega
  | succ n ih =>
    have hslot : f.slot k = f.sp + 4 + 4 * (n + 1) := by unfold Frame.slot; omega
    have hread := hmem k (Nat.le_refl k) (by omega)
    have hstep := reported_visit_if hkeep f (f.slot k) w
      (w.stackmap k && S.domain.isInHeap (S.mem (f.slot k)))
    generalize hw₁ : (if w.stackmap k && S.domain.isInHeap (S.mem (f.slot k)) then
      visit (some handle) f.sp (f.slot k) w else w) = w₁ at hstep
    -- Reporting slot `k` does not disturb the slots below it.
    have hmem' : ∀ j, k + 1 ≤ j → j < k + 1 + n → w₁.mem (f.slot j) = S.mem (f.slot j) := by
      intro j hj hjn
      have hne : f.slot j ≠ f.slot k := by unfold Frame.slot; omega
      have hin : S.thread.context.sp ≤ f.slot j := by unfold Frame.slot; omega
      have hlt : f.slot j < S.thread.stackTop := by unfold Frame.slot; omega
      rw [hstep.mem _ hin hlt, hmem j (by omega) (by omega)]
      split <;> simp [hne]
    obtain ⟨w', hloop, hrest⟩ := ih (k + 1) (by omega) w₁ hmem'
    refine ⟨w', fun fuel hfuel => ?_, ?_⟩
    · obtain ⟨fuel, rfl⟩ : ∃ m, fuel = m + 1 := ⟨fuel - 1, by omega⟩
      have hdown : u4 (2 ^ 32 - 4 + (f.sp + 4 + 4 * (n + 1))) = f.sp + 4 + 4 * n := by
        unfold u4; omega
      rw [scanSlots, if_pos (by rw [u4_of_lt] <;> omega), hdown, ← hslot, hread, hw₁]
      exact hloop fuel (by omega)
    · have hlocals : w₁.stackmap = w.stackmap := congrArg Locals.stackmap hstep.locals
      have hall := hstep.trans hrest
      rw [hlocals] at hall
      rw [List.range'_succ, List.filter_cons]
      split at hall
      · next hb => rwa [if_pos hb]
      · next hb => rwa [if_neg hb]

/-! ## One frame -/

theorem staleMethod_snoc (pre : List Frame) (f : Frame) :
    staleMethod S (pre ++ [f]) = (S.javaMethod f).or (staleMethod S pre) := by
  unfold staleMethod
  rw [List.filterMap_append, List.getLast?_append]
  cases hf : S.javaMethod f <;> simp [hf]

theorem staleBit_snoc_none (h : S.stackmap f = none) (pre : List Frame) :
    staleBit S (pre ++ [f]) = staleBit S pre := by
  funext k
  unfold staleBit
  rw [List.filterMap_append]
  simp [h]

theorem staleBit_snoc_some {sym : SymbolDesc} (h : S.stackmap f = some sym) (pre : List Frame) :
    staleBit S (pre ++ [f]) =
      fun k => if k < sym.nBits then TypeMap.bit sym.map k else staleBit S pre k := by
  funext k
  unfold staleBit
  rw [List.filterMap_append, List.filter_append, List.getLast?_append]
  by_cases hk : k < sym.nBits
  · simp [h, hk]
  · simp [h, hk]

theorem callee_snoc (pre : List Frame) (f : Frame) : S.callee (pre ++ [f]) = S.javaMethod f := by
  simp [Setting.callee]

variable (S) in
/-- The slots that the walk reports for the frame `f` after `pre`. -/
def visited (pre : List Frame) (f : Frame) : List Nat :=
  match S.kind f with
  | .java _ => ((List.range' 0 ((f.ebp - f.sp - 8) / 4)).filter fun k =>
      staleBit S (pre ++ [f]) k && S.domain.isInHeap (S.mem (f.slot k))).map f.slot
  | .enter isStatic _ =>
    match staleMethod S pre with
    | none => []
    | some method => paramSlots f isStatic method
  | _ => []

variable (S) in
/-- The state in which the walk comes to the frame `f` after `pre`. -/
structure Before (pre : List Frame) (f : Frame) (w : Walk) : Prop where
  lo : S.thread.context.sp ≤ f.sp
  method : w.method = staleMethod S pre
  stackmap : w.stackmap = staleBit S pre
  mem : ∀ a, f.sp ≤ a → a < S.thread.stackTop → w.mem a = S.mem a

variable (S) in
/-- The state `w'` in which it leaves that frame. -/
structure After (pre : List Frame) (f : Frame) (w w' : Walk) : Prop where
  calls : w'.calls = w.calls ++ (visited S pre f).map (Call.mk f.sp)
  method : w'.method = staleMethod S (pre ++ [f])
  stackmap : w'.stackmap = staleBit S (pre ++ [f])
  mem : ∀ a, f.sp ≤ a → a < S.thread.stackTop → a ∉ visited S pre f → w'.mem a = S.mem a

/-- A frame that is not Java code changes none of the locals. -/
theorem Before.after_of_reported (hbefore : Before S pre f w) (hjava : S.javaMethod f = none)
    (hrep : Reported S f (visited S pre f) w w') : After S pre f w w' where
  calls := hrep.calls
  method := by
    rw [staleMethod_snoc, hjava, Option.none_or, ← hbefore.method]
    exact congrArg Locals.method hrep.locals
  stackmap := by
    rw [staleBit_snoc_none (by simp [Setting.stackmap, hjava]), ← hbefore.stackmap]
    exact congrArg Locals.stackmap hrep.locals
  mem a hlo hhi hnot := by
    rw [hrep.mem a (Nat.le_trans hbefore.lo hlo) hhi hnot, hbefore.mem a hlo hhi]

theorem findStackmap_eq {method : MethodDesc} {eip : Nat} {sym : SymbolDesc}
    (hsym : method.stackmapAt eip = some sym) (hbits : sym.nBits ≤ 128) (stackmap : Nat → Bool) :
    findStackmap method eip stackmap 128 =
      pure (some (fun k => if k < sym.nBits then TypeMap.bit sym.map k else stackmap k,
        sym.nBits)) := by
  have hmap : (fun k => if k < sym.nBits then (TypeMap.forBitmap sym.map sym.nBits).getD k false
      else stackmap k) = fun k => if k < sym.nBits then TypeMap.bit sym.map k else stackmap k := by
    funext k
    split
    · next hk => simp only [TypeMap.getD_forBitmap, hk, decide_true, Bool.true_and]
    · rfl
  unfold findStackmap
  simp only [hsym, if_neg (Nat.not_lt.2 hbits), hmap]

/-- A Java frame. -/
theorem walkJava_spec (hkeep : KeepsStack S handle) (hbelow : S.thread.stackTop < 2 ^ 32)
    (hok : FrameOk S f) (hbefore : Before S pre f w) {method : MethodDesc}
    (hkind : S.kind f = .java method) :
    ∃ w', (∀ fuel, S.thread.stackTop < fuel →
        walkJava S.domain (some handle) fuel f method w = pure (w', false)) ∧
      After S pre f w w' := by
  obtain ⟨⟨sym, hsym, hbits⟩, hroom, htop, halign⟩ := hok.java method hkind
  have hsp := hok.sp_aligned
  have hjava : S.javaMethod f = some method := by simp [Setting.javaMethod, hkind]
  have hmap : S.stackmap f = some sym := by simp [Setting.stackmap, hjava, hsym]
  have hbit := staleBit_snoc_some hmap pre
  have hstart : u4 (2 ^ 32 - 4 + f.ebp) = f.sp + 4 + 4 * ((f.ebp - f.sp - 8) / 4) := by
    unfold u4; omega
  obtain ⟨w', hloop, hrep⟩ := scanSlots_spec hkeep hbefore.lo htop hbelow
    ((f.ebp - f.sp - 8) / 4) 0 (by omega)
    { w with method := some method, stackmap := staleBit S (pre ++ [f]), numSlots := sym.nBits }
    (fun j _ hj => hbefore.mem _ (by unfold Frame.slot; omega) (by unfold Frame.slot; omega))
  have hvisited : visited S pre f = ((List.range' 0 ((f.ebp - f.sp - 8) / 4)).filter fun k =>
      staleBit S (pre ++ [f]) k && S.domain.isInHeap (S.mem (f.slot k))).map f.slot := by
    simp only [visited, hkind]
  refine ⟨w', fun fuel hfuel => ?_, ⟨?_, ?_, ?_, fun a hlo hhi hnot => ?_⟩⟩
  · unfold walkJava
    rw [findStackmap_eq hsym hbits, hbefore.stackmap, ← hbit]
    simp only [pure_bind, hstart, hloop fuel (by omega), Exec.loop_some]
  · rw [hvisited, hrep.calls]
  · rw [staleMethod_snoc, hjava, Option.some_or]
    exact congrArg Locals.method hrep.locals
  · exact congrArg Locals.stackmap hrep.locals
  · rw [hrep.mem a (Nat.le_trans hbefore.lo hlo) hhi (hvisited ▸ hnot)]
    exact hbefore.mem a hlo hhi

/-- A frame of the kernel's text. -/
theorem walkNative_spec (hkeep : KeepsStack S handle) (hbefore : Before S pre f w)
    (htext : S.kernel.text.contains f.eip = true)
    (hlast : S.kind f = .last → S.kernel.word (u4 (2 ^ 32 - 4 + f.eip)) ≠ 0xfb) :
    ∃ w', walkNative S.kernel (some handle) f w.method w = pure (w', S.stops f) ∧
      After S pre f w w' := by
  unfold walkNative
  by_cases hend : S.kernel.eipInLastStackframe f.eip
  · have hkind : S.kind f = .last := by simp [Setting.kind, frameKind, htext, hend]
    refine ⟨w, ?_, hbefore.after_of_reported (by simp [Setting.javaMethod, hkind]) ?_⟩
    · rw [if_pos hend, if_neg (hlast hkind)]
      simp [Setting.stops, hkind]
    · simpa [visited, hkind] using Reported.refl f w
  by_cases hcall : S.kernel.cToJava f.eip
  · have hkind : S.kind f = .enter (S.kernel.callnativeStatic.contains f.eip)
        (S.kernel.returnFromJava f.eip) := by
      simp [Setting.kind, frameKind, htext, hend, hcall]
    have hjava : S.javaMethod f = none := by simp [Setting.javaMethod, hkind]
    have hstops : S.stops f = S.kernel.returnFromJava f.eip := by simp [Setting.stops, hkind]
    rw [if_neg hend, if_pos hcall, hbefore.method, hstops]
    -- `prevMethod` is the stale one, whatever the frame before was.
    cases hstale : staleMethod S pre with
    | none =>
      refine ⟨w, rfl, hbefore.after_of_reported hjava ?_⟩
      simpa [visited, hkind, hstale] using Reported.refl f w
    | some method =>
      refine ⟨_, rfl, hbefore.after_of_reported hjava ?_⟩
      simp only [visited, hkind, hstale]
      exact reported_scanParameters hkeep f _ method w
  · have hkind : S.kind f = .native := by simp [Setting.kind, frameKind, htext, hend, hcall]
    refine ⟨w, ?_, hbefore.after_of_reported (by simp [Setting.javaMethod, hkind]) ?_⟩
    · simp [hend, hcall, Setting.stops, hkind]
    · simpa [visited, hkind] using Reported.refl f w

/-- One turn of the loop. -/
theorem walkFrame_spec (hkeep : KeepsStack S handle) (hbelow : S.thread.stackTop < 2 ^ 32)
    (hok : FrameOk S f) (hbefore : Before S pre f w)
    (hlast : S.kind f = .last → S.kernel.word (u4 (2 ^ 32 - 4 + f.eip)) ≠ 0xfb) :
    ∃ w', (∀ fuel, S.thread.stackTop < fuel →
        walkFrame S.kernel S.domain (some handle) fuel f w = pure (w', S.stops f)) ∧
      After S pre f w w' := by
  unfold walkFrame
  by_cases htext : S.kernel.text.contains f.eip
  · obtain ⟨w', hwalk, hafter⟩ := walkNative_spec hkeep hbefore htext hlast
    refine ⟨w', fun fuel _ => ?_, hafter⟩
    simp only [htext, if_true, hwalk]
  · cases hfind : findMethodAtAddrInDomain S.domain f.eip with
    | some method =>
      have hkind : S.kind f = .java method := by simp [Setting.kind, frameKind, htext, hfind]
      obtain ⟨w', hwalk, hafter⟩ := walkJava_spec hkeep hbelow hok hbefore hkind
      refine ⟨w', fun fuel hfuel => ?_, hafter⟩
      simpa [htext, Setting.stops, hkind] using hwalk fuel hfuel
    | none =>
      have hkind : S.kind f = .strange := by simp [Setting.kind, frameKind, htext, hfind]
      refine ⟨w, fun fuel _ => by simp [htext, Setting.stops, hkind],
        hbefore.after_of_reported (by simp [Setting.javaMethod, hkind]) ?_⟩
      simpa [visited, hkind] using Reported.refl f w

/-- The check for an interrupted portal call stops the machine. -/
theorem walkFrame_panic (hkind : S.kind f = .last)
    (hword : S.kernel.word (u4 (2 ^ 32 - 4 + f.eip)) = 0xfb) (fuel : Nat) (w : Walk) :
    walkFrame S.kernel S.domain (some handle) fuel f w =
      throw (.panic "FIXME: interrupted before call in callnative_special_portal") := by
  unfold Setting.kind frameKind at hkind
  unfold walkFrame walkNative
  split at hkind
  · next htext =>
    split at hkind
    · next hend => rw [if_pos htext, if_pos hend, if_pos hword]
    · split at hkind <;> cases hkind
  · split at hkind <;> cases hkind

/-! ## Roots of a frame -/

/-- Below the end of the address space the pointer to the arguments does not wrap. -/
theorem argSlots_eq (method : MethodDesc) (base n i : Nat) (hfit : base + 4 * (i + n) < 2 ^ 32) :
    argSlots method n i (base + 4 * i) =
      ((List.range' i n).filter fun j =>
        TypeMap.isRef method.argTypeMap method.numberOfArgs j).map fun j => base + 4 * j := by
  induction n generalizing i with
  | zero => rfl
  | succ n ih =>
    have hnext : u4 (base + 4 * i + 4) = base + 4 * (i + 1) := by unfold u4; omega
    unfold argSlots
    rw [hnext, ih (i + 1) (by omega), List.range'_succ, List.filter_cons]
    split <;> rfl

theorem paramSlots_eq {method : MethodDesc} {isStatic : Bool}
    (hfit : argsEnd (f.sp + 8) isStatic method < 2 ^ 32) :
    paramSlots f isStatic method = (if isStatic then [] else [f.sp + 8]) ++
      ((List.range' 0 method.numberOfArgs).filter fun j =>
        TypeMap.isRef method.argTypeMap method.numberOfArgs j).map
          fun j => f.sp + 8 + 4 * ((if isStatic then 0 else 1) + j) := by
  unfold argsEnd at hfit
  unfold paramSlots
  cases isStatic with
  | true =>
    have hargs := argSlots_eq method (f.sp + 8) method.numberOfArgs 0 (by simp at hfit; omega)
    rw [u4_of_lt (by omega)]
    simpa using hargs
  | false =>
    have hargs := argSlots_eq method (f.sp + 12) method.numberOfArgs 0 (by simp at hfit; omega)
    have hnext : u4 (f.sp + 8 + 4) = f.sp + 12 := u4_of_lt (by simp at hfit; omega)
    rw [u4_of_lt (by simp at hfit; omega), hnext]
    simp only [Nat.mul_zero, Nat.add_zero] at hargs
    rw [if_neg Bool.false_ne_true, if_neg Bool.false_ne_true, hargs, List.singleton_append]
    congr 1
    apply List.map_congr_left
    intro j _
    simp only [Bool.false_eq_true, if_false]
    omega

theorem mem_paramSlots {method : MethodDesc} {isStatic : Bool}
    (hfit : argsEnd (f.sp + 8) isStatic method < 2 ^ 32) {a : Nat} :
    a ∈ paramSlots f isStatic method ↔ (isStatic = false ∧ a = f.sp + 8) ∨
      ∃ i < method.numberOfArgs, TypeMap.bit method.argTypeMap i ∧
        a = f.sp + 8 + 4 * ((if isStatic then 0 else 1) + i) := by
  rw [paramSlots_eq hfit, List.mem_append]
  refine or_congr ?_ ?_
  · cases isStatic <;> simp
  · simp only [List.mem_map, List.mem_filter, List.mem_range'_1, TypeMap.isRef_eq]
    constructor
    · rintro ⟨i, ⟨hi, hbit⟩, rfl⟩
      exact ⟨i, by omega, by simpa [show i < method.numberOfArgs by omega] using hbit, rfl⟩
    · rintro ⟨i, hi, hbit, rfl⟩
      exact ⟨i, ⟨by omega, by simp [hi, hbit]⟩, rfl⟩

theorem nodup_paramSlots {method : MethodDesc} {isStatic : Bool}
    (hfit : argsEnd (f.sp + 8) isStatic method < 2 ^ 32) : (paramSlots f isStatic method).Nodup := by
  rw [paramSlots_eq hfit, List.nodup_append]
  refine ⟨by cases isStatic <;> simp, ?_, ?_⟩
  · refine List.Nodup.map (fun i j hij => ?_) (List.Nodup.filter _ List.nodup_range')
    omega
  · intro a ha b hb
    cases isStatic with
    | true => simp at ha
    | false =>
      obtain ⟨j, -, rfl⟩ := List.mem_map.1 hb
      simp at ha
      simp
      omega

theorem argSlots_eq_nil (method : MethodDesc) (n i s : Nat) : argSlots method n i s = [] ↔
    ∀ j < n, TypeMap.isRef method.argTypeMap method.numberOfArgs (i + j) = false := by
  induction n generalizing i s with
  | zero => simp [argSlots]
  | succ n ih =>
    unfold argSlots
    rw [List.append_eq_nil_iff, ih, Nat.forall_lt_succ_left]
    simp [Nat.add_assoc, Nat.add_comm 1]

/-- There is nothing to scan: no self argument and no reference among the others. -/
theorem paramSlots_eq_nil (f : Frame) (isStatic : Bool) (method : MethodDesc) :
    paramSlots f isStatic method = [] ↔
      isStatic ∧ ∀ i < method.numberOfArgs, TypeMap.bit method.argTypeMap i = false := by
  cases isStatic with
  | false => simp [paramSlots]
  | true =>
    simp only [paramSlots, if_true, argSlots_eq_nil, Nat.zero_add, TypeMap.isRef_eq, true_and]
    refine forall₂_congr fun i hi => ?_
    simp [hi]

/-- Whenever the callee is a Java method, it is the one that `method` still points to. -/
theorem staleMethod_of_callee {method : MethodDesc} (h : S.callee pre = some method) :
    staleMethod S pre = some method := by
  rcases List.eq_nil_or_concat pre with rfl | ⟨pre, g, rfl⟩
  · simp [Setting.callee] at h
  · rw [List.concat_eq_append, callee_snoc] at h
    rw [List.concat_eq_append, staleMethod_snoc, h, Option.some_or]

theorem mem_visited_java {method : MethodDesc} (hkind : S.kind f = .java method) {a : Nat} :
    a ∈ visited S pre f ↔ ∃ k < (f.ebp - f.sp - 8) / 4, staleBit S (pre ++ [f]) k ∧
      S.domain.isInHeap (S.mem (f.slot k)) ∧ a = f.slot k := by
  simp only [visited, hkind, List.mem_map, List.mem_filter, List.mem_range'_1, Bool.and_eq_true]
  constructor
  · rintro ⟨k, ⟨hk, hbit, hheap⟩, rfl⟩
    exact ⟨k, by omega, hbit, hheap, rfl⟩
  · rintro ⟨k, hk, hbit, hheap, rfl⟩
    exact ⟨k, ⟨by omega, hbit, hheap⟩, rfl⟩

theorem isRoot_java {method : MethodDesc} {sym : SymbolDesc} (hkind : S.kind f = .java method)
    (hsym : method.stackmapAt f.eip = some sym) {a : Nat} :
    IsRoot S pre f a ↔ ∃ k < sym.nBits, TypeMap.bit sym.map k ∧ 4 * (k + 1) ≤ f.ebp ∧
      a = f.slot k ∧ lowest pre f ≤ a ∧ S.domain.isInHeap (S.mem a) := by
  unfold IsRoot
  rw [hkind]
  constructor
  · rintro ⟨sym', k, hsym', hk⟩
    obtain rfl := Option.some.inj (hsym.symm.trans hsym')
    exact ⟨k, hk⟩
  · rintro ⟨k, hk⟩
    exact ⟨sym, k, hsym, hk⟩

theorem isRoot_enter {isStatic stop : Bool} (hkind : S.kind f = .enter isStatic stop)
    (hbelow : S.thread.stackTop < 2 ^ 32) (hargs : ArgsBelow S pre f S.thread.stackTop) {a : Nat} :
    IsRoot S pre f a ↔ ∃ method, S.callee pre = some method ∧ a ∈ paramSlots f isStatic method := by
  unfold IsRoot
  rw [hkind]
  refine exists_congr fun method => and_congr_right fun hcallee => ?_
  have hfit := hargs method isStatic stop hcallee hkind
  rw [mem_paramSlots (by omega)]

/-- The roots of a frame lie between its stack pointer and its frame pointer. -/
theorem IsRoot.bounds (hok : FrameOk S f) (hargs : ArgsBelow S pre f f.ebp) {a : Nat}
    (hroot : IsRoot S pre f a) : f.sp ≤ a ∧ a < f.ebp := by
  unfold IsRoot at hroot
  split at hroot
  · next method hkind =>
    obtain ⟨sym, k, -, -, -, hk, rfl, hlow, -⟩ := hroot
    obtain ⟨-, hroom, -, -⟩ := hok.java method hkind
    unfold lowest at hlow
    unfold Frame.slot at *
    constructor
    · split at hlow <;> omega
    · omega
  · next isStatic stop hkind =>
    obtain ⟨method, hcallee, hcases⟩ := hroot
    have hfit := hargs method isStatic stop hcallee hkind
    unfold argsEnd at hfit
    rcases hcases with ⟨rfl, rfl⟩ | ⟨i, hi, -, rfl⟩
    · simp at hfit
      omega
    · omega
  · exact hroot.elim

theorem nodup_visited (hbelow : S.thread.stackTop < 2 ^ 32)
    (hargs : ArgsBelow S pre f S.thread.stackTop) (hroots : ∀ a ∈ visited S pre f, IsRoot S pre f a) :
    (visited S pre f).Nodup := by
  cases hkind : S.kind f with
  | java method =>
    simp only [visited, hkind]
    refine List.Nodup.map_on (fun i hi j hj hij => ?_) (List.Nodup.filter _ List.nodup_range')
    simp only [List.mem_filter, List.mem_range'_1] at hi hj
    unfold Frame.slot at hij
    omega
  | enter isStatic stop =>
    cases hcallee : S.callee pre with
    | some method =>
      have hfit := hargs method isStatic stop hcallee hkind
      simp only [visited, hkind, staleMethod_of_callee hcallee]
      exact nodup_paramSlots (by omega)
    | none =>
      have hempty : visited S pre f = [] := by
        apply List.eq_nil_iff_forall_not_mem.2
        intro a ha
        obtain ⟨method, hsome, -⟩ := (isRoot_enter hkind hbelow hargs).1 (hroots a ha)
        simp [hcallee] at hsome
      rw [hempty]
      exact List.nodup_nil
  | last => simp [visited, hkind]
  | native => simp [visited, hkind]
  | strange => simp [visited, hkind]

/-- What the walk reports are roots just if nothing stale gets in. -/
theorem contained_iff (hok : FrameOk S f) (hbelow : S.thread.stackTop < 2 ^ 32)
    (hargs : ArgsBelow S pre f S.thread.stackTop) :
    (∀ a ∈ visited S pre f, IsRoot S pre f a) ↔
      (∀ sym, S.stackmap f = some sym → ∀ k, sym.nBits ≤ k → f.sp + 8 + 4 * (k + 1) ≤ f.ebp →
        staleBit S pre k → S.domain.isInHeap (S.mem (f.slot k)) = false) ∧
      (∀ isStatic stop, S.kind f = .enter isStatic stop → S.callee pre = none →
        ∀ method, staleMethod S pre = some method →
          isStatic ∧ ∀ i < method.numberOfArgs, TypeMap.bit method.argTypeMap i = false) := by
  cases hkind : S.kind f with
  | java method =>
    obtain ⟨⟨sym, hsym, -⟩, hroom, -, halign⟩ := hok.java method hkind
    have hsp := hok.sp_aligned
    have hmap : S.stackmap f = some sym := by
      simp [Setting.stackmap, Setting.javaMethod, hkind, hsym]
    simp only [isRoot_java hkind hsym, mem_visited_java hkind, staleBit_snoc_some hmap, hmap,
      Option.some.injEq, reduceCtorEq, false_implies, implies_true, and_true]
    constructor
    · rintro hall _ rfl k hlong hk hbit
      by_contra hheap
      obtain ⟨j, hj, -, hroom', heq, -⟩ := hall (f.slot k)
        ⟨k, by omega, by simpa [Nat.not_lt.2 hlong] using hbit, by simpa using hheap, rfl⟩
      unfold Frame.slot at heq
      omega
    · rintro hclean a ⟨k, hk, hbit, hheap, rfl⟩
      have hshort : k < sym.nBits := by
        by_contra hlong
        rw [if_neg hlong] at hbit
        rw [hclean sym rfl k (by omega) (by omega) hbit] at hheap
        cases hheap
      rw [if_pos hshort] at hbit
      refine ⟨k, hshort, hbit, by omega, rfl, ?_, hheap⟩
      unfold lowest Frame.slot
      split <;> omega
  | enter isStatic stop =>
    have hmap : S.stackmap f = none := by simp [Setting.stackmap, Setting.javaMethod, hkind]
    simp only [isRoot_enter hkind hbelow hargs, hmap, reduceCtorEq, false_implies, implies_true,
      true_and, visited, hkind, FrameKind.enter.injEq, and_imp]
    constructor
    · rintro hall _ _ rfl rfl hcallee method hstale
      rw [← paramSlots_eq_nil f, List.eq_nil_iff_forall_not_mem]
      intro a ha
      obtain ⟨_, hsome, -⟩ := hall a (by simpa [hstale] using ha)
      simp [hcallee] at hsome
    · intro hclean a ha
      cases hcallee : S.callee pre with
      | some method =>
        rw [staleMethod_of_callee hcallee] at ha
        exact ⟨method, rfl, ha⟩
      | none =>
        cases hstale : staleMethod S pre with
        | none => simp [hstale] at ha
        | some method =>
          have hnil := (paramSlots_eq_nil f isStatic method).2
            (hclean isStatic stop rfl rfl hcallee method hstale)
          simp [hstale, hnil] at ha
  | last => simp [Setting.stackmap, Setting.javaMethod, visited, hkind]
  | native => simp [Setting.stackmap, Setting.javaMethod, visited, hkind]
  | strange => simp [Setting.stackmap, Setting.javaMethod, visited, hkind]

/-- Every root is reported unless it lies in the two topmost words of a Java frame. -/
theorem complete_iff (hok : FrameOk S f) (hbelow : S.thread.stackTop < 2 ^ 32)
    (hargs : ArgsBelow S pre f S.thread.stackTop) :
    (∀ a, IsRoot S pre f a → a ∈ visited S pre f) ↔
      (pre = [] → ∀ sym, S.stackmap f = some sym → ∀ k < sym.nBits, 4 * (k + 1) ≤ f.ebp →
        f.sp ≤ f.slot k → f.slot k < f.sp + 8 → TypeMap.bit sym.map k →
          S.domain.isInHeap (S.mem (f.slot k)) = false) := by
  cases hkind : S.kind f with
  | java method =>
    obtain ⟨⟨sym, hsym, -⟩, hroom, -, halign⟩ := hok.java method hkind
    have hsp := hok.sp_aligned
    have hmap : S.stackmap f = some sym := by
      simp [Setting.stackmap, Setting.javaMethod, hkind, hsym]
    simp only [isRoot_java hkind hsym, mem_visited_java hkind, staleBit_snoc_some hmap, hmap,
      Option.some.injEq]
    constructor
    · rintro hall rfl _ rfl k hk hroom' hlow hhigh hbit
      by_contra hheap
      obtain ⟨j, hj, -, -, heq⟩ := hall (f.slot k)
        ⟨k, hk, hbit, hroom', rfl, by simpa [lowest] using hlow, by simpa using hheap⟩
      unfold Frame.slot at *
      omega
    · rintro hclean a ⟨k, hk, hbit, hroom', rfl, hlow, hheap⟩
      have hinside : f.sp + 8 ≤ f.slot k := by
        unfold lowest at hlow
        split at hlow
        · next htop =>
          by_contra hhigh
          rw [hclean htop sym rfl k hk hroom' hlow (by omega) hbit] at hheap
          cases hheap
        · exact hlow
      refine ⟨k, ?_, by simp [hk, hbit], hheap, rfl⟩
      unfold Frame.slot at hinside
      omega
  | enter isStatic stop =>
    simp only [isRoot_enter hkind hbelow hargs, visited, hkind, Setting.stackmap,
      Setting.javaMethod, Option.bind_none, reduceCtorEq, false_implies, implies_true, iff_true]
    rintro a ⟨method, hcallee, ha⟩
    simpa [staleMethod_of_callee hcallee] using ha
  | last => simp [Setting.stackmap, Setting.javaMethod, IsRoot, hkind]
  | native => simp [Setting.stackmap, Setting.javaMethod, IsRoot, hkind]
  | strange => simp [Setting.stackmap, Setting.javaMethod, IsRoot, hkind]

variable (S) in
/-- The part of `FrameClean` that keeps the walk on the stack: it reports nothing but roots. -/
structure Contained (pre : List Frame) (f : Frame) : Prop where
  roots : ∀ a ∈ visited S pre f, IsRoot S pre f a
  last : S.kind f = .last → S.kernel.word (u4 (2 ^ 32 - 4 + f.eip)) ≠ 0xfb

theorem frameClean_iff (hok : FrameOk S f) (hbelow : S.thread.stackTop < 2 ^ 32)
    (hargs : ArgsBelow S pre f S.thread.stackTop) :
    FrameClean S pre f ↔
      Contained S pre f ∧ ∀ a, IsRoot S pre f a → a ∈ visited S pre f := by
  have hcontained := contained_iff hok hbelow hargs
  have hcomplete := complete_iff hok hbelow hargs
  constructor
  · intro h
    exact ⟨⟨hcontained.2 ⟨h.slots, h.args⟩, h.last⟩, hcomplete.2 h.top⟩
  · rintro ⟨⟨hroots, hlast⟩, hall⟩
    obtain ⟨hslots, hargs⟩ := hcontained.1 hroots
    exact ⟨hslots, hargs, hcomplete.1 hall, hlast⟩

/-! ## Calls are only added -/

theorem calls_visit (handleReference : Option HandleReference) (frame s : Nat) (w : Walk) :
    w.calls ⊆ (visit handleReference frame s w).calls := by
  unfold visit
  split
  · exact List.Subset.refl _
  · exact List.subset_append_left _ _

theorem calls_visit_if (handleReference : Option HandleReference) (frame s : Nat) (w : Walk)
    (b : Bool) : w.calls ⊆ (if b then visit handleReference frame s w else w).calls := by
  split
  · exact calls_visit handleReference frame s w
  · exact List.Subset.refl _

theorem calls_scanArgs (handleReference : Option HandleReference) (frame : Nat)
    (method : MethodDesc) (n i s : Nat) (w : Walk) :
    w.calls ⊆ (scanArgs handleReference frame method n i s w).calls := by
  induction n generalizing i s w with
  | zero => exact List.Subset.refl _
  | succ n ih => exact List.Subset.trans (calls_visit_if handleReference frame s w _) (ih _ _ _)

theorem calls_scanSlots {domain : DomainDesc} {handleReference : Option HandleReference}
    {sp fuel s k : Nat} (h : scanSlots domain handleReference sp fuel s k w = some w') :
    w.calls ⊆ w'.calls := by
  induction fuel generalizing s k w with
  | zero => cases h
  | succ fuel ih =>
    unfold scanSlots at h
    split at h
    · exact List.Subset.trans (calls_visit_if handleReference sp s w _) (ih h)
    · cases h
      exact List.Subset.refl _

theorem calls_walkNative {kernel : Kernel} {handleReference : Option HandleReference}
    {prevMethod : Option MethodDesc} {stop : Bool}
    (h : walkNative kernel handleReference f prevMethod w = pure (w', stop)) :
    w.calls ⊆ w'.calls := by
  unfold walkNative at h
  split at h
  · split at h
    · cases h
    · cases h
      exact List.Subset.refl _
  · split at h
    · split at h
      · cases h
        exact List.Subset.refl _
      · cases h
        unfold scanParameters
        split
        · exact calls_scanArgs _ _ _ _ _ _ _
        · exact List.Subset.trans (calls_visit _ _ _ _) (calls_scanArgs _ _ _ _ _ _ _)
    · cases h
      exact List.Subset.refl _

theorem calls_walkJava {domain : DomainDesc} {handleReference : Option HandleReference}
    {fuel : Nat} {method : MethodDesc} {stop : Bool}
    (h : walkJava domain handleReference fuel f method w = pure (w', stop)) :
    w.calls ⊆ w'.calls := by
  unfold walkJava at h
  obtain ⟨found, -, h⟩ := Exec.bind_eq_pure h
  cases found with
  | none => cases h
  | some map =>
    obtain ⟨w₁, hloop, h⟩ := Exec.bind_eq_pure h
    cases h
    generalize hscan : scanSlots domain handleReference f.sp fuel _ 0 _ = scan at hloop
    cases scan with
    | none => cases hloop
    | some w₂ =>
      cases hloop
      have hsubset := calls_scanSlots hscan
      exact hsubset

theorem calls_walkFrames {kernel : Kernel} {domain : DomainDesc} {stackTop : Nat}
    {handleReference : Option HandleReference} {fuel : Nat}
    (h : walkFrames kernel domain stackTop handleReference fuel f w = pure w') :
    w.calls ⊆ w'.calls := by
  induction fuel generalizing f w with
  | zero => cases h
  | succ fuel ih =>
    unfold walkFrames at h
    split at h
    · cases h
      exact List.Subset.refl _
    · obtain ⟨⟨w₁, stop⟩, hframe, h⟩ := Exec.bind_eq_pure h
      have hfirst : w.calls ⊆ w₁.calls := by
        unfold walkFrame at hframe
        split at hframe
        · exact calls_walkNative hframe
        · split at hframe
          · exact calls_walkJava hframe
          · cases hframe
            exact List.Subset.refl _
      simp only at h
      split at h
      · cases h
        exact hfirst
      · exact List.Subset.trans hfirst (ih h)

/-! ## The whole walk -/

/-- `P` holds of every frame, with the frames before it. -/
def AllFrom (P : List Frame → Frame → Prop) (pre : List Frame) : List Frame → Prop
  | [] => True
  | f :: rest => P pre f ∧ AllFrom P (pre ++ [f]) rest

theorem allFrom_iff {P : List Frame → Frame → Prop} {pre frames : List Frame} :
    AllFrom P pre frames ↔ ∀ p f post, frames = p ++ f :: post → P (pre ++ p) f := by
  induction frames generalizing pre with
  | nil => simp [AllFrom]
  | cons g rest ih =>
    unfold AllFrom
    rw [ih]
    constructor
    · rintro ⟨hg, hrest⟩ p f post heq
      cases p with
      | nil =>
        obtain ⟨rfl, -⟩ := List.cons.inj heq
        simpa using hg
      | cons g' p =>
        obtain ⟨rfl, htail⟩ := List.cons.inj heq
        simpa using hrest p f post htail
    · intro hall
      refine ⟨by simpa using hall [] g rest rfl, fun p f post heq => ?_⟩
      simpa using hall (g :: p) f post (by rw [heq, List.cons_append])

variable (S) in
/-- The calls for the frames after `pre`. -/
def callsFrom (pre : List Frame) : List Frame → List Call
  | [] => []
  | f :: rest => (visited S pre f).map (Call.mk f.sp) ++ callsFrom (pre ++ [f]) rest

/-- What a stack says of its first frame alone. -/
theorem IsStackFrom.first {rest : List Frame} (hbelow : IsStackFrom S pre (f :: rest)) :
    FrameOk S f ∧ ArgsBelow S pre f S.thread.stackTop := by
  cases rest with
  | nil => exact ⟨hbelow.1, hbelow.2.1⟩
  | cons g rest =>
    obtain ⟨hok, hargs, -, hlink, -⟩ := hbelow
    refine ⟨hok, fun method isStatic stop hcallee hkind => ?_⟩
    have hfit := hargs method isStatic stop hcallee hkind
    have hinside := hlink.inside
    omega

theorem IsStackFrom.all {frames : List Frame} (h : IsStackFrom S pre frames) :
    AllFrom (fun p f => FrameOk S f ∧ ArgsBelow S p f S.thread.stackTop) pre frames := by
  induction frames generalizing pre with
  | nil => trivial
  | cons f rest ih =>
    refine ⟨h.first, ?_⟩
    cases rest with
    | nil => trivial
    | cons g rest => exact ih h.2.2.2.2

/-- Going outwards the stack pointers grow. -/
theorem IsStackFrom.sp_lt {rest : List Frame} (h : IsStackFrom S pre (f :: rest)) :
    ∀ g ∈ rest, f.sp < g.sp := by
  induction rest generalizing pre f with
  | nil => simp
  | cons g rest ih =>
    obtain ⟨-, -, -, hlink, hrest⟩ := h
    have hfg : f.sp < g.sp := by rw [hlink.sp_eq]; exact hlink.sp_lt
    intro g' hg'
    rcases List.mem_cons.1 hg' with rfl | hmem
    · exact hfg
    · exact Nat.lt_trans hfg (ih hrest g' hmem)

/-- Reporting roots only, the walk reaches the next frame with the rest of the stack intact. -/
theorem After.next {g : Frame} (hbefore : Before S pre f w) (hafter : After S pre f w w')
    (hok : FrameOk S f) (hargs : ArgsBelow S pre f f.ebp) (hlink : Linked S f g)
    (hroots : ∀ a ∈ visited S pre f, IsRoot S pre f a) : Before S (pre ++ [f]) g w' where
  lo := by
    have hlt := hlink.sp_lt
    have hlo := hbefore.lo
    rw [hlink.sp_eq]
    omega
  method := hafter.method
  stackmap := hafter.stackmap
  mem a hlo hhi := by
    have hlt := hlink.sp_lt
    rw [hlink.sp_eq] at hlo
    refine hafter.mem a (by omega) hhi fun hmem => ?_
    have hbound := ((hroots a hmem).bounds hok hargs).2
    omega

/-- The registers that the loop loads next are those of the next frame. -/
theorem Before.registers {g : Frame} (hbefore : Before S (pre ++ [f]) g w) (hlink : Linked S f g)
    (hbelow : S.thread.stackTop < 2 ^ 32) :
    (⟨f.ebp, w.mem f.ebp, w.mem (u4 (f.ebp + 4))⟩ : Frame) = g := by
  have hsp := hlink.sp_eq
  have hinside := hlink.inside
  rw [u4_of_lt (by omega), hbefore.mem f.ebp (by omega) (by omega),
    hbefore.mem (f.ebp + 4) (by omega) (by omega), ← hlink.ebp_eq, ← hlink.eip_eq, ← hsp]

/-- One turn of the loop inside the stack. -/
theorem walkFrames_succ (hok : FrameOk S f) {fuel : Nat} {stop : Bool}
    (hframe : walkFrame S.kernel S.domain (some handle) fuel f w = pure (w', stop)) :
    walkFrames S.kernel S.domain S.thread.stackTop (some handle) (fuel + 1) f w =
      if stop ∨ f.ebp = 0 then pure w'
      else walkFrames S.kernel S.domain S.thread.stackTop (some handle) fuel
        ⟨f.ebp, w'.mem f.ebp, w'.mem (u4 (f.ebp + 4))⟩ w' := by
  have hin : ¬(f.sp = 0 ∨ S.thread.stackTop ≤ f.sp) := by
    have hpos := hok.sp_pos
    have hlt := hok.sp_lt
    omega
  rw [walkFrames, if_neg hin, hframe, pure_bind]

theorem walkFrames_of_contained (hkeep : KeepsStack S handle)
    (hbelow : S.thread.stackTop < 2 ^ 32) {rest : List Frame}
    (hstack : IsStackFrom S pre (f :: rest)) (hbefore : Before S pre f w)
    (hall : AllFrom (Contained S) pre (f :: rest)) :
    ∃ w', (∀ fuel, S.thread.stackTop + (f :: rest).length < fuel →
        walkFrames S.kernel S.domain S.thread.stackTop (some handle) fuel f w = pure w') ∧
      w'.calls = w.calls ++ callsFrom S pre (f :: rest) := by
  induction rest generalizing pre f w with
  | nil =>
    obtain ⟨hok, -, hend⟩ := hstack
    obtain ⟨w', hwalk, hafter⟩ := walkFrame_spec hkeep hbelow hok hbefore hall.1.last
    refine ⟨w', fun fuel hfuel => ?_, by simp [callsFrom, hafter.calls]⟩
    obtain ⟨fuel, rfl⟩ : ∃ m, fuel = m + 2 := ⟨fuel - 2, by simp at hfuel; omega⟩
    rw [walkFrames_succ hok (hwalk (fuel + 1) (by simp at hfuel; omega))]
    split
    · rfl
    · next hgo =>
      rw [walkFrames, if_pos]
      rcases hend with hstop | hzero | hover
      · exact absurd (Or.inl hstop) hgo
      · exact absurd (Or.inr hzero) hgo
      · exact Or.inr hover
  | cons g rest ih =>
    obtain ⟨hok, hargs, hstop, hlink, hrest⟩ := hstack
    obtain ⟨hcontained, hallrest⟩ := hall
    obtain ⟨w₁, hwalk, hafter⟩ := walkFrame_spec hkeep hbelow hok hbefore hcontained.last
    have hbefore' := hafter.next hbefore hok hargs hlink hcontained.roots
    obtain ⟨w', hloop, hcalls⟩ := ih hrest hbefore' hallrest
    refine ⟨w', fun fuel hfuel => ?_, ?_⟩
    · obtain ⟨fuel, rfl⟩ : ∃ m, fuel = m + 1 := ⟨fuel - 1, by omega⟩
      have hebp : f.ebp ≠ 0 := by have := hlink.sp_lt; omega
      rw [List.length_cons] at hfuel
      rw [walkFrames_succ hok (hwalk fuel (by omega)), if_neg (by simp [hstop, hebp]),
        hbefore'.registers hlink hbelow, hloop fuel (by omega)]
    · rw [hcalls, hafter.calls, callsFrom.eq_2 S pre, List.append_assoc]

/-- A walk that comes back has passed its first frame, and what it reported there it has reported
for good, whatever happened afterwards. -/
theorem contained_first (hkeep : KeepsStack S handle) (hbelow : S.thread.stackTop < 2 ^ 32)
    (hok : FrameOk S f) (hbefore : Before S pre f w)
    (hreturns : Exec.Returns
      (walkFrames S.kernel S.domain S.thread.stackTop (some handle) · f w) w')
    (hroots : ∀ a, ⟨f.sp, a⟩ ∈ w'.calls → IsRoot S pre f a) : Contained S pre f := by
  obtain ⟨n, hn⟩ := hreturns
  have hin : ¬(f.sp = 0 ∨ S.thread.stackTop ≤ f.sp) := by
    have hpos := hok.sp_pos
    have hlt := hok.sp_lt
    omega
  have hlast : S.kind f = .last → S.kernel.word (u4 (2 ^ 32 - 4 + f.eip)) ≠ 0xfb := by
    intro hkind hword
    have hrun := hn (n + 1) (by omega)
    simp only [walkFrames, if_neg hin, walkFrame_panic hkind hword n w] at hrun
    cases hrun
  refine ⟨fun a ha => hroots a ?_, hlast⟩
  obtain ⟨w₁, hwalk, hafter⟩ := walkFrame_spec hkeep hbelow hok hbefore hlast
  have hcall : ⟨f.sp, a⟩ ∈ w₁.calls := by
    rw [hafter.calls]
    exact List.mem_append_right _ (List.mem_map_of_mem ha)
  have hrun := hn (max n S.thread.stackTop + 1 + 1) (by omega)
  simp only at hrun
  rw [walkFrames_succ hok (hwalk _ (by omega))] at hrun
  split at hrun
  · cases hrun
    exact hcall
  · exact calls_walkFrames hrun hcall

/-- A walk that has reported nothing but roots was on the stack all the way: the first frame to go
wrong would have left its call in the list. -/
theorem contained_of_walkFrames (hkeep : KeepsStack S handle)
    (hbelow : S.thread.stackTop < 2 ^ 32) {rest : List Frame}
    (hstack : IsStackFrom S pre (f :: rest)) (hbefore : Before S pre f w)
    (hreturns : Exec.Returns
      (walkFrames S.kernel S.domain S.thread.stackTop (some handle) · f w) w')
    (hroots : AllFrom (fun p g => ∀ a, ⟨g.sp, a⟩ ∈ w'.calls → IsRoot S p g a) pre (f :: rest)) :
    AllFrom (Contained S) pre (f :: rest) := by
  induction rest generalizing pre f w with
  | nil => exact ⟨contained_first hkeep hbelow hstack.1 hbefore hreturns hroots.1, trivial⟩
  | cons g rest ih =>
    obtain ⟨hok, hargs, hstop, hlink, hrest⟩ := hstack
    have hfirst := contained_first hkeep hbelow hok hbefore hreturns hroots.1
    obtain ⟨w₁, hwalk, hafter⟩ := walkFrame_spec hkeep hbelow hok hbefore hfirst.last
    have hbefore' := hafter.next hbefore hok hargs hlink hfirst.roots
    refine ⟨hfirst, ih hrest hbefore' ?_ hroots.2⟩
    obtain ⟨n, hn⟩ := hreturns
    refine ⟨max n (S.thread.stackTop + 1), fun fuel hfuel => ?_⟩
    have hebp : f.ebp ≠ 0 := by have := hlink.sp_lt; omega
    have hrun := hn (fuel + 1) (by omega)
    simp only at hrun
    rwa [walkFrames_succ hok (hwalk fuel (by omega)), if_neg (by simp [hstop, hebp]),
      hbefore'.registers hlink hbelow] at hrun

/-! ## Counting the calls -/

theorem mem_callsFrom {frames : List Frame} {c : Call} : c ∈ callsFrom S pre frames ↔
    ∃ p f post, frames = p ++ f :: post ∧ c.frame = f.sp ∧ c.slot ∈ visited S (pre ++ p) f := by
  induction frames generalizing pre with
  | nil => simp [callsFrom]
  | cons g rest ih =>
    unfold callsFrom
    rw [List.mem_append, ih, List.mem_map]
    constructor
    · rintro (⟨a, ha, rfl⟩ | ⟨p, f, post, rfl, hc⟩)
      · exact ⟨[], g, rest, rfl, rfl, by simpa using ha⟩
      · exact ⟨g :: p, f, post, rfl, by simpa using hc⟩
    · rintro ⟨p, f, post, heq, hframe, hslot⟩
      cases p with
      | nil =>
        obtain ⟨rfl, -⟩ := List.cons.inj heq
        exact Or.inl ⟨c.slot, by simpa using hslot, by rw [← hframe]⟩
      | cons g' p =>
        obtain ⟨rfl, htail⟩ := List.cons.inj heq
        exact Or.inr ⟨p, f, post, htail, hframe, by simpa using hslot⟩

/-- A frame is known by its stack pointer. -/
theorem IsStackFrom.split_unique {frames p p' post post' : List Frame} {g : Frame}
    (hstack : IsStackFrom S pre frames) (h : frames = p ++ f :: post)
    (h' : frames = p' ++ g :: post') (hsp : f.sp = g.sp) : p = p' ∧ f = g := by
  induction frames generalizing pre p p' with
  | nil => simp at h
  | cons e rest ih =>
    have hlt := hstack.sp_lt
    have hnext : ∀ {q : List Frame} {x : Frame} {t : List Frame}, rest = q ++ x :: t →
        e.sp < x.sp := fun {q x t} hq => hlt x (by simp [hq])
    cases p with
    | nil =>
      obtain ⟨rfl, -⟩ := List.cons.inj h
      cases p' with
      | nil =>
        obtain ⟨rfl, -⟩ := List.cons.inj h'
        exact ⟨rfl, rfl⟩
      | cons e' p' =>
        have := hnext (List.cons.inj h').2
        omega
    | cons e₁ p =>
      obtain ⟨rfl, hp⟩ := List.cons.inj h
      cases p' with
      | nil =>
        obtain ⟨rfl, -⟩ := List.cons.inj h'
        have := hnext hp
        omega
      | cons e₂ p' =>
        obtain ⟨rfl, hp'⟩ := List.cons.inj h'
        cases rest with
        | nil => simp at hp
        | cons e₃ rest =>
          obtain ⟨hpp, hfg⟩ := ih hstack.2.2.2.2 hp hp'
          exact ⟨by rw [hpp], hfg⟩

theorem nodup_callsFrom (hbelow : S.thread.stackTop < 2 ^ 32) {frames : List Frame}
    (hstack : IsStackFrom S pre frames) (hall : AllFrom (Contained S) pre frames) :
    (callsFrom S pre frames).Nodup := by
  induction frames generalizing pre with
  | nil => exact List.nodup_nil
  | cons f rest ih =>
    have hfirst := nodup_visited hbelow hstack.first.2 hall.1.roots
    have hlt := hstack.sp_lt
    unfold callsFrom
    refine List.nodup_append.2 ⟨hfirst.map fun a b hab => (Call.mk.inj hab).2, ?_, ?_⟩
    · cases rest with
      | nil => exact List.nodup_nil
      | cons g rest => exact ih hstack.2.2.2.2 hall.2
    · intro c hc c' hc' heq
      obtain ⟨a, -, rfl⟩ := List.mem_map.1 hc
      obtain ⟨p, g, post, hrest, hframe, -⟩ := mem_callsFrom.1 hc'
      have := hlt g (by simp [hrest])
      rw [← heq] at hframe
      simp only at hframe
      omega

/-! ## Exactness of the walk -/

variable (S) in
theorem before_start :
    Before S [] S.thread.context { S.locals with mem := S.mem, calls := [] } where
  lo := Nat.le_refl _
  method := rfl
  stackmap := rfl
  mem _ _ _ := rfl

theorem IsStack.eq_cons {frames : List Frame} (h : IsStack S frames) :
    ∃ rest, frames = S.thread.context :: rest := by
  have hhead := h.head
  cases frames with
  | nil => cases hhead
  | cons f rest => exact ⟨rest, by rw [Option.some.inj hhead]⟩

theorem returns_walkStack (hkeep : KeepsStack S handle) {frames : List Frame}
    (hstack : IsStack S frames) (hall : AllFrom (Contained S) [] frames) :
    ∃ w, Exec.Returns (walkStack S.kernel S.domain S.thread (some handle) S.locals S.mem) w ∧
      w.calls = callsFrom S [] frames := by
  obtain ⟨rest, rfl⟩ := hstack.eq_cons
  obtain ⟨w, hwalk, hcalls⟩ := walkFrames_of_contained hkeep hstack.below hstack.chain
    (before_start S) hall
  exact ⟨w, ⟨_, fun fuel hfuel => hwalk fuel hfuel⟩, by simpa using hcalls⟩

/-- A walk that reports nothing but roots stays on the stack. -/
theorem contained_of_exact (hkeep : KeepsStack S handle) {frames : List Frame}
    (hstack : IsStack S frames) (hexact : Exact S handle frames) :
    AllFrom (Contained S) [] frames := by
  obtain ⟨w, hreturns, hreport⟩ := hexact
  have hroots : AllFrom (fun p g => ∀ a, ⟨g.sp, a⟩ ∈ w.calls → IsRoot S p g a) [] frames := by
    refine allFrom_iff.2 fun p g post heq a hcall => ?_
    obtain ⟨p', g', post', heq', hsp, hroot⟩ := hreport.noOther _ hcall
    obtain ⟨rfl, rfl⟩ := hstack.chain.split_unique heq heq' hsp
    exact hroot
  obtain ⟨rest, rfl⟩ := hstack.eq_cons
  exact contained_of_walkFrames hkeep hstack.below hstack.chain (before_start S) hreturns hroots

/-- **The walk reports the roots of a stack exactly if every frame is clean.** -/
theorem exact_iff_frameClean (S : Setting) (handle : HandleReference) (hkeep : KeepsStack S handle)
    (frames : List Frame) (hstack : IsStack S frames) :
    Exact S handle frames ↔ ∀ pre f post, frames = pre ++ f :: post → FrameClean S pre f := by
  have hframes := allFrom_iff.1 hstack.chain.all
  have hclean : (∀ pre f post, frames = pre ++ f :: post → FrameClean S pre f) ↔
      AllFrom (Contained S) [] frames ∧
        ∀ pre f post, frames = pre ++ f :: post → ∀ a, IsRoot S pre f a → a ∈ visited S pre f := by
    rw [allFrom_iff, ← forall_and]
    refine forall_congr' fun pre => ?_
    simp only [← forall_and]
    refine forall₃_congr fun f post heq => ?_
    exact frameClean_iff (hframes pre f post heq).1 hstack.below (hframes pre f post heq).2
  rw [hclean]
  constructor
  · intro hexact
    -- With nothing but roots reported the calls are known, so a root that is reported is visited.
    have hcontained := contained_of_exact hkeep hstack hexact
    obtain ⟨w, hreturns, hreport⟩ := hexact
    refine ⟨hcontained, fun pre f post heq a hroot => ?_⟩
    obtain ⟨w', hreturns', hcalls⟩ := returns_walkStack hkeep hstack hcontained
    have hone := hreport.once pre f post heq a hroot
    rw [hreturns.unique hreturns', hcalls] at hone
    have hcall : ⟨f.sp, a⟩ ∈ callsFrom S [] frames := List.count_pos_iff.1 (by omega)
    obtain ⟨p, g, post', heq', hsp, hslot⟩ := mem_callsFrom.1 hcall
    obtain ⟨rfl, rfl⟩ := hstack.chain.split_unique heq heq' hsp
    exact hslot
  · rintro ⟨hcontained, hcomplete⟩
    obtain ⟨w, hreturns, hcalls⟩ := returns_walkStack hkeep hstack hcontained
    refine ⟨w, hreturns, fun pre f post heq a hroot => ?_, fun c hc => ?_⟩
    · rw [hcalls]
      refine List.count_eq_one_of_mem (nodup_callsFrom hstack.below hstack.chain hcontained) ?_
      exact mem_callsFrom.2 ⟨pre, f, post, heq, rfl, hcomplete pre f post heq a hroot⟩
    · rw [hcalls] at hc
      obtain ⟨p, f, post, heq, hframe, hslot⟩ := mem_callsFrom.1 hc
      exact ⟨p, f, post, heq, hframe, (allFrom_iff.1 hcontained p f post heq).roots _ hslot⟩

/-! ## Two stacks

One recursive method, stopped at two call sites: the stack map of the first covers two slots, that
of the second only one. -/

/-- Memory that is zero but for the words listed. -/
def words (l : List (Nat × Nat)) (a : Nat) : Nat := (l.lookup a).getD 0

def twoSites : MethodDesc where
  code := 3000
  numberOfCodeBytes := 200
  symbols := [{ type := 16, immediateNCIndex := 10, immediateNCIndexPre := 8, nBits := 2, map := [2] },
    { type := 16, immediateNCIndex := 110, immediateNCIndexPre := 108, nBits := 1, map := [0] }]
  numberOfArgs := 1
  argTypeMap := [1]

/-- A stack from 4000 to 4100 under a heap from 8000 to 10000; the locals happen to be zero. -/
def twoSitesOn (mem : Nat → Nat) : Setting where
  kernel :=
    { text := ⟨1000, 2000⟩
      threadExit := ⟨1000, 1099⟩
      callnativeStatic := ⟨1100, 1199⟩
      callnativeSpecial := ⟨1200, 1299⟩
      callnativeSpecialPortal := ⟨1300, 1399⟩
      irqExit := ⟨1400, 1409⟩
      receivePortalcall := ⟨1410, 1419⟩
      returnFromJava0 := ⟨1420, 1429⟩
      returnFromJava1 := ⟨1424, 1429⟩
      returnFromJava2 := ⟨1428, 1429⟩
      neverReturn := ⟨1430, 1439⟩
      word := fun _ => 0 }
  domain := { libs := [⟨[⟨[twoSites]⟩]⟩], isInHeap := fun a => 8000 ≤ a && a < 10000 }
  thread := { context := ⟨4000, 4016, 1500⟩, stackTop := 4100 }
  mem := mem
  locals := { method := none, stackmap := fun _ => false, numSlots := 0 }

/-- Native code, called at the first site, called at the second site, called from C. -/
def twoSitesFrames : List Frame :=
  [⟨4000, 4016, 1500⟩, ⟨4016, 4036, 3010⟩, ⟨4036, 4056, 3110⟩, ⟨4056, 4080, 1110⟩, ⟨4080, 0, 1010⟩]

/-- The linkage of these frames, a reference at 4028 and another one as the argument at 4064. -/
def twoSitesStack : List (Nat × Nat) :=
  [(4016, 4036), (4020, 3010), (4028, 8100), (4036, 4056), (4040, 3110), (4056, 4080), (4060, 1110),
    (4064, 8200), (4084, 1010)]

/-- The object moves by 4000. -/
def moveBy : HandleReference := fun mem s a => if a = s then mem s + 4000 else mem a

theorem keepsStack_moveBy (S : Setting) : KeepsStack S moveBy := fun _ _ _ _ _ hne => if_neg hne

theorem frameOk_of_javaMethod_none (hjava : S.javaMethod f = none) (hpos : f.sp ≠ 0)
    (hlt : f.sp < S.thread.stackTop) (halign : f.sp % 4 = 0) : FrameOk S f := by
  refine ⟨hpos, hlt, halign, fun method hkind => ?_⟩
  simp [Setting.javaMethod, hkind] at hjava

theorem argsBelow_of_callee_none (hcallee : S.callee pre = none) (limit : Nat) :
    ArgsBelow S pre f limit := by
  intro method isStatic stop hsome
  rw [hcallee] at hsome
  cases hsome

theorem argsBelow_of_java {method : MethodDesc} (hkind : S.kind f = .java method) (limit : Nat) :
    ArgsBelow S pre f limit := by
  intro _ isStatic stop _ henter
  rw [hkind] at henter
  cases henter

/-- The word at 4048 has no part in the shape of the stack. -/
theorem isStack_twoSites (n : Nat) :
    IsStack (twoSitesOn (words ((4048, n) :: twoSitesStack))) twoSitesFrames where
  head := rfl
  below := show 4100 < 2 ^ 32 by decide
  chain := by
    refine ⟨frameOk_of_javaMethod_none rfl (by decide) (show 4000 < 4100 by decide) rfl,
      argsBelow_of_callee_none rfl _, rfl, ⟨rfl, by decide, show 4016 + 8 ≤ 4100 by decide, rfl, rfl⟩,
      ⟨by decide, show 4016 < 4100 by decide, rfl, ?_⟩, argsBelow_of_callee_none rfl _, rfl,
      ⟨rfl, by decide, show 4036 + 8 ≤ 4100 by decide, rfl, rfl⟩,
      ⟨by decide, show 4036 < 4100 by decide, rfl, ?_⟩, argsBelow_of_java (show _ = FrameKind.java twoSites from rfl) _,
      rfl, ⟨rfl, by decide, show 4056 + 8 ≤ 4100 by decide, rfl, rfl⟩,
      frameOk_of_javaMethod_none rfl (by decide) (show 4056 < 4100 by decide) rfl, ?_, rfl,
      ⟨rfl, by decide, show 4080 + 8 ≤ 4100 by decide, rfl, rfl⟩,
      frameOk_of_javaMethod_none rfl (by decide) (show 4080 < 4100 by decide) rfl,
      argsBelow_of_callee_none rfl _, Or.inl rfl⟩
    · rintro method hkind
      obtain rfl : twoSites = method := FrameKind.java.inj hkind
      exact ⟨⟨_, rfl, by decide⟩, by decide, show 4036 ≤ 4100 by decide, rfl⟩
    · rintro method hkind
      obtain rfl : twoSites = method := FrameKind.java.inj hkind
      exact ⟨⟨_, rfl, by decide⟩, by decide, show 4056 ≤ 4100 by decide, rfl⟩
    · rintro method isStatic stop hcallee hkind
      obtain rfl : twoSites = method := Option.some.inj hcallee
      obtain ⟨rfl, -⟩ := FrameKind.enter.inj (show FrameKind.enter true false = _ from hkind)
      exact show 4056 + 8 + 4 * (0 + 1) ≤ 4080 by decide

theorem exact_twoSites :
    KeepsStack (twoSitesOn (words ((4048, 5) :: twoSitesStack))) moveBy ∧
      IsStack (twoSitesOn (words ((4048, 5) :: twoSitesStack))) twoSitesFrames ∧
      Exact (twoSitesOn (words ((4048, 5) :: twoSitesStack))) moveBy twoSitesFrames := by
  refine ⟨keepsStack_moveBy _, isStack_twoSites 5, ?_⟩
  refine (exact_iff_frameClean _ _ (keepsStack_moveBy _) _ (isStack_twoSites 5)).2 ?_
  refine allFrom_iff.1 (show AllFrom (FrameClean _) [] twoSitesFrames from ⟨?_, ?_, ?_, ?_, ?_, trivial⟩)
  · exact ⟨nofun, nofun, nofun, nofun⟩
  · refine ⟨fun sym hsym k hlong hk hbit => ?_, nofun, nofun, nofun⟩
    obtain rfl := Option.some.inj hsym
    obtain rfl : k = 2 := by
      change 2 ≤ k at hlong
      change 4016 + 8 + 4 * (k + 1) ≤ 4036 at hk
      omega
    exact absurd hbit (by decide)
  · refine ⟨fun sym hsym k hlong hk hbit => ?_, nofun, nofun, nofun⟩
    obtain rfl := Option.some.inj hsym
    obtain rfl | rfl : k = 1 ∨ k = 2 := by
      change 1 ≤ k at hlong
      change 4036 + 8 + 4 * (k + 1) ≤ 4056 at hk
      omega
    · rfl
    · exact absurd hbit (by decide)
  · exact ⟨nofun, nofun, nofun, nofun⟩
  · exact ⟨nofun, nofun, nofun, fun _ => show 0 ≠ 0xfb by decide⟩

/-- An integer at 4048 that looks like a heap address: the second frame has left its bit for slot 1
in `stackmap`, the map of the third frame ends before that slot, and the walk reports it. -/
theorem not_exact_twoSites :
    KeepsStack (twoSitesOn (words ((4048, 9000) :: twoSitesStack))) moveBy ∧
      IsStack (twoSitesOn (words ((4048, 9000) :: twoSitesStack))) twoSitesFrames ∧
      ¬Exact (twoSitesOn (words ((4048, 9000) :: twoSitesStack))) moveBy twoSitesFrames := by
  refine ⟨keepsStack_moveBy _, isStack_twoSites 9000, fun hexact => ?_⟩
  obtain ⟨-, -, hthird, -⟩ := contained_of_exact (keepsStack_moveBy _) (isStack_twoSites 9000) hexact
  have hroot := hthird.roots 4048 (by decide)
  obtain ⟨sym, k, hsym, hk, -, -, hslot, -⟩ := hroot
  obtain rfl := Option.some.inj hsym
  obtain rfl : k = 0 := by
    change k < 1 at hk
    omega
  exact absurd hslot (by decide)

end JxCore.Stack
