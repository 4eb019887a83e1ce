import JxCore.Lib.ByteFill
import JxCore.Memory.HeapWalk

/-!
# The bump pointer of the copying collector (`Memory/gc_new.c`, `Memory/gc_alloc.c`)

`gc_new_allocDataInDomain` with the addresses as they are: 32 bits that wrap. The size of an object is
a number of words, and three places multiply it by four: the new top of the heap, its comparison with
the border and the `memset`. None of them looks whether the product fits, so a request of almost the
whole address space can come out as a request of nothing at all.
-/

namespace JxCore.GcNewAlloc

open Lib Access
open GcNew (Kind)
open HeapWalk (heapReserve)

/-! ## The heap -/

/-- What the allocation sees of a domain: the memory, the heap's borders and the object handles. -/
structure Heap where
  mem : Address → BitVec 8
  heap : Address
  heapTop : Address
  heapBorder : Address
  registeredObjects : Nat → Address

/-- The calling thread, whether `gc.gcThread` is there, and what a collection makes of the heap. -/
structure Context where
  isInterruptHandlerThread : Bool
  gcThread : Bool
  gc : Heap → Heap

/-- A routine keeps what it did before it stopped. -/
abbrev Alloc := EStateM Stop Heap

/-- `MAX_REGISTERED`. -/
def maxRegistered : Nat := 50

/-- `memset(dst, 0, n)`. -/
def memset (dst n : Address) (mem : Address → BitVec 8) : Address → BitVec 8 :=
  fun x => if (x - dst).toNat < n.toNat then 0 else mem x

def setWord (a v : BitVec 32) (mem : Address → BitVec 8) : Address → BitVec 8 :=
  fun x => if (x - a).toNat < 4 then byteOf v (x - a).toNat else mem x

/-- Words that follow each other. -/
def setWords (a : Address) : List (BitVec 32) → (Address → BitVec 8) → Address → BitVec 8
  | [], mem => mem
  | v :: l, mem => setWords (a + 4) l (setWord a v mem)

/-- `nonatomic_registerObject`. -/
def registerObject (o : Address) : Alloc Nat := do
  let h ← get
  match (List.range maxRegistered).find? fun i => h.registeredObjects i = 0 with
  | some i =>
    set { h with registeredObjects := Function.update h.registeredObjects i o }
    return i
  | none => throw (.panic "maximal number of registered objects reached for this domain")

/-- `nonatomic_unregisterObject`. -/
def unregisterObject (handle : Nat) : Alloc Address := do
  let h ← get
  set { h with registeredObjects := Function.update h.registeredObjects handle 0 }
  return h.registeredObjects handle

/-! ## Allocation -/

/-- From `do_alloc` on. The top is moved before anything can fail. -/
def doAlloc (objSize flags : BitVec 32) (nextObj : Address) : Alloc Nat := do
  let h ← get
  let data := h.heapTop
  set { h with heapTop := nextObj }
  if data = 0 then throw (.assertion "data != NULL")
  let mem := memset data (objSize * 4) h.mem
  let mem := setWords data [flags, BitVec.ofNat 32 GcNew.magicObject] mem
  set { h with heapTop := nextObj, mem := mem }
  registerObject (data + 8)

/-- From `try_alloc` on; `full` is what happens if there is no room and no interrupt is handled. -/
def tryAlloc (c : Context) (objSize flags : BitVec 32) (full : Alloc Nat) : Alloc Nat := do
  let h ← get
  let nextObj := h.heapTop + 4 * objSize
  if (h.heapBorder - 4 * BitVec.ofNat 32 heapReserve).ult nextObj then
    if c.isInterruptHandlerThread then
      if h.heapBorder.ult nextObj then throw (.panic "no GC in interrupt handler possible!")
      else doAlloc objSize flags nextObj
    else full
  else doAlloc objSize flags nextObj

/-- `gc_new_allocDataInDomain`: a second attempt follows a collection, and no third. -/
def allocDataInDomain (c : Context) (objSize flags : BitVec 32) : Alloc Nat :=
  tryAlloc c objSize flags do
    if c.gcThread then
      modify c.gc
      tryAlloc c objSize flags (throw (.throw .runtimeException ""))
    else throw (.panic "GC but no GC thread availabke")

/-- What the routines of `gc_alloc.c` have in common: the handle is given back, and the first words
of the object are set. -/
def allocFields (c : Context) (objSize flags : BitVec 32) (fields : List (BitVec 32)) :
    Alloc Address := do
  let handle ← allocDataInDomain c objSize flags
  let obj ← unregisterObject handle
  modify fun h => { h with mem := setWords obj fields h.mem }
  return obj

/-- `OBJSIZE_ARRAY_32BIT`. -/
def objsizeArray32bit (size : BitVec 32) : BitVec 32 := size + (1 + 1 + 1 + 1 + 1)

/-- `OBJSIZE_OBJECT`. -/
def objsizeObject (size : BitVec 32) : BitVec 32 := size + 1 + 1 + 1 + 1

/-- `allocByteArray`, with the array class that it has found. -/
def allocByteArray (c : Context) (vtable arrayClass size : BitVec 32) : Alloc Address :=
  allocFields c (objsizeArray32bit size) (BitVec.ofNat 32 Kind.array.flags) [vtable, arrayClass, size]

/-- `allocArrayInDomain`. -/
def allocArrayInDomain (c : Context) (vtable arrayClass size : BitVec 32) : Alloc Address :=
  allocByteArray c vtable arrayClass size

/-- `specialAllocArray`. -/
def specialAllocArray (c : Context) (vtable arrayClass size : BitVec 32) : Alloc Address := do
  if size.slt 0 then throw (.throw .runtimeException "")
  allocArrayInDomain c vtable arrayClass size

/-- `nonatomic_allocObjectInDomain`. -/
def allocObjectInDomain (c : Context) (vtable instanceSize : BitVec 32) : Alloc Address :=
  allocFields c (objsizeObject instanceSize) (BitVec.ofNat 32 Kind.object.flags) [vtable]

/-! ## Stores -/

section Stores

variable {a : Address} {n : Nat}

theorem filled_memset (dst n : Address) (mem : Address → BitVec 8) :
    Filled dst n.toNat (fun _ => 0) mem (memset dst n mem) where
  target := by
    intro i hi
    exact if_pos (by rw [offset_toNat n.isLt.le hi]; exact hi)
  other := by
    intro x hx
    exact if_neg fun hin => hx (run_of_offset x hin)

theorem filled_setWord (a v : BitVec 32) (mem : Address → BitVec 8) :
    Filled a 4 (byteOf v) mem (setWord a v mem) where
  target := by
    intro i hi
    have hoff := offset_toNat (a := a) (n := 4) (by decide) hi
    unfold setWord
    rw [hoff, if_pos hi]
  other := by
    intro x hx
    exact if_neg fun hin => hx (run_of_offset x hin)

theorem filled_setWords {l : List (BitVec 32)} (hlen : 4 * l.length ≤ 2 ^ 32)
    (mem : Address → BitVec 8) :
    Filled a (4 * l.length) (fun i => byteOf (l.getD (i / 4) 0) (i % 4)) mem (setWords a l mem) := by
  induction l generalizing a mem with
  | nil => exact filled_zero ..
  | cons v l ih =>
    rw [List.length_cons, Nat.mul_add, Nat.add_comm] at hlen ⊢
    refine ((filled_setWord a v mem).congr ?_).append ((ih (by omega) _).congr ?_) hlen
    · intro i hi
      rw [Nat.div_eq_of_lt hi, Nat.mod_eq_of_lt hi]
      rfl
    · intro i hi
      rw [Nat.add_mod_left, Nat.add_div_left i (by decide)]
      rfl

theorem setWords_append (a : Address) (l l' : List (BitVec 32)) (mem : Address → BitVec 8) :
    setWords a (l ++ l') mem = setWords (a + BitVec.ofNat 32 (4 * l.length)) l' (setWords a l mem) := by
  induction l generalizing a mem with
  | nil => simp [setWords]
  | cons v l ih =>
    show setWords (a + 4) (l ++ l') _ = _
    rw [ih, BitVec.add_assoc, List.length_cons, Nat.mul_add, Nat.add_comm, BitVec.ofNat_add]
    rfl

end Stores

/-! ## Requests -/

inductive Routine where
  | specialAllocArray
  | allocArrayInDomain
  | allocByteArray

/-- Everything that is allocated: an array of `size` elements, an object of a class, and any object
for which the size of its block is known, header included. -/
inductive Request where
  | array (routine : Routine) (vtable arrayClass : BitVec 32) (size : Nat) (h : size < 2 ^ 31)
  | object (vtable : BitVec 32) (instanceSize : Nat) (h : instanceSize < 2 ^ 31)
  | block (flags : BitVec 32) (objSize : Nat) (header : 2 ≤ objSize) (h : objSize < 2 ^ 31)

namespace Request

def run (c : Context) : Request → Alloc Address
  | array .specialAllocArray vtable arrayClass size _ =>
    GcNewAlloc.specialAllocArray c vtable arrayClass (BitVec.ofNat 32 size)
  | array .allocArrayInDomain vtable arrayClass size _ =>
    GcNewAlloc.allocArrayInDomain c vtable arrayClass (BitVec.ofNat 32 size)
  | array .allocByteArray vtable arrayClass size _ =>
    GcNewAlloc.allocByteArray c vtable arrayClass (BitVec.ofNat 32 size)
  | object vtable instanceSize _ => allocObjectInDomain c vtable (BitVec.ofNat 32 instanceSize)
  | block flags objSize _ _ => allocFields c (BitVec.ofNat 32 objSize) flags []

/-- How many words the object really needs. -/
def words : Request → Nat
  | array _ _ _ size _ => size + 5
  | object _ instanceSize _ => instanceSize + 4
  | block _ objSize _ _ => objSize

def flags : Request → BitVec 32
  | array .. => BitVec.ofNat 32 Kind.array.flags
  | object .. => BitVec.ofNat 32 Kind.object.flags
  | block flags .. => flags

/-- The words from the vtable on that are not left at zero. -/
def fields : Request → List (BitVec 32)
  | array _ vtable arrayClass size _ => [vtable, arrayClass, BitVec.ofNat 32 size]
  | object vtable .. => [vtable]
  | block .. => []

/-- The whole block: flags and magic number, the fields, and then zeros. -/
def image (r : Request) (i : Nat) : BitVec 8 :=
  byteOf ((r.flags :: BitVec.ofNat 32 GcNew.magicObject :: r.fields).getD (i / 4) 0) (i % 4)

theorem run_eq (c : Context) (r : Request) :
    r.run c = allocFields c (BitVec.ofNat 32 r.words) r.flags r.fields := by
  cases r with
  | array routine vtable arrayClass size h =>
    have hbyte : allocByteArray c vtable arrayClass (BitVec.ofNat 32 size) =
        allocFields c (BitVec.ofNat 32 (size + 5)) (BitVec.ofNat 32 Kind.array.flags)
          [vtable, arrayClass, BitVec.ofNat 32 size] := by
      rw [BitVec.ofNat_add]
      rfl
    cases routine with
    | specialAllocArray =>
      have hsign : (BitVec.ofNat 32 size).slt 0 = false := by
        have hnat : (BitVec.ofNat 32 size).toNat = size :=
          (BitVec.toNat_ofNat ..).trans (Nat.mod_eq_of_lt (by omega))
        have hzero : (0 : BitVec 32).toInt = 0 := rfl
        rw [BitVec.slt, decide_eq_false_iff_not, hzero]
        rcases toInt_cases (BitVec.ofNat 32 size) with ⟨-, hint⟩ | ⟨hlarge, -, -⟩
        · omega
        · omega
      show specialAllocArray c vtable arrayClass (BitVec.ofNat 32 size) = _
      unfold specialAllocArray
      rw [hsign]
      exact hbyte
    | allocArrayInDomain => exact hbyte
    | allocByteArray => exact hbyte
  | object vtable instanceSize h =>
    show allocFields c (BitVec.ofNat 32 instanceSize + 1 + 1 + 1 + 1) _ _ = _
    rw [BitVec.add_assoc, BitVec.add_assoc, BitVec.add_assoc]
    show _ = allocFields c (BitVec.ofNat 32 (instanceSize + 4)) _ _
    rw [BitVec.ofNat_add]
    rfl
  | block flags objSize header h => rfl

end Request

/-! ## What is asked for -/

section Contract

variable (c : Context) (words : Nat) (t : Heap)

/-- The test of `gc_new_allocDataInDomain` lets the request pass. -/
def Admits : Prop :=
  let nextObj := t.heapTop + 4 * BitVec.ofNat 32 words
  (t.heapBorder - 4 * BitVec.ofNat 32 heapReserve).ult nextObj = false ∨
    c.isInterruptHandlerThread = true ∧ t.heapBorder.ult nextObj = false

instance : Decidable (Admits c words t) := inferInstanceAs (Decidable (_ ∨ _))

/-- The heap of the last attempt: that after the collection, if there is one. -/
def lastTry (h : Heap) : Heap :=
  if Admits c words h ∨ c.isInterruptHandlerThread = true ∨ c.gcThread = false then h else c.gc h

/-- The block is taken from the top of the heap `t`. -/
structure Taken (r : Request) (obj : Address) (h' : Heap) : Prop where
  obj_eq : obj = t.heapTop + 8
  top : h'.heapTop.toNat = t.heapTop.toNat + 4 * r.words
  border : h'.heapBorder = t.heapBorder
  inside : h'.heapTop.toNat ≤ t.heapBorder.toNat
  reserve : c.isInterruptHandlerThread = false →
    h'.heapTop.toNat + 4 * heapReserve ≤ t.heapBorder.toNat
  contents : Filled t.heapTop (4 * r.words) r.image t.mem h'.mem

/-- The block is taken, or the heap's top stays where it is. -/
def Contract (r : Request) (h : Heap) : Prop :=
  match r.run c h with
  | .ok obj h' => Taken c (lastTry c r.words h) r obj h'
  | .error _ h' => h'.heapTop = (lastTry c r.words h).heapTop

/-! ## When it is met -/

/-- The block reaches beyond the address space, or the heap lies so low that the reserve does. -/
def Wraps : Prop :=
  2 ^ 32 ≤ t.heapTop.toNat + 4 * words ∨ t.heapBorder.toNat < 4 * heapReserve ∧
    (c.isInterruptHandlerThread = true → t.heapBorder.toNat < t.heapTop.toNat + 4 * words)

/-- There is a heap, and a handle for the new object. -/
def Ready : Prop := t.heapTop ≠ 0 ∧ ∃ i < maxRegistered, t.registeredObjects i = 0

/-- The test, which is made with sums that wrap, does not let a request pass that it should not. -/
def Sound : Prop :=
  Admits c words t → Ready t ∧ ¬ Wraps c words t ∨ ¬ Ready t ∧ 4 * words % 2 ^ 32 = 0

end Contract

/-! ## Runs -/

section Runs

variable {c : Context} {words : Nat} {objSize flags : BitVec 32} {nextObj : Address} {t h : Heap}

theorem get_run : (get : Alloc Heap) h = .ok h h := rfl

theorem set_run : (set t : Alloc PUnit) h = .ok ⟨⟩ t := rfl

theorem modify_run {f : Heap → Heap} : (modify f : Alloc PUnit) h = .ok ⟨⟩ (f h) := rfl

/-- The block of `doAlloc`, with the first two words of its header. -/
def blockMem (objSize flags : BitVec 32) (t : Heap) : Address → BitVec 8 :=
  setWords t.heapTop [flags, BitVec.ofNat 32 GcNew.magicObject]
    (memset t.heapTop (objSize * 4) t.mem)

theorem doAlloc_ready (hready : Ready t) : ∃ i, doAlloc objSize flags nextObj t = .ok i
    { t with heapTop := nextObj, mem := blockMem objSize flags t,
             registeredObjects := Function.update t.registeredObjects i (t.heapTop + 8) } := by
  obtain ⟨htop, i, hi, hfree⟩ := hready
  have hsome : ((List.range maxRegistered).find? fun i => t.registeredObjects i = 0).isSome := by
    rw [List.find?_isSome]
    exact ⟨i, List.mem_range.mpr hi, decide_eq_true hfree⟩
  obtain ⟨j, hj⟩ := Option.isSome_iff_exists.mp hsome
  refine ⟨j, ?_⟩
  simp only [doAlloc, registerObject, if_neg htop, bind, EStateM.bind, get_run, set_run, pure,
    EStateM.pure, hj, blockMem]

/-- Then the top has been moved all the same. -/
theorem doAlloc_not_ready (hready : ¬ Ready t) :
    ∃ e h', doAlloc objSize flags nextObj t = .error e h' ∧ h'.heapTop = nextObj := by
  by_cases htop : t.heapTop = 0
  · refine ⟨.assertion "data != NULL", { t with heapTop := nextObj }, ?_, rfl⟩
    unfold doAlloc
    simp only [bind, EStateM.bind, get_run, set_run, if_pos htop]
    rfl
  · have hnone : ((List.range maxRegistered).find? fun i => t.registeredObjects i = 0) = none := by
      rw [List.find?_eq_none]
      intro i hi hfree
      exact hready ⟨htop, i, List.mem_range.mp hi, of_decide_eq_true hfree⟩
    refine ⟨.panic "maximal number of registered objects reached for this domain",
      { t with heapTop := nextObj, mem := blockMem objSize flags t }, ?_, rfl⟩
    unfold doAlloc registerObject
    simp only [if_neg htop, bind, EStateM.bind, get_run, set_run, pure, hnone, blockMem]
    rfl

/-- One attempt. -/
theorem tryAlloc_run (full : Alloc Nat) :
    Admits c words t ∧ tryAlloc c (BitVec.ofNat 32 words) flags full t =
        doAlloc (BitVec.ofNat 32 words) flags (t.heapTop + 4 * BitVec.ofNat 32 words) t ∨
      ¬ Admits c words t ∧ c.isInterruptHandlerThread = true ∧
        tryAlloc c (BitVec.ofNat 32 words) flags full t =
          .error (.panic "no GC in interrupt handler possible!") t ∨
      ¬ Admits c words t ∧ c.isInterruptHandlerThread = false ∧
        tryAlloc c (BitVec.ofNat 32 words) flags full t = full t := by
  unfold tryAlloc Admits
  simp only [bind, EStateM.bind, get_run]
  cases hroom : (t.heapBorder - 4 * BitVec.ofNat 32 heapReserve).ult
    (t.heapTop + 4 * BitVec.ofNat 32 words) with
  | false => simp
  | true =>
    cases hirq : c.isInterruptHandlerThread with
    | false => simp
    | true =>
      cases hborder : t.heapBorder.ult (t.heapTop + 4 * BitVec.ofNat 32 words) with
      | false => simp
      | true =>
        refine Or.inr (Or.inl ⟨by simp, rfl, ?_⟩)
        rfl

/-- The whole allocation comes down to its last attempt. -/
theorem allocDataInDomain_run :
    Admits c words (lastTry c words h) ∧ allocDataInDomain c (BitVec.ofNat 32 words) flags h =
        doAlloc (BitVec.ofNat 32 words) flags
          ((lastTry c words h).heapTop + 4 * BitVec.ofNat 32 words) (lastTry c words h) ∨
      ¬ Admits c words (lastTry c words h) ∧
        ∃ e, allocDataInDomain c (BitVec.ofNat 32 words) flags h = .error e (lastTry c words h) := by
  have hstay : Admits c words h ∨ c.isInterruptHandlerThread = true ∨ c.gcThread = false →
      lastTry c words h = h := fun hs => if_pos hs
  rcases tryAlloc_run (c := c) (t := h) _ with ⟨hadm, hrun⟩ | ⟨hadm, hirq, hrun⟩ | ⟨hadm, hirq, hrun⟩
  · rw [hstay (Or.inl hadm)]
    exact Or.inl ⟨hadm, hrun⟩
  · rw [hstay (Or.inr (Or.inl hirq))]
    exact Or.inr ⟨hadm, _, hrun⟩
  · cases hgc : c.gcThread with
    | false =>
      rw [hstay (Or.inr (Or.inr hgc))]
      refine Or.inr ⟨hadm, .panic "GC but no GC thread availabke", hrun.trans ?_⟩
      rw [hgc]
      rfl
    | true =>
      have hlast : lastTry c words h = c.gc h :=
        if_neg (by rintro (hs | hs | hs) <;> simp_all)
      have hagain : allocDataInDomain c (BitVec.ofNat 32 words) flags h =
          tryAlloc c (BitVec.ofNat 32 words) flags (throw (.throw .runtimeException "")) (c.gc h) := by
        unfold allocDataInDomain
        rw [hrun, hgc]
        rfl
      rw [hlast, hagain]
      rcases tryAlloc_run (c := c) (t := c.gc h) _ with ⟨hadm, hrun⟩ | ⟨hadm, -, hrun⟩ | ⟨hadm, -, hrun⟩
      · exact Or.inl ⟨hadm, hrun⟩
      · exact Or.inr ⟨hadm, _, hrun⟩
      · exact Or.inr ⟨hadm, _, hrun⟩

theorem allocFields_error {fields : List (BitVec 32)} {e : Stop} {h' : Heap}
    (hrun : allocDataInDomain c objSize flags h = .error e h') :
    allocFields c objSize flags fields h = .error e h' := by
  unfold allocFields
  simp only [bind, EStateM.bind, hrun]

/-- The handle that was just taken is given back. -/
theorem allocFields_ok {fields : List (BitVec 32)} {i : Nat} {o : Address}
    {regs : Nat → Address} (hrun : allocDataInDomain c objSize flags h = .ok i t)
    (hregs : t.registeredObjects = Function.update regs i o) :
    allocFields c objSize flags fields h = .ok o
      { t with mem := setWords o fields t.mem,
               registeredObjects := Function.update t.registeredObjects i 0 } := by
  have hobj : t.registeredObjects i = o := by rw [hregs, Function.update_self]
  unfold allocFields unregisterObject
  simp only [bind, EStateM.bind, hrun, get_run, set_run, modify_run, pure, EStateM.pure, hobj]

end Runs

/-! ## Sums that wrap -/

section Sums

variable {c : Context} {words : Nat} {t : Heap}

theorem nextObj_toNat : (t.heapTop + 4 * BitVec.ofNat 32 words).toNat =
    (t.heapTop.toNat + 4 * words) % 2 ^ 32 := by
  have hfour : (4 : BitVec 32).toNat = 4 := rfl
  rw [BitVec.toNat_add, BitVec.toNat_mul, BitVec.toNat_ofNat, hfour]
  omega

theorem limit_toNat : (t.heapBorder - 4 * BitVec.ofNat 32 heapReserve).toNat =
    (t.heapBorder.toNat + (2 ^ 32 - 4 * heapReserve)) % 2 ^ 32 := by
  have hreserve : (4 * BitVec.ofNat 32 heapReserve).toNat = 4 * heapReserve := rfl
  rw [BitVec.toNat_sub, hreserve, Nat.add_comm]

theorem admits_iff : Admits c words t ↔
    (t.heapTop.toNat + 4 * words) % 2 ^ 32 ≤
        (t.heapBorder.toNat + (2 ^ 32 - 4 * heapReserve)) % 2 ^ 32 ∨
      c.isInterruptHandlerThread = true ∧
        (t.heapTop.toNat + 4 * words) % 2 ^ 32 ≤ t.heapBorder.toNat := by
  unfold Admits
  simp only [BitVec.ult, decide_eq_false_iff_not, nextObj_toNat, limit_toNat, Nat.not_lt]

/-- Without wrapping the test is what it looks like. -/
theorem room_of_admits (hadm : Admits c words t) (hwraps : ¬ Wraps c words t) :
    t.heapTop.toNat + 4 * words < 2 ^ 32 ∧ t.heapTop.toNat + 4 * words ≤ t.heapBorder.toNat ∧
      (c.isInterruptHandlerThread = false →
        t.heapTop.toNat + 4 * words + 4 * heapReserve ≤ t.heapBorder.toNat) := by
  have hborder := t.heapBorder.isLt
  have hreserve : heapReserve = 10240 := rfl
  rw [admits_iff] at hadm
  unfold Wraps at hwraps
  rw [not_or, not_and_or] at hwraps
  obtain ⟨hlt, hlow⟩ := hwraps
  cases hirq : c.isInterruptHandlerThread with
  | false =>
    simp only [hirq, Bool.false_eq_true, false_and, or_false, false_implies, not_true]
      at hadm hlow
    exact ⟨by omega, by omega, fun _ => by omega⟩
  | true =>
    simp only [hirq, true_and, true_implies] at hadm hlow
    exact ⟨by omega, by omega, fun h => absurd h (by decide)⟩

end Sums

/-! ## The block -/

section Block

variable {c : Context} {r : Request} {t h : Heap}

theorem Request.header_le (r : Request) : 2 + r.fields.length ≤ r.words := by
  cases r with
  | array routine vtable arrayClass size h => show 2 + 3 ≤ size + 5; omega
  | object vtable instanceSize h => show 2 + 1 ≤ instanceSize + 4; omega
  | block flags objSize header h => exact header

/-- The object that the routine leaves at the top of `t`. -/
theorem filled_image (hwords : 4 * r.words < 2 ^ 32) :
    Filled t.heapTop (4 * r.words) r.image t.mem
      (setWords (t.heapTop + 8) r.fields (blockMem (BitVec.ofNat 32 r.words) r.flags t)) := by
  have hheader := r.header_le
  have hcount : (BitVec.ofNat 32 r.words * 4).toNat = 4 * r.words := by
    have hfour : (4 : BitVec 32).toNat = 4 := rfl
    rw [BitVec.toNat_mul, BitVec.toNat_ofNat, hfour]
    omega
  have hzero := filled_memset t.heapTop (BitVec.ofNat 32 r.words * 4) t.mem
  rw [hcount] at hzero
  have hall := setWords_append t.heapTop [r.flags, BitVec.ofNat 32 GcNew.magicObject] r.fields
    (memset t.heapTop (BitVec.ofNat 32 r.words * 4) t.mem)
  have hfields := filled_setWords (a := t.heapTop)
    (l := [r.flags, BitVec.ofNat 32 GcNew.magicObject] ++ r.fields) (by simp; omega)
    (memset t.heapTop (BitVec.ofNat 32 r.words * 4) t.mem)
  rw [hall] at hfields
  refine (hzero.overlay hfields (by simp; omega) hwords.le).congr ?_
  intro i hi
  by_cases hin : i < 4 * ([r.flags, BitVec.ofNat 32 GcNew.magicObject] ++ r.fields).length
  · exact if_pos hin
  · rw [if_neg hin]
    unfold Request.image
    rw [List.getD_eq_getElem?_getD, List.getElem?_eq_none (by simp at hin ⊢; omega), Option.getD_none]
    exact BitVec.extractLsb'_zero.symm

/-- Such a block is what was asked for, unless a sum has wrapped. -/
theorem taken_iff {obj : Address} {h' : Heap} (hadm : Admits c r.words t)
    (hobj : obj = t.heapTop + 8)
    (htop : h'.heapTop = t.heapTop + 4 * BitVec.ofNat 32 r.words)
    (hborder : h'.heapBorder = t.heapBorder)
    (hmem : h'.mem = setWords obj r.fields (blockMem (BitVec.ofNat 32 r.words) r.flags t)) :
    Taken c t r obj h' ↔ ¬ Wraps c r.words t := by
  have hnext : h'.heapTop.toNat = (t.heapTop.toNat + 4 * r.words) % 2 ^ 32 := by
    rw [htop, nextObj_toNat]
  constructor
  · intro htaken hwraps
    have hlt := h'.heapTop.isLt
    have hsum := htaken.top
    have hinside := htaken.inside
    rcases hwraps with hlarge | ⟨hlow, hirq⟩
    · omega
    · cases hint : c.isInterruptHandlerThread with
      | false =>
        have hreserve := htaken.reserve hint
        omega
      | true =>
        have hbeyond := hirq hint
        omega
  · intro hwraps
    obtain ⟨hlt, hinside, hreserve⟩ := room_of_admits hadm hwraps
    rw [Nat.mod_eq_of_lt hlt] at hnext
    refine ⟨hobj, hnext, hborder, by omega, fun hirq => by rw [hnext]; exact hreserve hirq, ?_⟩
    rw [hmem, hobj]
    exact filled_image (by omega)

/-- A request that passes the test, with everything there that the rest of the routine needs. -/
theorem contract_iff_not_wraps (hadm : Admits c r.words (lastTry c r.words h))
    (hready : Ready (lastTry c r.words h)) :
    Contract c r h ↔ ¬ Wraps c r.words (lastTry c r.words h) := by
  unfold Contract
  rw [r.run_eq c]
  rcases allocDataInDomain_run (c := c) (h := h) with ⟨-, hrun⟩ | ⟨hnot, -⟩
  · obtain ⟨i, hdo⟩ := doAlloc_ready hready
    rw [allocFields_ok (hrun.trans hdo) rfl]
    apply taken_iff hadm
    · rfl
    · rfl
    · rfl
    · rfl
  · exact absurd hadm hnot

/-- Without a heap, or without a handle, the routine stops when it has moved the top. -/
theorem contract_iff_no_bytes (hadm : Admits c r.words (lastTry c r.words h))
    (hready : ¬ Ready (lastTry c r.words h)) : Contract c r h ↔ 4 * r.words % 2 ^ 32 = 0 := by
  have hlt := (lastTry c r.words h).heapTop.isLt
  unfold Contract
  rw [r.run_eq c]
  rcases allocDataInDomain_run (c := c) (h := h) with ⟨-, hrun⟩ | ⟨hnot, -⟩
  · obtain ⟨e, h', hdo, htop⟩ := doAlloc_not_ready hready
    rw [allocFields_error (hrun.trans hdo)]
    show h'.heapTop = (lastTry c r.words h).heapTop ↔ _
    rw [htop, BitVec.toNat_inj.symm, nextObj_toNat]
    omega
  · exact absurd hadm hnot

theorem contract_of_not_admits (hadm : ¬ Admits c r.words (lastTry c r.words h)) :
    Contract c r h := by
  unfold Contract
  rw [r.run_eq c]
  rcases allocDataInDomain_run (c := c) (h := h) with ⟨hyes, -⟩ | ⟨-, e, hrun⟩
  · exact absurd hyes hadm
  · rw [allocFields_error hrun]

end Block

/-- An allocation stays inside the heap exactly when its test, made with sums that wrap, does not let
a request pass that it should not. -/
theorem contract_iff_sound (c : Context) (r : Request) (h : Heap) :
    Contract c r h ↔ Sound c r.words (lastTry c r.words h) := by
  unfold Sound
  by_cases hadm : Admits c r.words (lastTry c r.words h)
  · by_cases hready : Ready (lastTry c r.words h)
    · rw [contract_iff_not_wraps hadm hready]
      simp [hadm, hready]
    · rw [contract_iff_no_bytes hadm hready]
      simp [hadm, hready]
  · exact iff_of_true (contract_of_not_admits hadm) fun hadm' => absurd hadm' hadm

/-- A heap of one megabyte, and nothing in it. -/
def exampleHeap : Heap where
  mem := fun _ => 0
  heap := 0x100000
  heapTop := 0x100000
  heapBorder := 0x200000
  registeredObjects := fun _ => 0

def exampleContext : Context where
  isInterruptHandlerThread := false
  gcThread := true
  gc := id

/-- `new int[0x3ffffffb]`: with the header this is the whole address space. -/
def wholeSpace : Request := .array .specialAllocArray 0x300000 0x300100 0x3ffffffb (by decide)

/-- The array is handed out, and the heap is as empty as before. -/
theorem not_contract_wholeSpace : exampleHeap.heap ≤ exampleHeap.heapTop ∧
    exampleHeap.heapTop ≤ exampleHeap.heapBorder ∧
    ¬ Contract exampleContext wholeSpace exampleHeap := by
  refine ⟨by decide, by decide, ?_⟩
  intro hcontract
  have hadm : Admits exampleContext wholeSpace.words exampleHeap := by decide
  have hlast : lastTry exampleContext wholeSpace.words exampleHeap = exampleHeap :=
    if_pos (Or.inl hadm)
  have hready : Ready exampleHeap := ⟨by decide, 0, by decide, rfl⟩
  rw [contract_iff_not_wraps (hlast.symm ▸ hadm) (hlast.symm ▸ hready), hlast] at hcontract
  exact hcontract (Or.inl (by decide))

end JxCore.GcNewAlloc
