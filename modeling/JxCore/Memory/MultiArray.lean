import JxCore.Core.NameBuffer
import JxCore.Lib.Retry
import JxCore.Memory.GcNewAlloc
import Mathlib.Tactic.SplitIfs

/-!
# Arrays of arrays (`doAllocMultiArray` in `Memory/gc_alloc.c`)

The array of the first dimension is allocated first, and then its elements one by one, each by the same
routine with one dimension less. The arrays built so far are no roots. So the routine reads the epoch of
the collector before it starts, and when the epoch has changed it drops everything and starts again; an
element is stored before the epoch is looked at, into the old array.

The heap is that of the copying collector, with `allocByteArray` from `GcNewAlloc`: whether an
allocation collects is decided there, by the room that is left. What a collection leaves is arbitrary.
-/

namespace JxCore.MultiArray

open Lib Access Lib.Retry NameBuffer
open GcNewAlloc (Heap Context Admits Ready Wraps Taken lastTry setWord)
open EStateM (Result)

/-! ## The state -/

/-- A `jint` that is not negative. -/
abbrev Size := Fin (2 ^ 31)

/-- An allocation as it was decided: how many words it asks for, and the heap of its last attempt. -/
structure Demand where
  words : Nat
  heap : Heap

structure State where
  heap : Heap
  /-- The collections of the domain; `domain->gc.epoch` is this number in an `u4_t`. -/
  collections : Nat
  /-- The allocations so far, the last one first. -/
  demands : List Demand

/-- `domain->gc.epoch`. -/
def State.epoch (s : State) : BitVec 32 := BitVec.ofNat 32 s.collections

/-- What surrounds the call. -/
structure Env where
  /-- How many bytes above the lower end of the stack the first argument of the outermost call lies. -/
  room : Nat
  /-- How far below it that of the call for the next dimension lies. -/
  frame : Nat
  /-- The local array of `findClassOrPrimitive`. -/
  tmp : Frame Char 80
  tmp_unused : Unused tmp
  /-- The local array of `allocByteArray`. -/
  name : Frame Char 256
  name_unused : Unused name
  /-- The lookups behind `findClassOrPrimitive`. -/
  findClass : Asked → Option JType
  /-- Where the descriptor and the vtable of an array class lie. -/
  arrayClass : JType → BitVec 32
  vtable : JType → BitVec 32
  isInterruptHandlerThread : Bool
  gcThread : Bool
  /-- The heap after a collection, by the number of collections before it. -/
  left : Nat → Heap
  ordered : ∀ k, (left k).heap.toNat ≤ (left k).heapTop.toNat

/-- Why the routine does not come back. -/
inductive Halt where
  | stop (e : Stop)
  /-- A local array was left, or `findClassOrPrimitive` has answered `NULL`. -/
  | undefined
  /-- The number of attempts is used up. -/
  | running

/-- An exception is raised. -/
def Halt.Raises : Halt → Prop
  | stop (.throw _ _) => True
  | _ => False

abbrev Run := EStateM Halt State

/-! ## The routine -/

section Routine

variable (env : Env)

def Env.context (collections : Nat) : Context where
  isInterruptHandlerThread := env.isInterruptHandlerThread
  gcThread := env.gcThread
  gc := fun _ => env.left collections

/-- Whether the first attempt runs the collector. -/
def Env.Collects (words : Nat) (s : State) : Prop :=
  ¬ (Admits (env.context s.collections) words s.heap ∨
    (env.context s.collections).isInterruptHandlerThread = true ∨
    (env.context s.collections).gcThread = false)

instance (words : Nat) (s : State) : Decidable (env.Collects words s) :=
  inferInstanceAs (Decidable (¬ _))

/-- The state after an allocation that has left the heap `h`. -/
def Env.after (words : Nat) (s : State) (h : Heap) : State where
  heap := h
  collections := if env.Collects words s then s.collections + 1 else s.collections
  demands := ⟨words, lastTry (env.context s.collections) words s.heap⟩ :: s.demands

/-- `allocByteArray` first puts the name of the array class together, which is not used. -/
def nameArray (elemClass : JType) : Run PUnit :=
  if (arrayNameOf env.name ((withClass elemClass).desc 0)).Inside then return ⟨⟩ else throw .undefined

/-- The rest of `allocByteArray`. -/
def allocByteArray (elemClass : JType) (size : Size) : Run Address := fun s =>
  match GcNewAlloc.allocByteArray (env.context s.collections) (env.vtable (.array elemClass))
      (env.arrayClass (.array elemClass)) (BitVec.ofNat 32 size) s.heap with
  | .ok a h => .ok a (env.after (size + 5) s h)
  | .error e h => .error (.stop e) (env.after (size + 5) s h)

/-- `specialAllocArray`; there are no negative sizes. -/
def specialAllocArray (elemClass : JType) (size : Size) : Run Address := do
  nameArray env elemClass
  allocByteArray env elemClass size

/-- `findClassOrPrimitive(domain, arrayClass->name + 1)->classDesc`. -/
def findElemClass (arrayClass : JType) : Run JType :=
  let r := findClassOrPrimitive env.tmp (arrayClass.name.drop 1)
  match env.findClass r.2 with
  | some elemClass => if r.1.Inside then return elemClass else throw .undefined
  | none => throw .undefined

def epoch : Run (BitVec 32) := do return (← get).epoch

/-- The address of `array->data[i]`. -/
def dataAt (array : Address) (i : Nat) : Address := array + BitVec.ofNat 32 (12 + 4 * i)

def State.stored (s : State) (array : Address) (i : Nat) (v : Address) : State :=
  { s with heap := { s.heap with mem := setWord (dataAt array i) v s.heap.mem } }

/-- `array->data[i] = (jint) v`, wherever `array` points. -/
def store (array : Address) (i : Nat) (v : Address) : Run PUnit := modify fun s => s.stored array i v

/-- The loop over `oprs[0]`, from `i` on with `n` elements to come; `false` is `goto restart`. -/
def fill (alloc : Run Address) (gcEpoch : BitVec 32) (array : Address) : Nat → Nat → Run Bool
  | _, 0 => return true
  | i, n + 1 => do
    let v ← alloc
    store array i v
    if gcEpoch ≠ (← epoch) then return false
    fill alloc gcEpoch array (i + 1) n

/-- From `restart` on; `none` is `goto restart`. -/
def attempt (elemClass : JType) (size : Size) (alloc : Run Address) : Run (Option Address) := do
  let gcEpoch ← epoch
  let array ← specialAllocArray env elemClass size
  if gcEpoch ≠ (← epoch) then return none
  if ← fill alloc gcEpoch array 0 size then return some array
  return none

/-- The stack that is asked for with `CHECK_STACK_SIZE(elemClass, 16)`. -/
def stackNeeded : Nat := 4 * 16

/-- The check of the stack, which ends in `sys_panic` as in `checkStackSize`, and the lookup. -/
def enter (room : Nat) (arrayClass : JType) : Run JType := do
  if room < stackNeeded then throw (.stop (.panic ""))
  findElemClass env arrayClass

/-- `doAllocMultiArray`, with the size of this dimension and those of the further ones. -/
def doAllocMultiArray (fuel : Nat) : Nat → JType → Size → List Size → Run Address
  | room, arrayClass, size, [] => do
    let elemClass ← enter env room arrayClass
    specialAllocArray env elemClass size
  | room, arrayClass, size, next :: rest => do
    let elemClass ← enter env room arrayClass
    retry .running
      (attempt env elemClass size (doAllocMultiArray fuel (room - env.frame) elemClass next rest)) fuel

end Routine

/-! ## What is asked for -/

/-- The type of the arrays of arrays, `dims` deep, of `elem`. -/
def nested (elem : JType) : Nat → JType
  | 0 => elem
  | dims + 1 => .array (nested elem dims)

/-- An array that is reached from the result. -/
structure Node where
  type : JType
  size : Size
  address : Address

/-- `data[i]` of an array. -/
def element (h : Heap) (array : Address) (i : Nat) : Address := wordAt h.mem (dataAt array i)

/-- The array at an address and, down to the innermost dimension, its elements. -/
def nodes (h : Heap) (elem : JType) : Size → List Size → Address → List Node
  | size, [], a => [⟨nested elem 1, size, a⟩]
  | size, next :: rest, a => ⟨nested elem (rest.length + 2), size, a⟩ ::
      (List.range size).flatMap fun i => nodes h elem next rest (element h a i)

namespace Node

/-- The block of the array, its header included, lies between two addresses. -/
def Within (x : Node) (lo hi : Nat) : Prop :=
  lo + 8 ≤ x.address.toNat ∧ x.address.toNat + 12 + 4 * x.size ≤ hi

/-- The blocks of two arrays have nothing in common. -/
def Apart (x y : Node) : Prop :=
  x.address.toNat + 12 + 4 * x.size + 8 ≤ y.address.toNat ∨
    y.address.toNat + 12 + 4 * y.size + 8 ≤ x.address.toNat

/-- The words of the header. -/
def Described (env : Env) (h : Heap) (x : Node) : Prop :=
  wordAt h.mem (x.address + 4) = env.arrayClass x.type ∧
    wordAt h.mem (x.address + 8) = BitVec.ofNat 32 x.size

end Node

/-- Arrays of the right classes and sizes that lie apart from each other between two addresses. -/
structure Placed (env : Env) (h : Heap) (lo hi : Nat) (l : List Node) : Prop where
  within : ∀ x ∈ l, x.Within lo hi
  described : ∀ x ∈ l, x.Described env h
  apart : l.Pairwise Node.Apart

/-- An exception is raised, or all the arrays are there, in the heap as it is now. -/
def Good (env : Env) (elem : JType) (size : Size) (rest : List Size) : Result Halt State Address → Prop
  | .ok a s => Placed env s.heap s.heap.heap.toNat s.heap.heapTop.toNat (nodes s.heap elem size rest a)
  | .error e _ => e.Raises

/-- What is asked for: an array class, `rest.length + 1` deep, and the sizes. -/
structure Call where
  elem : JType
  size : Size
  rest : List Size

def Call.run (c : Call) (env : Env) (fuel : Nat) : Run Address :=
  doAllocMultiArray env fuel env.room (nested c.elem (c.rest.length + 1)) c.size c.rest

/-- The stack has room for the frames of so many further dimensions. -/
def Env.Holds (env : Env) (room further : Nat) : Prop := stackNeeded + further * env.frame ≤ room

/-- The call ends, and well. -/
def Correct (env : Env) (c : Call) (s : State) : Prop :=
  ∃ n, ∀ fuel ≥ n, Good env c.elem c.size c.rest (c.run env fuel s)

/-- An allocation that keeps to its contract: what it hands out is there, and if there is nothing an
exception is raised. -/
def Env.Serves (env : Env) (d : Demand) : Prop :=
  (Admits (env.context 0) d.words d.heap → Ready d.heap ∧ ¬ Wraps (env.context 0) d.words d.heap) ∧
    (¬ Admits (env.context 0) d.words d.heap →
      env.isInterruptHandlerThread = false ∧ env.gcThread = true)

instance (t : Heap) : Decidable (Ready t) :=
  inferInstanceAs (Decidable (_ ∧ ∃ i < GcNewAlloc.maxRegistered, t.registeredObjects i = 0))

instance (c : Context) (words : Nat) (t : Heap) : Decidable (Wraps c words t) :=
  inferInstanceAs (Decidable (_ ∨ _ ∧ (_ → _)))

instance (env : Env) (d : Demand) : Decidable (env.Serves d) :=
  inferInstanceAs (Decidable ((_ → _ ∧ ¬ _) ∧ (_ → _ ∧ _)))

/-- The domain knows the types of the elements, and the local arrays have room for the names. -/
structure Env.Knows (env : Env) (elem : JType) (dims : Nat) : Prop where
  found : ∀ k < dims, env.findClass (nested elem k).asked = some (nested elem k)
  short : ∀ x, elem = .class x → x.chars.length < 80
  fits : ∀ k < dims, (nested elem (k + 1)).name.length < 256

/-! ## Memory that stays as it is -/

/-- Nothing changes between two addresses. -/
def Same (lo hi : Nat) (mem mem' : Address → BitVec 8) : Prop :=
  ∀ x : Address, lo ≤ x.toNat → x.toNat < hi → mem' x = mem x

section Same

variable {lo mid hi : Nat} {mem mem' mem'' : Address → BitVec 8} {a : Address}

theorem Same.mono (h : Same lo hi mem mem') {lo' hi' : Nat} (hlo : lo ≤ lo') (hhi : hi' ≤ hi) :
    Same lo' hi' mem mem' := fun x hx hx' => h x (hlo.trans hx) (hx'.trans_le hhi)

theorem Same.trans (h : Same lo hi mem mem') (h' : Same lo hi mem' mem'') : Same lo hi mem mem'' :=
  fun x hx hx' => (h' x hx hx').trans (h x hx hx')

theorem add_toNat {k : Nat} (h : a.toNat + k < 2 ^ 32) : (a + BitVec.ofNat 32 k).toNat = a.toNat + k := by
  rw [BitVec.toNat_add, BitVec.toNat_ofNat, Nat.add_mod_mod, Nat.mod_eq_of_lt h]

theorem Same.wordAt (h : Same lo hi mem mem') (hhi : hi ≤ 2 ^ 32) {k : Nat} (hlo : lo ≤ a.toNat + k)
    (hfits : a.toNat + k + 4 ≤ hi) :
    wordAt mem' (a + BitVec.ofNat 32 k) = wordAt mem (a + BitVec.ofNat 32 k) := by
  have hbyte : ∀ i < 4, mem' (a + BitVec.ofNat 32 k + BitVec.ofNat 32 i) =
      mem (a + BitVec.ofNat 32 k + BitVec.ofNat 32 i) := by
    intro i hi'
    have hnat : (a + BitVec.ofNat 32 k + BitVec.ofNat 32 i).toNat = a.toNat + (k + i) := by
      rw [BitVec.add_assoc, ← BitVec.ofNat_add]
      exact add_toNat (by omega)
    exact h _ (by omega) (by omega)
  have hfirst := hbyte 0 (by decide)
  rw [BitVec.add_zero] at hfirst
  unfold Access.wordAt
  rw [hfirst]
  exact congrArg₂ _ (congrArg₂ _ (hbyte 3 (by decide)) (hbyte 2 (by decide)))
    (congrArg₂ _ (hbyte 1 (by decide)) rfl)

/-- A store changes its own four bytes. -/
theorem same_setWord {v : BitVec 32} (h : hi ≤ a.toNat ∨ a.toNat + 4 ≤ lo) (hfits : a.toNat + 4 ≤ 2 ^ 32) :
    Same lo hi mem (setWord a v mem) := by
  intro x hx hx'
  refine (GcNewAlloc.filled_setWord a v mem).other x ?_
  rintro ⟨i, hi', rfl⟩
  have hnat := add_toNat (a := a) (k := i) (by omega)
  omega

theorem wordAt_setWord (a : Address) (v : BitVec 32) (mem : Address → BitVec 8) :
    wordAt (setWord a v mem) a = v :=
  wordAt_of_bytes (GcNewAlloc.filled_setWord a v mem).target

end Same

/-! ## Arrays that stay as they are -/

section Placed

variable {env : Env} {elem : JType} {h h' : Heap} {lo mid hi : Nat} {l l' : List Node} {x y : Node}

theorem Node.Within.mono (hx : x.Within lo hi) {lo' hi' : Nat} (hlo : lo' ≤ lo) (hhi : hi ≤ hi') :
    x.Within lo' hi' := ⟨(Nat.add_le_add_right hlo 8).trans hx.1, hx.2.trans hhi⟩

theorem Node.apart_of_within (hx : x.Within lo mid) (hy : y.Within mid hi) : x.Apart y :=
  Or.inl ((Nat.add_le_add_right hx.2 8).trans hy.1)

theorem Node.Described.congr (hx : x.Described env h)
    (hsame : Same x.address.toNat (x.address.toNat + 12) h.mem h'.mem)
    (hfits : x.address.toNat + 12 ≤ 2 ^ 32) : x.Described env h' := by
  have hclass := hsame.wordAt (a := x.address) (k := 4) hfits (by omega) (by omega)
  have hsize := hsame.wordAt (a := x.address) (k := 8) hfits (by omega) (by omega)
  exact ⟨hclass.trans hx.1, hsize.trans hx.2⟩

theorem element_congr {size : Size} {a : Address} {t : JType} (hw : (Node.mk t size a).Within lo hi)
    (hsame : Same lo hi h.mem h'.mem) (hhi : hi ≤ 2 ^ 32) {i : Nat} (hi' : i < size) :
    element h' a i = element h a i := by
  obtain ⟨hlo, hend⟩ := hw
  simp only at hlo hend
  exact hsame.wordAt hhi (by omega) (by omega)

/-- The same arrays are reached if their blocks have not changed. -/
theorem nodes_congr {size : Size} {rest : List Size} {a : Address}
    (hw : ∀ x ∈ nodes h elem size rest a, x.Within lo hi) (hsame : Same lo hi h.mem h'.mem)
    (hhi : hi ≤ 2 ^ 32) : nodes h' elem size rest a = nodes h elem size rest a := by
  induction rest generalizing size a with
  | nil => rfl
  | cons next rest ih =>
    rw [nodes, List.forall_mem_cons] at hw
    obtain ⟨hhead, hrest⟩ := hw
    rw [nodes, nodes]
    congr 1
    apply List.flatMap_congr
    intro i hi'
    rw [element_congr hhead hsame hhi (List.mem_range.mp hi')]
    exact ih fun x hx => hrest x (List.mem_flatMap.mpr ⟨i, hi', hx⟩)

theorem Placed.congr (hp : Placed env h lo hi l) (hsame : Same lo hi h.mem h'.mem) (hhi : hi ≤ 2 ^ 32) :
    Placed env h' lo hi l where
  within := hp.within
  described x hx := by
    obtain ⟨hlo, hend⟩ := hp.within x hx
    exact (hp.described x hx).congr (hsame.mono (by omega) (by omega)) (by omega)
  apart := hp.apart

theorem Placed.mono (hp : Placed env h lo hi l) {lo' hi' : Nat} (hlo : lo' ≤ lo) (hhi : hi ≤ hi') :
    Placed env h lo' hi' l where
  within x hx := (hp.within x hx).mono hlo hhi
  described := hp.described
  apart := hp.apart

theorem placed_nil (env : Env) (h : Heap) (lo hi : Nat) : Placed env h lo hi [] :=
  ⟨List.forall_mem_nil _, List.forall_mem_nil _, List.Pairwise.nil⟩

/-- The arrays of two parts of the heap. -/
theorem Placed.append (hp : Placed env h lo mid l) (hp' : Placed env h mid hi l') (hlo : lo ≤ mid)
    (hhi : mid ≤ hi) : Placed env h lo hi (l ++ l') where
  within x hx := by
    rcases List.mem_append.mp hx with hl | hl'
    · exact (hp.within x hl).mono le_rfl hhi
    · exact (hp'.within x hl').mono hlo le_rfl
  described x hx := by
    rcases List.mem_append.mp hx with hl | hl'
    · exact hp.described x hl
    · exact hp'.described x hl'
  apart := List.pairwise_append.mpr ⟨hp.apart, hp'.apart,
    fun x hx y hy => Node.apart_of_within (hp.within x hx) (hp'.within y hy)⟩

theorem placed_singleton (hx : x.Within lo hi) (hd : x.Described env h) : Placed env h lo hi [x] :=
  ⟨List.forall_mem_singleton.mpr hx, List.forall_mem_singleton.mpr hd, List.pairwise_singleton _ _⟩

end Placed

/-! ## One allocation -/

section Allocation

variable {c : Context} {words : Nat} {flags vtable arrayClass : BitVec 32} {h : Heap} {size : Size}

/-- Without room before and after the collection the allocator raises its exception. -/
theorem refused_run (hadm : ¬ Admits c words (lastTry c words h))
    (hirq : c.isInterruptHandlerThread = false) (hgc : c.gcThread = true) :
    GcNewAlloc.allocDataInDomain c (BitVec.ofNat 32 words) flags h =
      .error (.throw .runtimeException "") (lastTry c words h) := by
  rcases GcNewAlloc.tryAlloc_run (c := c) (t := h) _ with ⟨hyes, -⟩ | ⟨-, hint, -⟩ | ⟨hno, -, hrun⟩
  · have hlast : lastTry c words h = h := if_pos (Or.inl hyes)
    rw [hlast] at hadm
    exact absurd hyes hadm
  · rw [hirq] at hint
    cases hint
  · have hlast : lastTry c words h = c.gc h := if_neg (by simp [hno, hirq, hgc])
    have hagain : GcNewAlloc.allocDataInDomain c (BitVec.ofNat 32 words) flags h =
        GcNewAlloc.tryAlloc c (BitVec.ofNat 32 words) flags
          (throw (.throw .runtimeException "")) (c.gc h) := by
      unfold GcNewAlloc.allocDataInDomain
      rw [hrun, hgc]
      rfl
    rw [hlast] at hadm ⊢
    rw [hagain]
    rcases GcNewAlloc.tryAlloc_run (c := c) (t := c.gc h) _ with
      ⟨hyes, -⟩ | ⟨-, hint, -⟩ | ⟨-, -, hrun'⟩
    · exact absurd hyes hadm
    · rw [hirq] at hint
      cases hint
    · exact hrun'

/-- The block is taken from the top of the heap of the last attempt. -/
theorem admitted_run {r : GcNewAlloc.Request} (hadm : Admits c r.words (lastTry c r.words h))
    (hready : Ready (lastTry c r.words h)) (hwraps : ¬ Wraps c r.words (lastTry c r.words h)) :
    ∃ h', r.run c h = .ok ((lastTry c r.words h).heapTop + 8) h' ∧
      h'.heap = (lastTry c r.words h).heap ∧
      Taken c (lastTry c r.words h) r ((lastTry c r.words h).heapTop + 8) h' := by
  rw [r.run_eq c]
  rcases GcNewAlloc.allocDataInDomain_run (c := c) (h := h) with ⟨-, hrun⟩ | ⟨hno, -⟩
  · obtain ⟨i, hdo⟩ := GcNewAlloc.doAlloc_ready hready
    rw [GcNewAlloc.allocFields_ok (hrun.trans hdo) rfl]
    refine ⟨_, rfl, rfl, (GcNewAlloc.taken_iff hadm ?_ ?_ ?_ ?_).mpr hwraps⟩
    · rfl
    · rfl
    · rfl
    · rfl
  · exact absurd hadm hno

theorem error_of_not_admits {r : GcNewAlloc.Request} (hadm : ¬ Admits c r.words (lastTry c r.words h)) :
    ∃ e h', r.run c h = .error e h' := by
  rw [r.run_eq c]
  rcases GcNewAlloc.allocDataInDomain_run (c := c) (h := h) with ⟨hyes, -⟩ | ⟨-, e, hrun⟩
  · exact absurd hyes hadm
  · exact ⟨e, _, GcNewAlloc.allocFields_error hrun⟩

theorem refused_array {r : GcNewAlloc.Request} (hadm : ¬ Admits c r.words (lastTry c r.words h))
    (hirq : c.isInterruptHandlerThread = false) (hgc : c.gcThread = true) :
    r.run c h = .error (.throw .runtimeException "") (lastTry c r.words h) := by
  rw [r.run_eq c]
  exact GcNewAlloc.allocFields_error (refused_run hadm hirq hgc)

end Allocation

/-- The heap starts below its top. -/
def Ordered (h : Heap) : Prop := h.heap.toNat ≤ h.heapTop.toNat

/-- All allocations so far have kept to their contract. -/
def State.Served (env : Env) (s : State) : Prop := ∀ d ∈ s.demands, env.Serves d

/-- What is true after every part of the routine. -/
structure Later (env : Env) (s s' : State) : Prop where
  collections : s.collections ≤ s'.collections
  demands : s.demands <:+ s'.demands
  ordered : s'.Served env → Ordered s.heap → Ordered s'.heap

/-- As long as nothing is collected the heap only grows. -/
structure Grown (h h' : Heap) : Prop where
  heap : h'.heap = h.heap
  top : h.heapTop.toNat ≤ h'.heapTop.toNat
  same : Same 0 h.heapTop.toNat h.mem h'.mem

section Step

variable {env : Env} {s s' s'' : State} {elemClass : JType} {size : Size} {a : Address}

theorem Later.refl (env : Env) (s : State) : Later env s s :=
  ⟨le_rfl, List.suffix_rfl, fun _ h => h⟩

theorem Later.served (h : Later env s s') (hserved : s'.Served env) : s.Served env :=
  fun d hd => hserved d (h.demands.subset hd)

theorem Later.trans (h : Later env s s') (h' : Later env s' s'') : Later env s s'' where
  collections := h.collections.trans h'.collections
  demands := h.demands.trans h'.demands
  ordered hserved hs := h'.ordered hserved (h.ordered (h'.served hserved) hs)

/-- The request that `allocByteArray` makes. -/
def request (env : Env) (elemClass : JType) (size : Size) : GcNewAlloc.Request :=
  .array .allocByteArray (env.vtable (.array elemClass)) (env.arrayClass (.array elemClass)) size
    size.isLt

/-- The heap of the last attempt. -/
def lastHeap (env : Env) (size : Size) (s : State) : Heap :=
  lastTry (env.context s.collections) (size + 5) s.heap

theorem ordered_lastHeap (env : Env) (size : Size) (hs : Ordered s.heap) : Ordered (lastHeap env size s) := by
  unfold lastHeap lastTry
  split_ifs
  · exact hs
  · exact env.ordered _

/-- Nothing has been collected exactly if the heap is still the same. -/
theorem lastHeap_of_eq {h : Heap} (hc : (env.after (size + 5) s h).collections = s.collections) :
    lastHeap env size s = s.heap := by
  unfold Env.after at hc
  simp only at hc
  split_ifs at hc with hcollects
  · omega
  · exact if_pos (not_not.mp hcollects)

theorem later_after {h : Heap} (hordered : (env.after (size + 5) s h).Served env → Ordered s.heap →
    Ordered h) : Later env s (env.after (size + 5) s h) where
  collections := by
    unfold Env.after
    simp only
    split_ifs
    · exact Nat.le_succ _
    · exact le_rfl
  demands := List.suffix_cons _ _
  ordered := hordered

theorem run_of_ok {h : Heap}
    (hrun : (request env elemClass size).run (env.context s.collections) s.heap = .ok a h) :
    allocByteArray env elemClass size s = .ok a (env.after (size + 5) s h) := by
  unfold request GcNewAlloc.Request.run at hrun
  simp only [allocByteArray, hrun]

theorem run_of_error {h : Heap} {e : Stop}
    (hrun : (request env elemClass size).run (env.context s.collections) s.heap = .error e h) :
    allocByteArray env elemClass size s = .error (.stop e) (env.after (size + 5) s h) := by
  unfold request GcNewAlloc.Request.run at hrun
  simp only [allocByteArray, hrun]

/-- The two ways in which an allocation that keeps to its contract ends. -/
theorem allocByteArray_run (elemClass : JType)
    (hserved : env.Serves ⟨size + 5, lastHeap env size s⟩) :
    (∃ h, allocByteArray env elemClass size s =
        .ok ((lastHeap env size s).heapTop + 8) (env.after (size + 5) s h) ∧
      h.heap = (lastHeap env size s).heap ∧
      Taken (env.context s.collections) (lastHeap env size s) (request env elemClass size)
        ((lastHeap env size s).heapTop + 8) h) ∨
    allocByteArray env elemClass size s =
      .error (.stop (.throw .runtimeException "")) (env.after (size + 5) s (lastHeap env size s)) := by
  by_cases hadm : Admits (env.context s.collections) (size + 5) (lastHeap env size s)
  · obtain ⟨hready, hwraps⟩ := hserved.1 hadm
    obtain ⟨h, hrun, hheap, htaken⟩ :=
      admitted_run (c := env.context s.collections) (r := request env elemClass size) (h := s.heap)
        hadm hready hwraps
    exact Or.inl ⟨h, run_of_ok hrun, hheap, htaken⟩
  · obtain ⟨hirq, hgc⟩ := hserved.2 hadm
    have hrun := refused_array (c := env.context s.collections) (r := request env elemClass size)
      (h := s.heap) hadm hirq hgc
    exact Or.inr (run_of_error hrun)

theorem final_allocByteArray (env : Env) (elemClass : JType) (size : Size) (s : State) :
    ∃ h, final (allocByteArray env elemClass size s) = env.after (size + 5) s h := by
  unfold allocByteArray
  split <;> exact ⟨_, rfl⟩

theorem lastHeap_mem (h : final (allocByteArray env elemClass size s) = s') :
    ⟨size + 5, lastHeap env size s⟩ ∈ s'.demands := by
  obtain ⟨h', hfinal⟩ := final_allocByteArray env elemClass size s
  rw [← h, hfinal]
  exact List.mem_cons_self

theorem keeps_allocByteArray (elemClass : JType) (size : Size) :
    Keeps (Later env) (allocByteArray env elemClass size) := by
  intro s
  obtain ⟨h, hfinal⟩ := final_allocByteArray env elemClass size s
  rw [hfinal]
  refine later_after fun hserved hs => ?_
  have hlast := ordered_lastHeap env size hs
  unfold Ordered at hlast ⊢
  rcases allocByteArray_run elemClass (hserved _ List.mem_cons_self) with
    ⟨h', hrun, hheap, htaken⟩ | hrun
  · rw [hrun, final_ok] at hfinal
    obtain rfl : h' = h := congrArg State.heap hfinal
    have htop := htaken.top
    rw [hheap]
    omega
  · rw [hrun, final_error] at hfinal
    obtain rfl : lastHeap env size s = h := congrArg State.heap hfinal
    exact hlast

/-- The arrays `l` have been built from `s` on. -/
structure Built (env : Env) (s s' : State) (l : List Node) : Prop where
  placed : ∃ lo, s'.heap.heap.toNat ≤ lo ∧ lo ≤ s'.heap.heapTop.toNat ∧
    (s'.collections = s.collections → s.heap.heapTop.toNat ≤ lo) ∧
    Placed env s'.heap lo s'.heap.heapTop.toNat l
  grown : s'.collections = s.collections → Grown s.heap s'.heap

/-- The header, and where the block lies. -/
theorem built_of_taken {h : Heap} (hs : Ordered s.heap) (hheap : h.heap = (lastHeap env size s).heap)
    (htaken : Taken (env.context s.collections) (lastHeap env size s) (request env elemClass size)
      ((lastHeap env size s).heapTop + 8) h) :
    Built env s (env.after (size + 5) s h)
      [⟨.array elemClass, size, (lastHeap env size s).heapTop + 8⟩] := by
  have hlast := ordered_lastHeap env size hs
  have htop : h.heapTop.toNat = (lastHeap env size s).heapTop.toNat + 4 * (size + 5) := htaken.top
  have hlt := h.heapTop.isLt
  have haddr : ((lastHeap env size s).heapTop + 8).toNat = (lastHeap env size s).heapTop.toNat + 8 :=
    add_toNat (k := 8) (by omega)
  have hword : ∀ k < 5, wordAt h.mem ((lastHeap env size s).heapTop + BitVec.ofNat 32 (4 * k)) =
      ((request env elemClass size).flags :: BitVec.ofNat 32 GcNew.magicObject ::
        (request env elemClass size).fields).getD k 0 := by
    intro k hk
    exact htaken.contents.wordAt (show 4 * k + 4 ≤ 4 * (size + 5) by omega)
  refine ⟨⟨(lastHeap env size s).heapTop.toNat, ?_, ?_, ?_, placed_singleton ⟨?_, ?_⟩ ⟨?_, ?_⟩⟩, ?_⟩
  · show h.heap.toNat ≤ _
    rw [hheap]
    exact hlast
  · show _ ≤ h.heapTop.toNat
    omega
  · intro hc
    rw [lastHeap_of_eq hc]
  · exact haddr.ge
  · show _ ≤ h.heapTop.toNat
    rw [haddr]
    show _ + 12 + 4 * size.val ≤ _
    omega
  · show wordAt h.mem ((lastHeap env size s).heapTop + 8 + 4) = _
    rw [BitVec.add_assoc]
    exact hword 3 (by decide)
  · show wordAt h.mem ((lastHeap env size s).heapTop + 8 + 8) = _
    rw [BitVec.add_assoc]
    exact hword 4 (by decide)
  · intro hc
    have heq := lastHeap_of_eq hc
    refine ⟨hheap.trans (congrArg Heap.heap heq), ?_, ?_⟩
    · show s.heap.heapTop.toNat ≤ h.heapTop.toNat
      rw [htop, heq]
      exact Nat.le_add_right _ _
    · intro x _ hx
      have hother := htaken.contents.other x
      rw [heq] at hother htop
      refine hother ?_
      rintro ⟨i, hi, rfl⟩
      have hi' : i < 4 * (size + 5) := hi
      have hnat := add_toNat (a := s.heap.heapTop) (k := i) (by omega)
      omega

theorem allocByteArray_ok (hrun : allocByteArray env elemClass size s = .ok a s')
    (hserved : s'.Served env) (hs : Ordered s.heap) : Built env s s' [⟨.array elemClass, size, a⟩] := by
  have hfinal : final (allocByteArray env elemClass size s) = s' := by rw [hrun, final_ok]
  rcases allocByteArray_run elemClass (hserved _ (lastHeap_mem hfinal)) with
    ⟨h, hok, hheap, htaken⟩ | herror
  · obtain ⟨rfl, rfl⟩ := Result.ok.inj (hok.symm.trans hrun)
    exact built_of_taken hs hheap htaken
  · cases herror.symm.trans hrun

end Step

/-! ## The lookup of the element class -/

section Lookup

variable {env : Env} {elem t : JType} {dims k : Nat}

theorem findElemClass_eq (hfound : env.findClass t.asked = some t)
    (hshort : ∀ x, t = .class x → x.chars.length < 80) : findElemClass env (.array t) = pure t := by
  obtain ⟨hinside, hasked⟩ := (gives_iff t env.tmp_unused).2.mpr hshort
  have hname : (JType.array t).name.drop 1 = t.signature := rfl
  simp only [findElemClass, hname, hasked, hfound, hinside, if_true]

theorem Env.Knows.findElemClass (h : env.Knows elem dims) (hk : k < dims) :
    findElemClass env (nested elem (k + 1)) = pure (nested elem k) := by
  apply findElemClass_eq (h.found k hk)
  intro x hx
  cases k with
  | zero => exact h.short x hx
  | succ k => cases hx

theorem Env.Knows.of_succ (h : env.Knows elem (dims + 1)) : env.Knows elem dims :=
  ⟨fun k hk => h.found k (Nat.lt_succ_of_lt hk), h.short, fun k hk => h.fits k (Nat.lt_succ_of_lt hk)⟩

theorem Env.Knows.nameArray (h : env.Knows elem dims) (hk : k < dims) :
    nameArray env (nested elem k) = pure ⟨⟩ := by
  have hbuilds := builds_arrayNameOf env.name_unused (describes_withClass (nested elem k) 0)
  exact if_pos (hbuilds.inside_iff.mpr (h.fits k hk))

theorem Env.Knows.specialAllocArray (h : env.Knows elem dims) (hk : k < dims) (size : Size) :
    specialAllocArray env (nested elem k) size = allocByteArray env (nested elem k) size := by
  unfold MultiArray.specialAllocArray
  rw [h.nameArray hk]
  rfl

theorem enter_of_room {room : Nat} (h : stackNeeded ≤ room) (t : JType) :
    enter env room t = findElemClass env t := by
  unfold enter
  rw [if_neg (Nat.not_lt.mpr h)]

theorem enter_of_overflow (env : Env) {room : Nat} (h : room < stackNeeded) (t : JType) (s : State) :
    enter env room t s = .error (.stop (.panic "")) s := by
  unfold enter
  rw [if_pos h]
  rfl

/-- A dimension starts. -/
theorem Env.Knows.enter {room : Nat} (h : env.Knows elem dims) (hk : k < dims)
    (hroom : stackNeeded ≤ room) (s : State) :
    enter env room (nested elem (k + 1)) s = .ok (nested elem k) s := by
  rw [enter_of_room hroom, h.findElemClass hk]
  rfl

/-- A dimension has started because the stack has room for it. -/
theorem Env.Knows.of_enter {room : Nat} {s s' : State} (h : env.Knows elem dims) (hk : k < dims)
    (hrun : MultiArray.enter env room (nested elem (k + 1)) s = .ok t s') : t = nested elem k ∧ s' = s := by
  rcases Nat.lt_or_ge room stackNeeded with hlt | hroom
  · cases (enter_of_overflow env hlt _ s).symm.trans hrun
  · obtain ⟨rfl, rfl⟩ := Result.ok.inj ((h.enter hk hroom s).symm.trans hrun)
    exact ⟨rfl, rfl⟩

/-- The check and the lookup do not touch the state. -/
theorem enter_run (env : Env) (room : Nat) (t : JType) (s : State) :
    (∃ e, enter env room t s = .ok e s) ∨ ∃ e, enter env room t s = .error e s ∧ e ≠ .running := by
  rcases Nat.lt_or_ge room stackNeeded with hlt | hroom
  · exact Or.inr ⟨_, enter_of_overflow env hlt t s, nofun⟩
  · rw [enter_of_room hroom]
    unfold findElemClass
    cases hfind : env.findClass (findClassOrPrimitive env.tmp (t.name.drop 1)).2 with
    | none =>
      refine Or.inr ⟨.undefined, ?_, nofun⟩
      simp only
      rfl
    | some e =>
      by_cases hinside : (findClassOrPrimitive env.tmp (t.name.drop 1)).1.Inside
      · refine Or.inl ⟨e, ?_⟩
        simp only [if_pos hinside]
        rfl
      · refine Or.inr ⟨.undefined, ?_, nofun⟩
        simp only [if_neg hinside]
        rfl

theorem final_enter (env : Env) (room : Nat) (t : JType) (s : State) :
    final (enter env room t s) = s := by
  rcases enter_run env room t s with ⟨e, hrun⟩ | ⟨e, hrun, -⟩
  · rw [hrun, final_ok]
  · rw [hrun, final_error]

theorem enter_ne_running (env : Env) (room : Nat) (t : JType) (s s' : State) :
    enter env room t s ≠ .error .running s' := by
  intro h
  rcases enter_run env room t s with ⟨e, hrun⟩ | ⟨e, hrun, hne⟩
  · cases hrun.symm.trans h
  · exact hne (Result.error.inj (hrun.symm.trans h)).1

end Lookup

/-! ## What all parts have in common -/

section Common

variable {env : Env} {fuel : Nat} {elem : JType} {alloc : Run Address} {gcEpoch : BitVec 32}
  {array : Address} {s s' : State}

theorem keeps_of_final (env : Env) {α : Type} {x : Run α} (h : ∀ s, final (x s) = s) : Keeps (Later env) x :=
  fun s => by rw [h s]; exact Later.refl env s

theorem keeps_store (env : Env) (array : Address) (i : Nat) (v : Address) :
    Keeps (Later env) (store array i v) :=
  fun _ => ⟨le_rfl, List.suffix_rfl, fun _ h => h⟩

theorem nameArray_run (env : Env) (t : JType) (s : State) :
    nameArray env t s = .ok ⟨⟩ s ∨ nameArray env t s = .error .undefined s := by
  unfold nameArray
  split_ifs
  · exact Or.inl rfl
  · exact Or.inr rfl

theorem final_nameArray (env : Env) (t : JType) (s : State) : final (nameArray env t s) = s := by
  rcases nameArray_run env t s with hrun | hrun
  · rw [hrun, final_ok]
  · rw [hrun, final_error]

theorem keeps_specialAllocArray (elemClass : JType) (size : Size) :
    Keeps (Later env) (specialAllocArray env elemClass size) :=
  (keeps_of_final env (final_nameArray env elemClass)).bind Later.trans fun _ =>
    keeps_allocByteArray elemClass size

theorem keeps_epoch (env : Env) : Keeps (Later env) epoch := keeps_of_final env fun _ => rfl

theorem keeps_fill (h : Keeps (Later env) alloc) (i n : Nat) :
    Keeps (Later env) (fill alloc gcEpoch array i n) := by
  induction n generalizing i with
  | zero => exact keeps_of_final env fun _ => rfl
  | succ n ih =>
    refine h.bind Later.trans fun v => (keeps_store env array i v).bind Later.trans fun _ =>
      (keeps_epoch env).bind Later.trans fun e => ?_
    split_ifs
    · exact keeps_of_final env fun _ => rfl
    · exact ih (i + 1)

theorem keeps_attempt (h : Keeps (Later env) alloc) (elemClass : JType) (size : Size) :
    Keeps (Later env) (attempt env elemClass size alloc) := by
  refine (keeps_epoch env).bind Later.trans fun gcEpoch =>
    (keeps_specialAllocArray elemClass size).bind Later.trans fun array =>
      (keeps_epoch env).bind Later.trans fun e => ?_
  split_ifs
  · exact keeps_of_final env fun _ => rfl
  · refine (keeps_fill h 0 size).bind Later.trans fun b => ?_
    cases b with
    | true => exact keeps_of_final env fun _ => rfl
    | false => exact keeps_of_final env fun _ => rfl

theorem keeps_doAllocMultiArray (env : Env) (fuel room : Nat) (t : JType) (size : Size)
    (rest : List Size) : Keeps (Later env) (doAllocMultiArray env fuel room t size rest) := by
  induction rest generalizing room t size with
  | nil =>
    exact (keeps_of_final env (final_enter env _ t)).bind Later.trans fun elemClass =>
      keeps_specialAllocArray elemClass size
  | cons next rest ih =>
    refine (keeps_of_final env (final_enter env _ t)).bind Later.trans fun elemClass => ?_
    exact Keeps.retry (Later.refl env) Later.trans (keeps_attempt (ih _ elemClass next) elemClass size)
      fuel

/-- One element more. -/
theorem fill_succ {i n : Nat} {b : Bool} (h : fill alloc gcEpoch array i (n + 1) s = .ok b s') :
    ∃ v t, alloc s = .ok v t ∧
      (gcEpoch ≠ (t.stored array i v).epoch ∧ b = false ∧ s' = t.stored array i v ∨
        gcEpoch = (t.stored array i v).epoch ∧
          fill alloc gcEpoch array (i + 1) n (t.stored array i v) = .ok b s') := by
  obtain ⟨v, t, halloc, h⟩ := bind_ok h
  refine ⟨v, t, halloc, ?_⟩
  change (if gcEpoch ≠ (t.stored array i v).epoch then pure false
    else fill alloc gcEpoch array (i + 1) n) (t.stored array i v) = .ok b s' at h
  split_ifs at h with hepoch
  · obtain ⟨hb, hs⟩ := Result.ok.inj h
    exact Or.inl ⟨hepoch, hb.symm, hs.symm⟩
  · exact Or.inr ⟨not_not.mp hepoch, h⟩

theorem epoch_of_fill_false {i n : Nat} (h : fill alloc gcEpoch array i n s = .ok false s') :
    gcEpoch ≠ s'.epoch := by
  induction n generalizing i s with
  | zero => cases h
  | succ n ih =>
    obtain ⟨v, t, -, hstop | hgo⟩ := fill_succ h
    · rw [hstop.2.2]
      exact hstop.1
    · exact ih hgo.2

/-- An attempt is spoilt at the first array or in the loop. -/
theorem attempt_ok {elemClass : JType} {size : Size} {r : Option Address}
    (h : attempt env elemClass size alloc s = .ok r s') :
    ∃ a t, specialAllocArray env elemClass size s = .ok a t ∧
      (s.epoch ≠ t.epoch ∧ r = none ∧ s' = t ∨
        s.epoch = t.epoch ∧ ∃ b, fill alloc s.epoch a 0 size t = .ok b s' ∧
          r = if b then some a else none) := by
  change (specialAllocArray env elemClass size >>= _) s = .ok r s' at h
  obtain ⟨a, t, hrun, h⟩ := bind_ok h
  refine ⟨a, t, hrun, ?_⟩
  change (if s.epoch ≠ t.epoch then pure none
    else fill alloc s.epoch a 0 size >>= fun b => if b then pure (some a) else pure none) t = .ok r s' at h
  split_ifs at h with hepoch
  · obtain ⟨hr, hs⟩ := Result.ok.inj h
    exact Or.inl ⟨hepoch, hr.symm, hs.symm⟩
  · obtain ⟨b, u, hfill, h⟩ := bind_ok h
    refine Or.inr ⟨not_not.mp hepoch, b, ?_⟩
    cases b with
    | true =>
      obtain ⟨hr, hs⟩ := Result.ok.inj h
      exact ⟨hs ▸ hfill, hr.symm⟩
    | false =>
      obtain ⟨hr, hs⟩ := Result.ok.inj h
      exact ⟨hs ▸ hfill, hr.symm⟩

theorem attempt_spoilt {elemClass : JType} {size : Size} {a : Address} {t : State}
    (h : specialAllocArray env elemClass size s = .ok a t) (hepoch : s.epoch ≠ t.epoch) :
    attempt env elemClass size alloc s = .ok none t := by
  change (specialAllocArray env elemClass size >>= _) s = _
  rw [bind_of_ok h]
  change (if s.epoch ≠ t.epoch then pure none
    else fill alloc s.epoch a 0 size >>= fun b => if b then pure (some a) else pure none) t = _
  rw [if_pos hepoch]
  rfl

theorem attempt_error {elemClass : JType} {size : Size} {e : Halt}
    (h : specialAllocArray env elemClass size s = .error e s') :
    attempt env elemClass size alloc s = .error e s' := by
  change (specialAllocArray env elemClass size >>= _) s = _
  rw [bind_of_error h]

/-- Only a collection spoils an attempt. -/
theorem lt_of_spoilt (hkeeps : Keeps (Later env) alloc) {elemClass : JType} {size : Size}
    (h : attempt env elemClass size alloc s = .ok none s') : s.collections < s'.collections := by
  have hlater := (keeps_attempt hkeeps elemClass size).ok h
  apply Nat.lt_of_le_of_ne hlater.collections
  intro heq
  have hepoch : s.epoch = s'.epoch := congrArg (BitVec.ofNat 32) heq
  obtain ⟨a, t, -, ⟨hne, -, rfl⟩ | ⟨-, b, hfill, hr⟩⟩ := attempt_ok h
  · exact hne hepoch
  · cases b with
    | true => cases hr
    | false => exact epoch_of_fill_false hfill hepoch

end Common

/-! ## When the call ends -/

section Ends

variable {env : Env} {fuel m n : Nat} {alloc alloc' : Run Address}

theorem runs_of_keeps {α : Type} {x : Run α} (h : Keeps (Later env) x) : Runs State.collections x :=
  fun s => (h s).collections

theorem spends_epoch : Spends .running State.collections fuel epoch :=
  spends_of_ne fun _ _ => nofun

theorem spends_specialAllocArray (elemClass : JType) (size : Size) :
    Spends .running State.collections fuel (specialAllocArray env elemClass size) := by
  refine Spends.bind (spends_of_ne fun s s' hrun => ?_)
    (runs_of_keeps (keeps_of_final env (final_nameArray env elemClass)))
    fun _ => spends_of_ne fun s s' => ?_
  · rcases nameArray_run env elemClass s with hok | herror
    · cases hok.symm.trans hrun
    · cases herror.symm.trans hrun
  · unfold allocByteArray
    split <;> exact nofun

theorem spends_fill (hkeeps : Keeps (Later env) alloc)
    (h : Spends .running State.collections fuel alloc) (gcEpoch : BitVec 32) (array : Address)
    (i k : Nat) : Spends .running State.collections fuel (fill alloc gcEpoch array i k) := by
  induction k generalizing i with
  | zero => exact spends_of_ne fun _ _ => nofun
  | succ k ih =>
    refine h.bind (runs_of_keeps hkeeps) fun v => ?_
    refine Spends.bind (spends_of_ne fun _ _ => nofun) (runs_of_keeps (keeps_store env array i v))
      fun _ => ?_
    refine spends_epoch.bind (runs_of_keeps (keeps_epoch env)) fun e => ?_
    split_ifs
    · exact spends_of_ne fun _ _ => nofun
    · exact ih (i + 1)

theorem spends_attempt (hkeeps : Keeps (Later env) alloc)
    (h : Spends .running State.collections fuel alloc) (elemClass : JType) (size : Size) :
    Spends .running State.collections fuel (attempt env elemClass size alloc) := by
  refine spends_epoch.bind (runs_of_keeps (keeps_epoch env)) fun gcEpoch => ?_
  refine (spends_specialAllocArray elemClass size).bind
    (runs_of_keeps (keeps_specialAllocArray elemClass size)) fun array => ?_
  refine spends_epoch.bind (runs_of_keeps (keeps_epoch env)) fun e => ?_
  split_ifs
  · exact spends_of_ne fun _ _ => nofun
  · refine (spends_fill hkeeps h gcEpoch array 0 size).bind
      (runs_of_keeps (keeps_fill hkeeps 0 size)) fun b => ?_
    cases b with
    | true => exact spends_of_ne fun _ _ => nofun
    | false => exact spends_of_ne fun _ _ => nofun

theorem spends_enter (room : Nat) (t : JType) :
    Spends .running State.collections fuel (enter env room t) :=
  spends_of_ne fun s s' => enter_ne_running env room t s s'

theorem runs_enter (room : Nat) (t : JType) : Runs State.collections (enter env room t) :=
  runs_of_keeps (keeps_of_final env (final_enter env room t))

theorem spends_doAllocMultiArray (env : Env) (fuel room : Nat) (t : JType) (size : Size)
    (rest : List Size) :
    Spends .running State.collections fuel (doAllocMultiArray env fuel room t size rest) := by
  induction rest generalizing room t size with
  | nil => exact (spends_enter room t).bind (runs_enter room t) fun e => spends_specialAllocArray e size
  | cons next rest ih =>
    refine (spends_enter _ t).bind (runs_enter _ t) fun e => ?_
    have hkeeps := keeps_doAllocMultiArray env fuel (room - env.frame) e next rest
    apply (spends_attempt hkeeps (ih _ e next) e size).retry
    intro s s' h
    exact lt_of_spoilt hkeeps h

theorem refines_fill (h : Refines .running alloc alloc') (gcEpoch : BitVec 32) (array : Address)
    (i k : Nat) : Refines .running (fill alloc gcEpoch array i k) (fill alloc' gcEpoch array i k) := by
  induction k generalizing i with
  | zero => exact Refines.refl _ _
  | succ k ih =>
    refine h.bind fun v => (Refines.refl _ _).bind fun _ => (Refines.refl _ _).bind fun e => ?_
    split_ifs
    · exact Refines.refl _ _
    · exact ih (i + 1)

theorem refines_attempt (h : Refines .running alloc alloc') (elemClass : JType) (size : Size) :
    Refines .running (attempt env elemClass size alloc) (attempt env elemClass size alloc') := by
  refine (Refines.refl _ _).bind fun gcEpoch => (Refines.refl _ _).bind fun array =>
    (Refines.refl _ _).bind fun e => ?_
  split_ifs
  · exact Refines.refl _ _
  · exact (refines_fill h gcEpoch array 0 size).bind fun b => Refines.refl _ _

theorem refines_doAllocMultiArray (hle : m ≤ n) (room : Nat) (t : JType) (size : Size)
    (rest : List Size) :
    Refines .running (doAllocMultiArray env m room t size rest)
      (doAllocMultiArray env n room t size rest) := by
  induction rest generalizing room t size with
  | nil => exact Refines.refl _ _
  | cons next rest ih =>
    exact (Refines.refl _ _).bind fun e => (refines_attempt (ih _ e next) e size).retry hle

/-- The call ends exactly if only finitely many collections run meanwhile. -/
theorem call_ends_iff (env : Env) (c : Call) (s : State) :
    Ends .running (c.run env) s ↔ ∃ b, BoundedBy State.collections (c.run env) s b :=
  ends_iff_bounded (fun _ => spends_doAllocMultiArray _ _ _ _ _ _)
    fun hle => refines_doAllocMultiArray hle _ _ _ _

end Ends

end JxCore.MultiArray
