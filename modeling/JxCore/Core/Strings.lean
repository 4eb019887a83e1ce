import Mathlib.Data.List.Forall2
import Mathlib.Data.List.GetD
import Mathlib.Logic.Function.Basic
import Mathlib.Tactic.Push
import Mathlib.Tactic.SplitIfs
import JxCore.Basic

/-!
# Strings of the kernel (`core/load.c`)

A `String` object refers to an array of characters, and the kernel builds it by two allocations. The
heap is the one of the copying collector: a collection moves what survives to the other semispace and
leaves the old one as it was. The pointers that `newString` and its siblings keep in local variables
are no roots, so after a collection they still point to the old semispace. It can be read and
written, but it is no longer the heap.

With `ALL_ARRAYS_32BIT` every element of an array takes a word, the characters too.
-/

namespace JxCore.Strings

/-! ## Strings, objects and the heap -/

/-- A `char`. -/
abbrev Byte := BitVec 8

/-- An `u4_t`. -/
abbrev Word := BitVec 32

/-- The characters before the terminating zero. -/
structure CString where
  chars : List Byte
  noZero : 0 ∉ chars
  deriving DecidableEq

/-- The byte at an offset, with the terminating zero behind the characters. -/
def CString.at (s : CString) (i : Nat) : Byte := s.chars.getD i 0

/-- A word of a semispace. The semispace is told by the number of collections before it was filled,
so that a pointer into a semispace is not one into the same memory two collections later. -/
structure Address where
  epoch : Nat
  offset : Nat
  deriving DecidableEq

inductive ClassType where
  | klass
  | interface
  | arrayClass
  | primitive
  deriving DecidableEq

/-- What an allocation reads of a `ClassDesc`. -/
structure ClassDesc where
  name : String
  classType : ClassType
  deriving DecidableEq

/-- The name of the class of the arrays with such elements, as `allocByteArray` puts it together. -/
def ClassDesc.arrayName (elemClass : ClassDesc) : String :=
  if elemClass.classType = .klass ∨ elemClass.classType = .interface
  then "[L" ++ elemClass.name ++ ";" else "[" ++ elemClass.name

/-- `java/lang/String`. -/
def stringClass : ClassDesc := ⟨"java/lang/String", .klass⟩

/-- The class that `findClass(domain, "[Ljava/lang/String;")` gives. -/
def stringArrayClass : ClassDesc := ⟨"[Ljava/lang/String;", .arrayClass⟩

inductive Object where
  /-- A `String` with its `data[0]`. -/
  | string (value : Option Address)
  /-- An array of class `[C`. -/
  | chars (elements : List Word)
  /-- An array of references, with the name of its `arrayClass`. -/
  | strings (arrayClass : String) (elements : List (Option Address))
  deriving DecidableEq

/-- `OBJSIZE_OBJECT` and `OBJSIZE_ARRAY_32BIT`, with flags, magic, vtable and, for arrays, the size and
the class. -/
def Object.objSize : Object → Nat
  | string _ => 1 + 4
  | chars elements => elements.length + 5
  | strings _ elements => elements.length + 5

/-- What a collection leaves in the semispace it fills. -/
structure Survivors where
  top : Nat
  objects : Nat → Option Object
  below : ∀ i, top ≤ i → objects i = none

/-- Which allocations run the collector before they get their memory, and what survives then. -/
abbrev Collections := Nat → Option Survivors

structure Heap where
  /-- `domain->gc.epoch`. -/
  epoch : Nat
  /-- `heapTop`. -/
  top : Nat
  memory : Address → Option Object
  /-- The allocations so far. -/
  allocations : Nat
  /-- There are no objects above `heapTop`, and none in a semispace that is not filled yet. -/
  below : ∀ a, epoch < a.epoch ∨ a.epoch = epoch ∧ top ≤ a.offset → memory a = none

namespace Heap

/-- The object at an address of the semispace in use. -/
def At (h : Heap) (a : Address) (o : Object) : Prop :=
  a.epoch = h.epoch ∧ h.memory a = some o

/-- `gc_new_gc`: the semispaces are exchanged. -/
def collect (h : Heap) (s : Survivors) : Heap where
  epoch := h.epoch + 1
  top := s.top
  memory a := if a.epoch = h.epoch + 1 then s.objects a.offset else h.memory a
  allocations := h.allocations
  below a ha := by
    obtain hlt | ⟨heq, htop⟩ := ha
    · rw [if_neg (by omega)]
      exact h.below a (.inl (by omega))
    · rw [if_pos heq]
      exact s.below _ htop

/-- The heap when the next allocation gets its memory. -/
def ready (h : Heap) (collects : Collections) : Heap :=
  (collects h.allocations).elim h h.collect

/-- The start of the free memory. -/
def next (h : Heap) : Address := ⟨h.epoch, h.top⟩

theorem objSize_pos (o : Object) : 0 < o.objSize := by
  cases o <;> simp [Object.objSize]

/-- An object on the free memory. -/
def push (h : Heap) (o : Object) : Heap where
  epoch := h.epoch
  top := h.top + o.objSize
  memory := Function.update h.memory h.next (some o)
  allocations := h.allocations + 1
  below a ha := by
    have hne : a ≠ h.next := by
      rintro rfl
      simp only [next] at ha
      have := objSize_pos o
      omega
    rw [Function.update_of_ne hne]
    exact h.below a (by omega)

/-- `gc_allocDataInDomain`: the collector runs or not, and the object gets the memory from `heapTop`
on. What does not fit raises in the allocator, which then does not return to its caller. -/
def alloc (h : Heap) (collects : Collections) (o : Object) : Heap × Address :=
  ((h.ready collects).push o, (h.ready collects).next)

/-- A write into the object at an address, of the semispace in use or of an old one. -/
def write (h : Heap) (a : Address) (f : Object → Object) : Heap where
  epoch := h.epoch
  top := h.top
  memory := Function.update h.memory a ((h.memory a).map f)
  allocations := h.allocations
  below b hb := by
    by_cases hab : b = a
    · subst hab
      simp [h.below b hb]
    · rw [Function.update_of_ne hab]
      exact h.below b hb

end Heap

/-- `data[0] = value` for a `String`. -/
def Object.setValue (value : Address) : Object → Object
  | string _ => string (some value)
  | o => o

/-- `data[i] = c` for an array of characters. -/
def Object.setChar (i : Nat) (c : Word) : Object → Object
  | chars elements => chars (elements.set i c)
  | o => o

/-- `data[i] = s` for an array of strings. -/
def Object.setString (i : Nat) (s : Address) : Object → Object
  | strings arrayClass elements => strings arrayClass (elements.set i (some s))
  | o => o

/-! ## The functions of the kernel -/

/-- A `char` is signed, and it is stored into an `u4_t`. -/
def promote (c : Byte) : Word := c.signExtend 32

/-- `copyIntoCharArray`. -/
def copyIntoCharArray (h : Heap) (array : Address) (str : CString) (size : Nat) : Heap :=
  (List.range size).foldl (fun h i => h.write array (.setChar i (promote (str.at i)))) h

/-- `newString`. -/
def newString (collects : Collections) (h : Heap) (value : CString) : Heap × Address :=
  let (h, s) := h.alloc collects (.string none)
  let size := value.chars.length
  let (h, arrObj) := h.alloc collects (.chars (List.replicate size 0))
  let h := h.write s (.setValue arrObj)
  (copyIntoCharArray h arrObj value size, s)

/-- The element that `newStringFromClassname` stores for a character. -/
def dotted (c : Byte) : Byte := if c = 0x2f then 0x2e else c

/-- `newStringFromClassname`. -/
def newStringFromClassname (collects : Collections) (h : Heap) (value : CString) : Heap × Address :=
  let (h, s) := h.alloc collects (.string none)
  let size := value.chars.length
  let (h, arrObj) := h.alloc collects (.chars (List.replicate size 0))
  let h := h.write s (.setValue arrObj)
  ((List.range size).foldl (fun h i => h.write arrObj (.setChar i (promote (dotted (value.at i))))) h, s)

/-- The loop of `newStringArray`, from the `i`-th string on. -/
def storeStrings (collects : Collections) (arrObj : Address) : Nat → List CString → Heap → Heap
  | _, [], h => h
  | i, s :: arr, h =>
    let (h, sObj) := newString collects h s
    storeStrings collects arrObj (i + 1) arr (h.write arrObj (.setString i sObj))

/-- `newStringArray`. The class of string arrays is what it passes for the class of the elements. -/
def newStringArray (collects : Collections) (h : Heap) (arr : List CString) : Heap × Address :=
  let acl := stringArrayClass
  let (h, arrObj) := h.alloc collects (.strings acl.arrayName (List.replicate arr.length none))
  (storeStrings collects arrObj 0 arr h, arrObj)

/-- `data[0]` of a `String`. -/
def Object.value : Object → Option Address
  | string value => value
  | _ => none

/-- The elements of an array of characters. -/
def Object.elements : Object → Option (List Word)
  | chars elements => some elements
  | _ => none

/-- The elements of `(ArrayDesc *) str->data[0]`, read where the pointers lead. -/
def Heap.charArray (h : Heap) (str : Address) : Option (List Word) :=
  (h.memory str).bind fun s => s.value.bind fun array => (h.memory array).bind Object.elements

/-- `copyFromCharArray`. The buffer is the memory from `buf` on. -/
def copyFromCharArray (buf : Nat → Byte) (buflen : Nat) (array : List Word) : Nat → Byte :=
  if buflen = 0 then buf
  else
    let size := if array.length < buflen - 1 then array.length else buflen - 1
    let buf := (List.range size).foldl (fun buf i => Function.update buf i ((array.getD i 0).truncate 8)) buf
    Function.update buf size 0

/-- `stringToChar`. -/
def stringToChar (h : Heap) (str : Address) (c : Nat → Byte) (buflen : Nat) : Option (Nat → Byte) :=
  (h.charArray str).map (copyFromCharArray c buflen)

/-- `strncmp` from offset `i` on, `n` bytes at most. -/
def strncmp (s1 s2 : Nat → Byte) (i : Nat) : Nat → Int
  | 0 => 0
  | n + 1 =>
    if s1 i ≠ s2 i then (s1 i).toNat - (s2 i).toNat
    else if s1 i = 0 then 0
    else strncmp s1 s2 (i + 1) n

/-- The `i`-th byte of the words of an array; the least byte of a word comes first. -/
def byteAt (array : List Word) (i : Nat) : Byte :=
  ((array.getD (i / 4) 0) >>> (8 * (i % 4))).truncate 8

/-- `string_CompareChar`. -/
def stringCompareChar (h : Heap) (str : Address) (c : CString) : Option Int :=
  (h.charArray str).map fun array => strncmp c.at (byteAt array) 0 array.length

/-! ## What a string denotes -/

/-- The address holds a `String` of the heap whose value array, of the heap as well, has these bytes. -/
def Denotes (h : Heap) (s : Address) (bytes : List Byte) : Prop :=
  ∃ array, h.At s (.string (some array)) ∧ h.At array (.chars (bytes.map (·.zeroExtend 32)))

/-- The address holds an array of this class, with a `String` of the heap for each of the byte
strings. -/
def DenotesAll (h : Heap) (array : Address) (arrayClass : String) (arr : List CString) : Prop :=
  ∃ elements, h.At array (.strings arrayClass elements) ∧
    List.Forall₂ (fun e v => ∃ s, e = some s ∧ Denotes h s v.chars) elements arr

/-! ## The sign of a character -/

theorem promote_eq_zeroExtend_iff (c : Byte) : promote c = c.zeroExtend 32 ↔ c < 0x80 := by
  revert c
  decide

theorem map_promote_eq_iff (cs : List Byte) :
    cs.map promote = cs.map (·.zeroExtend 32) ↔ ∀ c ∈ cs, c < 0x80 := by
  simp [List.map_inj_left, promote_eq_zeroExtend_iff]

/-- A character that goes through an array comes back. -/
theorem truncate_promote (c : Byte) : (promote c).truncate 8 = c := by
  revert c
  decide

/-! ## The heap -/

namespace Heap

section

variable {h : Heap} {collects : Collections}

theorem ready_epoch : (h.ready collects).epoch = h.epoch + (collects h.allocations).isSome.toNat := by
  unfold ready
  cases collects h.allocations <;> simp [collect]

theorem ready_allocations : (h.ready collects).allocations = h.allocations := by
  unfold ready
  cases collects h.allocations <;> rfl

/-- A collection does not touch what lies in the semispaces filled before. -/
theorem ready_memory {a : Address} (ha : a.epoch ≤ h.epoch) :
    (h.ready collects).memory a = h.memory a := by
  unfold ready
  cases collects h.allocations with
  | none => rfl
  | some s =>
    simp only [Option.elim_some, collect]
    rw [if_neg (by omega)]

end

@[simp] theorem push_epoch (h : Heap) (o : Object) : (h.push o).epoch = h.epoch := rfl

@[simp] theorem push_allocations (h : Heap) (o : Object) :
    (h.push o).allocations = h.allocations + 1 := rfl

theorem push_memory (h : Heap) (o : Object) :
    (h.push o).memory = Function.update h.memory h.next (some o) := rfl

@[simp] theorem next_epoch (h : Heap) : h.next.epoch = h.epoch := rfl

@[simp] theorem write_epoch (h : Heap) (a : Address) (f : Object → Object) :
    (h.write a f).epoch = h.epoch := rfl

@[simp] theorem write_allocations (h : Heap) (a : Address) (f : Object → Object) :
    (h.write a f).allocations = h.allocations := rfl

theorem write_memory (h : Heap) (a : Address) (f : Object → Object) :
    (h.write a f).memory = Function.update h.memory a ((h.memory a).map f) := rfl

/-- Two writes into one object are one. -/
theorem write_write (h : Heap) (a : Address) (f g : Object → Object) :
    (h.write a f).write a g = h.write a (g ∘ f) := by
  simp [write, Function.comp_def]

theorem write_id (h : Heap) (a : Address) : h.write a id = h := by
  simp [write]

/-- A loop that writes one object writes it once. -/
theorem foldl_write (h : Heap) (a : Address) (f : Nat → Object → Object) (is : List Nat) :
    is.foldl (fun h i => h.write a (f i)) h = h.write a fun o => is.foldl (fun o i => f i o) o := by
  suffices ∀ g : Object → Object, is.foldl (fun h i => h.write a (f i)) (h.write a g) =
      h.write a fun o => is.foldl (fun o i => f i o) (g o) by
    simpa [write_id] using this id
  induction is with
  | nil => exact fun g => rfl
  | cons i is ih =>
    intro g
    rw [List.foldl_cons, write_write, ih]
    rfl

/-- An object of the heap lies below the free memory, now and after a collection. -/
theorem ne_next {h : Heap} {a : Address} {o : Object} (ha : h.memory a = some o) : a ≠ h.next := by
  rintro rfl
  rw [h.below h.next (.inr ⟨rfl, Nat.le_refl _⟩)] at ha
  cases ha

/-- Where an object is, is not in a semispace to be filled. -/
theorem epoch_le {h : Heap} {a : Address} {o : Object} (ha : h.memory a = some o) :
    a.epoch ≤ h.epoch := by
  by_contra hlt
  rw [h.below a (.inl (by omega))] at ha
  cases ha

theorem ready_memory_of_some {h : Heap} {a : Address} {o : Object} (collects : Collections)
    (ha : h.memory a = some o) : (h.ready collects).memory a = some o := by
  rw [ready_memory (epoch_le ha), ha]

/-- An allocation does not touch the objects that exist. -/
theorem push_memory_of_some {h : Heap} {a : Address} {o o' : Object} (ha : h.memory a = some o) :
    (h.push o').memory a = some o := by
  rw [push_memory, Function.update_of_ne (ne_next ha), ha]

@[simp] theorem push_memory_next (h : Heap) (o : Object) : (h.push o).memory h.next = some o := by
  rw [push_memory, Function.update_self]

end Heap

/-! ## The loops over the characters -/

theorem foldl_set {α : Type} (f : Nat → α) (n : Nat) (l : List α) (hn : n ≤ l.length) :
    (List.range n).foldl (fun l i => l.set i (f i)) l = (List.range n).map f ++ l.drop n := by
  induction n with
  | zero => simp
  | succ n ih =>
    rw [List.range_succ, List.foldl_append, ih (by omega), List.map_append]
    simp only [List.foldl_cons, List.foldl_nil, List.map_cons, List.map_nil, List.append_assoc]
    rw [List.set_append_right _ _ (by simp), List.length_map, List.length_range, Nat.sub_self,
      List.drop_eq_getElem_cons (by omega), List.set_cons_zero]
    rfl

theorem foldl_setChar (f : Nat → Word) (is : List Nat) (elements : List Word) :
    is.foldl (fun o i => Object.setChar i (f i) o) (.chars elements) =
      .chars (is.foldl (fun l i => l.set i (f i)) elements) := by
  induction is generalizing elements with
  | nil => rfl
  | cons i is ih => exact ih _

/-- The loop of the two constructors, over an array of the string's length. -/
theorem foldl_setChar_at (g : Byte → Word) (v : CString) :
    (List.range v.chars.length).foldl (fun o i => Object.setChar i (g (v.at i)) o)
      (.chars (List.replicate v.chars.length 0)) = .chars (v.chars.map g) := by
  rw [foldl_setChar, foldl_set _ _ _ (by simp), List.drop_of_length_le (by simp), List.append_nil]
  congr 1
  apply List.ext_getElem (by simp)
  intro i h1 h2
  have hi : i < v.chars.length := by simpa using h2
  simp [CString.at, hi]

/-! ## What the constructors leave -/

/-- The result of a constructor: a `String` and its array, each where its allocation put it. -/
structure Built (collects : Collections) (h : Heap) (bytes : List Byte) (r : Heap × Address)
    (array : Address) : Prop where
  address : r.2.epoch = h.epoch + (collects h.allocations).isSome.toNat
  epoch : r.1.epoch = r.2.epoch + (collects (h.allocations + 1)).isSome.toNat
  array_epoch : array.epoch = r.1.epoch
  allocations : r.1.allocations = h.allocations + 2
  string : r.1.memory r.2 = some (.string (some array))
  chars : r.1.memory array = some (.chars (bytes.map promote))
  frame : ∀ a o, h.memory a = some o → r.1.memory a = some o

/-- The two allocations and the stores of both constructors. -/
theorem built_of_stores (collects : Collections) (h : Heap) (v : CString) (g : Byte → Byte) :
    let n := v.chars.length
    let r1 := h.alloc collects (.string none)
    let r2 := r1.1.alloc collects (.chars (List.replicate n 0))
    Built collects h (v.chars.map g)
      ((List.range n).foldl (fun h i => h.write r2.2 (.setChar i (promote (g (v.at i)))))
        (r2.1.write r1.2 (.setValue r2.2)), r1.2) r2.2 := by
  intro n r1 r2
  rw [Heap.foldl_write]
  have hf := foldl_setChar_at (promote ∘ g) v
  have hs : (r1.1.ready collects).memory r1.2 = some (.string none) :=
    Heap.ready_memory_of_some collects (Heap.push_memory_next _ _)
  have hne : r1.2 ≠ r2.2 := Heap.ne_next hs
  have hr2 : r2.1.memory r1.2 = some (.string none) := Heap.push_memory_of_some hs
  have harr : r2.1.memory r2.2 = some (.chars (List.replicate n 0)) := Heap.push_memory_next _ _
  refine ⟨?_, ?_, ?_, ?_, ?_, ?_, ?_⟩
  · exact Heap.ready_epoch
  · have := @Heap.ready_epoch r1.1 collects
    simpa [r1, r2, Heap.alloc, Heap.ready_allocations] using this
  · rfl
  · simp [r1, r2, Heap.alloc, Heap.ready_allocations]
  · simp [Heap.write_memory, Function.update_of_ne hne, hr2, Object.setValue]
  · simpa [Heap.write_memory, Function.update_of_ne hne.symm, harr, n, Function.comp_def] using hf
  · intro a o ha
    have h1 : (h.ready collects).memory a = some o := Heap.ready_memory_of_some collects ha
    have h2 : (r1.1.ready collects).memory a = some o :=
      Heap.ready_memory_of_some collects (Heap.push_memory_of_some h1)
    have h3 : r2.1.memory a = some o := Heap.push_memory_of_some h2
    have has : a ≠ r1.2 := Heap.ne_next h1
    have haa : a ≠ r2.2 := Heap.ne_next h2
    simp [Heap.write_memory, Function.update_of_ne has, Function.update_of_ne haa, h3]

theorem built_newString (collects : Collections) (h : Heap) (v : CString) :
    ∃ array, Built collects h v.chars (newString collects h v) array := by
  have hb := built_of_stores collects h v id
  rw [List.map_id] at hb
  exact ⟨_, hb⟩

theorem built_newStringFromClassname (collects : Collections) (h : Heap) (v : CString) :
    ∃ array, Built collects h (v.chars.map dotted) (newStringFromClassname collects h v) array := by
  exact ⟨_, built_of_stores collects h v dotted⟩

theorem Built.denotes_iff {collects : Collections} {h : Heap} {bytes : List Byte}
    {r : Heap × Address} {array : Address} (hb : Built collects h bytes r array) :
    Denotes r.1 r.2 bytes ↔
      collects (h.allocations + 1) = none ∧ ∀ c ∈ bytes, c < 0x80 := by
  have hcurrent : r.2.epoch = r.1.epoch ↔ collects (h.allocations + 1) = none := by
    rw [hb.epoch]
    cases collects (h.allocations + 1) <;> simp
  constructor
  · rintro ⟨array', ⟨hs, hstring⟩, -, hchars⟩
    obtain rfl : array = array' := by simpa [hb.string] using hstring
    have hmap : bytes.map promote = bytes.map (·.zeroExtend 32) := by
      simpa [hb.chars] using hchars
    exact ⟨hcurrent.mp hs, (map_promote_eq_iff bytes).mp hmap⟩
  · rintro ⟨hnone, hascii⟩
    refine ⟨array, ⟨hcurrent.mpr hnone, hb.string⟩, hb.array_epoch, ?_⟩
    rw [hb.chars, (map_promote_eq_iff bytes).mpr hascii]

theorem newString_denotes_iff (collects : Collections) (h : Heap) (v : CString) :
    Denotes (newString collects h v).1 (newString collects h v).2 v.chars ↔
      collects (h.allocations + 1) = none ∧ ∀ c ∈ v.chars, c < 0x80 := by
  obtain ⟨array, hb⟩ := built_newString collects h v
  exact hb.denotes_iff

theorem dotted_lt_iff (c : Byte) : dotted c < 0x80 ↔ c < 0x80 := by
  revert c
  decide

theorem newStringFromClassname_denotes_iff (collects : Collections) (h : Heap) (v : CString) :
    Denotes (newStringFromClassname collects h v).1 (newStringFromClassname collects h v).2
        (v.chars.map dotted) ↔
      collects (h.allocations + 1) = none ∧ ∀ c ∈ v.chars, c < 0x80 := by
  obtain ⟨array, hb⟩ := built_newStringFromClassname collects h v
  rw [hb.denotes_iff]
  simp only [List.forall_mem_map, dotted_lt_iff]

/-- The pointers lead to the characters, also where they lead to the old semispace. -/
theorem Built.charArray {collects : Collections} {h : Heap} {bytes : List Byte}
    {r : Heap × Address} {array : Address} (hb : Built collects h bytes r array) :
    r.1.charArray r.2 = some (bytes.map promote) := by
  simp [Heap.charArray, hb.string, hb.chars, Object.value, Object.elements]

/-! ## Reading a string back -/

theorem foldl_update (f : Nat → Byte) (n : Nat) (buf : Nat → Byte) (i : Nat) :
    (List.range n).foldl (fun buf i => Function.update buf i (f i)) buf i =
      if i < n then f i else buf i := by
  induction n with
  | zero => simp
  | succ n ih =>
    rw [List.range_succ, List.foldl_append, List.foldl_cons, List.foldl_nil]
    by_cases hi : i = n
    · subst hi
      simp
    · rw [Function.update_of_ne hi, ih]
      by_cases hlt : i < n
      · rw [if_pos hlt, if_pos (by omega)]
      · rw [if_neg hlt, if_neg (by omega)]

/-- The buffer after the string, cut to `n` bytes with the zero, was stored into it. -/
def Stored (buf : Nat → Byte) (n : Nat) (v : List Byte) (i : Nat) : Byte :=
  if i < min (n - 1) v.length then v.getD i 0
  else if i = min (n - 1) v.length ∧ 0 < n then 0
  else buf i

theorem copyFromCharArray_eq (buf : Nat → Byte) (n : Nat) (v : List Byte) :
    copyFromCharArray buf n (v.map promote) = Stored buf n v := by
  by_cases hn : n = 0
  · subst hn
    funext i
    simp [copyFromCharArray, Stored]
  · have hsize : (if (v.map promote).length < n - 1 then (v.map promote).length else n - 1) =
        min (n - 1) v.length := by
      rw [List.length_map]
      split_ifs <;> omega
    rw [copyFromCharArray, if_neg hn]
    simp only [hsize]
    funext i
    simp only [Stored]
    by_cases hi : i = min (n - 1) v.length
    · rw [hi, Function.update_self, if_neg (by omega), if_pos ⟨rfl, by omega⟩]
    · rw [Function.update_of_ne hi, foldl_update]
      by_cases hlt : i < min (n - 1) v.length
      · rw [if_pos hlt, if_pos hlt]
        have hv : i < v.length := by omega
        simp [hv, truncate_promote]
      · rw [if_neg hlt, if_neg hlt, if_neg (fun h => hi h.1)]

theorem stringToChar_newString (collects : Collections) (h : Heap) (v : CString)
    (buf : Nat → Byte) (n : Nat) :
    stringToChar (newString collects h v).1 (newString collects h v).2 buf n =
      some (Stored buf n v.chars) := by
  obtain ⟨array, hb⟩ := built_newString collects h v
  rw [stringToChar, hb.charArray, Option.map_some, copyFromCharArray_eq]

/-! ## Comparing a string -/

/-- What the comparison of `n` bytes looks at: everything up to the end of the first string. -/
def Agrees (c : CString) (s2 : Nat → Byte) (n : Nat) : Prop :=
  ∀ i < n, i ≤ c.chars.length → c.at i = s2 i

theorem CString.at_eq_zero_iff (c : CString) (i : Nat) : c.at i = 0 ↔ c.chars.length ≤ i := by
  unfold CString.at
  constructor
  · intro hzero
    by_contra hlt
    have hi : i < c.chars.length := Nat.lt_of_not_le hlt
    rw [List.getD_eq_getElem _ _ hi] at hzero
    exact c.noZero (hzero ▸ List.getElem_mem hi)
  · exact fun hle => List.getD_eq_default _ _ hle

theorem strncmp_eq_zero_iff (c : CString) (s2 : Nat → Byte) (n i : Nat) (hi : i ≤ c.chars.length) :
    strncmp c.at s2 i n = 0 ↔ ∀ j < i + n, i ≤ j → j ≤ c.chars.length → c.at j = s2 j := by
  induction n generalizing i with
  | zero =>
    simp only [strncmp, Nat.add_zero, true_iff]
    intro j hj hij
    omega
  | succ n ih =>
    rw [strncmp]
    split_ifs with hne hzero
    · -- the bytes differ here, and the difference of two bytes is not zero then
      have hsub : ((c.at i).toNat : Int) - (s2 i).toNat ≠ 0 := by
        intro h0
        exact hne (BitVec.eq_of_toNat_eq (by omega))
      simp only [hsub, false_iff]
      exact fun hall => hne (hall i (by omega) (Nat.le_refl _) hi)
    · -- the end of both strings
      have hend : c.chars.length ≤ i := (c.at_eq_zero_iff i).mp hzero
      simp only [true_iff]
      intro j _ hij hjc
      obtain rfl : j = i := by omega
      exact not_not.mp hne
    · have hlt : i < c.chars.length := by
        by_contra hle
        exact hzero ((c.at_eq_zero_iff i).mpr (by omega))
      rw [ih (i + 1) hlt]
      constructor
      · intro hall j hj hij hjc
        obtain rfl | hlt' := Nat.eq_or_lt_of_le hij
        · exact not_not.mp hne
        · exact hall j (by omega) hlt' hjc
      · exact fun hall j hj hij hjc => hall j (by omega) (by omega) hjc

/-- The bytes of a character that was stored as a word: the character, then its sign three times. -/
def spelled (v : List Byte) (i : Nat) : Byte :=
  let c := v.getD (i / 4) 0
  if i % 4 = 0 then c else if c < 0x80 then 0 else 0xff

theorem shift_promote (c : Byte) (k : Fin 4) :
    ((promote c) >>> (8 * k.val)).truncate 8 =
      if k.val = 0 then c else if c < 0x80 then 0 else (0xff : Byte) := by
  revert c k
  decide

theorem byteAt_map_promote (v : List Byte) (i : Nat) : byteAt (v.map promote) i = spelled v i := by
  have hget : (v.map promote).getD (i / 4) 0 = promote (v.getD (i / 4) 0) := by
    have hzero : promote 0 = 0 := by decide
    rw [← hzero, List.getD_map]
  rw [byteAt, hget]
  exact shift_promote _ ⟨i % 4, Nat.mod_lt _ (by omega)⟩

/-- The words of a string begin with the string itself. -/
def SelfSpelled (v : List Byte) : Prop := ∀ i < v.length, v.getD i 0 = spelled v i

/-- When the comparison of the string `v` with `c` is right: `v` itself has to be spelled by its
words, and another string must differ from these somewhere up to its end. -/
def Comparable (v c : CString) : Prop :=
  if c = v then SelfSpelled v.chars
  else ∃ i < v.chars.length, i ≤ c.chars.length ∧ c.at i ≠ spelled v.chars i

theorem stringCompareChar_newString (collects : Collections) (h : Heap) (v c : CString) :
    (stringCompareChar (newString collects h v).1 (newString collects h v).2 c = some 0 ↔ v = c) ↔
      Comparable v c := by
  obtain ⟨array, hb⟩ := built_newString collects h v
  have hcmp : stringCompareChar (newString collects h v).1 (newString collects h v).2 c = some 0 ↔
      Agrees c (spelled v.chars) v.chars.length := by
    have hbytes : byteAt (v.chars.map promote) = spelled v.chars := funext (byteAt_map_promote _)
    rw [stringCompareChar, hb.charArray, Option.map_some, Option.some_inj, hbytes, List.length_map,
      strncmp_eq_zero_iff c _ _ 0 (Nat.zero_le _), Agrees]
    simp
  rw [hcmp, Comparable]
  split_ifs with hcv
  · subst hcv
    simp only [iff_true, Agrees, SelfSpelled, CString.at]
    exact forall₂_congr fun i hi => forall_prop_of_true (Nat.le_of_lt hi)
  · have hvc : v ≠ c := fun h => hcv h.symm
    simp only [hvc, iff_false, Agrees]
    push Not
    rfl

/-- The strings that compare equal to themselves. -/
theorem selfSpelled_iff (v : CString) :
    SelfSpelled v.chars ↔ v.chars.length ≤ 1 ∨
      0x80 ≤ v.at 0 ∧ ∀ i < v.chars.length, 0 < i → v.at i = 0xff := by
  have hself : SelfSpelled v.chars ↔ ∀ i < v.chars.length, v.at i = spelled v.chars i := Iff.rfl
  have hspelled : ∀ i, spelled v.chars i =
      if i % 4 = 0 then v.at (i / 4) else if v.at (i / 4) < 0x80 then 0 else 0xff := fun i => rfl
  rw [hself]
  constructor
  · intro hall
    by_cases hlen : v.chars.length ≤ 1
    · exact .inl hlen
    have hsign : 0x80 ≤ v.at 0 := by
      by_contra hlt
      have h1 : v.at 1 = 0 := by
        rw [hall 1 (by omega), hspelled, if_neg (by omega), if_pos (by simpa using hlt)]
      have := (v.at_eq_zero_iff 1).mp h1
      omega
    refine .inr ⟨hsign, fun i hi hpos => ?_⟩
    -- the byte at `i` comes from the character at `i / 4`, which is `0x80` or more
    induction i using Nat.strongRecOn with
    | ind i ih =>
      rw [hall i hi, hspelled]
      split_ifs with hmod hlow
      · exact ih (i / 4) (by omega) (by omega) (by omega)
      · exfalso
        by_cases hfirst : i / 4 = 0
        · rw [hfirst] at hlow
          exact absurd hlow (BitVec.not_lt.mpr hsign)
        · rw [ih (i / 4) (by omega) (by omega) (by omega)] at hlow
          exact absurd hlow (by decide)
      · rfl
  · intro hcases i hi
    rw [hspelled]
    by_cases hfirst : i = 0
    · subst hfirst
      rfl
    obtain hlen | ⟨hsign, hrest⟩ := hcases
    · omega
    rw [hrest i hi (by omega)]
    split_ifs with hmod hlow
    · exact (hrest (i / 4) (by omega) (by omega)).symm
    · exfalso
      by_cases hzero : i / 4 = 0
      · rw [hzero] at hlow
        exact absurd hlow (BitVec.not_lt.mpr hsign)
      · rw [hrest (i / 4) (by omega) (by omega)] at hlow
        exact absurd hlow (by decide)
    · rfl

/-! ## Arrays of strings -/

/-- The heap when `storeStrings` has put the first string into the array. -/
def storeFirst (collects : Collections) (arrObj : Address) (i : Nat) (v : CString) (h : Heap) : Heap :=
  (newString collects h v).1.write arrObj (.setString i (newString collects h v).2)

theorem storeStrings_cons (collects : Collections) (arrObj : Address) (i : Nat) (v : CString)
    (arr : List CString) (h : Heap) :
    storeStrings collects arrObj i (v :: arr) h =
      storeStrings collects arrObj (i + 1) arr (storeFirst collects arrObj i v h) := rfl

theorem storeFirst_allocations (collects : Collections) (arrObj : Address) (i : Nat) (v : CString)
    (h : Heap) : (storeFirst collects arrObj i v h).allocations = h.allocations + 2 := by
  obtain ⟨array, hb⟩ := built_newString collects h v
  exact hb.allocations

theorem storeFirst_epoch (collects : Collections) (arrObj : Address) (i : Nat) (v : CString)
    (h : Heap) : (storeFirst collects arrObj i v h).epoch =
      h.epoch + (collects h.allocations).isSome.toNat +
        (collects (h.allocations + 1)).isSome.toNat := by
  obtain ⟨array, hb⟩ := built_newString collects h v
  rw [← hb.address]
  exact hb.epoch

theorem epoch_le_storeStrings (collects : Collections) (arrObj : Address) (i : Nat)
    (arr : List CString) (h : Heap) : h.epoch ≤ (storeStrings collects arrObj i arr h).epoch := by
  induction arr generalizing i h with
  | nil => exact Nat.le_refl _
  | cons v arr ih =>
    rw [storeStrings_cons]
    have hfirst := storeFirst_epoch collects arrObj i v h
    exact Nat.le_trans (by omega) (ih _ _)

/-- The array stays in the heap only if none of the allocations ran the collector. -/
theorem collects_of_epoch_eq (collects : Collections) (arrObj : Address) (i : Nat)
    (arr : List CString) (h : Heap) (heq : (storeStrings collects arrObj i arr h).epoch = h.epoch) :
    ∀ k < 2 * arr.length, collects (h.allocations + k) = none := by
  induction arr generalizing i h with
  | nil => exact fun k hk => absurd hk (Nat.not_lt_zero _)
  | cons v arr ih =>
    rw [storeStrings_cons] at heq
    have hfirst := storeFirst_epoch collects arrObj i v h
    have hrest := epoch_le_storeStrings collects arrObj (i + 1) arr (storeFirst collects arrObj i v h)
    have h0 : (collects h.allocations).isSome.toNat = 0 := by omega
    have h1 : (collects (h.allocations + 1)).isSome.toNat = 0 := by omega
    have hlater := ih (i + 1) (storeFirst collects arrObj i v h) (by omega)
    rw [storeFirst_allocations] at hlater
    intro k hk
    rw [List.length_cons] at hk
    obtain rfl | rfl | hk2 : k = 0 ∨ k = 1 ∨ 2 ≤ k := by omega
    · cases hc : collects (h.allocations + 0) <;> simp_all
    · cases hc : collects (h.allocations + 1) <;> simp_all
    · have := hlater (k - 2) (by omega)
      rwa [show h.allocations + 2 + (k - 2) = h.allocations + k by omega] at this

/-- The element is a `String` of the heap whose array has the characters as `newString` stores them. -/
def Holds (h : Heap) (e : Option Address) (v : CString) : Prop :=
  ∃ s array, e = some s ∧ h.At s (.string (some array)) ∧ h.At array (.chars (v.chars.map promote))

theorem Holds.denotes_iff {h : Heap} {e : Option Address} {v : CString} (hh : Holds h e v) :
    (∃ s, e = some s ∧ Denotes h s v.chars) ↔ ∀ c ∈ v.chars, c < 0x80 := by
  obtain ⟨s, array, rfl, hs, harray⟩ := hh
  constructor
  · rintro ⟨s', hs', array', hstring, hchars⟩
    obtain rfl : s = s' := by simpa using hs'
    obtain rfl : array = array' := by simpa [hs.2] using hstring.2
    apply (map_promote_eq_iff v.chars).mp
    simpa [harray.2] using hchars.2
  · intro hascii
    rw [(map_promote_eq_iff v.chars).mpr hascii] at harray
    exact ⟨s, rfl, array, hs, harray⟩

/-- Without a collection the strings stored so far stay, and the next one is stored behind them. -/
theorem storeFirst_stored {collects : Collections} {arrObj : Address} {v : CString} {h : Heap}
    {cls : String} {done rest : List (Option Address)} {vs : List CString}
    (h0 : collects h.allocations = none) (h1 : collects (h.allocations + 1) = none)
    (harr : h.memory arrObj = some (.strings cls (done ++ none :: rest)))
    (hdone : List.Forall₂ (Holds h) done vs) :
    let h' := storeFirst collects arrObj done.length v h
    let s := (newString collects h v).2
    h'.memory arrObj = some (.strings cls (done ++ [some s] ++ rest)) ∧
      List.Forall₂ (Holds h') (done ++ [some s]) (vs ++ [v]) := by
  intro h' s
  obtain ⟨array, hb⟩ := built_newString collects h v
  have hepoch : h'.epoch = h.epoch := by
    have := storeFirst_epoch collects arrObj done.length v h
    simpa [h0, h1] using this
  have hsEpoch : s.epoch = h.epoch := by simpa [h0] using hb.address
  have harr' := hb.frame _ _ harr
  -- what is not the array is as `newString` left it
  have hother : ∀ a o, (newString collects h v).1.memory a = some o → (∀ es, o ≠ .strings cls es) →
      h'.memory a = some o := by
    intro a o ha hes
    have hne : a ≠ arrObj := by
      rintro rfl
      exact hes _ (Option.some.inj (ha.symm.trans harr'))
    change Function.update _ _ _ a = _
    rw [Function.update_of_ne hne, ha]
  have hkeep : ∀ e w, Holds h e w → Holds h' e w := by
    rintro e w ⟨s', a', rfl, ⟨hs1, hs2⟩, ha1, ha2⟩
    exact ⟨s', a', rfl, ⟨hs1.trans hepoch.symm, hother _ _ (hb.frame _ _ hs2) (by simp)⟩,
      ha1.trans hepoch.symm, hother _ _ (hb.frame _ _ ha2) (by simp)⟩
  constructor
  · change Function.update _ _ _ arrObj = _
    rw [Function.update_self, harr']
    simp [Object.setString, s]
  · apply List.rel_append (hdone.imp hkeep)
    refine .cons ⟨s, array, rfl, ⟨hsEpoch.trans hepoch.symm, ?_⟩, ?_, ?_⟩ .nil
    · exact hother _ _ hb.string (by simp)
    · exact hb.array_epoch
    · exact hother _ _ hb.chars (by simp)

theorem storeStrings_stored {collects : Collections} {arrObj : Address} (arr : List CString)
    {h : Heap} {cls : String} {done : List (Option Address)} {vs : List CString}
    (hnone : ∀ k < 2 * arr.length, collects (h.allocations + k) = none)
    (harr : h.memory arrObj = some (.strings cls (done ++ List.replicate arr.length none)))
    (hdone : List.Forall₂ (Holds h) done vs) :
    let h' := storeStrings collects arrObj done.length arr h
    h'.epoch = h.epoch ∧ ∃ elements, h'.memory arrObj = some (.strings cls elements) ∧
      List.Forall₂ (Holds h') elements (vs ++ arr) := by
  induction arr generalizing h done vs with
  | nil => exact ⟨rfl, done, by simpa [storeStrings] using harr, by simpa [storeStrings] using hdone⟩
  | cons v arr ih =>
    intro h'
    rw [List.length_cons] at hnone harr
    have h0 : collects h.allocations = none := hnone 0 (by omega)
    have h1 : collects (h.allocations + 1) = none := hnone 1 (by omega)
    obtain ⟨harr1, hdone1⟩ := storeFirst_stored h0 h1 harr hdone
    have hepoch := storeFirst_epoch collects arrObj done.length v h
    have hallocs := storeFirst_allocations collects arrObj done.length v h
    obtain ⟨hepoch', elements, hmem, hall⟩ := ih (fun k hk => by
      rw [hallocs, Nat.add_assoc]
      exact hnone (2 + k) (by omega)) harr1 hdone1
    rw [List.length_append, List.length_singleton] at hepoch' hmem hall
    rw [List.append_assoc, List.singleton_append] at hall
    refine ⟨hepoch'.trans ?_, elements, hmem, hall⟩
    simpa [h0, h1] using hepoch

theorem forall₂_denotes_iff {h : Heap} {elements : List (Option Address)} {arr : List CString}
    (hall : List.Forall₂ (Holds h) elements arr) :
    List.Forall₂ (fun e v => ∃ s, e = some s ∧ Denotes h s v.chars) elements arr ↔
      ∀ v ∈ arr, ∀ c ∈ v.chars, c < 0x80 := by
  induction hall with
  | nil => simp
  | cons hhead htail ih => rw [List.forall₂_cons, ih, hhead.denotes_iff, List.forall_mem_cons]

/-- The stores into the array leave its class alone. -/
theorem storeStrings_class (collects : Collections) (arrObj : Address) (i : Nat)
    (arr : List CString) {h : Heap} {cls : String} {elements : List (Option Address)}
    (harr : h.memory arrObj = some (.strings cls elements)) :
    ∃ elements', (storeStrings collects arrObj i arr h).memory arrObj =
      some (.strings cls elements') := by
  induction arr generalizing i h elements with
  | nil => exact ⟨elements, harr⟩
  | cons v arr ih =>
    obtain ⟨array, hb⟩ := built_newString collects h v
    have hfirst : (storeFirst collects arrObj i v h).memory arrObj =
        some (.strings cls (elements.set i (some (newString collects h v).2))) := by
      rw [storeFirst, Heap.write_memory, Function.update_self, hb.frame _ _ harr]
      rfl
    rw [storeStrings_cons]
    exact ih (i + 1) hfirst

/-- What comes back is an array of arrays, whatever the collector does. -/
theorem not_newStringArray_denotes (collects : Collections) (h : Heap) (arr : List CString) :
    ¬ DenotesAll (newStringArray collects h arr).1 (newStringArray collects h arr).2
      stringClass.arrayName arr := by
  rintro ⟨elements, ⟨_, hat⟩, _⟩
  obtain ⟨elements', hclass⟩ := storeStrings_class collects _ 0 arr
    (Heap.push_memory_next (h.ready collects)
      (.strings stringArrayClass.arrayName (List.replicate arr.length none)))
  have heq := (Object.strings.inj (Option.some.inj (hat.symm.trans hclass))).1
  exact absurd heq (by decide)

theorem newStringArray_denotes_iff (collects : Collections) (h : Heap) (arr : List CString) :
    DenotesAll (newStringArray collects h arr).1 (newStringArray collects h arr).2
        stringArrayClass.arrayName arr ↔
      (∀ k < 2 * arr.length, collects (h.allocations + 1 + k) = none) ∧
        ∀ v ∈ arr, ∀ c ∈ v.chars, c < 0x80 := by
  let r := h.alloc collects (.strings stringArrayClass.arrayName (List.replicate arr.length none))
  have hr : newStringArray collects h arr = (storeStrings collects r.2 0 arr r.1, r.2) := rfl
  have hallocs : r.1.allocations = h.allocations + 1 := by
    simp [r, Heap.alloc, Heap.ready_allocations]
  have hrepoch : r.2.epoch = r.1.epoch := rfl
  have hmem : r.1.memory r.2 =
      some (.strings stringArrayClass.arrayName (List.replicate arr.length none)) :=
    Heap.push_memory_next _ _
  rw [hr, ← hallocs]
  -- without a collection the loop stores all strings
  have hstored : (∀ k < 2 * arr.length, collects (r.1.allocations + k) = none) →
      ∃ elements, (storeStrings collects r.2 0 arr r.1).At r.2
          (.strings stringArrayClass.arrayName elements) ∧
        List.Forall₂ (Holds (storeStrings collects r.2 0 arr r.1)) elements arr := by
    intro hnone
    obtain ⟨hepoch, elements, hmem', hall⟩ :=
      @storeStrings_stored collects r.2 arr r.1 stringArrayClass.arrayName [] [] hnone hmem .nil
    exact ⟨elements, ⟨hrepoch.trans hepoch.symm, hmem'⟩, hall⟩
  constructor
  · rintro ⟨elements, hat, hall⟩
    have hnone := collects_of_epoch_eq collects r.2 0 arr r.1 (hat.1.symm.trans hrepoch)
    obtain ⟨elements', hat', hall'⟩ := hstored hnone
    obtain rfl : elements = elements' :=
      (Object.strings.inj (Option.some.inj (hat.2.symm.trans hat'.2))).2
    exact ⟨hnone, (forall₂_denotes_iff hall').mp hall⟩
  · rintro ⟨hnone, hascii⟩
    obtain ⟨elements, hat, hall⟩ := hstored hnone
    exact ⟨elements, hat, (forall₂_denotes_iff hall).mpr hascii⟩

/-! ## All together -/

/-- What each of the functions gives, and when: the constructors are right if no collection runs
between their allocations and no character is negative, reading a string back is always right, what
`newStringArray` makes is never an array of strings but, under the same conditions, one of string arrays
with the strings in it, and the comparison is right for the pairs of `Comparable`. -/
theorem strings_survive_iff (collects : Collections) (h : Heap) (v : CString) :
    (Denotes (newString collects h v).1 (newString collects h v).2 v.chars ↔
        collects (h.allocations + 1) = none ∧ ∀ c ∈ v.chars, c < 0x80) ∧
      (∀ buf n, stringToChar (newString collects h v).1 (newString collects h v).2 buf n =
        some (Stored buf n v.chars)) ∧
      (Denotes (newStringFromClassname collects h v).1 (newStringFromClassname collects h v).2
          (v.chars.map dotted) ↔
        collects (h.allocations + 1) = none ∧ ∀ c ∈ v.chars, c < 0x80) ∧
      (∀ arr, ¬ DenotesAll (newStringArray collects h arr).1 (newStringArray collects h arr).2
        stringClass.arrayName arr) ∧
      (∀ arr, DenotesAll (newStringArray collects h arr).1 (newStringArray collects h arr).2
          stringArrayClass.arrayName arr ↔
        (∀ k < 2 * arr.length, collects (h.allocations + 1 + k) = none) ∧
          ∀ v ∈ arr, ∀ c ∈ v.chars, c < 0x80) ∧
      ∀ c, (stringCompareChar (newString collects h v).1 (newString collects h v).2 c = some 0 ↔
        v = c) ↔ Comparable v c :=
  ⟨newString_denotes_iff collects h v, stringToChar_newString collects h v,
    newStringFromClassname_denotes_iff collects h v, not_newStringArray_denotes collects h,
    newStringArray_denotes_iff collects h, stringCompareChar_newString collects h v⟩

/-! ## A string that does not compare equal to itself -/

/-- A heap without objects. -/
def emptyHeap : Heap := ⟨0, 0, fun _ => none, 0, fun _ _ => rfl⟩

/-- The string `ab`. -/
def ab : CString := ⟨[0x61, 0x62], by decide⟩

/-- The string `é` in Latin-1. -/
def eAcute : CString := ⟨[0xe9], by decide⟩

/-- A collection at the second allocation, in which nothing survives. -/
def collectsOnce : Collections := fun n =>
  if n = 1 then some ⟨0, fun _ => none, fun _ _ => rfl⟩ else none

/-- `newString` is not right if a collection runs between its allocations. Without one, it is not right
for `é`, an empty array of strings has the wrong class, and `ab` does not compare equal to itself. -/
theorem not_strings_survive :
    ¬ Denotes (newString collectsOnce emptyHeap ab).1 (newString collectsOnce emptyHeap ab).2 ab.chars ∧
      ¬ Denotes (newString (fun _ => none) emptyHeap eAcute).1
        (newString (fun _ => none) emptyHeap eAcute).2 eAcute.chars ∧
      ¬ DenotesAll (newStringArray (fun _ => none) emptyHeap []).1
        (newStringArray (fun _ => none) emptyHeap []).2 stringClass.arrayName [] ∧
      stringCompareChar (newString (fun _ => none) emptyHeap ab).1
        (newString (fun _ => none) emptyHeap ab).2 ab ≠ some 0 := by
  refine ⟨fun h => ?_, fun h => ?_, not_newStringArray_denotes _ _ _, fun h => ?_⟩
  · have hnone := ((newString_denotes_iff _ _ ab).mp h).1
    exact absurd hnone (by simp [emptyHeap, collectsOnce])
  · exact absurd (((newString_denotes_iff _ _ eAcute).mp h).2 0xe9 (by decide)) (by decide)
  · have hcmp := (stringCompareChar_newString (fun _ => none) emptyHeap ab ab).mp
      (iff_of_true h rfl)
    rw [Comparable, if_pos rfl] at hcmp
    exact absurd (hcmp 1 (by decide)) (by decide)

end JxCore.Strings
