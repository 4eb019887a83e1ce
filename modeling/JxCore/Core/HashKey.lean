import Mathlib.Data.List.Basic
import Mathlib.Logic.Function.Basic
import JxCore.Basic
import JxCore.Lib.Prefilter

/-!
# Looking for classes by name (`core/load.c`)

A library is searched only if its key passes a test. The key has ten bytes, and the characters of all
class names of the library are ored into it, each at its own position; a name passes if each of its
characters is covered by the byte of the key. A name that was added passes, so the test leaves out
only searches that fail.

The searches here take the test as a parameter. `testHashKey` gives the kernel's lookups, and `always`
the same lookups without the filter.
-/

namespace JxCore.HashKey

open Lib

/-! ## Names and keys -/

/-- A `char`. -/
abbrev Byte := BitVec 8

/-- A string, as the characters before the terminating zero. -/
structure Name where
  chars : List Byte
  noZero : 0 ∉ chars
  deriving DecidableEq

/-- A `char` is signed, and in an expression it becomes an `int`. -/
def promote (c : Byte) : BitVec 32 := c.signExtend 32

/-- `addHashKey`. The key is written as the `len - i` bytes from `key[i]` on. -/
def addHashKey : (name key : List Byte) → List Byte
  | _, [] => []
  | [], key => key
  | c :: name, k :: key => (promote k ||| promote c).truncate 8 :: addHashKey name key

/-- `testHashKey`. -/
def testHashKey : (name key : List Byte) → Bool
  | _, [] => true
  | [], _ => true
  | c :: name, k :: key =>
    if promote c &&& promote k ≠ promote c then false else testHashKey name key

/-- `LIB_HASHKEY_LEN`. -/
def libHashkeyLen : Nat := 10

/-- `char key[LIB_HASHKEY_LEN]` after the `memset`. -/
def emptyKey : List Byte := List.replicate libHashkeyLen 0

/-- The test of a search without a filter. -/
def always (_name _key : List Byte) : Bool := true

/-! ## The data -/

structure MethodDesc where
  name : Name
  signature : Name
  /-- Zero for an abstract method. -/
  code : Nat
  deriving DecidableEq

structure ClassDesc where
  name : Name
  methods : List MethodDesc
  deriving DecidableEq

/-- `SharedLibDesc`, with the place in memory that pointers into it are told apart by. -/
structure SharedLibDesc where
  address : Nat
  allClasses : List ClassDesc
  key : List Byte

/-- `LibDesc`; class `i` belongs to class `i` of `sharedLib`. -/
structure LibDesc where
  address : Nat
  sharedLib : SharedLibDesc
  key : List Byte

/-- A `ClassDesc *`. -/
inductive ClassDescPtr where
  | javaLangObject
  /-- `&lib->allClasses[i]`. -/
  | shared (lib i : Nat)
  deriving DecidableEq

/-- A `MethodDesc *`. -/
inductive MethodPtr where
  | objectConstructor
  | object (j : Nat)
  /-- `&lib->allClasses[i].methods[j]`. -/
  | shared (lib i j : Nat)
  deriving DecidableEq

/-- A `Class *`. -/
inductive ClassPtr where
  | javaLangObject
  | primitive (name : Byte)
  /-- `&lib->allClasses[i]`. -/
  | lib (lib i : Nat)
  | array (address : Nat)
  deriving DecidableEq

/-- An array class of a domain. -/
structure ArrayClass where
  address : Nat
  name : Name
  elementClass : ClassPtr
  deriving DecidableEq

structure DomainDesc where
  /-- The first `numberOfLibs` entries. -/
  libs : List LibDesc
  /-- The list that starts at `arrayClasses`. -/
  arrayClasses : List ArrayClass

structure State where
  /-- The list that starts at `sharedLibs`. -/
  sharedLibs : List SharedLibDesc
  domain : Nat → DomainDesc
  /-- How many pieces of memory have been allocated. -/
  allocated : Nat

/-- After boot nothing is loaded. -/
def State.empty : State where
  sharedLibs := []
  domain := fun _ => ⟨[], []⟩
  allocated := 0

/-- A null pointer is followed, or an array is left. -/
def outside : Stop := .wild

/-- The characters of a literal. -/
def literal (s : String) : List Byte := s.toList.map fun c => BitVec.ofNat 8 c.toNat

/-! ## Searches in one library -/

/-- The name is `"java/lang/Object"`. -/
def Name.isObject (name : Name) : Prop := name.chars = literal "java/lang/Object"

instance (name : Name) : Decidable name.isObject := inferInstanceAs (Decidable (_ = _))

/-- The loop over the classes in `findClassDescInSharedLib` and `findClassInLib`. -/
def classIndex (allClasses : List ClassDesc) (name : Name) : Option Nat :=
  allClasses.findIdx? fun cl => cl.name = name

/-- `findClassDescInSharedLib`. -/
def findClassDescInSharedLib (lib : SharedLibDesc) (name : Name) : Option ClassDescPtr :=
  if name.isObject then some .javaLangObject
  else (classIndex lib.allClasses name).map (.shared lib.address)

/-- `findClassInLib`. -/
def findClassInLib (lib : LibDesc) (name : Name) : Option ClassPtr :=
  if name.isObject then some .javaLangObject
  else (classIndex lib.sharedLib.allClasses name).map (.lib lib.address)

/-- The loop over the methods of a class. -/
def methodIndex (cl : ClassDesc) (methodname signature : Name) : Option (Nat × MethodDesc) :=
  (cl.methods.zipIdx.find? fun m => m.1.name = methodname ∧ m.1.signature = signature).map
    fun m => (m.2, m.1)

/-- The two loops of `findClassAndMethodInLib` and `findClassDescAndMethodInLib`. -/
def methodInClasses (allClasses : List ClassDesc) (classname methodname signature : Name) :
    Option (Nat × Nat × MethodDesc) :=
  allClasses.zipIdx.findSome? fun cl =>
    if cl.1.name = classname then (methodIndex cl.1 methodname signature).map fun m => (cl.2, m)
    else none

/-- `objectMethods`. -/
def objectMethods : List (List Byte × List Byte) :=
  [(literal "getClass", literal "()Ljava/lang/Class;"),
    (literal "hashCode", literal "()I"),
    (literal "clone", literal "()Ljava/lang/Object;"),
    (literal "wait", literal "()V"),
    (literal "wait", literal "(J)V"),
    (literal "wait", literal "(JI)V"),
    (literal "notify", literal "()V"),
    (literal "notifyAll", literal "()V"),
    (literal "toString", literal "()Ljava/lang/String;"),
    (literal "equals", literal "(Ljava/lang/Object;)Z"),
    (literal "finalize", literal "()V")]

/-- `findClassDescAndMethodInObject`, which looks at neither the library nor the class name. -/
def findClassDescAndMethodInObject (methodname signature : Name) :
    Option (ClassDescPtr × MethodPtr) :=
  if methodname.chars = literal "<init>" ∧ signature.chars = literal "()V" then
    some (.javaLangObject, .objectConstructor)
  else
    (objectMethods.findIdx? fun m => methodname.chars = m.1 ∧ signature.chars = m.2).map
      fun j => (.javaLangObject, .object j)

/-- `findClassDescAndMethodInLib`; "Object is part of every lib". -/
def findClassDescAndMethodInLib (lib : SharedLibDesc) (classname methodname signature : Name) :
    Option (ClassDescPtr × MethodPtr) :=
  if classname.isObject then findClassDescAndMethodInObject methodname signature
  else
    (methodInClasses lib.allClasses classname methodname signature).map fun r =>
      (.shared lib.address r.1, .shared lib.address r.1 r.2.1)

/-- `findMethodInLib`, with the descriptor that the result points to. -/
def findMethodInLib (lib : LibDesc) (classname methodname signature : Name) :
    Option (MethodPtr × MethodDesc) :=
  (methodInClasses lib.sharedLib.allClasses classname methodname signature).map fun r =>
    (.shared lib.sharedLib.address r.1 r.2.1, r.2.2)

/-! ## Searches in all libraries -/

section Lookups

variable (test : List Byte → List Byte → Bool)

/-- `findClassDesc`. -/
def findClassDesc (s : State) (name : Name) : Option ClassDescPtr :=
  if name.isObject then some .javaLangObject
  else
    s.sharedLibs.findSome? fun lib =>
      if test name.chars lib.key then findClassDescInSharedLib lib name else none

/-- `findClassDescAndMethod`. -/
def findClassDescAndMethod (s : State) (classname methodname signature : Name) :
    Option (ClassDescPtr × MethodPtr) :=
  (s.sharedLibs.findSome? fun lib =>
      if test classname.chars lib.key then
        findClassDescAndMethodInLib lib classname methodname signature
      else none).or
    (s.sharedLibs.findSome? fun lib =>
      if ¬ test classname.chars lib.key then
        findClassDescAndMethodInLib lib classname methodname signature
      else none)

/-- `findMethod`. -/
def findMethod (s : State) (d : Nat) (classname methodname signature : Name) :
    Except Stop (Option MethodPtr) :=
  match (s.domain d).libs.findSome? fun lib =>
      if test classname.chars lib.key then findMethodInLib lib classname methodname signature
      else none with
  | some m =>
    if m.2.code ≠ 0 then return some m.1 else throw (.assertion "m->code != NULL")
  | none =>
    match (s.domain d).libs.findSome? fun lib =>
        if ¬ test classname.chars lib.key then
          findMethodInLib lib classname methodname signature
        else none with
    | some _ => throw (.panic "warn: Bug in findMethod of testHashKey!\n")
    | none => return none

/-- `findPrimitiveClass`; `none` is the terminating zero. -/
def findPrimitiveClass (name : Option Byte) : Except Stop ClassPtr :=
  match name with
  | none => throw (.panic "unknown primitive type")
  | some c =>
    if c ∈ literal "IJFDBCSZ" then return .primitive c
    else throw (.panic "unknown primitive type")

/-- `name + 1`. -/
def Name.tail (name : Name) : Name := ⟨name.chars.tail, fun h => name.noZero (List.mem_of_mem_tail h)⟩

/-- The `strlen(name) - 2` characters from `name + 1` on. -/
def Name.inner (name : Name) : Name :=
  ⟨name.chars.tail.dropLast, fun h =>
    name.noZero (List.mem_of_mem_tail (List.dropLast_subset _ h))⟩

/-- `findClassOrPrimitive`, with `findClass` for the names that are not longer. The name of a class is
copied to `tmp`, which has 80 characters. -/
def findClassOrPrimitive (s : State) (name : Name)
    (find : State → (n : Name) → n.chars.length ≤ name.chars.length →
      Except Stop (Option ClassPtr × State)) :
    Except Stop (Option ClassPtr × State) :=
  if name.chars.head? = (literal "[").head? then find s name (Nat.le_refl _)
  else if name.chars.head? ≠ (literal "L").head? then do
    return (some (← findPrimitiveClass name.chars.head?), s)
  else if name.chars.length < 2 ∨ 80 ≤ name.chars.length - 2 then throw outside
  else find s name.inner (by simp only [Name.inner, List.length_dropLast, List.length_tail]; omega)

/-- `createArrayClass`, with `findClass` for shorter names; the name begins with a bracket. -/
def createArrayClass (s : State) (d : Nat) (name : Name)
    (find : State → (n : Name) → n.chars.length ≤ name.tail.chars.length →
      Except Stop (Option ClassPtr × State)) :
    Except Stop (Option ClassPtr × State) := do
  match ← findClassOrPrimitive s name.tail find with
  | (none, _) => throw outside
  | (some c, s) =>
    let cl : ArrayClass := ⟨s.allocated, name, c⟩
    return (some (.array cl.address), { s with
      domain := Function.update s.domain d
        { s.domain d with arrayClasses := cl :: (s.domain d).arrayClasses }
      allocated := s.allocated + 1 })

/-- Names get shorter on the way to the element class. -/
theorem length_lt_of_bracket {name n : Name} (hbracket : name.chars.head? = (literal "[").head?)
    (hn : n.chars.length ≤ name.tail.chars.length) : n.chars.length < name.chars.length := by
  have hne : name.chars ≠ [] := by
    intro h
    rw [h] at hbracket
    exact absurd hbracket (by decide)
  have hpos := List.length_pos_iff.mpr hne
  simp only [Name.tail, List.length_tail] at hn
  omega

/-- `findClass`. -/
def findClass (d : Nat) (s : State) (name : Name) : Except Stop (Option ClassPtr × State) :=
  if name.isObject then return (some .javaLangObject, s)
  else
    match (s.domain d).libs.findSome? fun lib =>
        if test name.chars lib.key then findClassInLib lib name else none with
    | some cl => return (some cl, s)
    | none =>
      if _hbracket : name.chars.head? = (literal "[").head? then
        match (s.domain d).arrayClasses.find? fun acl => acl.name = name with
        | some acl => return (some (.array acl.address), s)
        | none => createArrayClass s d name fun s n _hn => findClass d s n
      else return (none, s)
termination_by name.chars.length
decreasing_by exact length_lt_of_bracket _hbracket _hn

end Lookups

/-! ## Loading -/

/-- The loop that adds the names of all classes to the key of a new library. -/
def libKey (allClasses : List ClassDesc) : List Byte :=
  allClasses.foldl (fun key cl => addHashKey cl.name.chars key) emptyKey

/-- `loadSharedLibrary`. -/
def loadSharedLibrary (s : State) (allClasses : List ClassDesc) : State :=
  { s with
    sharedLibs := ⟨s.allocated, allClasses, libKey allClasses⟩ :: s.sharedLibs
    allocated := s.allocated + 1 }

/-- `loadLib`. -/
def loadLib (s : State) (d : Nat) (sharedLib : SharedLibDesc) : State :=
  { s with
    domain := Function.update s.domain d
      { s.domain d with
        libs := (s.domain d).libs ++ [⟨s.allocated, sharedLib, libKey sharedLib.allClasses⟩] }
    allocated := s.allocated + 1 }

/-- Libraries are loaded and classes are looked up. -/
inductive Step : State → State → Prop where
  | loadSharedLibrary (s : State) (allClasses : List ClassDesc) :
      Step s (loadSharedLibrary s allClasses)
  | loadLib {s : State} {sharedLib : SharedLibDesc} (d : Nat) (h : sharedLib ∈ s.sharedLibs) :
      Step s (loadLib s d sharedLib)
  | findClass {s s' : State} {d : Nat} {name : Name} {cl : Option ClassPtr}
      (h : findClass testHashKey d s name = .ok (cl, s')) : Step s s'

/-- The states that any calls lead to. -/
def Reach (s : State) : Prop := Relation.ReflTransGen Step State.empty s

/-- **The filter changes no answer.** -/
structure Sound (s : State) : Prop where
  findClassDesc : ∀ name, findClassDesc testHashKey s name = findClassDesc always s name
  findClass : ∀ d name, findClass testHashKey d s name = findClass always d s name
  findClassDescAndMethod : ∀ classname methodname signature,
    findClassDescAndMethod testHashKey s classname methodname signature =
      findClassDescAndMethod always s classname methodname signature
  findMethod : ∀ d classname methodname signature,
    findMethod testHashKey s d classname methodname signature =
      findMethod always s d classname methodname signature

/-! ## The key -/

theorem truncate_promote (c : Byte) : (promote c).truncate 8 = c := by
  ext i hi
  have hi' : i < 32 := by omega
  simp [promote, BitVec.getElem_signExtend, hi, hi']

theorem addHashKey_cons (c k : Byte) (name key : List Byte) :
    addHashKey (c :: name) (k :: key) = (k ||| c) :: addHashKey name key := by
  have h : (promote k ||| promote c).truncate 8 = k ||| c := by
    rw [promote, promote, ← BitVec.signExtend_or]
    exact truncate_promote (k ||| c)
  rw [addHashKey, h]

theorem promote_inj {a b : Byte} : promote a = promote b ↔ a = b := by
  refine ⟨fun h => ?_, congrArg promote⟩
  rw [← truncate_promote a, h, truncate_promote]

/-- The bits of each character are in the key. -/
theorem testHashKey_cons (c k : Byte) (name key : List Byte) :
    testHashKey (c :: name) (k :: key) = true ↔ c &&& k = c ∧ testHashKey name key = true := by
  have h : promote c &&& promote k = promote c ↔ c &&& k = c := by
    rw [promote, promote, ← BitVec.signExtend_and]
    exact promote_inj
  rw [testHashKey]
  by_cases hc : c &&& k = c
  · rw [if_neg (not_not_intro (h.mpr hc))]
    simp [hc]
  · rw [if_pos fun he => hc (h.mp he)]
    simp [hc]

theorem testHashKey_addHashKey_self (name key : List Byte) :
    testHashKey name (addHashKey name key) = true := by
  induction name generalizing key with
  | nil => cases key <;> rfl
  | cons c name ih =>
    cases key with
    | nil => rfl
    | cons k key =>
      rw [addHashKey_cons, testHashKey_cons]
      refine ⟨?_, ih key⟩
      ext i hi
      simp only [BitVec.getElem_and, BitVec.getElem_or]
      cases (c)[i] <;> simp

theorem testHashKey_addHashKey (name other key : List Byte) (h : testHashKey name key = true) :
    testHashKey name (addHashKey other key) = true := by
  induction name generalizing other key with
  | nil => cases other <;> cases key <;> rfl
  | cons c name ih =>
    cases key with
    | nil => cases other <;> rfl
    | cons k key =>
      cases other with
      | nil => exact h
      | cons o other =>
        obtain ⟨hc, hrest⟩ := (testHashKey_cons c k name key).mp h
        rw [addHashKey_cons, testHashKey_cons]
        refine ⟨?_, ih other key hrest⟩
        -- what the byte covered before, it still covers
        ext i hi
        have hi' := congrArg (·[i]) hc
        simp only [BitVec.getElem_and, BitVec.getElem_or] at hi' ⊢
        revert hi'
        cases (c)[i] <;> cases k[i] <;> simp

/-- The keys of libraries as a filter for names. -/
def filter : Prefilter Name (List Byte) where
  add name := addHashKey name.chars
  test name := testHashKey name.chars
  test_add_self name := testHashKey_addHashKey_self name.chars
  test_add name other := testHashKey_addHashKey name.chars other.chars

theorem libKey_eq (allClasses : List ClassDesc) :
    libKey allClasses = filter.addAll emptyKey (allClasses.map ClassDesc.name) := by
  rw [Prefilter.addAll, List.foldl_map]
  rfl

theorem testHashKey_libKey {allClasses : List ClassDesc} {cl : ClassDesc} (h : cl ∈ allClasses) :
    testHashKey cl.name.chars (libKey allClasses) = true := by
  rw [libKey_eq]
  exact Prefilter.test_addAll_of_mem (F := filter) (List.mem_map_of_mem h)

/-! ## The invariant -/

/-- The key of every library is made of the names of its classes. -/
structure Keyed (s : State) : Prop where
  sharedLibs : ∀ lib ∈ s.sharedLibs, lib.key = libKey lib.allClasses
  libs : ∀ d, ∀ lib ∈ (s.domain d).libs, lib.key = libKey lib.sharedLib.allClasses

theorem Keyed.empty : Keyed State.empty where
  sharedLibs _ h := absurd h List.not_mem_nil
  libs _ _ h := absurd h List.not_mem_nil

/-- A lookup enters array classes, but no libraries. -/
structure SameLibs (s s' : State) : Prop where
  sharedLibs : s'.sharedLibs = s.sharedLibs
  libs : ∀ d, (s'.domain d).libs = (s.domain d).libs

theorem SameLibs.refl (s : State) : SameLibs s s := ⟨rfl, fun _ => rfl⟩

theorem Keyed.of_sameLibs {s s' : State} (h : Keyed s) (hs : SameLibs s s') : Keyed s' where
  sharedLibs lib hlib := h.sharedLibs lib (hs.sharedLibs ▸ hlib)
  libs d lib hlib := h.libs d lib (hs.libs d ▸ hlib)

section FindClass

variable {test : List Byte → List Byte → Bool} {s s' : State} {d : Nat} {name : Name}
  {cl : Option ClassPtr}

theorem findClassOrPrimitive_sameLibs
    {find : State → (n : Name) → n.chars.length ≤ name.chars.length →
      Except Stop (Option ClassPtr × State)}
    (hfind : ∀ s n cl s' hn, find s n hn = .ok (cl, s') → SameLibs s s')
    (h : findClassOrPrimitive s name find = .ok (cl, s')) : SameLibs s s' := by
  unfold findClassOrPrimitive at h
  split_ifs at h
  · exact hfind _ _ _ _ _ h
  · obtain ⟨c, -, hc⟩ := bind_eq_ok.mp h
    obtain ⟨-, rfl⟩ := Prod.mk.inj (pure_eq_ok.mp hc)
    exact SameLibs.refl s
  · exact hfind _ _ _ _ _ h

/-- The element class is looked up before anything is entered. -/
theorem findClassOrPrimitive_congr
    {find find' : State → (n : Name) → n.chars.length ≤ name.chars.length →
      Except Stop (Option ClassPtr × State)}
    (h : ∀ n hn, find s n hn = find' s n hn) :
    findClassOrPrimitive s name find = findClassOrPrimitive s name find' := by
  unfold findClassOrPrimitive
  rw [h, h]

theorem createArrayClass_congr
    {find find' : State → (n : Name) → n.chars.length ≤ name.tail.chars.length →
      Except Stop (Option ClassPtr × State)}
    (h : ∀ n hn, find s n hn = find' s n hn) :
    createArrayClass s d name find = createArrayClass s d name find' := by
  unfold createArrayClass
  rw [findClassOrPrimitive_congr h]

theorem createArrayClass_sameLibs
    {find : State → (n : Name) → n.chars.length ≤ name.tail.chars.length →
      Except Stop (Option ClassPtr × State)}
    (hfind : ∀ s n cl s' hn, find s n hn = .ok (cl, s') → SameLibs s s')
    (h : createArrayClass s d name find = .ok (cl, s')) : SameLibs s s' := by
  unfold createArrayClass at h
  obtain ⟨⟨c, s₁⟩, hc, h⟩ := bind_eq_ok.mp h
  have hs := findClassOrPrimitive_sameLibs hfind hc
  cases c with
  | none => exact absurd h throw_ne_ok
  | some c =>
    obtain ⟨-, rfl⟩ := Prod.mk.inj (pure_eq_ok.mp h)
    refine ⟨hs.sharedLibs, fun d' => ?_⟩
    by_cases hd : d' = d
    · subst hd
      simp only [Function.update_self]
      exact hs.libs d'
    · simp only [Function.update_of_ne hd]
      exact hs.libs d'

theorem findClass_sameLibs (h : findClass test d s name = .ok (cl, s')) : SameLibs s s' := by
  induction hn : name.chars.length using Nat.strongRecOn generalizing s s' name cl with
  | _ n ih =>
    rw [findClass] at h
    have hsame {cl' : Option ClassPtr} (hret : (pure (cl', s) : Except Stop _) = .ok (cl, s')) :
        SameLibs s s' := by
      obtain ⟨-, rfl⟩ := Prod.mk.inj (pure_eq_ok.mp hret)
      exact SameLibs.refl s
    split_ifs at h with hobj hbracket
    · exact hsame h
    · split at h
      · exact hsame h
      · split at h
        · exact hsame h
        · refine createArrayClass_sameLibs (fun s₁ m cl s₂ hm hfind => ?_) h
          exact ih m.chars.length (hn ▸ length_lt_of_bracket hbracket hm) hfind rfl
    · split at h <;> exact hsame h

end FindClass

theorem Keyed.step {s s' : State} (h : Keyed s) (hstep : Step s s') : Keyed s' := by
  cases hstep with
  | loadSharedLibrary allClasses =>
    refine ⟨fun lib hlib => ?_, h.libs⟩
    rcases List.mem_cons.mp hlib with rfl | hlib
    · rfl
    · exact h.sharedLibs lib hlib
  | @loadLib sharedLib d hmem =>
    refine ⟨h.sharedLibs, fun d' lib hlib => ?_⟩
    by_cases hd : d' = d
    · subst hd
      simp only [loadLib, Function.update_self] at hlib
      rcases List.mem_append.mp hlib with hlib | hlib
      · exact h.libs d' lib hlib
      · rw [List.mem_singleton.mp hlib]
    · simp only [loadLib, Function.update_of_ne hd] at hlib
      exact h.libs d' lib hlib
  | findClass hfind => exact h.of_sameLibs (findClass_sameLibs hfind)

theorem Reach.keyed {s : State} (h : Reach s) : Keyed s :=
  invariant_of_run (I := Keyed) (fun _ _ hs hstep => hs.step hstep) h Keyed.empty

/-! ## The lookups -/

section Passes

variable {allClasses : List ClassDesc} {name classname methodname signature : Name}

theorem classIndex_passes (h : classIndex allClasses name ≠ none) :
    testHashKey name.chars (libKey allClasses) = true := by
  obtain ⟨i, hi⟩ := Option.ne_none_iff_exists'.mp h
  obtain ⟨hlt, hname, -⟩ := List.findIdx?_eq_some_iff_getElem.mp hi
  rw [← of_decide_eq_true hname]
  exact testHashKey_libKey (List.getElem_mem hlt)

theorem methodInClasses_passes
    (h : methodInClasses allClasses classname methodname signature ≠ none) :
    testHashKey classname.chars (libKey allClasses) = true := by
  obtain ⟨r, hr⟩ := Option.ne_none_iff_exists'.mp h
  obtain ⟨cl, hcl, hfound⟩ := List.exists_of_findSome?_eq_some hr
  split_ifs at hfound with hname
  rw [← hname]
  exact testHashKey_libKey (List.fst_mem_of_mem_zipIdx hcl)

end Passes

/-- Without a filter everything passes. -/
theorem always_passesAll {α β : Type} {key : α → List Byte} {f : α → Option β} {l : List α}
    (name : List Byte) : PassesAll (fun lib => always name (key lib)) f l := fun _ _ _ => rfl

namespace Keyed

variable {s : State}

theorem findClassDesc_eq (h : Keyed s) (name : Name) :
    findClassDesc testHashKey s name = findClassDesc always s name := by
  unfold findClassDesc
  by_cases hobj : name.isObject
  · rw [if_pos hobj, if_pos hobj]
  · rw [if_neg hobj, if_neg hobj, findSome?_if_eq (always_passesAll name.chars)]
    refine findSome?_if_eq fun lib hlib hfound => ?_
    rw [findClassDescInSharedLib, if_neg hobj] at hfound
    rw [h.sharedLibs lib hlib]
    exact classIndex_passes fun hnone => hfound (by rw [hnone, Option.map_none])

/-- The class of an object is found in any library, other classes only where they pass. -/
theorem findClassDescAndMethod_eq (h : Keyed s) (classname methodname signature : Name) :
    findClassDescAndMethod testHashKey s classname methodname signature =
      findClassDescAndMethod always s classname methodname signature := by
  unfold findClassDescAndMethod
  by_cases hobj : classname.isObject
  · have hconst : ∀ lib ∈ s.sharedLibs,
        findClassDescAndMethodInLib lib classname methodname signature =
          findClassDescAndMethodInObject methodname signature := fun _ _ => if_pos hobj
    rw [findSome?_or_of_const hconst, findSome?_or_of_const hconst]
  · rw [findSome?_or_eq (always_passesAll classname.chars)]
    refine findSome?_or_eq fun lib hlib hfound => ?_
    rw [findClassDescAndMethodInLib, if_neg hobj] at hfound
    rw [h.sharedLibs lib hlib]
    exact methodInClasses_passes fun hnone => hfound (by rw [hnone, Option.map_none])

theorem findMethodInLib_passesAll (h : Keyed s) (d : Nat) (classname methodname signature : Name) :
    PassesAll (fun lib => testHashKey classname.chars lib.key)
      (fun lib => findMethodInLib lib classname methodname signature) (s.domain d).libs := by
  intro lib hlib hfound
  show testHashKey classname.chars lib.key = true
  rw [h.libs d lib hlib]
  refine @methodInClasses_passes _ classname methodname signature fun hnone => hfound ?_
  show (methodInClasses _ _ _ _).map _ = none
  rw [hnone, Option.map_none]

theorem findMethod_eq (h : Keyed s) (d : Nat) (classname methodname signature : Name) :
    findMethod testHashKey s d classname methodname signature =
      findMethod always s d classname methodname signature := by
  have hpass := h.findMethodInLib_passesAll d classname methodname signature
  unfold findMethod
  rw [findSome?_if_eq hpass, findSome?_if_not_eq hpass,
    findSome?_if_eq (always_passesAll classname.chars),
    findSome?_if_not_eq (always_passesAll classname.chars)]

theorem findClassInLib_eq (h : Keyed s) (d : Nat) {name : Name} (hobj : ¬ name.isObject) :
    ((s.domain d).libs.findSome? fun lib =>
        if testHashKey name.chars lib.key then findClassInLib lib name else none) =
      (s.domain d).libs.findSome? fun lib =>
        if always name.chars lib.key then findClassInLib lib name else none := by
  rw [findSome?_if_eq (always_passesAll name.chars)]
  refine findSome?_if_eq fun lib hlib hfound => ?_
  rw [findClassInLib, if_neg hobj] at hfound
  rw [h.libs d lib hlib]
  exact classIndex_passes fun hnone => hfound (by rw [hnone, Option.map_none])

/-- By induction on the length of the name, since the class of the elements is looked up first. -/
theorem findClass_eq (h : Keyed s) (d : Nat) (name : Name) :
    findClass testHashKey d s name = findClass always d s name := by
  induction hn : name.chars.length using Nat.strongRecOn generalizing name with
  | _ n ih =>
    rw [findClass, findClass]
    by_cases hobj : name.isObject
    · rw [if_pos hobj, if_pos hobj]
    · rw [if_neg hobj, if_neg hobj, h.findClassInLib_eq d hobj]
      by_cases hbracket : name.chars.head? = (literal "[").head?
      · simp only [dif_pos hbracket]
        have hcreate : createArrayClass s d name (fun s m _ => findClass testHashKey d s m) =
            createArrayClass s d name fun s m _ => findClass always d s m :=
          createArrayClass_congr fun m hm =>
            ih m.chars.length (hn ▸ length_lt_of_bracket hbracket hm) m rfl
        rw [hcreate]
      · simp only [dif_neg hbracket]

theorem sound (h : Keyed s) : Sound s where
  findClassDesc := h.findClassDesc_eq
  findClass := h.findClass_eq
  findClassDescAndMethod := h.findClassDescAndMethod_eq
  findMethod := h.findMethod_eq

end Keyed

/-- **The name filters are sound**: a name that was added passes whatever was added before and after,
and in every set of loaded libraries the lookups find what they find without the filter. -/
theorem lookups_sound :
    (∀ (key : List Byte) (names : List Name), ∀ name ∈ names,
      testHashKey name.chars (names.foldl (fun key other => addHashKey other.chars key) key) = true) ∧
    ∀ s, Reach s → Sound s :=
  ⟨fun key _ _ h => Prefilter.test_addAll_of_mem (F := filter) (k := key) h,
    fun _ hreach => hreach.keyed.sound⟩

/-- The name `"jx/zero/Memory"`, which is longer than the key. -/
def exampleName : Name := ⟨literal "jx/zero/Memory", by decide⟩

def exampleClasses : List ClassDesc := [⟨⟨literal "jx/zero/Naming", by decide⟩, []⟩, ⟨exampleName, []⟩]

def exampleState : State :=
  loadLib (loadSharedLibrary State.empty exampleClasses) 3 ⟨0, exampleClasses, libKey exampleClasses⟩

theorem lookups_sound_example :
    testHashKey exampleName.chars
      ([exampleName, ⟨[], by decide⟩].foldl (fun key other => addHashKey other.chars key) emptyKey) =
        true ∧
    Sound exampleState ∧
    findClassDesc testHashKey exampleState exampleName = some (.shared 0 1) ∧
    testHashKey (literal "jx/net") (libKey exampleClasses) = false := by
  refine ⟨lookups_sound.1 _ _ _ List.mem_cons_self, lookups_sound.2 _ ?_, by decide, by decide⟩
  exact Relation.ReflTransGen.tail (.single (.loadSharedLibrary State.empty exampleClasses))
    (.loadLib 3 List.mem_cons_self)

end JxCore.HashKey
