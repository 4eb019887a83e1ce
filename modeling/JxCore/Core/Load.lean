import JxCore.Basic
import Mathlib.Data.List.Perm.Basic
import Mathlib.Data.List.Nodup
import Mathlib.Algebra.GroupWithZero.Nat
import Mathlib.Data.Fintype.Card
import Mathlib.Data.Set.Finite.Basic
import Mathlib.Order.WellFounded

/-!
# Loading libraries (`core/load.c`)

A library has a part that all domains share, made once from its code file, and a part of each domain
that uses it, with the static fields. Both parts need the same parts of the libraries that the library
depends on. Two recursions follow the dependencies: `loadSharedLibrary` makes the shared parts that do
not exist yet, `loadLib` those of the domain.

The model has the dependencies, the indices and the static fields. What else is in a code file (the
names, methods and code of the classes) is left out. In a domain other than domain zero each
`loadSharedLibrary` starts with a check of the stack, which ends in a panic; the stack is taken to have
room for 512 words here, below the frames of all the calls.
-/

namespace JxCore.Load

open Exec

/-! ## The data -/

/-- A code file, as far as it is modelled. -/
structure CodeFile where
  neededLibs : List String
  /-- For each class the number of words its static fields take. -/
  staticFieldsSize : List Nat

/-- The code files the kernel can find. -/
abbrev CodeFiles := List (String × CodeFile)

/-- `read_codefile`. -/
def readCodefile (files : CodeFiles) (filename : String) : Option CodeFile := files.lookup filename

/-- A `SharedLibDesc *`, written as the index of the library: it gets one before anybody sees it. -/
abbrev SLib := Nat

/-- `SharedLibDesc`. -/
structure SharedLibDesc where
  name : String
  neededLibs : List SLib
  /-- `allClasses[i].staticFieldsSize`. -/
  staticFieldsSize : List Nat

def SharedLibDesc.memSizeStaticFields (lib : SharedLibDesc) : Nat := lib.staticFieldsSize.sum

/-- `LibDesc`. -/
structure LibDesc where
  /-- Where it is in memory. -/
  address : Nat
  sharedLib : SLib
  /-- `allClasses[i].staticFields`, a block and an offset in it. -/
  staticFields : List (Option (Nat × Nat))
  deriving DecidableEq

/-- `DomainDesc`. -/
structure DomainDesc where
  /-- The first `numberOfLibs` entries. -/
  libs : List LibDesc
  ndxLibs : SLib → Option LibDesc
  /-- For each library the block of its static fields. -/
  sfields : SLib → Option Nat

/-- `MAX_NUMBER_LIBS`, which is `maxNumberOfLibs` in every domain. -/
def maxNumberOfLibs : Nat := 100

structure State where
  slib : SLib → SharedLibDesc
  /-- The list that starts at `sharedLibs`. -/
  sharedLibs : List SLib
  sharedLibsIndexNumber : Nat
  domain : Nat → DomainDesc
  /-- The words of the blocks of static fields. -/
  statics : Nat → Nat → Nat
  /-- How many pieces of memory have been allocated. -/
  allocated : Nat
  /-- Records of the past: the code files that were parsed, and the libraries that were linked. -/
  parsed : List String
  linked : List String

/-- After boot nothing is loaded. -/
def State.empty : State where
  slib := fun _ => ⟨"", [], []⟩
  sharedLibs := []
  sharedLibsIndexNumber := 0
  domain := fun _ => ⟨[], fun _ => none, fun _ => none⟩
  statics := fun _ _ => 0
  allocated := 0
  parsed := []
  linked := []

/-! ## The shared part -/

/-- `findSharedLib`. -/
def findSharedLib (s : State) (libname : String) : Option SLib :=
  s.sharedLibs.find? fun i => (s.slib i).name = libname

/-- `linksharedlib`. -/
def linksharedlib (s : State) (lib : SLib) : State :=
  { s with linked := (s.slib lib).name :: s.linked }

/-- Find a shared library, or load and link it; `none` if there is no such code file. -/
def findOrLoad (loadSharedLibrary : State → String → Exec (Option SLib × State)) (s : State)
    (libname : String) : Exec (Option SLib × State) :=
  match findSharedLib s libname with
  | some lib => return (some lib, s)
  | none => do
    match ← loadSharedLibrary s libname with
    | (none, s) => return (none, s)
    | (some lib, s) => return (some lib, linksharedlib s lib)

/-- "load needed libs" in `loadSharedLibrary`. -/
def loadNeeded (loadSharedLibrary : State → String → Exec (Option SLib × State)) :
    State → List String → Exec (List SLib × State)
  | s, [] => return ([], s)
  | s, libname :: rest => do
    match ← findOrLoad loadSharedLibrary s libname with
    | (none, _) => throw (.assertion "neededLib->magic == MAGIC_SLIB")
    | (some lib, s) => do
      let (libs, s) ← loadNeeded loadSharedLibrary s rest
      return (lib :: libs, s)

/-- The end of `loadSharedLibrary`, where the library gets its index and enters the list. -/
def enterSharedLib (s : State) (lib : SharedLibDesc) : State :=
  { s with
    slib := Function.update s.slib s.sharedLibsIndexNumber lib
    sharedLibs := s.sharedLibsIndexNumber :: s.sharedLibs
    sharedLibsIndexNumber := s.sharedLibsIndexNumber + 1 }

/-- `loadSharedLibrary`; `none` if there is no such code file. -/
def loadSharedLibrary (files : CodeFiles) : Nat → State → String → Exec (Option SLib × State)
  | 0, _, _ => loop none
  | fuel + 1, s, filename =>
    match readCodefile files filename with
    | none => return (none, s)
    | some file => do
      let s := { s with parsed := filename :: s.parsed }
      let (neededLibs, s) ← loadNeeded (loadSharedLibrary files fuel) s file.neededLibs
      return (some s.sharedLibsIndexNumber,
        enterSharedLib s ⟨filename, neededLibs, file.staticFieldsSize⟩)

/-- The first half of `load`: the shared part of the library. -/
def loadShared (files : CodeFiles) (s : State) (filename : String) (fuel : Nat) :
    Exec (SLib × State) := do
  match ← findOrLoad (loadSharedLibrary files fuel) s filename with
  | (none, _) => throw (.panic "could not load shared library")
  | (some sharedLib, s) => return (sharedLib, s)

/-! ## The part of the domain -/

/-- The entry of `ndx_libs` that `sharedLib2Lib` reads is not in the array. The source has no check
here. -/
def outside : Stop := .wild

/-- `sharedLib2Lib`. -/
def sharedLib2Lib (dom : DomainDesc) (slib : SLib) : Exec (Option LibDesc) :=
  if slib < maxNumberOfLibs then return dom.ndxLibs slib else throw outside

/-- The static fields of the classes, one after the other in the block `sfield`. -/
def placeStatics (sfield : Nat) : Nat → List Nat → List (Option (Nat × Nat))
  | _, [] => []
  | offset, size :: rest =>
    (if size ≠ 0 then some (sfield, offset) else none) :: placeStatics sfield (offset + size) rest

/-- "load needed libs" in `loadLib`. -/
def loadMissing (loadLib : State → SLib → Exec (LibDesc × State)) (d : Nat) :
    State → List SLib → Exec State
  | s, [] => return s
  | s, slib :: rest => do
    match ← sharedLib2Lib (s.domain d) slib with
    | some _ => loadMissing loadLib d s rest
    | none => do
      let (_, s) ← loadLib s slib
      loadMissing loadLib d s rest

/-- The second half of `loadLib`: make the part of the domain. -/
def insertLib (s : State) (d : Nat) (sharedLib : SLib) : Exec (LibDesc × State) :=
  let dom := s.domain d
  let slib := s.slib sharedLib
  if dom.libs.length = maxNumberOfLibs then
    throw (.panic "max number of libs in domain reached!")
  else if ¬ sharedLib < maxNumberOfLibs then throw (.panic "max number of libs reached!")
  else
    let sfield := s.allocated + 1
    let lib : LibDesc := ⟨s.allocated, sharedLib, placeStatics sfield 0 slib.staticFieldsSize⟩
    let dom := { dom with
      libs := dom.libs ++ [lib]
      ndxLibs := Function.update dom.ndxLibs sharedLib (some lib) }
    let s := if slib.memSizeStaticFields ≠ 0 then
        { s with
          domain := Function.update s.domain d
            { dom with sfields := Function.update dom.sfields sharedLib (some sfield) }
          statics := Function.update s.statics sfield fun _ => 0
          allocated := s.allocated + 2 }
      else
        { s with
          domain := Function.update s.domain d dom
          allocated := s.allocated + 2 }
    return (lib, s)

/-- `loadLib`. -/
def loadLib (d : Nat) : Nat → State → SLib → Exec (LibDesc × State)
  | 0, _, _ => loop none
  | fuel + 1, s, sharedLib => do
    let s ← loadMissing (loadLib d fuel) d s (s.slib sharedLib).neededLibs
    insertLib s d sharedLib

/-- `load`. -/
def load (files : CodeFiles) (s : State) (d : Nat) (filename : String) (fuel : Nat) :
    Exec (LibDesc × State) := do
  let (sharedLib, s) ← loadShared files s filename fuel
  loadLib d fuel s sharedLib

/-! ## Runs -/

inductive Call where
  | load (d : Nat) (filename : String)
  /-- A program of the domain writes one of its static fields. -/
  | putstatic (d : Nat) (slib : SLib) (offset value : Nat)

/-- The program writes through `domain->sfields`. -/
def putstatic (s : State) (d : Nat) (slib : SLib) (offset value : Nat) : State :=
  match (s.domain d).sfields slib with
  | none => s
  | some sfield => { s with
      statics := Function.update s.statics sfield
        (Function.update (s.statics sfield) offset value) }

/-- One step of a run, in which every call meets `allowed`. -/
inductive Step (files : CodeFiles) (allowed : State → Call → Prop) : State → State → Prop where
  | load {s s' : State} {d : Nat} {filename : String} {lib : LibDesc}
      (hcall : allowed s (.load d filename)) (hret : Returns (load files s d filename) (lib, s')) :
      Step files allowed s s'
  | putstatic {s : State} (d : Nat) (slib : SLib) (offset value : Nat) :
      Step files allowed s (putstatic s d slib offset value)

/-- The states that any calls lead to. -/
def Reach (files : CodeFiles) (s : State) : Prop :=
  Relation.ReflTransGen (Step files fun _ _ => True) State.empty s

/-- The libraries that others need exist. -/
def Closed (files : CodeFiles) : Prop :=
  ∀ filename file, readCodefile files filename = some file →
    ∀ libname ∈ file.neededLibs, (readCodefile files libname).isSome = true

/-- The shared part exists. -/
def Loaded (s : State) (name : String) : Prop := ∃ i ∈ s.sharedLibs, (s.slib i).name = name

/-- Library `a` needs library `b`, and neither is among those that are loaded. -/
def Needs (files : CodeFiles) (loaded : String → Prop) (a b : String) : Prop :=
  ∃ file, readCodefile files a = some file ∧ b ∈ file.neededLibs ∧ ¬ loaded a ∧ ¬ loaded b

/-- The call ends, by coming back or by stopping the machine. -/
def Halts {α : Type} (call : Nat → Exec α) : Prop :=
  ∃ (r : Except Stop α) (n : Nat), ∀ fuel ≥ n, call fuel = some r

/-- **Loading terminates**, and no code file has been parsed or linked twice. -/
structure Terminates (files : CodeFiles) (s : State) (d : Nat) (filename : String) : Prop where
  halts : Halts (load files s d filename)
  once : ∀ sharedLib s', Returns (loadShared files s filename) (sharedLib, s') →
    s'.parsed.Nodup ∧ s'.linked.Nodup

/-! ## The list of shared libraries -/

section Table

variable {s s' s'' : State} {name : String} {i : SLib}

/-- The list has the libraries in the order of their indices, the newest first. -/
def Listed (s : State) : Prop := s.sharedLibs = (List.range s.sharedLibsIndexNumber).reverse

theorem Listed.mem (h : Listed s) : i ∈ s.sharedLibs ↔ i < s.sharedLibsIndexNumber := by
  unfold Listed at h
  rw [h]
  simp

theorem Listed.enter (h : Listed s) (lib : SharedLibDesc) : Listed (enterSharedLib s lib) := by
  unfold Listed enterSharedLib at *
  rw [List.range_succ, List.reverse_append, h]
  rfl

theorem findSharedLib_some (h : findSharedLib s name = some i) :
    i ∈ s.sharedLibs ∧ (s.slib i).name = name :=
  ⟨List.mem_of_find?_eq_some h, by simpa using List.find?_some h⟩

theorem findSharedLib_eq_none : findSharedLib s name = none ↔ ¬ Loaded s name := by
  unfold findSharedLib Loaded
  rw [List.find?_eq_none]
  simp

/-- What every state between two calls has. -/
structure Table (s : State) : Prop where
  listed : Listed s
  names : ∀ i < s.sharedLibsIndexNumber, ∀ j < s.sharedLibsIndexNumber,
    (s.slib i).name = (s.slib j).name → i = j
  /-- A library comes after those it needs. -/
  needed : ∀ i < s.sharedLibsIndexNumber, ∀ j ∈ (s.slib i).neededLibs, j < i

/-- `s'` has all shared libraries of `s`, and the domains are as they were. -/
structure Extends (s s' : State) : Prop where
  le : s.sharedLibsIndexNumber ≤ s'.sharedLibsIndexNumber
  slib : ∀ i < s.sharedLibsIndexNumber, s'.slib i = s.slib i
  domain : s'.domain = s.domain
  statics : s'.statics = s.statics
  allocated : s'.allocated = s.allocated

theorem Extends.refl (s : State) : Extends s s := ⟨Nat.le_refl _, fun _ _ => rfl, rfl, rfl, rfl⟩

theorem Extends.trans (h : Extends s s') (h' : Extends s' s'') : Extends s s'' :=
  ⟨Nat.le_trans h.le h'.le,
    fun i hi => (h'.slib i (Nat.lt_of_lt_of_le hi h.le)).trans (h.slib i hi),
    h'.domain.trans h.domain, h'.statics.trans h.statics, h'.allocated.trans h.allocated⟩

theorem Extends.enter (s : State) (lib : SharedLibDesc) : Extends s (enterSharedLib s lib) :=
  ⟨Nat.le_succ _, fun _ hi => Function.update_of_ne (Nat.ne_of_lt hi) _ _, rfl, rfl, rfl⟩

/-- The names of the libraries that `s'` has and `s` has not. -/
def newNames (s s' : State) : List String :=
  (List.range' s.sharedLibsIndexNumber (s'.sharedLibsIndexNumber - s.sharedLibsIndexNumber)).map
    fun i => (s'.slib i).name

theorem mem_newNames (h : s.sharedLibsIndexNumber ≤ s'.sharedLibsIndexNumber) :
    name ∈ newNames s s' ↔ ∃ i, s.sharedLibsIndexNumber ≤ i ∧ i < s'.sharedLibsIndexNumber ∧
      (s'.slib i).name = name := by
  unfold newNames
  simp only [List.mem_map, List.mem_range'_1]
  grind

theorem newNames_trans (h : Extends s s') (h' : Extends s' s'') :
    newNames s s'' = newNames s s' ++ newNames s' s'' := by
  have hle := h.le
  have hle' := h'.le
  have hsplit : List.range' s.sharedLibsIndexNumber
        (s''.sharedLibsIndexNumber - s.sharedLibsIndexNumber) =
      List.range' s.sharedLibsIndexNumber
        (s'.sharedLibsIndexNumber - s.sharedLibsIndexNumber) ++
      List.range' s'.sharedLibsIndexNumber
        (s''.sharedLibsIndexNumber - s'.sharedLibsIndexNumber) := by
    rw [show s''.sharedLibsIndexNumber - s.sharedLibsIndexNumber =
      (s'.sharedLibsIndexNumber - s.sharedLibsIndexNumber) +
        (s''.sharedLibsIndexNumber - s'.sharedLibsIndexNumber) by omega,
      ← List.range'_append_1,
      show s.sharedLibsIndexNumber + (s'.sharedLibsIndexNumber - s.sharedLibsIndexNumber) =
        s'.sharedLibsIndexNumber by omega]
  unfold newNames
  rw [hsplit, List.map_append]
  refine congrArg (· ++ _) (List.map_congr_left fun i hi => ?_)
  rw [h'.slib i (by simp only [List.mem_range'_1] at hi; omega)]

theorem newNames_self (s : State) : newNames s s = [] := by
  simp [newNames]

theorem newNames_enter (s : State) (lib : SharedLibDesc) :
    newNames s (enterSharedLib s lib) = [lib.name] := by
  simp [newNames, enterSharedLib]

theorem loaded_iff_of_extends (hs : Listed s) (hs' : Listed s') (h : Extends s s') :
    Loaded s' name ↔ Loaded s name ∨ name ∈ newNames s s' := by
  rw [mem_newNames h.le]
  unfold Loaded
  simp only [hs.mem, hs'.mem]
  have hle := h.le
  have hsame := h.slib
  constructor
  · rintro ⟨i, hi, rfl⟩
    by_cases hold : i < s.sharedLibsIndexNumber
    · exact Or.inl ⟨i, hold, by rw [hsame i hold]⟩
    · exact Or.inr ⟨i, Nat.le_of_not_lt hold, hi, rfl⟩
  · rintro (⟨i, hi, rfl⟩ | ⟨i, -, hi, rfl⟩)
    · exact ⟨i, Nat.lt_of_lt_of_le hi hle, by rw [hsame i hi]⟩
    · exact ⟨i, hi, rfl⟩

/-- A library that is not there yet and needs only those that are may enter. -/
theorem Table.enter (h : Table s) {lib : SharedLibDesc} (hname : ¬ Loaded s lib.name)
    (hneeded : ∀ j ∈ lib.neededLibs, j < s.sharedLibsIndexNumber) : Table (enterSharedLib s lib) := by
  have hne : ∀ j < s.sharedLibsIndexNumber, (s.slib j).name ≠ lib.name := fun j hj heq =>
    hname ⟨j, h.listed.mem.mpr hj, heq⟩
  have hnames := h.names
  have hneed := h.needed
  refine ⟨h.listed.enter lib, ?_, ?_⟩
  · unfold enterSharedLib
    grind
  · unfold enterSharedLib
    grind

end Table

/-! ## Dependencies without a cycle -/

section Acyclic

open Relation

variable {files : CodeFiles} {loaded : String → Prop} {s s' s'' : State} {name : String}

/-- What loading the libraries `names` has done. -/
structure Grown (files : CodeFiles) (loaded : String → Prop) (names : List String) (s s' : State) :
    Prop extends Extends s s' where
  table : Table s'
  reach : ∀ x ∈ newNames s s', ∃ y ∈ names, ¬ loaded y ∧ ReflTransGen (Needs files loaded) y x
  parsed : s'.parsed.Perm (newNames s s' ++ s.parsed)
  linked : s'.linked.Perm (newNames s s' ++ s.linked)

theorem Grown.refl (hs : Table s) (names : List String) : Grown files loaded names s s where
  toExtends := Extends.refl s
  table := hs
  reach := by simp [newNames_self]
  parsed := by simp [newNames_self]
  linked := by simp [newNames_self]

theorem Grown.cons {y : String} {rest : List String} (h : Grown files loaded [y] s s')
    (h' : Grown files loaded rest s' s'') : Grown files loaded (y :: rest) s s'' := by
  have hnew := newNames_trans h.toExtends h'.toExtends
  have hperm : ∀ {l l' l'' : List String}, l'.Perm (newNames s s' ++ l) →
      l''.Perm (newNames s' s'' ++ l') → l''.Perm (newNames s s'' ++ l) := by
    intro l l' l'' hl hl'
    have hswap : (newNames s' s'' ++ (newNames s s' ++ l)).Perm (newNames s s'' ++ l) := by
      rw [hnew, ← List.append_assoc]
      exact List.perm_append_comm.append_right l
    exact hl'.trans ((hl.append_left _).trans hswap)
  refine ⟨h.toExtends.trans h'.toExtends, h'.table, fun x hx => ?_, hperm h.parsed h'.parsed,
    hperm h.linked h'.linked⟩
  rw [hnew, List.mem_append] at hx
  obtain hx | hx := hx
  · obtain ⟨y', hy', hrest⟩ := h.reach x hx
    exact ⟨y', List.mem_cons.mpr (Or.inl (List.mem_singleton.mp hy')), hrest⟩
  · obtain ⟨y', hy', hrest⟩ := h'.reach x hx
    exact ⟨y', List.mem_cons_of_mem y hy', hrest⟩

/-- `loadSharedLibrary` makes the library and enters it last. -/
structure Made (files : CodeFiles) (loaded : String → Prop) (name : String) (s s' : State) :
    Prop extends Extends s s' where
  table : Table s'
  lt : s.sharedLibsIndexNumber < s'.sharedLibsIndexNumber
  top : (s'.slib (s'.sharedLibsIndexNumber - 1)).name = name
  reach : ∀ x ∈ newNames s s', ReflTransGen (Needs files loaded) name x
  parsed : s'.parsed.Perm (newNames s s' ++ s.parsed)
  linked : (name :: s'.linked).Perm (newNames s s' ++ s.linked)

/-- `loadSharedLibrary` works for `name` wherever the libraries `loaded` are loaded. -/
def Loads (files : CodeFiles) (loaded : String → Prop) (name : String) : Prop :=
  ∀ s, Table s → (∀ x, loaded x → Loaded s x) → ¬ Loaded s name →
    ∃ s', Returns (fun fuel => loadSharedLibrary files fuel s name)
        (some (s'.sharedLibsIndexNumber - 1), s') ∧
      Made files loaded name s s'

theorem Made.link (h : Made files loaded name s s') (hname : ¬ loaded name) :
    Grown files loaded [name] s (linksharedlib s' (s'.sharedLibsIndexNumber - 1)) where
  toExtends := ⟨h.le, h.slib, h.domain, h.statics, h.allocated⟩
  table := ⟨h.table.listed, h.table.names, h.table.needed⟩
  reach := fun x hx => ⟨name, List.mem_singleton_self name, hname, h.reach x hx⟩
  parsed := h.parsed
  linked := by
    show ((s'.slib _).name :: s'.linked).Perm _
    rw [h.top]
    exact h.linked

theorem findOrLoad_grown (hs : Table s) (hbase : ∀ x, loaded x → Loaded s x)
    (hloads : ¬ loaded name → Loads files loaded name) :
    ∃ i s', Returns (fun fuel => findOrLoad (loadSharedLibrary files fuel) s name) (some i, s') ∧
      Grown files loaded [name] s s' ∧ i < s'.sharedLibsIndexNumber ∧ (s'.slib i).name = name ∧
      (s' = s ∨ i + 1 = s'.sharedLibsIndexNumber) := by
  cases hfind : findSharedLib s name with
  | some i =>
    obtain ⟨hi, hname⟩ := findSharedLib_some hfind
    refine ⟨i, s, ⟨0, fun fuel _ => ?_⟩, Grown.refl hs _, hs.listed.mem.mp hi, hname, Or.inl rfl⟩
    simp only [findOrLoad, hfind]
  | none =>
    have hnot := findSharedLib_eq_none.mp hfind
    have hname := mt (hbase name) hnot
    obtain ⟨s', ⟨n, hcall⟩, hmade⟩ := hloads hname s hs hbase hnot
    have hlt := hmade.lt
    refine ⟨_, _, ⟨n, fun fuel hfuel => ?_⟩, hmade.link hname, ?_, hmade.top, Or.inr ?_⟩
    · have hone : loadSharedLibrary files fuel s name = _ := hcall fuel hfuel
      simp only [findOrLoad, hfind, hone, pure_bind]
    · show s'.sharedLibsIndexNumber - 1 < s'.sharedLibsIndexNumber
      omega
    · show s'.sharedLibsIndexNumber - 1 + 1 = s'.sharedLibsIndexNumber
      omega

theorem Grown.keeps (hs : Table s) {names : List String} (h : Grown files loaded names s s')
    {x : String} (hx : Loaded s x) : Loaded s' x :=
  (loaded_iff_of_extends hs.listed h.table.listed h.toExtends).mpr (Or.inl hx)

/-- The loop over the needed libraries, if each of them can be loaded. -/
theorem loadNeeded_grown {names : List String}
    (hloads : ∀ y ∈ names, ¬ loaded y → Loads files loaded y) (hs : Table s)
    (hbase : ∀ x, loaded x → Loaded s x) :
    ∃ l s', Returns (fun fuel => loadNeeded (loadSharedLibrary files fuel) s names) (l, s') ∧
      Grown files loaded names s s' ∧ ∀ j ∈ l, j < s'.sharedLibsIndexNumber := by
  induction names generalizing s with
  | nil => exact ⟨[], s, ⟨0, fun _ _ => rfl⟩, Grown.refl hs _, by simp⟩
  | cons y rest ih =>
    obtain ⟨i, s₁, hcall, hgrown, hi, -⟩ :=
      findOrLoad_grown hs hbase (hloads y (List.mem_cons_self ..))
    obtain ⟨l, s₂, hrest, hgrown', hl⟩ := ih
      (fun x hx => hloads x (List.mem_cons_of_mem y hx)) hgrown.table
      (fun x hx => hgrown.keeps hs (hbase x hx))
    refine ⟨i :: l, s₂, ?_, hgrown.cons hgrown', fun j hj => ?_⟩
    · obtain ⟨n, hn⟩ := hcall
      obtain ⟨m, hm⟩ := hrest
      refine ⟨max n m, fun fuel hfuel => ?_⟩
      have h₁ : findOrLoad (loadSharedLibrary files fuel) s y = _ :=
        hn fuel (Nat.le_trans (Nat.le_max_left n m) hfuel)
      have h₂ : loadNeeded (loadSharedLibrary files fuel) s₁ rest = _ :=
        hm fuel (Nat.le_trans (Nat.le_max_right n m) hfuel)
      simp only [loadNeeded, h₁, pure_bind, h₂]
    · rcases List.mem_cons.mp hj with rfl | hj
      · exact Nat.lt_of_lt_of_le hi hgrown'.le
      · exact hl j hj

theorem not_transGen_of_acc {α : Type} {r : α → α → Prop} {a : α} (h : Acc r a) :
    ¬ TransGen r a a := by
  induction h with
  | intro x _ ih =>
    intro hx
    obtain ⟨y, hxy, hyx⟩ := TransGen.tail'_iff.mp hx
    rcases Relation.reflTransGen_iff_eq_or_transGen.mp hxy with rfl | hxy
    · exact ih y hyx (TransGen.single hyx)
    · exact ih y hyx (TransGen.head hyx hxy)

/-- A library is made if nothing it depends on depends on itself: induction over the dependencies. -/
theorem loads_of_acc (hclosed : Closed files)
    (hacc : Acc (fun b a => Needs files loaded a b) name)
    (hfile : (readCodefile files name).isSome = true) (hname : ¬ loaded name) :
    Loads files loaded name := by
  induction hacc with
  | intro name hsub ih =>
    intro s hs hbase hnot
    obtain ⟨file, hread⟩ := Option.isSome_iff_exists.mp hfile
    have hloads : ∀ y ∈ file.neededLibs, ¬ loaded y → Loads files loaded y := fun y hy hyl =>
      ih y ⟨file, hread, hy, hname, hyl⟩ (hclosed name file hread y hy) hyl
    have hs₀ : Table { s with parsed := name :: s.parsed } := ⟨hs.listed, hs.names, hs.needed⟩
    obtain ⟨l, s₁, ⟨n, hloop⟩, hgrown, hl⟩ := loadNeeded_grown hloads hs₀ hbase
    have hnew : newNames { s with parsed := name :: s.parsed } s₁ = newNames s s₁ := rfl
    have hext : Extends s s₁ :=
      ⟨hgrown.le, hgrown.slib, hgrown.domain, hgrown.statics, hgrown.allocated⟩
    -- every library made on the way is one that this one depends on
    have hreach : ∀ x ∈ newNames s s₁, TransGen (Needs files loaded) name x := by
      intro x hx
      obtain ⟨y, hy, hyl, hyx⟩ := hgrown.reach x (hnew ▸ hx)
      exact TransGen.head' ⟨file, hread, hy, hname, hyl⟩ hyx
    have hfresh : ¬ Loaded s₁ name := by
      intro h
      rcases (loaded_iff_of_extends hs.listed hgrown.table.listed hext).mp h with h | h
      · exact hnot h
      · have hacc : Acc (fun b a => Needs files loaded a b) name := Acc.intro name hsub
        exact not_transGen_of_acc hacc (hreach name h).swap
    have hnew' : newNames s (enterSharedLib s₁ ⟨name, l, file.staticFieldsSize⟩) =
        newNames s s₁ ++ [name] := by
      rw [newNames_trans hext (Extends.enter ..), newNames_enter]
    refine ⟨enterSharedLib s₁ ⟨name, l, file.staticFieldsSize⟩, ⟨n + 1, fun fuel hfuel => ?_⟩,
      hext.trans (Extends.enter ..), hgrown.table.enter hfresh hl, ?_, ?_, ?_, ?_, ?_⟩
    · obtain ⟨fuel, rfl⟩ := Nat.exists_eq_add_of_le' hfuel
      have hone : loadNeeded (loadSharedLibrary files (fuel + n))
          { s with parsed := name :: s.parsed } file.neededLibs = _ :=
        hloop (fuel + n) (Nat.le_add_left n fuel)
      rw [← Nat.add_assoc]
      simp only [loadSharedLibrary, hread, hone, pure_bind]
      rfl
    · exact Nat.lt_succ_of_le hext.le
    · show (Function.update s₁.slib s₁.sharedLibsIndexNumber _ s₁.sharedLibsIndexNumber).name = name
      rw [Function.update_self]
    · intro x hx
      rw [hnew', List.mem_append, List.mem_singleton] at hx
      obtain hx | rfl := hx
      · exact (hreach x hx).to_reflTransGen
      · exact .refl
    · rw [hnew', List.append_assoc]
      exact hgrown.parsed
    · rw [hnew', List.append_assoc]
      exact (hgrown.linked.cons name).trans List.perm_middle.symm

end Acyclic

/-! ## Dependencies with a cycle -/

section Cyclic

open Relation

variable {files : CodeFiles} {loaded : String → Prop} {s : State} {name : String}

/-- A library that `name` depends on, or `name` itself, depends on itself. -/
def Cyclic (files : CodeFiles) (loaded : String → Prop) (name : String) : Prop :=
  ∃ x, ReflTransGen (Needs files loaded) name x ∧ TransGen (Needs files loaded) x x

/-- A library can need only the libraries that are named in some code file. -/
theorem mem_of_needs {a b : String} (h : Needs files loaded a b) :
    b ∈ files.flatMap fun p => p.2.neededLibs := by
  obtain ⟨file, hread, hb, -⟩ := h
  obtain ⟨l₁, l₂, rfl, -⟩ := List.lookup_eq_some_iff.mp hread
  simp only [List.mem_flatMap]
  exact ⟨(a, file), by simp, hb⟩

/-- There are finitely many code files, so the dependencies end unless they run in a circle. -/
theorem acc_iff_not_cyclic :
    Acc (fun b a => Needs files loaded a b) name ↔ ¬ Cyclic files loaded name := by
  constructor
  · rintro hacc ⟨x, hreach, hcycle⟩
    have hx : Acc (fun b a => Needs files loaded a b) x := by
      clear hcycle
      induction hreach with
      | refl => exact hacc
      | tail _ hstep ih => exact ih.inv hstep
    exact not_transGen_of_acc hx hcycle.swap
  · intro hno
    have hfinite : Finite { x // ReflTransGen (Needs files loaded) name x } := by
      refine Set.Finite.subset
        (List.finite_toSet (name :: files.flatMap fun p => p.2.neededLibs)) fun x hx => ?_
      rcases hx.cases_tail with rfl | ⟨y, -, hyx⟩
      · exact List.mem_cons_self
      · exact List.mem_cons_of_mem _ (mem_of_needs hyx)
    let below (a b : { x // ReflTransGen (Needs files loaded) name x }) : Prop :=
      TransGen (Needs files loaded) b.1 a.1
    have htrans : IsTrans _ below := ⟨fun a b c hab hbc => TransGen.trans hbc hab⟩
    have hirrefl : Std.Irrefl below := ⟨fun a ha => hno ⟨a.1, a.2, ha⟩⟩
    have hwf := Finite.wellFounded_of_trans_of_irrefl below
    have hall : ∀ a : { x // ReflTransGen (Needs files loaded) name x },
        Acc (fun b a => Needs files loaded a b) a.1 := by
      intro a
      induction a using hwf.induction with
      | _ a ih =>
        refine Acc.intro a.1 fun b hb => ?_
        exact ih ⟨b, a.2.tail hb⟩ (TransGen.single hb)
    exact hall ⟨name, .refl⟩

/-- One routine after the other: the first has stopped, or it has come back. -/
theorem bind_eq_some {α β : Type} {x : Exec α} {g : α → Exec β} {r : Except Stop β}
    (h : x >>= g = some r) :
    (∃ e, x = some (.error e) ∧ r = .error e) ∨ ∃ a, x = some (.ok a) ∧ g a = some r := by
  match x with
  | none => cases h
  | some (.error e) =>
    cases h
    exact Or.inl ⟨e, rfl, rfl⟩
  | some (.ok a) => exact Or.inr ⟨a, rfl, h⟩

/-- Whatever was made on the way was made in finitely many steps. -/
structure Ended (files : CodeFiles) (loaded : String → Prop) (s : State) : Prop where
  listed : Listed s
  acc : ∀ x, Loaded s x → loaded x ∨ Acc (fun b a => Needs files loaded a b) x

theorem Ended.enter (h : Ended files loaded s) {lib : SharedLibDesc}
    (hlib : Acc (fun b a => Needs files loaded a b) lib.name) :
    Ended files loaded (enterSharedLib s lib) := by
  refine ⟨h.listed.enter lib, fun x hx => ?_⟩
  rw [loaded_iff_of_extends h.listed (h.listed.enter lib) (Extends.enter s lib), newNames_enter,
    List.mem_singleton] at hx
  obtain hx | rfl := hx
  · exact h.acc x hx
  · exact Or.inr hlib

variable {find : State → String → Exec (Option SLib × State)}

/-- `loadSharedLibrary`, with some amount of fuel, ends only for libraries without a cycle. -/
def EndsAcyclic (files : CodeFiles) (loaded : String → Prop)
    (find : State → String → Exec (Option SLib × State)) : Prop :=
  ∀ s name r, Ended files loaded s → (readCodefile files name).isSome = true →
    find s name = some r → ∃ i s', r = .ok (some i, s') ∧ Ended files loaded s' ∧
      (loaded name ∨ Acc (fun b a => Needs files loaded a b) name)

theorem EndsAcyclic.findOrLoad (h : EndsAcyclic files loaded find) :
    EndsAcyclic files loaded (findOrLoad find) := by
  intro s name r hs hfile hcall
  unfold Load.findOrLoad at hcall
  cases hfind : findSharedLib s name with
  | some i =>
    rw [hfind] at hcall
    cases hcall
    exact ⟨i, s, rfl, hs, hs.acc name ⟨i, findSharedLib_some hfind⟩⟩
  | none =>
    rw [hfind] at hcall
    obtain ⟨e, hload, rfl⟩ | ⟨a, hload, hrest⟩ := bind_eq_some hcall
    · obtain ⟨i, s', hr, -⟩ := h s name _ hs hfile hload
      cases hr
    · obtain ⟨i, s', hr, hs', hname⟩ := h s name _ hs hfile hload
      cases hr
      cases hrest
      exact ⟨i, _, rfl, ⟨hs'.listed, hs'.acc⟩, hname⟩

theorem EndsAcyclic.loadNeeded (h : EndsAcyclic files loaded find) {names : List String}
    (hfiles : ∀ y ∈ names, (readCodefile files y).isSome = true) :
    ∀ s r, Ended files loaded s → loadNeeded find s names = some r →
      ∃ l s', r = .ok (l, s') ∧ Ended files loaded s' ∧
        ∀ y ∈ names, loaded y ∨ Acc (fun b a => Needs files loaded a b) y := by
  induction names with
  | nil =>
    intro s r hs hcall
    cases hcall
    exact ⟨[], s, rfl, hs, by simp⟩
  | cons y rest ih =>
    intro s r hs hcall
    have hy := hfiles y List.mem_cons_self
    obtain ⟨e, hfind, rfl⟩ | ⟨a, hfind, hcall⟩ := bind_eq_some hcall
    · obtain ⟨i, s', hr, -⟩ := h.findOrLoad s y _ hs hy hfind
      cases hr
    · obtain ⟨i, s₁, hr, hs₁, hyacc⟩ := h.findOrLoad s y _ hs hy hfind
      cases hr
      have ih' := ih (fun x hx => hfiles x (List.mem_cons_of_mem y hx)) s₁
      obtain ⟨e, hrest, rfl⟩ | ⟨⟨l, s₂⟩, hrest, hcall⟩ := bind_eq_some hcall
      · obtain ⟨l, s₂, hr, -⟩ := ih' _ hs₁ hrest
        cases hr
      · obtain ⟨l, s₂, hr, hs₂, hacc⟩ := ih' _ hs₁ hrest
        cases hr
        cases hcall
        exact ⟨i :: l, s₂, rfl, hs₂, List.forall_mem_cons.mpr ⟨hyacc, hacc⟩⟩

/-- The recursion follows the dependencies until it has seen them all. -/
theorem endsAcyclic_loadSharedLibrary (hclosed : Closed files) (fuel : Nat) :
    EndsAcyclic files loaded (loadSharedLibrary files fuel) := by
  induction fuel with
  | zero =>
    intro s name r hs hfile hcall
    cases hcall
  | succ fuel ih =>
    intro s name r hs hfile hcall
    obtain ⟨file, hread⟩ := Option.isSome_iff_exists.mp hfile
    simp only [loadSharedLibrary, hread] at hcall
    have hloop := ih.loadNeeded (hclosed name file hread) { s with parsed := name :: s.parsed }
    have hs₀ : Ended files loaded { s with parsed := name :: s.parsed } := ⟨hs.listed, hs.acc⟩
    obtain ⟨e, hneeded, rfl⟩ | ⟨⟨l, s₁⟩, hneeded, hcall⟩ := bind_eq_some hcall
    · obtain ⟨l, s₁, hr, -⟩ := hloop _ hs₀ hneeded
      cases hr
    · obtain ⟨l, s₁, hr, hs₁, hacc⟩ := hloop _ hs₀ hneeded
      cases hr
      cases hcall
      have hname : Acc (fun b a => Needs files loaded a b) name := by
        refine Acc.intro name fun y hy => ?_
        obtain ⟨file', hread', hmem, -, hyl⟩ := hy
        obtain rfl : file = file' := Option.some.inj (hread.symm.trans hread')
        exact (hacc y hmem).resolve_left hyl
      exact ⟨_, _, rfl, hs₁.enter hname, Or.inr hname⟩

end Cyclic

/-! ## The part of the domain: the recursion ends -/

section Domain

variable {s s' s'' : State} {d : Nat} {i : SLib}

/-- The shared parts are as they were. -/
structure SameShared (s s' : State) : Prop where
  slib : s'.slib = s.slib
  sharedLibs : s'.sharedLibs = s.sharedLibs
  sharedLibsIndexNumber : s'.sharedLibsIndexNumber = s.sharedLibsIndexNumber
  parsed : s'.parsed = s.parsed
  linked : s'.linked = s.linked

theorem SameShared.refl (s : State) : SameShared s s := ⟨rfl, rfl, rfl, rfl, rfl⟩

theorem SameShared.trans (h : SameShared s s') (h' : SameShared s' s'') : SameShared s s'' :=
  ⟨h'.1.trans h.1, h'.2.trans h.2, h'.3.trans h.3, h'.4.trans h.4, h'.5.trans h.5⟩

/-- What `insertLib` does if it does not panic. -/
theorem insertLib_eq_pure {lib : LibDesc} (h : insertLib s d i = pure (lib, s')) :
    i < maxNumberOfLibs ∧
      lib = ⟨s.allocated, i, placeStatics (s.allocated + 1) 0 (s.slib i).staticFieldsSize⟩ ∧
      SameShared s s' ∧ s'.allocated = s.allocated + 2 ∧ (∀ e ≠ d, s'.domain e = s.domain e) ∧
      (s'.domain d).libs = (s.domain d).libs ++ [lib] ∧
      (s'.domain d).ndxLibs = Function.update (s.domain d).ndxLibs i (some lib) ∧
      ((s'.domain d).sfields = (s.domain d).sfields ∧ s'.statics = s.statics ∨
        (s'.domain d).sfields = Function.update (s.domain d).sfields i (some (s.allocated + 1)) ∧
        s'.statics = Function.update s.statics (s.allocated + 1) fun _ => 0) := by
  unfold insertLib at h
  simp only at h
  split at h
  · cases h
  · split at h
    · cases h
    · rename_i hmax
      cases h
      refine ⟨not_not.mp hmax, rfl, ?_⟩
      split
      · refine ⟨⟨rfl, rfl, rfl, rfl, rfl⟩, rfl, fun e he => Function.update_of_ne he _ _, ?_⟩
        simp
      · refine ⟨⟨rfl, rfl, rfl, rfl, rfl⟩, rfl, fun e he => Function.update_of_ne he _ _, ?_⟩
        simp

theorem loadMissing_shared {loadOne : State → SLib → Exec (LibDesc × State)}
    (hone : ∀ (s s' : State) i lib, loadOne s i = pure (lib, s') → SameShared s s')
    {l : List SLib} : ∀ {s : State}, loadMissing loadOne d s l = pure s' → SameShared s s' := by
  induction l with
  | nil =>
    intro s h
    cases h
    exact SameShared.refl _
  | cons j rest ih =>
    intro s h
    obtain ⟨found, -, h⟩ := bind_eq_pure h
    cases found with
    | some _ => exact ih h
    | none =>
      obtain ⟨⟨lib, s₁⟩, hcall, h⟩ := bind_eq_pure h
      exact (hone s s₁ j lib hcall).trans (ih h)

theorem loadLib_shared {fuel : Nat} :
    ∀ {s s' : State} {i lib}, loadLib d fuel s i = pure (lib, s') → SameShared s s' := by
  induction fuel with
  | zero =>
    intro s s' i lib h
    cases h
  | succ fuel ih =>
    intro s s' i lib h
    obtain ⟨s₁, hmissing, h⟩ := bind_eq_pure h
    exact (loadMissing_shared (fun _ _ _ _ => ih) hmissing).trans (insertLib_eq_pure h).2.2.1

theorem Halts.bind {α β : Type} {call : Nat → Exec α} {next : α → Nat → Exec β} (h : Halts call)
    (hnext : ∀ a, Returns call a → Halts (next a)) :
    Halts fun fuel => call fuel >>= fun a => next a fuel := by
  obtain ⟨r, n, hn⟩ := h
  cases r with
  | error e =>
    refine ⟨.error e, n, fun fuel hfuel => ?_⟩
    simp only [hn fuel hfuel]
    rfl
  | ok a =>
    obtain ⟨r, m, hm⟩ := hnext a ⟨n, hn⟩
    refine ⟨r, max n m, fun fuel hfuel => ?_⟩
    simp only [hn fuel (Nat.le_trans (Nat.le_max_left n m) hfuel)]
    exact hm fuel (Nat.le_trans (Nat.le_max_right n m) hfuel)

theorem Halts.of_returns {α : Type} {call : Nat → Exec α} {a : α} (h : Returns call a) :
    Halts call :=
  ⟨.ok a, h⟩

/-- A routine without a loop ends. -/
theorem Halts.const {α : Type} (x : Except Stop α) : Halts fun _ => (some x : Exec α) :=
  ⟨x, 0, fun _ _ => rfl⟩

theorem sharedLib2Lib_halts (dom : DomainDesc) (i : SLib) :
    Halts fun _ => sharedLib2Lib dom i := by
  unfold sharedLib2Lib
  split
  · exact Halts.const _
  · exact Halts.const _

theorem insertLib_halts (s : State) (d : Nat) (i : SLib) : Halts fun _ => insertLib s d i := by
  unfold insertLib
  simp only
  split
  · exact Halts.const _
  · split
    · exact Halts.const _
    · exact Halts.const _

theorem loadMissing_halts {l : List SLib}
    (hone : ∀ j ∈ l, ∀ s', SameShared s s' → Halts fun fuel => loadLib d fuel s' j)
    (hs : SameShared s s') : Halts fun fuel => loadMissing (loadLib d fuel) d s' l := by
  induction l generalizing s' with
  | nil => exact Halts.const _
  | cons j rest ih =>
    have hrest : ∀ s'', SameShared s s'' → Halts fun fuel => loadMissing (loadLib d fuel) d s'' rest :=
      fun s'' hs'' => ih (fun x hx => hone x (List.mem_cons_of_mem j hx)) hs''
    refine (sharedLib2Lib_halts _ j).bind fun found _ => ?_
    cases found with
    | some _ => exact hrest _ hs
    | none =>
      refine (hone j List.mem_cons_self s' hs).bind fun a ha => ?_
      obtain ⟨n, hn⟩ := ha
      exact hrest _ (hs.trans (loadLib_shared (hn n (Nat.le_refl n))))

/-- A library needs only libraries with smaller indices, so `loadLib` ends. -/
theorem loadLib_halts (hs : Table s) :
    ∀ i < s.sharedLibsIndexNumber, ∀ s', SameShared s s' → Halts fun fuel => loadLib d fuel s' i := by
  intro i
  induction i using Nat.strong_induction_on with
  | _ i ih =>
    intro hi s' hsame
    have hone : ∀ j ∈ (s'.slib i).neededLibs, ∀ s'', SameShared s' s'' →
        Halts fun fuel => loadLib d fuel s'' j := by
      intro j hj s'' hsame'
      have hji := hs.needed i hi j (hsame.slib ▸ hj)
      exact ih j hji (Nat.lt_trans hji hi) s'' (hsame.trans hsame')
    obtain ⟨r, n, hn⟩ : Halts fun fuel =>
        loadMissing (loadLib d fuel) d s' (s'.slib i).neededLibs >>= fun s => insertLib s d i :=
      (loadMissing_halts hone (SameShared.refl s')).bind fun s₁ _ => insertLib_halts s₁ d i
    refine ⟨r, n + 1, fun fuel hfuel => ?_⟩
    obtain ⟨k, rfl⟩ := Nat.exists_eq_add_of_le' hfuel
    exact hn (k + n) (Nat.le_add_left n k)

end Domain

/-! ## Every call of every run -/

section Runs

open Relation

variable {files : CodeFiles} {s s' : State} {d : Nat} {name : String}

/-- The names of all shared libraries. -/
def allNames (s : State) : List String :=
  (List.range s.sharedLibsIndexNumber).map fun i => (s.slib i).name

theorem allNames_extends (h : Extends s s') : allNames s' = allNames s ++ newNames s s' := by
  have hle := h.le
  unfold allNames newNames
  rw [show s'.sharedLibsIndexNumber = s.sharedLibsIndexNumber +
    (s'.sharedLibsIndexNumber - s.sharedLibsIndexNumber) by omega, List.range_eq_range',
    ← List.range'_append_1, List.map_append, List.range_eq_range']
  simp only [Nat.zero_add, Nat.add_sub_cancel_left]
  refine congrArg (· ++ _) (List.map_congr_left fun i hi => ?_)
  rw [h.slib i (by simp only [List.mem_range'_1] at hi; omega)]

theorem Table.nodup_allNames (h : Table s) : (allNames s).Nodup := by
  refine List.Nodup.map_on (fun i hi j hj => ?_) List.nodup_range
  exact h.names i (List.mem_range.mp hi) j (List.mem_range.mp hj)

/-- Each shared library was parsed and linked once. -/
structure Recorded (s : State) : Prop where
  table : Table s
  parsed : s.parsed.Perm (allNames s)
  linked : s.linked.Perm (allNames s)

theorem Recorded.empty : Recorded State.empty :=
  ⟨⟨rfl, nofun, nofun⟩, List.Perm.refl _, List.Perm.refl _⟩

theorem Recorded.grown (h : Recorded s) {loaded : String → Prop} {names : List String}
    (hg : Grown files loaded names s s') : Recorded s' := by
  have hperm : ∀ {l l' : List String}, l.Perm (allNames s) → l'.Perm (newNames s s' ++ l) →
      l'.Perm (allNames s') := by
    intro l l' hl hl'
    rw [allNames_extends hg.toExtends]
    exact hl'.trans ((hl.append_left _).trans List.perm_append_comm)
  exact ⟨hg.table, hperm h.parsed hg.parsed, hperm h.linked hg.linked⟩

theorem Recorded.sameShared (h : Recorded s) (hs : SameShared s s') : Recorded s' := by
  have hnames : allNames s' = allNames s := by
    unfold allNames
    rw [hs.sharedLibsIndexNumber, hs.slib]
  refine ⟨⟨?_, ?_, ?_⟩, ?_, ?_⟩
  · unfold Listed
    rw [hs.sharedLibs, hs.sharedLibsIndexNumber]
    exact h.table.listed
  · rw [hs.sharedLibsIndexNumber, hs.slib]
    exact h.table.names
  · rw [hs.sharedLibsIndexNumber, hs.slib]
    exact h.table.needed
  · rw [hnames, hs.parsed]
    exact h.parsed
  · rw [hnames, hs.linked]
    exact h.linked

/-- The shared part of a library without a cycle. -/
theorem loadShared_of_acc (hclosed : Closed files) (hs : Table s)
    (hfile : Loaded s name ∨ (readCodefile files name).isSome = true)
    (hacc : Acc (fun b a => Needs files (Loaded s) a b) name) :
    ∃ i s', Returns (loadShared files s name) (i, s') ∧ Grown files (Loaded s) [name] s s' ∧
      i < s'.sharedLibsIndexNumber ∧ (s'.slib i).name = name ∧
      (s' = s ∨ i + 1 = s'.sharedLibsIndexNumber) := by
  obtain ⟨i, s', hret, hrest⟩ := findOrLoad_grown hs (fun _ => id) fun hname =>
    loads_of_acc hclosed hacc (hfile.resolve_left hname) hname
  exact ⟨i, s', hret.bind (Returns.pure _), hrest⟩

/-- If the shared part is done at all, there is no cycle. -/
theorem acc_of_findOrLoad (hclosed : Closed files) (hs : Table s) {fuel : Nat}
    {r : Except Stop (Option SLib × State)}
    (hcall : findOrLoad (loadSharedLibrary files fuel) s name = some r) :
    Acc (fun b a => Needs files (Loaded s) a b) name := by
  cases hfile : (readCodefile files name).isSome with
  | true =>
    have hended : Ended files (Loaded s) s := ⟨hs.listed, fun _ => Or.inl⟩
    obtain ⟨-, -, -, -, h | h⟩ :=
      (endsAcyclic_loadSharedLibrary hclosed fuel).findOrLoad s name r hended hfile hcall
    · exact Acc.intro name fun y hy => by
        obtain ⟨_, -, -, hname, -⟩ := hy
        exact absurd h hname
    · exact h
  | false =>
    refine Acc.intro name fun y hy => ?_
    obtain ⟨file, hread, -⟩ := hy
    rw [hread] at hfile
    cases hfile

theorem acc_of_load (hclosed : Closed files) (hs : Table s) {fuel : Nat}
    {r : Except Stop (LibDesc × State)} (hcall : load files s d name fuel = some r) :
    Acc (fun b a => Needs files (Loaded s) a b) name := by
  -- the first half has ended, whatever the second does
  obtain ⟨r', hshared⟩ : ∃ r', loadShared files s name fuel = some r' := by
    obtain ⟨_, hshared, -⟩ | ⟨_, hshared, -⟩ := bind_eq_some hcall
    · exact ⟨_, hshared⟩
    · exact ⟨_, hshared⟩
  obtain ⟨_, hfind, -⟩ | ⟨_, hfind, -⟩ := bind_eq_some hshared
  · exact acc_of_findOrLoad hclosed hs hfind
  · exact acc_of_findOrLoad hclosed hs hfind

/-- Without a code file there is no library. -/
theorem loadShared_missing (hnot : ¬ Loaded s name) (hread : readCodefile files name = none) :
    ∀ fuel > 0, loadShared files s name fuel = throw (.panic "could not load shared library") := by
  intro fuel hfuel
  obtain ⟨fuel, rfl⟩ := Nat.exists_eq_succ_of_ne_zero (Nat.ne_of_gt hfuel)
  simp only [loadShared, findOrLoad, findSharedLib_eq_none.mpr hnot, loadSharedLibrary, hread,
    pure_bind]

/-- A call that comes back has made the shared part and then the domain's. -/
theorem load_parts (hclosed : Closed files) (hs : Table s) {lib : LibDesc}
    (hret : Returns (load files s d name) (lib, s')) :
    ∃ i s₁, Returns (loadShared files s name) (i, s₁) ∧ Grown files (Loaded s) [name] s s₁ ∧
      i < s₁.sharedLibsIndexNumber ∧ (s₁.slib i).name = name ∧
      (s₁ = s ∨ i + 1 = s₁.sharedLibsIndexNumber) ∧
      Returns (fun fuel => loadLib d fuel s₁ i) (lib, s') := by
  obtain ⟨n, hn⟩ := hret
  have hsplit : ∀ fuel ≥ n, ∃ a, loadShared files s name fuel = pure a ∧
      loadLib d fuel a.2 a.1 = pure (lib, s') := fun fuel hfuel => bind_eq_pure (hn fuel hfuel)
  obtain ⟨a, hcall, -⟩ := hsplit (n + 1) (Nat.le_succ n)
  have hacc : Acc (fun b a => Needs files (Loaded s) a b) name := by
    obtain ⟨r, hfind, -⟩ := bind_eq_pure hcall
    exact acc_of_findOrLoad hclosed hs hfind
  have hfile : Loaded s name ∨ (readCodefile files name).isSome = true := by
    by_contra hno
    obtain ⟨hnot, hnone⟩ := not_or.mp hno
    rw [loadShared_missing hnot (by simpa using hnone) (n + 1) (Nat.succ_pos n)] at hcall
    cases hcall
  obtain ⟨i, s₁, ⟨m, hm⟩, hgrown, hi, hname, hlast⟩ := loadShared_of_acc hclosed hs hfile hacc
  refine ⟨i, s₁, ⟨m, hm⟩, hgrown, hi, hname, hlast, max n m, fun fuel hfuel => ?_⟩
  obtain ⟨a, hcall, hlib⟩ := hsplit fuel (Nat.le_trans (Nat.le_max_left n m) hfuel)
  have heq := (hm fuel (Nat.le_trans (Nat.le_max_right n m) hfuel)).symm.trans hcall
  cases heq
  exact hlib

theorem Recorded.step (hclosed : Closed files) {allowed : State → Call → Prop} (h : Recorded s)
    (hstep : Step files allowed s s') : Recorded s' := by
  cases hstep with
  | load _ hret =>
    obtain ⟨i, s₁, -, hgrown, -, -, -, n, hn⟩ := load_parts hclosed h.table hret
    exact (h.grown hgrown).sameShared (loadLib_shared (hn n (Nat.le_refl n)))
  | putstatic d slib offset value =>
    unfold Load.putstatic
    split
    · exact h
    · exact ⟨⟨h.table.listed, h.table.names, h.table.needed⟩, h.parsed, h.linked⟩

theorem Reach.recorded (hclosed : Closed files) (h : Reach files s) : Recorded s :=
  invariant_of_run (I := Recorded) (fun _ _ hs hstep => hs.step hclosed hstep) h Recorded.empty

/-- **Loading terminates if and only if no library to be loaded depends on itself.** -/
theorem terminates_iff (hclosed : Closed files) (hreach : Reach files s) :
    Terminates files s d name ↔ ¬ Cyclic files (Loaded s) name := by
  have hrec := hreach.recorded hclosed
  rw [← acc_iff_not_cyclic]
  constructor
  · intro h
    obtain ⟨r, n, hn⟩ := h.halts
    exact acc_of_load hclosed hrec.table (hn n (Nat.le_refl n))
  · intro hacc
    by_cases hfile : Loaded s name ∨ (readCodefile files name).isSome = true
    · obtain ⟨i, s₁, hret, hgrown, hi, -⟩ := loadShared_of_acc hclosed hrec.table hfile hacc
      refine ⟨?_, fun j s' hret' => ?_⟩
      · refine (Halts.of_returns hret).bind fun a ha => ?_
        obtain rfl := ha.unique hret
        exact loadLib_halts hgrown.table i hi s₁ (SameShared.refl s₁)
      · obtain ⟨-, rfl⟩ := Prod.mk.inj (hret'.unique hret)
        have hrec' := hrec.grown hgrown
        have hnodup := hrec'.table.nodup_allNames
        exact ⟨hrec'.parsed.nodup_iff.mpr hnodup, hrec'.linked.nodup_iff.mpr hnodup⟩
    · obtain ⟨hnot, hnone⟩ := not_or.mp hfile
      have hread : readCodefile files name = none := by simpa using hnone
      have hpanic := loadShared_missing hnot hread
      refine ⟨⟨.error (.panic "could not load shared library"), 1, fun fuel hfuel => ?_⟩,
        fun j s' hret' => ?_⟩
      · show loadShared files s name fuel >>= _ = _
        rw [hpanic fuel hfuel]
        rfl
      · obtain ⟨n, hn⟩ := hret'
        cases (hn (n + 1) (Nat.le_succ n)).symm.trans (hpanic (n + 1) (Nat.succ_pos n))

/-- Two libraries, the second of which needs the first. -/
def exampleFiles : CodeFiles :=
  [("zero.jll", ⟨[], [1]⟩), ("jdk0.jll", ⟨["zero.jll"], [2, 0]⟩)]

theorem exampleFiles_closed : Closed exampleFiles := by
  intro filename file hread libname hmem
  have h : ∀ p ∈ exampleFiles, ∀ x ∈ p.2.neededLibs,
      (readCodefile exampleFiles x).isSome = true := by decide
  obtain ⟨l₁, l₂, hfiles, -⟩ := List.lookup_eq_some_iff.mp hread
  refine h (filename, file) ?_ libname hmem
  rw [hfiles]
  simp

theorem exampleFiles_needs {loaded : String → Prop} {a b : String}
    (h : Needs exampleFiles loaded a b) : a ≠ "zero.jll" ∧ b = "zero.jll" := by
  obtain ⟨file, hread, hb, -⟩ := h
  have hall : ∀ p ∈ exampleFiles, ∀ x ∈ p.2.neededLibs, p.1 ≠ "zero.jll" ∧ x = "zero.jll" := by
    decide
  obtain ⟨l₁, l₂, hfiles, -⟩ := List.lookup_eq_some_iff.mp hread
  refine hall (a, file) ?_ b hb
  rw [hfiles]
  simp

/-- `jdk0.jll` can be loaded after boot. -/
theorem terminates_exampleFiles : Terminates exampleFiles State.empty 0 "jdk0.jll" := by
  refine (terminates_iff exampleFiles_closed .refl).mpr ?_
  rintro ⟨x, -, hcycle⟩
  obtain ⟨b, hxb, -⟩ := TransGen.head'_iff.mp hcycle
  obtain ⟨c, -, hcx⟩ := TransGen.tail'_iff.mp hcycle
  exact (exampleFiles_needs hxb).1 (exampleFiles_needs hcx).2

/-- A library that needs itself is loaded forever. -/
theorem not_terminates_self :
    ¬ Terminates [("a.jll", ⟨["a.jll"], []⟩)] State.empty 0 "a.jll" := by
  intro h
  have hclosed : Closed [("a.jll", ⟨["a.jll"], []⟩)] := by
    intro filename file hread libname hmem
    obtain ⟨l₁, l₂, hfiles, -⟩ := List.lookup_eq_some_iff.mp hread
    have hfile : (filename, file) ∈ [("a.jll", (⟨["a.jll"], []⟩ : CodeFile))] := by
      rw [hfiles]
      simp
    cases List.mem_singleton.mp hfile
    cases List.mem_singleton.mp hmem
    rfl
  obtain ⟨r, n, hn⟩ := h.halts
  have hacc := acc_of_load hclosed Recorded.empty.table (hn n (Nat.le_refl n))
  have hnot : ¬ Loaded State.empty "a.jll" := by
    rintro ⟨i, hi, -⟩
    cases hi
  exact not_transGen_of_acc hacc (TransGen.single ⟨_, rfl, List.mem_singleton_self _, hnot, hnot⟩)

end Runs

end JxCore.Load
