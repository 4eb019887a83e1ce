import JxCore.Basic
import Mathlib.Data.List.Find
import Mathlib.Data.List.Nodup
import Mathlib.Logic.Function.Basic

/-!
# Array classes (`core/load.c`)

The classes of arrays are shared by all domains and are made on demand. The linker asks for them by
name, with `findSharedArrayClassDesc`, which searches the list `sharedArrayClasses`; the allocator asks
by element class, with `findSharedArrayClassDescByElemClass`, which looks at the element class's field
`arrayClass`. Each of the two enters what it makes into the list, but only the second one sets the
field.

`createSharedArrayClassDesc` takes the name of the element class apart in a local array of 80
characters, and `findClassOrPrimitive` does so in another one. Names have no limit here: the arrays and
the names that do not fit into them are the subject of `JxCore.Core.NameBuffer`.
-/

namespace JxCore.ArrayClass

/-! ## The data -/

/-- A name, as the characters before the terminating zero. -/
abbrev Name := List Char

inductive ClassType where
  | «class»
  | interface
  | arrayClass
  | primitive
  deriving DecidableEq

/-- What `ClassDesc`, `ArrayClassDesc` and `PrimitiveClassDesc` have in common, and the element class of
an array class. -/
structure ClassDesc where
  classType : ClassType
  name : Name
  elementClass : Option Nat
  /-- `NULL` until `findSharedArrayClassDescByElemClass` has been called for this class. -/
  arrayClass : Option Nat
  deriving DecidableEq

structure State where
  desc : Nat → ClassDesc
  /-- The descriptors below are in use. -/
  top : Nat
  /-- The list that starts at `sharedArrayClasses`, linked by `next`. -/
  sharedArrayClasses : List Nat
  /-- For each library of `sharedLibs` its `allClasses`. -/
  sharedLibs : List (List Nat)

/-- The characters that `findPrimitiveClass` knows. -/
def primitives : List Char := ['I', 'J', 'F', 'D', 'B', 'C', 'S', 'Z']

/-- `java_lang_Object`. -/
def javaLangObject : Nat := primitives.length

/-- The state after `initPrimitiveClasses` and `createObjectClassDesc`. -/
def State.boot : State where
  desc := fun a =>
    match primitives[a]? with
    | some c => ⟨.primitive, [c], none, none⟩
    | none => ⟨.class, "java/lang/Object".toList, none, none⟩
  top := primitives.length + 1
  sharedArrayClasses := []
  sharedLibs := []

def State.name (s : State) (a : Nat) : Name := (s.desc a).name

/-- A new descriptor, with the other fields zero. -/
def State.alloc (s : State) (classType : ClassType) (name : Name) (elementClass : Option Nat) :
    Nat × State :=
  (s.top, { s with
    desc := Function.update s.desc s.top ⟨classType, name, elementClass, none⟩
    top := s.top + 1 })

/-! ## Classes by name -/

/-- An access outside an array. -/
def outside : Stop := .wild

/-- `findPrimitiveClass`; `none` is the terminating zero. -/
def findPrimitiveClass (c : Option Char) : Except Stop Nat :=
  match c with
  | none => throw (.panic "unknown primitive type")
  | some c =>
    if c ∈ primitives then pure (primitives.idxOf c) else throw (.panic "unknown primitive type")

/-- `findClassDesc`. The hash key of a library only saves a search that would fail. -/
def findClassDesc (s : State) (name : Name) : Option Nat :=
  if name = "java/lang/Object".toList then some javaLangObject
  else s.sharedLibs.flatten.find? fun c => s.name c = name

/-- The element class in `createSharedArrayClassDesc`. The recursive call for `name + 1` is passed in as
`findElem`, and the class name is copied to `value`, which has 80 characters. -/
def elemClass (findElem : State → Except Stop (Nat × State)) (s : State) (name : Name) :
    Except Stop (Nat × State) :=
  match name with
  | [] => throw outside
  | [_] => do return (← findPrimitiveClass none, s)
  | _ :: 'L' :: rest =>
    if rest = [] ∨ 80 ≤ rest.length - 1 then throw outside
    else
      match findClassDesc s rest.dropLast with
      | none => throw (.panic "not a shared element class")
      | some c => return (c, s)
  | _ :: '[' :: _ => findElem s
  | _ :: c :: _ => do return (← findPrimitiveClass (some c), s)

/-- `createSharedArrayClassDesc`. -/
def createSharedArrayClassDesc (findElem : State → Except Stop (Nat × State)) (s : State)
    (name : Name) : Except Stop (Nat × State) := do
  let (c, s) ← elemClass findElem s name
  return s.alloc .arrayClass name (some c)

def State.enter (s : State) (c : Nat) : State :=
  { s with sharedArrayClasses := c :: s.sharedArrayClasses }

/-- The loop of `findSharedArrayClassDesc`. -/
def State.lookup (s : State) (name : Name) : Option Nat :=
  s.sharedArrayClasses.find? fun c => s.name c = name

/-- `findSharedArrayClassDesc`. -/
def findSharedArrayClassDesc : State → Name → Except Stop (Nat × State)
  | s, [] =>
    match s.lookup [] with
    | some c => return (c, s)
    | none => throw outside
  | s, ch :: n =>
    match s.lookup (ch :: n) with
    | some c => return (c, s)
    | none => do
      let (c, s) ← createSharedArrayClassDesc (findSharedArrayClassDesc · n) s (ch :: n)
      return (c, s.enter c)

/-! ## Classes by element class -/

/-- The name that `createSharedArrayClassDescUsingElemClass` gives to the arrays of a class. -/
def ClassDesc.arrayName (c : ClassDesc) : Name :=
  if c.name.head? = some '[' ∨ c.classType = .primitive then '[' :: c.name
  else '[' :: 'L' :: (c.name ++ [';'])

/-- `createSharedArrayClassDescUsingElemClass`. -/
def createSharedArrayClassDescUsingElemClass (s : State) (elemClass : Nat) : Nat × State :=
  s.alloc .arrayClass (s.desc elemClass).arrayName (some elemClass)

/-- `elemClass->arrayClass = c`. -/
def State.setArrayClass (s : State) (elemClass c : Nat) : State :=
  { s with
    desc := Function.update s.desc elemClass { s.desc elemClass with arrayClass := some c } }

/-- `findSharedArrayClassDescByElemClass`. -/
def findSharedArrayClassDescByElemClass (s : State) (elemClass : Nat) : Except Stop (Nat × State) :=
  if elemClass < s.top then
    match (s.desc elemClass).arrayClass with
    | some c => return (c, s)
    | none =>
      let (c, s) := createSharedArrayClassDescUsingElemClass s elemClass
      return (c, (s.setArrayClass elemClass c).enter c)
  else throw outside

/-! ## Runs

Between two calls libraries may be loaded, and domains may make array classes of their own; both give
new descriptors that are not in the list. -/

inductive Call where
  | byName (name : Name)
  | byElemClass (elemClass : Nat)
  deriving DecidableEq

inductive Event where
  | call (c : Call)
  /-- A library enters `sharedLibs`, with the types and names of its classes. -/
  | load (classes : List (ClassType × Name))
  /-- `createArrayClass`. -/
  | createArrayClass (name : Name) (elementClass : Nat)

def call (s : State) : Call → Except Stop (Nat × State)
  | .byName name => findSharedArrayClassDesc s name
  | .byElemClass elemClass => findSharedArrayClassDescByElemClass s elemClass

/-- The array type that a call denotes. -/
def typeName (s : State) : Call → Name
  | .byName name => name
  | .byElemClass elemClass => (s.desc elemClass).arrayName

/-- The classes of a library get their descriptors. -/
def loadClasses : State → List (ClassType × Name) → List Nat × State
  | s, [] => ([], s)
  | s, (classType, name) :: rest =>
    let (c, s) := s.alloc classType name none
    let (cs, s) := loadClasses s rest
    (c :: cs, s)

/-- One event, with the denoted type and the descriptor if it is a call. -/
def step (s : State) : Event → Except Stop (List (Name × Nat) × State)
  | .call c => do
    let (d, t) ← call s c
    return ([(typeName s c, d)], t)
  | .load classes =>
    let (cs, t) := loadClasses s classes
    return ([], { t with sharedLibs := cs :: t.sharedLibs })
  | .createArrayClass name elementClass =>
    return ([], (s.alloc .arrayClass name (some elementClass)).2)

def run : State → List Event → Except Stop (List (Name × Nat) × State)
  | s, [] => return ([], s)
  | s, e :: events => do
    let (now, s) ← step s e
    let (later, s) ← run s events
    return (now ++ later, s)

/-- Calls of one type return one descriptor, and no two descriptors in the list have the same name. -/
structure OneClassPerType (results : List (Name × Nat)) (s : State) : Prop where
  same : ∀ x ∈ results, ∀ y ∈ results, x.1 = y.1 → x.2 = y.2
  distinct : (s.sharedArrayClasses.map s.name).Nodup

/-! ## The element class's field

A class made by name stays unknown to its element class. A call by element class is safe as long as no
such class is there. -/

/-- The array class of this element class is not in the list, or the element class knows it. -/
def Known (s : State) : Call → Prop
  | .byName _ => True
  | .byElemClass elemClass =>
    (s.desc elemClass).arrayClass ≠ none ∨
      ∀ d ∈ s.sharedArrayClasses, s.name d ≠ (s.desc elemClass).arrayName

def KnownAt (s : State) : Event → Prop
  | .call c => Known s c
  | .load _ => True
  | .createArrayClass _ _ => True

/-- Every call of the run is made in a state where its array class is known. -/
def AllKnown : State → List Event → Prop
  | _, [] => True
  | s, e :: events => KnownAt s e ∧ ∀ now t, step s e = .ok (now, t) → AllKnown t events

/-! ## What every call keeps -/

/-- The descriptors in the list exist, and an element class that knows an array class knows one of its
own, from the list. -/
structure Good (s : State) : Prop where
  exists_of_mem : ∀ d ∈ s.sharedArrayClasses, d < s.top
  arrayClass : ∀ e d, (s.desc e).arrayClass = some d →
    d ∈ s.sharedArrayClasses ∧ s.name d = (s.desc e).arrayName

/-- Descriptors are added, and those there are keep their names. -/
structure Extends (s t : State) : Prop where
  top : s.top ≤ t.top
  list : s.sharedArrayClasses <:+ t.sharedArrayClasses
  name : ∀ a < s.top, t.name a = s.name a

def Distinct (s : State) : Prop := (s.sharedArrayClasses.map s.name).Nodup

variable {s t u : State}

theorem Extends.refl (s : State) : Extends s s := ⟨Nat.le_refl _, List.suffix_rfl, fun _ _ => rfl⟩

theorem Extends.trans (h : Extends s t) (h' : Extends t u) : Extends s u where
  top := Nat.le_trans h.top h'.top
  list := h.list.trans h'.list
  name := by
    intro a ha
    rw [h'.name a (Nat.lt_of_lt_of_le ha h.top), h.name a ha]

theorem Extends.mem (h : Extends s t) {d : Nat} (hd : d ∈ s.sharedArrayClasses) :
    d ∈ t.sharedArrayClasses := h.list.subset hd

/-- The names of the old descriptors are still in the list. -/
theorem Extends.map_name (h : Extends s t) (hs : Good s) :
    s.sharedArrayClasses.map t.name = s.sharedArrayClasses.map s.name := by
  apply List.map_congr_left
  intro d hd
  exact h.name d (hs.exists_of_mem d hd)

theorem Extends.distinct (h : Extends s t) (hs : Good s) (ht : Distinct t) : Distinct s := by
  have hsub : (s.sharedArrayClasses.map t.name).Sublist (t.sharedArrayClasses.map t.name) :=
    h.list.sublist.map t.name
  rw [h.map_name hs] at hsub
  exact ht.sublist hsub

/-! ## New descriptors -/

section Alloc

variable (classType : ClassType) (name : Name) (elementClass : Option Nat)

@[simp] theorem alloc_list :
    (s.alloc classType name elementClass).2.sharedArrayClasses = s.sharedArrayClasses := rfl

@[simp] theorem alloc_name_new : (s.alloc classType name elementClass).2.name s.top = name := by
  simp [State.name, State.alloc]

theorem alloc_desc {a : Nat} (ha : a ≠ s.top) :
    (s.alloc classType name elementClass).2.desc a = s.desc a := by
  simp [State.alloc, Function.update_of_ne ha]

theorem alloc_name {a : Nat} (ha : a < s.top) :
    (s.alloc classType name elementClass).2.name a = s.name a := by
  simp only [State.name, alloc_desc classType name elementClass (Nat.ne_of_lt ha)]

theorem extends_alloc : Extends s (s.alloc classType name elementClass).2 where
  top := Nat.le_succ s.top
  list := List.suffix_rfl
  name := fun _ ha => alloc_name classType name elementClass ha

theorem Good.alloc (hs : Good s) : Good (s.alloc classType name elementClass).2 where
  exists_of_mem := fun d hd => Nat.lt_succ_of_lt (hs.exists_of_mem d hd)
  arrayClass := by
    intro e d h
    by_cases he : e = s.top
    · subst he
      simp [State.alloc] at h
    · rw [alloc_desc _ _ _ he] at h ⊢
      obtain ⟨hd, hname⟩ := hs.arrayClass e d h
      refine ⟨hd, ?_⟩
      rw [alloc_name _ _ _ (hs.exists_of_mem d hd), hname]

end Alloc

theorem extends_enter (s : State) (c : Nat) : Extends s (s.enter c) where
  top := Nat.le_refl _
  list := List.suffix_cons c s.sharedArrayClasses
  name := fun _ _ => rfl

theorem Good.enter (hs : Good s) {c : Nat} (hc : c < s.top) : Good (s.enter c) where
  exists_of_mem := by
    intro d hd
    rcases List.mem_cons.mp hd with rfl | hd
    · exact hc
    · exact hs.exists_of_mem d hd
  arrayClass := by
    intro e d h
    obtain ⟨hd, hname⟩ := hs.arrayClass e d h
    exact ⟨List.mem_cons_of_mem c hd, hname⟩

/-- A name that is not in the list stays unique when it enters. -/
theorem distinct_enter {c : Nat} :
    Distinct (s.enter c) ↔ (∀ d ∈ s.sharedArrayClasses, s.name d ≠ s.name c) ∧ Distinct s := by
  have hcons : Distinct (s.enter c) ↔ (s.name c :: s.sharedArrayClasses.map s.name).Nodup := Iff.rfl
  rw [hcons, List.nodup_cons]
  simp [Distinct]

theorem distinct_alloc_enter (hs : Good s) (classType : ClassType) (name : Name)
    (elementClass : Option Nat) :
    Distinct ((s.alloc classType name elementClass).2.enter s.top) ↔
      (∀ d ∈ s.sharedArrayClasses, s.name d ≠ name) ∧ Distinct s := by
  have hmap := (extends_alloc (s := s) classType name elementClass).map_name hs
  rw [distinct_enter, alloc_name_new, alloc_list]
  refine and_congr ?_ ?_
  · constructor
    · intro h d hd
      rw [← alloc_name classType name elementClass (hs.exists_of_mem d hd)]
      exact h d hd
    · intro h d hd
      rw [alloc_name classType name elementClass (hs.exists_of_mem d hd)]
      exact h d hd
  · unfold Distinct
    rw [alloc_list, hmap]

/-! ## Calls by name -/

/-- The call has found or made the class `d` of this name, and any other class it has made has a shorter
name. -/
structure Found (s : State) (name : Name) (d : Nat) (t : State) : Prop where
  good : Good t
  ext : Extends s t
  mem : d ∈ t.sharedArrayClasses
  name_eq : t.name d = name
  old_or_short : ∀ x ∈ t.sharedArrayClasses,
    x ∈ s.sharedArrayClasses ∨ (t.name x).length ≤ name.length
  distinct : Distinct s → Distinct t

theorem lookup_eq_some {name : Name} {d : Nat} (h : s.lookup name = some d) :
    d ∈ s.sharedArrayClasses ∧ s.name d = name :=
  ⟨List.mem_of_find?_eq_some h, by simpa using List.find?_some h⟩

theorem lookup_eq_none {name : Name} (h : s.lookup name = none) :
    ∀ d ∈ s.sharedArrayClasses, s.name d ≠ name := by
  intro d hd
  have hne := List.find?_eq_none.mp h d hd
  simpa using hne

theorem Found.of_lookup {name : Name} {d : Nat} (hs : Good s) (h : s.lookup name = some d) :
    Found s name d s where
  good := hs
  ext := Extends.refl s
  mem := (lookup_eq_some h).1
  name_eq := (lookup_eq_some h).2
  old_or_short := fun _ hx => .inl hx
  distinct := id

/-- The element class comes from the recursive call, or without any change. -/
theorem elemClass_cases {findElem : State → Except Stop (Nat × State)} {name : Name} {c : Nat}
    (h : elemClass findElem s name = .ok (c, t)) : t = s ∨ findElem s = .ok (c, t) := by
  unfold elemClass at h
  split at h
  · cases h
  · obtain ⟨p, -, hp⟩ := bind_eq_ok.mp h
    cases hp
    exact .inl rfl
  · split at h
    · cases h
    · split at h <;> cases h
      exact .inl rfl
  · exact .inr h
  · obtain ⟨p, -, hp⟩ := bind_eq_ok.mp h
    cases hp
    exact .inl rfl

/-- Making the class: its name is not in the list before, and what the recursive call adds is shorter. -/
theorem Found.create {name : Name} {findElem : State → Except Stop (Nat × State)} {d : Nat}
    (hs : Good s) (hnone : ∀ x ∈ s.sharedArrayClasses, s.name x ≠ name)
    (ih : ∀ c u, findElem s = .ok (c, u) → ∃ n, n.length < name.length ∧ Found s n c u)
    (h : createSharedArrayClassDesc findElem s name = .ok (d, t)) :
    Found s name d (t.enter d) := by
  obtain ⟨⟨c, u⟩, helem, hnew⟩ := bind_eq_ok.mp h
  obtain ⟨rfl, rfl⟩ := Prod.mk.inj (pure_eq_ok.mp hnew)
  -- the state after the element class
  have hu : Good u ∧ Extends s u ∧ (Distinct s → Distinct u) ∧ ∀ x ∈ u.sharedArrayClasses,
      x ∈ s.sharedArrayClasses ∨ (u.name x).length < name.length := by
    rcases elemClass_cases helem with rfl | hrec
    · exact ⟨hs, Extends.refl u, id, fun x hx => .inl hx⟩
    · obtain ⟨n, hn, hfound⟩ := ih c u hrec
      refine ⟨hfound.good, hfound.ext, hfound.distinct, fun x hx => ?_⟩
      rcases hfound.old_or_short x hx with hold | hshort
      · exact .inl hold
      · exact .inr (Nat.lt_of_le_of_lt hshort hn)
  obtain ⟨hgood, hext, hdistinct, hnames⟩ := hu
  have hext' := hext.trans (extends_alloc (s := u) .arrayClass name (some c))
  have hother : ∀ x ∈ u.sharedArrayClasses, u.name x ≠ name := by
    intro x hx heq
    rcases hnames x hx with hold | hshort
    · rw [hext.name x (hs.exists_of_mem x hold)] at heq
      exact hnone x hold heq
    · rw [heq] at hshort
      exact Nat.lt_irrefl _ hshort
  exact
    { good := (hgood.alloc .arrayClass name (some c)).enter (Nat.lt_succ_self u.top)
      ext := hext'.trans (extends_enter _ _)
      mem := List.mem_cons_self
      name_eq := alloc_name_new .arrayClass name (some c)
      old_or_short := by
        intro x hx
        rcases List.mem_cons.mp hx with rfl | hx
        · exact .inr (Nat.le_of_eq (congrArg List.length
            (alloc_name_new (s := u) .arrayClass name (some c))))
        · rcases hnames x hx with hold | hshort
          · exact .inl hold
          · have hname := alloc_name .arrayClass name (some c) (hgood.exists_of_mem x hx)
            exact .inr (Nat.le_of_lt (by rw [← hname] at hshort; exact hshort))
      distinct := by
        intro hd
        apply (distinct_alloc_enter hgood .arrayClass name (some c)).mpr
        exact ⟨hother, hdistinct hd⟩ }

theorem findSharedArrayClassDesc_spec {name : Name} {d : Nat}
    (h : findSharedArrayClassDesc s name = .ok (d, t)) (hs : Good s) : Found s name d t := by
  induction name generalizing s d t with
  | nil =>
    unfold findSharedArrayClassDesc at h
    split at h
    next c hc =>
      obtain ⟨rfl, rfl⟩ := Prod.mk.inj (pure_eq_ok.mp h)
      exact Found.of_lookup hs hc
    next => cases h
  | cons ch n ih =>
    unfold findSharedArrayClassDesc at h
    split at h
    next c hc =>
      obtain ⟨rfl, rfl⟩ := Prod.mk.inj (pure_eq_ok.mp h)
      exact Found.of_lookup hs hc
    next hnone =>
      obtain ⟨⟨c, u⟩, hcreate, hnew⟩ := bind_eq_ok.mp h
      obtain ⟨rfl, rfl⟩ := Prod.mk.inj (pure_eq_ok.mp hnew)
      refine Found.create hs (lookup_eq_none hnone) (fun c' u' hrec => ?_) hcreate
      exact ⟨n, Nat.lt_succ_self n.length, ih hrec hs⟩

/-! ## Calls by element class -/

section SetArrayClass

variable {elemClass c : Nat}

@[simp] theorem setArrayClass_name (a : Nat) : (s.setArrayClass elemClass c).name a = s.name a := by
  by_cases ha : a = elemClass
  · subst ha
    simp [State.name, State.setArrayClass]
  · simp [State.name, State.setArrayClass, Function.update_of_ne ha]

@[simp] theorem setArrayClass_arrayName (a : Nat) :
    ((s.setArrayClass elemClass c).desc a).arrayName = (s.desc a).arrayName := by
  by_cases ha : a = elemClass
  · subst ha
    simp [ClassDesc.arrayName, State.setArrayClass]
  · simp [State.setArrayClass, Function.update_of_ne ha]

theorem setArrayClass_arrayClass {a d : Nat}
    (h : ((s.setArrayClass elemClass c).desc a).arrayClass = some d) :
    a = elemClass ∧ d = c ∨ (s.desc a).arrayClass = some d := by
  by_cases ha : a = elemClass
  · subst ha
    simp only [State.setArrayClass, Function.update_self, Option.some.injEq] at h
    exact .inl ⟨rfl, h.symm⟩
  · simp only [State.setArrayClass, Function.update_of_ne ha] at h
    exact .inr h

theorem Good.setArrayClass_enter (hs : Good s) (hc : c < s.top)
    (hname : s.name c = (s.desc elemClass).arrayName) :
    Good ((s.setArrayClass elemClass c).enter c) where
  exists_of_mem := (hs.enter hc).exists_of_mem
  arrayClass := by
    intro e d h
    rcases setArrayClass_arrayClass h with ⟨rfl, rfl⟩ | hold
    · refine ⟨List.mem_cons_self, ?_⟩
      exact (setArrayClass_name d).trans (hname.trans (setArrayClass_arrayName e).symm)
    · obtain ⟨hd, heq⟩ := hs.arrayClass e d hold
      refine ⟨List.mem_cons_of_mem c hd, ?_⟩
      exact (setArrayClass_name d).trans (heq.trans (setArrayClass_arrayName e).symm)

theorem extends_setArrayClass_enter : Extends s ((s.setArrayClass elemClass c).enter c) where
  top := Nat.le_refl _
  list := List.suffix_cons c s.sharedArrayClasses
  name := fun a _ => setArrayClass_name a

theorem distinct_setArrayClass_enter :
    Distinct ((s.setArrayClass elemClass c).enter c) ↔ Distinct (s.enter c) := by
  have hname : ((s.setArrayClass elemClass c).enter c).name = (s.enter c).name :=
    funext fun a => setArrayClass_name a
  unfold Distinct
  rw [hname]
  exact Iff.rfl

end SetArrayClass

/-- The two ways a call by element class can go. -/
theorem findSharedArrayClassDescByElemClass_cases {elemClass d : Nat}
    (h : findSharedArrayClassDescByElemClass s elemClass = .ok (d, t)) :
    elemClass < s.top ∧ ((s.desc elemClass).arrayClass = some d ∧ t = s ∨
      (s.desc elemClass).arrayClass = none ∧ d = s.top ∧
        t = ((s.alloc .arrayClass (s.desc elemClass).arrayName (some elemClass)).2.setArrayClass
          elemClass s.top).enter s.top) := by
  unfold findSharedArrayClassDescByElemClass at h
  split at h
  next hlt =>
    refine ⟨hlt, ?_⟩
    split at h
    next c hc =>
      obtain ⟨rfl, rfl⟩ := Prod.mk.inj (pure_eq_ok.mp h)
      exact .inl ⟨hc, rfl⟩
    next hnone =>
      obtain ⟨rfl, rfl⟩ := Prod.mk.inj (pure_eq_ok.mp h)
      exact .inr ⟨hnone, rfl, rfl⟩
  next => cases h

/-! ## Calls -/

/-- The returned class is in the list, with the name of the denoted type. -/
structure Returned (s : State) (name : Name) (d : Nat) (t : State) : Prop where
  good : Good t
  ext : Extends s t
  mem : d ∈ t.sharedArrayClasses
  name_eq : t.name d = name

theorem call_returned {c : Call} {d : Nat} (h : call s c = .ok (d, t)) (hs : Good s) :
    Returned s (typeName s c) d t := by
  cases c with
  | byName name =>
    have hfound := findSharedArrayClassDesc_spec h hs
    exact ⟨hfound.good, hfound.ext, hfound.mem, hfound.name_eq⟩
  | byElemClass e =>
    obtain ⟨hlt, ⟨hsome, rfl⟩ | ⟨hnone, rfl, rfl⟩⟩ := findSharedArrayClassDescByElemClass_cases h
    · obtain ⟨hmem, hname⟩ := hs.arrayClass e d hsome
      exact ⟨hs, Extends.refl t, hmem, hname⟩
    · have hnew := alloc_name_new (s := s) .arrayClass (s.desc e).arrayName (some e)
      have hdesc := alloc_desc .arrayClass (s.desc e).arrayName (some e) (Nat.ne_of_lt hlt)
      refine ⟨?_, ?_, List.mem_cons_self, (setArrayClass_name s.top).trans hnew⟩
      · apply (hs.alloc .arrayClass (s.desc e).arrayName (some e)).setArrayClass_enter
        · exact Nat.lt_succ_self s.top
        · rw [hnew, hdesc]
      · exact (extends_alloc _ _ _).trans extends_setArrayClass_enter

/-- Only an unknown array class is made a second time. -/
theorem call_distinct_iff {c : Call} {d : Nat} (h : call s c = .ok (d, t)) (hs : Good s)
    (hd : Distinct s) : Distinct t ↔ Known s c := by
  cases c with
  | byName name =>
    have hfound := findSharedArrayClassDesc_spec h hs
    exact iff_of_true (hfound.distinct hd) trivial
  | byElemClass e =>
    obtain ⟨hlt, ⟨hsome, rfl⟩ | ⟨hnone, rfl, rfl⟩⟩ := findSharedArrayClassDescByElemClass_cases h
    · refine iff_of_true hd (.inl ?_)
      rw [hsome]
      exact Option.some_ne_none d
    · rw [distinct_setArrayClass_enter, distinct_alloc_enter hs]
      constructor
      · intro hnew
        exact .inr hnew.1
      · rintro (hknown | hnew)
        · exact absurd hnone hknown
        · exact ⟨hnew, hd⟩

/-! ## What a call leaves as it is -/

/-- The classes of the libraries are the same, and what the list had is still found first. -/
structure Leaves (s t : State) (name : Name) : Prop where
  sharedLibs : t.sharedLibs = s.sharedLibs
  lookup : ∀ d, s.lookup name = some d → t.lookup name = some d

theorem Leaves.refl (s : State) (name : Name) : Leaves s s name := ⟨rfl, fun _ h => h⟩

theorem Leaves.trans {name : Name} (h : Leaves s t name) (h' : Leaves t u name) :
    Leaves s u name := ⟨h'.sharedLibs.trans h.sharedLibs, fun d hd => h'.lookup d (h.lookup d hd)⟩

/-- The same list with the same names. -/
theorem lookup_eq_of_names (hlist : t.sharedArrayClasses = s.sharedArrayClasses)
    (hname : ∀ d ∈ s.sharedArrayClasses, t.name d = s.name d) (name : Name) :
    t.lookup name = s.lookup name := by
  unfold State.lookup
  rw [hlist]
  apply List.find?_congr
  intro d hd
  rw [hname d hd]

theorem Good.leaves_alloc (hs : Good s) (classType : ClassType) (n : Name)
    (elementClass : Option Nat) (name : Name) :
    Leaves s (s.alloc classType n elementClass).2 name where
  sharedLibs := rfl
  lookup := by
    intro d hd
    rw [lookup_eq_of_names (alloc_list classType n elementClass) _ name, hd]
    intro x hx
    exact alloc_name classType n elementClass (hs.exists_of_mem x hx)

/-- A new entry hides only its own name. -/
theorem leaves_enter {c : Nat} {name : Name} (h : s.name c ≠ name) : Leaves s (s.enter c) name where
  sharedLibs := rfl
  lookup := by
    intro d hd
    have hcons : (s.enter c).lookup name =
        (c :: s.sharedArrayClasses).find? fun x => s.name x = name := rfl
    rw [hcons, List.find?_cons_of_neg (by simpa using h)]
    exact hd

theorem lookup_enter (s : State) (c : Nat) : (s.enter c).lookup (s.name c) = some c := by
  have hcons : (s.enter c).lookup (s.name c) =
      (c :: s.sharedArrayClasses).find? fun x => s.name x = s.name c := rfl
  rw [hcons, List.find?_cons_of_pos (by simp)]

theorem leaves_setArrayClass (s : State) (elemClass c : Nat) (name : Name) :
    Leaves s (s.setArrayClass elemClass c) name where
  sharedLibs := rfl
  lookup := by
    intro d hd
    have hname : ∀ x ∈ s.sharedArrayClasses, (s.setArrayClass elemClass c).name x = s.name x :=
      fun x _ => setArrayClass_name x
    have hlist : (s.setArrayClass elemClass c).sharedArrayClasses = s.sharedArrayClasses := rfl
    rw [lookup_eq_of_names hlist hname name, hd]

theorem findSharedArrayClassDesc_of_lookup {n : Name} {c : Nat} (h : s.lookup n = some c) :
    findSharedArrayClassDesc s n = .ok (c, s) := by
  cases n with
  | nil =>
    unfold findSharedArrayClassDesc
    rw [h]
    rfl
  | cons ch n =>
    unfold findSharedArrayClassDesc
    rw [h]
    rfl

/-- A call by name makes what is not there, and so hides nothing. -/
theorem findSharedArrayClassDesc_leaves {n : Name} {c : Nat}
    (h : findSharedArrayClassDesc s n = .ok (c, t)) (hs : Good s) (name : Name) :
    Leaves s t name ∧ t.lookup n = some c := by
  induction n generalizing s c t with
  | nil =>
    unfold findSharedArrayClassDesc at h
    split at h
    next hc =>
      obtain ⟨rfl, rfl⟩ := Prod.mk.inj (pure_eq_ok.mp h)
      exact ⟨Leaves.refl _ _, hc⟩
    next => cases h
  | cons ch n ih =>
    unfold findSharedArrayClassDesc at h
    split at h
    next hc =>
      obtain ⟨rfl, rfl⟩ := Prod.mk.inj (pure_eq_ok.mp h)
      exact ⟨Leaves.refl _ _, hc⟩
    next hnone =>
      obtain ⟨⟨d, u⟩, hcreate, hnew⟩ := bind_eq_ok.mp h
      obtain ⟨rfl, rfl⟩ := Prod.mk.inj (pure_eq_ok.mp hnew)
      obtain ⟨⟨e, v⟩, helem, halloc⟩ := bind_eq_ok.mp hcreate
      obtain ⟨rfl, rfl⟩ := Prod.mk.inj (pure_eq_ok.mp halloc)
      have hv : Good v ∧ Leaves s v name := by
        rcases elemClass_cases helem with rfl | hrec
        · exact ⟨hs, Leaves.refl _ _⟩
        · exact ⟨(findSharedArrayClassDesc_spec hrec hs).good, (ih hrec hs).1⟩
      have hname := alloc_name_new (s := v) .arrayClass (ch :: n) (some e)
      have halloc := hv.1.leaves_alloc .arrayClass (ch :: n) (some e) name
      have hold := hv.2.trans halloc
      have hentry := lookup_enter (v.alloc .arrayClass (ch :: n) (some e)).2 v.top
      rw [hname] at hentry
      refine ⟨?_, hentry⟩
      by_cases hsame : ch :: n = name
      · subst hsame
        refine ⟨hold.sharedLibs, fun d hd => ?_⟩
        rw [hnone] at hd
        cases hd
      · refine hold.trans (leaves_enter ?_)
        rw [hname]
        exact hsame

/-- A call by element class hides the class of the type it denotes, if it makes a new one. -/
theorem findSharedArrayClassDescByElemClass_leaves {e c : Nat}
    (h : findSharedArrayClassDescByElemClass s e = .ok (c, t)) (hs : Good s) (name : Name) :
    t.sharedLibs = s.sharedLibs ∧
      ((s.desc e).arrayClass ≠ none ∨ (s.desc e).arrayName ≠ name → Leaves s t name) := by
  obtain ⟨-, ⟨-, rfl⟩ | ⟨hnone, rfl, rfl⟩⟩ := findSharedArrayClassDescByElemClass_cases h
  · exact ⟨rfl, fun _ => Leaves.refl _ _⟩
  · refine ⟨rfl, fun hfree => ?_⟩
    have hother := hfree.resolve_left (fun hsome => hsome hnone)
    have halloc := hs.leaves_alloc .arrayClass (s.desc e).arrayName (some e) name
    have hset := halloc.trans (leaves_setArrayClass _ e s.top name)
    refine hset.trans (leaves_enter ?_)
    rw [setArrayClass_name, alloc_name_new]
    exact hother

theorem loadClasses_sharedLibs (classes : List (ClassType × Name)) :
    (loadClasses s classes).2.sharedLibs = s.sharedLibs := by
  induction classes generalizing s with
  | nil => rfl
  | cons first rest ih => exact ih

/-! ## Whole runs -/

/-- What has been returned so far is still in the list, under the name of its type. -/
def Listed (results : List (Name × Nat)) (s : State) : Prop :=
  ∀ x ∈ results, x.2 ∈ s.sharedArrayClasses ∧ s.name x.2 = x.1

theorem Listed.mono {results : List (Name × Nat)} (h : Listed results s) (hs : Good s)
    (hext : Extends s t) : Listed results t := by
  intro x hx
  obtain ⟨hmem, hname⟩ := h x hx
  refine ⟨hext.mem hmem, ?_⟩
  rw [hext.name x.2 (hs.exists_of_mem x.2 hmem), hname]

theorem loadClasses_keeps (classes : List (ClassType × Name)) (hs : Good s) :
    Good (loadClasses s classes).2 ∧ Extends s (loadClasses s classes).2 ∧
      (loadClasses s classes).2.sharedArrayClasses = s.sharedArrayClasses := by
  induction classes generalizing s with
  | nil => exact ⟨hs, Extends.refl s, rfl⟩
  | cons first rest ih =>
    obtain ⟨hgood, hext, hlist⟩ := ih (hs.alloc first.1 first.2 none)
    exact ⟨hgood, (extends_alloc _ _ _).trans hext, hlist⟩

/-- The new classes exist, under the names that the library gives them. -/
theorem loadClasses_new (classes : List (ClassType × Name)) (hs : Good s) :
    ∀ c ∈ (loadClasses s classes).1, c < (loadClasses s classes).2.top ∧
      ∃ x ∈ classes, (loadClasses s classes).2.name c = x.2 := by
  induction classes generalizing s with
  | nil => exact nofun
  | cons first rest ih =>
    intro c hc
    have hgood := hs.alloc first.1 first.2 none
    rcases List.mem_cons.mp hc with rfl | hc
    · obtain ⟨-, hext, -⟩ := loadClasses_keeps rest hgood
      have hlt : s.top < (s.alloc first.1 first.2 none).2.top := Nat.lt_succ_self s.top
      refine ⟨Nat.lt_of_lt_of_le hlt hext.top, first, List.mem_cons_self, ?_⟩
      exact (hext.name s.top hlt).trans (alloc_name_new first.1 first.2 none)
    · obtain ⟨hlt, x, hx, hname⟩ := ih hgood c hc
      exact ⟨hlt, x, List.mem_cons_of_mem first hx, hname⟩

/-- A state with the same list and the same names is as distinct. -/
theorem distinct_iff_of_list_eq (hs : Good s) (hext : Extends s t)
    (hlist : t.sharedArrayClasses = s.sharedArrayClasses) : Distinct t ↔ Distinct s := by
  unfold Distinct
  rw [hlist, hext.map_name hs]

theorem step_keeps {e : Event} {now : List (Name × Nat)} (h : step s e = .ok (now, t))
    (hs : Good s) :
    Good t ∧ Extends s t ∧ Listed now t ∧ (Distinct s → (Distinct t ↔ KnownAt s e)) := by
  cases e with
  | call c =>
    obtain ⟨⟨d, u⟩, hcall, hret⟩ := bind_eq_ok.mp h
    obtain ⟨rfl, rfl⟩ := Prod.mk.inj (pure_eq_ok.mp hret)
    have hreturned := call_returned hcall hs
    refine ⟨hreturned.good, hreturned.ext, ?_, call_distinct_iff hcall hs⟩
    intro x hx
    obtain rfl := List.mem_singleton.mp hx
    exact ⟨hreturned.mem, hreturned.name_eq⟩
  | load classes =>
    obtain ⟨rfl, rfl⟩ := Prod.mk.inj (pure_eq_ok.mp h)
    obtain ⟨hgood, hext, hlist⟩ := loadClasses_keeps classes hs
    refine ⟨⟨hgood.exists_of_mem, hgood.arrayClass⟩, ⟨hext.top, hext.list, hext.name⟩, nofun, ?_⟩
    intro hd
    exact iff_of_true ((distinct_iff_of_list_eq hs hext hlist).mpr hd) trivial
  | createArrayClass name elementClass =>
    obtain ⟨rfl, rfl⟩ := Prod.mk.inj (pure_eq_ok.mp h)
    have hext := extends_alloc (s := s) .arrayClass name (some elementClass)
    refine ⟨hs.alloc _ _ _, hext, nofun, ?_⟩
    intro hd
    exact iff_of_true ((distinct_iff_of_list_eq hs hext rfl).mpr hd) trivial

theorem run_keeps {events : List Event} {results : List (Name × Nat)}
    (h : run s events = .ok (results, t)) (hs : Good s) :
    Good t ∧ Extends s t ∧ Listed results t := by
  induction events generalizing s results with
  | nil =>
    obtain ⟨rfl, rfl⟩ := Prod.mk.inj (pure_eq_ok.mp h)
    exact ⟨hs, Extends.refl s, nofun⟩
  | cons e events ih =>
    obtain ⟨⟨now, u⟩, hstep, hrest⟩ := bind_eq_ok.mp h
    obtain ⟨⟨later, v⟩, hrun, hret⟩ := bind_eq_ok.mp hrest
    obtain ⟨rfl, rfl⟩ := Prod.mk.inj (pure_eq_ok.mp hret)
    obtain ⟨hgood, hext, hnow, -⟩ := step_keeps hstep hs
    obtain ⟨hgood', hext', hlater⟩ := ih hrun hgood
    refine ⟨hgood', hext.trans hext', ?_⟩
    intro x hx
    rcases List.mem_append.mp hx with hx | hx
    · exact hnow.mono hgood hext' x hx
    · exact hlater x hx

/-- A name that is twice in the list stays so: the whole run decides what every step of it did. -/
theorem run_distinct_iff {events : List Event} {results : List (Name × Nat)}
    (h : run s events = .ok (results, t)) (hs : Good s) (hd : Distinct s) :
    Distinct t ↔ AllKnown s events := by
  induction events generalizing s results with
  | nil =>
    obtain ⟨rfl, rfl⟩ := Prod.mk.inj (pure_eq_ok.mp h)
    exact iff_of_true hd trivial
  | cons e events ih =>
    obtain ⟨⟨now, u⟩, hstep, hrest⟩ := bind_eq_ok.mp h
    obtain ⟨⟨later, v⟩, hrun, hret⟩ := bind_eq_ok.mp hrest
    obtain ⟨rfl, rfl⟩ := Prod.mk.inj (pure_eq_ok.mp hret)
    obtain ⟨hgood, -, -, hknown⟩ := step_keeps hstep hs
    constructor
    · intro ht
      have hu : Distinct u := (run_keeps hrun hgood).2.1.distinct hgood ht
      refine ⟨(hknown hd).mp hu, ?_⟩
      intro now' u' hstep'
      rw [hstep] at hstep'
      cases hstep'
      exact (ih hrun hgood hu).mp ht
    · rintro ⟨hnow, hall⟩
      have hu : Distinct u := (hknown hd).mpr hnow
      exact (ih hrun hgood hu).mpr (hall now u hstep)

theorem good_boot : Good State.boot where
  exists_of_mem := nofun
  arrayClass := by
    intro e d h
    simp only [State.boot] at h
    split at h <;> cases h

/-- Both parts hold in every run in which no element class is asked for an array class that the list has
and the element class does not know, and in no other. -/
theorem oneClassPerType_iff_allKnown {events : List Event} {results : List (Name × Nat)}
    (h : run State.boot events = .ok (results, s)) :
    OneClassPerType results s ↔ AllKnown State.boot events := by
  have hdistinct := run_distinct_iff h good_boot List.nodup_nil
  constructor
  · intro hone
    exact hdistinct.mp hone.distinct
  · intro hall
    have hd : Distinct s := hdistinct.mpr hall
    obtain ⟨-, -, hlisted⟩ := run_keeps h good_boot
    refine ⟨?_, hd⟩
    intro x hx y hy hxy
    obtain ⟨hx, hxname⟩ := hlisted x hx
    obtain ⟨hy, hyname⟩ := hlisted y hy
    apply List.inj_on_of_nodup_map hd hx hy
    rw [hxname, hyname, hxy]

/-- The allocator comes first, and the linker finds the class in the list. -/
def allocatorFirst : List Event :=
  [.call (.byElemClass 0), .call (.byName ['[', 'I']), .call (.byName ['[', '[', 'I'])]

theorem oneClassPerType_allocatorFirst :
    ∃ results s, run State.boot allocatorFirst = .ok (results, s) ∧
      results = [(['[', 'I'], 9), (['[', 'I'], 9), (['[', '[', 'I'], 10)] ∧
      OneClassPerType results s := by
  obtain ⟨results, s, hrun, hresults⟩ : ∃ results s,
      run State.boot allocatorFirst = .ok (results, s) ∧
        results = [(['[', 'I'], 9), (['[', 'I'], 9), (['[', '[', 'I'], 10)] := ⟨_, _, rfl, rfl⟩
  refine ⟨results, s, hrun, hresults, (oneClassPerType_iff_allKnown hrun).mpr ?_⟩
  refine ⟨.inr nofun, fun _ _ _ => ?_⟩
  exact ⟨trivial, fun _ _ _ => ⟨trivial, fun _ _ _ => trivial⟩⟩

/-- The linker comes first, and the allocator makes a second class of the same name. -/
def linkerFirst : List Event := [.call (.byName ['[', 'I']), .call (.byElemClass 0)]

theorem not_oneClassPerType_linkerFirst :
    ¬ ∀ events results s, run State.boot events = .ok (results, s) → OneClassPerType results s := by
  intro h
  have hone := h linkerFirst [(['[', 'I'], 9), (['[', 'I'], 10)] _ rfl
  have hsame := hone.same (['[', 'I'], 9) (by decide) (['[', 'I'], 10) (by decide) rfl
  cases hsame

end JxCore.ArrayClass
