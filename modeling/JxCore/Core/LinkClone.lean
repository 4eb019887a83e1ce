import JxCore.Core.Link

/-!
# Cloned methods

`cloneMethodInDomain` copies the linked code of a method and fills in again what depends on where the
code is. Between the two a kernel runs: libraries are loaded, each with its own table of VM symbols,
array classes are made, and domains begin to use libraries.
-/

namespace JxCore.Link

open CodeFile (Str JInt Byte SymbolKind SymbolDesc)
open Lib (Patch)

variable {K : Kernel}

/-! ## What happens to a kernel -/

structure LoadedClass where
  classType : ArrayClass.ClassType
  name : ArrayClass.Name
  sfieldOffset : JInt
  staticFieldsSize : JInt
  methods : List Method

inductive Event where
  | call (c : ArrayClass.Call)
  /-- A library enters `sharedLibs`, with its classes and its table of VM symbols. -/
  | load (classes : List LoadedClass) (vmSymbols : List Str)
  /-- `loadLib` for a library with these classes. -/
  | loadLib (classes : List Nat)
  | createArrayClass (name : ArrayClass.Name) (elementClass : Nat)
  | newString

/-- `vmsupport[j].index` for a symbol of the table. -/
def vmIndex (K : Kernel) (symbol : Str) : Nat := (K.vmsupportNames.idxOf? symbol).getD 0

theorem vmIndex_lt (K : Kernel) (symbol : Str) : vmIndex K symbol < K.numberVMOperations := by
  have hpos : 0 < K.vmsupportNames.length := List.length_pos_iff.mpr K.vmsupport_ne_nil
  unfold vmIndex
  cases h : K.vmsupportNames.idxOf? symbol with
  | none => exact hpos
  | some i =>
    obtain ⟨hlt, -⟩ := List.idxOf?_eq_some_iff.mp h
    exact hlt

/-- The column `index` after a table of VM symbols. -/
def reindex (K : Kernel) (index : Nat → Int) (vmSymbols : List Str) (i : Nat) : Int :=
  match vmSymbols[i]? with
  | some symbol => vmIndex K symbol
  | none => index i

theorem reindex_inside {index : Nat → Int}
    (h : ∀ i < K.numberVMOperations, 0 ≤ index i ∧ index i < K.numberVMOperations)
    (vmSymbols : List Str) (i : Nat) (hi : i < K.numberVMOperations) :
    0 ≤ reindex K index vmSymbols i ∧ reindex K index vmSymbols i < K.numberVMOperations := by
  unfold reindex
  split
  · exact ⟨Int.natCast_nonneg _, Int.ofNat_lt.mpr (vmIndex_lt K _)⟩
  · exact h i hi

/-- What a descriptor says, if it belongs to a class that was just loaded. -/
def State.loaded {α : Type} (s : State K) (classes : List LoadedClass) (f : LoadedClass → α)
    (old : Nat → α) (a : Nat) : α :=
  if a < s.top then old a else ((classes[a - s.top]?).map f).getD (old a)

/-- `loadSharedLibrary`, as far as the linker can see it. -/
def State.load (s : State K) (classes : List LoadedClass) (vmSymbols : List Str) : State K :=
  let p := ArrayClass.loadClasses s.toState (classes.map fun c => (c.classType, c.name))
  { toState := { p.2 with sharedLibs := p.1 :: p.2.sharedLibs }
    ndx := s.loaded classes (fun _ => BitVec.ofNat 32 s.sharedLibsIndexNumber) s.ndx
    sfieldOffset := s.loaded classes LoadedClass.sfieldOffset s.sfieldOffset
    staticFieldsSize := s.loaded classes LoadedClass.staticFieldsSize s.staticFieldsSize
    methods := s.loaded classes LoadedClass.methods s.methods
    sharedLibsIndexNumber := s.sharedLibsIndexNumber + 1
    index := reindex K s.index vmSymbols
    index_inside := reindex_inside s.index_inside vmSymbols
    strings := s.strings }

/-- The loop of `loadLib` over the classes of a library: without static fields there is no offset. -/
def State.loadLib (s : State K) (classes : List Nat) : State K :=
  { s with
    sfieldOffset := fun c =>
      if c ∈ classes ∧ s.staticFieldsSize c = 0 then 0 else s.sfieldOffset c }

def step (s : State K) : Event → Except Stop (State K)
  | .call c => do
    let (_, t) ← ArrayClass.call s.toState c
    return { s with toState := t }
  | .load classes vmSymbols =>
    if K.numberVMOperations < vmSymbols.length then throw (.panic "to many symbols")
    else return s.load classes vmSymbols
  | .loadLib classes => return s.loadLib classes
  | .createArrayClass name elementClass =>
    return { s with toState := (s.toState.alloc .arrayClass name (some elementClass)).2 }
  | .newString => return { s with strings := s.strings + 1 }

/-- A run in which every event meets the condition. -/
def Run (P : State K → Event → Prop) : State K → State K → Prop :=
  Relation.ReflTransGen fun s t => ∃ e, P s e ∧ step s e = .ok t

/-! ## Cloning -/

/-- `memcpy(dst, src, n)`. -/
def memcpy (byte : JInt → Byte) (dst src : JInt) (n : Nat) (a : JInt) : Byte :=
  if (a - dst).toNat < n then byte (src + (a - dst)) else byte a

/-- `cloneMethodInDomain`, with the addresses of the new descriptor and the new code. -/
def cloneMethodInDomain (s : State K) (byte : JInt → Byte) (code newCode newMethod : JInt)
    (numberOfCodeBytes : Nat) (symbols : List (SymbolDesc Str)) : Linking K × Option Stop :=
  repatchMethodSymbols s (memcpy byte newCode code numberOfCodeBytes) newCode newMethod symbols

/-! ## Classes that are found again -/

/-- The classes of this name in the shared libraries. -/
def State.named (s : State K) (name : ArrayClass.Name) : List Nat :=
  s.sharedLibs.flatten.filter fun c => s.name c = name

/-- The classes that the libraries have exist. -/
structure WellFormed (s : State K) : Prop where
  good : ArrayClass.Good s.toState
  libs : ∀ c ∈ s.sharedLibs.flatten, c < s.top
  object : ArrayClass.javaLangObject < s.top

variable {s t : State K}

theorem findClassDesc_eq (s : State K) (className : Str) :
    s.findClassDesc className =
      if toName className = "java/lang/Object".toList then some ArrayClass.javaLangObject
      else (s.named (toName className)).head? := by
  unfold State.named
  rw [List.head?_filter]
  rfl

theorem WellFormed.named_lt (hs : WellFormed s) {name : ArrayClass.Name} {c : Nat}
    (hc : c ∈ s.named name) : c < s.top := hs.libs c (List.mem_filter.mp hc).1

theorem WellFormed.findClassDesc_lt (hs : WellFormed s) {className : Str} {c : Nat}
    (h : s.findClassDesc className = some c) : c < s.top := by
  rw [findClassDesc_eq] at h
  split at h
  · obtain rfl := Option.some.inj h
    exact hs.object
  · exact hs.named_lt (List.mem_of_head? h)

/-- What the linker finds under the name of a class is the same in both states. -/
structure SameClass (s t : State K) (className : Str) : Prop where
  found : t.findClassDesc className = s.findClassDesc className
  methodsOf : t.methodsOf className = s.methodsOf className

theorem SameClass.of_named {className : Str} (hs : WellFormed s)
    (hlibs : t.sharedLibs = [] ↔ s.sharedLibs = [])
    (hnamed : toName className = "java/lang/Object".toList ∨
      t.named (toName className) = s.named (toName className))
    (hmethods : ∀ c < s.top, t.methods c = s.methods c) : SameClass s t className where
  found := by
    rw [findClassDesc_eq, findClassDesc_eq]
    rcases hnamed with hobject | hnamed
    · rw [if_pos hobject, if_pos hobject]
    · rw [hnamed]
  methodsOf := by
    unfold State.methodsOf
    by_cases hobject : toName className = "java/lang/Object".toList
    · rw [if_pos hobject, if_pos hobject, hmethods _ hs.object]
      simp only [hlibs]
    · rw [if_neg hobject, if_neg hobject]
      have heq := hnamed.resolve_left hobject
      unfold State.named at heq
      rw [heq]
      apply List.flatMap_congr
      intro c hc
      exact hmethods c (hs.named_lt hc)

/-! ## Events that do no harm -/

/-- No class of the library has this name, or it is the one that all libraries share. -/
def NotNamed (classes : List LoadedClass) (className : Str) : Prop :=
  toName className = "java/lang/Object".toList ∨ ∀ c ∈ classes, c.name ≠ toName className

/-- The event does not change what the symbol stands for: a library gives the number of a VM operation
the meaning it has, and no class the name of a class that is in use; `loadLib` does not take away the
offset of static fields; and the allocator does not make a second class for an array type. -/
def Harmless (s : State K) : Event → SymbolKind Str → Prop
  | .load _ vmSymbols, .vmSupport operation =>
    reindex K s.index vmSymbols operation.toNat = s.index operation.toNat
  | .load classes _, .staticField className _ _ => NotNamed classes className
  | .load classes _, .class className => NotNamed classes className
  | .load classes _, .directMethodCall className _ _ => NotNamed classes className
  | .loadLib classes, .staticField className kind _ =>
    kind.toNat = 1 ∨ kind.toNat = 3 ∨ ∀ c ∈ classes, s.findClassDesc className = some c →
      s.staticFieldsSize c = 0 → s.sfieldOffset c = 0
  | .call (.byElemClass e), .class className =>
    (s.desc e).arrayClass ≠ none ∨ (s.desc e).arrayName ≠ toName className
  | _, _ => True

/-- What the symbol stands for is the same in both states. -/
def Stays (s t : State K) : SymbolKind Str → Prop
  | .staticField className kind _ =>
    SameClass s t className ∧ s.sharedLibsIndexNumber ≤ t.sharedLibsIndexNumber ∧
      ∀ c, s.findClassDesc className = some c → t.ndx c = s.ndx c ∧
        (kind.toNat = 1 ∨ kind.toNat = 3 ∨ t.sfieldOffset c = s.sfieldOffset c)
  | .class className =>
    SameClass s t className ∧
      ∀ d, s.lookup (toName className) = some d → t.lookup (toName className) = some d
  | .directMethodCall className _ _ => SameClass s t className
  | .vmSupport operation => t.index operation.toNat = s.index operation.toNat
  | _ => True

/-- The same libraries, with the same classes. -/
structure SameLibs (s t : State K) : Prop where
  sharedLibs : t.sharedLibs = s.sharedLibs
  name : ∀ a < s.top, t.name a = s.name a
  methods : t.methods = s.methods
  ndx : t.ndx = s.ndx
  sharedLibsIndexNumber : t.sharedLibsIndexNumber = s.sharedLibsIndexNumber
  index : t.index = s.index

theorem SameLibs.sameClass (h : SameLibs s t) (hs : WellFormed s) (className : Str) :
    SameClass s t className := by
  refine SameClass.of_named hs (by rw [h.sharedLibs]) (.inr ?_) fun c _ => by rw [h.methods]
  unfold State.named
  rw [h.sharedLibs]
  apply List.filter_congr
  intro c hc
  rw [h.name c (hs.libs c hc)]

/-- As long as the libraries are the same, only static fields and array classes can change. -/
theorem SameLibs.stays (h : SameLibs s t) (hs : WellFormed s) {kind : SymbolKind Str}
    (hfields : ∀ className k fieldOffset c, kind = .staticField className k fieldOffset →
      s.findClassDesc className = some c →
      k.toNat = 1 ∨ k.toNat = 3 ∨ t.sfieldOffset c = s.sfieldOffset c)
    (harrays : ∀ className d, kind = .class className → s.lookup (toName className) = some d →
      t.lookup (toName className) = some d) : Stays s t kind := by
  cases kind with
  | staticField className k fieldOffset =>
    refine ⟨h.sameClass hs className, Nat.le_of_eq h.sharedLibsIndexNumber.symm, fun c hc => ?_⟩
    exact ⟨by rw [h.ndx], hfields className k fieldOffset c rfl hc⟩
  | «class» className => exact ⟨h.sameClass hs className, fun d hd => harrays className d rfl hd⟩
  | directMethodCall className _ _ => exact h.sameClass hs className
  | vmSupport operation =>
    show t.index operation.toNat = s.index operation.toNat
    rw [h.index]
  | _ => trivial

theorem SameLibs.of_toState {u : ArrayClass.State} (hlibs : u.sharedLibs = s.sharedLibs)
    (hext : ArrayClass.Extends s.toState u) : SameLibs s { s with toState := u } :=
  ⟨hlibs, hext.name, rfl, rfl, rfl, rfl⟩

/-! ## One event -/

theorem stays_call {c : ArrayClass.Call} {d : Nat} {u : ArrayClass.State} {kind : SymbolKind Str}
    (hs : WellFormed s) (h : Harmless s (.call c) kind)
    (hcall : ArrayClass.call s.toState c = .ok (d, u)) : Stays s { s with toState := u } kind := by
  have hreturned := ArrayClass.call_returned hcall hs.good
  cases c with
  | byName n =>
    have hleaves := ArrayClass.findSharedArrayClassDesc_leaves hcall hs.good
    refine (SameLibs.of_toState (hleaves n).1.sharedLibs hreturned.ext).stays hs ?_ ?_
    · exact fun _ _ _ _ _ _ => .inr (.inr rfl)
    · exact fun className d _ hd => (hleaves (toName className)).1.lookup d hd
  | byElemClass e =>
    have hleaves := ArrayClass.findSharedArrayClassDescByElemClass_leaves hcall hs.good
    refine (SameLibs.of_toState (hleaves []).1 hreturned.ext).stays hs ?_ ?_
    · exact fun _ _ _ _ _ _ => .inr (.inr rfl)
    · rintro className d rfl hd
      exact ((hleaves (toName className)).2 h).lookup d hd

theorem load_old {α : Type} {a : Nat} (ha : a < s.top) (classes : List LoadedClass)
    (f : LoadedClass → α) (old : Nat → α) : s.loaded classes f old a = old a := by
  unfold State.loaded
  rw [if_pos ha]

theorem load_sharedLibs (s : State K) (classes : List LoadedClass) (vmSymbols : List Str) :
    (s.load classes vmSymbols).sharedLibs =
      (ArrayClass.loadClasses s.toState (classes.map fun c => (c.classType, c.name))).1 ::
        s.sharedLibs := by
  have hlibs := ArrayClass.loadClasses_sharedLibs (s := s.toState)
    (classes.map fun c => (c.classType, c.name))
  exact congrArg _ hlibs

theorem load_named (hs : WellFormed s) {classes : List LoadedClass} (vmSymbols : List Str)
    {name : ArrayClass.Name} (h : ∀ c ∈ classes, c.name ≠ name) :
    (s.load classes vmSymbols).named name = s.named name := by
  have hnew := ArrayClass.loadClasses_new (classes.map fun c => (c.classType, c.name)) hs.good
  obtain ⟨-, hext, -⟩ :=
    ArrayClass.loadClasses_keeps (classes.map fun c => (c.classType, c.name)) hs.good
  unfold State.named
  rw [load_sharedLibs, List.flatten_cons, List.filter_append]
  have hnone : (ArrayClass.loadClasses s.toState (classes.map fun c => (c.classType, c.name))).1.filter
      (fun c => (s.load classes vmSymbols).name c = name) = [] := by
    apply List.filter_eq_nil_iff.mpr
    intro c hc
    obtain ⟨-, x, hx, hname⟩ := hnew c hc
    obtain ⟨y, hy, rfl⟩ := List.mem_map.mp hx
    have hne : (s.load classes vmSymbols).name c ≠ name := by
      rw [show (s.load classes vmSymbols).name c = y.name from hname]
      exact h y hy
    simpa using hne
  rw [hnone, List.nil_append]
  apply List.filter_congr
  intro c hc
  have hname : (s.load classes vmSymbols).name c = s.name c := hext.name c (hs.libs c hc)
  rw [hname]

theorem load_sameClass (hs : WellFormed s) (hlibs : s.sharedLibs ≠ []) {classes : List LoadedClass}
    (vmSymbols : List Str) {className : Str} (h : NotNamed classes className) :
    SameClass s (s.load classes vmSymbols) className := by
  apply SameClass.of_named hs
  · rw [load_sharedLibs]
    exact iff_of_false (List.cons_ne_nil _ _) hlibs
  · exact h.imp_right (load_named hs vmSymbols)
  · exact fun c hc => load_old hc classes LoadedClass.methods s.methods

theorem stays_load (hs : WellFormed s) (hlibs : s.sharedLibs ≠ []) {classes : List LoadedClass}
    {vmSymbols : List Str} {kind : SymbolKind Str} (h : Harmless s (.load classes vmSymbols) kind) :
    Stays s (s.load classes vmSymbols) kind := by
  cases kind with
  | staticField className k fieldOffset =>
    refine ⟨load_sameClass hs hlibs vmSymbols h, Nat.le_succ _, fun c hc => ?_⟩
    have hlt := hs.findClassDesc_lt hc
    exact ⟨load_old hlt classes _ s.ndx,
      .inr (.inr (load_old hlt classes LoadedClass.sfieldOffset s.sfieldOffset))⟩
  | «class» className =>
    refine ⟨load_sameClass hs hlibs vmSymbols h, fun d hd => ?_⟩
    obtain ⟨-, hext, hlist⟩ :=
      ArrayClass.loadClasses_keeps (classes.map fun c => (c.classType, c.name)) hs.good
    rw [← hd]
    apply ArrayClass.lookup_eq_of_names hlist
    exact fun x hx => hext.name x (hs.good.exists_of_mem x hx)
  | directMethodCall className _ _ => exact load_sameClass hs hlibs vmSymbols h
  | vmSupport operation => exact h
  | _ => trivial

/-- One event, for one symbol. -/
theorem stays_step {e : Event} {kind : SymbolKind Str} (hs : WellFormed s) (hlibs : s.sharedLibs ≠ [])
    (h : Harmless s e kind) (hstep : step s e = .ok t) : Stays s t kind := by
  cases e with
  | call c =>
    obtain ⟨⟨d, u⟩, hcall, hret⟩ := bind_eq_ok.mp hstep
    obtain rfl := pure_eq_ok.mp hret
    exact stays_call hs h hcall
  | load classes vmSymbols =>
    simp only [step] at hstep
    split at hstep
    · cases hstep
    · obtain rfl := pure_eq_ok.mp hstep
      exact stays_load hs hlibs h
  | loadLib classes =>
    obtain rfl := pure_eq_ok.mp hstep
    have hsame : SameLibs s (s.loadLib classes) := ⟨rfl, fun _ _ => rfl, rfl, rfl, rfl, rfl⟩
    refine hsame.stays hs ?_ fun _ _ _ hd => hd
    rintro className k fieldOffset c rfl hc
    refine h.imp_right fun h => h.imp_right fun hsize => ?_
    show (if c ∈ classes ∧ s.staticFieldsSize c = 0 then 0 else s.sfieldOffset c) = s.sfieldOffset c
    split
    next hin => exact (hsize c hin.1 hc hin.2).symm
    next => rfl
  | createArrayClass n elementClass =>
    obtain rfl := pure_eq_ok.mp hstep
    have hleaves := hs.good.leaves_alloc .arrayClass n (some elementClass)
    have hext := ArrayClass.extends_alloc (s := s.toState) .arrayClass n (some elementClass)
    refine (SameLibs.of_toState (hleaves []).sharedLibs hext).stays hs ?_ ?_
    · exact fun _ _ _ _ _ _ => .inr (.inr rfl)
    · exact fun className d _ hd => (hleaves (toName className)).lookup d hd
  | newString =>
    obtain rfl := pure_eq_ok.mp hstep
    have hsame : SameLibs s { s with strings := s.strings + 1 } :=
      ⟨rfl, fun _ _ => rfl, rfl, rfl, rfl, rfl⟩
    exact hsame.stays hs (fun _ _ _ _ _ _ => .inr (.inr rfl)) fun _ _ _ hd => hd

/-- The state after an event of the array classes. -/
theorem WellFormed.of_toState {u : ArrayClass.State} (hs : WellFormed s)
    (hlibs : u.sharedLibs = s.sharedLibs) (hgood : ArrayClass.Good u)
    (hext : ArrayClass.Extends s.toState u) : WellFormed { s with toState := u } where
  good := hgood
  libs := by
    intro c hc
    rw [hlibs] at hc
    exact Nat.lt_of_lt_of_le (hs.libs c hc) hext.top
  object := Nat.lt_of_lt_of_le hs.object hext.top

theorem WellFormed.load (hs : WellFormed s) (classes : List LoadedClass) (vmSymbols : List Str) :
    WellFormed (s.load classes vmSymbols) := by
  have hnew := ArrayClass.loadClasses_new (classes.map fun c => (c.classType, c.name)) hs.good
  obtain ⟨hgood, hext, -⟩ :=
    ArrayClass.loadClasses_keeps (classes.map fun c => (c.classType, c.name)) hs.good
  refine ⟨⟨hgood.exists_of_mem, hgood.arrayClass⟩, ?_, Nat.lt_of_lt_of_le hs.object hext.top⟩
  intro c hc
  rw [load_sharedLibs, List.flatten_cons] at hc
  rcases List.mem_append.mp hc with hc | hc
  · exact (hnew c hc).1
  · exact Nat.lt_of_lt_of_le (hs.libs c hc) hext.top

theorem call_sharedLibs {u v : ArrayClass.State} (hu : ArrayClass.Good u) {c : ArrayClass.Call}
    {d : Nat} (h : ArrayClass.call u c = .ok (d, v)) : v.sharedLibs = u.sharedLibs := by
  cases c with
  | byName n => exact (ArrayClass.findSharedArrayClassDesc_leaves h hu n).1.sharedLibs
  | byElemClass e => exact (ArrayClass.findSharedArrayClassDescByElemClass_leaves h hu []).1

theorem WellFormed.step {e : Event} (hs : WellFormed s) (h : step s e = .ok t) :
    WellFormed t ∧ (s.sharedLibs ≠ [] → t.sharedLibs ≠ []) := by
  cases e with
  | call c =>
    obtain ⟨⟨d, u⟩, hcall, hret⟩ := bind_eq_ok.mp h
    obtain rfl := pure_eq_ok.mp hret
    have hreturned := ArrayClass.call_returned hcall hs.good
    have hlibs := call_sharedLibs hs.good hcall
    refine ⟨hs.of_toState hlibs hreturned.good hreturned.ext, fun hne => ?_⟩
    rw [← hlibs] at hne
    exact hne
  | load classes vmSymbols =>
    simp only [Link.step] at h
    split at h
    · cases h
    · obtain rfl := pure_eq_ok.mp h
      refine ⟨hs.load classes vmSymbols, fun _ => ?_⟩
      rw [load_sharedLibs]
      exact List.cons_ne_nil _ _
  | loadLib classes =>
    obtain rfl := pure_eq_ok.mp h
    exact ⟨⟨hs.good, hs.libs, hs.object⟩, id⟩
  | createArrayClass n elementClass =>
    obtain rfl := pure_eq_ok.mp h
    exact ⟨hs.of_toState rfl (hs.good.alloc _ _ _) (ArrayClass.extends_alloc _ _ _), id⟩
  | newString =>
    obtain rfl := pure_eq_ok.mp h
    exact ⟨⟨hs.good, hs.libs, hs.object⟩, id⟩

theorem wellFormed_boot : WellFormed (State.boot K) :=
  ⟨ArrayClass.good_boot, nofun, Nat.lt_succ_self _⟩

theorem Run.wellFormed {P : State K → Event → Prop} (h : Run P s t) (hs : WellFormed s) :
    WellFormed t := by
  induction h with
  | refl => exact hs
  | tail _ hstep ih =>
    obtain ⟨e, -, hstep⟩ := hstep
    exact (ih.step hstep).1

/-! ## What a symbol stands for -/

/-- The symbol can be resolved without any change, to this value. -/
def Holds (s : State K) (kind : SymbolKind Str) (value : Option Value) : Prop :=
  ∀ exCount, ∃ r, r.value = value ∧ resolve s exCount kind = .ok (r, s)

theorem patchStaticFieldAddress_stays {className : Str} {k fieldOffset : JInt} {v : Value}
    (h : patchStaticFieldAddress s className k fieldOffset = .ok v)
    (hstays : Stays s t (.staticField className k fieldOffset)) :
    patchStaticFieldAddress t className k fieldOffset = .ok v := by
  obtain ⟨hsame, hnumber, hfields⟩ := hstays
  unfold patchStaticFieldAddress at h ⊢
  rw [hsame.found]
  split at h
  · cases h
  next c hc =>
    obtain ⟨hndx, hoffset⟩ := hfields c hc
    rw [hndx]
    have hdirect : k.toNat ≠ 1 → k.toNat ≠ 3 → t.sfieldOffset c = s.sfieldOffset c :=
      fun h1 h3 => (hoffset.resolve_left h1).resolve_left h3
    split at h
    next hk =>
      rw [hdirect (by omega) (by omega)]
      exact h
    next hk =>
      split at h
      · cases h
      next hindex =>
        rw [if_neg (by omega)]
        exact h
    next hk =>
      rw [hdirect (by omega) (by omega)]
      exact h
    · exact h
    · cases h

theorem patchClassPointer_array {className : Str} {d : Nat}
    (harray : (toName className).head? = some '[') (h : s.lookup (toName className) = some d) :
    patchClassPointer s className = .ok (.constant (K.address d), s) := by
  have hfind := ArrayClass.findSharedArrayClassDesc_of_lookup h
  unfold patchClassPointer
  rw [if_pos harray, hfind]
  rfl

/-- An array class is in the list when the linker has asked for it. -/
theorem patchClassPointer_cases {className : Str} {v : Value} (hs : WellFormed s)
    (h : patchClassPointer s className = .ok (v, t)) :
    (∃ d u, (toName className).head? = some '[' ∧ v = .constant (K.address d) ∧
      ArrayClass.findSharedArrayClassDesc s.toState (toName className) = .ok (d, u) ∧
      t = { s with toState := u } ∧ t.lookup (toName className) = some d) ∨
    (∃ c, (toName className).head? ≠ some '[' ∧ v = .constant (K.address c) ∧ t = s ∧
      s.findClassDesc className = some c) := by
  unfold patchClassPointer at h
  split at h
  next harray =>
    obtain ⟨⟨d, u⟩, hfind, hret⟩ := bind_eq_ok.mp h
    obtain ⟨rfl, rfl⟩ := Prod.mk.inj (pure_eq_ok.mp hret)
    have hlookup := (ArrayClass.findSharedArrayClassDesc_leaves hfind hs.good []).2
    exact .inl ⟨d, u, harray, rfl, hfind, rfl, hlookup⟩
  next hclass =>
    split at h
    · cases h
    next c hc =>
      obtain ⟨rfl, rfl⟩ := Prod.mk.inj (pure_eq_ok.mp h)
      exact .inr ⟨c, hclass, rfl, rfl, hc⟩

theorem patchClassPointer_stays {className : Str} {v : Value} (hs : WellFormed s)
    (h : patchClassPointer s className = .ok (v, s)) (hstays : Stays s t (.class className)) :
    patchClassPointer t className = .ok (v, t) := by
  obtain ⟨hsame, harrays⟩ := hstays
  obtain ⟨d, u, harray, rfl, -, -, hlookup⟩ | ⟨c, hclass, rfl, -, hc⟩ :=
    patchClassPointer_cases hs h
  · exact patchClassPointer_array harray (harrays d hlookup)
  · unfold patchClassPointer
    rw [if_neg hclass, hsame.found, hc]
    rfl

/-- The holes that `repatchMethodSymbols` leaves as they are. -/
def isKept : SymbolKind Str → Bool
  | .vmAbsolute _ => true
  | .currentThreadPointer => true
  | .stackChunkSize => true
  | _ => false

/-- A string constant is an object in the heap of a domain, and each time a new one. -/
def isString : SymbolKind Str → Bool
  | .string _ => true
  | _ => false

/-- What a symbol stands for is known in any state in which it stays. -/
theorem Holds.stays {kind : SymbolKind Str} {value : Option Value} (hs : WellFormed s)
    (h : Holds s kind value) (hkept : isKept kind = false) (hstays : Stays s t kind) :
    Holds t kind value := by
  intro exCount
  obtain ⟨r, rfl, hr⟩ := h exCount
  cases kind with
  | staticField className k fieldOffset =>
    obtain ⟨v, hv, hret⟩ := bind_eq_ok.mp hr
    obtain ⟨rfl, -⟩ := Prod.mk.inj (pure_eq_ok.mp hret)
    have ht := patchStaticFieldAddress_stays hv hstays
    exact ⟨.ofValue v, rfl, by simp only [resolve, ht]; rfl⟩
  | «class» className =>
    obtain ⟨⟨v, u⟩, hv, hret⟩ := bind_eq_ok.mp hr
    obtain ⟨rfl, rfl⟩ := Prod.mk.inj (pure_eq_ok.mp hret)
    have ht := patchClassPointer_stays hs hv hstays
    exact ⟨.ofValue v, rfl, by simp only [resolve, ht]; rfl⟩
  | directMethodCall className methodName methodSignature =>
    obtain ⟨rfl, -⟩ := Prod.mk.inj (pure_eq_ok.mp hr)
    have hfind : t.findMethod className methodName methodSignature =
        s.findMethod className methodName methodSignature := by
      unfold State.findMethod
      rw [SameClass.methodsOf hstays]
    refine ⟨_, ?_, rfl⟩
    unfold patchDirectMethodAddress
    rw [hfind]
  | vmSupport operation =>
    obtain ⟨q, hq, hret⟩ := bind_eq_ok.mp hr
    obtain ⟨rfl, -⟩ := Prod.mk.inj (pure_eq_ok.mp hret)
    have hindex : t.index operation.toNat = s.index operation.toNat := hstays
    have ht : vmsupport t operation "wrong vmsupport index" .relative = .ok q := by
      unfold vmsupport
      rw [hindex]
      exact hq
    exact ⟨q, rfl, by simp only [resolve, ht]; rfl⟩
  | primitiveClass primitiveType =>
    obtain ⟨v, hv, hret⟩ := bind_eq_ok.mp hr
    obtain ⟨rfl, -⟩ := Prod.mk.inj (pure_eq_ok.mp hret)
    exact ⟨.ofValue v, rfl, by simp only [resolve, hv]; rfl⟩
  | domainZero => cases hr
  | depFunction _ _ _ => cases hr
  | profile _ => cases hr
  | vmAbsolute _ => cases hkept
  | string _ =>
    obtain ⟨-, hstrings⟩ := Prod.mk.inj (pure_eq_ok.mp hr)
    have hcount : s.strings + 1 = s.strings := congrArg State.strings hstrings
    omega
  | tcbOffset k =>
    simp only [resolve] at hr ⊢
    split at hr
    next hk =>
      obtain ⟨rfl, -⟩ := Prod.mk.inj (pure_eq_ok.mp hr)
      rw [if_pos hk]
      exact ⟨_, rfl, rfl⟩
    next => cases hr
  | _ =>
    obtain ⟨rfl, -⟩ := Prod.mk.inj (pure_eq_ok.mp hr)
    refine ⟨_, ?_, rfl⟩
    rfl

/-- The first link finds out what the symbol stands for, and the next one will find it. -/
theorem Holds.of_resolve {kind : SymbolKind Str} {exCount : Nat} {r : Resolved} (hs : WellFormed s)
    (hstring : isString kind = false) (h : resolve s exCount kind = .ok (r, t)) :
    Holds t kind r.value := by
  intro n
  cases kind with
  | domainZero => cases h
  | depFunction _ _ _ => cases h
  | profile _ => cases h
  | string _ => cases hstring
  | staticField className k fieldOffset =>
    obtain ⟨v, hv, hret⟩ := bind_eq_ok.mp h
    obtain ⟨rfl, rfl⟩ := Prod.mk.inj (pure_eq_ok.mp hret)
    exact ⟨_, rfl, h⟩
  | «class» className =>
    obtain ⟨⟨v, u⟩, hv, hret⟩ := bind_eq_ok.mp h
    obtain ⟨rfl, rfl⟩ := Prod.mk.inj (pure_eq_ok.mp hret)
    obtain ⟨d, w, harray, rfl, -, -, hlookup⟩ | ⟨c, -, -, rfl, -⟩ := patchClassPointer_cases hs hv
    · have hagain := patchClassPointer_array harray hlookup
      exact ⟨_, rfl, by simp only [resolve, hagain]; rfl⟩
    · exact ⟨_, rfl, h⟩
  | primitiveClass primitiveType =>
    obtain ⟨v, hv, hret⟩ := bind_eq_ok.mp h
    obtain ⟨rfl, rfl⟩ := Prod.mk.inj (pure_eq_ok.mp hret)
    exact ⟨_, rfl, h⟩
  | vmSupport operation =>
    obtain ⟨v, hv, hret⟩ := bind_eq_ok.mp h
    obtain ⟨rfl, rfl⟩ := Prod.mk.inj (pure_eq_ok.mp hret)
    exact ⟨_, rfl, h⟩
  | vmAbsolute operation =>
    obtain ⟨v, hv, hret⟩ := bind_eq_ok.mp h
    obtain ⟨rfl, rfl⟩ := Prod.mk.inj (pure_eq_ok.mp hret)
    exact ⟨_, rfl, h⟩
  | tcbOffset k =>
    simp only [resolve] at h ⊢
    split at h
    next hk =>
      obtain ⟨rfl, rfl⟩ := Prod.mk.inj (pure_eq_ok.mp h)
      rw [if_pos hk]
      exact ⟨_, rfl, rfl⟩
    next => cases h
  | _ =>
    obtain ⟨rfl, rfl⟩ := Prod.mk.inj (pure_eq_ok.mp h)
    refine ⟨_, ?_, rfl⟩
    rfl

/-- The linker changes the state as some event does that harms no symbol. -/
theorem resolve_step {kind : SymbolKind Str} {exCount : Nat} {r : Resolved} (hs : WellFormed s)
    (h : resolve s exCount kind = .ok (r, t)) :
    t = s ∨ ∃ e, step s e = .ok t ∧ ∀ other, Harmless s e other := by
  cases kind with
  | domainZero => cases h
  | depFunction _ _ _ => cases h
  | profile _ => cases h
  | string _ =>
    obtain ⟨-, rfl⟩ := Prod.mk.inj (pure_eq_ok.mp h)
    exact .inr ⟨.newString, rfl, fun _ => trivial⟩
  | «class» className =>
    obtain ⟨⟨v, u⟩, hv, hret⟩ := bind_eq_ok.mp h
    obtain ⟨-, rfl⟩ := Prod.mk.inj (pure_eq_ok.mp hret)
    obtain ⟨d, w, -, -, hfind, rfl, -⟩ | ⟨-, -, -, rfl, -⟩ := patchClassPointer_cases hs hv
    · refine .inr ⟨.call (.byName (toName className)), ?_, fun _ => trivial⟩
      simp only [step, ArrayClass.call, hfind]
      rfl
    · exact .inl rfl
  | staticField className k fieldOffset =>
    obtain ⟨v, -, hret⟩ := bind_eq_ok.mp h
    exact .inl (Prod.mk.inj (pure_eq_ok.mp hret)).2.symm
  | primitiveClass primitiveType =>
    obtain ⟨v, -, hret⟩ := bind_eq_ok.mp h
    exact .inl (Prod.mk.inj (pure_eq_ok.mp hret)).2.symm
  | vmSupport operation =>
    obtain ⟨v, -, hret⟩ := bind_eq_ok.mp h
    exact .inl (Prod.mk.inj (pure_eq_ok.mp hret)).2.symm
  | vmAbsolute operation =>
    obtain ⟨v, -, hret⟩ := bind_eq_ok.mp h
    exact .inl (Prod.mk.inj (pure_eq_ok.mp hret)).2.symm
  | tcbOffset k =>
    simp only [resolve] at h
    split at h
    · exact .inl (Prod.mk.inj (pure_eq_ok.mp h)).2.symm
    · cases h
  | _ => exact .inl (Prod.mk.inj (pure_eq_ok.mp h)).2.symm


/-! ## The values of all symbols

The loop does two things at once; without the bytes it gives a list of values. These do not depend on
where the code is. -/

abbrev Entry := SymbolDesc Str × Resolved

def resolveAll (switch : Switch K) :
    State K → Nat → List (SymbolDesc Str) → Except Stop (List Entry × State K)
  | s, _, [] => return ([], s)
  | s, exCount, symbol :: rest => do
    let (r, s) ← switch s exCount symbol.kind
    let (entries, s) ← resolveAll switch s (exCount + r.exception.toList.length) rest
    return ((symbol, r) :: entries, s)

def Entry.patch (code method : JInt) (entry : Entry) : Option Patch :=
  patchOf code method entry.1 entry.2

theorem store_append (base : JInt) (ps qs : List Patch) (byte : JInt → Byte) :
    Patch.store base qs (Patch.store base ps byte) = Patch.store base (ps ++ qs) byte := by
  funext a
  exact (List.foldl_append ..).symm

theorem filterMap_cons_patch (code method : JInt) (entry : Entry) (entries : List Entry) :
    (entry :: entries).filterMap (Entry.patch code method) =
      (entry.patch code method).toList ++ entries.filterMap (Entry.patch code method) := by
  cases h : entry.patch code method with
  | none => rw [List.filterMap_cons_none h, Option.toList_none, List.nil_append]
  | some p => rw [List.filterMap_cons_some h, Option.toList_some, List.singleton_append]

section Loop

variable {switch : Switch K} {code method : JInt} {symbols : List (SymbolDesc Str)}

theorem patchSymbols_of_resolveAll {l : Linking K} {entries : List Entry}
    (h : resolveAll switch l.state l.exceptions.length symbols = .ok (entries, t)) :
    ∃ l', patchSymbols switch code method l symbols = (l', none) ∧ l'.state = t ∧
      l'.byte = Patch.store code (entries.filterMap (Entry.patch code method)) l.byte := by
  induction symbols generalizing l entries with
  | nil =>
    obtain ⟨rfl, rfl⟩ := Prod.mk.inj (pure_eq_ok.mp h)
    exact ⟨l, rfl, rfl, rfl⟩
  | cons symbol rest ih =>
    obtain ⟨⟨r, u⟩, hr, hrest⟩ := bind_eq_ok.mp h
    obtain ⟨⟨more, v⟩, hmore, hret⟩ := bind_eq_ok.mp hrest
    obtain ⟨rfl, rfl⟩ := Prod.mk.inj (pure_eq_ok.mp hret)
    obtain ⟨l₁, hl₁, hstate, hex, hbyte⟩ : ∃ l₁, patchSymbol switch code method l symbol = .ok l₁ ∧
        l₁.state = u ∧ l₁.exceptions.length = l.exceptions.length + r.exception.toList.length ∧
        l₁.byte = Patch.store code (patchOf code method symbol r).toList l.byte := by
      refine ⟨_, by simp only [patchSymbol, hr]; rfl, rfl, List.length_append, rfl⟩
    rw [← hstate, ← hex] at hmore
    obtain ⟨l', hl', hlast, hbytes⟩ := ih hmore
    refine ⟨l', by rw [patchSymbols, hl₁]; exact hl', hlast, ?_⟩
    rw [hbytes, hbyte, store_append, filterMap_cons_patch]
    rfl

theorem resolveAll_of_patchSymbols {l l' : Linking K}
    (h : patchSymbols switch code method l symbols = (l', none)) :
    ∃ entries, resolveAll switch l.state l.exceptions.length symbols = .ok (entries, l'.state) := by
  induction symbols generalizing l with
  | nil =>
    obtain ⟨rfl, -⟩ := Prod.mk.inj h
    exact ⟨[], rfl⟩
  | cons symbol rest ih =>
    unfold patchSymbols at h
    split at h
    · cases h
    next l₁ hl₁ =>
      obtain ⟨⟨r, u⟩, hr, hret⟩ := bind_eq_ok.mp hl₁
      obtain rfl := pure_eq_ok.mp hret
      obtain ⟨entries, hentries⟩ := ih h
      rw [List.length_append] at hentries
      refine ⟨(symbol, r) :: entries, bind_eq_ok.mpr ⟨(r, u), hr, ?_⟩⟩
      exact bind_eq_ok.mpr ⟨(entries, l'.state), hentries, rfl⟩

end Loop

/-! ## From the link to the clone -/

/-- A later state, in which these symbols stand for what they stood for. -/
structure Later (symbols : List (SymbolDesc Str)) (s t : State K) : Prop where
  wellFormed : WellFormed t
  libs : t.sharedLibs ≠ []
  holds : ∀ symbol ∈ symbols, isKept symbol.kind = false → ∀ value,
    Holds s symbol.kind value → Holds t symbol.kind value

section Later

variable {symbols : List (SymbolDesc Str)} {u : State K}

theorem Later.refl (hs : WellFormed s) (hlibs : s.sharedLibs ≠ []) : Later symbols s s :=
  ⟨hs, hlibs, fun _ _ _ _ h => h⟩

theorem Later.trans (h : Later symbols s t) (h' : Later symbols t u) : Later symbols s u where
  wellFormed := h'.wellFormed
  libs := h'.libs
  holds := fun symbol hmem hkept value hold =>
    h'.holds symbol hmem hkept value (h.holds symbol hmem hkept value hold)

theorem Later.of_step {e : Event} (hs : WellFormed s) (hlibs : s.sharedLibs ≠ [])
    (h : ∀ symbol ∈ symbols, Harmless s e symbol.kind) (hstep : step s e = .ok t) :
    Later symbols s t := by
  obtain ⟨ht, hlibs'⟩ := hs.step hstep
  refine ⟨ht, hlibs' hlibs, fun symbol hmem hkept value hold => ?_⟩
  exact hold.stays hs hkept (stays_step hs hlibs (h symbol hmem) hstep)

theorem Later.of_resolve {kind : SymbolKind Str} {exCount : Nat} {r : Resolved} (hs : WellFormed s)
    (hlibs : s.sharedLibs ≠ []) (h : resolve s exCount kind = .ok (r, t)) : Later symbols s t := by
  obtain rfl | ⟨e, hstep, hall⟩ := resolve_step hs h
  · exact Later.refl hs hlibs
  · exact Later.of_step hs hlibs (fun symbol _ => hall symbol.kind) hstep

/-- A run of events that do no harm. -/
theorem Later.of_run (hs : WellFormed s) (hlibs : s.sharedLibs ≠ [])
    (h : Run (fun s e => ∀ symbol ∈ symbols, Harmless s e symbol.kind) s t) :
    Later symbols s t := by
  induction h with
  | refl => exact Later.refl hs hlibs
  | tail _ hstep ih =>
    obtain ⟨e, hall, hstep⟩ := hstep
    exact ih.trans (Later.of_step ih.wellFormed ih.libs hall hstep)

/-- What the link leaves behind for one symbol. -/
structure Linked (s : State K) (entry : Entry) : Prop where
  spec : Spec entry.1.kind entry.2
  holds : isString entry.1.kind = false → isKept entry.1.kind = false →
    Holds s entry.1.kind entry.2.value
  fixed : isKept entry.1.kind = true → ∀ code method code' method',
    Entry.patch code method entry = Entry.patch code' method' entry

theorem Linked.later {entry : Entry} (h : Linked s entry) (hmem : entry.1 ∈ symbols)
    (hlater : Later symbols s t) : Linked t entry where
  spec := h.spec
  holds := fun hstring hkept => hlater.holds entry.1 hmem hkept _ (h.holds hstring hkept)
  fixed := h.fixed

theorem Linked.of_resolve {symbol : SymbolDesc Str} {exCount : Nat} {r : Resolved}
    (hs : WellFormed s) (h : resolve s exCount symbol.kind = .ok (r, t)) : Linked t (symbol, r) where
  spec := resolve_spec h
  holds := fun hstring _ => Holds.of_resolve hs hstring h
  fixed := by
    intro hkept code method code' method'
    obtain ⟨offset, numBytes, next, kind⟩ := symbol
    cases kind with
    | vmAbsolute operation =>
      obtain ⟨q, hq, hret⟩ := bind_eq_ok.mp h
      obtain ⟨-, -, rfl⟩ := vmsupport_eq_ok hq
      obtain ⟨rfl, -⟩ := Prod.mk.inj (pure_eq_ok.mp hret)
      rfl
    | currentThreadPointer =>
      obtain ⟨rfl, -⟩ := Prod.mk.inj (pure_eq_ok.mp h)
      rfl
    | stackChunkSize =>
      obtain ⟨rfl, -⟩ := Prod.mk.inj (pure_eq_ok.mp h)
      rfl
    | _ => cases hkept

/-- The whole link. -/
theorem resolveAll_linked {rest : List (SymbolDesc Str)} {exCount : Nat} {entries : List Entry}
    (hs : WellFormed s) (hlibs : s.sharedLibs ≠ []) (hsub : rest ⊆ symbols)
    (h : resolveAll resolve s exCount rest = .ok (entries, t)) :
    Later symbols s t ∧ entries.map Prod.fst = rest ∧ ∀ entry ∈ entries, Linked t entry := by
  induction rest generalizing s exCount entries with
  | nil =>
    obtain ⟨rfl, rfl⟩ := Prod.mk.inj (pure_eq_ok.mp h)
    exact ⟨Later.refl hs hlibs, rfl, nofun⟩
  | cons symbol rest ih =>
    obtain ⟨⟨r, u⟩, hr, hrest⟩ := bind_eq_ok.mp h
    obtain ⟨⟨more, v⟩, hmore, hret⟩ := bind_eq_ok.mp hrest
    obtain ⟨rfl, rfl⟩ := Prod.mk.inj (pure_eq_ok.mp hret)
    have hfirst : Later symbols s u := Later.of_resolve hs hlibs hr
    obtain ⟨hlater, hmap, hlinked⟩ :=
      ih hfirst.wellFormed hfirst.libs (fun x hx => hsub (List.mem_cons_of_mem symbol hx)) hmore
    refine ⟨hfirst.trans hlater, by rw [List.map_cons, hmap], ?_⟩
    intro entry hentry
    rcases List.mem_cons.mp hentry with rfl | hentry
    · exact (Linked.of_resolve hs hr).later (hsub List.mem_cons_self) hlater
    · exact hlinked entry hentry

/-- The entry that the clone has for an entry of the link. -/
def Again (entry entry' : Entry) : Prop :=
  entry'.1 = entry.1 ∧
    (isKept entry.1.kind = true ∧ entry'.2.value = none ∨
      isString entry.1.kind = true ∧ Spec entry'.1.kind entry'.2 ∨
      isKept entry.1.kind = false ∧ entry'.2.value = entry.2.value)

/-- One symbol of the clone. -/
theorem reresolve_again {entry : Entry} (hs : WellFormed s) (hlibs : s.sharedLibs ≠ [])
    (hoffset : ∀ k, entry.1.kind ≠ .tcbOffset k) (h : Linked s entry) (exCount : Nat) :
    ∃ r t, reresolve s exCount entry.1.kind = .ok (r, t) ∧ Later symbols s t ∧
      Again entry (entry.1, r) := by
  obtain ⟨⟨offset, numBytes, next, kind⟩, r₀⟩ := entry
  have hkeep : Later symbols s s := Later.refl hs hlibs
  have hsame : isString kind = false → isKept kind = false →
      (∀ n, reresolve s n kind = resolve s n kind) → ∃ r t, reresolve s exCount kind = .ok (r, t) ∧
        Later symbols s t ∧ Again (⟨offset, numBytes, next, kind⟩, r₀)
          (⟨offset, numBytes, next, kind⟩, r) := by
    intro hstring hkept heq
    obtain ⟨r, hvalue, hr⟩ := h.holds hstring hkept exCount
    exact ⟨r, s, (heq exCount).trans hr, hkeep, rfl, .inr (.inr ⟨hkept, hvalue⟩)⟩
  cases kind with
  | vmAbsolute _ => exact ⟨_, s, rfl, hkeep, rfl, .inl ⟨rfl, rfl⟩⟩
  | currentThreadPointer => exact ⟨_, s, rfl, hkeep, rfl, .inl ⟨rfl, rfl⟩⟩
  | stackChunkSize => exact ⟨_, s, rfl, hkeep, rfl, .inl ⟨rfl, rfl⟩⟩
  | string value =>
    have hresolve : resolve s exCount (.string value) =
        .ok (.ofValue (.constant (K.string s.strings)), { s with strings := s.strings + 1 }) := rfl
    refine ⟨_, _, hresolve, Later.of_resolve hs hlibs hresolve, rfl, ?_⟩
    exact .inr (.inl ⟨rfl, resolve_spec hresolve⟩)
  | domainZero =>
    obtain ⟨r, -, hr⟩ := h.holds rfl rfl 0
    cases hr
  | exceptionTable _ _ _ _ =>
    obtain ⟨r, hvalue, hr⟩ := h.holds rfl rfl 0
    obtain ⟨rfl, -⟩ := Prod.mk.inj (pure_eq_ok.mp hr)
    exact ⟨_, s, rfl, hkeep, rfl, .inr (.inr ⟨rfl, hvalue⟩)⟩
  | tcbOffset k => exact absurd rfl (hoffset k)
  | _ => exact hsame rfl rfl fun _ => rfl

/-- All symbols of the clone. -/
theorem resolveAll_again {entries : List Entry} (hs : WellFormed s) (hlibs : s.sharedLibs ≠ [])
    (hmem : ∀ entry ∈ entries, entry.1 ∈ symbols)
    (hoffset : ∀ symbol ∈ symbols, ∀ k, symbol.kind ≠ .tcbOffset k)
    (h : ∀ entry ∈ entries, Linked s entry) (exCount : Nat) :
    ∃ entries' t, resolveAll reresolve s exCount (entries.map Prod.fst) = .ok (entries', t) ∧
      List.Forall₂ Again entries entries' := by
  induction entries generalizing s exCount with
  | nil => exact ⟨[], s, rfl, .nil⟩
  | cons entry entries ih =>
    have hfirst := hoffset entry.1 (hmem entry List.mem_cons_self)
    obtain ⟨r, u, hr, hlater, hagain⟩ : ∃ r u, reresolve s exCount entry.1.kind = .ok (r, u) ∧
        Later symbols s u ∧ Again entry (entry.1, r) :=
      reresolve_again hs hlibs hfirst (h entry List.mem_cons_self) exCount
    have hrest : ∀ x ∈ entries, Linked u x := fun x hx =>
      (h x (List.mem_cons_of_mem entry hx)).later (hmem x (List.mem_cons_of_mem entry hx)) hlater
    obtain ⟨entries', t, hentries, hforall⟩ := ih hlater.wellFormed hlater.libs
      (fun x hx => hmem x (List.mem_cons_of_mem entry hx)) hrest
      (exCount + r.exception.toList.length)
    refine ⟨(entry.1, r) :: entries', t, bind_eq_ok.mpr ⟨(r, u), hr, ?_⟩, .cons hagain hforall⟩
    exact bind_eq_ok.mpr ⟨(entries', t), hentries, rfl⟩

end Later

/-! ## The bytes -/

/-- The byte at this offset belongs to the hole of the symbol. -/
def InHole (symbol : SymbolDesc Str) (i : JInt) : Prop :=
  (i - symbol.immediateNCIndex).toNat < width symbol.kind

/-- What the two switches ask of a method: no symbol of the kind that only the first one knows, and no
byte in two holes of which the second switch fills one only. -/
structure Clonable (symbols : List (SymbolDesc Str)) : Prop where
  known : ∀ symbol ∈ symbols, ∀ k, symbol.kind ≠ .tcbOffset k
  apart : ∀ a ∈ symbols, isKept a.kind = true → ∀ b ∈ symbols, isKept b.kind = false →
    ∀ i, InHole a i → ¬ InHole b i

theorem covers_iff_inHole {entry : Entry} (h : Spec entry.1.kind entry.2) {code method : JInt}
    {p : Patch} (hp : Entry.patch code method entry = some p) (i : JInt) :
    p.Covers i ↔ InHole entry.1 i := by
  obtain ⟨v, hv, rfl⟩ := Option.map_eq_some_iff.mp hp
  have hlen := (h.value v hv).2 code method entry.1.nextInstrNCIndex
  unfold Patch.Covers InHole
  rw [hlen]

theorem misses_of_not_inHole {entry : Entry} (h : Spec entry.1.kind entry.2) {i : JInt}
    (hi : ¬ InHole entry.1 i) (code method : JInt) :
    Patch.Misses (Entry.patch code method entry) i := by
  intro p hp hcovers
  exact hi ((covers_iff_inHole h hp i).mp hcovers)

theorem patch_eq_none {entry : Entry} (h : entry.2.value = none) (code method : JInt) :
    Entry.patch code method entry = none := by
  unfold Entry.patch patchOf
  rw [h]
  rfl

theorem patch_congr {entry entry' : Entry} (hfst : entry'.1 = entry.1)
    (hvalue : entry'.2.value = entry.2.value) (code method : JInt) :
    Entry.patch code method entry' = Entry.patch code method entry := by
  unfold Entry.patch patchOf
  rw [hfst, hvalue]

/-- A hole of which a symbol knows the value is covered by its patch. -/
theorem exists_covers {entry : Entry} (h : Spec entry.1.kind entry.2) {i : JInt}
    (hi : InHole entry.1 i) (code method : JInt) :
    ∃ p, Entry.patch code method entry = some p ∧ p.Covers i := by
  cases hp : Entry.patch code method entry with
  | none =>
    have hwidth := h.width_of_none (Option.map_eq_none_iff.mp hp)
    unfold InHole at hi
    rw [hwidth] at hi
    exact absurd hi (Nat.not_lt_zero _)
  | some p => exact ⟨p, rfl, (covers_iff_inHole h hp i).mpr hi⟩

theorem not_isKept_of_isString {kind : SymbolKind Str} (h : isString kind = true) :
    isKept kind = false := by
  cases kind with
  | string _ => rfl
  | _ => cases h

section Bytes

variable {entries entries' : List Entry} {i code method newCode newMethod : JInt} {b : Byte}

theorem forall₂_mem (h : List.Forall₂ Again entries entries') :
    List.Forall₂ (fun entry entry' => entry ∈ entries ∧ Again entry entry') entries entries' :=
  (List.forall₂_and_left entries entries').mpr ⟨fun _ hmem => hmem, h⟩

/-- In no hole that is filled again: the byte is that of the first link, which left there what it would
leave anywhere. -/
theorem clone_byte_kept (hlinked : ∀ entry ∈ entries, Linked s entry)
    (hagain : List.Forall₂ Again entries entries')
    (hi : ∀ entry ∈ entries, isKept entry.1.kind = false → ¬ InHole entry.1 i) :
    Patch.atAll (entries'.filterMap (Entry.patch newCode newMethod)) i
        (Patch.atAll (entries.filterMap (Entry.patch code method)) i b) =
      Patch.atAll (entries.filterMap (Entry.patch newCode newMethod)) i b := by
  have hmiss : ∀ entry ∈ entries, isKept entry.1.kind = false → ∀ code method,
      Patch.Misses (Entry.patch code method entry) i := fun entry hentry hkept =>
    misses_of_not_inHole (hlinked entry hentry).spec (hi entry hentry hkept)
  -- the clone writes nothing here
  have hclone : ∀ b, Patch.atAll (entries'.filterMap (Entry.patch newCode newMethod)) i b = b := by
    intro b
    have hcongr : Patch.atAll (entries'.filterMap (Entry.patch newCode newMethod)) i b =
        Patch.atAll (entries.filterMap fun _ => none) i b := by
      apply Patch.atAll_congr
      apply List.Forall₂.flip
      refine (forall₂_mem hagain).imp fun entry entry' h => .inr ⟨?_, Patch.misses_none i⟩
      obtain ⟨hmem, hfst, ⟨-, hnone⟩ | ⟨hstring, hspec⟩ | ⟨hkept, hvalue⟩⟩ := h
      · rw [patch_eq_none hnone]
        exact Patch.misses_none i
      · have hnot := hi entry hmem (not_isKept_of_isString hstring)
        rw [← hfst] at hnot
        exact misses_of_not_inHole hspec hnot newCode newMethod
      · rw [patch_congr hfst hvalue]
        exact hmiss entry hmem hkept newCode newMethod
    rw [hcongr, List.filterMap_none]
    rfl
  rw [hclone]
  apply Patch.atAll_congr
  apply List.forall₂_same.mpr
  intro entry hentry
  cases hkept : isKept entry.1.kind with
  | true => exact .inl ((hlinked entry hentry).fixed hkept code method newCode newMethod)
  | false =>
    exact .inr ⟨hmiss entry hentry hkept code method, hmiss entry hentry hkept newCode newMethod⟩

/-- In a hole that is filled again: nothing of the first link is left. -/
theorem clone_byte_repatched (hlinked : ∀ entry ∈ entries, Linked s entry)
    (hagain : List.Forall₂ Again entries entries')
    (hstring : ∀ entry ∈ entries, isString entry.1.kind = true → ¬ InHole entry.1 i)
    (hkept : ∀ entry ∈ entries, isKept entry.1.kind = true → ¬ InHole entry.1 i)
    (hi : ∃ entry ∈ entries, InHole entry.1 i) (b' : Byte) :
    Patch.atAll (entries'.filterMap (Entry.patch newCode newMethod)) i b' =
      Patch.atAll (entries.filterMap (Entry.patch newCode newMethod)) i b := by
  have hcongr : Patch.atAll (entries.filterMap (Entry.patch newCode newMethod)) i b' =
      Patch.atAll (entries'.filterMap (Entry.patch newCode newMethod)) i b' := by
    apply Patch.atAll_congr
    refine (forall₂_mem hagain).imp fun entry entry' h => ?_
    obtain ⟨hmem, hfst, ⟨hk, hnone⟩ | ⟨hs, hspec⟩ | ⟨-, hvalue⟩⟩ := h
    · refine .inr ⟨misses_of_not_inHole (hlinked entry hmem).spec (hkept entry hmem hk) _ _, ?_⟩
      rw [patch_eq_none hnone]
      exact Patch.misses_none i
    · have hnot := hstring entry hmem hs
      refine .inr ⟨misses_of_not_inHole (hlinked entry hmem).spec hnot _ _, ?_⟩
      rw [← hfst] at hnot
      exact misses_of_not_inHole hspec hnot newCode newMethod
    · exact .inl (patch_congr hfst hvalue newCode newMethod).symm
  rw [← hcongr]
  apply Patch.atAll_of_covers
  obtain ⟨entry, hmem, hin⟩ := hi
  obtain ⟨p, hp, hcovers⟩ := exists_covers (hlinked entry hmem).spec hin newCode newMethod
  exact ⟨p, List.mem_filterMap.mpr ⟨entry, hmem, hp⟩, hcovers⟩

end Bytes

/-- Cloned code is linked code: cloning succeeds, and so does linking the code at its new address when
the code was linked, and outside the holes of strings the bytes are the same. -/
def ClonedAsLinked (s₀ s₁ : State K) (fresh byte₁ : JInt → Byte) (code newCode newMethod : JInt)
    (numberOfCodeBytes : Nat) (symbols : List (SymbolDesc Str)) : Prop :=
  ∃ clone ref, cloneMethodInDomain s₁ byte₁ code newCode newMethod numberOfCodeBytes symbols =
      (clone, none) ∧
    patchMethodSymbols s₀ fresh newCode newMethod symbols = (ref, none) ∧
    ∀ i : JInt, i.toNat < numberOfCodeBytes →
      (∀ symbol ∈ symbols, isString symbol.kind = true → ¬ InHole symbol i) →
      clone.byte (newCode + i) = ref.byte (newCode + i)

/-- In every run in which no event changes what a symbol of the method stands for, the clone is what the
link would have made. -/
theorem clonedAsLinked_of_harmless {s₀ s₁ : State K} {symbols : List (SymbolDesc Str)}
    {byte₀ byte₁ fresh : JInt → Byte} {code method newCode newMethod : JInt} {linked : Linking K}
    {numberOfCodeBytes : Nat} (hboot : Run (fun _ _ => True) (State.boot K) s₀)
    (hlibs : s₀.sharedLibs ≠ []) (hsymbols : Clonable symbols)
    (hlink : patchMethodSymbols s₀ byte₀ code method symbols = (linked, none))
    (hrun : Run (fun s e => ∀ symbol ∈ symbols, Harmless s e symbol.kind) linked.state s₁)
    (hcode : ∀ i : JInt, i.toNat < numberOfCodeBytes → byte₁ (code + i) = linked.byte (code + i))
    (hfresh : ∀ i : JInt, i.toNat < numberOfCodeBytes → fresh (newCode + i) = byte₀ (code + i)) :
    ClonedAsLinked s₀ s₁ fresh byte₁ code newCode newMethod numberOfCodeBytes symbols := by
  have hs₀ := hboot.wellFormed wellFormed_boot
  obtain ⟨entries, hentries⟩ := resolveAll_of_patchSymbols hlink
  obtain ⟨hlater, hmap, hlinked⟩ := resolveAll_linked hs₀ hlibs (List.Subset.refl symbols) hentries
  have hlater₁ := Later.of_run hlater.wellFormed hlater.libs hrun
  have hmem : ∀ entry ∈ entries, entry.1 ∈ symbols := by
    intro entry hentry
    rw [← hmap]
    exact List.mem_map_of_mem hentry
  have hlinked₁ : ∀ entry ∈ entries, Linked s₁ entry := fun entry hentry =>
    (hlinked entry hentry).later (hmem entry hentry) hlater₁
  obtain ⟨entries', t, hclone, hagain⟩ :=
    resolveAll_again hlater₁.wellFormed hlater₁.libs hmem hsymbols.known hlinked₁ 0
  rw [hmap] at hclone
  obtain ⟨clone, hclone, -, hcloneByte⟩ : ∃ l', patchSymbols reresolve newCode newMethod
      (Linking.start s₁ (memcpy byte₁ newCode code numberOfCodeBytes)) symbols = (l', none) ∧
      l'.state = t ∧ l'.byte = Patch.store newCode
        (entries'.filterMap (Entry.patch newCode newMethod))
        (memcpy byte₁ newCode code numberOfCodeBytes) := patchSymbols_of_resolveAll hclone
  obtain ⟨ref, href, -, hrefByte⟩ : ∃ l', patchSymbols resolve newCode newMethod
      (Linking.start s₀ fresh) symbols = (l', none) ∧ l'.state = linked.state ∧
      l'.byte = Patch.store newCode (entries.filterMap (Entry.patch newCode newMethod)) fresh :=
    patchSymbols_of_resolveAll hentries
  obtain ⟨linked', hlink', -, hlinkedByte⟩ : ∃ l', patchSymbols resolve code method
      (Linking.start s₀ byte₀) symbols = (l', none) ∧ l'.state = linked.state ∧
      l'.byte = Patch.store code (entries.filterMap (Entry.patch code method)) byte₀ :=
    patchSymbols_of_resolveAll hentries
  obtain rfl : linked' = linked := congrArg Prod.fst (hlink'.symm.trans hlink)
  refine ⟨clone, ref, hclone, href, fun i hi hstrings => ?_⟩
  have hbefore : memcpy byte₁ newCode code numberOfCodeBytes (newCode + i) =
      Patch.atAll (entries.filterMap (Entry.patch code method)) i (byte₀ (code + i)) := by
    unfold memcpy
    rw [add_sub_cancel_left, if_pos hi, hcode i hi, hlinkedByte]
    unfold Patch.store
    rw [add_sub_cancel_left]
  rw [hcloneByte, hrefByte]
  unfold Patch.store
  rw [add_sub_cancel_left, hbefore, hfresh i hi]
  by_cases hin : ∃ entry ∈ entries, isKept entry.1.kind = false ∧ InHole entry.1 i
  · obtain ⟨entry, hentry, hkept, hhole⟩ := hin
    apply clone_byte_repatched hlinked₁ hagain
    · exact fun x hx => hstrings x.1 (hmem x hx)
    · intro x hx hx' hboth
      exact hsymbols.apart x.1 (hmem x hx) hx' entry.1 (hmem entry hentry) hkept i hboth hhole
    · exact ⟨entry, hentry, hhole⟩
  · apply clone_byte_kept hlinked₁ hagain
    intro x hx hx' hhole
    exact hin ⟨x, hx, hx', hhole⟩

/-! ## A second library

The kernel has the operations `a` and `b`. For the first library, `a` is number 1. -/

def cloneKernel : Kernel where
  exceptionHandler := 0x1000
  vmSpecialAllocMultiArray := 0x1100
  shouldNotBeCalled := 0x1200
  specialAllocObject := 0x1300
  vmSpecialAllocArray := 0x1400
  curthrP := 0x1500
  stackOffset := 8
  longops := fun _ => 0x1600
  vmsupportNames := [[110], [97], [98]]
  vmsupport_ne_nil := nofun
  fkt := fun i => 0x1700 + BitVec.ofInt 32 i
  primitiveClass := fun _ => 0x1800
  address := fun c => BitVec.ofNat 32 (0x10000 + 64 * c)
  string := fun n => BitVec.ofNat 32 (0x20000 + 64 * n)

/-- A call of operation 1, the size of a stack chunk and the class of `int` arrays. -/
def cloneSymbols : List (SymbolDesc Str) :=
  [⟨1, 4, 5, .vmSupport 1⟩, ⟨8, 1, 9, .stackChunkSize⟩, ⟨12, 4, 16, .class [91, 73]⟩]

def firstLibrary : State cloneKernel := (State.boot cloneKernel).load [] [[110], [97]]

theorem run_firstLibrary : Run (fun _ _ => True) (State.boot cloneKernel) firstLibrary :=
  .single ⟨.load [] [[110], [97]], trivial, rfl⟩

/-- The code of the method, linked. -/
def firstLinked : Linking cloneKernel :=
  (patchMethodSymbols firstLibrary (fun _ => 0) 0x100000 0x200000 cloneSymbols).1

theorem patchMethodSymbols_firstLibrary :
    patchMethodSymbols firstLibrary (fun _ => 0) 0x100000 0x200000 cloneSymbols =
      (firstLinked, none) := rfl

theorem clonable_cloneSymbols : Clonable cloneSymbols where
  known := by simp [cloneSymbols]
  apart := by
    simp only [cloneSymbols, List.mem_cons, List.not_mem_nil, or_false]
    rintro a (rfl | rfl | rfl) ha b (rfl | rfl | rfl) hb i hi hj
    all_goals first | exact absurd ha (by decide) | exact absurd hb (by decide) | skip
    all_goals
      simp only [InHole, width] at hi hj
      bv_omega

/-- After a second library with this table. -/
def secondLibrary (vmSymbols : List Str) : State cloneKernel := firstLinked.state.load [] vmSymbols

/-- The second library has more symbols, and `a` is number 1 again. -/
theorem clonedAsLinked_sameNumber :
    patchMethodSymbols firstLibrary (fun _ => 0) 0x100000 0x200000 cloneSymbols =
        (firstLinked, none) ∧
      step firstLinked.state (.load [] [[110], [97], [98]]) =
        .ok (secondLibrary [[110], [97], [98]]) ∧
      ClonedAsLinked firstLibrary (secondLibrary [[110], [97], [98]]) (fun _ => 0) firstLinked.byte
        0x100000 0x300000 0x400000 16 cloneSymbols := by
  refine ⟨patchMethodSymbols_firstLibrary, rfl, ?_⟩
  have hrun : Run (fun s e => ∀ symbol ∈ cloneSymbols, Harmless s e symbol.kind) firstLinked.state
      (secondLibrary [[110], [97], [98]]) := by
    refine .single ⟨.load [] [[110], [97], [98]], ?_, rfl⟩
    simp only [cloneSymbols, List.mem_cons, List.not_mem_nil, or_false]
    rintro symbol (rfl | rfl | rfl)
    · rfl
    · trivial
    · exact .inr nofun
  exact clonedAsLinked_of_harmless run_firstLibrary (List.cons_ne_nil _ _) clonable_cloneSymbols
    patchMethodSymbols_firstLibrary hrun (fun _ _ => rfl) (fun _ _ => rfl)

/-- The second library has only the second operation, as its number 1. -/
theorem not_clonedAsLinked_otherNumber :
    Run (fun _ _ => True) (State.boot cloneKernel) firstLibrary ∧
      patchMethodSymbols firstLibrary (fun _ => 0) 0x100000 0x200000 cloneSymbols =
        (firstLinked, none) ∧
      step firstLinked.state (.load [] [[110], [98]]) = .ok (secondLibrary [[110], [98]]) ∧
      ¬ ClonedAsLinked firstLibrary (secondLibrary [[110], [98]]) (fun _ => 0) firstLinked.byte
        0x100000 0x300000 0x400000 16 cloneSymbols := by
  refine ⟨run_firstLibrary, patchMethodSymbols_firstLibrary, rfl, ?_⟩
  rintro ⟨clone, ref, hclone, href, hbytes⟩
  have hbyte := hbytes 1 (by decide) (by simp [cloneSymbols, isString])
  obtain rfl := congrArg Prod.fst hclone
  obtain rfl := congrArg Prod.fst href
  exact absurd hbyte (by decide)

end JxCore.Link
