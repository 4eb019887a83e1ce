import JxCore.Core.CodeFileFormat

/-!
# Reading a code file back

The descriptors that `loadSharedLibrary` makes of a written description say what the description says,
as long as every field offset fits into the `char` that holds it.
-/

namespace JxCore.CodeFile

open Lib (Table Reader)
open Lib.Reader

/-! ## Descriptors that say what the file says -/

/-- A superclass of this name, where `earlier` are the names of the classes in front. -/
def RefersTo (k : Kernel) (earlier : List Str) (supername : Str) : Option ClassRef → Prop
  | none => supername = []
  | some .object => supername = objectName
  | some (.own i) => earlier[i]? = some supername
  | some (.loaded c) => k.findClassDesc supername = some c

/-- The described offset of a field. -/
def ClassFile.fieldOffset {ν : Type} (f : ν → Str) (c : ClassFile ν) (fieldname : Str) :
    Option JInt :=
  (c.fields.entries.find? fun x => f x.fieldName = fieldname).map FieldFile.fieldOffset

structure ClassFile.Describes {ν : Type} (f : ν → Str) (k : Kernel) (earlier : List Str)
    (c : ClassFile ν) (d : ClassDesc) : Prop where
  classType : d.classType = if c.isinterface ≠ 0 then .interface else .class
  name : d.name = f c.name
  superclass : RefersTo k earlier (f c.supername) d.superclass
  ifname : d.ifname = c.interfaces.map f
  methods : d.methods.map MethodDesc.toMethod = c.methods.map fun m => m.toMethod.map f
  instanceSize : d.instanceSize = c.instanceSize
  map : d.map = c.map
  fields : d.fields.map (fun x => (x.fieldName, x.fieldType, x.fieldOffset.signExtend 32)) =
    c.fields.map fun x => (f x.fieldName, f x.fieldType, x.fieldOffset)
  findFieldOffset : ∀ name offset, c.fieldOffset f name = some offset →
    CodeFile.findFieldOffset d name = .ok offset
  staticFieldsSize : d.staticFieldsSize = c.staticFieldsSize
  staticsMap : d.staticsMap = c.staticsMap
  vtableSize : d.vtableSize = c.vtable.count
  vtableSym : d.vtableSym = c.vtable.entries.map (VtableFile.sym f)

def LibraryFile.methods (lib : LibraryFile) : List (MethodFile lib.strings.Id) :=
  lib.classes.entries.flatMap fun c => c.methods.entries

def SharedLibDesc.methods (d : SharedLibDesc) : List MethodDesc :=
  d.allClasses.entries.flatMap fun c => c.methods.entries

/-- The names of the first `i` classes. -/
def LibraryFile.earlier (lib : LibraryFile) (i : Nat) : List Str :=
  (lib.classes.entries.take i).map fun c => lib.strings.get c.name

/-- The descriptors say what the file says, and the code of each method begins where the code of those
before it ends. -/
structure LibraryFile.Describes (k : Kernel) (lib : LibraryFile) (d : SharedLibDesc) : Prop where
  «meta» : d.meta = lib.meta
  count : d.allClasses.count = lib.classes.count
  classes : ∀ i c x, lib.classes.entries[i]? = some c → d.allClasses.entries[i]? = some x →
    ClassFile.Describes lib.strings.get k (lib.earlier i) c x
  code : d.code = lib.code
  codeOffset : ∀ (i : Nat) (m : MethodDesc), d.methods[i]? = some m →
    m.codeOffset.toInt = ((codeSizes lib.methods).take i).sum

/-- Every superclass is `java/lang/Object`, a class in front, or a class of a loaded library. -/
def LibraryFile.SuperclassesFound (k : Kernel) (lib : LibraryFile) : Prop :=
  ∀ i c, lib.classes.entries[i]? = some c →
    lib.strings.get c.supername = [] ∨ lib.strings.get c.supername = objectName ∨
      lib.strings.get c.supername ∈ lib.earlier i ∨
        k.findClassDesc (lib.strings.get c.supername) ≠ none

/-- The bytes of temporary memory that the names of interfaces take. -/
def LibraryFile.interfaceBytes (lib : LibraryFile) : Nat :=
  4 * (lib.classes.entries.map fun c => c.interfaces.entries.length).sum

/-! ## Superclasses -/

theorem findSuperclass_refersTo {k : Kernel} {earlier : List Str} {supername : Str}
    {superclass : Option ClassRef}
    (h : findSuperclass k.findClassDesc earlier supername = .ok superclass) :
    RefersTo k earlier supername superclass := by
  unfold findSuperclass at h
  split at h
  next hempty =>
    cases h
    exact hempty
  next =>
    split at h
    next hobject =>
      cases h
      exact hobject
    next =>
      split at h
      next i hi =>
        cases h
        obtain ⟨hlt, hget, -⟩ := List.idxOf?_eq_some_iff.mp hi
        exact (List.getElem?_eq_getElem hlt).trans (congrArg some hget)
      next =>
        split at h
        next c hc =>
          cases h
          exact hc
        next => cases h

theorem findSuperclass_ok {findClassDesc : Str → Option Nat} {earlier : List Str} {supername : Str}
    (h : supername = [] ∨ supername = objectName ∨ supername ∈ earlier ∨
      findClassDesc supername ≠ none) :
    ∃ superclass, findSuperclass findClassDesc earlier supername = .ok superclass := by
  unfold findSuperclass
  split
  · exact ⟨_, rfl⟩
  · split
    · exact ⟨_, rfl⟩
    · split
      · exact ⟨_, rfl⟩
      · split
        · exact ⟨_, rfl⟩
        · simp_all

/-! ## One class -/

/-- Only small offsets come back from a `char`. -/
theorem signExtend_setWidth_eq_iff {x : JInt} (h : 0 ≤ x.toInt) :
    (x.setWidth 8).signExtend 32 = x ↔ x.toInt < 128 := by
  have hnat : x.toNat = x.toInt.toNat := by
    rcases Lib.toInt_cases x with ⟨-, hx⟩ | ⟨-, -, hx⟩ <;> omega
  rw [← BitVec.toInt_inj, BitVec.toInt_signExtend_of_le (by decide), BitVec.toInt_setWidth, hnat,
    Int.toNat_of_nonneg h]
  constructor
  · intro heq
    have hlt := Int.bmod_lt (x := x.toInt) (m := 2 ^ 8) (by decide)
    rw [heq] at hlt
    exact hlt
  · intro hlt
    apply Int.bmod_eq_of_le
    · omega
    · exact hlt

theorem table_map_map {α β γ : Type} (g : β → γ) (f : α → β) (t : Table α) :
    (t.map f).map g = t.map (g ∘ f) := by
  simp [Table.map]

theorem table_map_eq_iff {α β : Type} {f g : α → β} {t : Table α} :
    t.map f = t.map g ↔ ∀ x ∈ t.entries, f x = g x := by
  rw [Table.map, Table.map, Table.mk.injEq, List.map_inj_left]
  exact and_iff_right rfl

theorem map_toMethod_methodDescs {ν : Type} (f : ν → Str) (codeOffset : JInt)
    (ms : List (MethodFile ν)) :
    (methodDescs f codeOffset ms).map MethodDesc.toMethod = ms.map fun m => m.toMethod.map f := by
  induction ms generalizing codeOffset with
  | nil => rfl
  | cons m ms ih => exact congrArg (m.toMethod.map f :: ·) (ih _)

section Class

variable {ν : Type} {f : ν → Str} {k : Kernel}

theorem desc_cases {s s' : Progress} {c : ClassFile ν} {d : ClassDesc}
    (h : c.desc f k.findClassDesc s = .ok (d, s')) :
    ∃ superclass, findSuperclass k.findClassDesc s.complete (f c.supername) = .ok superclass ∧
      4 * c.interfaces.entries.length ≤ s.free ∧ d = c.descWith f superclass s ∧
        s' = c.progress f (s.free - 4 * c.interfaces.entries.length) s := by
  obtain ⟨superclass, hsuper, hrest⟩ := bind_eq_ok.mp h
  obtain ⟨free, hfree, hret⟩ := bind_eq_ok.mp hrest
  obtain ⟨rfl, rfl⟩ := Prod.mk.inj (pure_eq_ok.mp hret)
  obtain ⟨_, hcheck, hpass⟩ := bind_eq_ok.mp hfree
  obtain rfl := pure_eq_ok.mp hpass
  rw [← c.interfaces.length_eq] at hcheck ⊢
  refine ⟨superclass, hsuper, ?_, rfl, rfl⟩
  unfold require at hcheck
  split at hcheck
  · assumption
  · cases hcheck

theorem desc_ok {s : Progress} {c : ClassFile ν} {superclass : Option ClassRef}
    (hsuper : findSuperclass k.findClassDesc s.complete (f c.supername) = .ok superclass)
    (hfree : 4 * c.interfaces.entries.length ≤ s.free) :
    c.desc f k.findClassDesc s = .ok (c.descWith f superclass s,
      c.progress f (s.free - 4 * c.interfaces.entries.length) s) := by
  have hcheck : require (4 * c.interfaces.count.toInt.toNat ≤ s.free)
      (.panic "temp space not sufficient") = .ok () := by
    apply if_pos
    rwa [← c.interfaces.length_eq]
  rw [c.interfaces.length_eq]
  unfold ClassFile.desc mallocTmpStringtable
  rw [hsuper, hcheck]
  rfl

/-- Where the offsets fit, `findFieldOffset` finds the described ones. -/
theorem findFieldOffset_descWith {c : ClassFile ν} {superclass : Option ClassRef} {s : Progress}
    (hfit : ∀ x ∈ c.fields.entries, x.fieldOffset.toInt < 128) {name : Str} {offset : JInt}
    (h : c.fieldOffset f name = some offset) :
    findFieldOffset (c.descWith f superclass s) name = .ok offset := by
  obtain ⟨x, hx, rfl⟩ := Option.map_eq_some_iff.mp h
  have hmem : x ∈ c.fields.entries := List.mem_of_find?_eq_some hx
  have hfind : (c.descWith f superclass s).fields.entries.find? (fun x => x.fieldName = name) =
      some (x.desc f) := by
    change (c.fields.entries.map (FieldFile.desc f)).find? _ = _
    rw [List.find?_map]
    exact congrArg (Option.map (FieldFile.desc f)) hx
  unfold findFieldOffset
  rw [hfind]
  exact congrArg Except.ok ((signExtend_setWidth_eq_iff x.nonneg).mpr (hfit x hmem))

theorem describes_descWith_iff {c : ClassFile ν} {superclass : Option ClassRef} {s : Progress}
    {earlier : List Str} (hsuper : RefersTo k earlier (f c.supername) superclass) :
    c.Describes f k earlier (c.descWith f superclass s) ↔
      ∀ x ∈ c.fields.entries, x.fieldOffset.toInt < 128 := by
  constructor
  · intro h x hx
    have hfields := h.fields
    rw [ClassFile.descWith, table_map_map, table_map_eq_iff] at hfields
    have hoffset := congrArg (fun p => p.2.2) (hfields x hx)
    exact (signExtend_setWidth_eq_iff x.nonneg).mp hoffset
  · intro hfit
    exact
      { classType := rfl
        name := rfl
        superclass := hsuper
        ifname := rfl
        methods := by
          rw [ClassFile.descWith, Table.map, Table.map, Table.mk.injEq]
          refine ⟨rfl, ?_⟩
          exact map_toMethod_methodDescs f s.completeCodeBytes c.methods.entries
        instanceSize := rfl
        map := rfl
        fields := by
          rw [ClassFile.descWith, table_map_map, table_map_eq_iff]
          intro x hx
          have hoffset := (signExtend_setWidth_eq_iff x.nonneg).mpr (hfit x hx)
          exact congrArg (fun o => (f x.fieldName, f x.fieldType, o)) hoffset
        findFieldOffset := fun _ _ h => findFieldOffset_descWith hfit h
        staticFieldsSize := rfl
        staticsMap := rfl
        vtableSize := rfl
        vtableSym := rfl }

end Class

/-! ## All classes -/

section Classes

variable {ν : Type} {f : ν → Str} {k : Kernel}

/-- What the loop over the classes has done when it comes to its end. -/
theorem scanList_classes {cs : List (ClassFile ν)} {s s' : Progress}
    {ds : { r : List ClassDesc // r.length = cs.length }}
    (h : scanList (ClassFile.desc f k.findClassDesc) cs s = .ok (ds, s')) :
    4 * (cs.map fun c => c.interfaces.entries.length).sum ≤ s.free ∧
      s'.completeCodeBytes = codeEnd s.completeCodeBytes (cs.flatMap fun c => c.methods.entries) ∧
      ds.val.flatMap (fun d => d.methods.entries) =
        methodDescs f s.completeCodeBytes (cs.flatMap fun c => c.methods.entries) ∧
      ∀ (i : Nat) (c : ClassFile ν) (d : ClassDesc), cs[i]? = some c → ds.val[i]? = some d →
        ∃ superclass s₁, RefersTo k (s.complete ++ (cs.take i).map fun c => f c.name)
          (f c.supername) superclass ∧ d = c.descWith f superclass s₁ := by
  induction cs generalizing s with
  | nil =>
    obtain ⟨rfl, rfl⟩ := Prod.mk.inj (pure_eq_ok.mp h)
    exact ⟨Nat.zero_le _, rfl, rfl, nofun⟩
  | cons c cs ih =>
    obtain ⟨⟨d, s₁⟩, hdesc, hrest⟩ := bind_eq_ok.mp h
    obtain ⟨⟨ds', s₂⟩, hscan, hret⟩ := bind_eq_ok.mp hrest
    obtain ⟨rfl, rfl⟩ := Prod.mk.inj (pure_eq_ok.mp hret)
    obtain ⟨superclass, hsuper, hfree, rfl, rfl⟩ := desc_cases hdesc
    obtain ⟨hfree', hend, hmethods, hclasses⟩ := ih hscan
    refine ⟨?_, ?_, ?_, ?_⟩
    · simp only [ClassFile.progress] at hfree'
      simp only [List.map_cons, List.sum_cons]
      omega
    · rw [hend, List.flatMap_cons, codeEnd_append]
      rfl
    · simp only [List.flatMap_cons, hmethods, methodDescs_append]
      rfl
    · intro i c' d' hc hd
      cases i with
      | zero =>
        obtain rfl := Option.some.inj hc
        obtain rfl := Option.some.inj hd
        refine ⟨superclass, s, ?_, rfl⟩
        rw [List.take_zero, List.map_nil, List.append_nil]
        exact findSuperclass_refersTo hsuper
      | succ i =>
        obtain ⟨superclass', s', href, rfl⟩ := hclasses i c' d' hc hd
        refine ⟨superclass', s', ?_, rfl⟩
        rw [List.take_succ_cons, List.map_cons, List.append_cons]
        exact href

theorem scanList_classes_ok {cs : List (ClassFile ν)} {s : Progress}
    (hfree : 4 * (cs.map fun c => c.interfaces.entries.length).sum ≤ s.free)
    (hsuper : ∀ (i : Nat) (c : ClassFile ν), cs[i]? = some c →
      f c.supername = [] ∨ f c.supername = objectName ∨
        f c.supername ∈ s.complete ++ (cs.take i).map (fun c => f c.name) ∨
          k.findClassDesc (f c.supername) ≠ none) :
    ∃ p, scanList (ClassFile.desc f k.findClassDesc) cs s = .ok p := by
  induction cs generalizing s with
  | nil => exact ⟨_, rfl⟩
  | cons c cs ih =>
    simp only [List.map_cons, List.sum_cons] at hfree
    have hfirst := hsuper 0 c rfl
    rw [List.take_zero, List.map_nil, List.append_nil] at hfirst
    obtain ⟨superclass, hfound⟩ := findSuperclass_ok hfirst
    have hdesc := desc_ok hfound (by omega)
    have hnext : ∃ p, scanList (ClassFile.desc f k.findClassDesc) cs
        (c.progress f (s.free - 4 * c.interfaces.entries.length) s) = .ok p := by
      apply ih
      · simp only [ClassFile.progress]
        omega
      · intro i c' hc
        have hlater := hsuper (i + 1) c' hc
        rw [List.take_succ_cons, List.map_cons, List.append_cons] at hlater
        exact hlater
    obtain ⟨p, hp⟩ := hnext
    exact ⟨_, scanList_cons_ok hdesc hp⟩

end Classes

/-! ## The whole file -/

/-- The sizes of the code of all methods, and its length. -/
theorem length_code (lib : LibraryFile) : lib.code.length = (codeSizes lib.methods).sum := by
  simp only [LibraryFile.code, LibraryFile.methods, codeSizes, ← List.flatMap_assoc,
    List.length_flatMap]

theorem codeSizes_small (lib : LibraryFile) : (codeSizes lib.methods).sum < 2 ^ 31 := by
  have hsum : (codeSizes lib.methods).sum = (lib.classes.entries.map ClassFile.codeSize).sum := by
    rw [← length_code, LibraryFile.code, List.length_flatMap]
    simp only [List.length_flatMap]
    rfl
  rw [hsum]
  exact lib.code_small

/-- What `loadSharedLibrary` makes of a description. -/
def LibraryFile.desc (lib : LibraryFile) (k : Kernel) (free : Nat) :
    Except Stop (SharedLibDesc × List Nat) := do
  let p ← lib.classDescs k free
  return ({
    «meta» := lib.meta
    allClasses := p.1
    code := lib.code
    codeBytes := p.2.completeCodeBytes
    vtablesize := p.2.completeVtableSize
    bytecodes := p.2.completeBytecodeSize
    memSizeStaticFields := p.2.sfieldsOffset }, vmIndices k lib.vmSymbols)

theorem classDescs_ok {lib : LibraryFile} {k : Kernel} {free : Nat} {ds : Table ClassDesc}
    {s : Progress} (h : lib.classDescs k free = .ok (ds, s)) :
    ds.count = lib.classes.count ∧ ∃ hl,
      scanList (ClassFile.desc lib.strings.get k.findClassDesc) lib.classes.entries
        (Progress.start free) = .ok (⟨ds.entries, hl⟩, s) := by
  obtain ⟨⟨l, s'⟩, hscan, hret⟩ := bind_eq_ok.mp h
  obtain ⟨rfl, rfl⟩ := Prod.mk.inj (pure_eq_ok.mp hret)
  exact ⟨rfl, l.property, hscan⟩

theorem readsLibrary (lib : LibraryFile) (k : Kernel) (free : Nat)
    (hvm : lib.vmSymbols.length ≤ k.numberVMOperations) :
    Reads (loadSharedLibrary k free) lib.bytes (lib.desc k free) := by
  apply (readsMeta lib.meta_small lib.meta_no_zero).next
  apply Reads.nextSuch (readStringTable_denotes lib.strings)
  intro strings hstrings
  apply (readsVMSymbols lib.vmSymbols_no_zero lib.vmSymbols_small hvm).next
  rw [List.flatten_cons]
  refine (readsClasses lib k free hstrings).bind fun p hp => ?_
  obtain ⟨-, _, hscan⟩ := classDescs_ok hp
  obtain ⟨-, hend, -, -⟩ := scanList_classes hscan
  have hsmall := codeSizes_small lib
  have hcode : p.2.completeCodeBytes.toInt = lib.code.length := by
    have htoInt : (codeEnd 0 lib.methods).toInt = (0 : Nat) + (codeSizes lib.methods).sum :=
      toInt_codeEnd rfl (by omega)
    rw [hend, length_code]
    exact htoInt.trans (Int.zero_add _)
  apply (readsCode hcode).next
  exact Reads.pure _

/-- The descriptors of a library that was read. -/
theorem desc_describes_iff {lib : LibraryFile} {k : Kernel} {free : Nat} {d : SharedLibDesc}
    {indices : List Nat} (h : lib.desc k free = .ok (d, indices)) :
    lib.interfaceBytes ≤ free ∧ (lib.Describes k d ↔
      ∀ c ∈ lib.classes.entries, ∀ x ∈ c.fields.entries, x.fieldOffset.toInt < 128) := by
  obtain ⟨⟨ds, s⟩, hds, hret⟩ := bind_eq_ok.mp h
  obtain ⟨rfl, rfl⟩ := Prod.mk.inj (pure_eq_ok.mp hret)
  obtain ⟨hcount, hl, hscan⟩ := classDescs_ok hds
  obtain ⟨hfree, -, hmethods, hclasses⟩ := scanList_classes hscan
  refine ⟨hfree, ?_, ?_⟩
  · intro hdescribes c hc
    obtain ⟨i, hi, rfl⟩ := List.getElem_of_mem hc
    have hget : lib.classes.entries[i]? = some lib.classes.entries[i] := List.getElem?_eq_getElem hi
    have hi' : i < ds.entries.length := by rwa [hl]
    have hget' : ds.entries[i]? = some ds.entries[i] := List.getElem?_eq_getElem hi'
    obtain ⟨superclass, s₁, href, hd⟩ := hclasses i _ _ hget hget'
    have hclass := hdescribes.classes i _ _ hget hget'
    rw [hd] at hclass
    exact (describes_descWith_iff href).mp hclass
  · intro hfit
    refine ⟨rfl, hcount, ?_, rfl, ?_⟩
    · intro i c x hc hx
      obtain ⟨superclass, s₁, href, rfl⟩ := hclasses i c x hc hx
      exact (describes_descWith_iff href).mpr (hfit c (List.mem_of_getElem? hc))
    · intro i m hm
      change (ds.entries.flatMap fun c => c.methods.entries)[i]? = some m at hm
      rw [hmethods] at hm
      have hsmall := codeSizes_small lib
      have hsplit : codeSizes lib.methods =
          codeSizes (lib.methods.take i) ++ codeSizes (lib.methods.drop i) := by
        unfold codeSizes
        rw [← List.map_append, List.take_append_drop]
      rw [hsplit, List.sum_append] at hsmall
      have hend : (codeEnd 0 (lib.methods.take i)).toInt =
          (0 : Nat) + (codeSizes (lib.methods.take i)).sum := toInt_codeEnd rfl (by omega)
      rw [codeOffset_methodDescs hm, codeSizes, ← List.map_take]
      exact hend.trans (Int.zero_add _)

theorem desc_of_load {lib : LibraryFile} {k : Kernel} {free : Nat} {d : SharedLibDesc}
    {indices : List Nat} {rest : List Byte} (hvm : lib.vmSymbols.length ≤ k.numberVMOperations)
    (h : loadSharedLibrary k free (lib.bytes ++ rest) = .ok ((d, indices), rest)) :
    lib.desc k free = .ok (d, indices) := by
  have heq := (readsLibrary lib k free hvm rest).symm.trans h
  cases hdesc : lib.desc k free with
  | error e =>
    rw [hdesc] at heq
    cases heq
  | ok p =>
    rw [hdesc] at heq
    cases heq
    rfl

/-- A written description is read back, byte for byte and field by field, exactly if the names of its
interfaces fit into the temporary memory and its field offsets into a `char`. -/
theorem loadSharedLibrary_describes_iff (k : Kernel) (lib : LibraryFile) (free : Nat)
    (hsuper : lib.SuperclassesFound k) (hvm : lib.vmSymbols.length ≤ k.numberVMOperations) :
    (∃ d indices, (∀ rest, loadSharedLibrary k free (lib.bytes ++ rest) = .ok ((d, indices), rest)) ∧
      lib.Describes k d) ↔
    lib.interfaceBytes ≤ free ∧
      ∀ c ∈ lib.classes.entries, ∀ x ∈ c.fields.entries, x.fieldOffset.toInt < 128 := by
  have hreads := readsLibrary lib k free hvm
  constructor
  · rintro ⟨d, indices, hload, hdescribes⟩
    obtain ⟨hfree, hiff⟩ := desc_describes_iff (desc_of_load hvm (hload []))
    exact ⟨hfree, hiff.mp hdescribes⟩
  · rintro ⟨hfree, hfit⟩
    obtain ⟨⟨ds, s⟩, hscan⟩ := scanList_classes_ok (s := Progress.start free) hfree hsuper
    have hdesc : ∃ p, lib.desc k free = .ok p := by
      unfold LibraryFile.desc LibraryFile.classDescs
      rw [hscan]
      exact ⟨_, rfl⟩
    obtain ⟨⟨d, indices⟩, hdesc⟩ := hdesc
    refine ⟨d, indices, fun rest => ?_, (desc_describes_iff hdesc).2.mpr hfit⟩
    have hrest := hreads rest
    rwa [hdesc] at hrest

/-! ## A library with one field -/

/-- The strings `A`, `x` and `I`, and the empty string. -/
def smallStrings : StringTable := ⟨[[65], [120], [73], []], by decide, by decide⟩

/-- A method with a call of the exception handler. -/
def smallMethod : MethodFile (Fin 4) where
  name := 1
  signature := 2
  sizeLocalVars := 0
  numberOfCodeBytes := 5
  numberOfArgs := 0
  argTypeMap := Table.empty
  returnType := 0
  flags := 0
  symbols := ⟨1, [⟨1, 4, 5, .exceptionHandler⟩], by decide⟩
  bytecodeTable := Table.empty
  sourceLineTable := Table.empty
  code := [232, 0, 0, 0, 0]
  code_length := by decide
  inside := by decide
  no_zero := by decide

/-- The class `A` with the field `x` at this offset. -/
def smallClass (offset : JInt) (h : 0 ≤ offset.toInt) : ClassFile (Fin 4) where
  name := 0
  supername := 3
  isinterface := 0
  interfaces := Table.empty
  instanceSize := 1
  map := Table.empty
  fields := ⟨1, [⟨1, 2, offset, h⟩], rfl⟩
  staticFieldsSize := 0
  staticsMap := Table.empty
  bytecodeSize := 0
  unused := 0
  vtable := Table.empty
  methods := ⟨1, [smallMethod], by decide⟩
  vtable_small := by decide

def smallLibrary (offset : JInt) (h : 0 ≤ offset.toInt) : LibraryFile where
  «meta» := []
  strings := smallStrings
  vmSymbols := []
  classes := ⟨1, [smallClass offset h], rfl⟩
  meta_small := by decide
  meta_no_zero := nofun
  vmSymbols_small := by decide
  vmSymbols_no_zero := nofun
  code_small := by
    change 5 + 0 + 0 < 2 ^ 31
    decide

/-- Nothing is loaded yet. -/
def emptyKernel : Kernel := ⟨fun _ => none, []⟩

theorem superclassesFound_smallLibrary (offset : JInt) (h : 0 ≤ offset.toInt) :
    (smallLibrary offset h).SuperclassesFound emptyKernel := by
  intro i c hc
  have hmem : c ∈ [smallClass offset h] := List.mem_of_getElem? hc
  obtain rfl := List.mem_singleton.mp hmem
  exact .inl rfl

theorem loadSharedLibrary_describes_four :
    ∃ d indices, (∀ rest, loadSharedLibrary emptyKernel 6000
      ((smallLibrary 4 (by decide)).bytes ++ rest) = .ok ((d, indices), rest)) ∧
      (smallLibrary 4 (by decide)).Describes emptyKernel d := by
  apply (loadSharedLibrary_describes_iff emptyKernel (smallLibrary 4 (by decide)) 6000
    (superclassesFound_smallLibrary 4 _) (Nat.le_refl 0)).mpr
  refine ⟨Nat.zero_le _, fun c hc x hx => ?_⟩
  obtain rfl := List.mem_singleton.mp hc
  obtain rfl := List.mem_singleton.mp hx
  decide

/-- The offset 128 is read back as -128. -/
theorem not_loadSharedLibrary_describes :
    (smallLibrary 128 (by decide)).SuperclassesFound emptyKernel ∧
      (smallLibrary 128 (by decide)).vmSymbols.length ≤ emptyKernel.numberVMOperations ∧
      (smallLibrary 128 (by decide)).interfaceBytes ≤ 6000 ∧
      ¬ ∃ d indices, (∀ rest, loadSharedLibrary emptyKernel 6000
        ((smallLibrary 128 (by decide)).bytes ++ rest) = .ok ((d, indices), rest)) ∧
        (smallLibrary 128 (by decide)).Describes emptyKernel d := by
  refine ⟨superclassesFound_smallLibrary 128 _, Nat.le_refl 0, Nat.zero_le _, ?_⟩
  rintro ⟨d, indices, hload, hdescribes⟩
  have hdesc : (smallLibrary 128 (by decide)).desc emptyKernel 6000 = .ok (d, indices) :=
    desc_of_load (Nat.le_refl 0) (hload [])
  obtain ⟨-, hiff⟩ := desc_describes_iff hdesc
  have hfit := hiff.mp hdescribes (smallClass 128 (by decide)) List.mem_cons_self _
    List.mem_cons_self
  exact absurd hfit (by decide)

end JxCore.CodeFile
