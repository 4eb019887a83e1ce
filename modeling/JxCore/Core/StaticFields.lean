import Mathlib.Algebra.Order.BigOperators.Group.List
import Mathlib.Algebra.Order.Group.Nat
import Mathlib.Data.BitVec
import JxCore.Core.LoadIndex

/-!
# Where the static fields are (`core/load.c`)

The static fields of all classes of a library lie in one block, of which every domain has its own. A
class gets its offset into the block when the shared part of the library is made, and its address when
a domain gets the library; two loops add up the same sizes. The code of other libraries finds the
fields through the table `sfields` of the domain, by the index of the library and the offset.

The libraries and the domains are those of `Core.Load`. The sizes of the classes are counted there
without a bound; here they are added up as the source does, in `jint`s.
-/

namespace JxCore.StaticFields

open Exec Load Relation

/-! ## Classes -/

/-- A `jint`, and an address. -/
abbrev Word := BitVec 32

/-- `ClassDesc`, as far as it concerns the static fields. -/
structure ClassDesc where
  name : String
  definingLib : Option SLib
  staticFieldsSize : Nat
  sfieldOffset : Word
  deriving DecidableEq

/-- The loop of `loadSharedLibrary` over the classes of `lib`, from the `k`-th on, with
`sfields_offset`. -/
def readClasses (name : Nat → String) (lib : SLib) : Nat → Word → List Nat → List ClassDesc
  | _, _, [] => []
  | k, offset, size :: sizes =>
    ⟨name k, some lib, size, offset⟩ ::
      readClasses name lib (k + 1) (offset + BitVec.ofNat 32 size) sizes

/-- `memSizeStaticFields` after the loop. -/
def memSizeStaticFields (sizes : List Nat) : Word :=
  sizes.foldl (fun mem size => mem + BitVec.ofNat 32 size) 0

/-- What `loadLib` does to a class without static fields. -/
def ClassDesc.placed (c : ClassDesc) : ClassDesc :=
  if c.staticFieldsSize ≠ 0 then c else { c with sfieldOffset := 0 }

section

-- the names of the classes in the code file of a library, and the libraries that a domain has got
variable (className : String → Nat → String) (placed : SLib → Bool)

/-- `allClasses` of a shared library. -/
def allClasses (s : State) (i : SLib) : List ClassDesc :=
  let classes := readClasses (className (s.slib i).name) i 0 0 (s.slib i).staticFieldsSize
  if placed i then classes.map .placed else classes

/-- `java_lang_Object`. -/
def javaLangObject : ClassDesc := ⟨"java/lang/Object", none, 0, 0⟩

/-- `findClassDesc`. The test of the keys leaves out only libraries that do not have the class. -/
def findClassDesc (s : State) (name : String) : Option ClassDesc :=
  if name = javaLangObject.name then some javaLangObject
  else s.sharedLibs.findSome? fun i => (allClasses className placed s i).find? (·.name = name)

/-! ## Symbols -/

/-- `SymbolDescStaticField`. -/
structure SymbolDescStaticField where
  className : String
  kind : Word
  fieldOffset : Word

/-- `STACK_CHUNK`. -/
def stackChunk : Nat := 13

/-- The constant that `patchStaticFieldAddress` writes into the code. -/
def patchStaticFieldAddress (s : State) (symbol : SymbolDescStaticField) : Except Stop Word :=
  match findClassDesc className placed s symbol.className with
  | none => throw (.panic "could not find class")
  | some c =>
    match c.definingLib with
    | none => throw .wild
    | some libindex =>
      if symbol.kind = 0 then return c.sfieldOffset + symbol.fieldOffset
      else if symbol.kind = 1 then
        if libindex > s.sharedLibsIndexNumber then throw (.panic "invalid lib index\n")
        else return BitVec.ofNat 32 libindex * 4
      else if symbol.kind = 2 then return (c.sfieldOffset + symbol.fieldOffset) * 4
      else if symbol.kind = 3 then return 0xffffffff <<< stackChunk
      else throw (.panic "unknown static field symbol")

end

/-! ## Addresses -/

section

-- where the blocks of static fields are in memory
variable (address : Nat → Word)

/-- `domain->sfields[ndx]`. -/
def sfieldsAt (dom : DomainDesc) (ndx : SLib) : Word := (dom.sfields ndx).elim 0 address

/-- `cl->staticFields` of the `k`-th class. -/
def staticFieldsAt (lib : LibDesc) (k : Nat) : Word :=
  (lib.staticFields.getD k none).elim 0 fun p => address p.1 + 4 * BitVec.ofNat 32 p.2

end

/-- **The two loops agree on a library**, and what is written into code leads to the fields. The
classes are taken as they are before and after a domain has got the library. -/
structure LaidOut (className : String → Nat → String) (s : State) (i : SLib) : Prop where
  /-- A class of a domain has its fields where the offset says. -/
  agree : ∀ placed address d, ∀ lib ∈ (s.domain d).libs, lib.sharedLib = i →
    ∀ (k : Nat) (c : ClassDesc), (allClasses className placed s i)[k]? = some c →
      c.staticFieldsSize ≠ 0 →
      sfieldsAt address (s.domain d) i + 4 * c.sfieldOffset = staticFieldsAt address lib k
  /-- The classes do not share fields, and all fields are inside the block. -/
  disjoint : ∀ placed (k l : Nat) (c c' : ClassDesc), (allClasses className placed s i)[k]? = some c →
    (allClasses className placed s i)[l]? = some c' → k < l →
    c.staticFieldsSize ≠ 0 → c'.staticFieldsSize ≠ 0 →
      c.sfieldOffset.toInt + c.staticFieldsSize ≤ c'.sfieldOffset.toInt
  inside : ∀ placed (k : Nat) (c : ClassDesc), (allClasses className placed s i)[k]? = some c →
    c.staticFieldsSize ≠ 0 → 0 ≤ c.sfieldOffset.toInt ∧ c.sfieldOffset.toInt + c.staticFieldsSize ≤
      (memSizeStaticFields (s.slib i).staticFieldsSize).toInt
  /-- The code that uses the constants reaches the field: by the index of the library and the offset
  in words or in bytes. -/
  patched : ∀ placed (k : Nat) (c : ClassDesc), (allClasses className placed s i)[k]? = some c →
    ∀ f < c.staticFieldsSize, ∃ words index bytes,
      patchStaticFieldAddress className placed s ⟨c.name, 0, BitVec.ofNat 32 f⟩ = .ok words ∧
      patchStaticFieldAddress className placed s ⟨c.name, 1, BitVec.ofNat 32 f⟩ = .ok index ∧
      patchStaticFieldAddress className placed s ⟨c.name, 2, BitVec.ofNat 32 f⟩ = .ok bytes ∧
      ∀ address d, ∀ lib ∈ (s.domain d).libs, lib.sharedLib = i →
        let field := staticFieldsAt address lib k + 4 * BitVec.ofNat 32 f
        sfieldsAt address (s.domain d) (index.toNat / 4) + 4 * words = field ∧
          sfieldsAt address (s.domain d) (index.toNat / 4) + bytes = field

/-- No two classes of the libraries have one name, and none that of `java_lang_Object`. -/
structure UniqueNames (className : String → Nat → String) (s : State) : Prop where
  object : ∀ i ∈ s.sharedLibs, ∀ k < (s.slib i).staticFieldsSize.length,
    className (s.slib i).name k ≠ javaLangObject.name
  unique : ∀ i ∈ s.sharedLibs, ∀ j ∈ s.sharedLibs, ∀ k < (s.slib i).staticFieldsSize.length,
    ∀ l < (s.slib j).staticFieldsSize.length,
      className (s.slib i).name k = className (s.slib j).name l → i = j ∧ k = l

/-- A domain is not given a library that it has. -/
def New (s : State) : Call → Prop
  | .load d filename => Missing s d filename
  | .putstatic _ _ _ _ => True

/-! ## Adding up the sizes -/

/-- The words of the classes before the `k`-th one, without a bound. -/
def before (sizes : List Nat) (k : Nat) : Nat := (sizes.take k).sum

theorem before_le_sum (sizes : List Nat) (k : Nat) : before sizes k ≤ sizes.sum :=
  (List.take_sublist k sizes).sum_le_sum fun _ _ => Nat.zero_le _

theorem before_mono (sizes : List Nat) {k l : Nat} (h : k ≤ l) : before sizes k ≤ before sizes l :=
  (List.take_sublist_take_left h).sum_le_sum fun _ _ => Nat.zero_le _

/-- A class ends before the next one begins. -/
theorem before_add_le {sizes : List Nat} {k l : Nat} (hk : k < sizes.length) (h : k < l) :
    before sizes k + sizes[k] ≤ before sizes l := by
  have hsucc : before sizes (k + 1) = before sizes k + sizes[k] := List.sum_take_succ sizes k hk
  rw [← hsucc]
  exact before_mono sizes h

theorem before_add_le_sum {sizes : List Nat} {k : Nat} (hk : k < sizes.length) :
    before sizes k + sizes[k] ≤ sizes.sum :=
  Nat.le_trans (before_add_le hk (Nat.lt_succ_self k)) (before_le_sum sizes _)

theorem foldl_add_ofNat (sizes : List Nat) (mem : Nat) :
    sizes.foldl (fun mem size => mem + BitVec.ofNat 32 size) (BitVec.ofNat 32 mem) =
      BitVec.ofNat 32 (mem + sizes.sum) := by
  induction sizes generalizing mem with
  | nil => simp
  | cons size sizes ih =>
    rw [List.foldl_cons, ← BitVec.ofNat_add, ih, List.sum_cons, Nat.add_assoc]

theorem memSizeStaticFields_eq (sizes : List Nat) :
    memSizeStaticFields sizes = BitVec.ofNat 32 sizes.sum := by
  have := foldl_add_ofNat sizes 0
  rwa [Nat.zero_add] at this

/-- The `n`-th class that is read. -/
theorem readClasses_getElem? (name : Nat → String) (lib : SLib) (sizes : List Nat) (k off n : Nat) :
    (readClasses name lib k (BitVec.ofNat 32 off) sizes)[n]? =
      sizes[n]?.map fun size => ⟨name (k + n), some lib, size, BitVec.ofNat 32 (off + before sizes n)⟩ := by
  induction sizes generalizing k off n with
  | nil => rfl
  | cons size sizes ih =>
    rw [readClasses, ← BitVec.ofNat_add]
    cases n with
    | zero => simp [before]
    | succ n =>
      rw [List.getElem?_cons_succ, List.getElem?_cons_succ, ih]
      simp [before, Nat.add_assoc, Nat.add_comm 1 n]

/-- The block and the offset of a class in a domain. -/
theorem placeStatics_getElem? (sfield off : Nat) (sizes : List Nat) (n : Nat) :
    (placeStatics sfield off sizes)[n]? =
      sizes[n]?.map fun size => if size ≠ 0 then some (sfield, off + before sizes n) else none := by
  induction sizes generalizing off n with
  | nil => rfl
  | cons size sizes ih =>
    rw [placeStatics]
    cases n with
    | zero => simp [before]
    | succ n =>
      rw [List.getElem?_cons_succ, List.getElem?_cons_succ, ih]
      simp [before, Nat.add_assoc]

section

variable {className : String → Nat → String} {placed : SLib → Bool} {s : State} {i : SLib} {k : Nat}
  {c : ClassDesc}

/-- What a class of a library is. The offset of a class without static fields may have been cleared. -/
theorem allClasses_getElem? (hc : (allClasses className placed s i)[k]? = some c) :
    ∃ hk : k < (s.slib i).staticFieldsSize.length,
      c.name = className (s.slib i).name k ∧ c.definingLib = some i ∧
        c.staticFieldsSize = (s.slib i).staticFieldsSize[k] ∧
        (c.staticFieldsSize ≠ 0 →
          c.sfieldOffset = BitVec.ofNat 32 (before (s.slib i).staticFieldsSize k)) := by
  have hread : (readClasses (className (s.slib i).name) i 0 0 (s.slib i).staticFieldsSize)[k]? =
      (s.slib i).staticFieldsSize[k]?.map fun size => ⟨className (s.slib i).name k, some i, size,
        BitVec.ofNat 32 (before (s.slib i).staticFieldsSize k)⟩ := by
    have := readClasses_getElem? (className (s.slib i).name) i (s.slib i).staticFieldsSize 0 0 k
    rwa [Nat.zero_add, Nat.zero_add] at this
  unfold allClasses at hc
  by_cases hk : k < (s.slib i).staticFieldsSize.length
  · rw [List.getElem?_eq_getElem hk, Option.map_some] at hread
    refine ⟨hk, ?_⟩
    simp only at hc
    split_ifs at hc
    · rw [List.getElem?_map, hread, Option.map_some, Option.some_inj] at hc
      subst hc
      unfold ClassDesc.placed
      split_ifs with hsize
      · exact ⟨rfl, rfl, rfl, fun _ => rfl⟩
      · exact ⟨rfl, rfl, rfl, fun h => absurd h hsize⟩
    · obtain rfl := Option.some.inj (hread.symm.trans hc)
      exact ⟨rfl, rfl, rfl, fun _ => rfl⟩
  · rw [List.getElem?_eq_none (Nat.le_of_not_lt hk), Option.map_none] at hread
    simp only at hc
    split_ifs at hc
    · rw [List.getElem?_map, hread] at hc
      cases hc
    · rw [hread] at hc
      cases hc

/-- A class of a library is found under its name. -/
theorem findClassDesc_eq_some (hunique : UniqueNames className s) (hi : i ∈ s.sharedLibs)
    (hc : (allClasses className placed s i)[k]? = some c) :
    findClassDesc className placed s c.name = some c := by
  obtain ⟨hk, hname, -⟩ := allClasses_getElem? hc
  have hobject : c.name ≠ javaLangObject.name := hname ▸ hunique.object i hi k hk
  rw [findClassDesc, if_neg hobject]
  have hsome : (s.sharedLibs.findSome? fun i =>
      (allClasses className placed s i).find? (·.name = c.name)).isSome := by
    rw [List.findSome?_isSome_iff]
    refine ⟨i, hi, ?_⟩
    rw [List.find?_isSome]
    exact ⟨c, List.mem_of_getElem? hc, by simp⟩
  obtain ⟨c', hc'⟩ := Option.isSome_iff_exists.mp hsome
  -- what is found has the same name, so it is the same class of the same library
  obtain ⟨j, hj, hfind⟩ := List.exists_of_findSome?_eq_some hc'
  have hsame : c'.name = c.name := by simpa using List.find?_some hfind
  obtain ⟨l, hl⟩ := List.mem_iff_getElem?.mp (List.mem_of_find?_eq_some hfind)
  obtain ⟨hl', hname', -⟩ := allClasses_getElem? hl
  obtain ⟨rfl, rfl⟩ := hunique.unique j hj i hi l hl' k hk (hname'.symm.trans (hsame.trans hname))
  rw [hc', ← hl, hc]

end

/-! ## The domains -/

section Domain

variable {s s' : State} {d : Nat} {i : SLib}

/-- What every state has. The block of a library is the one after the library itself, and the domain
keeps the block of the library that it got last. -/
structure Placed (s : State) : Prop where
  table : Table s
  max : ∀ d, ∀ lib ∈ (s.domain d).libs, lib.sharedLib < maxNumberOfLibs
  shared : ∀ d, ∀ lib ∈ (s.domain d).libs, lib.sharedLib < s.sharedLibsIndexNumber
  statics : ∀ d, ∀ lib ∈ (s.domain d).libs, lib.staticFields =
    placeStatics (lib.address + 1) 0 (s.slib lib.sharedLib).staticFieldsSize
  allocated : ∀ d, ∀ lib ∈ (s.domain d).libs, lib.address < s.allocated
  address : ∀ d, ∀ lib ∈ (s.domain d).libs, ∀ lib' ∈ (s.domain d).libs,
    lib.address = lib'.address → lib = lib'
  sfields : ∀ d lib, ((s.domain d).libs.filter (·.sharedLib = lib.sharedLib)).getLast? = some lib →
    (s.slib lib.sharedLib).memSizeStaticFields ≠ 0 →
      (s.domain d).sfields lib.sharedLib = some (lib.address + 1)

/-- The block that `insertLib` makes is the one of the domain. -/
theorem insertLib_sfields {lib : LibDesc} (h : insertLib s d i = pure (lib, s'))
    (hmem : (s.slib i).memSizeStaticFields ≠ 0) :
    (s'.domain d).sfields i = some (s.allocated + 1) := by
  unfold insertLib at h
  simp only at h
  split_ifs at h
  · cases h
  · cases h
    simp only [Function.update_self]
  · cases h

theorem insertLib_placed {lib : LibDesc} (hs : Placed s) (hi : i < s.sharedLibsIndexNumber)
    (h : insertLib s d i = pure (lib, s')) : Placed s' := by
  obtain ⟨himax, hlib, hsame, halloc, hothers, hlibs, -, hsfields⟩ := insertLib_eq_pure h
  have hshared : lib.sharedLib = i := by rw [hlib]
  have haddress : lib.address = s.allocated := by rw [hlib]
  -- a library of a domain was there before, or is the new one
  have hcases : ∀ e, ∀ x ∈ (s'.domain e).libs, x ∈ (s.domain e).libs ∨ e = d ∧ x = lib := by
    intro e x hx
    by_cases he : e = d
    · subst he
      rw [hlibs] at hx
      exact (List.mem_append.mp hx).imp_right fun hlast => ⟨rfl, List.mem_singleton.mp hlast⟩
    · rw [hothers e he] at hx
      exact .inl hx
  refine ⟨?_, ?_, ?_, ?_, ?_, ?_, ?_⟩
  · obtain ⟨hlisted, hnames, hneeded⟩ := hs.table
    unfold Listed at hlisted
    constructor
    · unfold Listed
      rw [hsame.sharedLibs, hsame.sharedLibsIndexNumber, hlisted]
    · rwa [hsame.slib, hsame.sharedLibsIndexNumber]
    · rwa [hsame.slib, hsame.sharedLibsIndexNumber]
  · intro e x hx
    obtain hold | ⟨-, rfl⟩ := hcases e x hx
    · exact hs.max e x hold
    · exact hshared ▸ himax
  · intro e x hx
    rw [hsame.sharedLibsIndexNumber]
    obtain hold | ⟨-, rfl⟩ := hcases e x hx
    · exact hs.shared e x hold
    · exact hshared ▸ hi
  · intro e x hx
    rw [hsame.slib]
    obtain hold | ⟨-, rfl⟩ := hcases e x hx
    · exact hs.statics e x hold
    · rw [hlib]
  · intro e x hx
    obtain hold | ⟨-, rfl⟩ := hcases e x hx
    · have := hs.allocated e x hold
      omega
    · omega
  · intro e x hx y hy hxy
    obtain hold | ⟨rfl, rfl⟩ := hcases e x hx
    · obtain hold' | ⟨rfl, rfl⟩ := hcases e y hy
      · exact hs.address e x hold y hold' hxy
      · have := hs.allocated e x hold
        omega
    · obtain hold' | ⟨-, rfl⟩ := hcases _ y hy
      · have := hs.allocated _ y hold'
        omega
      · rfl
  · intro e x hx hmem
    rw [hsame.slib] at hmem
    by_cases he : e = d
    · subst he
      rw [hlibs, List.filter_append] at hx
      by_cases hxi : x.sharedLib = i
      · -- the last library with this index is the new one
        have hnew : [lib].filter (·.sharedLib = x.sharedLib) = [lib] := by simp [hshared, hxi]
        rw [hnew, List.getLast?_concat, Option.some_inj] at hx
        subst hx
        rw [hshared] at hmem ⊢
        rw [insertLib_sfields h hmem, haddress]
      · have hne : lib.sharedLib ≠ x.sharedLib := fun heq => hxi (heq.symm.trans hshared)
        have hnew : [lib].filter (·.sharedLib = x.sharedLib) = [] := by simp [hne]
        rw [hnew, List.append_nil] at hx
        have hold := hs.sfields e x hx hmem
        obtain ⟨hsf, -⟩ | ⟨hsf, -⟩ := hsfields
        · rw [hsf, hold]
        · rw [hsf, Function.update_of_ne hxi, hold]
    · rw [hothers e he] at hx ⊢
      exact hs.sfields e x hx hmem

/-- The loop over the needed libraries. -/
theorem loadMissing_placed {loadOne : State → SLib → Exec (LibDesc × State)} {l : List SLib}
    (hone : ∀ j ∈ l, ∀ (s s' : State) lib, Placed s → j < s.sharedLibsIndexNumber →
      loadOne s j = pure (lib, s') → Placed s' ∧ SameShared s s') :
    ∀ {s s' : State}, Placed s → (∀ j ∈ l, j < s.sharedLibsIndexNumber) →
      loadMissing loadOne d s l = pure s' → Placed s' ∧ SameShared s s' := by
  induction l with
  | nil =>
    intro s s' hs _ h
    cases h
    exact ⟨hs, SameShared.refl s⟩
  | cons j rest ih =>
    intro s s' hs hl h
    have hrest := fun {s s' : State} => @ih (fun x hx => hone x (List.mem_cons_of_mem j hx)) s s'
    obtain ⟨found, -, h⟩ := bind_eq_pure h
    cases found with
    | some _ => exact hrest hs (fun x hx => hl x (List.mem_cons_of_mem j hx)) h
    | none =>
      obtain ⟨⟨lib, s₁⟩, hcall, h⟩ := bind_eq_pure h
      obtain ⟨hs₁, hsame⟩ := hone j List.mem_cons_self s s₁ lib hs (hl j List.mem_cons_self) hcall
      have hl₁ : ∀ x ∈ rest, x < s₁.sharedLibsIndexNumber := by
        intro x hx
        rw [hsame.sharedLibsIndexNumber]
        exact hl x (List.mem_cons_of_mem j hx)
      obtain ⟨hs', hsame'⟩ := hrest hs₁ hl₁ h
      exact ⟨hs', hsame.trans hsame'⟩

/-- `loadLib` places the library and those it needs. -/
theorem loadLib_placed {fuel : Nat} : ∀ (i : SLib) (s s' : State) lib, Placed s →
    i < s.sharedLibsIndexNumber → loadLib d fuel s i = pure (lib, s') →
      Placed s' ∧ SameShared s s' := by
  induction fuel with
  | zero =>
    intro i s s' lib _ _ h
    cases h
  | succ fuel ih =>
    intro i s s' lib hs hi h
    obtain ⟨s₁, hmissing, hinsert⟩ := bind_eq_pure h
    obtain ⟨hs₁, hsame⟩ := loadMissing_placed (fun j _ => ih j) hs
      (fun j hj => Nat.lt_trans (hs.table.needed i hi j hj) hi) hmissing
    have hi₁ : i < s₁.sharedLibsIndexNumber := by rwa [hsame.sharedLibsIndexNumber]
    exact ⟨insertLib_placed hs₁ hi₁ hinsert, hsame.trans (insertLib_eq_pure hinsert).2.2.1⟩

end Domain

/-! ## Every call of every run -/

section Runs

variable {files : CodeFiles} {s s' : State} {d : Nat} {name : String}

theorem Placed.empty : Placed State.empty := by
  refine ⟨Recorded.empty.table, ?_, ?_, ?_, ?_, ?_, ?_⟩
  all_goals first
    | exact fun d lib hlib => absurd hlib List.not_mem_nil
    | exact fun d lib hlib => absurd hlib (by simp [State.empty])

/-- The shared parts that are made do not change those that domains have. -/
theorem Placed.grown (hs : Placed s) {names : List String} {loaded : String → Prop}
    (hgrown : Grown files loaded names s s') : Placed s' := by
  have hslib : ∀ d, ∀ lib ∈ (s.domain d).libs, s'.slib lib.sharedLib = s.slib lib.sharedLib :=
    fun d lib hlib => hgrown.slib _ (hs.shared d lib hlib)
  refine ⟨hgrown.table, ?_, ?_, ?_, ?_, ?_, ?_⟩
  · rw [hgrown.domain]
    exact hs.max
  · rw [hgrown.domain]
    exact fun d lib hlib => Nat.lt_of_lt_of_le (hs.shared d lib hlib) hgrown.le
  · rw [hgrown.domain]
    intro d lib hlib
    rw [hslib d lib hlib]
    exact hs.statics d lib hlib
  · rw [hgrown.domain, hgrown.allocated]
    exact hs.allocated
  · rw [hgrown.domain]
    exact hs.address
  · rw [hgrown.domain]
    intro d lib hlast hmem
    rw [hslib d lib (List.mem_of_mem_filter (List.mem_of_getLast? hlast))] at hmem
    exact hs.sfields d lib hlast hmem

theorem Placed.step (hclosed : Closed files) {allowed : State → Call → Prop} (hs : Placed s)
    (hstep : Step files allowed s s') : Placed s' := by
  cases hstep with
  | load _ hret =>
    obtain ⟨i, s₁, -, hgrown, hi, -, -, n, hn⟩ := load_parts hclosed hs.table hret
    exact (loadLib_placed i s₁ s' _ (hs.grown hgrown) hi (hn n (Nat.le_refl n))).1
  | putstatic d slib offset value =>
    unfold Load.putstatic
    split
    · exact hs
    · obtain ⟨htable, hmax, hshared, hstatics, hallocated, haddress, hsfields⟩ := hs
      exact ⟨⟨htable.listed, htable.names, htable.needed⟩, hmax, hshared, hstatics, hallocated,
        haddress, hsfields⟩

theorem Placed.of_run (hclosed : Closed files) {allowed : State → Call → Prop}
    (hrun : ReflTransGen (Step files allowed) State.empty s) : Placed s :=
  invariant_of_run (I := Placed) (fun _ _ hs hstep => hs.step hclosed hstep) hrun Placed.empty

/-- The domain has the library once. -/
def Once (s : State) (i : SLib) (d : Nat) : Prop :=
  ∀ lib ∈ (s.domain d).libs, ∀ lib' ∈ (s.domain d).libs,
    lib.sharedLib = i → lib'.sharedLib = i → lib = lib'

theorem Once.getLast? {lib : LibDesc} (h : Once s lib.sharedLib d) (hlib : lib ∈ (s.domain d).libs) :
    ((s.domain d).libs.filter (·.sharedLib = lib.sharedLib)).getLast? = some lib := by
  have hmem : lib ∈ (s.domain d).libs.filter (·.sharedLib = lib.sharedLib) := by simp [hlib]
  have hsome : ((s.domain d).libs.filter (·.sharedLib = lib.sharedLib)).getLast? ≠ none :=
    fun hnone => List.ne_nil_of_mem hmem (List.getLast?_eq_none_iff.mp hnone)
  obtain ⟨x, hx⟩ := Option.ne_none_iff_exists'.mp hsome
  obtain ⟨hxlib, hxi⟩ := List.mem_filter.mp (List.mem_of_getLast? hx)
  rw [hx, h x hxlib lib hlib (by simpa using hxi) rfl]

theorem sum_ne_zero {sizes : List Nat} {k : Nat} (hk : k < sizes.length) (hsize : sizes[k] ≠ 0) :
    sizes.sum ≠ 0 := by
  have hle := before_add_le_sum hk
  omega

/-- The address of a class with static fields. -/
theorem Placed.staticFieldsAt {lib : LibDesc} (hs : Placed s) (hlib : lib ∈ (s.domain d).libs)
    (address : Nat → Word) {k : Nat} (hk : k < (s.slib lib.sharedLib).staticFieldsSize.length)
    (hsize : (s.slib lib.sharedLib).staticFieldsSize[k] ≠ 0) :
    staticFieldsAt address lib k = address (lib.address + 1) +
      4 * BitVec.ofNat 32 (before (s.slib lib.sharedLib).staticFieldsSize k) := by
  have hget : lib.staticFields[k]? =
      some (some (lib.address + 1, before (s.slib lib.sharedLib).staticFieldsSize k)) := by
    rw [hs.statics d lib hlib, placeStatics_getElem?, List.getElem?_eq_getElem hk, Option.map_some,
      if_pos hsize, Nat.zero_add]
  rw [StaticFields.staticFieldsAt, List.getD_eq_getElem?_getD, hget]
  rfl

/-- It is in the block of the domain, if the domain got no other instance of the library later. -/
theorem Placed.agree {lib : LibDesc} (hs : Placed s) (hlib : lib ∈ (s.domain d).libs)
    (honce : Once s lib.sharedLib d) (address : Nat → Word) {k : Nat}
    (hk : k < (s.slib lib.sharedLib).staticFieldsSize.length)
    (hsize : (s.slib lib.sharedLib).staticFieldsSize[k] ≠ 0) :
    sfieldsAt address (s.domain d) lib.sharedLib +
        4 * BitVec.ofNat 32 (before (s.slib lib.sharedLib).staticFieldsSize k) =
      StaticFields.staticFieldsAt address lib k := by
  have hmem : (s.slib lib.sharedLib).memSizeStaticFields ≠ 0 := sum_ne_zero hk hsize
  rw [hs.staticFieldsAt hlib address hk hsize, sfieldsAt,
    hs.sfields d lib (honce.getLast? hlib) hmem, Option.elim_some]

theorem toInt_ofNat_of_lt {n : Nat} (hn : n < 2 ^ 31) : (BitVec.ofNat 32 n).toInt = n := by
  have hnat : (BitVec.ofNat 32 n).toNat = n := by
    rw [BitVec.toNat_ofNat]
    omega
  rw [BitVec.toInt_eq_toNat_of_lt (by omega), hnat]

/-- The constant for the index of a library, as the entry of the table. -/
theorem ofNat_mul_four_div (n : Nat) (hn : n < 100) : (BitVec.ofNat 32 n * 4).toNat / 4 = n := by
  rw [BitVec.toNat_mul, BitVec.toNat_ofNat]
  simp only [BitVec.reduceToNat]
  omega

/-- The constants for a field of a class. -/
theorem patchStaticFieldAddress_of_find {className : String → Nat → String} {placed : SLib → Bool}
    {c : ClassDesc} {i : SLib} (hfind : findClassDesc className placed s c.name = some c)
    (hlib : c.definingLib = some i) (hi : i < s.sharedLibsIndexNumber) (field : Word) :
    patchStaticFieldAddress className placed s ⟨c.name, 0, field⟩ = .ok (c.sfieldOffset + field) ∧
      patchStaticFieldAddress className placed s ⟨c.name, 1, field⟩ = .ok (BitVec.ofNat 32 i * 4) ∧
      patchStaticFieldAddress className placed s ⟨c.name, 2, field⟩ =
        .ok ((c.sfieldOffset + field) * 4) := by
  have hle : ¬ i > s.sharedLibsIndexNumber := Nat.not_lt.mpr (Nat.le_of_lt hi)
  refine ⟨?_, ?_, ?_⟩
  · simp only [patchStaticFieldAddress, hfind, hlib]
    rfl
  · simp only [patchStaticFieldAddress, hfind, hlib, if_neg hle]
    rfl
  · simp only [patchStaticFieldAddress, hfind, hlib]
    rfl

/-- A library with static fields that every domain has once, and with fewer than `2 ^ 31` words. -/
theorem Placed.laidOut {className : String → Nat → String} (hs : Placed s)
    (hunique : UniqueNames className s) {i : SLib} (hi : i ∈ s.sharedLibs)
    (hsum : (s.slib i).staticFieldsSize.sum < 2 ^ 31)
    (honce : (s.slib i).staticFieldsSize.sum ≠ 0 → ∀ d, Once s i d) : LaidOut className s i := by
  refine ⟨?_, ?_, ?_, ?_⟩
  · intro placed address d lib hlib hi' k c hc hsize
    subst hi'
    obtain ⟨hk, -, -, hsz, hoff⟩ := allClasses_getElem? hc
    rw [hoff hsize]
    rw [hsz] at hsize
    exact hs.agree hlib (honce (sum_ne_zero hk hsize) d) address hk hsize
  · intro placed k l c c' hc hc' hkl hsize hsize'
    obtain ⟨hk, -, -, hsz, hoff⟩ := allClasses_getElem? hc
    obtain ⟨hl, -, -, -, hoff'⟩ := allClasses_getElem? hc'
    have hle := before_add_le hk hkl
    have hk' := before_le_sum (s.slib i).staticFieldsSize k
    have hl' := before_le_sum (s.slib i).staticFieldsSize l
    rw [hoff hsize, hoff' hsize', toInt_ofNat_of_lt (by omega), toInt_ofNat_of_lt (by omega), hsz]
    omega
  · intro placed k c hc hsize
    obtain ⟨hk, -, -, hsz, hoff⟩ := allClasses_getElem? hc
    have hle := before_add_le_sum hk
    rw [hoff hsize, memSizeStaticFields_eq, toInt_ofNat_of_lt (by omega), toInt_ofNat_of_lt hsum, hsz]
    omega
  · intro placed k c hc f hf
    obtain ⟨hk, -, hlib, hsz, hoff⟩ := allClasses_getElem? hc
    have hsize : c.staticFieldsSize ≠ 0 := by omega
    obtain ⟨hwords, hindex, hbytes⟩ := patchStaticFieldAddress_of_find
      (findClassDesc_eq_some hunique hi hc) hlib (hs.table.listed.mem.mp hi) (BitVec.ofNat 32 f)
    refine ⟨_, _, _, hwords, hindex, hbytes, ?_⟩
    intro address d lib hlib' hi'
    subst hi'
    rw [ofNat_mul_four_div _ (hs.max d lib hlib'), hoff hsize]
    rw [hsz] at hsize
    have hagree := hs.agree hlib' (honce (sum_ne_zero hk hsize) d) address hk hsize
    simp only
    rw [← hagree]
    constructor
    · rw [BitVec.mul_add, BitVec.add_assoc]
    · rw [BitVec.mul_comm, BitVec.mul_add, BitVec.add_assoc]

/-- The first class that reaches a bound. -/
theorem exists_crossing {sizes : List Nat} {bound : Nat} (hpos : 0 < bound)
    (hsum : bound ≤ sizes.sum) :
    ∃ k, ∃ hk : k < sizes.length, before sizes k < bound ∧ bound ≤ before sizes k + sizes[k] := by
  induction sizes generalizing bound with
  | nil => exact absurd hsum (Nat.not_le.mpr hpos)
  | cons size sizes ih =>
    rw [List.sum_cons] at hsum
    by_cases hsize : bound ≤ size
    · exact ⟨0, Nat.succ_pos _, by simpa [before] using hpos, by simpa [before] using hsize⟩
    · obtain ⟨k, hk, hlt, hle⟩ := @ih (bound - size) (by omega) (by omega)
      have hbefore : before (size :: sizes) (k + 1) = size + before sizes k := by simp [before]
      refine ⟨k + 1, Nat.succ_lt_succ hk, ?_, ?_⟩
      · rw [hbefore]
        omega
      · rw [hbefore, List.getElem_cons_succ]
        omega

/-- The class at a place of the code file, before a domain has got the library. -/
theorem allClasses_of_lt (className : String → Nat → String) (s : State) (i : SLib) {k : Nat}
    (hk : k < (s.slib i).staticFieldsSize.length) :
    (allClasses className (fun _ => false) s i)[k]? = some ⟨className (s.slib i).name k, some i,
      (s.slib i).staticFieldsSize[k], BitVec.ofNat 32 (before (s.slib i).staticFieldsSize k)⟩ := by
  have := readClasses_getElem? (className (s.slib i).name) i (s.slib i).staticFieldsSize 0 0 k
  rw [Nat.zero_add, Nat.zero_add, List.getElem?_eq_getElem hk] at this
  exact this

/-- **In every state that loading leads to, the static fields of a library are where the offsets say
exactly if they have fewer than `2 ^ 31` words and no domain has the library twice.** -/
theorem laidOut_iff {className : String → Nat → String} (hclosed : Closed files)
    (hreach : Reach files s) (hunique : UniqueNames className s) {i : SLib} (hi : i ∈ s.sharedLibs) :
    LaidOut className s i ↔ (s.slib i).staticFieldsSize.sum < 2 ^ 31 ∧
      ((s.slib i).staticFieldsSize.sum ≠ 0 → ∀ d, Once s i d) := by
  have hs : Placed s := Placed.of_run hclosed hreach
  constructor
  · intro h
    constructor
    · by_contra hlarge
      obtain ⟨k, hk, hlt, hle⟩ := exists_crossing (by decide) (Nat.not_lt.mp hlarge)
      have hsize : (s.slib i).staticFieldsSize[k] ≠ 0 := by omega
      obtain ⟨-, hinside⟩ := h.inside _ k _ (allClasses_of_lt className s i hk) hsize
      have hmax := @BitVec.toInt_lt 32 (memSizeStaticFields (s.slib i).staticFieldsSize)
      rw [toInt_ofNat_of_lt hlt] at hinside
      simp only at hinside
      omega
    · intro hsum d lib hlib lib' hlib' hi₁ hi₂
      obtain ⟨k, hk, hlt, hle⟩ := exists_crossing (Nat.succ_pos 0) (Nat.pos_of_ne_zero hsum)
      have hclass := allClasses_of_lt className s i hk
      have hsize : (s.slib i).staticFieldsSize[k] ≠ 0 := by omega
      -- an address that tells the blocks of the two instances apart
      have hat := fun x hx hxi => h.agree (fun _ => false)
        (fun b => if b = lib.address + 1 then 0 else 1) d x hx hxi k _ hclass hsize
      have heq := (hat lib hlib hi₁).symm.trans (hat lib' hlib' hi₂)
      subst hi₁
      rw [hs.staticFieldsAt hlib _ hk hsize, hs.staticFieldsAt hlib' _ (hi₂ ▸ hk) (by simpa [hi₂])] at heq
      simp only [hi₂] at heq
      have hblock := add_right_cancel heq
      apply hs.address d lib hlib lib' hlib'
      by_contra hne
      rw [if_pos trivial, if_neg (by omega)] at hblock
      exact absurd hblock (by decide)
  · rintro ⟨hsum, honce⟩
    exact hs.laidOut hunique hi hsum honce

/-- A run in which no domain is given a library twice. -/
theorem once_of_run (hclosed : Closed files) (hrun : ReflTransGen (Step files New) State.empty s)
    (i : SLib) (d : Nat) : Once s i d := by
  have hindexed : Indexed s := by
    refine invariant_of_run (I := Indexed) (fun _ _ hs hstep => ?_) hrun Indexed.empty
    cases hstep with
    | load hnew hret => exact hs.load hclosed hnew hret
    | putstatic d slib offset value => exact hs.putstatic d slib offset value
  intro lib hlib lib' hlib' hi hi'
  exact List.inj_on_of_nodup_map (hindexed.exact d).nodup hlib hlib' (hi.trans hi'.symm)

/-- **In every run in which no domain is given a library twice, the static fields of a library with
fewer than `2 ^ 31` words of them are where the offsets say.** -/
theorem laidOut_of_run {className : String → Nat → String} (hclosed : Closed files)
    (hrun : ReflTransGen (Step files New) State.empty s) (hunique : UniqueNames className s)
    {i : SLib} (hi : i ∈ s.sharedLibs) (hsum : (s.slib i).staticFieldsSize.sum < 2 ^ 31) :
    LaidOut className s i :=
  (Placed.of_run hclosed hrun).laidOut hunique hi hsum fun _ => once_of_run hclosed hrun i

/-- The classes of the example files: one of `zero.jll` and two of `jdk0.jll`. -/
def exampleNames (lib : String) (k : Nat) : String := lib ++ if k = 0 then "/A" else "/B"

/-- Domain 0 loads `jdk0.jll` and with it `zero.jll`. -/
theorem laidOut_exampleFiles : ∃ s, ReflTransGen (Step exampleFiles New) State.empty s ∧
    ((s.domain 0).libs.map fun lib => (s.slib lib.sharedLib).name) = ["zero.jll", "jdk0.jll"] ∧
    LaidOut exampleNames s 0 ∧ LaidOut exampleNames s 1 := by
  have hnew : New State.empty (.load 0 "jdk0.jll") := fun lib hlib => absurd hlib List.not_mem_nil
  have hrun := ReflTransGen.single (Step.load hnew
    (show Returns (load exampleFiles State.empty 0 "jdk0.jll") _ from ⟨4, fun fuel hfuel => by
      obtain ⟨k, rfl⟩ := Nat.exists_eq_add_of_le' hfuel
      rfl⟩))
  refine ⟨_, hrun, rfl, ?_, ?_⟩
  · exact laidOut_of_run exampleFiles_closed hrun ⟨by decide, by decide⟩ (by decide) (by decide)
  · exact laidOut_of_run exampleFiles_closed hrun ⟨by decide, by decide⟩ (by decide) (by decide)

/-- A domain that loads a library a second time has the classes of the first instance elsewhere. -/
theorem not_laidOut_twice : ∃ s, Reach exampleFiles s ∧ UniqueNames exampleNames s ∧
    ∃ i ∈ s.sharedLibs, ¬ LaidOut exampleNames s i := by
  have h₁ : Reach exampleFiles _ := ReflTransGen.single (Step.load trivial
    (show Returns (load exampleFiles State.empty 0 "zero.jll") _ from ⟨4, fun fuel hfuel => by
      obtain ⟨k, rfl⟩ := Nat.exists_eq_add_of_le' hfuel
      rfl⟩))
  have h₂ : Reach exampleFiles _ := h₁.tail (Step.load trivial
    (show Returns (load exampleFiles _ 0 "zero.jll") _ from ⟨4, fun fuel hfuel => by
      obtain ⟨k, rfl⟩ := Nat.exists_eq_add_of_le' hfuel
      rfl⟩))
  refine ⟨_, h₂, ⟨by decide, by decide⟩, 0, by decide, fun h => ?_⟩
  have honce := ((laidOut_iff exampleFiles_closed h₂ ⟨by decide, by decide⟩ (by decide)).mp h).2
    (by decide) 0
  exact absurd (honce ⟨0, 0, [some (1, 0)]⟩ (by decide) ⟨2, 0, [some (3, 0)]⟩ (by decide) rfl rfl)
    (by decide)

end Runs

end JxCore.StaticFields
