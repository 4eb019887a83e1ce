import JxCore.Core.CodeFileDecode
import JxCore.Core.Link
import JxCore.Lib.Footprint

/-!
# Where the linker writes

The loader checks each symbol with the number of bytes that the file gives, and the linker writes as
many bytes as the kind of the symbol takes. So the linker stays inside the method only if the holes of
its symbols do, and it stays inside the kernel's tables only if the operations do.
-/

namespace JxCore.Link

open CodeFile (Str JInt Byte SymbolKind SymbolDesc MethodDesc SharedLibDesc)
open Lib (Patch)
open Lib.Reader

/-! ## What the loader accepts -/

/-- What the linker may rely on when it gets a method. -/
structure Accepted (m : MethodDesc) : Prop where
  codeBytes_nonneg : 0 ≤ m.numberOfCodeBytes.toInt
  sizeOfExceptionTable : m.sizeOfExceptionTable = CodeFile.sizeOfExceptionTable m.symbols.entries

theorem readMethod_accepted (strings : List (List Byte)) (codeOffset : JInt) :
    Yields (CodeFile.readMethod strings codeOffset) fun p => Accepted p.1 := by
  refine Yields.skip fun name => Yields.skip fun signature => Yields.skip fun sizeLocalVars =>
    Yields.skip fun numberOfCodeBytes => (Yields.lift _).bind fun _ hcheck => ?_
  have hsize : 0 ≤ numberOfCodeBytes.toInt := by
    unfold CodeFile.require at hcheck
    split at hcheck
    · assumption
    · cases hcheck
  refine Yields.skip fun _ => Yields.skip fun _ => Yields.skip fun _ => Yields.skip fun _ =>
    Yields.skip fun _ => Yields.skip fun _ => Yields.skip fun _ => Yields.skip fun _ => ?_
  exact Yields.pure ⟨hsize, rfl⟩

theorem readClass_accepted (findClassDesc : Str → Option Nat) (strings : List (List Byte))
    (s : CodeFile.Progress) :
    Yields (CodeFile.readClass findClassDesc strings s) fun p =>
      ∀ m ∈ p.1.methods.entries, Accepted m := by
  refine Yields.skip fun _ => Yields.skip fun _ => Yields.skip fun _ => Yields.skip fun _ =>
    Yields.skip fun _ => Yields.skip fun _ => Yields.skip fun _ => Yields.skip fun _ =>
    Yields.skip fun _ => Yields.skip fun _ => Yields.skip fun _ => Yields.skip fun _ =>
    Yields.skip fun _ => Yields.skip fun _ => Yields.skip fun _ => Yields.skip fun _ =>
    Yields.skip fun _ => ?_
  refine (Yields.scan (readMethod_accepted strings) _ _).bind fun methods hmethods => ?_
  exact Yields.pure hmethods

/-- Every method of a library that was loaded. -/
theorem loadSharedLibrary_accepted (k : CodeFile.Kernel) (free : Nat) :
    Yields (CodeFile.loadSharedLibrary k free) fun p =>
      ∀ c ∈ p.1.allClasses.entries, ∀ m ∈ c.methods.entries, Accepted m := by
  refine Yields.skip fun _ => Yields.skip fun strings => Yields.skip fun _ => ?_
  have hclasses : Yields (CodeFile.readClasses k strings free) fun p =>
      ∀ c ∈ p.1.entries, ∀ m ∈ c.methods.entries, Accepted m := by
    refine Yields.skip fun _ => ?_
    have hscan := Yields.scan (P := fun c : CodeFile.ClassDesc => ∀ m ∈ c.methods.entries, Accepted m)
      (readClass_accepted k.findClassDesc strings)
    exact (hscan _ _).bind fun p hp => Yields.pure hp
  refine hclasses.bind fun p hp => Yields.skip fun _ => ?_
  exact Yields.pure hp

/-! ## Inside the method and inside the tables -/

/-- The hole of the symbol is in the code. -/
def HoleInside (numberOfCodeBytes : JInt) (s : SymbolDesc Str) : Prop :=
  width s.kind = 0 ∨ 0 ≤ s.immediateNCIndex.toInt ∧
    s.immediateNCIndex.toInt + width s.kind ≤ numberOfCodeBytes.toInt

/-- The operation is one that the kernel has. -/
def OperationInside (K : Kernel) : SymbolKind Str → Prop
  | .longArithmetic operation => 0 ≤ operation.toInt ∧ operation.toInt < longopsLength
  | .vmSupport operation => operation.toInt < K.numberVMOperations
  | .vmAbsolute operation => operation.toInt < K.numberVMOperations
  | _ => True

/-- The symbol keeps the linker inside. -/
def SymbolInside (K : Kernel) (m : MethodDesc) (s : SymbolDesc Str) : Prop :=
  HoleInside m.numberOfCodeBytes s ∧ OperationInside K s.kind

/-- An address in the code of the method. -/
def InMethod (code : JInt) (m : MethodDesc) (a : JInt) : Prop :=
  (a - code).toNat < m.numberOfCodeBytes.toNat

/-- An index in the table. -/
def InTable (K : Kernel) (m : MethodDesc) : Table × Int → Prop
  | (.longops, i) => 0 ≤ i ∧ i < longopsLength
  | (.vmsupport, i) => 0 ≤ i ∧ i < K.numberVMOperations
  | (.exceptionTable, i) => 0 ≤ i ∧ i < m.sizeOfExceptionTable

/-- Everything that was written is in the code of the method, and every table access was in range. -/
structure Inside {K : Kernel} (code : JInt) (m : MethodDesc) (l : Linking K) : Prop where
  writes : ∀ a ∈ l.writes, InMethod code m a
  accesses : ∀ x ∈ l.accesses, InTable K m x

/-! ## One hole -/

theorem toNat_eq_toInt {n : JInt} (h : 0 ≤ n.toInt) : n.toNat = n.toInt.toNat := by
  rcases Lib.toInt_cases n with ⟨-, hn⟩ | ⟨-, -, hn⟩ <;> omega

/-- The first byte decides on the sign, and the last one on the end. -/
theorem hole_inside_iff {i n : JInt} {w : Nat} (hw : 0 < w) (hw4 : w ≤ 4) (hn : 0 ≤ n.toInt) :
    (∀ j < w, (i + BitVec.ofNat 32 j).toNat < n.toNat) ↔
      0 ≤ i.toInt ∧ i.toInt + w ≤ n.toInt := by
  have hnat := toNat_eq_toInt hn
  have hsmall : n.toInt < 2 ^ 31 := by
    rcases Lib.toInt_cases n with ⟨hlt, heq⟩ | ⟨-, hlt, heq⟩ <;> omega
  have hadd : ∀ j < w, (i + BitVec.ofNat 32 j).toNat = (i.toNat + j) % 2 ^ 32 := by
    intro j hj
    rw [BitVec.toNat_add, BitVec.toNat_ofNat, Nat.mod_eq_of_lt (by omega : j < 2 ^ 32)]
  constructor
  · intro h
    have hfirst := h 0 hw
    have hlast := h (w - 1) (by omega)
    rw [hadd 0 hw] at hfirst
    rw [hadd (w - 1) (by omega)] at hlast
    rcases Lib.toInt_cases i with ⟨hlt, heq⟩ | ⟨hge, hlt, heq⟩ <;> omega
  · rintro ⟨hpos, hend⟩ j hj
    rw [hadd j hj]
    rcases Lib.toInt_cases i with ⟨hlt, heq⟩ | ⟨hge, hlt, heq⟩ <;> omega

/-- The bytes of one patch. -/
theorem written_inside_iff {code : JInt} {m : MethodDesc} {p : Patch} (hm : Accepted m)
    (hw : 0 < p.bytes.length) (hw4 : p.bytes.length ≤ 4) :
    (∀ a ∈ written code p, InMethod code m a) ↔
      0 ≤ p.offset.toInt ∧ p.offset.toInt + p.bytes.length ≤ m.numberOfCodeBytes.toInt := by
  rw [← hole_inside_iff hw hw4 hm.codeBytes_nonneg]
  have hsub : ∀ j, code + p.offset + BitVec.ofNat 32 j - code = p.offset + BitVec.ofNat 32 j := by
    intro j
    rw [BitVec.add_assoc, BitVec.add_comm, BitVec.add_sub_cancel]
  constructor
  · intro h j hj
    have hin := h (code + p.offset + BitVec.ofNat 32 j)
      (List.mem_map.mpr ⟨j, List.mem_range.mpr hj, rfl⟩)
    rwa [InMethod, hsub] at hin
  · intro h a ha
    obtain ⟨j, hj, rfl⟩ := List.mem_map.mp ha
    rw [InMethod, hsub]
    exact h j (List.mem_range.mp hj)

/-! ## All symbols -/

/-- A symbol that does not make the linker panic uses table entries that are there exactly if its
operation is. -/
theorem resolve_accesses {K : Kernel} {m : MethodDesc} {kind : SymbolKind Str} {s s' : State K}
    {exCount : Nat} {r : Resolved}
    (hex : kind.isExceptionTable = true → exCount < m.sizeOfExceptionTable)
    (h : resolve s exCount kind = .ok (r, s')) :
    (∀ x ∈ r.accesses, InTable K m x) ↔ OperationInside K kind := by
  have hvm : ∀ {operation : JInt} {wrong : String} {make : JInt → Value} {r : Resolved},
      vmsupport s operation wrong make = .ok r →
      ((∀ x ∈ r.accesses, InTable K m x) ↔ operation.toInt < K.numberVMOperations) := by
    intro operation wrong make r hr
    obtain ⟨hpos, -, rfl⟩ := vmsupport_eq_ok hr
    have hnat := toNat_eq_toInt (Int.le_of_lt hpos)
    constructor
    · intro hin
      exact (hin (.vmsupport, operation.toInt) List.mem_cons_self).2
    · intro hlt x hx
      rcases List.mem_cons.mp hx with rfl | hx
      · exact ⟨Int.le_of_lt hpos, hlt⟩
      · obtain rfl := List.mem_singleton.mp hx
        exact s.index_inside operation.toNat (by omega)
  have hnil : ∀ x ∈ ([] : List (Table × Int)), InTable K m x := fun x hx =>
    absurd hx List.not_mem_nil
  cases kind with
  | longArithmetic operation =>
    cases h
    constructor
    · intro hin
      exact hin _ List.mem_cons_self
    · intro hop x hx
      obtain rfl := List.mem_singleton.mp hx
      exact hop
  | vmSupport operation =>
    obtain ⟨v, hv, hret⟩ := bind_eq_ok.mp h
    cases hret
    exact hvm hv
  | vmAbsolute operation =>
    obtain ⟨v, hv, hret⟩ := bind_eq_ok.mp h
    cases hret
    exact hvm hv
  | exceptionTable targetNCIndex rangeStart rangeEnd className =>
    cases h
    refine iff_of_true ?_ trivial
    intro x hx
    obtain rfl := List.mem_singleton.mp hx
    exact ⟨Int.natCast_nonneg _, Int.ofNat_lt.mpr (hex rfl)⟩
  | domainZero => cases h
  | depFunction _ _ _ => cases h
  | profile _ => cases h
  | staticField _ _ _ =>
    obtain ⟨v, -, hret⟩ := bind_eq_ok.mp h
    cases hret
    exact iff_of_true hnil trivial
  | «class» _ =>
    obtain ⟨v, -, hret⟩ := bind_eq_ok.mp h
    cases hret
    exact iff_of_true hnil trivial
  | primitiveClass _ =>
    obtain ⟨v, -, hret⟩ := bind_eq_ok.mp h
    cases hret
    exact iff_of_true hnil trivial
  | tcbOffset _ =>
    simp only [resolve] at h
    split at h <;> cases h
    exact iff_of_true hnil trivial
  | _ =>
    cases h
    exact iff_of_true hnil trivial

section Symbols

variable {K : Kernel} {m : MethodDesc} {code method : JInt} {l l' : Linking K}

/-- The linker is inside after a symbol if it was inside before it, and the symbol keeps it there. -/
theorem patchSymbol_inside_iff {s : SymbolDesc Str} (hm : Accepted m)
    (hex : s.kind.isExceptionTable = true → l.exceptions.length < m.sizeOfExceptionTable)
    (h : patchSymbol resolve code method l s = .ok l') :
    (Inside code m l' ↔ Inside code m l ∧ SymbolInside K m s) ∧
      l'.exceptions.length = l.exceptions.length + if s.kind.isExceptionTable then 1 else 0 := by
  obtain ⟨⟨r, state⟩, hr, hret⟩ := bind_eq_ok.mp h
  obtain rfl := pure_eq_ok.mp hret
  have hspec := resolve_spec hr
  have haccesses := resolve_accesses hex hr
  have hwrites : (∀ a ∈ (patchOf code method s r).toList.flatMap (written code), InMethod code m a) ↔
      HoleInside m.numberOfCodeBytes s := by
    cases hv : r.value with
    | none =>
      rw [patchOf, hv]
      exact iff_of_true nofun (.inl (hspec.width_of_none hv))
    | some v =>
      obtain ⟨hpos, hlen⟩ := hspec.value v hv
      have hone := @written_inside_iff code m
        ⟨s.immediateNCIndex, v.bytes code method s.nextInstrNCIndex⟩ hm
      rw [hlen] at hone
      have hlist : (patchOf code method s r).toList.flatMap (written code) =
          written code ⟨s.immediateNCIndex, v.bytes code method s.nextInstrNCIndex⟩ := by
        rw [patchOf, hv]
        exact List.append_nil _
      rw [hlist, hone hpos (width_le_four s.kind)]
      constructor
      · intro hin
        exact .inr hin
      · rintro (hzero | hin)
        · omega
        · exact hin
  refine ⟨?_, ?_⟩
  · constructor
    · intro hin
      refine ⟨⟨fun a ha => hin.writes a (List.mem_append_left _ ha),
        fun x hx => hin.accesses x (List.mem_append_left _ hx)⟩, ?_, ?_⟩
      · exact hwrites.mp fun a ha => hin.writes a (List.mem_append_right _ ha)
      · exact haccesses.mp fun x hx => hin.accesses x (List.mem_append_right _ hx)
    · rintro ⟨hin, hhole, hop⟩
      refine ⟨fun a ha => ?_, fun x hx => ?_⟩
      · rcases List.mem_append.mp ha with ha | ha
        · exact hin.writes a ha
        · exact hwrites.mpr hhole a ha
      · rcases List.mem_append.mp hx with hx | hx
        · exact hin.accesses x hx
        · exact haccesses.mpr hop x hx
  · rw [List.length_append, hspec.exception]

/-- The symbols in front of the first one that makes the linker panic keep it inside. -/
def ReachedInside (K : Kernel) (m : MethodDesc) :
    State K → Nat → List (SymbolDesc Str) → Prop
  | _, _, [] => True
  | state, exCount, s :: rest =>
    match resolve state exCount s.kind with
    | .error _ => True
    | .ok (r, state') =>
      SymbolInside K m s ∧ ReachedInside K m state' (exCount + r.exception.toList.length) rest

/-- The loop, where the exception table has room for the symbols that are still to come. -/
theorem patchSymbols_inside_iff {symbols : List (SymbolDesc Str)} (hm : Accepted m)
    (hex : l.exceptions.length + CodeFile.sizeOfExceptionTable symbols ≤ m.sizeOfExceptionTable) :
    Inside code m (patchSymbols resolve code method l symbols).1 ↔
      Inside code m l ∧ ReachedInside K m l.state l.exceptions.length symbols := by
  induction symbols generalizing l with
  | nil => exact (and_iff_left trivial).symm
  | cons s rest ih =>
    have hcount : CodeFile.sizeOfExceptionTable (s :: rest) =
        CodeFile.sizeOfExceptionTable rest + if s.kind.isExceptionTable then 1 else 0 :=
      List.countP_cons
    rw [hcount] at hex
    have hroom : s.kind.isExceptionTable = true → l.exceptions.length < m.sizeOfExceptionTable := by
      intro hkind
      rw [if_pos hkind] at hex
      omega
    cases hr : resolve l.state l.exceptions.length s.kind with
    | error stop =>
      have hstep : patchSymbol resolve code method l s = .error stop := by
        rw [patchSymbol, hr]
        rfl
      rw [patchSymbols, hstep, ReachedInside, hr]
      exact (and_iff_left trivial).symm
    | ok p =>
      obtain ⟨r, state⟩ := p
      have hstep : ∃ l', patchSymbol resolve code method l s = .ok l' ∧ l'.state = state ∧
          l'.exceptions = l.exceptions ++ r.exception.toList := by
        rw [patchSymbol, hr]
        exact ⟨_, rfl, rfl, rfl⟩
      obtain ⟨l', hl', hstate, hexceptions⟩ := hstep
      obtain ⟨hiff, hlen⟩ := patchSymbol_inside_iff hm hroom hl'
      have hrest := ih (l := l') (by rw [hlen]; omega)
      rw [patchSymbols, hl', ReachedInside, hr]
      simp only
      rw [hrest, hiff, hstate, hexceptions, List.length_append, and_assoc]

end Symbols

/-- For every method of every library that was loaded: the linker writes into the code of this method only
and stays inside its tables exactly if the symbols it reaches keep it there. -/
theorem patchMethodSymbols_inside_iff {k : CodeFile.Kernel} {free : Nat} {file rest : List Byte}
    {lib : SharedLibDesc} {indices : List Nat}
    (hload : CodeFile.loadSharedLibrary k free file = .ok ((lib, indices), rest))
    {c : CodeFile.ClassDesc} (hc : c ∈ lib.allClasses.entries) {m : MethodDesc}
    (hmem : m ∈ c.methods.entries) {K : Kernel} (s : State K) (byte : JInt → Byte)
    (code method : JInt) :
    Inside code m (patchMethodSymbols s byte code method m.symbols.entries).1 ↔
      ReachedInside K m s 0 m.symbols.entries := by
  have hm : Accepted m := loadSharedLibrary_accepted k free file _ rest hload c hc m hmem
  have hroom : (Linking.start s byte).exceptions.length +
      CodeFile.sizeOfExceptionTable m.symbols.entries ≤ m.sizeOfExceptionTable := by
    rw [hm.sizeOfExceptionTable]
    exact Nat.le_of_eq (Nat.zero_add _)
  rw [patchMethodSymbols, patchSymbols_inside_iff hm hroom]
  exact and_iff_right ⟨nofun, nofun⟩

/-! ## A method with one hole -/

section Hole

open CodeFile

/-- A method of five bytes with a symbol for the exception handler. -/
def holeMethod (immediateNCIndex numBytes : JInt)
    (h : (immediateNCIndex + numBytes).toInt ≤ 5) : MethodFile (Fin 4) :=
  { smallMethod with
    symbols := ⟨1, [⟨immediateNCIndex, numBytes, 5, .exceptionHandler⟩], rfl⟩
    inside := by
      intro s hs
      obtain rfl := List.mem_singleton.mp hs
      exact h
    no_zero := by
      intro s hs
      obtain rfl := List.mem_singleton.mp hs
      exact nofun }

def holeLibrary (immediateNCIndex numBytes : JInt)
    (h : (immediateNCIndex + numBytes).toInt ≤ 5) : LibraryFile :=
  { smallLibrary 4 (by decide) with
    classes := ⟨1, [{ smallClass 4 (by decide) with
      methods := ⟨1, [holeMethod immediateNCIndex numBytes h], rfl⟩ }], rfl⟩
    code_small := by
      change 5 + 0 + 0 < 2 ^ 31
      decide }

def holeDesc (immediateNCIndex numBytes : JInt) (h : (immediateNCIndex + numBytes).toInt ≤ 5) :
    MethodDesc := (holeMethod immediateNCIndex numBytes h).desc smallStrings.get 0

theorem holeLibrary_loaded (immediateNCIndex numBytes : JInt)
    (h : (immediateNCIndex + numBytes).toInt ≤ 5) :
    ∃ lib indices, loadSharedLibrary emptyKernel 6000 (holeLibrary immediateNCIndex numBytes h).bytes =
      .ok ((lib, indices), []) ∧ ∃ c ∈ lib.allClasses.entries,
        holeDesc immediateNCIndex numBytes h ∈ c.methods.entries := by
  have hreads := readsLibrary (holeLibrary immediateNCIndex numBytes h) emptyKernel 6000
    (Nat.le_refl 0) []
  rw [List.append_nil] at hreads
  exact ⟨_, _, hreads, _, List.mem_cons_self, List.mem_cons_self⟩

end Hole

/-- A kernel with one operation. -/
def exampleKernel : Kernel where
  exceptionHandler := 0x1000
  vmSpecialAllocMultiArray := 0x1100
  shouldNotBeCalled := 0x1200
  specialAllocObject := 0x1300
  vmSpecialAllocArray := 0x1400
  curthrP := 0x1500
  stackOffset := 8
  longops := fun _ => 0x1600
  vmsupportNames := [[110]]
  vmsupport_ne_nil := nofun
  fkt := fun _ => 0x1700
  primitiveClass := fun _ => 0x1800
  address := fun c => BitVec.ofNat 32 (0x10000 + 64 * c)
  string := fun n => BitVec.ofNat 32 (0x20000 + 64 * n)

theorem patchMethodSymbols_inside_hole :
    ∃ m : MethodDesc, m.symbols.entries = [⟨1, 4, 5, .exceptionHandler⟩] ∧
      Inside 0x100000 m (patchMethodSymbols (State.boot exampleKernel) (fun _ => 0) 0x100000 0x200000
        m.symbols.entries).1 := by
  obtain ⟨lib, indices, hload, c, hc, hm⟩ := holeLibrary_loaded 1 4 (by decide)
  refine ⟨holeDesc 1 4 (by decide), rfl, ?_⟩
  apply (patchMethodSymbols_inside_iff hload hc hm (State.boot exampleKernel) (fun _ => 0) 0x100000
    0x200000).mpr
  exact ⟨⟨.inr (by decide), trivial⟩, trivial⟩

/-- The file says that the hole has one byte, and the linker writes four. -/
theorem not_patchMethodSymbols_inside :
    ∃ m : MethodDesc, m.symbols.entries = [⟨4, 1, 5, .exceptionHandler⟩] ∧
      (∃ lib indices, CodeFile.loadSharedLibrary CodeFile.emptyKernel 6000
        (holeLibrary 4 1 (by decide)).bytes = .ok ((lib, indices), []) ∧
        ∃ c ∈ lib.allClasses.entries, m ∈ c.methods.entries) ∧
      ¬ Inside 0x100000 m (patchMethodSymbols (State.boot exampleKernel) (fun _ => 0) 0x100000
        0x200000 m.symbols.entries).1 := by
  refine ⟨holeDesc 4 1 (by decide), rfl, holeLibrary_loaded 4 1 (by decide), fun hinside => ?_⟩
  have hin : InMethod 0x100000 (holeDesc 4 1 (by decide)) 0x100005 :=
    hinside.writes 0x100005 (by decide)
  unfold InMethod at hin
  exact absurd hin (by decide)

end JxCore.Link
