import JxCore.Core.ArrayClass
import JxCore.Lib.CString

/-!
# Names in local arrays (`core/load.c`, `Memory/gc_alloc.c`)

The name of an array class is `[` before the signature of the element type, and the signature of a
class is its name between `L` and `;`. Three routines put such names together or take them apart in a
local array of a fixed size: `value` in `createSharedArrayClassDesc`, `tmp` in `findClassOrPrimitive`
and `name` in `allocByteArray`. None of them looks at the length first.

For each of them the model gives the array with the offsets that were written, and what the routine
goes on to look up. The array lies on a stack with any contents.
-/

namespace JxCore.NameBuffer

open ArrayClass Lib

/-! ## The routines -/

/-- The terminating zero. -/
def nul : Char := Char.ofNat 0

/-- `a - b` in `size_t`. -/
def sizeSub (a b : Nat) : Nat := if b ≤ a then a - b else 2 ^ 32 + a - b

/-- What a routine looks up. For a class and for an array class `createSharedArrayClassDesc` calls
`findClassDesc` and `findSharedArrayClassDesc`, and `findClassOrPrimitive` calls `findClass`. -/
inductive Asked where
  | className (name : Name)
  | arrayName (name : Name)
  | primitive (c : Option Char)
  deriving DecidableEq

/-- The element class in `createSharedArrayClassDesc`, with `char value[80]`. -/
def createSharedArrayClassDesc (value : Frame Char 80) (name : Name) : Frame Char 80 × Asked :=
  match name.drop 1 with
  | 'L' :: _ =>
    let value := Frame.strncpy nul value 0 (name.drop 2) (sizeSub name.length 3)
    let value := value.write (sizeSub name.length 3) nul
    (value, .className (value.string nul))
  | '[' :: n => (value, .arrayName ('[' :: n))
  | n => (value, .primitive n.head?)

/-- `findClassOrPrimitive`, with `char tmp[80]`. -/
def findClassOrPrimitive (tmp : Frame Char 80) (name : Name) : Frame Char 80 × Asked :=
  match name with
  | '[' :: _ => (tmp, .arrayName name)
  | 'L' :: rest =>
    let tmp := Frame.strncpy nul tmp 0 rest (sizeSub name.length 2)
    let tmp := tmp.write (sizeSub name.length 2) nul
    (tmp, .className (tmp.string nul))
  | _ => (tmp, .primitive name.head?)

/-- `elemClass->classType == CLASSTYPE_CLASS || elemClass->classType == CLASSTYPE_INTERFACE`. -/
def isClass (elemClass : ClassDesc) : Bool :=
  elemClass.classType = .class ∨ elemClass.classType = .interface

/-- The name in `allocByteArray`, with `char name[256]`. -/
def arrayNameOf (name : Frame Char 256) (elemClass : ClassDesc) : Frame Char 256 :=
  let name := Frame.strcpy nul name 0 ['[']
  let name := if isClass elemClass then Frame.strcat nul name ['L'] else name
  let name := Frame.strcat nul name elemClass.name
  if isClass elemClass then Frame.strcat nul name [';'] else name

/-- `allocByteArray` up to the array class; the name that was put together is not used for it. -/
def allocByteArray (name : Frame Char 256) (s : State) (elemClass : Nat) :
    Frame Char 256 × Except Stop (Nat × State) :=
  (arrayNameOf name (s.desc elemClass),
    match (s.desc elemClass).arrayClass with
    | none => findSharedArrayClassDescByElemClass s elemClass
    | some c => return (c, s))

/-! ## Types and their names -/

/-- A class name of any length. -/
structure ClassName where
  chars : Name
  noZero : nul ∉ chars

inductive JType where
  | primitive (c : Char) (h : c ∈ primitives)
  | «class» (name : ClassName)
  | array (elem : JType)

namespace JType

def signature : JType → Name
  | primitive c _ => [c]
  | «class» name => 'L' :: (name.chars ++ [';'])
  | array elem => '[' :: elem.signature

/-- The `name` of the type's class. -/
def name : JType → Name
  | «class» name => name.chars
  | t => t.signature

/-- What has to be looked up for the type. -/
def asked : JType → Asked
  | primitive c _ => .primitive (some c)
  | «class» name => .className name.chars
  | array elem => .arrayName (array elem).name

/-- The type, its element type and so on. -/
def nesting : JType → List JType
  | array elem => array elem :: elem.nesting
  | t => [t]

/-- The descriptor is one of a class of this type. -/
def Describes (t : JType) (c : ClassDesc) : Prop :=
  c.name = t.name ∧
    match t with
    | primitive _ _ => c.classType = .primitive
    | «class» _ => c.classType = .class ∨ c.classType = .interface
    | array _ => c.classType = .arrayClass

end JType

open JType

/-- A local array before its first use. -/
def Unused {n : Nat} (f : Frame Char n) : Prop := f.writes = []

/-- The array was not left, and the lookup is the right one. -/
def Gives (r : Frame Char 80 × Asked) (a : Asked) : Prop := r.1.Inside ∧ r.2 = a

/-- The routines stay in their arrays and get the names right, for arrays of type `t` and for their
elements. -/
structure Exact (t : JType) : Prop where
  create : ∀ value, Unused value → Gives (createSharedArrayClassDesc value (array t).name) t.asked
  find : ∀ tmp, Unused tmp → Gives (findClassOrPrimitive tmp t.signature) t.asked
  alloc : ∀ name, Unused name → ∀ s elemClass, t.Describes (s.desc elemClass) →
    (allocByteArray name s elemClass).1.Inside ∧
      (allocByteArray name s elemClass).1.string nul = (array t).name

/-! ## The names -/

theorem sizeSub_of_le {a b : Nat} (h : b ≤ a) : sizeSub a b = a - b := if_pos h

theorem nul_notMem_primitives : nul ∉ primitives := by decide

@[simp] theorem name_array (t : JType) : (array t).name = '[' :: t.signature := rfl

theorem nul_notMem_signature (t : JType) : nul ∉ t.signature := by
  induction t with
  | primitive c h =>
    intro hmem
    rw [signature, List.mem_singleton] at hmem
    exact nul_notMem_primitives (hmem ▸ h)
  | «class» name =>
    have hends : nul ≠ 'L' ∧ nul ≠ ';' := by decide
    rw [signature, List.mem_cons, List.mem_append, List.mem_singleton]
    rintro (hl | hname | hend)
    · exact hends.1 hl
    · exact name.noZero hname
    · exact hends.2 hend
  | array elem ih =>
    have hopen : nul ≠ '[' := by decide
    rw [signature, List.mem_cons]
    rintro (hopen' | helem)
    · exact hopen hopen'
    · exact ih helem

theorem nul_notMem_name (t : JType) : nul ∉ t.name := by
  cases t with
  | primitive c h => exact nul_notMem_signature (primitive c h)
  | «class» name => exact name.noZero
  | array elem => exact nul_notMem_signature (array elem)

theorem self_mem_nesting (t : JType) : t ∈ t.nesting := by
  cases t <;> exact List.mem_cons_self

/-- The name of an array is longer than those of its elements. -/
theorem length_signature_le {t u : JType} (h : u ∈ t.nesting) :
    u.signature.length ≤ t.signature.length := by
  induction t with
  | primitive c hc => exact Nat.le_of_eq (List.mem_singleton.mp h ▸ rfl)
  | «class» name => exact Nat.le_of_eq (List.mem_singleton.mp h ▸ rfl)
  | array elem ih =>
    rcases List.mem_cons.mp h with rfl | hmem
    · exact Nat.le_refl _
    · exact Nat.le_trans (ih hmem) (Nat.le_succ _)

/-! ## The routines one by one -/

theorem inside_of_unused {n : Nat} {f : Frame Char n} (h : Unused f) : f.Inside := by
  rw [Frame.Inside, h]
  exact List.forall_mem_nil _

/-- All but the last character, and a zero. -/
theorem copied_eq (f : Frame Char 80) (rest : Name) :
    (Frame.strncpy nul f 0 rest (rest.length - 1)).write (rest.length - 1) nul =
      f.puts 0 (rest.dropLast ++ [nul]) := by
  have hlen : 0 + rest.dropLast.length = rest.length - 1 := by
    rw [List.length_dropLast, Nat.zero_add]
  rw [Frame.strncpy_eq 0 (Nat.sub_le _ _), Frame.puts_append, hlen, ← List.dropLast_eq_take]
  rfl

/-- `value` is meant to hold the class name. -/
theorem createSharedArrayClassDesc_class (value : Frame Char 80) {rest : Name} (hrest : rest ≠ [])
    (first : Char) : createSharedArrayClassDesc value (first :: 'L' :: rest) =
      (value.puts 0 (rest.dropLast ++ [nul]),
        .className ((value.puts 0 (rest.dropLast ++ [nul])).string nul)) := by
  have hpos := List.length_pos_iff.mpr hrest
  have hsize : sizeSub (first :: 'L' :: rest).length 3 = rest.length - 1 := by
    rw [sizeSub_of_le (by simp only [List.length_cons]; omega)]
    simp only [List.length_cons]
    omega
  simp only [createSharedArrayClassDesc, List.drop_succ_cons, List.drop_zero, hsize, copied_eq]

theorem findClassOrPrimitive_class (tmp : Frame Char 80) {rest : Name} (hrest : rest ≠ []) :
    findClassOrPrimitive tmp ('L' :: rest) =
      (tmp.puts 0 (rest.dropLast ++ [nul]),
        .className ((tmp.puts 0 (rest.dropLast ++ [nul])).string nul)) := by
  have hpos := List.length_pos_iff.mpr hrest
  have hsize : sizeSub ('L' :: rest).length 2 = rest.length - 1 := by
    rw [sizeSub_of_le (by simp only [List.length_cons]; omega)]
    simp only [List.length_cons]
    omega
  simp only [findClassOrPrimitive, hsize, copied_eq]

/-- A name that was taken out of its wrapper. -/
theorem gives_className_iff {f : Frame Char 80} {w : Name} (hf : f.Builds nul w) :
    Gives (f, .className (f.string nul)) (.className w) ↔ w.length < 80 := by
  unfold Gives
  rw [← hf.inside_iff]
  refine and_iff_left_of_imp fun hinside => ?_
  rw [hf.string hinside]

/-- A primitive type needs no array. -/
theorem primitive_eq (f : Frame Char 80) {c : Char} (h : c ∈ primitives) :
    createSharedArrayClassDesc f ['[', c] = (f, .primitive (some c)) ∧
      findClassOrPrimitive f [c] = (f, .primitive (some c)) := by
  simp only [primitives, List.mem_cons, List.not_mem_nil, or_false] at h
  rcases h with rfl | rfl | rfl | rfl | rfl | rfl | rfl | rfl <;> exact ⟨rfl, rfl⟩

/-- The two routines that take a name apart differ only in where the signature starts. -/
theorem gives_iff (t : JType) {f : Frame Char 80} (hf : Unused f) :
    (Gives (createSharedArrayClassDesc f (array t).name) t.asked ↔
        ∀ x, t = .class x → x.chars.length < 80) ∧
      (Gives (findClassOrPrimitive f t.signature) t.asked ↔
        ∀ x, t = .class x → x.chars.length < 80) := by
  have hinside := inside_of_unused hf
  cases t with
  | primitive c h =>
    have hother : ∀ x, JType.primitive c h = .class x → x.chars.length < 80 := nofun
    obtain ⟨hcreate, hfind⟩ := primitive_eq f h
    rw [name_array, signature, hcreate, hfind]
    exact ⟨iff_of_true ⟨hinside, rfl⟩ hother, iff_of_true ⟨hinside, rfl⟩ hother⟩
  | «class» name =>
    have hne : name.chars ++ [';'] ≠ [] :=
      List.append_ne_nil_of_right_ne_nil _ (List.cons_ne_nil ';' [])
    have hbuilds : (f.puts 0 ((name.chars ++ [';']).dropLast ++ [nul])).Builds nul name.chars := by
      rw [List.dropLast_concat]
      exact Frame.builds_puts hf name.noZero
    have hlen : (∀ x, JType.class name = .class x → x.chars.length < 80) ↔
        name.chars.length < 80 := by
      constructor
      · intro h
        exact h name rfl
      · rintro h x heq
        cases heq
        exact h
    rw [hlen, name_array, signature, createSharedArrayClassDesc_class f hne,
      findClassOrPrimitive_class f hne]
    exact ⟨gives_className_iff hbuilds, gives_className_iff hbuilds⟩
  | array elem =>
    have hother : ∀ x, JType.array elem = .class x → x.chars.length < 80 := nofun
    exact ⟨iff_of_true ⟨hinside, rfl⟩ hother, iff_of_true ⟨hinside, rfl⟩ hother⟩

theorem isClass_of_describes {t : JType} {c : ClassDesc} (h : t.Describes c) :
    (isClass c = true ∧ '[' :: 'L' :: (c.name ++ [';']) = (array t).name) ∨
      (isClass c = false ∧ '[' :: c.name = (array t).name) := by
  obtain ⟨hname, htype⟩ := h
  cases t with
  | primitive p hp =>
    right
    simp only at htype
    simp [isClass, htype, hname, JType.name, signature]
  | «class» name =>
    left
    simp only at htype
    simp [isClass, htype, hname, JType.name, signature]
  | array elem =>
    right
    simp only at htype
    simp [isClass, htype, hname, JType.name, signature]

/-- `name` is meant to hold the name of the array class. -/
theorem builds_arrayNameOf {t : JType} {c : ClassDesc} {f : Frame Char 256} (hf : Unused f)
    (h : t.Describes c) : (arrayNameOf f c).Builds nul (array t).name := by
  have hzero : nul ∉ c.name := h.1 ▸ nul_notMem_name t
  have hopen : (Frame.strcpy nul f 0 ['[']).Builds nul ['['] := by
    rw [Frame.strcpy_eq]
    exact Frame.builds_puts hf (by decide)
  rcases isClass_of_describes h with ⟨hclass, hname⟩ | ⟨hclass, hname⟩
  · simp only [arrayNameOf, hclass, if_true]
    rw [← hname]
    exact ((hopen.strcat (by decide)).strcat hzero).strcat (by decide)
  · simp only [arrayNameOf, hclass]
    rw [← hname]
    exact hopen.strcat hzero

/-! ## The condition -/

def JType.classType : JType → ClassType
  | primitive _ _ => .primitive
  | «class» _ => .class
  | array _ => .arrayClass

/-- A state with a class of this type. -/
def withClass (t : JType) : State :=
  { State.boot with desc := fun _ => ⟨t.classType, t.name, none, none⟩ }

theorem describes_withClass (t : JType) (a : Nat) : t.Describes ((withClass t).desc a) := by
  cases t with
  | primitive c h => exact ⟨rfl, rfl⟩
  | «class» name => exact ⟨rfl, Or.inl rfl⟩
  | array elem => exact ⟨rfl, rfl⟩

/-- An array on a stack of zeros. -/
def zeros (n : Nat) : Frame Char n :=
  Frame.fresh (List.replicate n nul) (Nat.le_of_eq List.length_replicate.symm)

theorem unused_zeros (n : Nat) : Unused (zeros n) := rfl

theorem exact_iff (t : JType) :
    Exact t ↔ (∀ x, t = .class x → x.chars.length < 80) ∧ (array t).name.length < 256 := by
  constructor
  · intro h
    refine ⟨(gives_iff t (unused_zeros 80)).1.mp (h.create (zeros 80) (unused_zeros 80)), ?_⟩
    have hdesc := describes_withClass t 0
    have hinside := (h.alloc (zeros 256) (unused_zeros 256) (withClass t) 0 hdesc).1
    exact (builds_arrayNameOf (unused_zeros 256) hdesc).inside_iff.mp hinside
  · rintro ⟨hclass, hname⟩
    refine ⟨fun value hvalue => (gives_iff t hvalue).1.mpr hclass,
      fun tmp htmp => (gives_iff t htmp).2.mpr hclass, ?_⟩
    intro name hunused s elemClass hdesc
    have hbuilds := builds_arrayNameOf hunused hdesc
    have hinside := hbuilds.inside_iff.mpr hname
    exact ⟨hinside, hbuilds.string hinside⟩

/-- The routines are right for a type and all its element types, which a call for nested arrays goes
through one after the other, exactly if the class name inside fits into 80 characters and the name of
the whole array into 256, each with its terminating zero. -/
theorem nameBuffers_iff (t : JType) :
    (∀ u ∈ t.nesting, Exact u) ↔
      (∀ x, .class x ∈ t.nesting → x.chars.length < 80) ∧ (array t).name.length < 256 := by
  constructor
  · intro h
    refine ⟨fun x hx => ?_, ((exact_iff t).mp (h t (self_mem_nesting t))).2⟩
    exact ((exact_iff (.class x)).mp (h (.class x) hx)).1 x rfl
  · rintro ⟨hclass, hname⟩ u hu
    refine (exact_iff u).mpr ⟨fun x hx => hclass x (hx ▸ hu), ?_⟩
    have hle := length_signature_le hu
    simp only [name_array, List.length_cons] at hname ⊢
    exact Nat.lt_of_le_of_lt (Nat.succ_le_succ hle) hname

/-- A class name with eighty letters. -/
def longName : ClassName := ⟨List.replicate 80 'a', by
  rw [List.mem_replicate]
  rintro ⟨-, heq⟩
  exact absurd heq (by decide)⟩

theorem not_exact_longName : ¬ ∀ t u : JType, u ∈ t.nesting → Exact u := by
  intro h
  have hexact := h (.class longName) (.class longName) List.mem_cons_self
  have hlt := ((exact_iff (.class longName)).mp hexact).1 longName rfl
  rw [longName, List.length_replicate] at hlt
  exact Nat.lt_irrefl 80 hlt

end JxCore.NameBuffer
