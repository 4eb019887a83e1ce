import Mathlib.Data.List.Pairwise
import JxCore.Core.Assign

/-!
# From addresses to methods (`core/domain.c`)

`findMethodAtAddrInDomain` says which method a return address belongs to, and which line of the
source. There are two versions. The plain one looks at all methods. The other one leaves out libraries
and classes by the addresses of their first and last methods, and interfaces altogether, as if these
had no code; but an interface may have a class initialiser. Both look for the line between one entry
of the table and the next, so that the last entry is never found.
-/

namespace JxCore.MethodLookup

open Assign (ClassType)

/-! ## Libraries -/

structure ByteCodeDesc where
  bytecodePos : Int
  start : Int
  stop : Int

structure SourceLineDesc where
  startBytecode : Int
  lineNumber : Int

/-- The part of a method descriptor that is looked at; `code` is zero for an abstract method. -/
structure MethodDesc where
  code : Nat
  numberOfCodeBytes : Nat
  bytecodeTable : List ByteCodeDesc
  sourceLineTable : List SourceLineDesc

structure ClassDesc where
  classType : ClassType
  methods : List MethodDesc

structure LibDesc where
  allClasses : List ClassDesc
  /-- Set when no class of the library has code. -/
  hasNoImplementations : Bool

namespace MethodDesc

/-- The address is one of the method's code. -/
def Covers (m : MethodDesc) (addr : Nat) : Prop :=
  m.code ≤ addr ∧ m.code + m.numberOfCodeBytes > addr

instance (m : MethodDesc) (addr : Nat) : Decidable (m.Covers addr) :=
  inferInstanceAs (Decidable (_ ∧ _))

/-- Where the code ends. -/
def codeEnd (m : MethodDesc) : Nat := m.code + m.numberOfCodeBytes

/-- `setCodeStart` for the methods of a library, which follow each other from `offset` on. -/
def setCodeStart (code : Nat) : (offset : Nat) → List MethodDesc → List MethodDesc
  | _, [] => []
  | offset, m :: ms =>
    { m with code := if m.numberOfCodeBytes = 0 then 0 else code + offset } ::
      setCodeStart code (offset + m.numberOfCodeBytes) ms

end MethodDesc

def ClassDesc.isInterface (c : ClassDesc) : Bool := c.classType = .interface

/-- All methods of a library. -/
def LibDesc.methods (lib : LibDesc) : List MethodDesc := lib.allClasses.flatMap ClassDesc.methods

/-! ## Positions and lines -/

/-- `findByteCodePosition`. -/
def findByteCodePosition (m : MethodDesc) (addr : Nat) : Int :=
  let offset : Int := addr - m.code
  ((m.bytecodeTable.find? fun e => e.start ≤ offset ∧ e.stop ≥ offset).map
    ByteCodeDesc.bytecodePos).getD (-1)

/-- The loop over the source lines. -/
def findLine (bytecodePos : Int) : List SourceLineDesc → Int
  | a :: b :: rest =>
    if a.startBytecode ≤ bytecodePos ∧ b.startBytecode > bytecodePos then a.lineNumber
    else findLine bytecodePos (b :: rest)
  | _ => -1

/-- What is found: the numbers of library, class and method, the position and the line. -/
structure Found where
  lib : Nat
  cls : Nat
  method : Nat
  bytecodePos : Int
  lineNumber : Int
  deriving DecidableEq

/-- The results for a method that has been found. -/
def report (addr h i j : Nat) (m : MethodDesc) : Found :=
  let bytecodePos := findByteCodePosition m addr
  { lib := h, cls := i, method := j, bytecodePos
    lineNumber := if bytecodePos ≠ -1 then findLine bytecodePos m.sourceLineTable else -1 }

/-! ## The plain search -/

/-- The loop over the methods of a class. -/
def searchMethods (addr h i : Nat) (methods : List MethodDesc) : Option Found :=
  methods.zipIdx.findSome? fun (m, j) => if m.Covers addr then some (report addr h i j m) else none

/-- The loop over the classes of a library. -/
def searchClasses (addr h : Nat) (classes : List (ClassDesc × Nat)) : Option Found :=
  classes.findSome? fun (c, i) => searchMethods addr h i c.methods

/-- The loop over the libraries, from number `h` on. -/
def searchLibs (addr : Nat) : (h : Nat) → List LibDesc → Option Found
  | _, [] => none
  | h, lib :: libs =>
    (searchClasses addr h lib.allClasses.zipIdx).or (searchLibs addr (h + 1) libs)

/-- `findMethodAtAddrInDomain`. -/
def findMethodAtAddrInDomain (addr : Nat) (libs : List LibDesc) : Option Found :=
  if addr = 0 then none else searchLibs addr 0 libs

/-! ## The other search -/

/-- A loop that sets a bound until it is not zero. -/
def scan (bound : MethodDesc → Nat) : Nat → List MethodDesc → Nat
  | x, [] => x
  | _, m :: ms => if bound m ≠ 0 then bound m else scan bound (bound m) ms

/-- From the first class up to `low_class`: its number and `lower`. -/
def lowClass (classes : List (ClassDesc × Nat)) : Option (Nat × Nat) :=
  classes.findSome? fun (c, i) =>
    if c.isInterface then none
    else (c.methods.find? fun m => m.code ≠ 0).map fun m => (i, m.code)

/-- From the last class down to `upp_class`: its number and `upper`. -/
def uppClass (classes : List (ClassDesc × Nat)) : Option (Nat × Nat) :=
  classes.reverse.findSome? fun (c, g) =>
    if c.isInterface then none
    else (c.methods.reverse.find? fun m => m.codeEnd ≠ 0).map fun m => (g, m.codeEnd)

/-- The loop over the classes in between. A class without methods leaves the bounds as they are. -/
def searchBetween (addr h : Nat) : (lower upper : Nat) → List (ClassDesc × Nat) → Option Found
  | _, _, [] => none
  | lower, upper, (c, i) :: classes =>
    if c.isInterface then
      searchBetween addr h lower upper classes
    else
      let lower := scan MethodDesc.code lower c.methods
      let l := c.methods.findIdx fun m => m.code ≠ 0
      let upper := scan MethodDesc.codeEnd upper (c.methods.drop l).reverse
      if addr < lower ∨ addr ≥ upper then
        searchBetween addr h lower upper classes
      else
        (searchMethods addr h i c.methods).or (searchBetween addr h lower upper classes)

/-- One library. -/
def searchLib (addr h : Nat) (lib : LibDesc) : Except Stop (Option Found × LibDesc) :=
  let classes := lib.allClasses.zipIdx
  if lib.allClasses = [] then throw (.panic "empty lib")
  else if lib.hasNoImplementations then pure (none, lib)
  else
    match lowClass classes with
    | none => pure (none, { lib with hasNoImplementations := true })
    | some (i, lower) =>
      match uppClass (classes.drop i) with
      | none => pure (none, lib)
      | some (g, upper) =>
        if addr < lower ∨ addr ≥ upper then pure (none, lib)
        else pure (searchBetween addr h lower upper ((classes.drop i).take (g + 1 - i)), lib)

/-- The loop over the libraries, from number `h` on. -/
def fasterLibs (addr : Nat) : (h : Nat) → List LibDesc → Except Stop (Option Found × List LibDesc)
  | _, [] => pure (none, [])
  | h, lib :: libs => do
    let (found, lib) ← searchLib addr h lib
    if found.isSome then
      pure (found, lib :: libs)
    else
      let (found, libs) ← fasterLibs addr (h + 1) libs
      pure (found, lib :: libs)

/-- `findMethodAtAddrInDomain` with `FASTER_METHOD_LOOKUP`. -/
def fasterMethodLookup (addr : Nat) (libs : List LibDesc) :
    Except Stop (Option Found × List LibDesc) :=
  if addr = 0 then pure (none, libs) else fasterLibs addr 0 libs

/-! ## What is asked for -/

/-- The method with these numbers. -/
def IsMethod (libs : List LibDesc) (h i j : Nat) (m : MethodDesc) : Prop :=
  ∃ lib c, libs[h]? = some lib ∧ lib.allClasses[i]? = some c ∧ c.methods[j]? = some m

/-- The last entry that starts at or before the position. -/
def lastEntry (bytecodePos : Int) (table : List SourceLineDesc) : Option SourceLineDesc :=
  table.reverse.find? fun e => e.startBytecode ≤ bytecodePos

/-- Its line. -/
def lastLine (bytecodePos : Int) (table : List SourceLineDesc) : Int :=
  ((lastEntry bytecodePos table).map SourceLineDesc.lineNumber).getD (-1)

/-- Both searches find the one method that the address belongs to, if there is one, and the right
line for its position, if it has one. -/
structure Correct (addr : Nat) (libs : List LibDesc) : Prop where
  same : ∃ libs', fasterMethodLookup addr libs = .ok (findMethodAtAddrInDomain addr libs, libs')
  found : ∀ f, findMethodAtAddrInDomain addr libs = some f →
    ∃ m, IsMethod libs f.lib f.cls f.method m ∧ m.Covers addr ∧
      f.bytecodePos = findByteCodePosition m addr ∧
      f.lineNumber = if f.bytecodePos ≠ -1 then lastLine f.bytecodePos m.sourceLineTable else -1
  unique : ∀ h i j m, IsMethod libs h i j m → m.Covers addr →
    ∃ f, findMethodAtAddrInDomain addr libs = some f ∧ f.lib = h ∧ f.cls = i ∧ f.method = j

/-- Libraries as they are loaded: the code of the methods is laid out by `setCodeStart`, that of
different libraries is in different places, and the flag says what it means. -/
structure Loaded (libs : List LibDesc) : Prop where
  placed : ∀ lib ∈ libs, ∃ code > 0, ∃ ms, lib.methods = MethodDesc.setCodeStart code 0 ms
  apart : libs.Pairwise fun a b => ∀ m ∈ a.methods, ∀ m' ∈ b.methods, ∀ addr,
    m.Covers addr → ¬ m'.Covers addr
  flag : ∀ lib ∈ libs, lib.hasNoImplementations = true →
    ∀ c ∈ lib.allClasses, c.isInterface = false → ∀ m ∈ c.methods, m.code = 0

/-! ## When it is met -/

/-- Up to the library with the address, no library is without classes; and the address is not in the
class initialiser of an interface. -/
def Prunable (addr : Nat) : List LibDesc → Prop
  | [] => True
  | lib :: libs => lib.allClasses ≠ [] ∧
      (∀ c ∈ lib.allClasses, c.isInterface = true → ∀ m ∈ c.methods, ¬ m.Covers addr) ∧
      ((∃ m ∈ lib.methods, m.Covers addr) ∨ Prunable addr libs)

/-- Where the table passes the position for the first time, later entries that start at or before
the position do not change the line. If it does not pass it, its last entry starts later or has no
line. -/
def Passes (bytecodePos : Int) : List SourceLineDesc → Prop
  | [] => True
  | [a] => a.startBytecode ≤ bytecodePos → a.lineNumber = -1
  | a :: b :: rest =>
    if a.startBytecode ≤ bytecodePos ∧ b.startBytecode > bytecodePos then
      ∀ e, lastEntry bytecodePos rest = some e → e.lineNumber = a.lineNumber
    else Passes bytecodePos (b :: rest)

/-! ## Lines -/

section Lines

variable {pos : Int} {a b e : SourceLineDesc} {table rest : List SourceLineDesc}

theorem lastEntry_cons : lastEntry pos (a :: table) =
    (lastEntry pos table).or (if a.startBytecode ≤ pos then some a else none) := by
  unfold lastEntry
  rw [List.reverse_cons, List.find?_append, List.find?_singleton]
  simp only [decide_eq_true_eq]

theorem lastEntry_isSome (hmem : e ∈ table) (hle : e.startBytecode ≤ pos) :
    (lastEntry pos table).isSome := by
  unfold lastEntry
  rw [List.find?_isSome]
  exact ⟨e, List.mem_reverse.mpr hmem, decide_eq_true hle⟩

/-- Only the rest of the table counts if it has such an entry. -/
theorem lastLine_cons (h : pos < a.startBytecode ∨ ∃ e ∈ table, e.startBytecode ≤ pos) :
    lastLine pos (a :: table) = lastLine pos table := by
  unfold lastLine
  rw [lastEntry_cons]
  rcases h with hlater | ⟨e, he, hle⟩
  · rw [if_neg (by omega), Option.or_none]
  · rw [Option.or_of_isSome (lastEntry_isSome he hle)]

/-- The line of an entry at which the table passes the position. -/
theorem lastLine_turn (ha : a.startBytecode ≤ pos) (hb : b.startBytecode > pos) :
    a.lineNumber = lastLine pos (a :: b :: rest) ↔
      ∀ e, lastEntry pos rest = some e → e.lineNumber = a.lineNumber := by
  unfold lastLine
  rw [lastEntry_cons, lastEntry_cons, if_pos ha, if_neg (by omega), Option.or_none]
  cases lastEntry pos rest with
  | none => simp
  | some e =>
    simp only [Option.some_or, Option.map_some, Option.getD_some, Option.some.injEq,
      forall_eq']
    exact eq_comm

/-- The loop reports the right line exactly if the table passes the position properly. -/
theorem findLine_eq_lastLine_iff : findLine pos table = lastLine pos table ↔ Passes pos table := by
  induction table with
  | nil => exact iff_of_true rfl trivial
  | cons a table ih =>
    cases table with
    | nil =>
      unfold findLine Passes lastLine
      rw [lastEntry_cons]
      by_cases ha : a.startBytecode ≤ pos
      · rw [if_pos ha]
        simp [lastEntry, ha, eq_comm]
      · rw [if_neg ha]
        simp [lastEntry, ha]
    | cons b rest =>
      unfold findLine Passes
      by_cases hturn : a.startBytecode ≤ pos ∧ b.startBytecode > pos
      · rw [if_pos hturn, if_pos hturn]
        exact lastLine_turn hturn.1 hturn.2
      · rw [if_neg hturn, if_neg hturn, ← ih, lastLine_cons]
        by_cases hb : b.startBytecode ≤ pos
        · exact .inr ⟨b, List.mem_cons_self, hb⟩
        · left
          omega

end Lines

/-! ## The order of the code -/

/-- Methods with code come in the order of their addresses. -/
structure Ordered (ms : List MethodDesc) : Prop where
  abstract : ∀ m ∈ ms, m.code = 0 → m.numberOfCodeBytes = 0
  order : ms.Pairwise fun a b => b.code ≠ 0 → a.codeEnd ≤ b.code

section Order

variable {addr code offset : Nat} {m first last : MethodDesc} {ms ms' : List MethodDesc}

theorem setCodeStart_from (hm : m ∈ MethodDesc.setCodeStart code offset ms) (hcode : m.code ≠ 0) :
    code + offset ≤ m.code := by
  induction ms generalizing offset with
  | nil => cases hm
  | cons a ms ih =>
    rcases List.mem_cons.mp hm with rfl | hm
    · by_cases hz : a.numberOfCodeBytes = 0
      · simp [hz] at hcode
      · simp [hz]
    · have := ih hm
      omega

/-- `setCodeStart` puts the methods in order. -/
theorem ordered_setCodeStart (hcode : 0 < code) :
    Ordered (MethodDesc.setCodeStart code offset ms) := by
  induction ms generalizing offset with
  | nil => exact ⟨by simp [MethodDesc.setCodeStart], .nil⟩
  | cons a ms ih =>
    refine ⟨?_, ?_⟩
    · intro m hm hz
      rcases List.mem_cons.mp hm with rfl | hm
      · by_contra hne
        have hbytes : a.numberOfCodeBytes ≠ 0 := hne
        simp only [hbytes, if_false] at hz
        omega
      · exact ih.abstract m hm hz
    · refine List.pairwise_cons.mpr ⟨?_, ih.order⟩
      intro b hb hne
      have hfrom := setCodeStart_from hb hne
      unfold MethodDesc.codeEnd
      by_cases hz : a.numberOfCodeBytes = 0
      · simp [hz]
      · simp only [hz, if_false]
        omega

theorem Ordered.sublist (h : Ordered ms) (hsub : ms'.Sublist ms) : Ordered ms' :=
  ⟨fun m hm => h.abstract m (hsub.subset hm), h.order.sublist hsub⟩

/-- A method with an address has code. -/
theorem Ordered.code_ne_zero (h : Ordered ms) (hm : m ∈ ms) (hcov : m.Covers addr) :
    m.code ≠ 0 := by
  intro hz
  have := h.abstract m hm hz
  unfold MethodDesc.Covers at hcov
  omega

theorem Ordered.lower_le (h : Ordered ms) (hfirst : ms.find? (fun m => m.code ≠ 0) = some first)
    (hm : m ∈ ms) (hcov : m.Covers addr) : first.code ≤ addr := by
  have hne := h.code_ne_zero hm hcov
  obtain ⟨-, as, bs, rfl, has⟩ := List.find?_eq_some_iff_append.mp hfirst
  have hbs := (List.pairwise_cons.mp (List.pairwise_append.mp h.order).2.1).1
  rcases List.mem_append.mp hm with hm | hm
  · exact absurd hne (by simpa using has m hm)
  · rcases List.mem_cons.mp hm with rfl | hm
    · exact hcov.1
    · have := hbs m hm hne
      unfold MethodDesc.codeEnd at this
      have := hcov.1
      omega

theorem Ordered.lt_upper (h : Ordered ms)
    (hlast : ms.reverse.find? (fun m => m.codeEnd ≠ 0) = some last)
    (hm : m ∈ ms) (hcov : m.Covers addr) : addr < last.codeEnd := by
  have hend : addr < m.codeEnd := hcov.2
  obtain ⟨hne, as, bs, hrev, has⟩ := List.find?_eq_some_iff_append.mp hlast
  have hms : ms = bs.reverse ++ last :: as.reverse := by
    rw [← List.reverse_reverse ms, hrev]
    simp
  have hmem : last ∈ ms := by simp [hms]
  have hcode : last.code ≠ 0 := by
    intro hz
    have := h.abstract last hmem hz
    simp [MethodDesc.codeEnd, hz, this] at hne
  have hord := h.order
  rw [hms, List.pairwise_append] at hord
  rw [hms] at hm
  rcases List.mem_append.mp hm with hm | hm
  · have := hord.2.2 m hm last List.mem_cons_self hcode
    unfold MethodDesc.codeEnd at this ⊢
    unfold MethodDesc.codeEnd at hend
    omega
  · rcases List.mem_cons.mp hm with rfl | hm
    · exact hend
    · have := has m (List.mem_reverse.mp hm)
      simp only [ne_eq, decide_not, Bool.not_not, decide_eq_true_eq] at this
      omega

/-- Two methods at different places do not have the same address. -/
theorem Ordered.apart (h : Ordered ms) :
    ms.Pairwise fun a b => ∀ addr, a.Covers addr → ¬ b.Covers addr := by
  refine h.order.imp_of_mem ?_
  intro a b _ hb hab x hx hcov
  have := hab (h.code_ne_zero hb hcov)
  unfold MethodDesc.codeEnd at this
  unfold MethodDesc.Covers at hx hcov
  omega

end Order

/-! ## The classes of a library -/

/-- The loop over the classes, without interfaces. -/
def searchImplemented (addr h : Nat) (classes : List (ClassDesc × Nat)) : Option Found :=
  classes.findSome? fun (c, i) =>
    if c.isInterface then none else searchMethods addr h i c.methods

/-- The methods of the classes that are no interfaces. -/
def implemented (classes : List (ClassDesc × Nat)) : List MethodDesc :=
  classes.flatMap fun (c, _) => if c.isInterface then [] else c.methods

section Classes

variable {addr h i g lower upper : Nat} {m : MethodDesc} {c : ClassDesc} {ms : List MethodDesc}
  {classes pre post : List (ClassDesc × Nat)}

theorem searchMethods_eq_none : searchMethods addr h i ms = none ↔ ∀ m ∈ ms, ¬ m.Covers addr := by
  unfold searchMethods
  rw [List.findSome?_eq_none_iff]
  constructor
  · intro hnone m hm hcov
    obtain ⟨j, hj⟩ := List.mem_iff_getElem?.mp hm
    have := hnone (m, j) (List.mem_zipIdx_iff_getElem?.mpr hj)
    simp [hcov] at this
  · intro hnone x hx
    have hx := List.mem_zipIdx_iff_getElem?.mp hx
    simp [hnone x.1 (List.mem_of_getElem? hx)]

theorem mem_implemented :
    m ∈ implemented classes ↔ ∃ x ∈ classes, x.1.isInterface = false ∧ m ∈ x.1.methods := by
  unfold implemented
  rw [List.mem_flatMap]
  refine exists_congr fun x => and_congr_right fun _ => ?_
  cases hc : x.1.isInterface <;> simp [hc]

theorem implemented_append : implemented (pre ++ post) = implemented pre ++ implemented post :=
  List.flatMap_append

theorem searchImplemented_append : searchImplemented addr h (pre ++ post) =
    (searchImplemented addr h pre).or (searchImplemented addr h post) :=
  List.findSome?_append

theorem searchImplemented_cons : searchImplemented addr h ((c, i) :: classes) =
    (if c.isInterface then none else searchMethods addr h i c.methods).or
      (searchImplemented addr h classes) := by
  rw [← List.singleton_append, searchImplemented_append]
  unfold searchImplemented
  rw [List.findSome?_singleton]

theorem searchImplemented_eq_none :
    searchImplemented addr h classes = none ↔ ∀ m ∈ implemented classes, ¬ m.Covers addr := by
  unfold searchImplemented
  rw [List.findSome?_eq_none_iff]
  constructor
  · intro hnone m hm
    obtain ⟨x, hx, hc, hm⟩ := mem_implemented.mp hm
    have hnone := hnone x hx
    simp only [hc, Bool.false_eq_true, if_false] at hnone
    exact searchMethods_eq_none.mp hnone m hm
  · intro hnone x hx
    cases hc : x.1.isInterface with
    | true => simp [hc]
    | false =>
      simp only [hc, Bool.false_eq_true, if_false]
      exact searchMethods_eq_none.mpr fun m hm => hnone m (mem_implemented.mpr ⟨x, hx, hc, hm⟩)

/-- A library keeps its order if interfaces are left out. -/
theorem implemented_sublist :
    (implemented classes).Sublist (classes.flatMap fun x => x.1.methods) := by
  induction classes with
  | nil => exact .slnil
  | cons x classes ih =>
    unfold implemented at ih ⊢
    rw [List.flatMap_cons, List.flatMap_cons]
    refine List.Sublist.append ?_ ih
    cases hc : x.1.isInterface with
    | true => simp [hc]
    | false => simp [hc]

theorem scan_of_find {bound : MethodDesc → Nat} {x : Nat}
    (hfind : ms.find? (fun m => bound m ≠ 0) = some m) : scan bound x ms = bound m := by
  induction ms generalizing x with
  | nil => cases hfind
  | cons a ms ih =>
    unfold scan
    by_cases ha : bound a ≠ 0
    · rw [if_pos ha]
      rw [List.find?_cons_of_pos (by simpa using ha)] at hfind
      rw [Option.some.inj hfind]
    · rw [if_neg ha]
      rw [List.find?_cons_of_neg (by simpa using ha)] at hfind
      exact ih hfind

/-- Methods with code are not before the first one. -/
theorem mem_drop_findIdx (hm : m ∈ ms) (hcode : m.code ≠ 0) :
    m ∈ ms.drop (ms.findIdx fun m => m.code ≠ 0) := by
  induction ms with
  | nil => cases hm
  | cons a ms ih =>
    by_cases ha : a.code = 0
    · rw [List.findIdx_cons]
      simp only [ne_eq, ha, not_true_eq_false, decide_false, cond_false, List.drop_succ_cons]
      rcases List.mem_cons.mp hm with rfl | hm
      · exact absurd ha hcode
      · exact ih hm
    · rw [List.findIdx_cons]
      simpa [ha] using hm

/-- The bounds of a class are no reason to leave it out, whatever they were before it. -/
theorem scan_bounds (lower upper : Nat) (hord : Ordered ms) (hm : m ∈ ms) (hcov : m.Covers addr) :
    scan MethodDesc.code lower ms ≤ addr ∧
      addr < scan MethodDesc.codeEnd upper
        (ms.drop (ms.findIdx fun m => m.code ≠ 0)).reverse := by
  have hcode := hord.code_ne_zero hm hcov
  constructor
  · obtain ⟨first, hfirst⟩ : ∃ first, ms.find? (fun m => m.code ≠ 0) = some first := by
      rw [← Option.isSome_iff_exists, List.find?_isSome]
      exact ⟨m, hm, by simpa using hcode⟩
    rw [scan_of_find hfirst]
    exact hord.lower_le hfirst hm hcov
  · have hm := mem_drop_findIdx hm hcode
    have hord : Ordered (ms.drop (ms.findIdx fun m => m.code ≠ 0)) :=
      hord.sublist (List.drop_sublist _ ms)
    obtain ⟨last, hlast⟩ : ∃ last, (ms.drop (ms.findIdx fun m => m.code ≠ 0)).reverse.find?
        (fun m => m.codeEnd ≠ 0) = some last := by
      rw [← Option.isSome_iff_exists, List.find?_isSome]
      refine ⟨m, List.mem_reverse.mpr hm, ?_⟩
      have : m.codeEnd ≠ 0 := by
        unfold MethodDesc.codeEnd
        omega
      simpa using this
    rw [scan_of_find hlast]
    exact hord.lt_upper hlast hm hcov

/-- The bounds make no difference for the classes in between. -/
theorem searchBetween_eq (hord : ∀ x ∈ classes, Ordered x.1.methods) :
    searchBetween addr h lower upper classes = searchImplemented addr h classes := by
  induction classes generalizing lower upper with
  | nil => rfl
  | cons x classes ih =>
    obtain ⟨c, i⟩ := x
    have ih : ∀ l u, searchBetween addr h l u classes = searchImplemented addr h classes :=
      fun l u => ih fun y hy => hord y (List.mem_cons_of_mem _ hy)
    unfold searchBetween
    rw [searchImplemented_cons]
    cases hc : c.isInterface with
    | true =>
      simp only [if_true, Option.none_or]
      exact ih lower upper
    | false =>
      simp only [Bool.false_eq_true, if_false, ih]
      split
      next hout =>
        -- No method of the class has the address.
        have hnone : searchMethods addr h i c.methods = none := by
          rw [searchMethods_eq_none]
          intro m hm hcov
          have hmethods : Ordered c.methods := hord (c, i) List.mem_cons_self
          have hbounds := scan_bounds lower upper hmethods hm hcov
          omega
        rw [hnone, Option.none_or]
      next => rfl

theorem lowClass_none (hlow : lowClass classes = none) : ∀ m ∈ implemented classes, m.code = 0 := by
  intro m hm
  obtain ⟨x, hx, hc, hm⟩ := mem_implemented.mp hm
  have hnone := List.findSome?_eq_none_iff.mp hlow x hx
  simp only [hc, Bool.false_eq_true, if_false, Option.map_eq_none_iff, List.find?_eq_none] at hnone
  simpa using hnone m hm

theorem lowClass_some (hlow : lowClass classes = some (i, lower)) :
    ∃ pre c post, classes = pre ++ (c, i) :: post ∧ (∀ m ∈ implemented pre, m.code = 0) ∧
      ∃ first, (implemented ((c, i) :: post)).find? (fun m => m.code ≠ 0) = some first ∧
        lower = first.code := by
  unfold lowClass at hlow
  obtain ⟨pre, ⟨c, j⟩, post, rfl, hhere, hpre⟩ := List.findSome?_eq_some_iff.mp hlow
  cases hc : c.isInterface with
  | true => simp [hc] at hhere
  | false =>
    simp only [hc, Bool.false_eq_true, if_false, Option.map_eq_some_iff, Prod.mk.injEq] at hhere
    obtain ⟨first, hfirst, rfl, rfl⟩ := hhere
    refine ⟨pre, c, post, rfl, ?_, first, ?_, rfl⟩
    · apply lowClass_none
      exact List.findSome?_eq_none_iff.mpr hpre
    · unfold implemented
      simp only [List.flatMap_cons, hc, Bool.false_eq_true, if_false]
      rw [List.find?_append, hfirst, Option.some_or]

theorem uppClass_none (hupp : uppClass classes = none) :
    ∀ m ∈ implemented classes, m.codeEnd = 0 := by
  intro m hm
  obtain ⟨x, hx, hc, hm⟩ := mem_implemented.mp hm
  have hnone := List.findSome?_eq_none_iff.mp hupp x (List.mem_reverse.mpr hx)
  simp only [hc, Bool.false_eq_true, if_false, Option.map_eq_none_iff, List.find?_eq_none] at hnone
  simpa using hnone m (List.mem_reverse.mpr hm)

theorem uppClass_some (hupp : uppClass classes = some (g, upper)) :
    ∃ pre c post, classes = pre ++ (c, g) :: post ∧ (∀ m ∈ implemented post, m.codeEnd = 0) ∧
      ∃ last, (implemented (pre ++ [(c, g)])).reverse.find? (fun m => m.codeEnd ≠ 0) = some last ∧
        upper = last.codeEnd := by
  unfold uppClass at hupp
  obtain ⟨post, ⟨c, j⟩, pre, hrev, hhere, hpost⟩ := List.findSome?_eq_some_iff.mp hupp
  have hclasses : classes = pre.reverse ++ (c, j) :: post.reverse := by
    rw [← List.reverse_reverse classes, hrev]
    simp
  cases hc : c.isInterface with
  | true => simp [hc] at hhere
  | false =>
    simp only [hc, Bool.false_eq_true, if_false, Option.map_eq_some_iff, Prod.mk.injEq] at hhere
    obtain ⟨last, hlast, rfl, rfl⟩ := hhere
    refine ⟨pre.reverse, c, post.reverse, hclasses, ?_, last, ?_, rfl⟩
    · apply uppClass_none
      unfold uppClass
      rw [List.reverse_reverse]
      exact List.findSome?_eq_none_iff.mpr hpost
    · rw [implemented_append, List.reverse_append, List.find?_append]
      have hone : implemented [(c, j)] = c.methods := by simp [implemented, hc]
      rw [hone, hlast, Option.some_or]

/-- The numbers of the classes are their places. -/
theorem zipIdx_split {n : Nat} {l : List ClassDesc} (hl : l.zipIdx n = pre ++ (c, i) :: post) :
    i = n + pre.length := by
  have hget : (l.zipIdx n)[pre.length]? = some (c, i) := by
    rw [hl]
    simp
  rw [List.getElem?_zipIdx, Option.map_eq_some_iff] at hget
  obtain ⟨_, _, heq⟩ := hget
  exact (Prod.mk.inj heq).2.symm

end Classes

/-! ## One library -/

section Library

variable {addr h : Nat} {lib lib' : LibDesc}

/-- The code of a library is in order, and its flag says what it means. -/
structure LibDesc.Sound (lib : LibDesc) : Prop where
  ordered : Ordered lib.methods
  flag : lib.hasNoImplementations = true → ∀ m ∈ implemented lib.allClasses.zipIdx, m.code = 0

theorem methods_eq : lib.methods = lib.allClasses.zipIdx.flatMap fun x => x.1.methods := by
  unfold LibDesc.methods
  conv_lhs => rw [← List.zipIdx_map_fst 0 lib.allClasses]
  rw [List.flatMap_map]

theorem LibDesc.Sound.implemented (hlib : lib.Sound) :
    Ordered (implemented lib.allClasses.zipIdx) :=
  hlib.ordered.sublist (methods_eq ▸ implemented_sublist)

theorem LibDesc.Sound.classes (hlib : lib.Sound) :
    ∀ x ∈ lib.allClasses.zipIdx, Ordered x.1.methods := by
  intro x hx
  refine hlib.ordered.sublist ?_
  rw [methods_eq, List.flatMap_def]
  exact List.sublist_flatten_of_mem (List.mem_map_of_mem hx)

/-- Methods without code have no addresses. -/
theorem searchImplemented_eq_none_of_abstract {classes : List (ClassDesc × Nat)}
    (hord : Ordered (implemented classes)) (hcode : ∀ m ∈ implemented classes, m.code = 0) :
    searchImplemented addr h classes = none := by
  rw [searchImplemented_eq_none]
  intro m hm hcov
  exact hord.code_ne_zero hm hcov (hcode m hm)

theorem searchImplemented_eq_none_of_ended {classes : List (ClassDesc × Nat)}
    (hend : ∀ m ∈ implemented classes, m.codeEnd = 0) :
    searchImplemented addr h classes = none := by
  rw [searchImplemented_eq_none]
  intro m hm hcov
  have := hend m hm
  unfold MethodDesc.codeEnd at this
  unfold MethodDesc.Covers at hcov
  omega

/-- Nothing is lost between the first and the last method with code. -/
theorem searchBounded_eq {g : Nat} {first last : MethodDesc} {c : ClassDesc}
    {rest mid post : List (ClassDesc × Nat)}
    (hord : Ordered (implemented rest)) (hmethods : ∀ x ∈ rest, Ordered x.1.methods)
    (hfirst : (implemented rest).find? (fun m => m.code ≠ 0) = some first)
    (hrest : rest = mid ++ (c, g) :: post) (hpost : ∀ m ∈ implemented post, m.codeEnd = 0)
    (hlast : (implemented (mid ++ [(c, g)])).reverse.find? (fun m => m.codeEnd ≠ 0) = some last) :
    (if addr < first.code ∨ addr ≥ last.codeEnd then none
      else searchBetween addr h first.code last.codeEnd (mid ++ [(c, g)])) =
      searchImplemented addr h rest := by
  have hsplit : rest = (mid ++ [(c, g)]) ++ post := by
    rw [hrest, List.append_assoc, List.singleton_append]
  have hsearch : searchImplemented addr h rest = searchImplemented addr h (mid ++ [(c, g)]) := by
    rw [hsplit, searchImplemented_append, searchImplemented_eq_none_of_ended hpost,
      Option.or_none]
  rw [hsearch, searchBetween_eq fun x hx => hmethods x (hsplit ▸ List.mem_append_left post hx)]
  split
  next hout =>
    symm
    rw [searchImplemented_eq_none]
    intro m hm hcov
    rw [hsplit, implemented_append] at hord hfirst
    have hlower := hord.lower_le hfirst (List.mem_append_left _ hm) hcov
    have hupper := (hord.sublist (List.sublist_append_left _ _)).lt_upper hlast hm hcov
    omega
  next => rfl

/-- The search of a library that has classes is the one of its classes that are no interfaces. -/
theorem searchLib_eq (hlib : lib.Sound) (hne : lib.allClasses ≠ []) :
    ∃ lib', searchLib addr h lib = .ok (searchImplemented addr h lib.allClasses.zipIdx, lib') ∧
      lib'.Sound ∧ lib'.allClasses = lib.allClasses := by
  have hord := hlib.implemented
  unfold searchLib
  rw [if_neg hne]
  split
  next hflag =>
    rw [searchImplemented_eq_none_of_abstract hord (hlib.flag hflag)]
    exact ⟨lib, rfl, hlib, rfl⟩
  next =>
    split
    next hlow =>
      have hcode := lowClass_none hlow
      rw [searchImplemented_eq_none_of_abstract hord hcode]
      exact ⟨_, rfl, ⟨hlib.ordered, fun _ => hcode⟩, rfl⟩
    next i lower hlow =>
      refine ⟨lib, ?_, hlib, rfl⟩
      obtain ⟨pre, c, post, hclasses, hpre, first, hfirst, rfl⟩ := lowClass_some hlow
      have hi : i = pre.length := by simpa using zipIdx_split hclasses
      have hdrop : lib.allClasses.zipIdx.drop i = (c, i) :: post := by
        rw [hclasses, hi, List.drop_left]
      rw [hdrop]
      rw [hclasses, implemented_append] at hord
      rw [hclasses, searchImplemented_append, searchImplemented_eq_none_of_abstract
        (hord.sublist (List.sublist_append_left _ _)) hpre, Option.none_or]
      replace hord := hord.sublist (List.sublist_append_right _ _)
      split
      next hupp =>
        rw [searchImplemented_eq_none_of_ended (uppClass_none hupp)]
        rfl
      next g upper hupp =>
        obtain ⟨mid, c', post', hrest, hpost, last, hlast, rfl⟩ := uppClass_some hupp
        have hg : g = pre.length + mid.length := by
          rw [hrest, ← List.append_assoc] at hclasses
          simpa using zipIdx_split hclasses
        have htake : ((c, i) :: post).take (g + 1 - i) = mid ++ [(c', g)] := by
          have hlen : g + 1 - i = (mid ++ [(c', g)]).length := by
            rw [hg, hi, List.length_append, List.length_singleton]
            omega
          rw [hrest, ← List.singleton_append, ← List.append_assoc, hlen, List.take_left]
        rw [htake]
        have hmethods : ∀ x ∈ (c, i) :: post, Ordered x.1.methods := by
          intro x hx
          exact hlib.classes x (hclasses ▸ List.mem_append_right pre hx)
        rw [← searchBounded_eq hord hmethods hfirst hrest hpost hlast]
        split
        next => rfl
        next => rfl

end Library

/-! ## All libraries -/

section Libraries

variable {addr h i j : Nat} {m m' : MethodDesc} {f : Found} {r : Option Found} {lib : LibDesc}
  {libs libs' : List LibDesc}

/-- Two places in a list are the same if their elements are not related. -/
theorem eq_of_pairwise {α : Type} {R : α → α → Prop} {l : List α} {a b : α}
    (hsymm : ∀ a b, R a b → R b a) (hl : l.Pairwise R) (hi : l[i]? = some a) (hj : l[j]? = some b)
    (hnot : ¬ R a b) : i = j := by
  obtain ⟨hilt, rfl⟩ := List.getElem?_eq_some_iff.mp hi
  obtain ⟨hjlt, rfl⟩ := List.getElem?_eq_some_iff.mp hj
  rw [List.pairwise_iff_getElem] at hl
  rcases Nat.lt_trichotomy i j with hlt | heq | hgt
  · exact absurd (hl i j hilt hjlt hlt) hnot
  · exact heq
  · exact absurd (hsymm _ _ (hl j i hjlt hilt hgt)) hnot

theorem Loaded.sound (hl : Loaded libs) (hlib : lib ∈ libs) : lib.Sound := by
  obtain ⟨code, hcode, ms, hms⟩ := hl.placed lib hlib
  refine ⟨hms ▸ ordered_setCodeStart hcode, ?_⟩
  intro hflag m hm
  obtain ⟨x, hx, hc, hm⟩ := mem_implemented.mp hm
  have hmem := List.mem_of_getElem? (List.mem_zipIdx_iff_getElem?.mp hx)
  exact hl.flag lib hlib hflag x.1 hmem hc m hm

theorem LibDesc.Sound.apart (hlib : lib.Sound) : (∀ c ∈ lib.allClasses, c.methods.Pairwise
      fun a b => ∀ addr, a.Covers addr → ¬ b.Covers addr) ∧
    lib.allClasses.Pairwise fun c c' => ∀ a ∈ c.methods, ∀ b ∈ c'.methods, ∀ addr,
      a.Covers addr → ¬ b.Covers addr :=
  List.pairwise_flatMap.mp hlib.ordered.apart

theorem mem_methods_iff :
    m ∈ lib.methods ↔ ∃ (i j : Nat) (c : ClassDesc),
      lib.allClasses[i]? = some c ∧ c.methods[j]? = some m := by
  unfold LibDesc.methods
  rw [List.mem_flatMap]
  constructor
  · rintro ⟨c, hc, hm⟩
    obtain ⟨i, hi⟩ := List.mem_iff_getElem?.mp hc
    obtain ⟨j, hj⟩ := List.mem_iff_getElem?.mp hm
    exact ⟨i, j, c, hi, hj⟩
  · rintro ⟨i, j, c, hi, hj⟩
    exact ⟨c, List.mem_of_getElem? hi, List.mem_of_getElem? hj⟩

/-- Numbers determine the method. -/
theorem IsMethod.eq (hm : IsMethod libs h i j m) (hm' : IsMethod libs h i j m') : m = m' := by
  obtain ⟨lib, c, hlib, hc, hm⟩ := hm
  obtain ⟨lib', c', hlib', hc', hm'⟩ := hm'
  obtain rfl := Option.some.inj (hlib.symm.trans hlib')
  obtain rfl := Option.some.inj (hc.symm.trans hc')
  exact Option.some.inj (hm.symm.trans hm')

/-- And an address determines the numbers. -/
theorem IsMethod.unique {h' i' j' : Nat} (hl : Loaded libs) (hm : IsMethod libs h i j m)
    (hm' : IsMethod libs h' i' j' m') (hcov : m.Covers addr) (hcov' : m'.Covers addr) :
    h = h' ∧ i = i' ∧ j = j' := by
  obtain ⟨lib, c, hlib, hc, hm⟩ := hm
  obtain ⟨lib', c', hlib', hc', hm'⟩ := hm'
  have hmem := mem_methods_iff.mpr ⟨i, j, c, hc, hm⟩
  have hmem' := mem_methods_iff.mpr ⟨i', j', c', hc', hm'⟩
  obtain rfl : h = h' := eq_of_pairwise
    (fun a b hab m hm m' hm' x hx hx' => hab m' hm' m hm x hx' hx) hl.apart hlib hlib'
    fun hnot => hnot m hmem m' hmem' addr hcov hcov'
  obtain rfl := Option.some.inj (hlib.symm.trans hlib')
  have hapart := (hl.sound (List.mem_of_getElem? hlib)).apart
  obtain rfl : i = i' := eq_of_pairwise
    (fun a b hab m hm m' hm' x hx hx' => hab m' hm' m hm x hx' hx) hapart.2 hc hc'
    fun hnot => hnot m (List.mem_of_getElem? hm) m' (List.mem_of_getElem? hm') addr hcov hcov'
  obtain rfl := Option.some.inj (hc.symm.trans hc')
  have hmethods := hapart.1 c (List.mem_of_getElem? hc)
  exact ⟨rfl, rfl, eq_of_pairwise (fun a b hab x hx hx' => hab x hx' hx) hmethods hm hm'
    fun hnot => hnot addr hcov hcov'⟩

/-! ### The plain search -/

theorem searchMethods_some {ms : List MethodDesc} (hf : searchMethods addr h i ms = some f) :
    ∃ j m, ms[j]? = some m ∧ m.Covers addr ∧ f = report addr h i j m := by
  unfold searchMethods at hf
  obtain ⟨⟨m, j⟩, hx, hf⟩ := List.exists_of_findSome?_eq_some hf
  have hget := List.mem_zipIdx_iff_getElem?.mp hx
  by_cases hcov : m.Covers addr
  · simp only [hcov, if_true, Option.some.injEq] at hf
    exact ⟨j, m, hget, hcov, hf.symm⟩
  · simp [hcov] at hf

theorem searchClasses_cons {c : ClassDesc} {classes : List (ClassDesc × Nat)} :
    searchClasses addr h ((c, i) :: classes) =
      (searchMethods addr h i c.methods).or (searchClasses addr h classes) := by
  unfold searchClasses
  rw [← List.singleton_append, List.findSome?_append, List.findSome?_singleton]

theorem searchClasses_some {classes : List ClassDesc}
    (hf : searchClasses addr h classes.zipIdx = some f) :
    ∃ i j c m, classes[i]? = some c ∧ c.methods[j]? = some m ∧ m.Covers addr ∧
      f = report addr h i j m := by
  unfold searchClasses at hf
  obtain ⟨⟨c, i⟩, hx, hf⟩ := List.exists_of_findSome?_eq_some hf
  obtain ⟨j, m, hm, hcov, hf⟩ := searchMethods_some hf
  exact ⟨i, j, c, m, List.mem_zipIdx_iff_getElem?.mp hx, hm, hcov, hf⟩

theorem searchClasses_none :
    searchClasses addr h lib.allClasses.zipIdx = none ↔ ∀ m ∈ lib.methods, ¬ m.Covers addr := by
  unfold searchClasses
  rw [List.findSome?_eq_none_iff, methods_eq]
  constructor
  · intro hnone m hm
    obtain ⟨x, hx, hm⟩ := List.mem_flatMap.mp hm
    exact searchMethods_eq_none.mp (hnone x hx) m hm
  · intro hnone x hx
    exact searchMethods_eq_none.mpr fun m hm => hnone m (List.mem_flatMap.mpr ⟨x, hx, hm⟩)

theorem searchLibs_some (hf : searchLibs addr h libs = some f) :
    ∃ k i j m, IsMethod libs k i j m ∧ m.Covers addr ∧ f = report addr (h + k) i j m := by
  induction libs generalizing h with
  | nil => cases hf
  | cons lib libs ih =>
    unfold searchLibs at hf
    rcases Option.or_eq_some_iff.mp hf with hf | ⟨-, hf⟩
    · obtain ⟨i, j, c, m, hc, hm, hcov, hf⟩ := searchClasses_some hf
      exact ⟨0, i, j, m, ⟨lib, c, rfl, hc, hm⟩, hcov, hf⟩
    · obtain ⟨k, i, j, m, ⟨lib', c, hlib, hc, hm⟩, hcov, hf⟩ := ih hf
      refine ⟨k + 1, i, j, m, ⟨lib', c, hlib, hc, hm⟩, hcov, ?_⟩
      rw [hf]
      congr 1
      omega

theorem searchLibs_none :
    searchLibs addr h libs = none ↔ ∀ lib ∈ libs, ∀ m ∈ lib.methods, ¬ m.Covers addr := by
  induction libs generalizing h with
  | nil => simp [searchLibs]
  | cons lib libs ih =>
    unfold searchLibs
    rw [Option.or_eq_none_iff, searchClasses_none, ih, List.forall_mem_cons]

/-- A method is found by each of its addresses. -/
theorem findMethodAtAddrInDomain_eq (hl : Loaded libs) (hm : IsMethod libs h i j m)
    (hcov : m.Covers addr) : findMethodAtAddrInDomain addr libs = some (report addr h i j m) := by
  obtain ⟨lib, c, hlib, hc, hj⟩ := hm
  have hmem := mem_methods_iff.mpr ⟨i, j, c, hc, hj⟩
  have hcode := (hl.sound (List.mem_of_getElem? hlib)).ordered.code_ne_zero hmem hcov
  have hne : addr ≠ 0 := by
    have := hcov.1
    omega
  unfold findMethodAtAddrInDomain
  rw [if_neg hne]
  cases hf : searchLibs addr 0 libs with
  | none => exact absurd hcov (searchLibs_none.mp hf lib (List.mem_of_getElem? hlib) m hmem)
  | some f =>
    obtain ⟨h', i', j', m', hm', hcov', rfl⟩ := searchLibs_some hf
    have hm : IsMethod libs h i j m := ⟨lib, c, hlib, hc, hj⟩
    obtain ⟨rfl, rfl, rfl⟩ := hm.unique hl hm' hcov hcov'
    rw [hm.eq hm', Nat.zero_add]

/-! ### The other search -/

theorem fasterLibs_cons {lib' : LibDesc} (hlib : searchLib addr h lib = .ok (r, lib')) :
    fasterLibs addr h (lib :: libs) =
      if r.isSome then .ok (r, lib' :: libs)
      else (fasterLibs addr (h + 1) libs).map fun x => (x.1, lib' :: x.2) := by
  rw [fasterLibs, hlib]
  cases r with
  | some f => rfl
  | none =>
    cases fasterLibs addr (h + 1) libs with
    | error e => rfl
    | ok x => rfl

theorem map_ok_iff {x : Except Stop (Option Found × List LibDesc)} {lib' : LibDesc} :
    (∃ libs', (x.map fun y => (y.1, lib' :: y.2)) = .ok (r, libs')) ↔
      ∃ libs', x = .ok (r, libs') := by
  cases x with
  | error e => simp [Except.map]
  | ok y => simp [Except.map, Prod.ext_iff]

theorem fasterLibs_empty (hlib : lib.allClasses = []) :
    fasterLibs addr h (lib :: libs) = .error (.panic "empty lib") := by
  have hsearch : searchLib addr h lib = .error (.panic "empty lib") := by
    unfold searchLib
    rw [if_pos hlib]
    rfl
  rw [fasterLibs, hsearch]
  rfl

/-- Interfaces make no difference unless the address is in one of them. -/
theorem searchImplemented_eq {classes : List (ClassDesc × Nat)}
    (hface : ∀ x ∈ classes, x.1.isInterface = true → ∀ m ∈ x.1.methods, ¬ m.Covers addr) :
    searchImplemented addr h classes = searchClasses addr h classes := by
  induction classes with
  | nil => rfl
  | cons x classes ih =>
    obtain ⟨c, i⟩ := x
    have hhere : (if c.isInterface then none else searchMethods addr h i c.methods) =
        searchMethods addr h i c.methods := by
      cases hc : c.isInterface with
      | false => rfl
      | true => exact (searchMethods_eq_none.mpr (hface (c, i) List.mem_cons_self hc)).symm
    rw [searchImplemented_cons, searchClasses_cons, hhere]
    rw [ih fun y hy => hface y (List.mem_cons_of_mem _ hy)]

/-- If it is in one of them, no other class has it. -/
theorem searchImplemented_interface {c : ClassDesc} (hlib : lib.Sound) (hc : c ∈ lib.allClasses)
    (hface : c.isInterface = true) (hm : m ∈ c.methods) (hcov : m.Covers addr) :
    searchImplemented addr h lib.allClasses.zipIdx = none := by
  rw [searchImplemented_eq_none]
  intro m' hm' hcov'
  obtain ⟨⟨c', i⟩, hx, hc', hm'⟩ := mem_implemented.mp hm'
  have hget' := List.mem_zipIdx_iff_getElem?.mp hx
  obtain ⟨k, hget⟩ := List.mem_iff_getElem?.mp hc
  obtain rfl : k = i := eq_of_pairwise
    (fun a b hab m hm m' hm' x hx hx' => hab m' hm' m hm x hx' hx) hlib.apart.2 hget hget'
    fun hnot => hnot m hm m' hm' addr hcov hcov'
  obtain rfl := Option.some.inj (hget.symm.trans hget')
  rw [hface] at hc'
  cases hc'

theorem fasterLibs_none (hlibs : ∀ lib ∈ libs, lib.Sound)
    (hnone : ∀ lib ∈ libs, ∀ m ∈ lib.methods, ¬ m.Covers addr)
    (hr : fasterLibs addr h libs = .ok (r, libs')) : r = none := by
  induction libs generalizing h r libs' with
  | nil =>
    cases hr
    rfl
  | cons lib libs ih =>
    by_cases hne : lib.allClasses = []
    · rw [fasterLibs_empty hne] at hr
      cases hr
    · obtain ⟨lib', hlib, -⟩ := searchLib_eq (hlibs lib List.mem_cons_self) hne
      have hhere : searchImplemented addr h lib.allClasses.zipIdx = none := by
        rw [searchImplemented_eq_none]
        intro m hm
        exact hnone lib List.mem_cons_self m (methods_eq ▸ implemented_sublist.subset hm)
      rw [fasterLibs_cons hlib, hhere, Option.isSome_none, if_neg Bool.false_ne_true] at hr
      cases hrest : fasterLibs addr (h + 1) libs with
      | error e =>
        rw [hrest] at hr
        cases hr
      | ok x =>
        rw [hrest] at hr
        cases hr
        exact ih (fun l hl => hlibs l (List.mem_cons_of_mem _ hl))
          (fun l hl => hnone l (List.mem_cons_of_mem _ hl)) hrest

/-- The two searches agree exactly if nothing is left out wrongly. -/
theorem same_iff_prunable (hlibs : ∀ lib ∈ libs, lib.Sound)
    (hapart : libs.Pairwise fun a b => ∀ m ∈ a.methods, ∀ m' ∈ b.methods, ∀ addr,
      m.Covers addr → ¬ m'.Covers addr) :
    (∃ libs', fasterLibs addr h libs = .ok (searchLibs addr h libs, libs')) ↔
      Prunable addr libs := by
  induction libs generalizing h with
  | nil => exact iff_of_true ⟨[], rfl⟩ trivial
  | cons lib libs ih =>
    have hsound := hlibs lib List.mem_cons_self
    have hrests := fun l hl => hlibs l (List.mem_cons_of_mem lib hl)
    have ⟨hhead, htail⟩ := List.pairwise_cons.mp hapart
    unfold Prunable searchLibs
    by_cases hne : lib.allClasses = []
    · refine iff_of_false ?_ fun h => h.1 hne
      rw [fasterLibs_empty hne]
      rintro ⟨_, hr⟩
      cases hr
    obtain ⟨lib', hlib, -⟩ := searchLib_eq hsound hne
    rw [fasterLibs_cons hlib]
    by_cases hface : ∀ c ∈ lib.allClasses, c.isInterface = true → ∀ m ∈ c.methods, ¬ m.Covers addr
    · have hsame := searchImplemented_eq (h := h) fun x hx =>
        hface x.1 (List.mem_of_getElem? (List.mem_zipIdx_iff_getElem?.mp hx))
      rw [hsame]
      by_cases hany : ∃ m ∈ lib.methods, m.Covers addr
      · obtain ⟨f, hf⟩ : ∃ f, searchClasses addr h lib.allClasses.zipIdx = some f := by
          by_contra hnone
          rw [← Option.ne_none_iff_exists', not_not, searchClasses_none] at hnone
          obtain ⟨m, hm, hcov⟩ := hany
          exact hnone m hm hcov
        rw [hf, Option.isSome_some, if_pos rfl, Option.some_or]
        exact iff_of_true ⟨_, rfl⟩ ⟨hne, hface, .inl hany⟩
      · have hnone : searchClasses addr h lib.allClasses.zipIdx = none := by
          rw [searchClasses_none]
          exact fun m hm hcov => hany ⟨m, hm, hcov⟩
        rw [hnone, Option.isSome_none, if_neg Bool.false_ne_true, Option.none_or, map_ok_iff,
          ih hrests htail]
        exact ⟨fun h => ⟨hne, hface, .inr h⟩, fun h => h.2.2.resolve_left hany⟩
    · -- The plain search finds the interface, the other one nothing.
      refine iff_of_false ?_ fun h => hface h.2.1
      push Not at hface
      obtain ⟨c, hc, hint, m, hm, hcov⟩ := hface
      have hmem : m ∈ lib.methods := List.mem_flatMap.mpr ⟨c, hc, hm⟩
      rw [searchImplemented_interface hsound hc hint hm hcov, Option.isSome_none,
        if_neg Bool.false_ne_true, map_ok_iff]
      rintro ⟨libs', hr⟩
      have hnone := fasterLibs_none hrests
        (fun l hl m' hm' hcov' => hhead l hl m hmem m' hm' addr hcov hcov') hr
      rw [Option.or_eq_none_iff, searchClasses_none] at hnone
      exact hnone.1 m hmem hcov

/-! ### Both -/

theorem same_iff (hl : Loaded libs) :
    (∃ libs', fasterMethodLookup addr libs = .ok (findMethodAtAddrInDomain addr libs, libs')) ↔
      (addr ≠ 0 → Prunable addr libs) := by
  unfold fasterMethodLookup findMethodAtAddrInDomain
  by_cases haddr : addr = 0
  · rw [if_pos haddr, if_pos haddr]
    exact iff_of_true ⟨libs, rfl⟩ fun hne => absurd haddr hne
  · rw [if_neg haddr, if_neg haddr, same_iff_prunable (fun _ => hl.sound) hl.apart]
    exact ⟨fun h _ => h, fun h => h haddr⟩

theorem findMethodAtAddrInDomain_some (hf : findMethodAtAddrInDomain addr libs = some f) :
    ∃ h i j m, IsMethod libs h i j m ∧ m.Covers addr ∧ f = report addr h i j m := by
  unfold findMethodAtAddrInDomain at hf
  split at hf
  · cases hf
  · obtain ⟨h, i, j, m, hm, hcov, hf⟩ := searchLibs_some hf
    rw [Nat.zero_add] at hf
    exact ⟨h, i, j, m, hm, hcov, hf⟩

/-- The line of a report is the right one exactly if the table passes the position properly. -/
theorem report_lineNumber_iff :
    (report addr h i j m).lineNumber =
        (if findByteCodePosition m addr ≠ -1 then
          lastLine (findByteCodePosition m addr) m.sourceLineTable else -1) ↔
      (findByteCodePosition m addr ≠ -1 →
        Passes (findByteCodePosition m addr) m.sourceLineTable) := by
  unfold report
  by_cases hpos : findByteCodePosition m addr ≠ -1
  · simp only [if_pos hpos, findLine_eq_lastLine_iff]
    exact ⟨fun h _ => h, fun h => h hpos⟩
  · simp only [if_neg hpos]
    exact iff_of_true trivial fun h => absurd h hpos

/-- The searches are right exactly if no library is empty up to the one with the address, the
address is not in an interface, and the position is not in the last entry of the table of lines. -/
theorem correct_iff_prunable_and_passes (hl : Loaded libs) : Correct addr libs ↔
    (addr ≠ 0 → Prunable addr libs) ∧
      ∀ h i j m, IsMethod libs h i j m → m.Covers addr → findByteCodePosition m addr ≠ -1 →
        Passes (findByteCodePosition m addr) m.sourceLineTable := by
  rw [← same_iff hl]
  constructor
  · intro hcorrect
    refine ⟨hcorrect.same, ?_⟩
    intro h i j m hm hcov
    obtain ⟨m', hm', -, -, hline⟩ := hcorrect.found _ (findMethodAtAddrInDomain_eq hl hm hcov)
    obtain rfl := hm.eq hm'
    exact report_lineNumber_iff.mp hline
  · rintro ⟨hsame, hpasses⟩
    refine ⟨hsame, ?_, ?_⟩
    · intro f hf
      obtain ⟨h, i, j, m, hm, hcov, rfl⟩ := findMethodAtAddrInDomain_some hf
      exact ⟨m, hm, hcov, rfl, report_lineNumber_iff.mpr (hpasses h i j m hm hcov)⟩
    · intro h i j m hm hcov
      exact ⟨_, findMethodAtAddrInDomain_eq hl hm hcov, rfl, rfl, rfl⟩

end Libraries

/-! ## A method with two lines -/

/-- Ten bytes of code at address 100, five for each line. -/
def twoLines : MethodDesc :=
  { code := 100, numberOfCodeBytes := 10
    bytecodeTable := [⟨0, 0, 4⟩, ⟨3, 5, 9⟩]
    sourceLineTable := [⟨0, 20⟩, ⟨3, 21⟩] }

def twoLinesLibs : List LibDesc :=
  [{ allClasses := [{ classType := .ordinary, methods := [twoLines] }]
     hasNoImplementations := false }]

theorem loaded_twoLines : Loaded twoLinesLibs where
  placed := by
    intro lib hlib
    rw [List.mem_singleton.mp hlib]
    exact ⟨100, by decide, [twoLines], rfl⟩
  apart := List.pairwise_singleton _ _
  flag := by
    intro lib hlib hflag
    rw [List.mem_singleton.mp hlib] at hflag
    cases hflag

theorem isMethod_twoLines {h i j : Nat} {m : MethodDesc} (hm : IsMethod twoLinesLibs h i j m) :
    m = twoLines := by
  obtain ⟨lib, c, hlib, hc, hm⟩ := hm
  have hlib := List.mem_singleton.mp (List.mem_of_getElem? hlib)
  subst hlib
  have hc := List.mem_singleton.mp (List.mem_of_getElem? hc)
  subst hc
  exact List.mem_singleton.mp (List.mem_of_getElem? hm)

/-- The first line is found. -/
theorem correct_firstLine : Loaded twoLinesLibs ∧ Correct 102 twoLinesLibs := by
  refine ⟨loaded_twoLines, (correct_iff_prunable_and_passes loaded_twoLines).mpr ⟨?_, ?_⟩⟩
  · intro _
    refine ⟨List.cons_ne_nil _ _, ?_, .inl ⟨twoLines, List.mem_cons_self, by decide⟩⟩
    intro c hc hint
    rw [List.mem_singleton.mp hc] at hint
    cases hint
  · intro h i j m hm _ _
    rw [isMethod_twoLines hm]
    intro e he
    cases he

/-- The second is the last one, and not found. -/
theorem not_correct_lastLine :
    Loaded twoLinesLibs ∧ findMethodAtAddrInDomain 107 twoLinesLibs = some ⟨0, 0, 0, 3, -1⟩ ∧
      lastLine 3 twoLines.sourceLineTable = 21 ∧ ¬ Correct 107 twoLinesLibs := by
  have hfound : findMethodAtAddrInDomain 107 twoLinesLibs = some ⟨0, 0, 0, 3, -1⟩ := by decide
  refine ⟨loaded_twoLines, hfound, rfl, fun hcorrect => ?_⟩
  obtain ⟨m, hm, -, -, hline⟩ := hcorrect.found ⟨0, 0, 0, 3, -1⟩ hfound
  rw [isMethod_twoLines hm] at hline
  revert hline
  decide

end JxCore.MethodLookup
