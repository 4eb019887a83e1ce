import JxCore.Basic
import Mathlib.Data.Finset.Lattice.Fold
import Mathlib.Data.Set.Finite.Basic
import Mathlib.Logic.Relation
import Mathlib.Order.WellFounded

/-!
# Assignability (`core/vmsupport.c`)

`check_assign` decides whether a reference of one class can be stored in a variable of another. It
looks for an interface by two routines that call each other: one goes along the superclasses, the
other along the interfaces, and both come by the same classes several times.

What they decide is reachability, whatever the shape of the hierarchy is. That a class can be found
among the superclasses alone needs the rules of Java, which `Hierarchy` states.

All of them look first whether there is enough of the stack left, and stop the machine if not. How deep
they go is bounded by the height of the hierarchy.
-/

namespace JxCore.Assign

open Exec

/-! ## Classes -/

/-- `CLASSTYPE_CLASS`, `CLASSTYPE_INTERFACE`, `CLASSTYPE_ARRAYCLASS` and `CLASSTYPE_PRIMITIVE`. -/
inductive ClassType where
  | ordinary
  | interface
  | arrayClass
  | primitive
  deriving DecidableEq, Repr

/-- The part of a class descriptor that is looked at; `elementClass` is there for array classes. -/
structure ClassDesc where
  classType : ClassType
  name : List Char
  superclass : Option Nat
  interfaces : List Nat
  elementClass : Nat

/-- The class descriptors, by address. -/
structure Classes where
  desc : Nat → ClassDesc
  javaLangObject : Nat

namespace Classes

variable (cs : Classes)

def isArrayClass (c : Nat) : Bool := (cs.desc c).name.head? = some '['

def isInterface (c : Nat) : Bool := (cs.desc c).classType = .interface

/-! ## The routines -/

end Classes

/-- The routines that look at the stack. -/
inductive Routine where
  | isSubclassOf
  | isSubinterfaceOf
  | implementsInterface
  | checkAssign
  deriving DecidableEq, Repr

/-- What the compiler decides: by how many bytes the first argument of the second routine lies below
that of the first one, by which it is called. -/
abbrev Frames := Routine → Routine → Nat

namespace Classes

variable (cs : Classes)

/-- The loop of `is_subclass_of`. -/
def subclassLoop : (fuel subclass superclass : Nat) → Exec Bool
  | 0, _, _ => loop none
  | fuel + 1, subclass, superclass =>
    match (cs.desc subclass).superclass with
    | none => pure false
    | some c => if c = superclass then pure true else subclassLoop fuel c superclass

/-- `room` is what `checkStackSize` finds, here and in the other routines. -/
def isSubclassOf (room fuel subclass superclass : Nat) : Exec Bool :=
  if subclass = superclass then
    pure true
  else do
    checkStackSize room 10
    cs.subclassLoop fuel subclass superclass

end Classes

/-- A loop over the interfaces, which ends when the test succeeds. -/
def anyOf (test : Nat → Exec Bool) : List Nat → Exec Bool
  | [] => pure false
  | i :: is => do
    if ← test i then pure true else anyOf test is

namespace Classes

mutual

/-- `is_subinterface_of`. -/
def isSubinterfaceOf (cs : Classes) (frame : Frames) : (fuel room subif superif : Nat) → Exec Bool
  | 0, _, _, _ => loop none
  | fuel + 1, room, subif, superif =>
    if subif = superif then
      pure true
    else do
      checkStackSize room 10
      subinterfaceLoop cs frame fuel room subif superif

/-- The loop of `is_subinterface_of`. -/
def subinterfaceLoop (cs : Classes) (frame : Frames) : (fuel room subif superif : Nat) → Exec Bool
  | 0, _, _, _ => loop none
  | fuel + 1, room, subif, superif =>
    match (cs.desc subif).superclass with
    | none => pure false
    | some c =>
      if c = superif then
        pure true
      else do
        if ← implementsInterface cs frame fuel
          (room - frame .isSubinterfaceOf .implementsInterface) c superif then pure true
        else subinterfaceLoop cs frame fuel room c superif

/-- `implements_interface`. -/
def implementsInterface (cs : Classes) (frame : Frames) : (fuel room c ifa : Nat) → Exec Bool
  | 0, _, _, _ => loop none
  | fuel + 1, room, c, ifa => do
    checkStackSize room 124
    if ← isSubinterfaceOf cs frame fuel
      (room - frame .implementsInterface .isSubinterfaceOf) c ifa then pure true
    else
      anyOf (fun i => do
        if ← implementsInterface cs frame fuel
          (room - frame .implementsInterface .implementsInterface) i ifa then
          pure true
        else
          isSubinterfaceOf cs frame fuel (room - frame .implementsInterface .isSubinterfaceOf) i ifa)
        (cs.desc c).interfaces

end

variable (cs : Classes) (frame : Frames)

/-- `check_assign`. -/
def checkAssign : (fuel room variableClass referenceClass : Nat) → Exec Bool
  | 0, _, _, _ => loop none
  | fuel + 1, room, variableClass, referenceClass =>
    if variableClass = referenceClass then
      pure true
    else do
      checkStackSize room 20
      if cs.isArrayClass referenceClass then
        if variableClass = cs.javaLangObject then
          pure true
        else if ¬ cs.isArrayClass variableClass then
          pure false
        else
          checkAssign fuel (room - frame .checkAssign .checkAssign) (cs.desc variableClass).elementClass
            (cs.desc referenceClass).elementClass
      else if ← cs.isSubclassOf (room - frame .checkAssign .isSubclassOf) fuel referenceClass
          variableClass then
        pure true
      else if cs.isInterface variableClass then
        cs.implementsInterface frame fuel (room - frame .checkAssign .implementsInterface)
          referenceClass variableClass
      else
        pure false

/-! ## What is assignable -/

/-- `d` is the superclass of `c` or one of the interfaces that `c` implements or extends. -/
def Above (c d : Nat) : Prop := (cs.desc c).superclass = some d ∨ d ∈ (cs.desc c).interfaces

/-- `d` can be reached from `c`. -/
def Reaches : Nat → Nat → Prop := Relation.ReflTransGen cs.Above

/-- A reference of the second class can be stored in a variable of the first one. -/
inductive Assignable : Nat → Nat → Prop
  | reaches {v r : Nat} (h : cs.Reaches r v) : Assignable v r
  | object {r : Nat} (hr : cs.isArrayClass r) : Assignable cs.javaLangObject r
  | array {v r : Nat} (hv : cs.isArrayClass v) (hr : cs.isArrayClass r)
      (h : Assignable (cs.desc v).elementClass (cs.desc r).elementClass) : Assignable v r

/-- `d` is among the superclasses of `c`. -/
def Extends : Nat → Nat → Prop :=
  Relation.ReflTransGen fun c d => (cs.desc c).superclass = some d

/-- An acyclic hierarchy that obeys the rules for class files. -/
structure Hierarchy : Prop where
  acyclic : WellFounded fun d c =>
    cs.Above c d ∨ cs.isArrayClass c ∧ d = (cs.desc c).elementClass
  /-- Only interfaces are implemented. -/
  interfaces : ∀ c, ∀ d ∈ (cs.desc c).interfaces, cs.isInterface d
  /-- An interface has no superclass but `java/lang/Object`. -/
  superOfInterface : ∀ c d, cs.isInterface c → (cs.desc c).superclass = some d →
    d = cs.javaLangObject
  /-- What implements an interface is an object. -/
  rooted : ∀ c, (cs.desc c).interfaces ≠ [] → cs.Extends c cs.javaLangObject
  /-- `java/lang/Object` is on top, and it is no interface. -/
  object : (cs.desc cs.javaLangObject).superclass = none ∧
    (cs.desc cs.javaLangObject).interfaces = [] ∧ ¬ cs.isArrayClass cs.javaLangObject
  /-- Array classes have elements instead of a superclass, and nothing is derived from them. -/
  arrays : ∀ c, cs.isArrayClass c → (cs.desc c).superclass = none ∧ (cs.desc c).interfaces = []
  noArrays : ∀ c d, cs.Above c d → ¬ cs.isArrayClass d

/-- A class is higher than what is above it, and than the elements of its arrays. -/
def Ranked (rank : Nat → Nat) : Prop :=
  ∀ c d, cs.Above c d ∨ cs.isArrayClass c ∧ d = (cs.desc c).elementClass → rank d < rank c

end Classes

/-- Where everything has finitely many predecessors only, there are heights. -/
theorem exists_height {α : Type} {r : α → α → Prop} (hwf : WellFounded r)
    (hfinite : ∀ c, {d | r d c}.Finite) : ∃ height : α → Nat, ∀ c d, r d c → height d < height c := by
  classical
  let height : α → Nat := hwf.fix fun c ih =>
    (hfinite c).toFinset.sup fun d => if h : r d c then ih d h + 1 else 0
  refine ⟨height, fun c d hdc => ?_⟩
  have hmem : d ∈ (hfinite c).toFinset := (hfinite c).mem_toFinset.mpr hdc
  have hle := Finset.le_sup (f := fun d => if r d c then height d + 1 else 0) hmem
  have heq : height c = (hfinite c).toFinset.sup fun d => if r d c then height d + 1 else 0 := by
    refine (hwf.fix_eq _ c).trans (Finset.sup_congr rfl fun e _ => ?_)
    exact dite_eq_ite
  rw [heq]
  exact Nat.lt_of_lt_of_le (Nat.lt_succ_self _) (by simpa [hdc] using hle)

theorem Classes.Hierarchy.exists_ranked {cs : Classes} (h : cs.Hierarchy) :
    ∃ rank, cs.Ranked rank := by
  refine exists_height h.acyclic fun c => ?_
  have hsub : {d | cs.Above c d ∨ cs.isArrayClass c ∧ d = (cs.desc c).elementClass} ⊆
      {d | d ∈ (cs.desc c).superclass.toList ++ (cs.desc c).interfaces ++ [(cs.desc c).elementClass]} := by
    rintro d ((hsuper | hinterface) | ⟨-, rfl⟩) <;> simp_all
  exact (List.finite_toSet _).subset hsub

/-! ## The stack -/

/-- What `implements_interface` needs of the stack for a class of height `n`, if no frame is larger
than `size`. -/
def interfaceRoom (size n : Nat) : Nat := 4 * 124 + size * (2 * n + 1)

/-- What `check_assign` needs. -/
def assignRoom (size n : Nat) : Nat := interfaceRoom size n + size

theorem interfaceRoom_succ (size n : Nat) :
    interfaceRoom size (n + 1) = interfaceRoom size n + 2 * size := by
  have hmul : size * (2 * n + 1 + 2) = size * (2 * n + 1) + size * 2 := Nat.mul_add ..
  unfold interfaceRoom
  rw [show 2 * (n + 1) + 1 = 2 * n + 1 + 2 by omega, hmul]
  omega

theorem interfaceRoom_of_lt (size : Nat) {m n : Nat} (h : m < n) :
    interfaceRoom size m + 2 * size ≤ interfaceRoom size n := by
  rw [← interfaceRoom_succ]
  exact Nat.add_le_add_left (Nat.mul_le_mul_left size (by omega)) _

theorem interfaceRoom_large (size n : Nat) : 496 + size ≤ interfaceRoom size n := by
  have hmul := Nat.mul_le_mul_left size (show 1 ≤ 2 * n + 1 by omega)
  unfold interfaceRoom
  omega

/-! ## Routines that decide something -/

/-- The routine says whether `p` holds, or, where it is not `roomy`, the check of the stack stops it. -/
def Decides (roomy : Prop) (call : Nat → Exec Bool) (p : Prop) : Prop :=
  (∃ b, Returns call b ∧ (b = true ↔ p)) ∨ ¬ roomy ∧ Stops call (.panic "")

section Decides

variable {call next : Nat → Exec Bool} {p q roomy roomy' : Prop}

theorem Decides.congr (h : Decides roomy call p) (hpq : p ↔ q) : Decides roomy call q :=
  h.imp_left fun ⟨b, hb, hp⟩ => ⟨b, hb, hp.trans hpq⟩

theorem Decides.mono (h : Decides roomy' call p) (himp : roomy → roomy') : Decides roomy call p :=
  h.imp_right fun ⟨hnot, hstops⟩ => ⟨fun hroomy => hnot (himp hroomy), hstops⟩

theorem Decides.returns (h : Decides roomy call p) (hroomy : roomy) :
    ∃ b, Returns call b ∧ (b = true ↔ p) :=
  h.resolve_right fun hstops => hstops.1 hroomy

/-- An answer that is given is right. -/
theorem Decides.iff_of_returns {b : Bool} (h : Decides roomy call p) (hb : Returns call b) :
    b = true ↔ p := by
  rcases h with ⟨b', hb', hiff⟩ | ⟨-, hstops⟩
  · rw [hb.unique hb']
    exact hiff
  · exact (hstops.not_returns hb).elim

/-- What does not come back has been stopped. -/
theorem Decides.settled (h : Decides roomy call p) : Decides (∃ b, Returns call b) call p :=
  h.imp_right fun ⟨_, hstops⟩ => ⟨fun ⟨_, hb⟩ => hstops.not_returns hb, hstops⟩

theorem decides_true (hp : p) : Decides roomy (fun _ => pure true) p :=
  .inl ⟨true, .pure true, by simp [hp]⟩

theorem decides_false (hp : ¬ p) : Decides roomy (fun _ => pure false) p :=
  .inl ⟨false, .pure false, by simp [hp]⟩

/-- One step of a recursion. -/
theorem Decides.of_succ (h : Decides roomy next p) (hnext : ∀ fuel, call (fuel + 1) = next fuel) :
    Decides roomy call p := by
  rcases h with ⟨b, hb, hp⟩ | ⟨hnot, hstops⟩
  · exact .inl ⟨b, (returns_succ_iff hnext).mpr hb, hp⟩
  · exact .inr ⟨hnot, (stops_succ_iff hnext).mpr hstops⟩

/-- The stack is looked at first. -/
theorem Decides.checked (h : Decides roomy call p) (room words : Nat)
    (hroom : roomy → 4 * words ≤ room) :
    Decides roomy (fun fuel => do checkStackSize room words; call fuel) p := by
  by_cases hlt : room < 4 * words
  · refine .inr ⟨fun hroomy => Nat.not_lt.mpr (hroom hroomy) hlt, ?_⟩
    simp only [checkStackSize_neg hlt]
    exact .throw _
  · simp only [checkStackSize_pos (Nat.not_lt.mp hlt), pure_bind]
    exact h

/-- What stops in the first of two tests does not come to the second one. -/
theorem stops_first {e : Stop} (h : Stops call e) :
    Stops (fun fuel => do if ← call fuel then pure true else next fuel) e :=
  h.bind (k := fun x fuel => if x then pure true else next fuel)

theorem stops_second_iff {e : Stop} (h : Returns call false) :
    Stops (fun fuel => do if ← call fuel then pure true else next fuel) e ↔ Stops next e :=
  stops_bind_iff (k := fun x fuel => if x then pure true else next fuel) h

/-- One test after the other. -/
theorem Decides.or (h : Decides roomy call p) (hnext : Decides roomy next q) :
    Decides roomy (fun fuel => do if ← call fuel then pure true else next fuel) (p ∨ q) := by
  rcases h with ⟨b, hb, hp⟩ | ⟨hnot, hstops⟩
  · cases b with
    | true =>
      refine .inl ⟨true, ?_, by simp [hp.mp rfl]⟩
      exact @Returns.bind _ _ _ (fun x fuel => if x then pure true else next fuel) _ _ hb (.pure true)
    | false =>
      have hnp : ¬ p := fun h => Bool.noConfusion (hp.mpr h)
      rcases hnext with ⟨b', hb', hq⟩ | ⟨hnot, hstops⟩
      · refine .inl ⟨b', ?_, by simp [hq, hnp]⟩
        exact @Returns.bind _ _ _ (fun x fuel => if x then pure true else next fuel) _ _ hb hb'
      · exact .inr ⟨hnot, (stops_second_iff hb).mpr hstops⟩
  · exact .inr ⟨hnot, stops_first hstops⟩

theorem decides_anyOf {test : Nat → Nat → Exec Bool} {p : Nat → Prop} {is : List Nat}
    (h : ∀ i ∈ is, Decides roomy (fun fuel => test fuel i) (p i)) :
    Decides roomy (fun fuel => anyOf (test fuel) is) (∃ i ∈ is, p i) := by
  induction is with
  | nil => exact decides_false (by simp)
  | cons i is ih =>
    have hrest := ih fun j hj => h j (List.mem_cons_of_mem _ hj)
    exact ((h i List.mem_cons_self).or hrest).congr (by simp)

end Decides

namespace Classes

variable {cs : Classes}

/-! ## Interfaces -/

section Interfaces

variable {c d ifa : Nat}

theorem reaches_iff : cs.Reaches c d ↔ c = d ∨ ∃ e, cs.Above c e ∧ cs.Reaches e d :=
  Relation.ReflTransGen.cases_head_iff

/-- What is reached through the superclass. -/
def SuperReaches (cs : Classes) (c d : Nat) : Prop :=
  ∃ e, (cs.desc c).superclass = some e ∧ cs.Reaches e d

theorem SuperReaches.reaches (h : cs.SuperReaches c d) : cs.Reaches c d := by
  obtain ⟨e, hsuper, hreach⟩ := h
  exact .head (.inl hsuper) hreach

variable {frame : Frames} {size : Nat} {rank : Nat → Nat}

/-- The loop along the superclasses: what is above the superclass is found when the superclass is
looked at, and nothing is left for the rest of the loop. -/
theorem decides_subinterfaceLoop {roomy : Prop} {room : Nat}
    (himpl : ∀ d, (cs.desc c).superclass = some d → Decides roomy (fun fuel =>
      cs.implementsInterface frame fuel (room - frame .isSubinterfaceOf .implementsInterface) d ifa)
      (cs.Reaches d ifa))
    (hloop : ∀ d, (cs.desc c).superclass = some d →
      Decides roomy (fun fuel => cs.subinterfaceLoop frame fuel room d ifa) (cs.SuperReaches d ifa)) :
    Decides roomy (fun fuel => cs.subinterfaceLoop frame fuel room c ifa) (cs.SuperReaches c ifa) := by
  cases hsuper : (cs.desc c).superclass with
  | none =>
    have hnot : ¬ cs.SuperReaches c ifa := by
      rintro ⟨e, he, -⟩
      rw [hsuper] at he
      cases he
    refine (decides_false hnot).of_succ fun fuel => ?_
    simp only [subinterfaceLoop, hsuper]
  | some d =>
    have hiff : cs.SuperReaches c ifa ↔ cs.Reaches d ifa := by
      unfold SuperReaches
      rw [hsuper]
      simp
    by_cases hd : d = ifa
    · have hreach : cs.SuperReaches c ifa := by
        rw [hiff, hd]
        exact .refl
      refine (decides_true hreach).of_succ fun fuel => ?_
      simp only [subinterfaceLoop, hsuper, hd, if_true]
    · refine (((himpl d hsuper).or (hloop d hsuper)).congr ?_).of_succ fun fuel => ?_
      · rw [hiff]
        exact ⟨fun h => h.elim id SuperReaches.reaches, .inl⟩
      · simp only [subinterfaceLoop, hsuper, hd, if_false]

theorem decides_isSubinterfaceOf {roomy : Prop} {room : Nat} (hroom : roomy → 496 ≤ room)
    (hloop : Decides roomy (fun fuel => cs.subinterfaceLoop frame fuel room c ifa)
      (cs.SuperReaches c ifa)) :
    Decides roomy (fun fuel => cs.isSubinterfaceOf frame fuel room c ifa)
      (c = ifa ∨ cs.SuperReaches c ifa) := by
  by_cases hc : c = ifa
  · refine (decides_true (.inl hc)).of_succ fun fuel => ?_
    simp only [isSubinterfaceOf, hc, if_true]
  · have hchecked := hloop.checked room 10 fun hroomy => Nat.le_trans (by decide) (hroom hroomy)
    refine (hchecked.congr ?_).of_succ fun fuel => ?_
    · simp [hc]
    · simp only [isSubinterfaceOf, hc, if_false]

/-- Both routines decide what they should, by induction on the height of the class. -/
theorem decides_interfaces (hrank : cs.Ranked rank) (hframe : ∀ a b, frame a b ≤ size)
    (c ifa room : Nat) :
    Decides (interfaceRoom size (rank c) ≤ room + size)
        (fun fuel => cs.subinterfaceLoop frame fuel room c ifa) (cs.SuperReaches c ifa) ∧
      Decides (interfaceRoom size (rank c) ≤ room)
        (fun fuel => cs.implementsInterface frame fuel room c ifa) (cs.Reaches c ifa) := by
  induction hn : rank c using Nat.strong_induction_on generalizing c room with
  | _ n ih =>
    subst hn
    have hrec := fun d (hd : cs.Above c d) room => ih _ (hrank c d (.inl hd)) d room rfl
    have hlower := fun d (hd : cs.Above c d) =>
      interfaceRoom_of_lt size (hrank c d (.inl hd))
    have hloop : ∀ room : Nat, Decides (interfaceRoom size (rank c) ≤ room + size)
        (fun fuel => cs.subinterfaceLoop frame fuel room c ifa) (cs.SuperReaches c ifa) :=
      fun room => decides_subinterfaceLoop (fun d hd => (hrec d (.inl hd) _).2.mono fun hroomy => by
        have hsize := hframe .isSubinterfaceOf .implementsInterface
        have hd := hlower d (.inl hd)
        omega)
      (fun d hd => (hrec d (.inl hd) room).1.mono fun hroomy => by
        have hd := hlower d (.inl hd)
        omega)
    refine ⟨hloop room, ?_⟩
    have hlarge := fun n => interfaceRoom_large size n
    have hsub := hframe .implementsInterface .isSubinterfaceOf
    have hself : Decides (interfaceRoom size (rank c) ≤ room) _ _ := decides_isSubinterfaceOf
      (fun hroomy => by have := hlarge (rank c); omega)
      ((hloop (room - frame .implementsInterface .isSubinterfaceOf)).mono fun hroomy => by omega)
    have hinterfaces : Decides (interfaceRoom size (rank c) ≤ room) _ _ := decides_anyOf
      fun i (hi : i ∈ (cs.desc c).interfaces) =>
        ((hrec i (.inr hi) (room - frame .implementsInterface .implementsInterface)).2.mono
          fun hroomy => by
            have himpl := hframe .implementsInterface .implementsInterface
            have hd := hlower i (.inr hi)
            omega).or
        (decides_isSubinterfaceOf (fun hroomy => by have := hlarge (rank c); omega)
          ((hrec i (.inr hi) (room - frame .implementsInterface .isSubinterfaceOf)).1.mono
            fun hroomy => by
              have hd := hlower i (.inr hi)
              omega))
    have hchecked := (hself.or hinterfaces).checked room 124 fun hroomy => by
      have := hlarge (rank c)
      omega
    refine (hchecked.congr ?_).of_succ fun fuel => ?_
    · rw [reaches_iff]
      constructor
      · rintro ((rfl | ⟨d, hd, hreach⟩) | ⟨i, hi, hreach | rfl | hreach⟩)
        · exact .inl rfl
        · exact .inr ⟨d, .inl hd, hreach⟩
        · exact .inr ⟨i, .inr hi, hreach⟩
        · exact .inr ⟨_, .inr hi, .refl⟩
        · exact .inr ⟨i, .inr hi, hreach.reaches⟩
      · rintro (rfl | ⟨d, hd | hd, hreach⟩)
        · exact .inl (.inl rfl)
        · exact .inl (.inr ⟨d, hd, hreach⟩)
        · exact .inr ⟨d, hd, .inl hreach⟩
    · simp only [implementsInterface]

end Interfaces

/-! ## Classes -/

section Superclasses

variable {c d v : Nat}

theorem decides_subclassLoop (h : WellFounded fun d c => cs.Above c d) (roomy : Prop) (c d : Nat) :
    Decides roomy (fun fuel => cs.subclassLoop fuel c d)
      (∃ e, (cs.desc c).superclass = some e ∧ cs.Extends e d) := by
  induction c using h.induction with
  | _ c ih =>
    cases hsuper : (cs.desc c).superclass with
    | none =>
      refine (decides_false (by simp)).of_succ fun fuel => ?_
      simp only [subclassLoop, hsuper]
    | some e =>
      by_cases he : e = d
      · have hext : ∃ e', some e = some e' ∧ cs.Extends e' d := ⟨e, rfl, by rw [he]; exact .refl⟩
        refine (decides_true hext).of_succ fun fuel => ?_
        simp only [subclassLoop, hsuper, he, if_true]
      · refine ((ih e (.inl hsuper)).congr ?_).of_succ fun fuel => ?_
        · constructor
          · rintro ⟨f, hf, hext⟩
            exact ⟨e, rfl, .head hf hext⟩
          · rintro ⟨e', he', hext⟩
            cases he'
            exact (Relation.ReflTransGen.cases_head_iff.mp hext).resolve_left he
        · simp only [subclassLoop, hsuper, he, if_false]

theorem decides_isSubclassOf (h : WellFounded fun d c => cs.Above c d) (c d room : Nat) :
    Decides (40 ≤ room) (fun fuel => cs.isSubclassOf room fuel c d) (cs.Extends c d) := by
  unfold isSubclassOf
  by_cases hc : c = d
  · simp only [hc, if_true]
    exact decides_true .refl
  · simp only [hc, if_false]
    refine ((decides_subclassLoop h _ c d).checked _ _ id).congr ?_
    unfold Extends
    rw [Relation.ReflTransGen.cases_head_iff]
    simp [hc]

theorem Extends.reaches (h : cs.Extends c d) : cs.Reaches c d := by
  induction h with
  | refl => exact .refl
  | tail _ hsuper ih => exact ih.tail (.inl hsuper)

/-- Once a path has left the superclasses, it leads to interfaces or to `java/lang/Object`, and the
latter is among the superclasses anyway. -/
theorem Hierarchy.extends_or (h : cs.Hierarchy) (hreach : cs.Reaches c d) :
    cs.Extends c d ∨ cs.isInterface d ∧ cs.Extends c cs.javaLangObject := by
  induction hreach with
  | refl => exact .inl .refl
  | @tail d e _ hde ih =>
    rcases hde with hsuper | hinterface
    · rcases ih with hext | ⟨hinterface, hobject⟩
      · exact .inl (hext.tail hsuper)
      · obtain rfl := h.superOfInterface d e hinterface hsuper
        exact .inl hobject
    · refine .inr ⟨h.interfaces d e hinterface, ?_⟩
      rcases ih with hext | ⟨-, hobject⟩
      · exact hext.trans (h.rooted d (List.ne_nil_of_mem hinterface))
      · exact hobject

end Superclasses

/-! ## Assignments -/

section Assignments

variable {v r w : Nat}

/-- From an array class nothing can be reached. -/
theorem Hierarchy.reaches_array (h : cs.Hierarchy) (hr : cs.isArrayClass r) (hreach : cs.Reaches r v) :
    v = r := by
  rcases reaches_iff.mp hreach with rfl | ⟨e, hsuper | hinterface, -⟩
  · rfl
  · rw [(h.arrays r hr).1] at hsuper
    cases hsuper
  · rw [(h.arrays r hr).2] at hinterface
    cases hinterface

theorem Hierarchy.assignable_array_iff (h : cs.Hierarchy) (hr : cs.isArrayClass r) :
    cs.Assignable v r ↔ v = r ∨ v = cs.javaLangObject ∨
      cs.isArrayClass v ∧ cs.Assignable (cs.desc v).elementClass (cs.desc r).elementClass := by
  constructor
  · intro hassign
    cases hassign with
    | reaches hreach => exact .inl (h.reaches_array hr hreach)
    | object _ => exact .inr (.inl rfl)
    | array hv _ helem => exact .inr (.inr ⟨hv, helem⟩)
  · rintro (rfl | rfl | ⟨hv, helem⟩)
    · exact .reaches .refl
    · exact .object hr
    · exact .array hv hr helem

theorem assignable_iff_reaches (hr : ¬ cs.isArrayClass r) : cs.Assignable v r ↔ cs.Reaches r v := by
  constructor
  · intro hassign
    cases hassign with
    | reaches hreach => exact hreach
    | object hr' => exact absurd hr' hr
    | array _ hr' _ => exact absurd hr' hr
  · exact .reaches

theorem Hierarchy.reaches_iff_found (h : cs.Hierarchy) :
    cs.Reaches r v ↔ cs.Extends r v ∨ cs.isInterface v ∧ cs.Reaches r v := by
  constructor
  · intro hreach
    exact (h.extends_or hreach).imp id fun hinterface => ⟨hinterface.1, hreach⟩
  · rintro (hext | ⟨-, hreach⟩)
    · exact hext.reaches
    · exact hreach

/-- `check_assign` is right, if it comes back. -/
theorem decides_checkAssign {frame : Frames} {size : Nat} {rank : Nat → Nat} (h : cs.Hierarchy)
    (hrank : cs.Ranked rank) (hframe : ∀ a b, frame a b ≤ size) (v r room : Nat) :
    Decides (assignRoom size (rank r) ≤ room) (fun fuel => cs.checkAssign frame fuel room v r)
      (cs.Assignable v r) := by
  have habove : WellFounded fun d c => cs.Above c d :=
    Subrelation.wf (fun hdc => .inl hdc) h.acyclic
  induction r using h.acyclic.induction generalizing v room with
  | _ r ih =>
    have hlarge : 496 + size + size ≤ assignRoom size (rank r) :=
      Nat.add_le_add_right (interfaceRoom_large size (rank r)) size
    have hcheck : assignRoom size (rank r) ≤ room → 4 * 20 ≤ room := by omega
    by_cases hvr : v = r
    · refine (decides_true (p := cs.Assignable v r) ?_).of_succ fun fuel => ?_
      · rw [hvr]
        exact .reaches .refl
      · simp only [checkAssign, hvr, if_true]
    by_cases hr : cs.isArrayClass r
    · rw [h.assignable_array_iff hr]
      by_cases hobject : v = cs.javaLangObject
      · refine ((decides_true (.inr (.inl hobject))).checked _ _ hcheck).of_succ fun fuel => ?_
        simp only [checkAssign, hvr, hr, if_true, if_false]
        rw [if_pos hobject]
      by_cases hv : cs.isArrayClass v
      · have hlower := hrank r _ (.inr ⟨hr, rfl⟩)
        have helem : Decides (assignRoom size (rank r) ≤ room) _ _ :=
          (ih _ (.inr ⟨hr, rfl⟩) (cs.desc v).elementClass
          (room - frame .checkAssign .checkAssign)).mono fun hroomy => by
            have hsize := hframe .checkAssign .checkAssign
            have hroom := interfaceRoom_of_lt size hlower
            unfold assignRoom at hroomy ⊢
            omega
        refine ((helem.congr ?_).checked _ _ hcheck).of_succ fun fuel => ?_
        · simp [hvr, hobject, hv]
        · simp only [checkAssign, hvr, hr, hobject, hv, not_true, if_true, if_false]
      · refine ((decides_false ?_).checked _ _ hcheck).of_succ fun fuel => ?_
        · simp [hvr, hobject, hv]
        · simp only [checkAssign, hvr, hr, hobject, hv, if_true, if_false]
          rfl
    · rw [assignable_iff_reaches hr, h.reaches_iff_found]
      have hsub : Decides (assignRoom size (rank r) ≤ room) _ _ :=
        (decides_isSubclassOf habove r v (room - frame .checkAssign .isSubclassOf)).mono
          fun hroomy => by
          have hsize := hframe .checkAssign .isSubclassOf
          omega
      by_cases hinterface : cs.isInterface v
      · have himpl : Decides (assignRoom size (rank r) ≤ room) _ _ :=
          (decides_interfaces hrank hframe r v
          (room - frame .checkAssign .implementsInterface)).2.mono fun hroomy => by
            have hsize := hframe .checkAssign .implementsInterface
            unfold assignRoom at hroomy
            omega
        refine (((hsub.or himpl).congr (by simp [hinterface])).checked _ _ hcheck).of_succ fun fuel => ?_
        simp only [checkAssign, hvr, hr, hinterface, if_true, if_false]
        rfl
      · refine (((hsub.or (decides_false (p := False) id)).congr
          (by simp [hinterface])).checked _ _ hcheck).of_succ fun fuel => ?_
        simp only [checkAssign, hvr, hr, hinterface, if_false]
        rfl

/-- What is assignable to an array class or through one. -/
theorem Hierarchy.assignable_trans (h : cs.Hierarchy) (hwv : cs.Assignable w v)
    (hvr : cs.Assignable v r) : cs.Assignable w r := by
  induction r using h.acyclic.induction generalizing v w with
  | _ r ih =>
    by_cases hr : cs.isArrayClass r
    · rcases (h.assignable_array_iff hr).mp hvr with rfl | rfl | ⟨hv, helem⟩
      · exact hwv
      · -- nothing is above `java/lang/Object`
        have hreach := (assignable_iff_reaches h.object.2.2).mp hwv
        rcases reaches_iff.mp hreach with rfl | ⟨e, hsuper | hinterface, -⟩
        · exact .object hr
        · rw [h.object.1] at hsuper
          cases hsuper
        · rw [h.object.2.1] at hinterface
          cases hinterface
      · rcases (h.assignable_array_iff hv).mp hwv with rfl | rfl | ⟨hw, helem'⟩
        · exact hvr
        · exact .object hr
        · exact .array hw hr (ih _ (.inr ⟨hr, rfl⟩) helem' helem)
    · have hreach := (assignable_iff_reaches hr).mp hvr
      have hv : ¬ cs.isArrayClass v := by
        rcases Relation.ReflTransGen.cases_tail hreach with rfl | ⟨e, -, hev⟩
        · exact hr
        · exact h.noArrays e v hev
      exact .reaches (hreach.trans ((assignable_iff_reaches hv).mp hwv))

end Assignments

/-- Some size is not exceeded by any frame. -/
theorem exists_size (frame : Frames) : ∃ size, ∀ a b, frame a b ≤ size := by
  let routines : Finset Routine :=
    {.isSubclassOf, .isSubinterfaceOf, .implementsInterface, .checkAssign}
  have hall : ∀ a, a ∈ routines := by
    intro a
    cases a <;> decide
  refine ⟨routines.sup fun a => routines.sup (frame a), fun a b => ?_⟩
  calc frame a b ≤ routines.sup (frame a) := Finset.le_sup (hall b)
    _ ≤ _ := Finset.le_sup (f := fun a => routines.sup (frame a)) (hall a)

theorem decides_checkAssign_any (h : cs.Hierarchy) (frame : Frames) (v r room : Nat) :
    ∃ roomy, Decides roomy (fun fuel => cs.checkAssign frame fuel room v r) (cs.Assignable v r) := by
  obtain ⟨rank, hrank⟩ := h.exists_ranked
  obtain ⟨size, hframe⟩ := exists_size frame
  exact ⟨_, decides_checkAssign h hrank hframe v r room⟩

/-- `check_assign` ends with what is assignable, or in the check of the stack; the latter not if there
is enough of it for the height of the class. What it says is reflexive and transitive. -/
theorem checkAssign_spec (h : cs.Hierarchy) (frame : Frames) :
    (∀ room v r, (∃ b, Returns (fun fuel => cs.checkAssign frame fuel room v r) b ∧
        (b = true ↔ cs.Assignable v r)) ∨
      Stops (fun fuel => cs.checkAssign frame fuel room v r) (.panic "")) ∧
    ((∃ rank, cs.Ranked rank) ∧ ∀ rank size, cs.Ranked rank → (∀ a b, frame a b ≤ size) →
      ∀ room v r, assignRoom size (rank r) ≤ room →
        ∃ b, Returns (fun fuel => cs.checkAssign frame fuel room v r) b) ∧
    (∀ room v, Returns (fun fuel => cs.checkAssign frame fuel room v v) true) ∧
    ∀ room room' room'' w v r, Returns (fun fuel => cs.checkAssign frame fuel room w v) true →
      Returns (fun fuel => cs.checkAssign frame fuel room' v r) true →
      ∀ b, Returns (fun fuel => cs.checkAssign frame fuel room'' w r) b → b = true := by
  have hassign : ∀ room v r b, Returns (fun fuel => cs.checkAssign frame fuel room v r) b →
      (b = true ↔ cs.Assignable v r) := by
    intro room v r b hb
    obtain ⟨_, hdecides⟩ := decides_checkAssign_any h frame v r room
    exact hdecides.iff_of_returns hb
  refine ⟨fun room v r => ?_, ⟨h.exists_ranked, fun rank size hrank hframe room v r hroom => ?_⟩,
    fun room v => ?_, fun room room' room'' w v r hwv hvr b hb => ?_⟩
  · obtain ⟨_, hdecides⟩ := decides_checkAssign_any h frame v r room
    exact hdecides.imp_right And.right
  · obtain ⟨b, hb, -⟩ := (decides_checkAssign h hrank hframe v r room).returns hroom
    exact ⟨b, hb⟩
  · refine (returns_succ_iff (k := fun _ => pure true) fun fuel => ?_).mpr (.pure true)
    simp only [checkAssign, if_true]
  · rw [hassign _ _ _ _ hb]
    exact h.assignable_trans ((hassign _ _ _ _ hwv).mp rfl) ((hassign _ _ _ _ hvr).mp rfl)

/-! ## A small hierarchy -/

/-- `java/lang/Object`, the interfaces `I` and `J extends I`, a class `C implements J`, and the arrays
of `C` and of `I`. -/
def exampleClasses : Classes where
  javaLangObject := 0
  desc
    | 0 => ⟨.ordinary, "java/lang/Object".toList, none, [], 0⟩
    | 1 => ⟨.interface, "I".toList, some 0, [], 0⟩
    | 2 => ⟨.interface, "J".toList, some 0, [1], 0⟩
    | 3 => ⟨.ordinary, "C".toList, some 0, [2], 0⟩
    | 4 => ⟨.arrayClass, "[LC;".toList, none, [], 3⟩
    | 5 => ⟨.arrayClass, "[LI;".toList, none, [], 1⟩
    | _ => ⟨.ordinary, "D".toList, some 0, [], 0⟩

/-- Everything refers to what comes before it. -/
theorem exampleClasses_above {c d : Nat} (h : exampleClasses.Above c d) :
    d < c ∧ d < 3 := by
  unfold Above at h
  rcases c with _ | _ | _ | _ | _ | _ | c <;> simp [exampleClasses] at h ⊢ <;> omega

theorem exampleClasses_hierarchy : exampleClasses.Hierarchy where
  acyclic := by
    refine Subrelation.wf (fun {d c} hdc => show d < c from ?_) Nat.lt_wfRel.wf
    rcases hdc with habove | ⟨harray, rfl⟩
    · exact (exampleClasses_above habove).1
    · rcases c with _ | _ | _ | _ | _ | _ | c <;>
        first | exact absurd harray (by decide) | decide | cases harray
  interfaces := by
    intro c d hd
    rcases c with _ | _ | _ | _ | _ | _ | c <;> simp [exampleClasses] at hd <;> subst hd <;> rfl
  superOfInterface := by
    intro c d hinterface hsuper
    rcases c with _ | _ | _ | _ | _ | _ | c <;> cases hsuper <;> rfl
  rooted := by
    intro c hc
    rcases c with _ | _ | _ | _ | _ | _ | c <;>
      first | exact absurd rfl hc | exact .single rfl
  object := ⟨rfl, rfl, by decide⟩
  arrays := by
    intro c harray
    rcases c with _ | _ | _ | _ | _ | _ | c <;> first | exact ⟨rfl, rfl⟩ | cases harray
  noArrays := by
    intro c d habove
    have hlt := (exampleClasses_above habove).2
    rcases d with _ | _ | _ | d
    · decide
    · decide
    · decide
    · omega

theorem exampleClasses_ranked : exampleClasses.Ranked id := by
  rintro c d (habove | ⟨harray, rfl⟩)
  · exact (exampleClasses_above habove).1
  · rcases c with _ | _ | _ | _ | _ | _ | c <;>
      first | exact absurd harray (by decide) | decide | cases harray

/-- On a whole stack, with frames of 64 bytes. -/
theorem checkAssign_arrays : exampleClasses.Hierarchy ∧
    Returns (fun fuel => exampleClasses.checkAssign (fun _ _ => 64) fuel 8192 5 4) true := by
  refine ⟨exampleClasses_hierarchy, ?_⟩
  obtain ⟨hspec, ⟨-, hroomy⟩, -⟩ := checkAssign_spec exampleClasses_hierarchy fun _ _ => 64
  obtain ⟨b, hb⟩ := hroomy id 64 exampleClasses_ranked (fun _ _ => le_rfl) 8192 5 4 (by decide)
  have hC : exampleClasses.Reaches 3 1 :=
    .tail (.single (.inr List.mem_cons_self)) (.inr List.mem_cons_self)
  rcases hspec 8192 5 4 with ⟨b', hb', hiff⟩ | hstops
  · rw [← hiff.mpr (.array (by decide) (by decide) (.reaches hC))]
    exact hb'
  · exact (hstops.not_returns hb).elim

/-! ## A long chain of interfaces -/

/-- `java/lang/Object`, and a chain of interfaces each of which extends the one before it. -/
def chain : Classes where
  javaLangObject := 0
  desc
    | 0 => ⟨.ordinary, "java/lang/Object".toList, none, [], 0⟩
    | 1 => ⟨.interface, ['I'], some 0, [], 0⟩
    | n + 2 => ⟨.interface, List.replicate (n + 2) 'I', some 0, [n + 1], 0⟩

theorem chain_above {c d : Nat} (h : chain.Above c d) : d < c := by
  unfold Above at h
  rcases c with _ | _ | c <;> simp [chain] at h ⊢ <;> omega

theorem chain_not_array (c : Nat) : ¬ chain.isArrayClass c := by
  rcases c with _ | _ | c <;> simp [isArrayClass, chain, List.replicate_succ]

theorem chain_wf : WellFounded fun d c => chain.Above c d :=
  Subrelation.wf (fun hdc => chain_above hdc) Nat.lt_wfRel.wf

theorem chain_hierarchy : chain.Hierarchy where
  acyclic := by
    refine Subrelation.wf (fun {d c} hdc => show d < c from ?_) Nat.lt_wfRel.wf
    rcases hdc with habove | ⟨harray, -⟩
    · exact chain_above habove
    · exact absurd harray (chain_not_array c)
  interfaces := by
    intro c d hd
    rcases c with _ | _ | c <;> simp [chain] at hd
    subst hd
    cases c <;> rfl
  superOfInterface := by
    intro c d _ hsuper
    rcases c with _ | _ | c <;> cases hsuper <;> rfl
  rooted := by
    intro c hc
    rcases c with _ | _ | c <;> first | exact absurd rfl hc | exact .single rfl
  object := ⟨rfl, rfl, chain_not_array 0⟩
  arrays c harray := absurd harray (chain_not_array c)
  noArrays _ d _ := chain_not_array d

theorem chain_ranked : chain.Ranked id := by
  rintro c d (habove | ⟨harray, -⟩)
  · exact chain_above habove
  · exact absurd harray (chain_not_array c)

theorem chain_reaches (n : Nat) : chain.Reaches (n + 1) 1 := by
  induction n with
  | zero => exact .refl
  | succ n ih => exact .head (.inr List.mem_cons_self) ih

/-- Nothing is above `java/lang/Object`, which is the only superclass. -/
theorem chain_not_superReaches (c : Nat) : ¬ chain.SuperReaches c 1 := by
  rintro ⟨e, hsuper, hreach⟩
  have hzero : e = 0 := by rcases c with _ | _ | c <;> cases hsuper <;> rfl
  subst hzero
  rcases reaches_iff.mp hreach with h | ⟨d, habove, -⟩
  · cases h
  · exact absurd (chain_above habove) (Nat.not_lt_zero d)

/-- Along the superclasses nothing is found. -/
theorem chain_not_sub (size n room : Nat) :
    Returns (fun fuel => chain.isSubinterfaceOf (fun _ _ => size) fuel room (n + 2) 1) false ∨
      Stops (fun fuel => chain.isSubinterfaceOf (fun _ _ => size) fuel room (n + 2) 1)
        (.panic "") := by
  have hloop := (@decides_interfaces _ (fun _ _ => size) size _ chain_ranked (fun _ _ => le_rfl)
    (n + 2) 1 room).1
  have hdecides : Decides False _ _ := decides_isSubinterfaceOf False.elim (hloop.mono False.elim)
  refine hdecides.imp (fun ⟨b, hb, hiff⟩ => ?_) And.right
  cases b with
  | false => exact hb
  | true =>
    rcases hiff.mp rfl with h | h
    · omega
    · exact absurd h (chain_not_superReaches _)

/-- `implements_interface` takes a frame for each interface of the chain. -/
theorem chain_stops {size : Nat} (n room : Nat) (h : room < 496 + size * n) :
    Stops (fun fuel => chain.implementsInterface (fun _ _ => size) fuel room (n + 1) 1)
      (.panic "") := by
  induction n generalizing room with
  | zero =>
    refine (stops_succ_iff (k := fun _ => throw (.panic "")) fun fuel => ?_).mpr (.throw _)
    simp only [implementsInterface, checkStackSize_neg (show room < 4 * 124 by omega)]
    rfl
  | succ n ih =>
    by_cases hlt : room < 4 * 124
    · refine (stops_succ_iff (k := fun _ => throw (.panic "")) fun fuel => ?_).mpr (.throw _)
      simp only [implementsInterface, checkStackSize_neg hlt]
      rfl
    have hrest := ih (room - size) (by rw [Nat.mul_succ] at h; omega)
    let rest := fun i fuel => do
      if ← chain.implementsInterface (fun _ _ => size) fuel (room - size) i 1 then pure true
      else chain.isSubinterfaceOf (fun _ _ => size) fuel (room - size) i 1
    have hstops : Stops (fun fuel => anyOf (rest · fuel) [n + 1]) (.panic "") :=
      stops_first (stops_first hrest)
    have hself := chain_not_sub size n (room - size)
    refine (stops_succ_iff (k := fun fuel => do
      if ← chain.isSubinterfaceOf (fun _ _ => size) fuel (room - size) (n + 2) 1 then pure true
      else anyOf (rest · fuel) [n + 1]) fun fuel => ?_).mpr ?_
    · simp only [implementsInterface, checkStackSize_pos (Nat.not_lt.mp hlt), pure_bind]
      rfl
    · rcases hself with hfalse | hstops'
      · exact (stops_second_iff hfalse).mpr hstops
      · exact stops_first hstops'

/-- Over 700 interfaces `check_assign` does not come back on a stack of 8192 bytes, if a frame takes
no more than two arguments and the return address. -/
theorem not_returns_chain : chain.Hierarchy ∧ chain.Assignable 1 700 ∧
    Stops (fun fuel => chain.checkAssign (fun _ _ => 12) fuel 8192 1 700) (.panic "") ∧
    ¬ ∃ b, Returns (fun fuel => chain.checkAssign (fun _ _ => 12) fuel 8192 1 700) b := by
  have hsub : Returns (fun fuel => chain.isSubclassOf 8180 fuel 700 1) false := by
    obtain ⟨b, hb, hiff⟩ := (decides_isSubclassOf chain_wf 700 1 8180).returns (by decide)
    cases b with
    | false => exact hb
    | true =>
      obtain h | ⟨e, hsuper, hrest⟩ := Relation.ReflTransGen.cases_head_iff.mp (hiff.mp rfl)
      · cases h
      · exact absurd ⟨e, hsuper, Extends.reaches hrest⟩ (chain_not_superReaches 700)
  have hstops : Stops (fun fuel => chain.checkAssign (fun _ _ => 12) fuel 8192 1 700)
      (.panic "") := by
    refine (stops_succ_iff (k := fun fuel => do
      if ← chain.isSubclassOf 8180 fuel 700 1 then pure true
      else chain.implementsInterface (fun _ _ => 12) fuel 8180 700 1) fun fuel => rfl).mpr ?_
    exact (stops_second_iff hsub).mpr (chain_stops 699 8180 (by decide))
  exact ⟨chain_hierarchy, .reaches (chain_reaches 699), hstops, fun ⟨b, hb⟩ => hstops.not_returns hb⟩

end Classes

end JxCore.Assign
