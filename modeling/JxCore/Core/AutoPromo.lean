import JxCore.Core.Assign
import JxCore.Core.ServiceInvariant
import JxCore.Lib.Candidate

/-!
# Which interface a promoted object gets (`core/portal.c`)

`portal_auto_promo` looks for a service of the object in the table of the domain, and if there is
none, it goes along the superclasses and takes the most specific of the portal interfaces that are
declared there. The first search ends with the last service it has seen if that is in the last entry
of the table, whose ever it is. The second one compares every interface with the candidate only, and
gives up at the first one that cannot be compared with it.
-/

namespace JxCore.Service

open Exec Lib

/-! ## Classes and answers -/

/-- The interfaces that are declared along the superclasses, in the order of the loops. -/
def declared (cs : Assign.Classes) : (fuel cl : Nat) → Exec (List Nat)
  | 0, _ => loop none
  | fuel + 1, cl =>
    match (cs.desc cl).superclass with
    | none => pure (cs.desc cl).interfaces
    | some superclass => do return (cs.desc cl).interfaces ++ (← declared cs fuel superclass)

/-- `cls` has the answers of the routines of `vmsupport.c`, for objects of the given classes: the check
of the stack stops none of them. `room` is what is left of the stack for a routine that
`portal_auto_promo` calls. -/
structure Answers (cs : Assign.Classes) (frame : Assign.Frames) (room : Assign.Routine → Nat)
    (portalInterface : Nat) (classOf : Nat → Nat) (cls : Classes) : Prop where
  promotable : ∀ obj, Returns (fun fuel => cs.implementsInterface frame fuel
    (room .implementsInterface) (classOf obj) portalInterface) (cls.promotable obj)
  interfaces : ∀ obj, Returns (fun fuel => declared cs fuel (classOf obj)) (cls.interfaces obj)
  isPortal : ∀ c, Returns (fun fuel => cs.implementsInterface frame fuel
    (room .implementsInterface) c portalInterface) (cls.isPortal c)
  checkAssign : ∀ v r, Returns (fun fuel => cs.checkAssign frame fuel (room .checkAssign) v r)
    (cls.checkAssign v r)

namespace Classes

/-- The portal interfaces of the class of an object. -/
def portals (cls : Classes) (obj : Nat) : List Nat := (cls.interfaces obj).filter cls.isPortal

/-- A reference to the first interface can be stored in a variable of the second one. -/
def Below (cls : Classes) (i j : Nat) : Prop := cls.checkAssign j i = true

/-- One of the portal interfaces is assignable to all the others. -/
def MostSpecific (cls : Classes) (obj m : Nat) : Prop := Least cls.Below (cls.portals obj) m

end Classes

section Answers

variable {cs : Assign.Classes} {frame : Assign.Frames} {room : Assign.Routine → Nat}
  {portalInterface : Nat} {classOf : Nat → Nat} {cls : Classes}

/-- The loop along the superclasses comes to its end. -/
theorem declared_returns (h : cs.Hierarchy) (cl : Nat) :
    ∃ l, Returns (fun fuel => declared cs fuel cl) l ∧
      ∀ i ∈ l, ∃ c, cs.Extends cl c ∧ i ∈ (cs.desc c).interfaces := by
  have hwf : WellFounded fun d c => cs.Above c d := Subrelation.wf (fun hdc => .inl hdc) h.acyclic
  induction cl using hwf.induction with
  | _ cl ih =>
    cases hsuper : (cs.desc cl).superclass with
    | none =>
      refine ⟨(cs.desc cl).interfaces, ⟨1, fun fuel hfuel => ?_⟩, fun i hi => ⟨cl, .refl, hi⟩⟩
      obtain ⟨fuel, rfl⟩ := Nat.exists_eq_succ_of_ne_zero (show fuel ≠ 0 by omega)
      simp only [declared, hsuper]
    | some superclass =>
      obtain ⟨l, ⟨n, hn⟩, hl⟩ := ih superclass (.inl hsuper)
      refine ⟨(cs.desc cl).interfaces ++ l, ⟨n + 1, fun fuel hfuel => ?_⟩, fun i hi => ?_⟩
      · obtain ⟨fuel, rfl⟩ := Nat.exists_eq_succ_of_ne_zero (show fuel ≠ 0 by omega)
        simp only [declared, hsuper, hn fuel (by omega)]
        rfl
      · rcases List.mem_append.mp hi with hi | hi
        · exact ⟨cl, .refl, hi⟩
        · obtain ⟨c, hext, hc⟩ := hl i hi
          exact ⟨c, .head hsuper hext, hc⟩

/-- There are answers for every hierarchy, if there is enough of the stack for its height. -/
theorem exists_answers {rank : Nat → Nat} {size : Nat} (h : cs.Hierarchy) (hrank : cs.Ranked rank)
    (hframe : ∀ a b, frame a b ≤ size)
    (hinterface : ∀ c, Assign.interfaceRoom size (rank c) ≤ room .implementsInterface)
    (hassign : ∀ c, Assign.assignRoom size (rank c) ≤ room .checkAssign) (portalInterface : Nat)
    (classOf : Nat → Nat) : ∃ cls, Answers cs frame room portalInterface classOf cls := by
  choose portal hportal using fun c => (Assign.Classes.decides_interfaces hrank hframe c
    portalInterface (room .implementsInterface)).2.returns (hinterface c)
  choose assign hassign using fun v r => (Assign.Classes.decides_checkAssign h hrank hframe v r
    (room .checkAssign)).returns (hassign r)
  choose list hlist using declared_returns h
  exact ⟨⟨fun obj => portal (classOf obj), fun obj => list (classOf obj), portal, assign⟩,
    fun obj => (hportal (classOf obj)).1, fun obj => (hlist (classOf obj)).1,
    fun c => (hportal c).1, fun v r => (hassign v r).1⟩

variable (h : cs.Hierarchy) (ha : Answers cs frame room portalInterface classOf cls)

include h ha

theorem Answers.below_iff (i j : Nat) : cls.Below i j ↔ cs.Assignable j i := by
  obtain ⟨_, hdecides⟩ := Assign.Classes.decides_checkAssign_any h frame j i (room .checkAssign)
  exact hdecides.iff_of_returns (ha.checkAssign j i)

theorem Answers.isPreorder : IsPreorder Nat cls.Below where
  refl i := (ha.below_iff h i i).mpr (.reaches .refl)
  trans i j k hij hjk := by
    rw [ha.below_iff h] at hij hjk ⊢
    exact h.assignable_trans hjk hij

theorem Answers.isPortal_iff (c : Nat) : cls.isPortal c = true ↔ cs.Reaches c portalInterface := by
  obtain ⟨rank, hrank⟩ := h.exists_ranked
  obtain ⟨size, hframe⟩ := Assign.Classes.exists_size frame
  exact (Assign.Classes.decides_interfaces hrank hframe c portalInterface _).2.iff_of_returns
    (ha.isPortal c)

theorem Answers.mem_interfaces {obj i : Nat} (hi : i ∈ cls.interfaces obj) :
    ∃ c, cs.Extends (classOf obj) c ∧ i ∈ (cs.desc c).interfaces := by
  obtain ⟨l, hl, hmem⟩ := declared_returns h (classOf obj)
  rw [(ha.interfaces obj).unique hl] at hi
  exact hmem i hi

/-- Two interfaces are never assignable to each other. -/
theorem Answers.antisymm {obj i j : Nat} (hi : i ∈ cls.portals obj) (hj : j ∈ cls.portals obj)
    (hij : cls.Below i j) (hji : cls.Below j i) : i = j := by
  have harray : ∀ i ∈ cls.portals obj, ¬ cs.isArrayClass i := by
    intro i hi
    obtain ⟨c, -, hc⟩ := ha.mem_interfaces h (List.mem_of_mem_filter hi)
    exact h.noArrays c i (.inr hc)
  rw [ha.below_iff h, Assign.Classes.assignable_iff_reaches (harray i hi)] at hij
  rw [ha.below_iff h, Assign.Classes.assignable_iff_reaches (harray j hj)] at hji
  rcases Relation.reflTransGen_iff_eq_or_transGen.mp hij with heq | hpath
  · exact heq.symm
  · have hcycle : Relation.TransGen (fun d c => cs.Above c d) i i :=
      Relation.transGen_swap.mpr (hpath.trans_left hji)
    have hwf : WellFounded fun d c => cs.Above c d := Subrelation.wf (fun hdc => .inl hdc) h.acyclic
    exact absurd hcycle (hwf.transGen.irrefl.irrefl i)

/-- An object whose class has a portal interface can be promoted. -/
theorem Answers.promotable_of_mem {obj i : Nat} (hi : i ∈ cls.portals obj) :
    cls.promotable obj = true := by
  obtain ⟨hmem, hportal⟩ := List.mem_filter.mp hi
  obtain ⟨c, hext, hc⟩ := ha.mem_interfaces h hmem
  rw [ha.isPortal_iff h] at hportal
  have hreach : cs.Reaches (classOf obj) portalInterface :=
    hext.reaches.trans (.head (.inr hc) hportal)
  rw [← ha.isPortal_iff h] at hreach
  rw [(ha.promotable obj).unique (ha.isPortal (classOf obj)), hreach]

end Answers

/-! ## The choice -/

section Choice

variable {cls : Classes} {is seen : List Nat} {i j m : Nat}

/-- The exception for interfaces that have nothing to do with each other. -/
def moreThanOne : Fault :=
  .stop (.throw .runtimeException "Class implements more than one portal interface")

/-- Every prefix that is longer than what has been seen has a most specific interface. -/
def Comparable (cls : Classes) (seen is : List Nat) : Prop :=
  ∀ l₁ l₂, is.filter cls.isPortal = l₁ ++ l₂ → ∃ m, Least cls.Below (seen ++ l₁) m

/-- One round of the loop, with a candidate. -/
theorem findPortalInterface_cons (hi : cls.isPortal i = true) :
    findPortalInterface cls (i :: is) (some j) =
      if j = i then findPortalInterface cls is (some i)
      else if cls.checkAssign j i then findPortalInterface cls is (some i)
      else if cls.checkAssign i j then findPortalInterface cls is (some j)
      else .error moreThanOne := by
  rw [findPortalInterface, if_pos hi]
  by_cases hne : j = i
  · simp only [hne, ne_eq, not_true, if_false, if_true]
  · simp only [hne, ne_eq, not_false_eq_true, if_false, if_true]
    rfl

theorem comparable_cons (hj : Least cls.Below seen j) (hi : cls.isPortal i = true) :
    Comparable cls seen (i :: is) ↔ Comparable cls (seen ++ [i]) is := by
  unfold Comparable
  rw [List.filter_cons_of_pos hi]
  constructor
  · intro h l₁ l₂ hl
    rw [List.append_assoc]
    exact h (i :: l₁) l₂ (by rw [hl]; rfl)
  · intro h l₁ l₂ hl
    cases l₁ with
    | nil => exact ⟨j, by rwa [List.append_nil]⟩
    | cons x l₁ =>
      obtain ⟨rfl, hrest⟩ := List.cons.inj hl
      have hnext := h l₁ l₂ hrest
      rwa [List.append_assoc] at hnext

variable [IsPreorder Nat cls.Below]

/-- The candidate is the most specific of the interfaces seen so far. -/
theorem findPortalInterface_run (is : List Nat) (hj : Least cls.Below seen j) :
    (Comparable cls seen is ∧ ∃ m, findPortalInterface cls is (some j) = .ok (some m) ∧
      Least cls.Below (seen ++ is.filter cls.isPortal) m) ∨
    ¬ Comparable cls seen is ∧ findPortalInterface cls is (some j) = .error moreThanOne := by
  induction is generalizing seen j with
  | nil =>
    refine .inl ⟨fun l₁ l₂ hl => ?_, j, rfl, by simpa using hj⟩
    have hnil : l₁ = [] := (List.append_eq_nil_iff.mp hl.symm).1
    rw [hnil, List.append_nil]
    exact ⟨j, hj⟩
  | cons i is ih =>
    by_cases hi : cls.isPortal i = true
    · rw [comparable_cons hj hi, List.filter_cons_of_pos hi]
      have happ : seen ++ i :: is.filter cls.isPortal = seen ++ [i] ++ is.filter cls.isPortal := by
        rw [List.append_assoc]
        rfl
      rw [happ]
      rw [findPortalInterface_cons hi]
      by_cases heq : j = i
      · rw [if_pos heq]
        exact ih (hj.append_below (by rw [heq]; exact refl i))
      rw [if_neg heq]
      by_cases hbelow : cls.checkAssign j i = true
      · rw [if_pos hbelow]
        exact ih (hj.append_below hbelow)
      rw [if_neg hbelow]
      by_cases habove : cls.checkAssign i j = true
      · rw [if_pos habove]
        exact ih (hj.append_above habove)
      · rw [if_neg habove]
        refine .inr ⟨fun hcomp => ?_, rfl⟩
        obtain ⟨m, hm⟩ := hcomp [] _ (List.nil_append _).symm
        rw [List.append_nil] at hm
        exact hj.not_append hbelow habove hm
    · have hskip : findPortalInterface cls (i :: is) (some j) = findPortalInterface cls is (some j) := by
        rw [findPortalInterface, if_neg hi]
      have hsame : Comparable cls seen (i :: is) ↔ Comparable cls seen is := by
        unfold Comparable
        rw [List.filter_cons_of_neg hi]
      rw [hskip, hsame, List.filter_cons_of_neg hi]
      exact ih hj

omit [IsPreorder Nat cls.Below] in
theorem comparable_iff (hi : cls.isPortal i = true) :
    Comparable cls [i] is ↔ LeastThroughout cls.Below ((i :: is).filter cls.isPortal) := by
  unfold Comparable LeastThroughout
  rw [List.filter_cons_of_pos hi]
  constructor
  · intro h l₁ l₂ hl hne
    obtain ⟨x, l₁, rfl⟩ := List.exists_cons_of_ne_nil hne
    obtain ⟨rfl, hrest⟩ := List.cons.inj hl
    exact h l₁ l₂ hrest
  · intro h l₁ l₂ hl
    exact h (i :: l₁) l₂ (by rw [hl]; rfl) (List.cons_ne_nil i l₁)

variable (cls) in
/-- The whole loop: there is no portal interface, or the most specific one is found, or the search
gives up because some prefix has none. -/
theorem findPortalInterface_cases (is : List Nat) :
    (is.filter cls.isPortal = [] ∧ findPortalInterface cls is none = .ok none) ∨
    (LeastThroughout cls.Below (is.filter cls.isPortal) ∧
      ∃ m, findPortalInterface cls is none = .ok (some m) ∧
        Least cls.Below (is.filter cls.isPortal) m) ∨
    ¬ LeastThroughout cls.Below (is.filter cls.isPortal) ∧ is.filter cls.isPortal ≠ [] ∧
      findPortalInterface cls is none = .error moreThanOne := by
  induction is with
  | nil => exact .inl ⟨rfl, rfl⟩
  | cons i is ih =>
    by_cases hi : cls.isPortal i = true
    · have hfirst : findPortalInterface cls (i :: is) none = findPortalInterface cls is (some i) := by
        rw [findPortalInterface, if_pos hi]
      have hne : (i :: is).filter cls.isPortal ≠ [] := by
        rw [List.filter_cons_of_pos hi]
        exact List.cons_ne_nil _ _
      have happ : (i :: is).filter cls.isPortal = [i] ++ is.filter cls.isPortal :=
        List.filter_cons_of_pos hi
      have hleast : Least cls.Below [i] i := least_singleton (refl i)
      have hrun := findPortalInterface_run is hleast
      rw [comparable_iff hi, ← happ, ← hfirst] at hrun
      exact .inr (hrun.imp id fun hstop => ⟨hstop.1, hne, hstop.2⟩)
    · rw [List.filter_cons_of_neg hi]
      have hskip : findPortalInterface cls (i :: is) none = findPortalInterface cls is none := by
        rw [findPortalInterface, if_neg hi]
      rw [hskip]
      exact ih

end Choice

/-! ## The table -/

/-- The entry of a service of the object. -/
def Sys.ServedAt (s : Sys) (d obj i k : Nat) : Prop :=
  (s.domain d).services i = .dep k ∧ (s.dep k).obj = obj

/-- The object has the service. -/
def Sys.Serves (s : Sys) (d obj k : Nat) : Prop := ∃ i < maxServices, s.ServedAt d obj i k

/-- The service in an entry of the table. -/
def Entry.service : Entry → Option Nat
  | .dep k => some k
  | _ => none

section Search

variable {s : Sys} {d obj n i : Nat}

/-- The search goes on, with the entry in its hand. -/
theorem findService_step (found : Option Nat) (hnot : ∀ k, ¬ s.ServedAt d obj i k) :
    findService s d obj (n + 1) i found =
      findService s d obj n (i + 1) ((s.domain d).services i).service := by
  cases hentry : (s.domain d).services i with
  | free => simp only [findService, hentry, Entry.service]
  | changing => simp only [findService, hentry, Entry.service]
  | dep k =>
    have hobj : (s.dep k).obj ≠ obj := fun hobj => hnot k ⟨hentry, hobj⟩
    simp only [findService, hentry, hobj, if_false, Entry.service]

/-- A service that is there is found. -/
theorem findService_of_served (found : Option Nat) {j k : Nat} (hj : i ≤ j ∧ j < i + n)
    (hk : s.ServedAt d obj j k) :
    ∃ j k, (i ≤ j ∧ j < i + n) ∧ s.ServedAt d obj j k ∧ findService s d obj n i found = some k := by
  induction n generalizing i found with
  | zero => omega
  | succ n ih =>
    by_cases hhere : ∃ k, s.ServedAt d obj i k
    · obtain ⟨k, hentry, hobj⟩ := hhere
      refine ⟨i, k, by omega, ⟨hentry, hobj⟩, ?_⟩
      simp only [findService, hentry, hobj, if_true]
    · have hne : j ≠ i := fun heq => hhere ⟨k, heq ▸ hk⟩
      rw [findService_step found (not_exists.mp hhere)]
      obtain ⟨j', k', hj', hserved⟩ := ih ((s.domain d).services i).service (i := i + 1) (by omega)
      exact ⟨j', k', by omega, hserved⟩

/-- Otherwise the search ends with what is in the last entry. -/
theorem findService_of_not_served (found : Option Nat)
    (hnot : ∀ j k, i ≤ j ∧ j ≤ i + n → ¬ s.ServedAt d obj j k) :
    findService s d obj (n + 1) i found = ((s.domain d).services (i + n)).service := by
  induction n generalizing i found with
  | zero => rw [findService_step found fun k => hnot i k (by omega)]; rfl
  | succ n ih =>
    rw [findService_step found fun k => hnot i k (by omega),
      ih _ fun j k hj => hnot j k (by omega), Nat.add_right_comm, Nat.add_assoc]

end Search

/-! ## What a promotion is for -/

/-- A second promotion gives the same portal; a first one succeeds if there is a most specific
interface, and takes that. -/
structure Promotes (cls : Classes) (s : Sys) (d obj : Nat) : Prop where
  again : cls.promotable obj = true → ∀ k, s.Serves d obj k →
    portalAutoPromo cls s d obj = .ok ((s.dep k).proxy, s)
  first : (∀ k, ¬ s.Serves d obj k) →
    ((∃ r, portalAutoPromo cls s d obj = .ok r) ↔ ∃! m, cls.MostSpecific obj m)
  chosen : (∀ k, ¬ s.Serves d obj k) → ∀ m o t, cls.MostSpecific obj m →
    portalAutoPromo cls s d obj = .ok (o, t) →
    t.Serves d obj s.deps ∧ (t.dep s.deps).interface = m ∧ (t.dep s.deps).proxy = o ∧ o ≠ none

/-- An object that can be promoted has a service already; or the last entry of the table is not in
use, and if there is a most specific interface, then each interface can be compared with the most
specific one of those before it, and there is room for a service and its portal. -/
def Straightforward (cls : Classes) (s : Sys) (d obj : Nat) : Prop :=
  cls.promotable obj = true → (∃ k, s.Serves d obj k) ∨
    ((s.domain d).services (maxServices - 1)).service = none ∧
      ((∃ m, cls.MostSpecific obj m) → LeastThroughout cls.Below (cls.portals obj) ∧
        (∃ i < maxServices, (s.domain d).services i = .free) ∧ roomForProxy s = true)

/-- What makes services of different objects different, in every run. -/
structure Single (s : Sys) : Prop where
  unborn : ∀ k, s.deps ≤ k → s.freed k = false
  entry : ∀ d i k, (s.domain d).services i = .dep k → k < s.deps
  /-- No object has two services. -/
  one : ∀ d obj, ∀ i < maxServices, ∀ j < maxServices, ∀ k l,
    s.ServedAt d obj i k → s.ServedAt d obj j l → i = j

/-! ## One promotion -/

section Promotion

variable {cls : Classes} {s t : Sys} {d obj k : Nat} {o : Option Nat}

/-- What follows the search for the interface. -/
def promoteTo (s : Sys) (d obj : Nat) : Option Nat → Except Fault (Option Nat × Sys)
  | none => .error (.stop (.assertion "ASSERTCLASSDESC(interface)"))
  | some ifclass => promote s d obj ifclass

theorem portalAutoPromo_of_not_promotable (hp : cls.promotable obj = false) :
    portalAutoPromo cls s d obj = .error (.stop (.panic "DOES NOT IMPLEMENT PORTAL INTERFACE")) := by
  unfold portalAutoPromo
  rw [hp]
  rfl

theorem portalAutoPromo_of_found (hp : cls.promotable obj = true)
    (hfound : findService s d obj maxServices 0 none = some k) :
    portalAutoPromo cls s d obj = .ok ((s.dep k).proxy, s) := by
  unfold portalAutoPromo
  rw [hp, hfound]
  rfl

/-- The search in the table has brought nothing. -/
theorem portalAutoPromo_of_not_found (hp : cls.promotable obj = true)
    (hfound : findService s d obj maxServices 0 none = none) :
    portalAutoPromo cls s d obj =
      findPortalInterface cls (cls.interfaces obj) none >>= promoteTo s d obj := by
  unfold portalAutoPromo
  rw [hp, hfound]
  rfl

theorem firstFree_eq_none {services : Nat → Entry} {n i : Nat} (h : firstFree services n i = none) :
    ∀ j, i ≤ j ∧ j < i + n → services j ≠ .free := by
  induction n generalizing i with
  | zero => omega
  | succ n ih =>
    intro j hj
    unfold firstFree at h
    split at h
    · cases h
    · rename_i hfree
      by_cases heq : j = i
      · rw [heq]
        exact hfree
      · exact ih h j (by omega)

theorem allocProxyInDomain_returns {index : Nat} (origin : Nat) (hroom : roomForProxy s = true)
    (hentry : (s.domain d).services index = .dep k) (hfreed : s.freed k = false) :
    ∃ r, allocProxyInDomain s d (some d) (s.domain d).id index origin = .ok r := by
  have hderef : (s.addProxy ⟨d, some d, (s.domain d).id, index⟩ origin).deref (.dep k) = .ok k :=
    deref_eq_ok.mpr ⟨rfl, hfreed⟩
  have hinc : ∃ t, serviceIncRefcount (s.addProxy ⟨d, some d, (s.domain d).id, index⟩ origin)
      ((s.domain d).services index) = .ok t := by
    unfold serviceIncRefcount
    rw [hentry, hderef]
    exact ⟨_, rfl⟩
  obtain ⟨t, ht⟩ := hinc
  refine ⟨(s.proxies, t), ?_⟩
  unfold allocProxyInDomain
  rw [hroom]
  show (if (s.domain d).id = (s.domain d).id then _ else _) = _
  rw [if_pos rfl]
  exact bind_eq_ok.mpr ⟨t, ht, rfl⟩

/-- There must be a free entry and room for a portal. -/
theorem promote_ok_iff (hs : Single s) (ifclass : Nat) :
    (∃ r, promote s d obj ifclass = .ok r) ↔
      (∃ i < maxServices, (s.domain d).services i = .free) ∧ roomForProxy s = true := by
  constructor
  · rintro ⟨r, hr⟩
    obtain ⟨⟨k, u⟩, hu, hr⟩ := bind_eq_ok.mp hr
    obtain ⟨⟨p, v⟩, hv, -⟩ := bind_eq_ok.mp hr
    have hroom := (allocProxyInDomain_ok hv).1
    unfold createService at hu
    cases hfree : firstFree (s.domain d).services maxServices 0 with
    | none =>
      rw [hfree] at hu
      cases hu
    | some index =>
      rw [hfree] at hu
      obtain ⟨-, hu⟩ := Prod.mk.inj (pure_eq_ok.mp hu)
      have hlt := firstFree_lt hfree
      refine ⟨⟨index, by omega, firstFree_some hfree⟩, decide_eq_true ?_⟩
      rw [← hu] at hroom
      exact hroom
  · rintro ⟨⟨i, hi, hentry⟩, hroom⟩
    cases hfree : firstFree (s.domain d).services maxServices 0 with
    | none => exact absurd hentry (firstFree_eq_none hfree i (by omega))
    | some index =>
      have hcreate : createService s d obj ifclass =
          .ok (s.deps, s.addDep ⟨d, obj, ifclass, none, 0, index⟩) := by
        unfold createService
        rw [hfree]
        rfl
      have hroom' : roomForProxy (s.addDep ⟨d, obj, ifclass, none, 0, index⟩) = true := hroom
      have hdep : ((s.addDep ⟨d, obj, ifclass, none, 0, index⟩).dep s.deps).serviceIndex = index := by
        rw [addDep_dep, if_pos rfl]
      have hservice : ((s.addDep ⟨d, obj, ifclass, none, 0, index⟩).domain d).services
          ((s.addDep ⟨d, obj, ifclass, none, 0, index⟩).dep s.deps).serviceIndex = .dep s.deps := by
        rw [hdep, addDep_services, if_pos ⟨rfl, rfl⟩]
      have hunborn : (s.addDep ⟨d, obj, ifclass, none, 0, index⟩).freed s.deps = false :=
        hs.unborn s.deps (Nat.le_refl _)
      obtain ⟨⟨p, v⟩, hv⟩ := allocProxyInDomain_returns s.deps hroom' hservice hunborn
      exact ⟨_, bind_eq_ok.mpr ⟨_, hcreate, bind_eq_ok.mpr ⟨_, hv, rfl⟩⟩⟩

theorem findService_served (hs : Single s) (hk : s.Serves d obj k) :
    findService s d obj maxServices 0 none = some k := by
  obtain ⟨i, hi, hat⟩ := hk
  obtain ⟨j, l, hj, hat', hfound⟩ := findService_of_served none (i := 0) (n := maxServices)
    (by omega) hat
  obtain rfl := hs.one d obj i hi j (by omega) k l hat hat'
  rw [hfound, ← Entry.dep.inj (hat.1.symm.trans hat'.1)]

theorem findService_unserved (hnot : ∀ k, ¬ s.Serves d obj k) :
    findService s d obj maxServices 0 none = ((s.domain d).services (maxServices - 1)).service := by
  have hsearch := findService_of_not_served (s := s) (d := d) (i := 0) (n := maxServices - 1) none
    fun j k hj hat => hnot k ⟨j, by unfold maxServices at *; omega, hat⟩
  rw [Nat.zero_add] at hsearch
  exact hsearch

theorem Sys.Serves.promoted {ifclass index : Nat} (hlt : index < maxServices) (p : Proxy)
    (q : Option Nat) : ((s.addDep ⟨d, obj, ifclass, q, 1, index⟩).addProxy p s.deps).Serves d obj
      s.deps ∧
    ((s.addDep ⟨d, obj, ifclass, q, 1, index⟩).addProxy p s.deps).dep s.deps =
      ⟨d, obj, ifclass, q, 1, index⟩ := by
  have hdep := addDep_dep s ⟨d, obj, ifclass, q, 1, index⟩ s.deps
  have hentry := addDep_services s ⟨d, obj, ifclass, q, 1, index⟩ d index
  rw [if_pos rfl] at hdep
  rw [if_pos ⟨rfl, rfl⟩] at hentry
  exact ⟨⟨index, hlt, hentry, congrArg DEPDesc.obj hdep⟩, hdep⟩

variable {cs : Assign.Classes} {frame : Assign.Frames} {room : Assign.Routine → Nat}
  {portalInterface : Nat} {classOf : Nat → Nat}

/-- The first promotion of an object, when the search in the table has brought nothing. -/
theorem portalAutoPromo_first (h : cs.Hierarchy) (ha : Answers cs frame room portalInterface classOf cls)
    (hs : Single s) (hp : cls.promotable obj = true)
    (hfound : findService s d obj maxServices 0 none = none) :
    ((∃ r, portalAutoPromo cls s d obj = .ok r) ↔ (∃ m, cls.MostSpecific obj m) ∧
        LeastThroughout cls.Below (cls.portals obj) ∧
        (∃ i < maxServices, (s.domain d).services i = .free) ∧ roomForProxy s = true) ∧
      ∀ m o t, cls.MostSpecific obj m → portalAutoPromo cls s d obj = .ok (o, t) →
        t.Serves d obj s.deps ∧ (t.dep s.deps).interface = m ∧ (t.dep s.deps).proxy = o ∧ o ≠ none := by
  have := ha.isPreorder h
  rw [portalAutoPromo_of_not_found hp hfound]
  rcases findPortalInterface_cases cls (cls.interfaces obj) with
    ⟨hnil, hrun⟩ | ⟨hleast, m, hrun, hm⟩ | ⟨hleast, hne, hrun⟩
  · rw [hrun]
    refine ⟨iff_of_false ?_ ?_, ?_⟩
    · rintro ⟨r, hr⟩
      cases hr
    · rintro ⟨⟨m, hm⟩, -⟩
      unfold Classes.MostSpecific Classes.portals at hm
      rw [hnil] at hm
      exact not_least_nil hm
    · intro m o t hm hr
      cases hr
  · rw [hrun]
    refine ⟨?_, ?_⟩
    · refine (promote_ok_iff hs m).trans ⟨fun hroom => ⟨⟨m, hm⟩, hleast, hroom⟩, fun hall => hall.2.2⟩
    · intro m' o t hm' hr
      obtain ⟨index, hlt, -, -, rfl, rfl⟩ := promote_ok hr
      obtain ⟨hserves, hdep⟩ := Sys.Serves.promoted (s := s) (d := d) hlt
        ⟨d, some d, (s.domain d).id, index⟩ (some s.proxies)
      rw [Sys.setRunnable_dep, hdep]
      refine ⟨hserves, ?_, rfl, Option.some_ne_none _⟩
      exact hm.unique hm' fun x hx y hy => ha.antisymm h hx hy
  · rw [hrun]
    refine ⟨iff_of_false ?_ fun hall => hleast hall.2.1, ?_⟩
    · rintro ⟨r, hr⟩
      cases hr
    · intro m o t hm hr
      cases hr

theorem exists_unique_mostSpecific (h : cs.Hierarchy) (ha : Answers cs frame room portalInterface classOf cls) :
    (∃! m, cls.MostSpecific obj m) ↔ ∃ m, cls.MostSpecific obj m := by
  refine ⟨fun ⟨m, hm, _⟩ => ⟨m, hm⟩, fun ⟨m, hm⟩ => ⟨m, hm, fun m' hm' => ?_⟩⟩
  exact hm'.unique hm fun x hx y hy => ha.antisymm h hx hy

/-- When a promotion does what it is for. -/
theorem promotes_iff (h : cs.Hierarchy) (ha : Answers cs frame room portalInterface classOf cls)
    (hs : Single s) (d obj : Nat) : Promotes cls s d obj ↔ Straightforward cls s d obj := by
  cases hp : cls.promotable obj with
  | false =>
    have hnone : ¬ ∃ m, cls.MostSpecific obj m := by
      rintro ⟨m, hm⟩
      rw [ha.promotable_of_mem h hm.1] at hp
      cases hp
    have herror := portalAutoPromo_of_not_promotable (s := s) (d := d) hp
    refine iff_of_true ⟨fun htrue => ?_, fun _ => ?_, fun _ m o t _ hr => ?_⟩ fun htrue => ?_
    · rw [hp] at htrue
      cases htrue
    · rw [exists_unique_mostSpecific h ha]
      refine iff_of_false ?_ hnone
      rintro ⟨r, hr⟩
      rw [herror] at hr
      cases hr
    · rw [herror] at hr
      cases hr
    · rw [hp] at htrue
      cases htrue
  | true =>
    by_cases hserved : ∃ k, s.Serves d obj k
    · refine iff_of_true ⟨fun _ k hk => ?_, fun hnot => ?_, fun hnot => ?_⟩ fun _ => .inl hserved
      · exact portalAutoPromo_of_found hp (findService_served hs hk)
      · exact absurd hserved (not_exists.mpr hnot)
      · exact absurd hserved (not_exists.mpr hnot)
    have hnot := not_exists.mp hserved
    have hsearch := findService_unserved hnot
    cases hlast : ((s.domain d).services (maxServices - 1)).service with
    | some k =>
      -- the service of somebody else is taken for that of the object
      rw [hlast] at hsearch
      have hrun := portalAutoPromo_of_found hp hsearch
      refine iff_of_false (fun hpromotes => ?_) fun hstraight => ?_
      · obtain ⟨m, hm, -⟩ := (hpromotes.first hnot).mp ⟨_, hrun⟩
        exact hnot _ (hpromotes.chosen hnot m _ _ hm hrun).1
      · rcases hstraight hp with hserves | ⟨hnone, -⟩
        · exact hserved hserves
        · rw [hlast] at hnone
          cases hnone
    | none =>
      rw [hlast] at hsearch
      obtain ⟨hiff, hchosen⟩ := portalAutoPromo_first h ha hs hp hsearch
      constructor
      · intro hpromotes _
        refine .inr ⟨hlast, fun hm => ?_⟩
        have hok := (hpromotes.first hnot).mpr ((exists_unique_mostSpecific h ha).mpr hm)
        exact (hiff.mp hok).2
      · intro hstraight
        refine ⟨fun _ k hk => absurd hk (hnot k), fun _ => ?_, fun _ => hchosen⟩
        rw [exists_unique_mostSpecific h ha, hiff]
        refine ⟨fun hall => hall.1, fun hm => ⟨hm, ?_⟩⟩
        rcases hstraight hp with hserves | ⟨-, hrest⟩
        · exact absurd hserves hserved
        · exact hrest hm

/-- The same classes, with the interfaces declared in another order. -/
structure Reordered (cls cls' : Classes) (obj : Nat) : Prop where
  interfaces : (cls.interfaces obj).Perm (cls'.interfaces obj)
  promotable : cls'.promotable obj = cls.promotable obj
  isPortal : cls'.isPortal = cls.isPortal
  checkAssign : cls'.checkAssign = cls.checkAssign

theorem Reordered.portals_perm {cls' : Classes} (hr : Reordered cls cls' obj) :
    (cls.portals obj).Perm (cls'.portals obj) := by
  unfold Classes.portals
  rw [hr.isPortal]
  exact hr.interfaces.filter _

theorem Reordered.below_eq {cls' : Classes} (hr : Reordered cls cls' obj) : cls'.Below = cls.Below := by
  funext i j
  unfold Classes.Below
  rw [hr.checkAssign]

theorem Reordered.mostSpecific {cls' : Classes} (hr : Reordered cls cls' obj) {m : Nat} :
    cls'.MostSpecific obj m ↔ cls.MostSpecific obj m := by
  unfold Classes.MostSpecific
  rw [hr.below_eq]
  exact ⟨fun hm => hm.perm hr.portals_perm.symm, fun hm => hm.perm hr.portals_perm⟩

theorem findPortalInterface_found [IsPreorder Nat cls.Below] (hm : ∃ m, cls.MostSpecific obj m)
    (hleast : LeastThroughout cls.Below (cls.portals obj)) :
    ∃ m, findPortalInterface cls (cls.interfaces obj) none = .ok (some m) ∧
      cls.MostSpecific obj m := by
  rcases findPortalInterface_cases cls (cls.interfaces obj) with
    ⟨hempty, -⟩ | ⟨-, m, hrun, hmost⟩ | ⟨hnot, -, -⟩
  · obtain ⟨m, hm⟩ := hm
    unfold Classes.MostSpecific Classes.portals at hm
    rw [hempty] at hm
    exact absurd hm not_least_nil
  · exact ⟨m, hrun, hmost⟩
  · exact absurd hleast hnot

theorem findPortalInterface_not_found [IsPreorder Nat cls.Below]
    (hm : ¬ ∃ m, cls.MostSpecific obj m) :
    findPortalInterface cls (cls.interfaces obj) none =
      if cls.portals obj = [] then .ok none else .error moreThanOne := by
  rcases findPortalInterface_cases cls (cls.interfaces obj) with
    ⟨hempty, hrun⟩ | ⟨-, m, -, hmost⟩ | ⟨-, hne, hrun⟩
  · rw [hrun]
    exact (if_pos hempty).symm
  · exact absurd ⟨m, hmost⟩ hm
  · rw [hrun]
    exact (if_neg hne).symm

/-- In both orders the search for the interface comes to the same. -/
theorem findPortalInterface_reordered {cls' : Classes} (h : cs.Hierarchy)
    (ha : Answers cs frame room portalInterface classOf cls) (hr : Reordered cls cls' obj)
    (hm : (∃ m, cls.MostSpecific obj m) → LeastThroughout cls.Below (cls.portals obj))
    (hm' : (∃ m, cls'.MostSpecific obj m) → LeastThroughout cls'.Below (cls'.portals obj)) :
    findPortalInterface cls' (cls'.interfaces obj) none =
      findPortalInterface cls (cls.interfaces obj) none := by
  have := ha.isPreorder h
  have : IsPreorder Nat cls'.Below := hr.below_eq ▸ this
  by_cases hmost : ∃ m, cls.MostSpecific obj m
  · have hmost' : ∃ m, cls'.MostSpecific obj m := hmost.imp fun m => hr.mostSpecific.mpr
    obtain ⟨m, hrun, hspecific⟩ := findPortalInterface_found hmost (hm hmost)
    obtain ⟨m', hrun', hspecific'⟩ := findPortalInterface_found hmost' (hm' hmost')
    rw [hrun, hrun', (hr.mostSpecific.mp hspecific').unique hspecific
      fun x hx y hy => ha.antisymm h hx hy]
  · have hmost' : ¬ ∃ m, cls'.MostSpecific obj m := fun hex => hmost (hex.imp fun m =>
      hr.mostSpecific.mp)
    have hnil : cls'.portals obj = [] ↔ cls.portals obj = [] := by
      rw [← List.length_eq_zero_iff, ← List.length_eq_zero_iff, hr.portals_perm.length_eq]
    rw [findPortalInterface_not_found hmost, findPortalInterface_not_found hmost']
    simp only [hnil]

/-- The order does not matter where promotions are straightforward. -/
theorem portalAutoPromo_reordered {cls' : Classes} (h : cs.Hierarchy)
    (ha : Answers cs frame room portalInterface classOf cls) (hs : Single s) (hr : Reordered cls cls' obj)
    (hstraight : Straightforward cls s d obj) (hstraight' : Straightforward cls' s d obj) :
    portalAutoPromo cls' s d obj = portalAutoPromo cls s d obj := by
  cases hp : cls.promotable obj with
  | false =>
    rw [portalAutoPromo_of_not_promotable hp,
      portalAutoPromo_of_not_promotable (hr.promotable.trans hp)]
  | true =>
    have hp' := hr.promotable.trans hp
    cases hfound : findService s d obj maxServices 0 none with
    | some k => rw [portalAutoPromo_of_found hp hfound, portalAutoPromo_of_found hp' hfound]
    | none =>
      have hnot : ¬ ∃ k, s.Serves d obj k := by
        rintro ⟨k, hk⟩
        rw [findService_served hs hk] at hfound
        cases hfound
      have hrest := (hstraight hp).resolve_left hnot
      have hrest' := (hstraight' hp').resolve_left hnot
      rw [portalAutoPromo_of_not_found hp hfound, portalAutoPromo_of_not_found hp' hfound,
        findPortalInterface_reordered h ha hr (fun hm => (hrest.2 hm).1) fun hm => (hrest'.2 hm).1]

end Promotion

/-! ## Runs -/

/-- Services may have gone, but none has been added or changed. -/
structure Shrinks (s t : Sys) : Prop where
  deps : t.deps = s.deps
  obj : ∀ k, (t.dep k).obj = (s.dep k).obj
  entry : ∀ d i k, (t.domain d).services i = .dep k → (s.domain d).services i = .dep k
  unborn : ∀ k, s.deps ≤ k → s.freed k = false → t.freed k = false

section Runs

variable {cls : Classes} {s t u : Sys} {d obj k : Nat} {found : Nat → Bool}

theorem Shrinks.refl (s : Sys) : Shrinks s s := ⟨rfl, fun _ => rfl, fun _ _ _ => id, fun _ _ => id⟩

theorem Shrinks.trans (h : Shrinks s t) (h' : Shrinks t u) : Shrinks s u where
  deps := h'.deps.trans h.deps
  obj k := (h'.obj k).trans (h.obj k)
  entry d i k hk := h.entry d i k (h'.entry d i k hk)
  unborn k hk hfreed := h'.unborn k (h.deps ▸ hk) (h.unborn k hk hfreed)

/-- The rest of the state does not matter. -/
theorem Shrinks.same (h : Shrinks s t) (hdeps : u.deps = t.deps) (hdep : u.dep = t.dep)
    (hdomain : u.domain = t.domain) (hfreed : u.freed = t.freed) : Shrinks s u := by
  refine ⟨hdeps.trans h.deps, fun k => ?_, fun d i k hk => ?_, fun k hk hf => ?_⟩
  · rw [hdep]
    exact h.obj k
  · rw [hdomain] at hk
    exact h.entry d i k hk
  · rw [hfreed]
    exact h.unborn k hk hf

theorem Single.shrink (hs : Single s) (h : Shrinks s t) : Single t where
  unborn k hk := h.unborn k (h.deps ▸ hk) (hs.unborn k (h.deps ▸ hk))
  entry d i k hk := h.deps ▸ hs.entry d i k (h.entry d i k hk)
  one d obj i hi j hj k l hk hl := hs.one d obj i hi j hj k l
    ⟨h.entry d i k hk.1, h.obj k ▸ hk.2⟩ ⟨h.entry d j l hl.1, h.obj l ▸ hl.2⟩

/-- A service is added for an object that has none. -/
theorem Single.addDep (hs : Single s) (dep : DEPDesc)
    (hnew : ∀ k, ¬ s.Serves dep.domain dep.obj k) : Single (s.addDep dep) where
  unborn k hk := hs.unborn k (Nat.le_of_succ_le hk)
  entry d i k hk := by
    rw [addDep_services] at hk
    split at hk
    · exact Entry.dep.inj hk ▸ Nat.lt_succ_self _
    · exact Nat.lt_succ_of_lt (hs.entry d i k hk)
  one d obj i hi j hj k l hk hl := by
    have hold : ∀ i < maxServices, ∀ k, (s.addDep dep).ServedAt d obj i k →
        (d = dep.domain ∧ i = dep.serviceIndex ∧ dep.obj = obj) ∨ s.ServedAt d obj i k := by
      intro i hi k hk
      obtain ⟨hentry, hobj⟩ := hk
      rw [addDep_services] at hentry
      split at hentry
      · rename_i heq
        rw [← Entry.dep.inj hentry, addDep_dep, if_pos rfl] at hobj
        exact .inl ⟨heq.1, heq.2, hobj⟩
      · rw [addDep_dep_old s dep (hs.entry d i k hentry)] at hobj
        exact .inr ⟨hentry, hobj⟩
    rcases hold i hi k hk with ⟨hd, hi', hobj⟩ | hk'
    · rcases hold j hj l hl with ⟨-, hj', -⟩ | hl'
      · rw [hi', hj']
      · exact absurd ⟨j, hj, hd ▸ hobj ▸ hl'⟩ (hnew l)
    · rcases hold j hj l hl with ⟨hd, -, hobj⟩ | hl'
      · exact absurd ⟨i, hi, hd ▸ hobj ▸ hk'⟩ (hnew k)
      · exact hs.one d obj i hi j hj k l hk' hl'

theorem shrinks_addProxy (s : Sys) (p : Proxy) (origin : Nat) : Shrinks s (s.addProxy p origin) :=
  ⟨rfl, fun _ => rfl, fun _ _ _ => id, fun _ _ => id⟩

theorem shrinks_setRefcount (s : Sys) (k n : Nat) : Shrinks s (s.setRefcount k n) :=
  ⟨rfl, fun j => setRefcount_dep_obj s k n j, fun _ _ _ => id, fun _ _ => id⟩

theorem shrinks_setEntry (s : Sys) (d i : Nat) {e : Entry} (he : e.service = none) :
    Shrinks s (s.setEntry d i e) := by
  refine ⟨rfl, fun _ => rfl, fun c j k hk => ?_, fun _ _ => id⟩
  rw [setEntry_services] at hk
  split at hk
  · rw [hk] at he
    cases he
  · exact hk

theorem shrinks_deleted (s : Sys) (d i k : Nat) : Shrinks s (s.deleted d i k) := by
  have hfirst : Shrinks s { s.setRefcount k 0 with terminated := k :: s.terminated } :=
    (shrinks_setRefcount s k 0).same rfl rfl rfl rfl
  have hfree : Entry.free.service = none := rfl
  exact hfirst.trans (shrinks_setEntry _ d i hfree)

theorem shrinks_allocProxyInDomain {o domain targetDomainID depIndex origin : Nat}
    {targetDomain : Option Nat}
    (h : allocProxyInDomain s domain targetDomain targetDomainID depIndex origin = .ok (o, t)) :
    Shrinks s t := by
  obtain ⟨-, -, ⟨rfl, -⟩ | ⟨d, k, -, -, -, -, rfl⟩⟩ := allocProxyInDomain_ok h
  · exact shrinks_addProxy ..
  · exact (shrinks_addProxy ..).trans (shrinks_setRefcount ..)

theorem shrinks_finalizePortal {r : Nat} (h : finalizePortal s r found = .ok t) : Shrinks s t := by
  obtain ⟨u, hu, ht⟩ := bind_eq_ok.mp h
  rw [pure_eq_ok] at ht
  subst ht
  have hshrink : Shrinks s u := by
    unfold finalizePortalsCB at hu
    simp only at hu
    split at hu
    · rw [pure_eq_ok] at hu
      exact hu ▸ Shrinks.refl s
    · split at hu
      · obtain ⟨k, -, -, -, rfl⟩ := serviceDecRefcount_ok hu
        split
        · exact (shrinks_deleted ..).same rfl rfl rfl rfl
        · exact (shrinks_setRefcount ..).same rfl rfl rfl rfl
      · rw [pure_eq_ok] at hu
        exact hu ▸ Shrinks.refl s
  exact hshrink.same rfl rfl rfl rfl

theorem shrinks_foldlM {l : List Nat}
    (h : l.foldlM (fun s r => finalizePortal s r found) s = .ok t) : Shrinks s t := by
  induction l generalizing s with
  | nil =>
    rw [List.foldlM_nil, pure_eq_ok] at h
    exact h ▸ Shrinks.refl s
  | cons r l ih =>
    rw [List.foldlM_cons] at h
    obtain ⟨u, hu, h⟩ := bind_eq_ok.mp h
    exact (shrinks_finalizePortal hu).trans (ih h)

theorem deactivate_entry {services : Nat → Entry} {n i j : Nat}
    (h : deactivate services n i j = .dep k) : services j = .dep k := by
  induction n generalizing i with
  | zero => exact h
  | succ n ih =>
    unfold deactivate at h
    split at h
    · rw [Function.update_apply] at h
      split at h
      · cases h
      · exact h
    · exact ih h

theorem shrinks_terminateDomain (h : terminateDomain s d found = .ok t) : Shrinks s t := by
  obtain ⟨u, hu, ht⟩ := bind_eq_ok.mp h
  rw [pure_eq_ok] at ht
  subst ht
  have hfirst : Shrinks s { s with
      domain := Function.update s.domain d
        { s.domain d with services := deactivate (s.domain d).services maxServices 0 } } := by
    refine ⟨rfl, fun _ => rfl, fun c i k hk => ?_, fun _ _ => id⟩
    simp only [Function.update_apply] at hk
    split at hk
    · rename_i heq
      rw [heq]
      exact deactivate_entry hk
    · exact hk
  have hfold := hfirst.trans (shrinks_foldlM hu)
  refine hfold.trans ⟨rfl, fun _ => rfl, fun c i k hk => ?_, fun k hk hfreed => ?_⟩
  · simp only [Function.update_apply] at hk
    split at hk
    · rename_i heq
      rw [heq]
      exact hk
    · exact hk
  · have hlt : ¬ (k < u.deps ∧ (u.dep k).domain = d) := by omega
    simp only [hfreed, Bool.false_or]
    exact decide_eq_false hlt

theorem shrinks_createDomain (s : Sys) (d : Nat) : Shrinks s (createDomain s d) := by
  refine ⟨rfl, fun _ => rfl, fun c i k hk => ?_, fun _ _ => id⟩
  unfold createDomain at hk
  simp only [Function.update_apply] at hk
  split at hk
  · simp only [Function.update_apply] at hk
    split at hk
    · cases hk
    · cases hk
  · exact hk

/-- An object that is new has no service. -/
def Fresh (s : Sys) : Event → Prop
  | .direct _ => ∀ k, ¬ s.Serves 0 s.proxies k
  | _ => True

/-- A step of the system. -/
def PromotionStep (cls : Classes) (s t : Sys) : Prop :=
  ∃ e, Enabled s e ∧ Fresh s e ∧ exec cls s e = .ok t

theorem Single.autoPromo {o : Option Nat} (hs : Single s)
    (h : portalAutoPromo cls s d obj = .ok (o, t)) : Single t := by
  by_cases hserved : ∃ k, s.Serves d obj k
  · obtain ⟨k, hk⟩ := hserved
    cases hp : cls.promotable obj with
    | false =>
      rw [portalAutoPromo_of_not_promotable hp] at h
      cases h
    | true =>
      rw [portalAutoPromo_of_found hp (findService_served hs hk)] at h
      cases h
      exact hs
  · obtain rfl | ⟨ifclass, index, -, -, -, rfl⟩ := portalAutoPromo_ok h
    · exact hs
    · have hadded := (hs.addDep ⟨d, obj, ifclass, some s.proxies, 1, index⟩
        (not_exists.mp hserved)).shrink
          (shrinks_addProxy _ ⟨d, some d, (s.domain d).id, index⟩ s.deps)
      exact hadded.shrink ((Shrinks.refl _).same rfl rfl rfl rfl)

theorem Single.step (hs : Single s) (hstep : PromotionStep cls s t) : Single t := by
  obtain ⟨e, -, hfresh, ht⟩ := hstep
  cases e with
  | autoPromo d obj =>
    obtain ⟨⟨o, u⟩, hu, ht⟩ := bind_eq_ok.mp ht
    exact pure_eq_ok.mp ht ▸ hs.autoPromo hu
  | direct cd =>
    obtain ⟨⟨o, u⟩, hu, ht⟩ := bind_eq_ok.mp ht
    obtain ⟨⟨k, v⟩, hv, hu⟩ := bind_eq_ok.mp hu
    obtain ⟨-, index, -, -, rfl⟩ := createService_ok hv
    have hadded := hs.addDep ⟨0, s.proxies, cd, none, 0, index⟩ hfresh
    exact pure_eq_ok.mp ht ▸ hadded.shrink (shrinks_allocProxyInDomain hu)
  | copy r dst quota =>
    obtain ⟨⟨c, q, u⟩, hu, ht⟩ := bind_eq_ok.mp ht
    rw [← pure_eq_ok.mp ht]
    rcases copyPortal_ok hu with ⟨-, rfl, -⟩ | ⟨-, o, -, halloc⟩
    · exact hs
    · exact hs.shrink (shrinks_allocProxyInDomain halloc)
  | collect r found => exact hs.shrink (shrinks_finalizePortal ht)
  | send r =>
    obtain ⟨sent, -, ht⟩ := bind_eq_ok.mp ht
    cases sent with
    | queued k =>
      rw [← pure_eq_ok.mp ht]
      exact hs.shrink ((Shrinks.refl s).same rfl rfl rfl rfl)
    | exception => exact pure_eq_ok.mp ht ▸ hs
    | shortCircuit k => exact pure_eq_ok.mp ht ▸ hs
  | return_ c thrown =>
    rw [← pure_eq_ok.mp ht]
    exact hs.shrink ((Shrinks.refl s).same rfl rfl rfl rfl)
  | wait k =>
    rw [← pure_eq_ok.mp ht]
    exact hs.shrink ((Shrinks.refl s).same rfl rfl rfl rfl)
  | createDomain d =>
    rw [← pure_eq_ok.mp ht]
    exact hs.shrink (shrinks_createDomain s d)
  | terminateDomain d found => exact hs.shrink (shrinks_terminateDomain ht)

theorem Booted.single (h : Booted s) : Single s where
  unborn k _ := h.freed k
  entry d i k hk := absurd hk (h.table d i k)
  one d _ i _ _ _ k _ hk _ := absurd hk.1 (h.table d i k)

end Runs

/-- In every run no object gets two services; and a promotion does what it is for exactly if it is
straightforward, and then whatever the order of the interfaces is. -/
theorem promotes_iff_straightforward {cs : Assign.Classes} {frame : Assign.Frames}
    {room : Assign.Routine → Nat} {portalInterface : Nat} {classOf : Nat → Nat} {cls : Classes}
    {s₀ s : Sys} (h : cs.Hierarchy)
    (ha : Answers cs frame room portalInterface classOf cls) (hboot : Booted s₀)
    (hrun : Relation.ReflTransGen (PromotionStep cls) s₀ s) (d obj : Nat) :
    (∀ k l, s.Serves d obj k → s.Serves d obj l → k = l) ∧
      (Promotes cls s d obj ↔ Straightforward cls s d obj) ∧
      ∀ cls', Reordered cls cls' obj → Straightforward cls s d obj → Straightforward cls' s d obj →
        portalAutoPromo cls' s d obj = portalAutoPromo cls s d obj := by
  have hs : Single s := invariant_of_run (fun _ _ hinv hstep => hinv.step hstep) hrun hboot.single
  refine ⟨?_, promotes_iff h ha hs d obj, fun cls' hr hst hst' =>
    portalAutoPromo_reordered h ha hs hr hst hst'⟩
  rintro k l ⟨i, hi, hk⟩ ⟨j, hj, hl⟩
  obtain rfl := hs.one d obj i hi j hj k l hk hl
  exact Entry.dep.inj (hk.1.symm.trans hl.1)

/-! ## Three portal interfaces -/

section Diamond

/-- The interfaces `A`, `B` and `C extends A, B` of portals, and classes that implement them in
different orders. -/
def diamond : Assign.Classes where
  javaLangObject := 0
  desc
    | 0 => ⟨.ordinary, "java/lang/Object".toList, none, [], 0⟩
    | 1 => ⟨.interface, "jx/zero/Portal".toList, some 0, [], 0⟩
    | 2 => ⟨.interface, "A".toList, some 0, [1], 0⟩
    | 3 => ⟨.interface, "B".toList, some 0, [1], 0⟩
    | 4 => ⟨.interface, "C".toList, some 0, [2, 3], 0⟩
    | 5 => ⟨.ordinary, "FirstAB".toList, some 0, [2, 3, 4], 0⟩
    | 6 => ⟨.ordinary, "FirstC".toList, some 0, [4, 2, 3], 0⟩
    | _ => ⟨.ordinary, "Other".toList, some 0, [], 0⟩

theorem diamond_above {c e : Nat} (h : diamond.Above c e) : e < c ∧ e < 5 := by
  unfold Assign.Classes.Above at h
  rcases c with _ | _ | _ | _ | _ | _ | _ | c <;> simp [diamond] at h ⊢ <;> omega

theorem diamond_hierarchy : diamond.Hierarchy where
  acyclic := by
    refine Subrelation.wf (fun {e c} hec => show e < c from ?_) Nat.lt_wfRel.wf
    rcases hec with habove | ⟨harray, rfl⟩
    · exact (diamond_above habove).1
    · rcases c with _ | _ | _ | _ | _ | _ | _ | c <;>
        first | exact absurd harray (by decide) | cases harray
  interfaces := by
    intro c e he
    have hlt : e < 5 ∧ e ≠ 0 := by
      rcases c with _ | _ | _ | _ | _ | _ | _ | c <;> simp [diamond] at he <;> omega
    rcases e with _ | _ | _ | _ | _ | e
    · exact absurd rfl hlt.2
    · rfl
    · rfl
    · rfl
    · rfl
    · omega
  superOfInterface := by
    intro c e hinterface hsuper
    rcases c with _ | _ | _ | _ | _ | _ | _ | c <;> cases hsuper <;> rfl
  rooted := by
    intro c hc
    rcases c with _ | _ | _ | _ | _ | _ | _ | c <;>
      first | exact absurd rfl hc | exact .single rfl
  object := ⟨rfl, rfl, by decide⟩
  arrays := by
    intro c harray
    rcases c with _ | _ | _ | _ | _ | _ | _ | c <;> cases harray
  noArrays := by
    intro c e habove
    have hlt := (diamond_above habove).2
    rcases e with _ | _ | _ | _ | _ | e
    · decide
    · decide
    · decide
    · decide
    · decide
    · omega

/-- The height of the classes. -/
def diamondRank (c : Nat) : Nat := if c ≤ 6 then c else 1

theorem diamond_ranked : diamond.Ranked diamondRank := by
  rintro c e (habove | ⟨harray, rfl⟩)
  · have hlt := diamond_above habove
    by_cases hc : c ≤ 6
    · simp only [diamondRank, hc, show e ≤ 6 by omega, if_true]
      exact hlt.1
    · obtain ⟨n, rfl⟩ : ∃ n, c = n + 7 := ⟨c - 7, by omega⟩
      have hzero : e = 0 := by simpa [Assign.Classes.Above, diamond, eq_comm] using habove
      simp [hzero, diamondRank]
  · rcases c with _ | _ | _ | _ | _ | _ | _ | c <;> first | exact absurd harray (by decide) | cases harray

theorem diamondRank_le (c : Nat) : diamondRank c ≤ 6 := by
  unfold diamondRank
  split <;> omega

theorem diamond_reaches_le {c e : Nat} (h : diamond.Reaches c e) : e ≤ c := by
  induction h with
  | refl => exact Nat.le_refl _
  | tail _ hstep ih => exact (diamond_above hstep).1.le.trans ih

section Objects

variable {cls : Classes} (ha : Answers diamond (fun _ _ => 64) (fun _ => 4096) 1 id cls)

include ha

theorem diamond_isPortal : cls.isPortal 2 = true ∧ cls.isPortal 3 = true ∧ cls.isPortal 4 = true := by
  simp only [ha.isPortal_iff diamond_hierarchy]
  have hA : diamond.Reaches 2 1 := .single (.inr List.mem_cons_self)
  have hB : diamond.Reaches 3 1 := .single (.inr List.mem_cons_self)
  exact ⟨hA, hB, .head (.inr List.mem_cons_self) hA⟩

/-- The portal interfaces of a class that is derived from `java/lang/Object`. -/
theorem diamond_portals {obj : Nat} (hsuper : (diamond.desc obj).superclass = some 0)
    (hall : ∀ i ∈ (diamond.desc obj).interfaces, i = 2 ∨ i = 3 ∨ i = 4) :
    cls.portals obj = (diamond.desc obj).interfaces := by
  have hreturns : Returns (fun fuel => declared diamond fuel obj) (diamond.desc obj).interfaces := by
    refine ⟨2, fun fuel hfuel => ?_⟩
    obtain ⟨n, rfl⟩ : ∃ n, fuel = n + 2 := ⟨fuel - 2, by omega⟩
    have hobject : declared diamond (n + 1) 0 = pure [] := rfl
    show declared diamond (n + 1 + 1) obj = _
    rw [declared, hsuper]
    show declared diamond (n + 1) 0 >>= _ = _
    rw [hobject]
    have happend : (diamond.desc obj).interfaces ++ [] = (diamond.desc obj).interfaces :=
      List.append_nil _
    exact congrArg (fun l => (pure l : Exec (List Nat))) happend
  have hinterfaces := (ha.interfaces obj).unique hreturns
  obtain ⟨hA, hB, hC⟩ := diamond_isPortal ha
  unfold Classes.portals
  rw [hinterfaces, List.filter_eq_self]
  intro i hi
  rcases hall i hi with rfl | rfl | rfl
  · exact hA
  · exact hB
  · exact hC

/-- `C` is below all of them. -/
theorem diamond_below {i : Nat} (hi : i = 2 ∨ i = 3 ∨ i = 4) : cls.Below 4 i := by
  rw [ha.below_iff diamond_hierarchy]
  rcases hi with rfl | rfl | rfl
  · exact .reaches (.single (.inr List.mem_cons_self))
  · exact .reaches (.single (.inr (List.mem_cons_of_mem _ List.mem_cons_self)))
  · exact .reaches .refl

/-- `A` and `B` cannot be compared. -/
theorem diamond_not_below : ¬ cls.Below 2 3 ∧ ¬ cls.Below 3 2 := by
  rw [ha.below_iff diamond_hierarchy, ha.below_iff diamond_hierarchy,
    Assign.Classes.assignable_iff_reaches (by decide),
    Assign.Classes.assignable_iff_reaches (by decide)]
  refine ⟨fun hreach => ?_, fun hreach => ?_⟩
  · exact absurd (diamond_reaches_le hreach) (by decide)
  · rcases Assign.Classes.reaches_iff.mp hreach with heq | ⟨e, habove, hrest⟩
    · cases heq
    · have hle := diamond_reaches_le hrest
      have hlt : e < 2 := by
        rcases habove with hsuper | hinterface
        · have heq : 0 = e := Option.some.inj hsuper
          omega
        · have heq : e = 1 := List.mem_singleton.mp hinterface
          omega
      omega

end Objects

theorem not_serves_twoDomains (d obj k : Nat) : ¬ twoDomains.Serves d obj k := by
  rintro ⟨i, -, hentry, -⟩
  exact twoDomains_booted.table d i k hentry

/-- With half of a stack left there are answers. -/
theorem diamond_answers :
    ∃ cls, Answers diamond (fun _ _ => 64) (fun _ => 4096) 1 id cls := by
  have hroom : ∀ c, Assign.assignRoom 64 (diamondRank c) ≤ 4096 := by
    intro c
    have hle := diamondRank_le c
    unfold Assign.assignRoom Assign.interfaceRoom
    omega
  refine exists_answers diamond_hierarchy diamond_ranked (fun _ _ => le_rfl) (fun c => ?_) hroom 1 id
  exact (Nat.le_add_right _ _).trans (hroom c)

/-- With `C` in front the promotion succeeds. -/
theorem promotes_firstC : diamond.Hierarchy ∧
    ∃ cls, Answers diamond (fun _ _ => 64) (fun _ => 4096) 1 id cls ∧
    Promotes cls twoDomains 1 6 := by
  obtain ⟨cls, ha⟩ := diamond_answers
  refine ⟨diamond_hierarchy, cls, ha, ?_⟩
  refine ((promotes_iff_straightforward diamond_hierarchy ha twoDomains_booted .refl 1 6).2.1).mpr ?_
  intro _
  refine .inr ⟨rfl, fun _ => ⟨?_, ⟨1, by decide, rfl⟩, rfl⟩⟩
  rw [diamond_portals ha rfl (by decide)]
  intro l₁ l₂ hl hne
  obtain ⟨x, l₁, rfl⟩ := List.exists_cons_of_ne_nil hne
  obtain ⟨rfl, hrest⟩ := List.cons.inj hl
  refine ⟨4, List.mem_cons_self, fun i hi => diamond_below ha ?_⟩
  have hall : ∀ i ∈ (diamond.desc 6).interfaces, i = 2 ∨ i = 3 ∨ i = 4 := by decide
  exact hall i (hl ▸ List.mem_append_left _ hi)

/-- With `A` and `B` in front it fails, although `C` is the most specific interface here as well. -/
theorem not_promotes_firstAB : diamond.Hierarchy ∧
    (∃ cls, Answers diamond (fun _ _ => 64) (fun _ => 4096) 1 id cls) ∧
    ∀ cls, Answers diamond (fun _ _ => 64) (fun _ => 4096) 1 id cls → ¬ Promotes cls twoDomains 1 5 := by
  refine ⟨diamond_hierarchy, diamond_answers, fun cls ha hpromotes => ?_⟩
  have hportals : cls.portals 5 = [2, 3, 4] := diamond_portals ha rfl (by decide)
  have hmost : cls.MostSpecific 5 4 := by
    unfold Classes.MostSpecific
    rw [hportals]
    exact ⟨by decide, fun i hi => diamond_below ha (by simpa using hi)⟩
  have hstraight := (promotes_iff diamond_hierarchy ha twoDomains_booted.single 1 5).mp hpromotes
  have hrest := (hstraight (ha.promotable_of_mem diamond_hierarchy hmost.1)).resolve_left
    (not_exists.mpr (not_serves_twoDomains 1 5))
  obtain ⟨m, hmem, hall⟩ := (hrest.2 ⟨4, hmost⟩).1 [2, 3] [4] hportals (List.cons_ne_nil _ _)
  obtain ⟨hAB, hBA⟩ := diamond_not_below ha
  rcases List.mem_pair.mp hmem with rfl | rfl
  · exact hAB (hall 3 (by decide))
  · exact hBA (hall 2 (by decide))

end Diamond

end JxCore.Service
