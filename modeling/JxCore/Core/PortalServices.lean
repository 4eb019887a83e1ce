import JxCore.Core.PortalTable
import Mathlib.Data.Set.Card

/-!
# Portals in place of services (`core/portal.c`)

The object of a service is replaced by a portal, and the service is looked for in the table of its
domain. If it is not there, the search ends with the last entry, whatever that is. `Served` says that
this does not happen, and what a copy leaves is then as it should be: the portal leads to the service
of this object.
-/

namespace JxCore.PortalCopy

open Exec

/-! ## Services of the objects of a graph -/

section Served

variable {env : Env} {src : Nat} {M : Nat → Prop} {s t : Sys} {v index : Nat}

/-- The objects of the graph that have no service yet. -/
def unserved (env : Env) (src : Nat) (M : Nat → Prop) (s : Sys) : Set Nat :=
  {v | M v ∧ servesAt env s.objs v = true ∧
    ∀ index < maxServices, ∀ dep, s.services src index = .dep dep → dep.obj ≠ v}

def freeEntries (s : Sys) (d : Nat) : Finset Nat :=
  (Finset.range maxServices).filter fun index => s.services d index = .free

/-- Each search ends with the service of its object or with nothing, in which case an entry is free. -/
structure Served (env : Env) (src : Nat) (M : Nat → Prop) (s : Sys) : Prop where
  enough : unserved env src M s = ∅ ∨
    (∀ dep, s.services src (maxServices - 1) ≠ .dep dep) ∧
      (unserved env src M s).encard ≤ (freeEntries s src).card
  proxied : ∀ v dep, M v → servesAt env s.objs v = true → findService s src v = some dep →
    dep.proxy ≠ 0

/-- The first service for `obj`. -/
def firstService (s : Sys) (d obj : Nat) : Option Dep :=
  (List.range maxServices).findSome? fun index =>
    (s.services d index).service.filter fun dep => dep.obj = obj

theorem findService_or (s : Sys) (d obj : Nat) : findService s d obj =
    (firstService s d obj).or (s.services d (maxServices - 1)).service := rfl

theorem service_eq_some {e : Entry} {dep : Dep} : e.service = some dep ↔ e = .dep dep := by
  cases e with
  | dep dep' => simp [Entry.service]
  | _ => simp [Entry.service]

theorem firstService_eq_none {d obj : Nat} : firstService s d obj = none ↔
    ∀ index < maxServices, ∀ dep, s.services d index = .dep dep → dep.obj ≠ obj := by
  unfold firstService
  rw [List.findSome?_eq_none_iff]
  constructor
  · intro h index hindex dep hdep hobj
    have hnone := h index (List.mem_range.mpr hindex)
    rw [hdep, Option.filter_eq_none_iff] at hnone
    exact hnone dep rfl (decide_eq_true hobj)
  · intro h index hindex
    rw [Option.filter_eq_none_iff]
    intro dep hdep hobj
    exact h index (List.mem_range.mp hindex) dep (service_eq_some.mp hdep) (of_decide_eq_true hobj)

theorem firstService_eq_some {d obj : Nat} {dep : Dep} (h : firstService s d obj = some dep) :
    dep.obj = obj ∧ ∃ index < maxServices, s.services d index = .dep dep := by
  obtain ⟨index, hindex, hsome⟩ := List.exists_of_findSome?_eq_some h
  obtain ⟨hdep, hobj⟩ := Option.filter_eq_some_iff.mp hsome
  exact ⟨of_decide_eq_true hobj, index, List.mem_range.mp hindex, service_eq_some.mp hdep⟩

/-- A search in a graph whose services can be found. -/
theorem Served.find (h : Served env src M s) (hM : M v) (hserves : servesAt env s.objs v = true) :
    (∃ dep, findService s src v = some dep ∧ dep.obj = v ∧ dep.proxy ≠ 0 ∧
      ∃ index, s.services src index = .dep dep) ∨
    findService s src v = none ∧ v ∈ unserved env src M s := by
  cases hfirst : firstService s src v with
  | some dep =>
    have hfind : findService s src v = some dep := by
      rw [findService_or, hfirst]
      rfl
    obtain ⟨hobj, index, -, hdep⟩ := firstService_eq_some hfirst
    exact .inl ⟨dep, hfind, hobj, h.proxied v dep hM hserves hfind, index, hdep⟩
  | none =>
    have hmem : v ∈ unserved env src M s := ⟨hM, hserves, firstService_eq_none.mp hfirst⟩
    refine .inr ⟨?_, hmem⟩
    rcases h.enough with hempty | ⟨hlast, -⟩
    · rw [hempty] at hmem
      exact hmem.elim
    · rw [findService_or, hfirst, Option.none_or]
      cases hservice : (s.services src (maxServices - 1)).service with
      | none => rfl
      | some dep => exact absurd (service_eq_some.mp hservice) (hlast dep)

theorem Served.congr (h : Served env src M s) (hservices : t.services src = s.services src)
    (hobjs : ∀ a, M a → t.objs a = s.objs a) : Served env src M t := by
  have hserves : ∀ a, M a → servesAt env t.objs a = servesAt env s.objs a := by
    intro a ha
    unfold servesAt
    rw [hobjs a ha]
  have hunserved : unserved env src M t = unserved env src M s := by
    ext a
    unfold unserved
    rw [Set.mem_ofPred_eq, Set.mem_ofPred_eq, hservices]
    constructor
    · rintro ⟨ha, hs, hrest⟩
      exact ⟨ha, hserves a ha ▸ hs, hrest⟩
    · rintro ⟨ha, hs, hrest⟩
      exact ⟨ha, (hserves a ha).trans hs, hrest⟩
  have hfree : freeEntries t src = freeEntries s src := by
    unfold freeEntries
    rw [hservices]
  have hfind : ∀ a, findService t src a = findService s src a := by
    intro a
    unfold findService
    rw [hservices]
  constructor
  · rw [hunserved, hfree, hservices]
    exact h.enough
  · intro a dep ha hs hdep
    rw [hfind] at hdep
    exact h.proxied a dep ha (hserves a ha ▸ hs) hdep

/-- The free entry that is taken is the first one. -/
theorem findFree_first {d : Nat} (h : findFree s d = some index) :
    index < maxServices ∧ ∀ j < index, s.services d j ≠ .free := by
  unfold findFree at h
  rw [List.find?_range_eq_some] at h
  obtain ⟨-, hmem, hfirst⟩ := h
  refine ⟨List.mem_range.mp hmem, fun j hj hfree => ?_⟩
  have := hfirst j hj
  rw [hfree] at this
  cases this

/-- A promotion takes a free entry and serves an object. -/
theorem Served.promote {proxy : Nat} (h : Served env src M s) (hv : v ∈ unserved env src M s)
    (hfree : findFree s src = some index) (hproxy : proxy ≠ 0)
    (hservices : ∀ i, t.services src i = if i = index then .dep ⟨v, proxy⟩ else s.services src i)
    (hobjs : ∀ a, M a → t.objs a = s.objs a) : Served env src M t := by
  obtain ⟨hlt, hfirst⟩ := findFree_first hfree
  have hindex : s.services src index = .free := findFree_eq hfree
  have hserves : ∀ a, M a → servesAt env t.objs a = servesAt env s.objs a := by
    intro a ha
    unfold servesAt
    rw [hobjs a ha]
  have hunserved : unserved env src M t ⊆ unserved env src M s \ {v} := by
    rintro a ⟨ha, hs, hrest⟩
    refine ⟨⟨ha, hserves a ha ▸ hs, fun i hi dep hdep => hrest i hi dep ?_⟩, ?_⟩
    · rw [hservices, if_neg, hdep]
      rintro rfl
      rw [hindex] at hdep
      cases hdep
    · rintro rfl
      exact hrest index hlt ⟨a, proxy⟩ (by rw [hservices, if_pos rfl]) rfl
  have hentries : freeEntries t src = (freeEntries s src).erase index := by
    ext i
    unfold freeEntries
    rw [Finset.mem_erase, Finset.mem_filter, Finset.mem_filter, hservices]
    by_cases hi : i = index
    · simp [hi]
    · simp [hi]
  have hmem : index ∈ freeEntries s src :=
    Finset.mem_filter.mpr ⟨Finset.mem_range.mpr hlt, hindex⟩
  obtain ⟨hlast, hcard⟩ := h.enough.resolve_left fun hempty => by
    rw [hempty] at hv
    exact hv
  have henough : (unserved env src M t).encard ≤ (freeEntries t src).card := by
    have hone : (unserved env src M s \ {v}).encard + 1 = (unserved env src M s).encard :=
      Set.encard_sdiff_singleton_add_one hv
    have hpos : 0 < (freeEntries s src).card := Finset.card_pos.mpr ⟨index, hmem⟩
    rw [hentries, Finset.card_erase_of_mem hmem]
    refine (Set.encard_le_encard hunserved).trans ?_
    have hle : (unserved env src M s \ {v}).encard + 1 ≤
        (((freeEntries s src).card - 1 : Nat) : ENat) + 1 := by
      rw [hone]
      refine hcard.trans (le_of_eq ?_)
      exact_mod_cast (Nat.sub_add_cancel hpos).symm
    exact (ENat.add_le_add_iff_right (by simp)).mp hle
  have hother : index ≠ maxServices - 1 → ∀ dep, t.services src (maxServices - 1) ≠ .dep dep := by
    intro hne dep
    rw [hservices, if_neg hne.symm]
    exact hlast dep
  have henough' : unserved env src M t = ∅ ∨
      (∀ dep, t.services src (maxServices - 1) ≠ .dep dep) ∧
        (unserved env src M t).encard ≤ (freeEntries t src).card := by
    by_cases hend : index = maxServices - 1
    · -- the last entry is taken last
      have hsub : freeEntries s src ⊆ {index} := by
        intro i hi
        obtain ⟨hrange, hi⟩ := Finset.mem_filter.mp hi
        have hge : ¬ i < index := fun hlt' => hfirst i hlt' hi
        have hlt' := Finset.mem_range.mp hrange
        rw [Finset.mem_singleton]
        omega
      have hnone : (freeEntries t src).card = 0 := by
        rw [hentries, Finset.card_eq_zero, Finset.eq_empty_iff_forall_notMem]
        intro i hi
        obtain ⟨hne, hi⟩ := Finset.mem_erase.mp hi
        exact hne (Finset.mem_singleton.mp (hsub hi))
      rw [hnone, Nat.cast_zero, nonpos_iff_eq_zero, Set.encard_eq_zero] at henough
      exact .inl henough
    · exact .inr ⟨hother hend, henough⟩
  refine ⟨henough', fun a dep ha hs hdep => ?_⟩
  rw [findService_or] at hdep
  by_cases hav : a = v
  · subst hav
    cases hown : firstService t src a with
    | none =>
      have hdep : t.services src index = .dep ⟨a, proxy⟩ := by rw [hservices, if_pos rfl]
      exact absurd rfl (firstService_eq_none.mp hown index hlt ⟨a, proxy⟩ hdep)
    | some dep' =>
      rw [hown, Option.some_or, Option.some.injEq] at hdep
      subst hdep
      obtain ⟨hobj, i, hi, hdep⟩ := firstService_eq_some hown
      rw [hservices] at hdep
      split at hdep
      · cases hdep
        exact hproxy
      · exact absurd hobj (hv.2.2 i hi dep' hdep)
  · have hsame : firstService t src a = firstService s src a := by
      refine congrArg (fun f => (List.range maxServices).findSome? f) (funext fun i => ?_)
      rw [hservices]
      by_cases hi : i = index
      · rw [if_pos hi, hi, hindex]
        simp [Entry.service, Ne.symm hav]
      · rw [if_neg hi]
    cases hown : firstService t src a with
    | some dep' =>
      rw [hown, Option.some_or] at hdep
      refine h.proxied a dep ha (hserves a ha ▸ hs) ?_
      rw [findService_or, ← hsame, hown, Option.some_or, hdep]
    | none =>
      rw [hown, Option.none_or] at hdep
      rcases henough' with hempty | ⟨hlast', -⟩
      · have hmem : a ∈ unserved env src M t := ⟨ha, hs, firstService_eq_none.mp hown⟩
        rw [hempty] at hmem
        exact hmem.elim
      · exact absurd (service_eq_some.mp hdep) (hlast' dep)

end Served

/-! ## Portals to the services -/

/-- `w` is a portal to the service of `v` in the target domain. -/
def OwnPortal (env : Env) (src dst : Nat) (t : Sys) (v w : Nat) : Prop :=
  ∃ vtable index proxy, t.services src index = .dep ⟨v, proxy⟩ ∧
    t.objs w = some (.portal vtable src (env.domainId src) index) ∧ env.heapOf w = some dst

/-- `w` is in the place of a word `v` that has been followed. -/
structure InPlace (env : Env) (src dst : Nat) (M : Nat → Prop) (t : Sys) (v w : Nat) : Prop where
  null : v = 0 → w = 0
  service : M v → servesAt env t.objs v = true → OwnPortal env src dst t v w

/-- The copies in `new` are of objects that are entered, and have portals to the services of those
objects that get one. -/
structure Owns (env : Env) (src dst : Nat) (M : Nat → Prop) (t : Sys) (new : List (Nat × Nat)) :
    Prop where
  served : Served env src M t
  keys : ∀ p ∈ new, ∃ o, t.objs p.1 = some o ∧ o.entered env dst = true
  portals : ∀ p ∈ new, ∀ o o', t.objs p.1 = some o → t.objs p.2 = some o' → ∀ k,
    (mapOf env o)[k]? = some true →
      InPlace env src dst M t (o.words.getD k 0) (o'.words.getD k 0)

/-- The copy that the entry `p` is about has `w` where the original refers to the object of a service. -/
def Replaced (env : Env) (M : Nat → Prop) (t : Sys) (p : Nat × Nat) (k w : Nat) : Prop :=
  ∃ o o', t.objs p.1 = some o ∧ t.objs p.2 = some o' ∧ (mapOf env o)[k]? = some true ∧
    M (o.words.getD k 0) ∧ servesAt env t.objs (o.words.getD k 0) = true ∧ o'.words.getD k 0 = w

/-- No two of the words in `D` have been given the same portal, and all their portals are in `l`. -/
structure Separate (env : Env) (M : Nat → Prop) (t : Sys) (D : Nat × Nat → Nat → Prop)
    (l : List Nat) : Prop where
  listed : ∀ p k w, D p k → Replaced env M t p k w → w ∈ l
  apart : ∀ p k p' k' w, D p k → D p' k' → Replaced env M t p k w → Replaced env M t p' k' w →
    p = p' ∧ k = k'

/-- What is said of a copy besides `Copies`. A portal is not looked for in the table, so each time that
the object of a service is met there is a new one. -/
structure OwnCopy (env : Env) (src dst : Nat) (M : Nat → Prop) (ref r : Nat) (t : Sys)
    (new : List (Nat × Nat)) : Prop where
  owns : Owns env src dst M t new
  own : InPlace env src dst M t ref r
  separate : Separate env M t (fun p _ => p ∈ new) (new.map Prod.snd)
  single : M ref → servesAt env t.objs ref = true → ∃ proxy vtable d id index,
    new = [(proxy, r)] ∧ t.objs proxy = some (.portal vtable d id index)

/-- No object of a service is in the table. -/
def Unlisted (env : Env) (M : Nat → Prop) (s : Sys) : Prop :=
  ∀ v, M v → servesAt env s.objs v = true → s.copied.lookup v = none

section Own

variable {env : Env} {src dst : Nat} {old new : List (Nat × Nat)} {M : Nat → Prop} {s t : Sys}
  {hole : Nat → Prop} {obj r v w : Nat}

theorem OwnPortal.mono (h : OwnPortal env src dst s v w) (hext : Extends env dst hole s t new)
    (hhole : ∀ a, hole a → ∃ o, s.objs a = some o ∧ o.Plain env) : OwnPortal env src dst t v w := by
  obtain ⟨vtable, index, proxy, hdep, hportal, hheap⟩ := h
  refine ⟨vtable, index, proxy, hext.services _ _ _ hdep, ?_, hheap⟩
  rw [hext.objs w _ (by simp [hportal]), hportal]
  intro hin
  obtain ⟨o, ho, hplain⟩ := hhole w hin
  rw [hportal] at ho
  cases ho
  exact hplain

/-- The objects of the graph stay as they are. -/
theorem Ready.objs_eq (h : Ready env src old M s) (hext : Extends env dst hole s t new)
    (hM : ∀ a, M a → ¬ hole a) {a : Nat} (ha : M a) : t.objs a = s.objs a := by
  obtain ⟨o, ho, -⟩ := h.graph.obj a ha
  exact hext.objs a (hM a ha) (by simp [ho])

theorem InPlace.mono (h : InPlace env src dst M s v w) (hready : Ready env src old M s)
    (hext : Extends env dst hole s t new) (hM : ∀ a, M a → ¬ hole a)
    (hhole : ∀ a, hole a → ∃ o, s.objs a = some o ∧ o.Plain env) : InPlace env src dst M t v w := by
  refine ⟨h.null, fun hv hserves => (h.service hv ?_).mono hext hhole⟩
  unfold servesAt at hserves ⊢
  rw [← hready.objs_eq hext hM hv]
  exact hserves

theorem servesAt_eq {o : Obj} (h : s.objs v = some o) : servesAt env s.objs v = true ↔ o.IsService env := by
  unfold servesAt
  rw [h]
  cases o <;> simp [Obj.IsService]

theorem entered_not_service {o : Obj} (h : o.entered env dst = true) : ¬ o.IsService env := by
  intro hservice
  cases o with
  | object cl data =>
    have htrue : (env.classDesc cl).isPortal = true := hservice
    rw [Obj.entered, htrue] at h
    cases h
  | _ => exact hservice

/-- The copies that are added are not those of objects of services. -/
theorem Unlisted.mono (h : Unlisted env M s) (hready : Ready env src old M s)
    (hext : Extends env dst hole s t new) (hM : ∀ a, M a → ¬ hole a)
    (hkeys : ∀ p ∈ new, ∃ o, t.objs p.1 = some o ∧ o.entered env dst = true) : Unlisted env M t := by
  intro v hv hserves
  have hsame := hready.objs_eq hext hM hv
  have hnone : s.copied.lookup v = none := by
    refine h v hv ?_
    unfold servesAt at hserves ⊢
    rw [← hsame]
    exact hserves
  rw [hext.copied, List.lookup_append, hnone, Option.none_or, List.lookup_eq_none_iff]
  intro p hp
  obtain ⟨o, ho, hentered⟩ := hkeys p hp
  have hne : v ≠ p.1 := by
    rintro rfl
    exact entered_not_service hentered ((servesAt_eq ho).mp hserves)
  exact bne_iff_ne.mpr hne

theorem Unlisted.congr (h : Unlisted env M s) (hcopied : t.copied = s.copied)
    (hobjs : ∀ a, M a → t.objs a = s.objs a) : Unlisted env M t := by
  intro v hv hserves
  rw [hcopied]
  refine h v hv ?_
  unfold servesAt at hserves ⊢
  rw [← hobjs v hv]
  exact hserves

section Separate

variable {D D' : Nat × Nat → Nat → Prop} {l l' : List Nat} {p : Nat × Nat}

theorem Separate.mono (h : Separate env M t D l) (hD : ∀ p k, D' p k → D p k)
    (hl : ∀ w ∈ l, w ∈ l') : Separate env M t D' l' where
  listed := fun p k w hp hw => hl w (h.listed p k w (hD p k hp) hw)
  apart := fun p k p' k' w hp hp' => h.apart p k p' k' w (hD p k hp) (hD p' k' hp')

theorem Separate.congr (h : Separate env M s D l)
    (hsame : ∀ p k w, D p k → Replaced env M t p k w → Replaced env M s p k w) :
    Separate env M t D l where
  listed := fun p k w hp hw => h.listed p k w hp (hsame p k w hp hw)
  apart := fun p k p' k' w hp hp' hw hw' =>
    h.apart p k p' k' w hp hp' (hsame p k w hp hw) (hsame p' k' w hp' hw')

/-- Portals from two lists that have nothing in common. -/
theorem Separate.or (h : Separate env M t D l) (h' : Separate env M t D' l') (hl : List.Disjoint l l') :
    Separate env M t (fun p k => D p k ∨ D' p k) (l ++ l') where
  listed := by
    rintro p k w (hp | hp) hw
    · exact List.mem_append_left _ (h.listed p k w hp hw)
    · exact List.mem_append_right _ (h'.listed p k w hp hw)
  apart := by
    rintro p k p' k' w (hp | hp) (hp' | hp') hw hw'
    · exact h.apart p k p' k' w hp hp' hw hw'
    · exact (hl (h.listed p k w hp hw) (h'.listed p' k' w hp' hw')).elim
    · exact (hl (h.listed p' k' w hp' hw') (h'.listed p k w hp hw)).elim
    · exact h'.apart p k p' k' w hp hp' hw hw'

/-- Where nothing refers to a service, nothing has been replaced. -/
theorem separate_of_none (h : ∀ p k w, D p k → ¬ Replaced env M t p k w) : Separate env M t D l where
  listed := fun p k w hp hw => (h p k w hp hw).elim
  apart := fun p k _ _ w hp _ hw => (h p k w hp hw).elim

/-- An object that is copied as a whole refers to nothing. -/
theorem not_replaced_of_leaf {o : Obj} (ho : t.objs p.1 = some o) (hleaf : o.Leaf) (k w : Nat) :
    ¬ Replaced env M t p k w := by
  rintro ⟨o₁, -, ho₁, -, hk, -⟩
  rw [ho] at ho₁
  cases ho₁
  exact hleaf.not_plain (plain_of_mapOf hk)

/-- What has been replaced stays as it is. -/
theorem Replaced.congr {k w : Nat} (h : Replaced env M t p k w) (hkey : t.objs p.1 = s.objs p.1)
    (hcopy : t.objs p.2 = s.objs p.2) (hM : ∀ a, M a → t.objs a = s.objs a) :
    Replaced env M s p k w := by
  obtain ⟨o, o', ho, ho', hk, hmem, hserves, hw⟩ := h
  refine ⟨o, o', hkey ▸ ho, hcopy ▸ ho', hk, hmem, ?_, hw⟩
  unfold servesAt at hserves ⊢
  rw [← hM _ hmem]
  exact hserves

end Separate

/-- The copy of an object that refers to nothing. -/
theorem Added.own {o : Obj} (hadded : Added env dst s obj o r t) (hready : Ready env src old M s)
    (hserved : Served env src M s) (hzero : obj ≠ 0) (ho : s.objs obj = some o)
    (hentered : o.entered env dst = true) (hleaf : o.Leaf) :
    OwnCopy env src dst M obj r t [(obj, r)] := by
  have hext : Extends env dst (fun _ => False) s t [(obj, r)] := hadded.ext
  have ht : t.objs obj = some o := by rw [hext.objs _ id (by simp [ho]), ho]
  have hnot : ¬ o.IsService env := by
    intro hservice
    cases o with
    | object => exact hleaf
    | _ => exact hservice
  have hserves : servesAt env t.objs obj ≠ true := fun hserves => hnot ((servesAt_eq ht).mp hserves)
  refine ⟨⟨?_, ?_, ?_⟩, ⟨fun hnull => absurd hnull hzero, fun _ h => absurd h hserves⟩,
    separate_of_none fun p k w hp => ?_, fun _ h => absurd h hserves⟩
  · exact hserved.congr (by rw [hadded.services]) fun _ ha => hready.objs_eq hext (fun _ _ => id) ha
  · intro p hp
    obtain rfl := List.mem_singleton.mp hp
    exact ⟨o, ht, hentered⟩
  · intro p hp o₁ _ ho₁ _ k hk
    obtain rfl := List.mem_singleton.mp hp
    rw [ht] at ho₁
    cases ho₁
    exact absurd (plain_of_mapOf hk) hleaf.not_plain
  · obtain rfl := List.mem_singleton.mp hp
    exact not_replaced_of_leaf (p := (obj, r)) ht hleaf k w

variable {copy : Nat → Sys → Exec (Nat × Sys)} {target k : Nat} {o : Obj}

/-- The copies of a word keep what they have while the rest of the loop runs. -/
theorem Owns.step {s₁ : Sys} {new₁ : List (Nat × Nat)} (h₁ : Owns env src dst M s₁ new₁)
    (hready₁ : Ready env src old M s₁) (hM : ¬ M target) (hserved : Served env src M t)
    (hext : Extends env dst (· = target) s₁ t new)
    (hhole : ∀ a, a = target → ∃ o, s₁.objs a = some o ∧ o.Plain env)
    (hmade : ∀ p ∈ new₁, s₁.objs p.2 ≠ none) (hapart : ∀ p ∈ new₁, ¬ p.1 = target ∧ ¬ p.2 = target) :
    Owns env src dst M t new₁ := by
  refine ⟨hserved, fun p hp => ?_, fun p hp o o' ho ho' k hk => ?_⟩
  · obtain ⟨o, ho, hentered⟩ := h₁.keys p hp
    exact ⟨o, by rw [hext.objs _ (hapart p hp).1 (by simp [ho]), ho], hentered⟩
  · obtain ⟨o₁, ho₁, -⟩ := h₁.keys p hp
    have hkey : t.objs p.1 = s₁.objs p.1 := hext.objs _ (hapart p hp).1 (by simp [ho₁])
    have hcopy : t.objs p.2 = s₁.objs p.2 := hext.objs _ (hapart p hp).2 (hmade p hp)
    exact (h₁.portals p hp o o' (hkey ▸ ho) (hcopy ▸ ho') k hk).mono hready₁ hext
      (fun x hx heq => hM (heq ▸ hx)) hhole

theorem Owns.append {new' : List (Nat × Nat)} (h : Owns env src dst M t new)
    (h' : Owns env src dst M t new') : Owns env src dst M t (new ++ new') := by
  refine ⟨h.served, fun p hp => ?_, fun p hp => ?_⟩
  · exact (List.mem_append.mp hp).elim (h.keys p) (h'.keys p)
  · exact (List.mem_append.mp hp).elim (h.portals p) (h'.portals p)

end Own

end JxCore.PortalCopy
