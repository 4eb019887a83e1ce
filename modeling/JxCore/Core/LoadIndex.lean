import JxCore.Core.Load

/-!
# The library index of a domain (`core/load.c`)

A domain lists the libraries it has loaded in `libs`, and finds the one that belongs to a shared
library through `ndx_libs`, by the index of the shared library. A needed library is looked up before it
is loaded; the library that `load` is asked for is not, so the domain can come to have it twice.
-/

namespace JxCore.Load

open Exec Relation

/-- `sharedLib2Lib` without `USE_LIB_INDEX`: a search through the list. -/
def searchLibs (dom : DomainDesc) (slib : SLib) : Option LibDesc :=
  dom.libs.find? fun lib => lib.sharedLib = slib

/-- The static fields of a library in a domain. -/
def staticFields (s : State) (d : Nat) (slib : SLib) : Option (Nat → Nat) :=
  ((s.domain d).sfields slib).map s.statics

/-- **The library index is exact.** -/
structure Sound (s : State) : Prop where
  /-- Each shared library occurs at most once in a domain. -/
  once : ∀ d, ((s.domain d).libs.map LibDesc.sharedLib).Nodup
  /-- The index agrees with a search, and does not reach beyond the table. -/
  index : ∀ d, ∀ i ∈ s.sharedLibs,
    Returns (fun _ => sharedLib2Lib (s.domain d) i) (searchLibs (s.domain d) i)

/-- **Loading keeps what is loaded.** -/
structure CallSound (files : CodeFiles) (s : State) (d : Nat) (filename : String) : Prop where
  /-- The index is not used beyond the table on the way. -/
  inside : ¬ Stops (load files s d filename) outside
  /-- A library that the domain has already is returned. -/
  existing : ∀ lib s', Returns (load files s d filename) (lib, s') →
    ∀ old ∈ (s.domain d).libs, (s.slib old.sharedLib).name = filename → lib = old
  /-- The libraries of all domains stay what they are, and so do their static fields. -/
  kept : ∀ lib s', Returns (load files s d filename) (lib, s') →
    ∀ e, ∀ old ∈ (s.domain e).libs, searchLibs (s'.domain e) old.sharedLib = some old ∧
      staticFields s' e old.sharedLib = staticFields s e old.sharedLib

/-- The condition: the domain does not have the library, and with the libraries that are loaded on
the way, the library itself not counted, there are no more than fit into the table. -/
def Fresh (files : CodeFiles) (s : State) : Call → Prop
  | .load d filename => (∀ lib ∈ (s.domain d).libs, (s.slib lib.sharedLib).name ≠ filename) ∧
      ∃ new : List String, s.sharedLibsIndexNumber + new.length ≤ maxNumberOfLibs ∧
        ∀ x, x ≠ filename → ReflTransGen (Needs files (Loaded s)) filename x → x ∈ new
  | .putstatic _ _ _ _ => True

/-! ## One domain -/

section Domain

variable {s s' s'' : State} {d : Nat} {i bound : SLib}

/-- The list and the index of one domain agree. -/
structure Exact (dom : DomainDesc) : Prop where
  nodup : (dom.libs.map LibDesc.sharedLib).Nodup
  index : ∀ i, dom.ndxLibs i = searchLibs dom i

theorem searchLibs_eq_none {dom : DomainDesc} :
    searchLibs dom i = none ↔ ∀ lib ∈ dom.libs, lib.sharedLib ≠ i := by
  unfold searchLibs
  rw [List.find?_eq_none]
  simp

/-- A library that is in the list once is found. -/
theorem Exact.search_of_mem {dom : DomainDesc} (h : Exact dom) {lib : LibDesc}
    (hlib : lib ∈ dom.libs) : searchLibs dom lib.sharedLib = some lib := by
  cases hfind : searchLibs dom lib.sharedLib with
  | none => exact absurd rfl (searchLibs_eq_none.mp hfind lib hlib)
  | some other =>
    have hmem := List.mem_of_find?_eq_some hfind
    have hsame : other.sharedLib = lib.sharedLib := by simpa using List.find?_some hfind
    rw [List.inj_on_of_nodup_map h.nodup hmem hlib hsame]

/-- `s'` comes from `s` by giving domain `d` some libraries with an index below `bound` that it did
not have. -/
structure Adds (d : Nat) (bound : SLib) (s s' : State) : Prop where
  same : SameShared s s'
  others : ∀ e ≠ d, s'.domain e = s.domain e
  allocated : s.allocated ≤ s'.allocated
  libs : ∃ l, (s'.domain d).libs = (s.domain d).libs ++ l ∧ ∀ lib ∈ l, lib.sharedLib < bound
  exact : Exact (s'.domain d)
  /-- The static fields of the libraries that were there stay where they are. -/
  sfields : ∀ lib ∈ (s.domain d).libs,
    (s'.domain d).sfields lib.sharedLib = (s.domain d).sfields lib.sharedLib
  statics : ∀ b < s.allocated, s'.statics b = s.statics b
  blocks : ∀ j b, (s'.domain d).sfields j = some b →
    (s.domain d).sfields j = some b ∨ b < s'.allocated

theorem Adds.refl (h : Exact (s.domain d)) : Adds d bound s s where
  same := SameShared.refl s
  others := fun _ _ => rfl
  allocated := Nat.le_refl _
  libs := ⟨[], by simp, by simp⟩
  exact := h
  sfields := fun _ _ => rfl
  statics := fun _ _ => rfl
  blocks := fun _ _ => Or.inl

theorem Adds.mono {bound' : SLib} (h : Adds d bound s s') (hle : bound ≤ bound') :
    Adds d bound' s s' := by
  obtain ⟨l, hl, hlt⟩ := h.libs
  exact { h with libs := ⟨l, hl, fun lib hlib => Nat.lt_of_lt_of_le (hlt lib hlib) hle⟩ }

theorem Adds.trans (h : Adds d bound s s') (h' : Adds d bound s' s'') : Adds d bound s s'' where
  same := h.same.trans h'.same
  others := fun e he => (h'.others e he).trans (h.others e he)
  allocated := Nat.le_trans h.allocated h'.allocated
  libs := by
    obtain ⟨l, hl, hlt⟩ := h.libs
    obtain ⟨l', hl', hlt'⟩ := h'.libs
    refine ⟨l ++ l', by rw [hl', hl, List.append_assoc], fun lib hlib => ?_⟩
    exact (List.mem_append.mp hlib).elim (hlt lib) (hlt' lib)
  exact := h'.exact
  sfields := by
    intro lib hlib
    obtain ⟨l, hl, -⟩ := h.libs
    have hlib' : lib ∈ (s'.domain d).libs := hl ▸ List.mem_append_left l hlib
    exact (h'.sfields lib hlib').trans (h.sfields lib hlib)
  statics := fun b hb =>
    (h'.statics b (Nat.lt_of_lt_of_le hb h.allocated)).trans (h.statics b hb)
  blocks := by
    intro j b hb
    obtain hb | hb := h'.blocks j b hb
    · exact (h.blocks j b hb).imp_right fun hlt => Nat.lt_of_lt_of_le hlt h'.allocated
    · exact Or.inr hb

/-- `insertLib` adds one library. -/
theorem insertLib_adds {lib : LibDesc} (hexact : Exact (s.domain d))
    (hnew : ∀ lib ∈ (s.domain d).libs, lib.sharedLib ≠ i)
    (h : insertLib s d i = pure (lib, s')) : Adds d (i + 1) s s' := by
  obtain ⟨-, hlib, hsame, halloc, hothers, hlibs, hindex, hstatics⟩ := insertLib_eq_pure h
  have hi : lib.sharedLib = i := by rw [hlib]
  refine
    { same := hsame
      others := hothers
      allocated := by omega
      libs := ⟨[lib], hlibs, by simp [hi]⟩
      exact := ⟨?_, fun j => ?_⟩
      sfields := fun old hold => ?_
      statics := fun b hb => ?_
      blocks := fun j b hb => ?_ }
  · rw [hlibs, List.map_append, List.map_singleton, hi]
    refine List.nodup_append.mpr ⟨hexact.nodup, by simp, fun a ha b hb => ?_⟩
    obtain ⟨old, hold, rfl⟩ := List.mem_map.mp ha
    rw [List.mem_singleton.mp hb]
    exact hnew old hold
  · have hj := hexact.index j
    unfold searchLibs at hj ⊢
    rw [hindex, hlibs, List.find?_append, ← hj]
    by_cases hji : j = i
    · subst hji
      have hnone : (s.domain d).ndxLibs j = none := by
        rw [hexact.index]
        exact searchLibs_eq_none.mpr hnew
      simp [hnone, hi]
    · have hne : i ≠ j := Ne.symm hji
      rw [Function.update_of_ne hji]
      simp [hi, hne]
  · obtain ⟨hs, -⟩ | ⟨hs, -⟩ := hstatics
    · rw [hs]
    · rw [hs, Function.update_of_ne (hnew old hold)]
  · obtain ⟨-, hs⟩ | ⟨-, hs⟩ := hstatics
    · rw [hs]
    · rw [hs, Function.update_of_ne (by omega)]
  · obtain ⟨hs, -⟩ | ⟨hs, -⟩ := hstatics
    · exact Or.inl (hs ▸ hb)
    · rw [hs, Function.update_apply] at hb
      split at hb
      · right
        have hblock := Option.some.inj hb
        omega
      · exact Or.inl hb

/-- The loop over the needed libraries adds those that are missing. -/
theorem loadMissing_adds {loadOne : State → SLib → Exec (LibDesc × State)} {l : List SLib}
    (hone : ∀ j ∈ l, ∀ (s s' : State) lib, Exact (s.domain d) →
      (∀ lib ∈ (s.domain d).libs, lib.sharedLib ≠ j) → SameShared s'' s →
      loadOne s j = pure (lib, s') → Adds d bound s s') :
    ∀ {s s' : State}, Exact (s.domain d) → SameShared s'' s →
      loadMissing loadOne d s l = pure s' → Adds d bound s s' := by
  induction l with
  | nil =>
    intro s s' hexact _ h
    cases h
    exact Adds.refl hexact
  | cons j rest ih =>
    intro s s' hexact hsame h
    have hrest : ∀ {s s' : State}, Exact (s.domain d) → SameShared s'' s →
        loadMissing loadOne d s rest = pure s' → Adds d bound s s' :=
      ih fun x hx => hone x (List.mem_cons_of_mem j hx)
    obtain ⟨found, hfound, h⟩ := bind_eq_pure h
    cases found with
    | some _ => exact hrest hexact hsame h
    | none =>
      have hnone : (s.domain d).ndxLibs j = none := by
        unfold sharedLib2Lib at hfound
        split at hfound
        · exact eq_of_pure_eq hfound
        · cases hfound
      obtain ⟨⟨lib, s₁⟩, hcall, h⟩ := bind_eq_pure h
      rw [hexact.index] at hnone
      have hadds := hone j List.mem_cons_self s s₁ lib hexact (searchLibs_eq_none.mp hnone) hsame
        hcall
      exact hadds.trans (hrest hadds.exact (hsame.trans hadds.same) h)

/-- `loadLib` adds the library and those it needs. -/
theorem loadLib_adds {fuel : Nat} (hs : Table s) :
    ∀ i < s.sharedLibsIndexNumber, ∀ (s₁ s₂ : State) lib, Exact (s₁.domain d) →
      (∀ lib ∈ (s₁.domain d).libs, lib.sharedLib ≠ i) → SameShared s s₁ →
      loadLib d fuel s₁ i = pure (lib, s₂) → Adds d (i + 1) s₁ s₂ := by
  induction fuel with
  | zero =>
    intro i _ s₁ s₂ lib _ _ _ h
    cases h
  | succ fuel ih =>
    intro i hi s₁ s₂ lib hexact hnew hsame h
    obtain ⟨s₃, hmissing, hinsert⟩ := bind_eq_pure h
    have hadds : Adds d i s₁ s₃ := by
      refine loadMissing_adds (fun j hj s₁' s₂' lib' hexact' hnew' hsame' hcall => ?_) hexact
        (SameShared.refl s₁) hmissing
      have hji := hs.needed i hi j (hsame.slib ▸ hj)
      exact (ih j (Nat.lt_trans hji hi) s₁' s₂' lib' hexact' hnew' (hsame.trans hsame') hcall).mono
        hji
    -- none of the libraries that were added is the one that is to come
    have hnew' : ∀ lib ∈ (s₃.domain d).libs, lib.sharedLib ≠ i := by
      obtain ⟨l, hl, hlt⟩ := hadds.libs
      intro lib hlib
      rw [hl] at hlib
      exact (List.mem_append.mp hlib).elim (hnew lib) fun h => Nat.ne_of_lt (hlt lib h)
    exact (hadds.mono (Nat.le_succ i)).trans (insertLib_adds hadds.exact hnew' hinsert)

end Domain

/-! ## The index is used inside the table -/

section Inside

variable {s : State} {d : Nat}

theorem insertLib_ne_outside {i : SLib} : insertLib s d i ≠ throw outside := by
  unfold insertLib
  simp only
  split
  · intro h
    cases h
  · split
    · intro h
      cases h
    · intro h
      cases h

/-- A library needs only libraries with smaller indices. -/
theorem loadLib_ne_outside {fuel : Nat} (hs : Table s) :
    ∀ i < s.sharedLibsIndexNumber, i ≤ maxNumberOfLibs → ∀ s', SameShared s s' →
      loadLib d fuel s' i ≠ throw outside := by
  induction fuel with
  | zero =>
    intro i _ _ s' _ h
    cases h
  | succ fuel ih =>
    intro i hi hmax s' hsame
    have hloop : ∀ l : List SLib, (∀ j ∈ l, j < i) → ∀ s', SameShared s s' →
        loadMissing (loadLib d fuel) d s' l ≠ throw outside := by
      intro l
      induction l with
      | nil =>
        intro _ s' _ h
        cases h
      | cons j rest ihl =>
        intro hl s' hsame h
        have hji := hl j List.mem_cons_self
        have hrest := ihl fun x hx => hl x (List.mem_cons_of_mem j hx)
        have hread : sharedLib2Lib (s'.domain d) j = pure ((s'.domain d).ndxLibs j) :=
          if_pos (Nat.lt_of_lt_of_le hji hmax)
        rw [loadMissing, hread, pure_bind] at h
        cases hfound : (s'.domain d).ndxLibs j with
        | some _ =>
          rw [hfound] at h
          exact hrest s' hsame h
        | none =>
          rw [hfound] at h
          have hone := ih j (Nat.lt_trans hji hi) (Nat.le_of_lt (Nat.lt_of_lt_of_le hji hmax)) s' hsame
          obtain ⟨e, hcall, he⟩ | ⟨⟨lib, s₁⟩, hcall, h⟩ := bind_eq_some h
          · cases he
            exact hone hcall
          · exact hrest s₁ (hsame.trans (loadLib_shared hcall)) h
    have hneeded : ∀ j ∈ (s'.slib i).neededLibs, j < i := by
      rw [hsame.slib]
      exact hs.needed i hi
    intro h
    obtain ⟨e, hcall, he⟩ | ⟨s₁, -, h⟩ := bind_eq_some h
    · cases he
      exact hloop _ hneeded s' hsame hcall
    · exact insertLib_ne_outside h

end Inside

/-! ## Every call of every run -/

section Runs

variable {files : CodeFiles} {s s' : State} {d : Nat} {name : String}

/-- What holds between two calls. -/
structure Indexed (s : State) : Prop extends Recorded s where
  small : s.sharedLibsIndexNumber ≤ maxNumberOfLibs
  exact : ∀ d, Exact (s.domain d)
  shared : ∀ d, ∀ lib ∈ (s.domain d).libs, lib.sharedLib < s.sharedLibsIndexNumber
  blocks : ∀ d j b, (s.domain d).sfields j = some b → b < s.allocated

theorem Indexed.empty : Indexed State.empty where
  toRecorded := Recorded.empty
  small := Nat.zero_le _
  exact := fun _ => ⟨List.nodup_nil, fun _ => rfl⟩
  shared := nofun
  blocks := nofun

theorem Indexed.sound (h : Indexed s) : Sound s where
  once := fun d => (h.exact d).nodup
  index := by
    intro d i hi
    have hlt := Nat.lt_of_lt_of_le (h.table.listed.mem.mp hi) h.small
    refine ⟨0, fun _ _ => ?_⟩
    show sharedLib2Lib (s.domain d) i = _
    rw [sharedLib2Lib, if_pos hlt, (h.exact d).index]

/-- The domain does not have the library under its name. -/
def Missing (s : State) (d : Nat) (name : String) : Prop :=
  ∀ lib ∈ (s.domain d).libs, (s.slib lib.sharedLib).name ≠ name

/-- Nor under its index. -/
theorem Missing.notMem (hs : Indexed s) (hmissing : Missing s d name) {s₁ : State} {i : SLib}
    (hext : Extends s s₁) (hname : (s₁.slib i).name = name) :
    ∀ lib ∈ (s₁.domain d).libs, lib.sharedLib ≠ i := by
  intro lib hlib heq
  rw [hext.domain] at hlib
  refine hmissing lib hlib ?_
  rw [← hext.slib _ (hs.shared d lib hlib), heq, hname]

/-- The two halves of a call for a library that the domain does not have. -/
theorem load_calls (hclosed : Closed files) (hs : Indexed s) (hmissing : Missing s d name)
    {lib : LibDesc} (hret : Returns (load files s d name) (lib, s')) :
    ∃ i s₁ n, Grown files (Loaded s) [name] s s₁ ∧ i < s₁.sharedLibsIndexNumber ∧
      (s₁ = s ∨ i + 1 = s₁.sharedLibsIndexNumber) ∧ Exact (s₁.domain d) ∧
      (∀ lib ∈ (s₁.domain d).libs, lib.sharedLib ≠ i) ∧ loadLib d n s₁ i = pure (lib, s') := by
  obtain ⟨i, s₁, -, hgrown, hi, hname, hlast, n, hn⟩ := load_parts hclosed hs.table hret
  have hexact : Exact (s₁.domain d) := by
    rw [hgrown.domain]
    exact hs.exact d
  exact ⟨i, s₁, n, hgrown, hi, hlast, hexact, hmissing.notMem hs hgrown.toExtends hname,
    hn n (Nat.le_refl n)⟩

/-- The effect of such a call. -/
theorem load_adds (hclosed : Closed files) (hs : Indexed s) (hmissing : Missing s d name)
    {lib : LibDesc} (hret : Returns (load files s d name) (lib, s')) :
    ∃ i s₁, Grown files (Loaded s) [name] s s₁ ∧ i < maxNumberOfLibs ∧
      i < s₁.sharedLibsIndexNumber ∧ (s₁ = s ∨ i + 1 = s₁.sharedLibsIndexNumber) ∧
      Adds d (i + 1) s₁ s' := by
  obtain ⟨i, s₁, n, hgrown, hi, hlast, hexact, hnew, hcall⟩ := load_calls hclosed hs hmissing hret
  have hadds := loadLib_adds hgrown.table i hi s₁ s' lib hexact hnew (SameShared.refl s₁) hcall
  refine ⟨i, s₁, hgrown, ?_, hi, hlast, hadds⟩
  cases n with
  | zero => cases hcall
  | succ n =>
    obtain ⟨_, -, hinsert⟩ := bind_eq_pure hcall
    exact (insertLib_eq_pure hinsert).1

theorem Indexed.load (hclosed : Closed files) (hs : Indexed s) (hmissing : Missing s d name)
    {lib : LibDesc} (hret : Returns (load files s d name) (lib, s')) : Indexed s' := by
  obtain ⟨i, s₁, hgrown, himax, hi, hlast, hadds⟩ := load_adds hclosed hs hmissing hret
  have hle := hgrown.le
  have halloc := hadds.allocated
  rw [hgrown.allocated] at halloc
  refine
    { toRecorded := (hs.toRecorded.grown hgrown).sameShared hadds.same
      small := ?_
      exact := fun e => ?_
      shared := fun e lib' hlib' => ?_
      blocks := fun e j b hb => ?_ }
  · rw [hadds.same.sharedLibsIndexNumber]
    obtain rfl | hlast := hlast
    · exact hs.small
    · omega
  · by_cases he : e = d
    · exact he ▸ hadds.exact
    · rw [hadds.others e he, hgrown.domain]
      exact hs.exact e
  · rw [hadds.same.sharedLibsIndexNumber]
    by_cases he : e = d
    · subst he
      obtain ⟨l, hl, hlt⟩ := hadds.libs
      rw [hl, hgrown.domain] at hlib'
      rcases List.mem_append.mp hlib' with h | h
      · exact Nat.lt_of_lt_of_le (hs.shared e lib' h) hle
      · exact Nat.lt_of_lt_of_le (hlt lib' h) hi
    · rw [hadds.others e he, hgrown.domain] at hlib'
      exact Nat.lt_of_lt_of_le (hs.shared e lib' hlib') hle
  · by_cases he : e = d
    · subst he
      obtain h | h := hadds.blocks j b hb
      · rw [hgrown.domain] at h
        exact Nat.lt_of_lt_of_le (hs.blocks e j b h) halloc
      · exact h
    · rw [hadds.others e he, hgrown.domain] at hb
      exact Nat.lt_of_lt_of_le (hs.blocks e j b hb) halloc

theorem Indexed.putstatic (hs : Indexed s) (d : Nat) (slib : SLib) (offset value : Nat) :
    Indexed (putstatic s d slib offset value) := by
  unfold Load.putstatic
  split
  · exact hs
  · exact
      { toRecorded := hs.toRecorded.sameShared ⟨rfl, rfl, rfl, rfl, rfl⟩
        small := hs.small
        exact := hs.exact
        shared := hs.shared
        blocks := hs.blocks }

theorem Indexed.step (hclosed : Closed files) (hs : Indexed s)
    (hstep : Step files (Fresh files) s s') : Indexed s' := by
  cases hstep with
  | load hfresh hret => exact hs.load hclosed hfresh.1 hret
  | putstatic d slib offset value => exact hs.putstatic d slib offset value

/-- There is room in the table for all libraries that are loaded on the way. -/
theorem Fresh.room (hfresh : Fresh files s (.load d name)) {s₁ : State} {i : SLib}
    (hgrown : Grown files (Loaded s) [name] s s₁) (hi : i < s₁.sharedLibsIndexNumber) :
    i ≤ maxNumberOfLibs := by
  obtain ⟨-, new, hroom, hnew⟩ := hfresh
  have hlen : (newNames s s₁).length = s₁.sharedLibsIndexNumber - s.sharedLibsIndexNumber := by
    simp [newNames]
  have hnodup : (newNames s s₁).Nodup := by
    have hall := hgrown.table.nodup_allNames
    rw [allNames_extends hgrown.toExtends] at hall
    exact (List.nodup_append.mp hall).2.1
  have hsub : (newNames s s₁).erase name ⊆ new := by
    intro x hx
    obtain ⟨hne, hx⟩ := (hnodup.mem_erase_iff).mp hx
    obtain ⟨y, hy, -, hreach⟩ := hgrown.reach x hx
    obtain rfl := List.mem_singleton.mp hy
    exact hnew x hne hreach
  have hle := (List.subperm_of_subset (hnodup.erase name) hsub).length_le
  have hgrow := hgrown.le
  suffices h : s₁.sharedLibsIndexNumber ≤ maxNumberOfLibs + 1 from
    Nat.le_of_lt_succ (Nat.lt_of_lt_of_le hi h)
  rw [List.length_erase] at hle
  split at hle
  · omega
  · omega

theorem Indexed.callSound (hclosed : Closed files) (hs : Indexed s)
    (hfresh : Fresh files s (.load d name)) : CallSound files s d name where
  inside := by
    rintro ⟨n, hn⟩
    have hacc := acc_of_load hclosed hs.table (hn n (Nat.le_refl n))
    by_cases hfile : Loaded s name ∨ (readCodefile files name).isSome = true
    · obtain ⟨i, s₁, ⟨m, hm⟩, hgrown, hi, -⟩ := loadShared_of_acc hclosed hs.table hfile hacc
      have hcall := hn (max n m) (Nat.le_max_left n m)
      unfold Load.load at hcall
      rw [hm (max n m) (Nat.le_max_right n m), pure_bind] at hcall
      exact loadLib_ne_outside hgrown.table i hi (hfresh.room hgrown hi) s₁
        (SameShared.refl s₁) hcall
    · obtain ⟨hnot, hnone⟩ := not_or.mp hfile
      have hread : readCodefile files name = none := by simpa using hnone
      have hcall := hn (n + 1) (Nat.le_succ n)
      unfold Load.load at hcall
      rw [loadShared_missing hnot hread (n + 1) (Nat.succ_pos n)] at hcall
      cases hcall
  existing := fun _ _ _ old hold hname => absurd hname (hfresh.1 old hold)
  kept := by
    intro lib s' hret e old hold
    have hs' := hs.load hclosed hfresh.1 hret
    obtain ⟨i, s₁, hgrown, -, -, -, hadds⟩ := load_adds hclosed hs hfresh.1 hret
    have hsame : old ∈ (s'.domain e).libs ∧
        (s'.domain e).sfields old.sharedLib = (s.domain e).sfields old.sharedLib := by
      by_cases he : e = d
      · subst he
        obtain ⟨l, hl, -⟩ := hadds.libs
        rw [hgrown.domain] at hl
        refine ⟨hl ▸ List.mem_append_left l hold, ?_⟩
        rw [hadds.sfields old (hgrown.domain ▸ hold), hgrown.domain]
      · rw [hadds.others e he, hgrown.domain]
        exact ⟨hold, rfl⟩
    refine ⟨(hs'.exact e).search_of_mem hsame.1, ?_⟩
    unfold staticFields
    rw [hsame.2]
    cases hb : (s.domain e).sfields old.sharedLib with
    | none => rfl
    | some b =>
      have hlt : b < s₁.allocated := by
        rw [hgrown.allocated]
        exact hs.blocks e _ b hb
      rw [Option.map_some, Option.map_some, hadds.statics b hlt, hgrown.statics]

/-- **In every run in which no domain is given a library twice, the library index is exact and
loading keeps what is loaded.** -/
theorem sound_of_fresh (hclosed : Closed files)
    (hrun : ReflTransGen (Step files (Fresh files)) State.empty s) :
    Sound s ∧ ∀ d name, Fresh files s (.load d name) → CallSound files s d name := by
  have hs : Indexed s :=
    invariant_of_run (I := Indexed) (fun _ _ hs hstep => hs.step hclosed hstep) hrun Indexed.empty
  exact ⟨hs.sound, fun d name hfresh => hs.callSound hclosed hfresh⟩

/-- Domain 0 loads `jdk0.jll` and with it `zero.jll`; then domain 1 may load `zero.jll`. -/
theorem sound_exampleFiles : ∃ s, ReflTransGen (Step exampleFiles (Fresh exampleFiles)) State.empty s ∧
    ((s.domain 0).libs.map fun lib => (s.slib lib.sharedLib).name) = ["zero.jll", "jdk0.jll"] ∧
    Sound s ∧ CallSound exampleFiles s 1 "zero.jll" := by
  have h₀ : Fresh exampleFiles State.empty (.load 0 "jdk0.jll") := by
    refine ⟨nofun, ["zero.jll"], by decide, fun x hx hreach => ?_⟩
    rcases hreach.cases_tail with h | ⟨y, -, hyx⟩
    · exact absurd h hx
    · rw [(exampleFiles_needs hyx).2]
      exact List.mem_singleton_self _
  have hrun := ReflTransGen.single (Step.load h₀
    (show Returns (load exampleFiles State.empty 0 "jdk0.jll") _ from ⟨4, fun fuel hfuel => by
      obtain ⟨k, rfl⟩ := Nat.exists_eq_add_of_le' hfuel
      rfl⟩))
  obtain ⟨hsound, hcall⟩ := sound_of_fresh exampleFiles_closed hrun
  refine ⟨_, hrun, rfl, hsound, hcall 1 "zero.jll" ⟨nofun, [], by decide, fun x hx hreach => ?_⟩⟩
  rcases hreach.cases_head with h | ⟨y, hy, -⟩
  · exact absurd h.symm hx
  · exact absurd rfl (exampleFiles_needs hy).1

/-- A domain that loads a library a second time has it twice. -/
theorem not_sound_twice : (∀ name, ¬ Cyclic exampleFiles (fun _ => False) name) ∧
    ∃ s, Reach exampleFiles s ∧ ¬ Sound s := by
  have h₁ : Reach exampleFiles _ := ReflTransGen.single (Step.load trivial
    (show Returns (load exampleFiles State.empty 0 "zero.jll") _ from ⟨4, fun fuel hfuel => by
      obtain ⟨k, rfl⟩ := Nat.exists_eq_add_of_le' hfuel
      rfl⟩))
  have h₂ : Reach exampleFiles _ := h₁.tail (Step.load trivial
    (show Returns (load exampleFiles _ 0 "zero.jll") _ from ⟨4, fun fuel hfuel => by
      obtain ⟨k, rfl⟩ := Nat.exists_eq_add_of_le' hfuel
      rfl⟩))
  refine ⟨?_, _, h₂, fun h => absurd (h.once 0) (by decide)⟩
  rintro name ⟨x, -, hcycle⟩
  obtain ⟨b, hxb, -⟩ := TransGen.head'_iff.mp hcycle
  obtain ⟨c, -, hcx⟩ := TransGen.tail'_iff.mp hcycle
  exact (exampleFiles_needs hxb).1 (exampleFiles_needs hcx).2

end Runs

end JxCore.Load
