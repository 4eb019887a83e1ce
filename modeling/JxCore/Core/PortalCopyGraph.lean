import JxCore.Core.PortalCopy

/-!
# What a copy is

`CopyOf` relates an object to its copy, word by word, where a word that the copy routine follows has
been replaced by an `Image` of it, and every other word is the same. `Extends` is what a copy does to
the rest: nothing that was there before is touched.

`copyReference_spec` says that this is what a copy leaves if it comes back and nothing has been
collected meanwhile. It holds for every graph, also for those for which an image is not what one
would like it to be.
-/

namespace JxCore.PortalCopy

open Exec

/-! ## Graphs -/

/-- Which words of an object the copy routine follows; none of a service's object. -/
def mapOf (env : Env) : Obj → List Bool
  | .object cl _ => if (env.classDesc cl).isPortal then [] else objectMap env cl
  | .array arrayClass data => arrayMap env arrayClass data.length
  | _ => []

/-- The words of an object. -/
def Obj.words : Obj → List Nat
  | .object _ data | .array _ data => data
  | _ => []

/-- An object without what its words are. -/
def Obj.shape : Obj → Obj
  | .object cl data => .object cl (List.replicate data.length 0)
  | .array arrayClass data => .array arrayClass (List.replicate data.length 0)
  | o => o

/-- The objects whose words are copied one by one. -/
def Obj.Plain (env : Env) : Obj → Prop
  | .object cl _ => (env.classDesc cl).isPortal = false
  | .array _ _ => True
  | _ => False

/-- The object is one that gets a service. -/
def Obj.IsService (env : Env) : Obj → Prop
  | .object cl _ => (env.classDesc cl).isPortal = true
  | _ => False

/-- Its words are not copied one by one. -/
theorem Obj.IsService.not_plain {env : Env} {o : Obj} (h : o.IsService env) : ¬ o.Plain env := by
  intro hplain
  cases o with
  | object cl data =>
    have htrue : (env.classDesc cl).isPortal = true := h
    rw [show (env.classDesc cl).isPortal = false from hplain] at htrue
    cases htrue
  | _ => exact h

theorem plain_shape {env : Env} {o : Obj} : o.shape.Plain env ↔ o.Plain env := by
  cases o <;> rfl

/-- A portal to one of the services of `dst`. -/
def Obj.ComesHome (env : Env) (dst : Nat) : Obj → Option Nat
  | .portal _ targetDomain targetDomainID index =>
    if targetDomainID = env.domainId dst ∧
        ¬ (targetDomainID = 0 ∧ targetDomain = 0 ∧ index = 0) then some index else none
  | _ => none

/-- `w` may be in a copy where there is `v` in the original; `old` is the table as the copy finds it. -/
inductive Image (env : Env) (src dst : Nat) (old : List (Nat × Nat)) (s : Sys) : Nat → Nat → Prop
  | null : Image env src dst old s 0 0
  | external {v : Nat} (h : s.objs v = some .external) (hold : old.lookup v = none) :
      Image env src dst old s v v
  | copied {v w : Nat} (h : s.copied.lookup v = some w) (hzero : v ≠ 0) : Image env src dst old s v w
  /-- A portal to a service of the target domain becomes the object of the service. -/
  | home {v index : Nat} {o : Obj} {d : Dep} (h : s.objs v = some o) (hold : old.lookup v = none)
      (hhome : o.ComesHome env dst = some index) (hd : s.services dst index = .dep d) :
      Image env src dst old s v d.obj
  /-- The object of a service becomes a portal to a service of the source domain: to its own one,
  unless the search for it has ended with another. -/
  | service {v w u proxy index vtable : Nat} {o : Obj} (h : s.objs v = some o)
      (hold : old.lookup v = none) (hservice : o.IsService env)
      (hd : s.services src index = .dep ⟨u, proxy⟩)
      (hproxy : s.objs proxy = some (.portal vtable src (env.domainId src) index))
      (hw : (proxy, w) ∈ s.copied) (hheap : env.heapOf w = some dst) : Image env src dst old s v w
  /-- The other one may be a service without a portal. -/
  | unproxied {v : Nat} {o : Obj} (h : s.objs v = some o) (hold : old.lookup v = none)
      (hservice : o.IsService env) : Image env src dst old s v 0

/-- The objects that are copied as a whole. -/
def Obj.Leaf : Obj → Prop
  | .portal _ _ _ _ | .memory _ _ | .domain _ _ _ => True
  | _ => False

/-- `o'` is a copy of `o`: the words that the copy routine follows have been replaced by images, and
the others are the same. -/
inductive CopyOf (env : Env) (image : Nat → Nat → Prop) : Obj → Obj → Prop
  | words {o o' : Obj} (hplain : o.Plain env) (hshape : o'.shape = o.shape)
      (hfollowed : ∀ k : Nat, (mapOf env o)[k]? = some true →
        image (o.words.getD k 0) (o'.words.getD k 0))
      (hother : ∀ k : Nat, (mapOf env o)[k]? = some false → o'.words.getD k 0 = o.words.getD k 0) :
      CopyOf env image o o'
  | leaf {o : Obj} (hleaf : o.Leaf) : CopyOf env image o o

/-- What was there is still there, except for the contents of the objects in `hole`, and `new` has
been added to the table. -/
structure Extends (env : Env) (dst : Nat) (hole : Nat → Prop) (s t : Sys) (new : List (Nat × Nat)) :
    Prop where
  copied : t.copied = s.copied ++ new
  shape : ∀ a o, s.objs a = some o → ∃ o', t.objs a = some o' ∧ o'.shape = o.shape
  objs : ∀ a, ¬ hole a → s.objs a ≠ none → t.objs a = s.objs a
  /-- The copies are new. -/
  fresh : ∀ p ∈ new, s.objs p.2 = none ∧ p.2 ≠ 0 ∧ p.2 ≠ restartMark ∧ env.heapOf p.2 = some dst
  made : ∀ p ∈ new, t.objs p.2 ≠ none
  nodup : (new.map Prod.snd).Nodup
  /-- There is nothing else that is new in the target domain. -/
  only : ∀ a, env.heapOf a = some dst → s.objs a = none → t.objs a ≠ none → ∃ p ∈ new, p.2 = a
  services : ∀ d index dep, s.services d index = .dep dep → t.services d index = .dep dep
  home : t.services dst = s.services dst
  allocs : s.allocs ≤ t.allocs

/-- The copies in `new` are copies. -/
def Filled (env : Env) (src dst : Nat) (old : List (Nat × Nat)) (t : Sys) (new : List (Nat × Nat)) : Prop :=
  ∀ p ∈ new, ∃ o o', t.objs p.1 = some o ∧ t.objs p.2 = some o' ∧
    CopyOf env (Image env src dst old t) o o'

/-! ## Extensions -/

namespace Extends

variable {env : Env} {dst : Nat} {hole : Nat → Prop} {s t u : Sys} {new new' : List (Nat × Nat)}

theorem kept (h : Extends env dst hole s t new) {a : Nat} (ha : s.objs a ≠ none) :
    t.objs a ≠ none := by
  obtain ⟨o, ho⟩ := Option.ne_none_iff_exists'.mp ha
  obtain ⟨o', ho', -⟩ := h.shape a o ho
  rw [ho']
  exact Option.some_ne_none o'

theorem refl (env : Env) (dst : Nat) (hole : Nat → Prop) (s : Sys) : Extends env dst hole s s [] where
  copied := (List.append_nil _).symm
  shape := fun _ o h => ⟨o, h, rfl⟩
  objs := fun _ _ _ => rfl
  fresh := by simp
  made := by simp
  nodup := List.nodup_nil
  only := fun _ _ hnone hsome => absurd hnone hsome
  services := fun _ _ _ h => h
  home := rfl
  allocs := Nat.le_refl _

theorem trans (h : Extends env dst hole s t new) (h' : Extends env dst hole t u new') :
    Extends env dst hole s u (new ++ new') where
  copied := by rw [h'.copied, h.copied, List.append_assoc]
  shape := by
    intro a o ho
    obtain ⟨o₁, ho₁, hshape₁⟩ := h.shape a o ho
    obtain ⟨o₂, ho₂, hshape₂⟩ := h'.shape a o₁ ho₁
    exact ⟨o₂, ho₂, hshape₂.trans hshape₁⟩
  objs := fun a hhole ha => by rw [h'.objs a hhole (h.kept ha), h.objs a hhole ha]
  fresh := by
    intro p hp
    rcases List.mem_append.mp hp with hp | hp
    · exact h.fresh p hp
    · obtain ⟨hnone, hrest⟩ := h'.fresh p hp
      refine ⟨?_, hrest⟩
      by_contra hsome
      exact h.kept hsome hnone
  made := by
    intro p hp
    rcases List.mem_append.mp hp with hp | hp
    · exact h'.kept (h.made p hp)
    · exact h'.made p hp
  nodup := by
    rw [List.map_append]
    refine List.nodup_append.mpr ⟨h.nodup, h'.nodup, ?_⟩
    intro a ha b hb heq
    obtain ⟨p, hp, rfl⟩ := List.mem_map.mp ha
    obtain ⟨q, hq, rfl⟩ := List.mem_map.mp hb
    have hmade := h.made p hp
    rw [heq] at hmade
    exact hmade (h'.fresh q hq).1
  only := by
    intro a hheap hnone hsome
    by_cases hmid : t.objs a = none
    · obtain ⟨p, hp, hpa⟩ := h'.only a hheap hmid hsome
      exact ⟨p, List.mem_append_right _ hp, hpa⟩
    · obtain ⟨p, hp, hpa⟩ := h.only a hheap hnone hmid
      exact ⟨p, List.mem_append_left _ hp, hpa⟩
  services := fun d index dep hdep => h'.services d index dep (h.services d index dep hdep)
  home := h'.home.trans h.home
  allocs := h.allocs.trans h'.allocs

theorem mono {hole' : Nat → Prop} (h : Extends env dst hole s t new)
    (hsub : ∀ a, hole a → hole' a) : Extends env dst hole' s t new :=
  { h with objs := fun a ha => h.objs a fun hin => ha (hsub a hin) }

end Extends

section Images

variable {env : Env} {src dst : Nat} {old new : List (Nat × Nat)} {hole : Nat → Prop} {s t : Sys}

/-- An image stays one: the objects in a hole are copies that are not finished, and they are looked up
by no image. -/
theorem Image.mono {v w : Nat} (h : Image env src dst old s v w) (hext : Extends env dst hole s t new)
    (hhole : ∀ a, hole a → ∃ o, s.objs a = some o ∧ o.Plain env) : Image env src dst old t v w := by
  have hsame : ∀ {a o}, s.objs a = some o → ¬ o.Plain env → t.objs a = some o := by
    intro a o ho hplain
    have hnot : ¬ hole a := by
      intro hin
      obtain ⟨o', ho', hplain'⟩ := hhole a hin
      rw [ho] at ho'
      cases ho'
      exact hplain hplain'
    rw [hext.objs a hnot (by simp [ho]), ho]
  cases h with
  | null => exact .null
  | external h hold => exact .external (hsame h id) hold
  | copied h hzero =>
    refine .copied ?_ hzero
    rw [hext.copied]
    exact (List.prefix_append _ _).lookup_eq_some h
  | @home _ _ o _ h hold hhome hd =>
    have hplain : ¬ o.Plain env := by
      intro hplain
      cases o with
      | object => cases hhome
      | array => cases hhome
      | _ => exact hplain
    exact .home (hsame h hplain) hold hhome (hext.services _ _ _ hd)
  | service h hold hservice hd hproxy hw hheap =>
    refine .service (hsame h hservice.not_plain) hold hservice (hext.services _ _ _ hd)
      (hsame hproxy id) ?_ hheap
    rw [hext.copied]
    exact List.mem_append_left _ hw
  | unproxied h hold hservice => exact .unproxied (hsame h hservice.not_plain) hold hservice

theorem CopyOf.mono {image image' : Nat → Nat → Prop} {o o' : Obj} (h : CopyOf env image o o')
    (hsub : ∀ v w, image v w → image' v w) : CopyOf env image' o o' := by
  cases h with
  | words hplain hshape hfollowed hother =>
    exact .words hplain hshape (fun k hk => hsub _ _ (hfollowed k hk)) hother
  | leaf hleaf => exact .leaf hleaf

/-- Copies that are finished stay what they are. -/
theorem Filled.mono (h : Filled env src dst old s new) {new' : List (Nat × Nat)}
    (hext : Extends env dst hole s t new')
    (hhole : ∀ a, hole a → ∃ o, s.objs a = some o ∧ o.Plain env)
    (hapart : ∀ p ∈ new, ¬ hole p.1 ∧ ¬ hole p.2) : Filled env src dst old t new := by
  intro p hp
  obtain ⟨o, o', ho, ho', hcopy⟩ := h p hp
  refine ⟨o, o', ?_, ?_, hcopy.mono fun v w hvw => hvw.mono hext hhole⟩
  · rw [hext.objs _ (hapart p hp).1 (by simp [ho]), ho]
  · rw [hext.objs _ (hapart p hp).2 (by simp [ho']), ho']

end Images

/-! ## The source -/

/-- The kinds that are copied; threads are not among them. -/
def Obj.Copyable (env : Env) : Obj → Prop
  | .object cl data => data.length = (env.classDesc cl).instanceSize
  | .array _ _ | .portal _ _ _ _ | .memory _ _ | .domain _ _ _ | .external => True
  | _ => False

/-- The set `M` of objects has what its members refer to, except for those that are in the table. -/
structure Graph (env : Env) (old : List (Nat × Nat)) (M : Nat → Prop) (s : Sys) : Prop where
  ne_zero : ∀ a, M a → a ≠ 0
  obj : ∀ a, M a → ∃ o, s.objs a = some o ∧ o.Copyable env
  closed : ∀ a o k, M a → old.lookup a = none → s.objs a = some o → (mapOf env o)[k]? = some true →
    o.words.getD k 0 ≠ 0 → M (o.words.getD k 0)

/-- The services of `d` have their portals, except for those of direct portals. -/
def Proxied (env : Env) (d : Nat) (s : Sys) : Prop :=
  ∀ index dep, s.services d index = .dep dep →
    dep.proxy = 0 ∨ ∃ vtable, s.objs dep.proxy = some (.portal vtable d (env.domainId d) index)

/-- No allocation starts a collection that nobody sees. -/
def Calm (env : Env) (s : Sys) : Prop :=
  ∀ d n p, s.allocs ≤ n → env.place d false n = some p → p.collects = false

/-- The state in which the copy of an object of `M` is made. -/
structure Ready (env : Env) (src : Nat) (old : List (Nat × Nat)) (M : Nat → Prop) (s : Sys) : Prop where
  graph : Graph env old M s
  proxied : Proxied env src s
  calm : Calm env s
  table : old <+: s.copied

/-- What a copy of `ref` leaves behind. -/
structure Copies (env : Env) (src dst : Nat) (old : List (Nat × Nat)) (M : Nat → Prop) (s : Sys)
    (ref r : Nat) (t : Sys) (new : List (Nat × Nat)) : Prop where
  ext : Extends env dst (fun _ => False) s t new
  filled : Filled env src dst old t new
  image : Image env src dst old t ref r
  /-- Only objects of the graph and the portals of services are copied. -/
  keys : ∀ p ∈ new, M p.1 ∧ old.lookup p.1 = none ∨
    ∃ vtable d id index, t.objs p.1 = some (.portal vtable d id index)
  ready : Ready env src old M t

/-! ## Parts of a copy -/

section Parts

variable {env : Env} {src dst : Nat} {old : List (Nat × Nat)} {M : Nat → Prop} {s t : Sys}

theorem takeQuota_ok {size : Nat} {msg : String} (h : takeQuota size msg s = pure t) :
    size ≤ s.quota ∧ t = { s with quota := s.quota - size } := by
  unfold takeQuota at h
  split at h
  · cases h
  · next hle =>
    cases h
    exact ⟨Nat.not_lt.mp hle, rfl⟩

theorem addToRefTable_ok {a b : Nat} (h : addToRefTable a b s = pure t) :
    t = { s with copied := s.copied ++ [(a, b)] } := by
  unfold addToRefTable at h
  split at h
  · cases h
  · cases h
    rfl

/-- An allocation that starts no collection adds an object and does nothing else. -/
theorem allocIn_ok {d a : Nat} {checked : Bool} {o : Obj}
    (h : allocIn env d checked o s = pure (a, false, t)) :
    a ≠ 0 ∧ a ≠ restartMark ∧ env.heapOf a = some d ∧ s.objs a = none ∧
      t = { s with objs := Function.update s.objs a (some o), allocs := s.allocs + 1 } := by
  unfold allocIn at h
  split at h
  · cases h
  · next addr collects hplace =>
    cases collects with
    | true =>
      simp only [if_true] at h
      split at h <;> cases h
    | false =>
      simp only [Bool.false_eq_true, if_false] at h
      split at h
      · next hfree =>
        cases h
        exact ⟨hfree.1, hfree.2.1, hfree.2.2.1, hfree.2.2.2, rfl⟩
      · cases h

theorem allocUnchecked_ok {d a : Nat} {o : Obj} (hcalm : Calm env s)
    (h : allocUnchecked env d o s = pure (a, t)) :
    a ≠ 0 ∧ a ≠ restartMark ∧ env.heapOf a = some d ∧ s.objs a = none ∧
      t = { s with objs := Function.update s.objs a (some o), allocs := s.allocs + 1 } := by
  unfold allocUnchecked at h
  obtain ⟨⟨addr, collects, s₁⟩, halloc, h⟩ := bind_eq_pure h
  cases h
  have hcollects : collects = false := by
    unfold allocIn at halloc
    split at halloc
    · cases halloc
    · next addr' collects' hplace =>
      have hcollects' : collects' = false := hcalm d s.allocs _ (Nat.le_refl _) hplace
      subst hcollects'
      simp only [Bool.false_eq_true, if_false] at halloc
      split at halloc
      · cases halloc
        rfl
      · cases halloc
  subst hcollects
  exact allocIn_ok halloc

theorem Calm.mono (h : Calm env s) (hallocs : s.allocs ≤ t.allocs) : Calm env t :=
  fun d n p hn => h d n p (hallocs.trans hn)

theorem Ready.lookup_old {a : Nat} (h : Ready env src old M s) (hlookup : s.copied.lookup a = none) :
    old.lookup a = none :=
  h.table.lookup_eq_none hlookup

/-- An object is added, and maybe an entry of the table for it. -/
theorem Extends.of_added {hole : Nat → Prop} {a : Nat} {o : Obj} {new : List (Nat × Nat)}
    (hnone : s.objs a = none) (hobjs : t.objs = Function.update s.objs a (some o))
    (hcopied : t.copied = s.copied ++ new)
    (hnew : new = [] ∨ (∃ k, new = [(k, a)]) ∧ a ≠ 0 ∧ a ≠ restartMark ∧ env.heapOf a = some dst)
    (honly : env.heapOf a = some dst → new ≠ []) (hservices : t.services = s.services)
    (hallocs : s.allocs ≤ t.allocs) : Extends env dst hole s t new := by
  have hother : ∀ x, s.objs x ≠ none → t.objs x = s.objs x := by
    intro x hx
    rw [hobjs, Function.update_of_ne]
    rintro rfl
    exact hx hnone
  have hmem : ∀ p ∈ new, p.2 = a ∧ a ≠ 0 ∧ a ≠ restartMark ∧ env.heapOf a = some dst := by
    intro p hp
    rcases hnew with rfl | ⟨⟨k, rfl⟩, hrest⟩
    · cases hp
    · obtain rfl := List.mem_singleton.mp hp
      exact ⟨rfl, hrest⟩
  refine
    { copied := hcopied, shape := ?_, objs := fun x _ hx => hother x hx, fresh := ?_, made := ?_,
      nodup := ?_, only := ?_, services := fun d index dep hdep => by rw [hservices, hdep],
      home := by rw [hservices], allocs := hallocs }
  · intro x o' ho'
    exact ⟨o', by rw [hother x (by simp [ho']), ho'], rfl⟩
  · intro p hp
    obtain ⟨rfl, hrest⟩ := hmem p hp
    exact ⟨hnone, hrest⟩
  · intro p hp
    obtain ⟨rfl, -⟩ := hmem p hp
    rw [hobjs, Function.update_self]
    exact Option.some_ne_none o
  · rcases hnew with rfl | ⟨⟨k, rfl⟩, -⟩
    · exact List.nodup_nil
    · exact List.nodup_singleton a
  · intro x hheap hx hsome
    have hxa : x = a := by
      by_contra hne
      rw [hobjs, Function.update_of_ne hne] at hsome
      exact hsome hx
    subst hxa
    rcases hnew with rfl | ⟨⟨k, rfl⟩, -⟩
    · exact absurd rfl (honly hheap)
    · exact ⟨_, List.mem_singleton_self _, rfl⟩

/-- The graph is where it was. -/
theorem Graph.mono {hole : Nat → Prop} {new : List (Nat × Nat)} (h : Graph env old M s)
    (hext : Extends env dst hole s t new) (hM : ∀ a, M a → ¬ hole a) : Graph env old M t := by
  have hsame : ∀ a, M a → t.objs a = s.objs a := by
    intro a ha
    obtain ⟨o, ho, -⟩ := h.obj a ha
    exact hext.objs a (hM a ha) (by simp [ho])
  refine ⟨h.ne_zero, fun a ha => ?_, fun a o k ha hold ho => ?_⟩
  · rw [hsame a ha]
    exact h.obj a ha
  · rw [hsame a ha] at ho
    exact h.closed a o k ha hold ho

theorem Proxied.mono {hole : Nat → Prop} {new : List (Nat × Nat)} {d : Nat} (h : Proxied env d s)
    (hext : Extends env dst hole s t new)
    (hhole : ∀ a, hole a → ∃ o, s.objs a = some o ∧ o.Plain env)
    (hservices : t.services = s.services) : Proxied env d t := by
  intro index dep hdep
  rw [hservices] at hdep
  refine (h index dep hdep).imp id fun ⟨vtable, hproxy⟩ => ⟨vtable, ?_⟩
  rw [hext.objs _ _ (by simp [hproxy]), hproxy]
  intro hin
  obtain ⟨o, ho, hplain⟩ := hhole _ hin
  rw [hproxy] at ho
  cases ho
  exact hplain

end Parts

/-! ## Objects without references -/

/-- `o` has been allocated at `r` and entered as the copy of `key`. -/
structure Added (env : Env) (dst : Nat) (s : Sys) (key : Nat) (o : Obj) (r : Nat) (t : Sys) : Prop where
  unused : s.objs r = none
  ne_zero : r ≠ 0
  ne_mark : r ≠ restartMark
  heapOf : env.heapOf r = some dst
  objs : t.objs = Function.update s.objs r (some o)
  copied : t.copied = s.copied ++ [(key, r)]
  services : t.services = s.services
  allocs : s.allocs ≤ t.allocs

section Leaves

variable {env : Env} {src dst : Nat} {old : List (Nat × Nat)} {M : Nat → Prop} {s t : Sys} {key r : Nat}
  {o : Obj}

/-- The part that the copy routines have in common that look at the epoch. -/
theorem added_of_parts {size : Nat} {msg : String} {s₁ s₂ : Sys}
    (hquota : takeQuota size msg s = pure s₁) (halloc : alloc env dst o s₁ = pure (r, false, s₂))
    (hadd : addToRefTable key r s₂ = pure t) : Added env dst s key o r t := by
  obtain ⟨-, rfl⟩ := takeQuota_ok hquota
  obtain ⟨hzero, hmark, hheap, hnone, rfl⟩ := allocIn_ok halloc
  obtain rfl := addToRefTable_ok hadd
  exact ⟨hnone, hzero, hmark, hheap, rfl, rfl, rfl, Nat.le_succ _⟩

theorem copyLeaf_added {size : Nat} (h : copyLeaf env dst size key o s = pure (r, t))
    (hr : r ≠ restartMark) : Added env dst s key o r t := by
  unfold copyLeaf at h
  obtain ⟨s₁, hquota, h⟩ := bind_eq_pure h
  obtain ⟨⟨target, collected, s₂⟩, halloc, h⟩ := bind_eq_pure h
  cases collected with
  | true =>
    cases h
    exact absurd rfl hr
  | false =>
    obtain ⟨s₃, hadd, h⟩ := bind_eq_pure (x := addToRefTable key target s₂) h
    cases h
    exact added_of_parts hquota halloc hadd

theorem copyMemory_added {vtable dz : Nat} (hcalm : Calm env s)
    (h : copyMemory env dst key vtable dz s = pure (r, t)) :
    Added env dst s key (.memory vtable dz) r t := by
  unfold copyMemory at h
  obtain ⟨s₁, hquota, h⟩ := bind_eq_pure h
  obtain ⟨⟨target, s₂⟩, halloc, h⟩ := bind_eq_pure h
  obtain ⟨s₃, hadd, h⟩ := bind_eq_pure h
  cases h
  obtain ⟨-, rfl⟩ := takeQuota_ok hquota
  obtain ⟨hzero, hmark, hheap, hnone, rfl⟩ :=
    allocUnchecked_ok (s := { s with quota := s.quota - HeapWalk.objsizeMemory }) hcalm halloc
  obtain rfl := addToRefTable_ok hadd
  exact ⟨hnone, hzero, hmark, hheap, rfl, rfl, rfl, Nat.le_succ _⟩

namespace Added

theorem ext {hole : Nat → Prop} (h : Added env dst s key o r t) :
    Extends env dst hole s t [(key, r)] :=
  .of_added h.unused h.objs h.copied (.inr ⟨⟨key, rfl⟩, h.ne_zero, h.ne_mark, h.heapOf⟩)
    (fun _ => List.cons_ne_nil _ _) h.services h.allocs

theorem ready (h : Added env dst s key o r t) (hready : Ready env src old M s) :
    Ready env src old M t where
  graph := hready.graph.mono (h.ext : Extends env dst (fun _ => False) s t _) fun _ _ => id
  proxied := hready.proxied.mono (h.ext : Extends env dst (fun _ => False) s t _)
    (fun _ => False.elim) h.services
  calm := hready.calm.mono h.allocs
  table := by
    rw [h.copied]
    exact hready.table.trans (List.prefix_append _ _)

/-- The table has the copy of an object that was not in it. -/
theorem image (h : Added env dst s key o r t) (hzero : key ≠ 0)
    (hlookup : s.copied.lookup key = none) : Image env src dst old t key r := by
  refine .copied ?_ hzero
  rw [h.copied, List.lookup_append, hlookup]
  simp

/-- An object without references is its own copy. -/
theorem filled (h : Added env dst s key o r t) (hkey : s.objs key = some o)
    (hleaf : o.Leaf) : Filled env src dst old t [(key, r)] := by
  intro p hp
  obtain rfl := List.mem_singleton.mp hp
  refine ⟨o, o, ?_, by rw [h.objs, Function.update_self], .leaf hleaf⟩
  have hne : key ≠ r := by
    intro heq
    rw [heq, h.unused] at hkey
    cases hkey
  rw [h.objs, Function.update_of_ne hne, hkey]

/-- The copy of an object of the graph that refers to nothing. -/
theorem copies (h : Added env dst s key o r t) (hready : Ready env src old M s) (hM : M key)
    (hkey : s.objs key = some o) (hleaf : o.Leaf)
    (hlookup : s.copied.lookup key = none) :
    Copies env src dst old M s key r t [(key, r)] where
  ext := h.ext
  filled := h.filled hkey hleaf
  image := h.image (hready.graph.ne_zero key hM) hlookup
  keys := by
    intro p hp
    obtain rfl := List.mem_singleton.mp hp
    exact .inl ⟨hM, hready.lookup_old hlookup⟩
  ready := h.ready hready

end Added

/-- `copy_portal` on a portal of the graph. -/
theorem copyPortal_copies {vtable targetDomain targetDomainID index : Nat}
    (hready : Ready env src old M s) (hM : M key) (hzero : key ≠ 0)
    (hkey : s.objs key = some (.portal vtable targetDomain targetDomainID index))
    (hlookup : s.copied.lookup key = none) (h : copyPortal env dst key s = pure (r, t))
    (hr : r ≠ restartMark) : ∃ new, Copies env src dst old M s key r t new := by
  unfold copyPortal at h
  rw [if_neg hzero, hkey] at h
  simp only at h
  split at h
  · next hhome =>
    -- the object of the service is in the target domain
    split at h
    · next d hd =>
      cases h
      refine ⟨[], .refl .., by simp [Filled], .home hkey (hready.lookup_old hlookup) ?_ hd, by simp, hready⟩
      exact if_pos hhome
    · cases h
  · exact ⟨_, (copyLeaf_added h hr).copies hready hM hkey trivial hlookup⟩

end Leaves

/-! ## Services -/

section Services

variable {env : Env} {src dst : Nat} {old : List (Nat × Nat)} {M : Nat → Prop} {s t : Sys} {obj : Nat}

theorem findService_eq {d : Nat} {dep : Dep} (h : findService s d obj = some dep) :
    ∃ index, s.services d index = .dep dep := by
  have hentry : ∀ {e : Entry}, e.service = some dep → e = .dep dep := by
    intro e he
    cases e with
    | dep dep' => exact congrArg Entry.dep (Option.some.inj he)
    | _ => cases he
  rcases Option.or_eq_some_iff.mp h with hfound | ⟨-, hlast⟩
  · obtain ⟨index, -, hsome⟩ := List.exists_of_findSome?_eq_some hfound
    exact ⟨index, hentry (Option.filter_eq_some_iff.mp hsome).1⟩
  · exact ⟨_, hentry hlast⟩

theorem findFree_eq {d index : Nat} (h : findFree s d = some index) : s.services d index = .free := by
  have hfree := List.find?_some h
  split at hfree
  · assumption
  · cases hfree

@[simp] theorem setService_services (s : Sys) (d index : Nat) (e : Entry) (d' index' : Nat) :
    (setService s d index e).services d' index' =
      if d' = d ∧ index' = index then e else s.services d' index' := by
  simp only [setService, Function.update_apply]
  by_cases hd : d' = d
  · subst hd
    simp [Function.update_apply]
  · simp [hd]

/-- What a promotion leaves: a service that has a portal, or no portal. -/
structure Promoted (env : Env) (src dst : Nat) (old : List (Nat × Nat)) (M : Nat → Prop) (s : Sys)
    (proxy : Nat) (t : Sys) : Prop where
  ext : Extends env dst (fun _ => False) s t []
  ready : Ready env src old M t
  service : proxy = 0 ∨ ∃ index vtable u, t.services src index = .dep ⟨u, proxy⟩ ∧
    t.objs proxy = some (.portal vtable src (env.domainId src) index)

/-- An entry that was not in use at first may be changed. -/
theorem Extends.setService {d index : Nat} {e : Entry} (h : Extends env dst (fun _ => False) s t [])
    (hne : d ≠ dst) (hfree : ∀ dep, s.services d index ≠ .dep dep) :
    Extends env dst (fun _ => False) s (setService t d index e) [] :=
  { h with
    services := by
      intro d' index' dep hdep
      rw [setService_services, if_neg]
      · exact h.services d' index' dep hdep
      · rintro ⟨rfl, rfl⟩
        exact hfree dep hdep
    home := by
      rw [← h.home]
      exact Function.update_of_ne hne.symm _ _
    allocs := h.allocs }

/-- One more object that has nothing to do with the copy. -/
theorem Extends.alloc {a d : Nat} {o : Obj} {u : Sys}
    (h : Extends env dst (fun _ => False) s t []) (hne : d ≠ dst) (hcalm : Calm env s)
    (halloc : allocUnchecked env d o t = pure (a, u)) :
    Extends env dst (fun _ => False) s u [] ∧ u.services = t.services ∧ a ≠ 0 ∧ t.objs a = none ∧
      u.objs = Function.update t.objs a (some o) := by
  obtain ⟨hzero, -, hheap, hnone, rfl⟩ := allocUnchecked_ok (hcalm.mono h.allocs) halloc
  refine ⟨?_, rfl, hzero, hnone, rfl⟩
  refine h.trans (.of_added hnone rfl (List.append_nil _).symm (.inl rfl) ?_ rfl (Nat.le_succ _))
  intro hdst
  rw [hheap] at hdst
  exact absurd (Option.some.inj hdst) hne

/-- A promotion takes a free entry for the object and makes its portal. -/
theorem createPromoted_made {proxy ifclass : Nat} (hne : src ≠ dst) (hcalm : Calm env s)
    (h : createPromoted env src obj ifclass s = pure (proxy, t)) :
    Extends env dst (fun _ => False) s t [] ∧ ∃ index, findFree s src = some index ∧ proxy ≠ 0 ∧
      (∀ i, t.services src i = if i = index then .dep ⟨obj, proxy⟩ else s.services src i) ∧
      t.objs proxy = some (.portal ifclass src (env.domainId src) index) := by
  unfold createPromoted at h
  split at h
  · cases h
  next index hindex =>
  have hfree : ∀ dep, s.services src index ≠ .dep dep := by
    intro dep hdep
    rw [findFree_eq hindex] at hdep
    cases hdep
  -- the service, its portal and its thread
  obtain ⟨⟨a₁, s₁⟩, halloc₁, h⟩ := bind_eq_pure h
  obtain ⟨⟨a₂, s₂⟩, halloc₂, h⟩ := bind_eq_pure h
  obtain ⟨⟨a₃, s₃⟩, halloc₃, h⟩ := bind_eq_pure h
  cases h
  have hext₀ := (Extends.refl env dst (fun _ => False) s).setService (e := .changing) hne hfree
  obtain ⟨hext₁, hservices₁, -, -, -⟩ := hext₀.alloc hne hcalm halloc₁
  obtain ⟨hext₂, hservices₂, hzero, -, hobjs₂⟩ :=
    (hext₁.setService (e := .dep ⟨obj, 0⟩) hne hfree).alloc hne hcalm halloc₂
  obtain ⟨hext₃, hservices₃, -, hnone₃, hobjs₃⟩ :=
    (hext₂.setService (e := .dep ⟨obj, proxy⟩) hne hfree).alloc hne hcalm halloc₃
  refine ⟨hext₃, index, hindex, hzero, fun i => ?_, ?_⟩
  · simp only [hservices₃, setService_services, hservices₂, hservices₁, true_and]
    split <;> simp [*]
  · have hne : proxy ≠ a₃ := by
      rintro rfl
      have hnone : s₂.objs proxy = none := hnone₃
      rw [hobjs₂, Function.update_self] at hnone
      cases hnone
    rw [hobjs₃, Function.update_of_ne hne]
    change s₂.objs proxy = _
    rw [hobjs₂, Function.update_self]

theorem createPromoted_promoted {proxy ifclass : Nat} (hne : src ≠ dst)
    (hready : Ready env src old M s)
    (h : createPromoted env src obj ifclass s = pure (proxy, t)) :
    Promoted env src dst old M s proxy t := by
  obtain ⟨hext, index, -, -, hservices, hproxy⟩ := createPromoted_made hne hready.calm h
  refine
    { ext := hext
      ready :=
        { graph := hready.graph.mono hext fun _ _ => id
          proxied := ?_
          calm := hready.calm.mono hext.allocs
          table := by rw [hext.copied, List.append_nil]; exact hready.table }
      service := .inr ⟨index, ifclass, obj, ?_, hproxy⟩ }
  · intro index' dep hdep
    rw [hservices] at hdep
    split at hdep
    · next heq =>
      cases hdep
      exact .inr ⟨ifclass, by rw [heq]; exact hproxy⟩
    · refine (hready.proxied index' dep hdep).imp id ?_
      rintro ⟨vtable, hportal⟩
      refine ⟨vtable, ?_⟩
      rw [hext.objs _ id (by simp [hportal]), hportal]
  · rw [hservices, if_pos rfl]

theorem portalAutoPromo_promoted {cl proxy : Nat} (hne : src ≠ dst)
    (hready : Ready env src old M s)
    (h : portalAutoPromo env src obj cl s = pure (proxy, t)) :
    Promoted env src dst old M s proxy t := by
  unfold portalAutoPromo at h
  split at h
  · next dep hfound =>
    cases h
    obtain ⟨index, hdep⟩ := findService_eq hfound
    refine ⟨.refl .., hready, (hready.proxied index dep hdep).imp id ?_⟩
    rintro ⟨vtable, hproxy⟩
    exact ⟨index, vtable, dep.obj, hdep, hproxy⟩
  · split at h
    · cases h
    · exact createPromoted_promoted hne hready h

/-- The object of a service is replaced by a portal. -/
theorem copyService_copies {cl r : Nat} {data : List Nat} (hready : Ready env src old M s)
    (hne : src ≠ dst) (hid : env.domainId src ≠ env.domainId dst)
    (hlookup : s.copied.lookup obj = none) (hobj : s.objs obj = some (.object cl data))
    (hservice : (env.classDesc cl).isPortal = true) {proxy : Nat} {s₁ : Sys}
    (hpromo : portalAutoPromo env src obj cl s = pure (proxy, s₁))
    (h : copyPortal env dst proxy s₁ = pure (r, t)) (hr : r ≠ restartMark) :
    ∃ new, Copies env src dst old M s obj r t new := by
  have hp : Promoted env src dst old M s proxy s₁ := portalAutoPromo_promoted hne hready hpromo
  by_cases hzero : proxy = 0
  · rw [copyPortal, if_pos hzero] at h
    cases h
    refine ⟨[], hp.ext, fun p hp => absurd hp List.not_mem_nil, ?_,
      fun p hp => absurd hp List.not_mem_nil, hp.ready⟩
    refine .unproxied ?_ (hready.lookup_old hlookup) (o := .object cl data) hservice
    rw [hp.ext.objs _ id (by simp [hobj]), hobj]
  obtain ⟨index, vtable, u, hdep, hproxy⟩ := hp.service.resolve_left hzero
  unfold copyPortal at h
  rw [if_neg hzero, hproxy] at h
  simp only at h
  rw [if_neg fun hhome => hid hhome.1] at h
  have hadded := copyLeaf_added h hr
  have hportal : t.objs proxy = some (.portal vtable src (env.domainId src) index) := by
    have hext : Extends env dst (fun _ => False) s₁ t _ := hadded.ext
    rw [hext.objs _ id (by simp [hproxy]), hproxy]
  refine ⟨[] ++ [(proxy, r)], hp.ext.trans hadded.ext, ?_, ?_, ?_, hadded.ready hp.ready⟩
  · exact hadded.filled hproxy trivial
  · refine Image.service (o := .object cl data) (u := u) ?_ (hready.lookup_old hlookup) hservice ?_ hportal ?_
      hadded.heapOf
    · rw [(hp.ext.trans hadded.ext).objs _ id (by simp [hobj]), hobj]
    · rw [hadded.services, hdep]
    · rw [hadded.copied]
      simp
  · intro p hp'
    obtain rfl := List.mem_singleton.mp hp'
    exact .inr ⟨_, _, _, _, hportal⟩

end Services

/-! ## The words of an object -/

/-- An object with one word changed. -/
def Obj.setWord (o : Obj) (k v : Nat) : Obj :=
  match o with
  | .object cl data => .object cl (data.set k v)
  | .array cl data => .array cl (data.set k v)
  | o => o

section Words

variable {env : Env} {src dst : Nat} {old : List (Nat × Nat)} {M : Nat → Prop} {s t : Sys}
  {obj target k v : Nat} {o o' : Obj}

theorem word_eq (h : s.objs obj = some o) (k : Nat) : s.word obj k = o.words.getD k 0 := by
  unfold Sys.word
  rw [h]
  cases o <;> rfl

theorem setWord_objs (h : s.objs target = some o) :
    (s.setWord target k v).objs = Function.update s.objs target (some (o.setWord k v)) := by
  unfold Sys.setWord
  rw [h]
  cases o <;> rfl

theorem shape_setWord (o : Obj) (k v : Nat) : (o.setWord k v).shape = o.shape := by
  cases o <;> simp [Obj.setWord, Obj.shape]

theorem words_setWord (o : Obj) (k v : Nat) : (o.setWord k v).words = o.words.set k v := by
  cases o <;> rfl

theorem plain_setWord : (o.setWord k v).Plain env ↔ o.Plain env := by
  rw [← plain_shape, shape_setWord, plain_shape]

/-- A word of a copy that is being made is written. -/
theorem Extends.setWord (h : s.objs target = some o) :
    Extends env dst (· = target) s (s.setWord target k v) [] where
  copied := (List.append_nil _).symm
  shape := by
    intro a o' ho'
    rw [setWord_objs h, Function.update_apply]
    split
    · next heq =>
      rw [heq, h] at ho'
      cases ho'
      exact ⟨_, rfl, shape_setWord ..⟩
    · exact ⟨o', ho', rfl⟩
  objs := fun a ha _ => by rw [setWord_objs h, Function.update_of_ne ha]
  fresh := by simp
  made := by simp
  nodup := List.nodup_nil
  only := by
    intro a _ hnone hsome
    rw [setWord_objs h, Function.update_apply] at hsome
    split at hsome
    · next heq =>
      rw [heq, h] at hnone
      cases hnone
    · exact absurd hnone hsome
  services := fun _ _ _ h => h
  home := rfl
  allocs := Nat.le_refl _

theorem Ready.setWord (hready : Ready env src old M s) (h : s.objs target = some o)
    (hplain : o.Plain env) (hM : ¬ M target) : Ready env src old M (s.setWord target k v) where
  graph := hready.graph.mono (.setWord h : Extends env 0 _ _ _ _) fun a ha heq => hM (heq ▸ ha)
  proxied := by
    have hext : Extends env 0 (· = target) s (s.setWord target k v) [] := .setWord h
    exact hready.proxied.mono hext (fun a ha => ⟨o, ha ▸ h, hplain⟩) rfl
  calm := hready.calm
  table := hready.table

end Words

/-- What the loop over the words from `k` on leaves, for a copy of `o` at `target`. -/
structure WordsCopied (env : Env) (src dst : Nat) (old : List (Nat × Nat)) (M : Nat → Prop) (s : Sys)
    (o : Obj) (target k : Nat) (t : Sys) (new : List (Nat × Nat)) : Prop where
  ext : Extends env dst (· = target) s t new
  filled : Filled env src dst old t new
  keys : ∀ p ∈ new, M p.1 ∧ old.lookup p.1 = none ∨
    ∃ vtable d id index, t.objs p.1 = some (.portal vtable d id index)
  ready : Ready env src old M t
  /-- The words before `k` are as they were. -/
  before : ∀ o₀ o₁, s.objs target = some o₀ → t.objs target = some o₁ →
    ∀ j < k, o₁.words.getD j 0 = o₀.words.getD j 0
  followed : ∀ o₁, t.objs target = some o₁ → ∀ j ≥ k, (mapOf env o)[j]? = some true →
    Image env src dst old t (o.words.getD j 0) (o₁.words.getD j 0)
  other : ∀ o₁, t.objs target = some o₁ → ∀ j ≥ k, (mapOf env o)[j]? = some false →
    o₁.words.getD j 0 = o.words.getD j 0

/-- A routine that makes copies of the objects of `M`. -/
def MakesCopies (env : Env) (src dst : Nat) (old : List (Nat × Nat)) (M : Nat → Prop)
    (copy : Nat → Sys → Exec (Nat × Sys)) : Prop :=
  ∀ s ref r t, Ready env src old M s → (ref = 0 ∨ M ref) → copy ref s = pure (r, t) → r ≠ restartMark →
    ∃ new, Copies env src dst old M s ref r t new

section Loop

variable {env : Env} {src dst : Nat} {old : List (Nat × Nat)} {M : Nat → Prop}
  {copy : Nat → Sys → Exec (Nat × Sys)} {s t : Sys} {obj target k : Nat} {o o₀ : Obj}

/-- There is an entry for each word. -/
theorem length_mapOf (hplain : o.Plain env) (hcopyable : o.Copyable env) :
    (mapOf env o).length = o.words.length := by
  cases o with
  | object cl data =>
    have hfalse : (env.classDesc cl).isPortal = false := hplain
    have hlength : data.length = (env.classDesc cl).instanceSize := hcopyable
    simp [mapOf, hfalse, objectMap, TypeMap.length_forBitmap, Obj.words, hlength]
  | array cl data => simp [mapOf, arrayMap, Obj.words]
  | _ => exact hplain.elim

/-- The copies that a word has led to are not the one that is being made. -/
theorem ne_target_of_keys {s₁ : Sys} {new₁ : List (Nat × Nat)}
    (hext₁ : Extends env dst (fun _ => False) s s₁ new₁)
    (hkeys₁ : ∀ p ∈ new₁, M p.1 ∧ old.lookup p.1 = none ∨
      ∃ vtable d id index, s₁.objs p.1 = some (.portal vtable d id index))
    (htarget : s.objs target = some o₀) (hplain₀ : o₀.Plain env) (hnot : ¬ M target) :
    ∀ p ∈ new₁, ¬ p.1 = target ∧ ¬ p.2 = target := by
  intro p hp
  constructor
  · intro heq
    rcases hkeys₁ p hp with hM | ⟨vtable, d, targetID, index, hportal⟩
    · exact hnot (heq ▸ hM.1)
    · rw [heq, hext₁.objs _ id (by simp [htarget]), htarget] at hportal
      cases hportal
      exact hplain₀
  · intro heq
    have hnone := (hext₁.fresh p hp).1
    rw [heq, htarget] at hnone
    cases hnone

/-- The word that has been written is not written again. -/
theorem WordsCopied.written {s₁ : Sys} {ref : Nat} {new : List (Nat × Nat)} {o₁ : Obj}
    (h : WordsCopied env src dst old M (s₁.setWord target k ref) o target (k + 1) t new)
    (htarget₁ : s₁.objs target = some o₀) (hlt : k < o₀.words.length)
    (ho₁ : t.objs target = some o₁) : o₁.words.getD k 0 = ref := by
  have hset : (s₁.setWord target k ref).objs target = some (o₀.setWord k ref) := by
    rw [setWord_objs htarget₁, Function.update_self]
  rw [h.before _ o₁ hset ho₁ k (Nat.lt_succ_self k), words_setWord]
  simp [List.getD, hlt]

/-- A word is written and the loop goes on. -/
theorem WordsCopied.step {s₁ : Sys} {b : Bool} {ref : Nat} {new₁ new : List (Nat × Nat)}
    (hext₁ : Extends env dst (fun _ => False) s s₁ new₁) (hfilled₁ : Filled env src dst old s₁ new₁)
    (hkeys₁ : ∀ p ∈ new₁, M p.1 ∧ old.lookup p.1 = none ∨
      ∃ vtable d id index, s₁.objs p.1 = some (.portal vtable d id index))
    (htarget : s.objs target = some o₀) (hplain₀ : o₀.Plain env) (hnot : ¬ M target)
    (hlt : k < o₀.words.length) (hbit : (mapOf env o)[k]? = some b)
    (hword : if b then Image env src dst old s₁ (o.words.getD k 0) ref else ref = o.words.getD k 0)
    (h : WordsCopied env src dst old M (s₁.setWord target k ref) o target (k + 1) t new) :
    WordsCopied env src dst old M s o target k t (new₁ ++ ([] ++ new)) := by
  have htarget₁ : s₁.objs target = some o₀ := by
    rw [hext₁.objs _ id (by simp [htarget]), htarget]
  have hset : (s₁.setWord target k ref).objs target = some (o₀.setWord k ref) := by
    rw [setWord_objs htarget₁, Function.update_self]
  have hhole₁ : ∀ a, a = target → ∃ o, s₁.objs a = some o ∧ o.Plain env :=
    fun a ha => ⟨o₀, ha ▸ htarget₁, hplain₀⟩
  have hext₂ : Extends env dst (· = target) s₁ t ([] ++ new) :=
    (Extends.setWord htarget₁).trans h.ext
  have hapart := ne_target_of_keys hext₁ hkeys₁ htarget hplain₀ hnot
  have hword₁ : ∀ o₁, t.objs target = some o₁ → o₁.words.getD k 0 = ref :=
    fun _ ho₁ => h.written htarget₁ hlt ho₁
  refine
    { ext := (hext₁.mono fun _ => False.elim).trans hext₂
      filled := ?_, keys := ?_, ready := h.ready, before := ?_, followed := ?_, other := ?_ }
  · intro p hp
    rcases List.mem_append.mp hp with hp | hp
    · exact hfilled₁.mono hext₂ hhole₁ hapart p hp
    · exact h.filled p hp
  · intro p hp
    rcases List.mem_append.mp hp with hp | hp
    · refine (hkeys₁ p hp).imp id ?_
      rintro ⟨vtable, d, id, index, hportal⟩
      refine ⟨vtable, d, id, index, ?_⟩
      rw [hext₂.objs _ (hapart p hp).1 (by simp [hportal]), hportal]
    · exact h.keys p hp
  · intro o₂ o₁ ho₂ ho₁ j hj
    rw [htarget] at ho₂
    cases ho₂
    rw [h.before _ o₁ hset ho₁ j (by omega), words_setWord]
    simp [List.getD, List.getElem?_set_ne (by omega : k ≠ j)]
  · intro o₁ ho₁ j hj hbit'
    rcases Nat.lt_or_ge k j with hlt' | hge
    · exact h.followed o₁ ho₁ j hlt' hbit'
    · obtain rfl : j = k := by omega
      rw [hbit] at hbit'
      cases hbit'
      rw [hword₁ o₁ ho₁]
      exact hword.mono hext₂ hhole₁
  · intro o₁ ho₁ j hj hbit'
    rcases Nat.lt_or_ge k j with hlt' | hge
    · exact h.other o₁ ho₁ j hlt' hbit'
    · obtain rfl : j = k := by omega
      rw [hbit] at hbit'
      cases hbit'
      rw [hword₁ o₁ ho₁]
      exact hword

/-- The loop over the words of the object `o` at `obj` has come to the word at `k`, and `map` is the
rest of its map. -/
structure InLoop (env : Env) (src : Nat) (old : List (Nat × Nat)) (M : Nat → Prop) (obj target : Nat)
    (o : Obj) (map : List Bool) (k : Nat) (s : Sys) : Prop where
  ready : Ready env src old M s
  mem : M obj
  unlisted : old.lookup obj = none
  source : s.objs obj = some o
  plain : o.Plain env
  dest : ∃ o₀, s.objs target = some o₀ ∧ o₀.Plain env ∧ o₀.words.length = o.words.length
  apart : ¬ M target
  rest : (mapOf env o).drop k = map

namespace InLoop

variable {b : Bool} {map : List Bool}

theorem bit (h : InLoop env src old M obj target o (b :: map) k s) : (mapOf env o)[k]? = some b := by
  have := congrArg (·[0]?) h.rest
  simpa using this

theorem lt (h : InLoop env src old M obj target o (b :: map) k s) : k < o.words.length := by
  have hcopyable : o.Copyable env := by
    obtain ⟨o', ho', hcopyable⟩ := h.ready.graph.obj obj h.mem
    rw [h.source] at ho'
    cases ho'
    exact hcopyable
  rw [← length_mapOf h.plain hcopyable]
  exact (List.getElem?_eq_some_iff.mp h.bit).1

/-- A word that is followed belongs to the graph. -/
theorem member (h : InLoop env src old M obj target o (true :: map) k s) :
    o.words.getD k 0 = 0 ∨ M (o.words.getD k 0) := by
  by_cases hzero : o.words.getD k 0 = 0
  · exact .inl hzero
  · exact .inr (h.ready.graph.closed obj o k h.mem h.unlisted h.source h.bit hzero)

/-- The rest of the loop, after the word at `k` has been written. -/
theorem next {s₁ : Sys} {ref : Nat} {new₁ : List (Nat × Nat)}
    (h : InLoop env src old M obj target o (b :: map) k s)
    (hext : Extends env dst (fun _ => False) s s₁ new₁) (hready₁ : Ready env src old M s₁) :
    InLoop env src old M obj target o map (k + 1) (s₁.setWord target k ref) := by
  obtain ⟨o₀, htarget, hplain₀, hlength⟩ := h.dest
  have htarget₁ : s₁.objs target = some o₀ := by
    rw [hext.objs _ id (by simp [htarget]), htarget]
  have hne : obj ≠ target := fun heq => h.apart (heq ▸ h.mem)
  refine
    { ready := hready₁.setWord htarget₁ hplain₀ h.apart, mem := h.mem, unlisted := h.unlisted, source := ?_
      plain := h.plain, dest := ⟨o₀.setWord k ref, ?_, plain_setWord.mpr hplain₀, ?_⟩
      apart := h.apart, rest := ?_ }
  · rw [setWord_objs htarget₁, Function.update_of_ne hne, hext.objs _ id (by simp [h.source]), h.source]
  · rw [setWord_objs htarget₁, Function.update_self]
  · rw [words_setWord, List.length_set, hlength]
  · rw [← List.drop_drop, h.rest]
    rfl

end InLoop

theorem copyWords_copied (hcopy : MakesCopies env src dst old M copy) {map : List Bool}
    (hin : InLoop env src old M obj target o map k s)
    (h : copyWords copy obj target map k s = pure (true, t)) :
    ∃ new, WordsCopied env src dst old M s o target k t new := by
  induction map generalizing k s with
  | nil =>
    cases h
    have hend : (mapOf env o).length ≤ k := List.drop_eq_nil_iff.mp hin.rest
    refine ⟨[], .refl .., by simp [Filled], by simp, hin.ready, ?_, ?_, ?_⟩
    · intro o₀ o₁ ho₀ ho₁ j _
      rw [ho₀] at ho₁
      cases ho₁
      rfl
    · intro o₁ _ j hj hbit
      rw [List.getElem?_eq_none (by omega)] at hbit
      cases hbit
    · intro o₁ _ j hj hbit
      rw [List.getElem?_eq_none (by omega)] at hbit
      cases hbit
  | cons b map ih =>
    obtain ⟨o₀, htarget, hplain₀, hlength⟩ := hin.dest
    have hlt : k < o₀.words.length := hlength ▸ hin.lt
    cases b with
    | true =>
      unfold copyWords at h
      rw [word_eq hin.source] at h
      obtain ⟨⟨ref, s₁⟩, hcall, h⟩ := bind_eq_pure h
      simp only at h
      split at h
      · cases h
      next hmark =>
      obtain ⟨new₁, hc⟩ := hcopy s _ ref s₁ hin.ready hin.member hcall hmark
      obtain ⟨new, hwords⟩ := ih (hin.next hc.ext hc.ready) h
      exact ⟨_, hwords.step hc.ext hc.filled hc.keys htarget hplain₀ hin.apart hlt hin.bit hc.image⟩
    | false =>
      unfold copyWords at h
      rw [word_eq hin.source] at h
      obtain ⟨new, hwords⟩ := ih (hin.next (.refl env 0 _ s) hin.ready) h
      exact ⟨_, hwords.step (.refl ..) (by simp [Filled]) (by simp) htarget hplain₀ hin.apart hlt
        hin.bit rfl⟩

end Loop

/-! ## Objects and arrays -/

section Contents

variable {env : Env} {src dst : Nat} {old : List (Nat × Nat)} {M : Nat → Prop}
  {copy : Nat → Sys → Exec (Nat × Sys)} {s t : Sys} {obj r : Nat} {o : Obj}

/-- A hole where there was nothing is none. -/
theorem Extends.fill {hole : Nat → Prop} {new : List (Nat × Nat)} (h : Extends env dst hole s t new)
    (hnone : ∀ a, hole a → s.objs a = none) : Extends env dst (fun _ => False) s t new :=
  { h with objs := fun a _ ha => h.objs a (fun hin => ha (hnone a hin)) ha }

theorem words_shape : o.shape.words.length = o.words.length := by
  cases o <;> simp [Obj.shape, Obj.words]

/-- The loop begins when the object has been entered into the table. -/
theorem Added.inLoop {s₁ : Sys} (hadded : Added env dst s obj o.shape r s₁)
    (hready : Ready env src old M s) (hM : M obj) (ho : s.objs obj = some o) (hplain : o.Plain env)
    (hlookup : s.copied.lookup obj = none) :
    InLoop env src old M obj r o (mapOf env o) 0 s₁ := by
  have hnot : ¬ M r := by
    intro hr
    obtain ⟨o', ho', -⟩ := hready.graph.obj r hr
    rw [hadded.unused] at ho'
    cases ho'
  have hne : obj ≠ r := fun heq => hnot (heq ▸ hM)
  refine
    { ready := hadded.ready hready, mem := hM, unlisted := hready.lookup_old hlookup, source := ?_
      plain := hplain, dest := ⟨o.shape, ?_, plain_shape.mpr hplain, words_shape⟩, apart := hnot
      rest := List.drop_zero }
  · rw [hadded.objs, Function.update_of_ne hne, ho]
  · rw [hadded.objs, Function.update_self]

/-- An object is entered into the table, and then its words are copied. -/
theorem Added.copies_words {s₁ : Sys} (hcopy : MakesCopies env src dst old M copy)
    (hready : Ready env src old M s) (hM : M obj) (ho : s.objs obj = some o) (hplain : o.Plain env)
    (hlookup : s.copied.lookup obj = none) (hadded : Added env dst s obj o.shape r s₁)
    (h : copyWords copy obj r (mapOf env o) 0 s₁ = pure (true, t)) :
    ∃ new, Copies env src dst old M s obj r t new := by
  have htarget : s₁.objs r = some o.shape := by rw [hadded.objs, Function.update_self]
  obtain ⟨new, hw⟩ := copyWords_copied hcopy (hadded.inLoop hready hM ho hplain hlookup) h
  have hext : Extends env dst (fun _ => False) s t ([(obj, r)] ++ new) :=
    (hadded.ext.trans hw.ext).fill fun a ha => ha ▸ hadded.unused
  refine ⟨[(obj, r)] ++ new, hext, ?_, .copied ?_ (hready.graph.ne_zero obj hM), ?_, hw.ready⟩
  · intro p hp
    rcases List.mem_append.mp hp with hp | hp
    · obtain rfl := List.mem_singleton.mp hp
      obtain ⟨o', ho', hshape⟩ := hw.ext.shape r _ htarget
      refine ⟨o, o', by rw [hext.objs _ id (by simp [ho]), ho], ho', ?_⟩
      refine .words hplain ?_ (fun k => hw.followed o' ho' k (Nat.zero_le k))
        (fun k => hw.other o' ho' k (Nat.zero_le k))
      rw [hshape]
      cases o <;> simp [Obj.shape]
    · exact hw.filled p hp
  · rw [hext.copied, List.lookup_append, hlookup]
    simp
  · intro p hp
    rcases List.mem_append.mp hp with hp | hp
    · obtain rfl := List.mem_singleton.mp hp
      exact .inl ⟨hM, hready.lookup_old hlookup⟩
    · exact hw.keys p hp

theorem copyArray_copies {cl : Nat} {data : List Nat} (hcopy : MakesCopies env src dst old M copy)
    (hready : Ready env src old M s) (hM : M obj) (ho : s.objs obj = some (.array cl data))
    (hlookup : s.copied.lookup obj = none)
    (h : copyArray env copy dst obj cl data.length s = pure (r, t)) (hr : r ≠ restartMark) :
    ∃ new, Copies env src dst old M s obj r t new := by
  unfold copyArray at h
  obtain ⟨s₁, hquota, h⟩ := bind_eq_pure h
  obtain ⟨⟨target, collected, s₂⟩, halloc, h⟩ := bind_eq_pure h
  cases collected with
  | true =>
    cases h
    exact absurd rfl hr
  | false =>
    obtain ⟨s₃, hadd, h⟩ := bind_eq_pure (x := addToRefTable obj target s₂) h
    obtain ⟨⟨done, s₄⟩, hwords, h⟩ := bind_eq_pure h
    cases done with
    | false =>
      cases h
      exact absurd rfl hr
    | true =>
      cases h
      exact (added_of_parts hquota halloc hadd).copies_words hcopy hready hM ho trivial hlookup hwords

theorem copyObject_copies {cl : Nat} {data : List Nat} (hcopy : MakesCopies env src dst old M copy)
    (hne : src ≠ dst) (hid : env.domainId src ≠ env.domainId dst) (hready : Ready env src old M s)
    (hM : M obj)
    (ho : s.objs obj = some (.object cl data)) (hlookup : s.copied.lookup obj = none)
    (h : copyObject env copy src dst obj cl s = pure (r, t)) (hr : r ≠ restartMark) :
    ∃ new, Copies env src dst old M s obj r t new := by
  have hlength : data.length = (env.classDesc cl).instanceSize := by
    obtain ⟨o, ho', hcopyable⟩ := hready.graph.obj obj hM
    rw [ho] at ho'
    cases ho'
    exact hcopyable
  unfold copyObject at h
  split at h
  · next hservice =>
    obtain ⟨⟨proxy, s₁⟩, hpromo, h⟩ := bind_eq_pure h
    simp only at h
    split at h
    · cases h
    · exact copyService_copies hready hne hid hlookup ho hservice hpromo h hr
  · next hservice =>
    have hplain : (Obj.object cl data).Plain env := Bool.eq_false_iff.mpr hservice
    obtain ⟨s₁, hquota, h⟩ := bind_eq_pure h
    obtain ⟨⟨target, collected, s₂⟩, halloc, h⟩ := bind_eq_pure h
    cases collected with
    | true =>
      cases h
      exact absurd rfl hr
    | false =>
      obtain ⟨s₃, hadd, h⟩ := bind_eq_pure (x := addToRefTable obj target s₂) h
      obtain ⟨⟨done, s₄⟩, hwords, h⟩ := bind_eq_pure h
      cases done with
      | false =>
        cases h
        exact absurd rfl hr
      | true =>
        cases h
        have hadded := added_of_parts hquota halloc hadd
        rw [← hlength] at hadded
        refine hadded.copies_words hcopy hready hM ho hplain hlookup ?_
        rw [show mapOf env (.object cl data) = objectMap env cl from if_neg hservice]
        exact hwords

end Contents

/-! ## References -/

/-- What a copy leaves, whatever it is a copy of. -/
theorem copyReferenceInternal_copies {env : Env} {src dst : Nat} {old : List (Nat × Nat)}
    {M : Nat → Prop} (hne : src ≠ dst) (hid : env.domainId src ≠ env.domainId dst) (fuel room : Nat) :
    MakesCopies env src dst old M (copyReferenceInternal env src dst fuel room) := by
  induction fuel generalizing room with
  | zero => exact fun _ _ _ _ _ _ h => by cases h
  | succ fuel ih =>
    intro s ref r t hready hmember h hr
    unfold copyReferenceInternal at h
    by_cases hzero : ref = 0
    · rw [if_pos hzero] at h
      cases h
      subst hzero
      exact ⟨[], .refl .., by simp [Filled], .null, by simp, hready⟩
    rw [if_neg hzero] at h
    obtain ⟨_, -, h⟩ := bind_eq_pure h
    rw [if_neg hne] at h
    have hM : M ref := hmember.resolve_left hzero
    split at h
    · next target hlookup =>
      cases h
      exact ⟨[], .refl .., by simp [Filled], .copied hlookup hzero, by simp, hready⟩
    next hlookup =>
    split at h
    · cases h
    split at h
    · next ho =>
      obtain ⟨_, -, h⟩ := bind_eq_pure h
      exact copyObject_copies (ih _) hne hid hready hM ho hlookup h hr
    · next ho => exact copyPortal_copies hready hM hzero ho hlookup h hr
    · next ho =>
      have hadded := copyMemory_added hready.calm h
      exact ⟨_, hadded.copies hready hM ho trivial hlookup⟩
    · next ho =>
      have hadded := copyLeaf_added h hr
      exact ⟨_, hadded.copies hready hM ho trivial hlookup⟩
    · next ho => exact copyArray_copies (ih _) hready hM ho hlookup h hr
    · next ho =>
      cases h
      exact ⟨[], .refl .., by simp [Filled], .external ho (hready.lookup_old hlookup), by simp, hready⟩
    · next ho =>
      -- threads are not among what is copied here
      obtain ⟨o, ho', hcopyable⟩ := hready.graph.obj ref hM
      rw [ho] at ho'
      cases ho'
      exact hcopyable.elim
    · cases h
    · cases h
    · cases h

theorem copyReference_copies {env : Env} {src dst : Nat} {old : List (Nat × Nat)} {M : Nat → Prop}
    (hne : src ≠ dst) (hid : env.domainId src ≠ env.domainId dst) (fuel : Nat) :
    MakesCopies env src dst old M (copyReference env src dst fuel) := by
  intro s ref r t hready hmember h hr
  obtain ⟨_, -, h⟩ := bind_eq_pure h
  exact copyReferenceInternal_copies hne hid fuel _ s ref r t hready hmember h hr

end JxCore.PortalCopy
