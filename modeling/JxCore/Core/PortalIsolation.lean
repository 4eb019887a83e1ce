import JxCore.Core.PortalCopyGraph

/-!
# Isolation of the domains

After a parameter has been copied, nothing that the target domain can reach from the copy may be in
the heap of the source domain. What the target domain reaches is what its collector follows, and
the collector follows more than `copy_array`: for the collector an array of arrays consists of
references, for `copy_array` it consists of numbers.

`isolated_iff` says that nothing else goes wrong.
-/

namespace JxCore.PortalCopy

open Exec

/-! ## What the collector follows -/

/-- The words that the collector takes for references (`gc_impl_walkContent`). -/
def gcMap (env : Env) : Obj → List Bool
  | .object cl _ => objectMap env cl
  | .array arrayClass data =>
    List.replicate data.length ((env.arrayName arrayClass)[1]? = some 'L' ∨
      (env.arrayName arrayClass)[1]? = some '[')
  | _ => []

/-- What can be reached from `r` inside the heap of `dst`. -/
inductive Reaches (env : Env) (dst : Nat) (s : Sys) (r : Nat) : Nat → Prop
  | refl : Reaches env dst s r r
  | word {a k : Nat} {o : Obj} (ha : Reaches env dst s r a) (hheap : env.heapOf a = some dst)
      (ho : s.objs a = some o) (hk : (gcMap env o)[k]? = some true) :
      Reaches env dst s r (o.words.getD k 0)

/-- The objects that the parameter consists of. -/
inductive Spans (env : Env) (s : Sys) (ref : Nat) : Nat → Prop
  | root (hzero : ref ≠ 0) : Spans env s ref ref
  | word {a k : Nat} {o : Obj} (ha : Spans env s ref a) (ho : s.objs a = some o)
      (hk : (gcMap env o)[k]? = some true) (hzero : o.words.getD k 0 ≠ 0) :
      Spans env s ref (o.words.getD k 0)

/-- The objects that the copy meets. It does not look into an object that is in the table. -/
inductive Met (env : Env) (s : Sys) (ref : Nat) : Nat → Prop
  | root (hzero : ref ≠ 0) : Met env s ref ref
  | word {a k : Nat} {o : Obj} (ha : Met env s ref a) (hold : s.copied.lookup a = none)
      (ho : s.objs a = some o) (hk : (mapOf env o)[k]? = some true)
      (hzero : o.words.getD k 0 ≠ 0) : Met env s ref (o.words.getD k 0)

/-- The two domains before the copy. -/
structure Apart (env : Env) (src dst : Nat) (s : Sys) (ref : Nat) : Prop where
  graph : ∀ a, Spans env s ref a → ∃ o, s.objs a = some o ∧ o.Copyable env
  proxied : Proxied env src s
  null : env.heapOf 0 = none
  external : ∀ a, s.objs a = some .external → env.heapOf a = none
  services : ∀ index dep, s.services dst index = .dep dep → env.heapOf dep.obj = some dst
  /-- So far no object of `dst` refers to something in `src`. -/
  isolated : ∀ a o k, env.heapOf a = some dst → s.objs a = some o → (gcMap env o)[k]? = some true →
    env.heapOf (o.words.getD k 0) ≠ some src

/-- Nothing bad comes from the object at `a`: its entry in the table does not lead to `src`, and if
it has none and is an array of arrays, then no element is in `src`. -/
def Harmless (env : Env) (src : Nat) (s : Sys) (a : Nat) : Prop :=
  match s.copied.lookup a with
  | some w => env.heapOf w ≠ some src
  | none => ∀ cl data, s.objs a = some (.array cl data) → (env.arrayName cl)[1]? = some '[' →
      ∀ w ∈ data, env.heapOf w ≠ some src

section Maps

variable {env : Env} {s : Sys} {ref a k : Nat} {o : Obj}

/-- What the copy follows, the collector follows. -/
theorem gcMap_of_mapOf (h : (mapOf env o)[k]? = some true) : (gcMap env o)[k]? = some true := by
  cases o with
  | object cl data =>
    change (if _ then _ else _)[k]? = some true at h
    split at h
    · cases h
    · exact h
  | array cl data =>
    unfold mapOf arrayMap at h
    obtain ⟨hlt, htrue⟩ := List.getElem?_eq_some_iff.mp h
    rw [List.getElem_replicate, decide_eq_true_eq] at htrue
    rw [List.length_replicate] at hlt
    simp [gcMap, hlt, htrue]
  | _ => cases h

theorem Met.spans (h : Met env s ref a) : Spans env s ref a := by
  induction h with
  | root hzero => exact .root hzero
  | word _ _ ho hk hzero ih => exact .word ih ho (gcMap_of_mapOf hk) hzero

theorem Met.ne_zero (h : Met env s ref a) : a ≠ 0 := by
  cases h with
  | root hzero => exact hzero
  | word _ _ _ _ hzero => exact hzero

/-- A word that the collector follows and the copy does not is an element of an array of arrays. -/
theorem mapOf_of_gcMap (hplain : o.Plain env) (h : (gcMap env o)[k]? = some true) :
    (mapOf env o)[k]? = some true ∨ (mapOf env o)[k]? = some false ∧
      ∃ cl data, o = .array cl data ∧ (env.arrayName cl)[1]? = some '[' ∧ k < data.length := by
  cases o with
  | object cl data =>
    have hfalse : (env.classDesc cl).isPortal = false := hplain
    refine .inl ?_
    rw [mapOf, hfalse, if_neg (by simp)]
    exact h
  | array cl data =>
    obtain ⟨hlt, htrue⟩ := List.getElem?_eq_some_iff.mp h
    simp only [gcMap, List.getElem_replicate, decide_eq_true_eq, List.length_replicate] at htrue hlt
    simp only [mapOf, arrayMap, List.getElem?_replicate, hlt, if_true, Option.some.injEq,
      decide_eq_true_eq, decide_eq_false_iff_not]
    rcases htrue with hL | harray
    · exact .inl hL
    · exact .inr ⟨by rw [harray]; decide, cl, data, rfl, harray, hlt⟩
  | _ => cases h

theorem gcMap_of_shape {o' : Obj} (h : o'.shape = o.shape) : gcMap env o' = gcMap env o := by
  have hshape : ∀ o : Obj, gcMap env o.shape = gcMap env o := by
    intro o
    cases o <;> simp [Obj.shape, gcMap]
  rw [← hshape o', h, hshape]

theorem plain_of_mapOf (h : (mapOf env o)[k]? = some true) : o.Plain env := by
  cases o with
  | object cl data =>
    change (if _ then _ else _)[k]? = some true at h
    split at h
    · cases h
    · next hfalse => exact Bool.eq_false_iff.mpr hfalse
  | array => trivial
  | _ => cases h

theorem Obj.Leaf.not_plain (h : o.Leaf) : ¬ o.Plain env := by
  cases o with
  | object => exact h.elim
  | array => exact h.elim
  | _ => exact id

end Maps

/-! ## The copy -/

section Isolation

variable {env : Env} {src dst ref r fuel : Nat} {s t : Sys} {new : List (Nat × Nat)}

theorem Apart.ready (h : Apart env src dst s ref) (hcalm : Calm env s) :
    Ready env src s.copied (Met env s ref) s where
  graph :=
    { ne_zero := fun _ ha => ha.ne_zero
      obj := fun a ha => h.graph a ha.spans
      closed := fun _ _ _ ha hold ho hk hzero => .word ha hold ho hk hzero }
  proxied := h.proxied
  calm := hcalm
  table := List.prefix_rfl

/-- An entry of the table is an old one if there is one, and else a new one. -/
theorem Copies.lookup {M : Nat → Prop} {v w : Nat}
    (h : Copies env src dst s.copied M s ref r t new) (hlookup : t.copied.lookup v = some w) :
    s.copied.lookup v = some w ∨ s.copied.lookup v = none ∧ (v, w) ∈ new := by
  rw [h.ext.copied, List.lookup_append] at hlookup
  cases hold : s.copied.lookup v with
  | some w' =>
    rw [hold] at hlookup
    exact .inl hlookup
  | none =>
    rw [hold] at hlookup
    obtain ⟨l₁, l₂, rfl, -⟩ := List.lookup_eq_some_iff.mp hlookup
    exact .inr ⟨rfl, by simp⟩

/-- The image of an object that is met is not in the source domain. -/
theorem Image.not_src {v w : Nat} (hne : src ≠ dst) (hapart : Apart env src dst s ref)
    (h : Copies env src dst s.copied (Met env s ref) s ref r t new)
    (hharmless : ∀ a, Met env s ref a → Harmless env src s a) (hmet : v ≠ 0 → Met env s ref v)
    (himage : Image env src dst s.copied t v w) : env.heapOf w ≠ some src := by
  have hdst : ∀ {w}, env.heapOf w = some dst → env.heapOf w ≠ some src := by
    intro w hw heq
    rw [hw] at heq
    exact hne (Option.some.inj heq).symm
  have hnone : ∀ {w}, env.heapOf w = none → env.heapOf w ≠ some src := by
    intro w hw heq
    rw [hw] at heq
    cases heq
  cases himage with
  | null => exact hnone hapart.null
  | external ho _ =>
    by_cases hzero : v = 0
    · rw [hzero]
      exact hnone hapart.null
    · obtain ⟨o, ho', -⟩ := hapart.graph v (hmet hzero).spans
      rw [h.ext.objs v id (by simp [ho'])] at ho
      exact hnone (hapart.external v ho)
  | copied hlookup hzero =>
    rcases h.lookup hlookup with hold | ⟨-, hnew⟩
    · have hentry := hharmless v (hmet hzero)
      unfold Harmless at hentry
      rw [hold] at hentry
      exact hentry
    · exact hdst (h.ext.fresh _ hnew).2.2.2
  | home _ _ _ hd =>
    rw [h.ext.home] at hd
    exact hdst (hapart.services _ _ hd)
  | service _ _ _ _ _ _ hheap => exact hdst hheap
  | unproxied _ _ _ => exact hnone hapart.null

/-- A reference in a copy does not lead to the source domain. -/
theorem CopyOf.not_src {o o' : Obj} {a k : Nat} (hne : src ≠ dst) (hapart : Apart env src dst s ref)
    (h : Copies env src dst s.copied (Met env s ref) s ref r t new)
    (hharmless : ∀ a, Met env s ref a → Harmless env src s a) (hmet : Met env s ref a)
    (hold : s.copied.lookup a = none) (ho : s.objs a = some o)
    (hcopy : CopyOf env (Image env src dst s.copied t) o o') (hk : (gcMap env o')[k]? = some true) :
    env.heapOf (o'.words.getD k 0) ≠ some src := by
  cases hcopy with
  | words hplain hshape hfollowed hother =>
    rw [gcMap_of_shape hshape] at hk
    rcases mapOf_of_gcMap hplain hk with hmap | ⟨hmap, cl, data, rfl, harray, hlt⟩
    · refine (hfollowed k hmap).not_src hne hapart h hharmless fun hzero => ?_
      exact .word hmet hold ho hmap hzero
    · -- the element is the same as in the original
      rw [hother k hmap]
      have hnone := hharmless a hmet
      unfold Harmless at hnone
      rw [hold] at hnone
      refine hnone cl data ho harray _ ?_
      simp [Obj.words, List.getD, hlt]
  | leaf hleaf =>
    cases o with
    | object => exact hleaf.elim
    | array => exact hleaf.elim
    | _ => cases hk

theorem not_src_of_harmless {w : Nat} (hne : src ≠ dst) (hapart : Apart env src dst s ref)
    (h : Copies env src dst s.copied (Met env s ref) s ref r t new)
    (hharmless : ∀ a, Met env s ref a → Harmless env src s a) (hreach : Reaches env dst t r w) :
    env.heapOf w ≠ some src := by
  cases hreach with
  | refl => exact h.image.not_src hne hapart h hharmless .root
  | @word a k o ha hheap ho hk =>
    by_cases hs : s.objs a = none
    · -- a new object is a copy
      obtain ⟨p, hp, rfl⟩ := h.ext.only a hheap hs (by simp [ho])
      obtain ⟨o₁, o₂, ho₁, ho₂, hcopy⟩ := h.filled p hp
      rw [ho] at ho₂
      cases ho₂
      rcases h.keys p hp with ⟨hmet, hold⟩ | ⟨vtable, d, id, index, hportal⟩
      · obtain ⟨o₃, ho₃, -⟩ := hapart.graph _ hmet.spans
        have hsame := h.ext.objs p.1 id (by simp [ho₃])
        exact hcopy.not_src hne hapart h hharmless hmet hold (by rw [← hsame, ho₁]) hk
      · rw [ho₁] at hportal
        cases hportal
        cases hcopy with
        | words hplain => exact hplain.elim
        | leaf => cases hk
    · rw [h.ext.objs a id hs] at ho
      exact hapart.isolated a o k hheap ho hk

/-- The image of an object that is copied word by word is its copy. -/
theorem Image.copyOf {a w : Nat} {o : Obj}
    (h : Copies env src dst s.copied (Met env s ref) s ref r t new)
    (hmet : Met env s ref a) (hold : s.copied.lookup a = none) (ho : s.objs a = some o)
    (hplain : o.Plain env) (himage : Image env src dst s.copied t a w) :
    env.heapOf w = some dst ∧ ∃ o', t.objs w = some o' ∧
      CopyOf env (Image env src dst s.copied t) o o' := by
  have hsame : t.objs a = some o := by rw [h.ext.objs a id (by simp [ho]), ho]
  cases himage with
  | null => exact absurd rfl hmet.ne_zero
  | external ho' _ =>
    rw [hsame] at ho'
    cases ho'
    exact hplain.elim
  | copied hlookup _ =>
    rcases h.lookup hlookup with hsome | ⟨-, hnew⟩
    · rw [hold] at hsome
      cases hsome
    · obtain ⟨o₁, o', ho₁, ho', hcopy⟩ := h.filled _ hnew
      rw [hsame] at ho₁
      cases ho₁
      exact ⟨(h.ext.fresh _ hnew).2.2.2, o', ho', hcopy⟩
  | @home _ _ o' _ ho' _ hhome _ =>
    rw [hsame] at ho'
    cases ho'
    cases o with
    | object => cases hhome
    | array => cases hhome
    | _ => exact hplain.elim
  | service ho' _ hservice _ _ _ _ | unproxied ho' _ hservice =>
    rw [hsame] at ho'
    cases ho'
    exact absurd hplain hservice.not_plain

/-- What is in the table when the copy starts comes first. -/
theorem Image.of_old {M : Nat → Prop} {a w e : Nat} (h : Copies env src dst s.copied M s ref r t new)
    (hlookup : s.copied.lookup a = some e) (hzero : a ≠ 0)
    (himage : Image env src dst s.copied t a w) : w = e := by
  cases himage with
  | null => exact absurd rfl hzero
  | copied hcopied _ =>
    rcases h.lookup hcopied with hsome | ⟨hnone, -⟩
    · rw [hlookup] at hsome
      exact (Option.some.inj hsome).symm
    · rw [hlookup] at hnone
      cases hnone
  | external _ hold | home _ hold _ _ | service _ hold _ _ _ _ _ | unproxied _ hold _ =>
    rw [hlookup] at hold
    cases hold

/-- Each object that is met has an image that can be reached from the copy. -/
theorem Met.image {a : Nat}
    (h : Copies env src dst s.copied (Met env s ref) s ref r t new) (hmet : Met env s ref a) :
    ∃ w, Reaches env dst t r w ∧ Image env src dst s.copied t a w := by
  induction hmet with
  | root => exact ⟨r, .refl, h.image⟩
  | @word a k o ha hold ho hk hzero ih =>
    obtain ⟨w, hreach, himage⟩ := ih
    have hplain : o.Plain env := plain_of_mapOf hk
    obtain ⟨hheap, o', ho', hcopy⟩ := himage.copyOf h ha hold ho hplain
    cases hcopy with
    | words _ hshape hfollowed _ =>
      refine ⟨_, .word hreach hheap ho' ?_, hfollowed k hk⟩
      rw [gcMap_of_shape hshape]
      exact gcMap_of_mapOf hk
    | leaf hleaf => exact absurd hplain hleaf.not_plain

theorem harmless_of_not_src {a : Nat}
    (h : Copies env src dst s.copied (Met env s ref) s ref r t new)
    (hisolated : ∀ w, Reaches env dst t r w → env.heapOf w ≠ some src) (hmet : Met env s ref a) :
    Harmless env src s a := by
  obtain ⟨w, hreach, himage⟩ := hmet.image h
  unfold Harmless
  split
  · next e hlookup =>
    rw [← himage.of_old h hlookup hmet.ne_zero]
    exact hisolated w hreach
  · next hold =>
    intro cl data ho harray e he
    obtain ⟨hheap, o', ho', hcopy⟩ := himage.copyOf h hmet hold ho trivial
    cases hcopy with
    | words _ hshape _ hother =>
      -- the element is the same in the copy, and the collector follows it
      obtain ⟨k, hk, rfl⟩ := List.getElem_of_mem he
      have hfalse : (mapOf env (.array cl data))[k]? = some false := by
        simp [mapOf, arrayMap, hk, harray]
      have htrue : (gcMap env o')[k]? = some true := by
        rw [gcMap_of_shape hshape]
        simp [gcMap, hk, harray]
      have hword := hisolated _ (.word hreach hheap ho' htrue)
      rw [hother k hfalse] at hword
      simpa [Obj.words, List.getD, hk] using hword
    | leaf hleaf => exact hleaf.elim

/-- A copy that comes back leaves the domains isolated if and only if each object that it has met is
harmless. -/
theorem isolated_iff (hne : src ≠ dst) (hid : env.domainId src ≠ env.domainId dst)
    (hapart : Apart env src dst s ref) (hcalm : Calm env s)
    (hcopy : copyReference env src dst fuel ref s = pure (r, t)) (hr : r ≠ restartMark) :
    (∀ w, Reaches env dst t r w → env.heapOf w ≠ some src) ↔
      ∀ a, Met env s ref a → Harmless env src s a := by
  have hmember : ref = 0 ∨ Met env s ref ref := by
    by_cases hzero : ref = 0
    · exact .inl hzero
    · exact .inr (.root hzero)
  obtain ⟨new, h⟩ :=
    copyReference_copies hne hid fuel s ref r t (hapart.ready hcalm) hmember hcopy hr
  constructor
  · intro hisolated a hmet
    exact harmless_of_not_src h hisolated hmet
  · intro hharmless w hreach
    exact not_src_of_harmless hne hapart h hharmless hreach

end Isolation

/-! ## Two arrays -/

/-- Domain 1 has the addresses from `0x1000` on and domain 2 those from `0x2000` on. -/
def exampleEnv : Env where
  frames := ⟨64, 64, 64, 64⟩
  room := 4096
  classDesc _ := ⟨0, [], false, none⟩
  arrayName cl :=
    if cl = 1 then "[[I".toList else if cl = 2 then "[I".toList else "[Ljava/lang/Object;".toList
  heapOf a :=
    if 0x1000 ≤ a ∧ a < 0x2000 then some 1 else if 0x2000 ≤ a ∧ a < 0x3000 then some 2 else none
  domainId d := d
  loaded _ _ := false
  place d _ n := some ⟨0x1000 * d + 0x200 + 8 * n, false⟩
  collect _ s := s

/-- An array at `0x1000`, with elements of type `int[]`. -/
def exampleSys (cl : Nat) (data : List Nat) : Sys where
  objs a :=
    if a = 0x1000 then some (.array cl data) else if a = 0x1100 then some (.array 2 [7]) else none
  services _ _ := .free
  copied := []
  maxCopied := 100
  quota := 1000
  allocs := 0

theorem exampleEnv_calm {s : Sys} : Calm exampleEnv s := by
  intro d n p _ hp
  cases hp
  rfl

theorem exampleSys_apart {cl : Nat} {data : List Nat}
    (hdata : ∀ w ∈ data, w = 0 ∨ w = 0x1000 ∨ w = 0x1100) :
    Apart exampleEnv 1 2 (exampleSys cl data) 0x1000 where
  graph := by
    have hspans : ∀ a, Spans exampleEnv (exampleSys cl data) 0x1000 a → a = 0x1000 ∨ a = 0x1100 := by
      intro a ha
      induction ha with
      | root => exact .inl rfl
      | @word a k o _ ho hk hzero ih =>
        rcases ih with rfl | rfl
        · obtain rfl : Obj.array cl data = o := Option.some.inj ho
          have hlt : k < data.length := by
            have := (List.getElem?_eq_some_iff.mp hk).1
            simpa [gcMap] using this
          have hmem : (Obj.array cl data).words.getD k 0 ∈ data := by
            simp [Obj.words, List.getD, hlt]
          exact (hdata _ hmem).resolve_left hzero
        · obtain rfl : Obj.array 2 [7] = o := Option.some.inj ho
          have hmap : gcMap exampleEnv (.array 2 [7]) = [false] := by decide
          rw [hmap] at hk
          cases k with
          | zero => cases hk
          | succ k => cases hk
    intro a ha
    rcases hspans a ha with rfl | rfl
    · exact ⟨_, rfl, trivial⟩
    · exact ⟨_, rfl, trivial⟩
  proxied := fun _ _ hdep => by cases hdep
  null := rfl
  external := by
    intro a ha
    simp only [exampleSys] at ha
    split at ha
    · cases ha
    · split at ha <;> cases ha
  services := fun _ _ hdep => by cases hdep
  isolated := by
    intro a o k hheap ho
    simp only [exampleSys] at ho
    split at ho
    · next heq =>
      subst heq
      cases hheap
    · split at ho
      · next heq =>
        subst heq
        cases hheap
      · cases ho

theorem isolated_iff_cyclic : ∃ t : Sys, Apart exampleEnv 1 2 (exampleSys 3 [0x1100, 0x1000]) 0x1000 ∧
    copyReference exampleEnv 1 2 3 0x1000 (exampleSys 3 [0x1100, 0x1000]) = pure (0x2200, t) ∧
    ((∀ w, Reaches exampleEnv 2 t 0x2200 w → exampleEnv.heapOf w ≠ some 1) ↔
      ∀ a, Met exampleEnv (exampleSys 3 [0x1100, 0x1000]) 0x1000 a →
        Harmless exampleEnv 1 (exampleSys 3 [0x1100, 0x1000]) a) := by
  have hapart : Apart exampleEnv 1 2 (exampleSys 3 [0x1100, 0x1000]) 0x1000 :=
    exampleSys_apart (by decide)
  refine ⟨_, hapart, rfl, ?_⟩
  exact isolated_iff (by decide) (by decide) hapart exampleEnv_calm
    (show copyReference _ _ _ 3 _ _ = _ from rfl) (by decide)

theorem not_isolated_nested : ∃ t : Sys, Apart exampleEnv 1 2 (exampleSys 1 [0x1100]) 0x1000 ∧
    copyReference exampleEnv 1 2 3 0x1000 (exampleSys 1 [0x1100]) = pure (0x2200, t) ∧
    ∃ w, Reaches exampleEnv 2 t 0x2200 w ∧ exampleEnv.heapOf w = some 1 := by
  refine ⟨_, exampleSys_apart (by decide), rfl, 0x1100, ?_, rfl⟩
  exact .word (k := 0) (o := .array 1 [0x1100]) .refl rfl rfl rfl

end JxCore.PortalCopy
