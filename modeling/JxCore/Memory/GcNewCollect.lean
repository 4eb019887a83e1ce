import JxCore.Memory.GcNewCopies

/-!
# What a collection leaves behind

`gcNewGc` moves the root slots, walks the second semispace while it grows, walks the old heap twice
for the finalizers and swaps the semispaces. `Isomorphic` says that the heap it leaves has the graph
that was reachable before.
-/

namespace JxCore.GcNew

open Exec

/-! ## Specification -/

/-- The heap of `g'` is what a collection of `g` should leave: the objects `live`, in this order,
`p` at `φ p`. -/
structure Isomorphic (env : Env) (roots : List Nat) (g g' : Gc) (live : List Nat) (φ : Nat → Nat) :
    Prop where
  /-- The semispaces have been swapped. -/
  swapped : g'.heap = g.heap2 ∧ g'.heapBorder = g.heapBorder2 ∧ g'.heap2 = g.heap ∧
    g'.heapBorder2 = g.heapBorder ∧ g'.heapTop2 = g'.heap2
  /-- Each reachable object is there once, and nothing else is. -/
  live_iff : ∀ p, p ∈ live ↔ Reachable env roots g.mem p
  nodup : live.Nodup
  tiled : Tiled φ (objSize env g.mem) g'.heap live g'.heapTop
  fits : g'.heapTop ≤ g'.heapBorder
  /-- It has the size it had and its references are where they were. -/
  layout : ∀ p ∈ live, IsObject g'.mem (φ p) ∧ objSize env g'.mem (φ p) = objSize env g.mem p ∧
    offsets env g'.mem (φ p) = offsets env g.mem p
  /-- The flags, the class and every other word that is no reference. -/
  words : ∀ p ∈ live, ∀ k < objSize env g.mem p, k ∉ offsets env g.mem p →
    g'.mem (φ p + k) = g.mem (p + k)
  refs : ∀ p ∈ live, ∀ k ∈ offsets env g.mem p, Image live φ (g.mem (p + k)) (g'.mem (φ p + k))
  rootRefs : ∀ s ∈ roots, Image live φ (g.mem s) (g'.mem s)
  /-- What the new roots lead to are the images of what the old ones led to. -/
  reachable_iff : ∀ x, Reachable env roots g'.mem x ↔ ∃ p ∈ live, φ p = x

/-- A collection comes back, and leaves the graph that was there. -/
def Collects (env : Env) (roots : List Nat) (g : Gc) : Prop :=
  ∃ g', Returns (fun fuel => gcNewGc env roots fuel g) g' ∧
    ∃ live φ, Isomorphic env roots g g' live φ

/-! ## Walks -/

section Walks

variable {env : Env} {h : Handlers} {top : Gc → Nat}

/-- Fuel that is not needed makes no difference. -/
theorem walkContinuesBlock_mono {fuel fuel' data : Nat} {g g' : Gc}
    (hwalk : walkContinuesBlock env h top fuel data g = pure g') (hle : fuel ≤ fuel') :
    walkContinuesBlock env h top fuel' data g = pure g' := by
  induction fuel generalizing fuel' data g with
  | zero => cases hwalk
  | succ fuel ih =>
    obtain ⟨fuel', rfl⟩ : ∃ n, fuel' = n + 1 := ⟨fuel' - 1, by omega⟩
    unfold walkContinuesBlock at hwalk ⊢
    split
    · next hlt =>
      rw [if_pos hlt] at hwalk
      obtain ⟨⟨objSize, g₁⟩, hvisit, hrest⟩ := bind_eq_pure hwalk
      rw [hvisit, pure_bind]
      exact ih hrest (by omega)
    · next hge => rwa [if_neg hge] at hwalk

end Walks

namespace Scan

variable {env : Env} {roots objs : List Nat} {g₀ g : Gc} {cs pend : List Nat} {φ : Nat → Nat}

theorem slotsOf_congr {φ' : Nat → Nat} {l : List Nat} (hφ : ∀ p ∈ l, φ' p = φ p) :
    l.flatMap (slotsOf env g₀.mem φ') = l.flatMap (slotsOf env g₀.mem φ) := by
  refine List.flatMap_congr fun p hp => ?_
  rw [slotsOf, slotsOf, hφ p hp]

/-- The slots at the front of the queue are moved one after the other. -/
theorem foldlM_moves (h₀ : Populated env roots g₀ objs) (hroomy : Roomy env roots g₀ objs)
    {ss : List Nat} (h : Scan env roots g₀ g cs φ (ss ++ pend))
    (hbfs : Bfs env roots g₀.mem ((ss ++ pend).map g.mem) cs) :
    Moves env roots g₀ cs φ pend (ss.foldlM (moveReference env) g) := by
  induction ss generalizing g cs φ pend with
  | nil => exact ⟨g, [], φ, rfl, fun _ _ => rfl, by simpa using h, by simpa using hbfs⟩
  | cons s ss ih =>
    rw [List.cons_append] at h hbfs
    obtain ⟨g₁, new₁, φ₁, hcall₁, hφ₁, hscan₁, hbfs₁⟩ := moveReference_moves h₀ hroomy h hbfs
    rw [List.append_assoc] at hscan₁ hbfs₁
    obtain ⟨g₂, new₂, φ₂, hcall₂, hφ₂, hscan₂, hbfs₂⟩ := ih hscan₁ hbfs₁
    have hnew₁ : new₁.flatMap (slotsOf env g₀.mem φ₂) = new₁.flatMap (slotsOf env g₀.mem φ₁) :=
      slotsOf_congr fun p hp => hφ₂ p (List.mem_append_right _ hp)
    refine ⟨g₂, new₁ ++ new₂, φ₂, ?_, fun p hp => ?_, ?_⟩
    · rw [List.foldlM_cons, hcall₁, pure_bind, hcall₂]
    · rw [hφ₂ p (List.mem_append_left _ hp), hφ₁ p hp]
    · rw [List.flatMap_append, hnew₁, ← List.append_assoc, ← List.append_assoc]
      exact ⟨hscan₂, hbfs₂⟩

/-- The copy of an object looks like the object, whether its slots have been moved or not. -/
theorem copy_layout (h₀ : Populated env roots g₀ objs) (h : Scan env roots g₀ g cs φ pend) {p : Nat}
    (hp : p ∈ cs) : IsObject g.mem (φ p) ∧ objSize env g.mem (φ p) = objSize env g₀.mem p ∧
      offsets env g.mem (φ p) = offsets env g₀.mem p :=
  layout_congr (h₀.isObject p (mem_objs h₀ h hp)) (h.words p hp)

end Scan

/-- The callbacks of the scan move the references of the object that the walk has come to. -/
theorem visit_scanHeap2 {env : Env} {g : Gc} {p : Nat} (h : IsObject g.mem p) :
    visit env (scanHeap2 env) p g = (objSize env g.mem p, ·) <$>
      ((offsets env g.mem p).map (p + ·)).foldlM (moveReference env) g := by
  unfold visit
  simp only [walkFlags_eq h]
  rcases h.kind with hkind | hkind | hkind
  · rw [objSize_object hkind, offsets_object hkind, hkind]
    change (obj2ClassDesc env g (p + 2) >>= fun c => (objsizeObject c.instanceSize, ·) <$>
      walkContentObject env (p + 2) g) = _
    rw [obj2ClassDesc_eq env h, pure_bind, walkContentObject, assert_pos h.vtable, pure_bind,
      List.map_map]
    simp only [Function.comp_def, ← Nat.add_assoc]
  · rw [objSize_array hkind, offsets_array hkind, hkind]
    change (assertObject g (p + 2) >>= fun _ => (objsizeArray32bit (g.mem (p + 4)), ·) <$>
      walkContentArray env (p + 2) g) = _
    rw [assertObject_eq h, pure_bind, walkContentArray, isReferenceArray]
    simp only [Bool.or_eq_true, beq_iff_eq]
    split
    · rw [List.map_map, arraySize]
      simp only [Function.comp_def, ← Nat.add_assoc]
    · rfl
  · rw [objSize_portal hkind, offsets_portal hkind, hkind]
    rfl

namespace Scan

variable {env : Env} {roots objs : List Nat} {g₀ : Gc}

/-- The walk over the second semispace. It has passed the copies `passed`, and the queue holds the
slots of the others. Each object is passed at most once, which bounds the number of rounds. -/
theorem walkHeap2_spec (h₀ : Populated env roots g₀ objs) (hroomy : Roomy env roots g₀ objs)
    {fuel data : Nat} {g : Gc} {passed todo : List Nat} {φ : Nat → Nat}
    (h : Scan env roots g₀ g (passed ++ todo) φ (todo.flatMap (slotsOf env g₀.mem φ)))
    (hbfs : Bfs env roots g₀.mem ((todo.flatMap (slotsOf env g₀.mem φ)).map g.mem) (passed ++ todo))
    (hdata : Tiled φ (objSize env g₀.mem) g₀.heap2 passed data)
    (hfuel : objs.length < fuel + passed.length) :
    ∃ g' cs φ', walkContinuesBlock env (scanHeap2 env) Gc.heapTop2 fuel data g = pure g' ∧
      Scan env roots g₀ g' cs φ' [] := by
  induction fuel generalizing data g passed todo φ with
  | zero =>
    have hlen : passed.length ≤ objs.length := by
      refine (List.Nodup.subperm (List.nodup_append.mp h.nodup).1 fun p hp => ?_).length_le
      exact mem_objs h₀ h (List.mem_append_left _ hp)
    omega
  | succ fuel ih =>
    obtain ⟨mid, hpassed, htodo⟩ := h.tiled.of_append
    obtain rfl := hpassed.top_unique hdata
    unfold walkContinuesBlock
    cases todo with
    | nil =>
      obtain rfl : mid = g.heapTop2 := htodo
      rw [if_neg (Nat.lt_irrefl _)]
      exact ⟨g, passed, φ, rfl, by simpa using h⟩
    | cons p todo =>
      have hp : p ∈ passed ++ p :: todo := by simp
      obtain ⟨hobj, hsize, hoffsets⟩ := copy_layout h₀ h hp
      obtain ⟨rfl, -⟩ := htodo
      have hbounds := h.tiled.mem_bounds hp
      have hpos : 4 ≤ objSize env g.mem (φ p) := four_le_objSize hobj
      rw [if_pos (by omega), visit_scanHeap2 hobj, hsize, hoffsets]
      rw [List.flatMap_cons] at h hbfs
      obtain ⟨g₁, new, φ₁, hcall, hφ₁, hscan, hbfs₁⟩ := foldlM_moves h₀ hroomy h hbfs
      rw [slotsOf] at hcall
      rw [hcall, map_pure, pure_bind]
      -- the object has been passed, and the new copies are behind the others
      have hpassed₁ : Tiled φ₁ (objSize env g₀.mem) g₀.heap2 (passed ++ [p])
          (φ p + objSize env g₀.mem p) :=
        (hdata.congr (fun q hq => hφ₁ q (List.mem_append_left _ hq)) fun _ _ => rfl).concat
          (hφ₁ p hp)
      have hslots : (todo ++ new).flatMap (slotsOf env g₀.mem φ₁) =
          todo.flatMap (slotsOf env g₀.mem φ) ++ new.flatMap (slotsOf env g₀.mem φ₁) := by
        rw [List.flatMap_append, slotsOf_congr fun q hq => hφ₁ q (by simp [hq])]
      have hsplit : passed ++ p :: todo ++ new = (passed ++ [p]) ++ (todo ++ new) := by simp
      rw [hsplit, ← hslots] at hscan hbfs₁
      exact ih hscan hbfs₁ hpassed₁ (by simp only [List.length_append, List.length_singleton]; omega)

end Scan

/-! ## Finalizers -/

/-- Callbacks that change nothing but the reference counts of services. -/
structure Quiet (h : Handlers) : Prop where
  object : ∀ obj flags g, ∃ l, h.object obj flags g = pure { g with decRefcount := l }
  array : ∀ obj flags g, ∃ l, h.array obj flags g = pure { g with decRefcount := l }
  portal : ∀ obj flags g, ∃ l, h.portal obj flags g = pure { g with decRefcount := l }

theorem skip_eq (obj flags : Nat) (g : Gc) :
    ∃ l, skip obj flags g = pure { g with decRefcount := l } := ⟨g.decRefcount, rfl⟩

theorem finalizePortalsCB_eq (env : Env) (obj flags : Nat) (g : Gc) :
    ∃ l, finalizePortalsCB env obj flags g = pure { g with decRefcount := l } := by
  unfold finalizePortalsCB
  dsimp only
  split
  · exact ⟨g.decRefcount, rfl⟩
  · split
    · exact ⟨_, rfl⟩
    · exact ⟨g.decRefcount, rfl⟩

/-- In the old heap of `mem₀`, the object at `p` can still be recognised: it is as it was, except
that the flags may have to be looked up in its copy. -/
structure Recognisable (env : Env) (mem₀ : Nat → Nat) (g : Gc) (p : Nat) : Prop where
  isObject : IsObject mem₀ p
  flags : walkFlags g (p + 2) = mem₀ p ∨ walkFlags g (p + 2) = mem₀ p ||| 0x00000001
  words : ∀ k, 1 ≤ k → k < objSize env mem₀ p → g.mem (p + k) = mem₀ (p + k)

theorem ofFlags_or_one {mem₀ : Nat → Nat} {p v : Nat} (h : IsObject mem₀ p)
    (hv : v = mem₀ p ∨ v = mem₀ p ||| 0x00000001) : Kind.ofFlags v = Kind.ofFlags (mem₀ p) := by
  rcases hv with rfl | rfl
  · rfl
  · rcases h.kind with hk | hk | hk <;> rw [hk] <;> rfl

theorem visit_old {env : Env} {h : Handlers} (hquiet : Quiet h) {mem₀ : Nat → Nat} {g : Gc} {p : Nat}
    (hp : Recognisable env mem₀ g p) :
    ∃ l, visit env h p g = pure (objSize env mem₀ p, { g with decRefcount := l }) := by
  have hobj := hp.isObject
  have hsize : 4 ≤ objSize env mem₀ p := four_le_objSize hobj
  have hmagic : g.mem (p + 1) = magicObject := (hp.words 1 (by omega) (by omega)).trans hobj.magic
  have hvtable : g.mem (p + 2) = mem₀ (p + 2) := hp.words 2 (by omega) (by omega)
  unfold visit
  simp only [ofFlags_or_one hobj hp.flags]
  generalize walkFlags g (p + 2) = flags
  rcases hobj.kind with hkind | hkind | hkind
  · obtain ⟨l, hl⟩ := hquiet.object (p + 2) flags g
    have hclass : obj2ClassDesc env g (p + 2) = pure (env.classDesc (mem₀ (p + 2))) := by
      rw [obj2ClassDesc, if_pos ⟨hmagic, by rw [hvtable]; exact hobj.vtable⟩, hvtable]
    refine ⟨l, ?_⟩
    rw [objSize_object hkind, hkind]
    change (obj2ClassDesc env g (p + 2) >>= fun c => (objsizeObject c.instanceSize, ·) <$>
      h.object (p + 2) flags g) = _
    rw [hclass, pure_bind, hl, map_pure]
  · obtain ⟨l, hl⟩ := hquiet.array (p + 2) flags g
    refine ⟨l, ?_⟩
    have hlen : arraySize g (p + 2) = mem₀ (p + 4) :=
      hp.words 4 (by omega) (by rw [objSize_array hkind, objsizeArray32bit]; omega)
    rw [objSize_array hkind, hkind]
    change (assertObject g (p + 2) >>= fun _ => (objsizeArray32bit (arraySize g (p + 2)), ·) <$>
      h.array (p + 2) flags g) = _
    have hassert : assertObject g (p + 2) = pure () := assert_pos hmagic _
    rw [hassert, pure_bind, hl, map_pure, hlen]
  · obtain ⟨l, hl⟩ := hquiet.portal (p + 2) flags g
    refine ⟨l, ?_⟩
    rw [objSize_portal hkind, hkind]
    change (objsizePortal, ·) <$> h.portal (p + 2) flags g = _
    rw [hl, map_pure]

/-- A walk over the old heap with quiet callbacks. -/
theorem walkHeap_old {env : Env} {h : Handlers} (hquiet : Quiet h) {mem₀ : Nat → Nat} {fuel data : Nat}
    {g : Gc} {l : List Nat} (htiled : Tiled id (objSize env mem₀) data l g.heapTop)
    (hl : ∀ p ∈ l, Recognisable env mem₀ g p) (hfuel : l.length < fuel) :
    ∃ d, walkContinuesBlock env h Gc.heapTop fuel data g = pure { g with decRefcount := d } := by
  induction l generalizing fuel data g with
  | nil =>
    obtain ⟨fuel, rfl⟩ : ∃ n, fuel = n + 1 := ⟨fuel - 1, by simp at hfuel; omega⟩
    obtain rfl : data = g.heapTop := htiled
    unfold walkContinuesBlock
    rw [if_neg (Nat.lt_irrefl _)]
    exact ⟨g.decRefcount, rfl⟩
  | cons p l ih =>
    obtain ⟨fuel, rfl⟩ : ∃ n, fuel = n + 1 := ⟨fuel - 1, by simp at hfuel; omega⟩
    obtain ⟨rfl, hrest⟩ := htiled
    rw [List.forall_mem_cons] at hl
    have hpos : 4 ≤ objSize env mem₀ p := four_le_objSize hl.1.isObject
    have hle := hrest.base_le
    obtain ⟨d, hvisit⟩ := visit_old hquiet hl.1
    unfold walkContinuesBlock
    simp only [id_eq] at hle hrest ⊢
    rw [if_pos (by omega), hvisit, pure_bind]
    -- the counts are not looked at by the rest of the walk
    have hother : ∀ q ∈ l, Recognisable env mem₀ { g with decRefcount := d } q := fun q hq =>
      ⟨(hl.2 q hq).isObject, (hl.2 q hq).flags, (hl.2 q hq).words⟩
    exact ih hrest hother (by simp at hfuel; omega)

/-! ## Images -/

section Images

variable {env : Env} {roots live : List Nat} {mem mem' : Nat → Nat} {φ : Nat → Nat} {q v v' x : Nat}

/-- A word that refers to something refers to a copy. -/
theorem Image.of_ref (h : Image live φ v (ref x)) : ∃ p ∈ live, φ p = x := by
  rcases h with ⟨-, hnull⟩ | ⟨q, hq, -, href⟩
  · unfold ref at hnull
    omega
  · exact ⟨q, hq, (ref_injective href).symm⟩

/-- A word that referred to an object refers to its copy. -/
theorem Image.eq_ref (h : Image live φ (ref q) v') : q ∈ live ∧ v' = ref (φ q) := by
  rcases h with ⟨hnull, -⟩ | ⟨q', hq', href, hv'⟩
  · unfold ref at hnull
    omega
  · rw [ref_injective href]
    exact ⟨hq', hv'⟩

/-- When all references have been replaced by their images, the graph is the image of what it was. -/
theorem reachable_image (hlive : ∀ p, p ∈ live ↔ Reachable env roots mem p)
    (hoffsets : ∀ p ∈ live, offsets env mem' (φ p) = offsets env mem p)
    (hrefs : ∀ p ∈ live, ∀ k ∈ offsets env mem p, Image live φ (mem (p + k)) (mem' (φ p + k)))
    (hroots : ∀ s ∈ roots, Image live φ (mem s) (mem' s)) :
    Reachable env roots mem' x ↔ ∃ p ∈ live, φ p = x := by
  constructor
  · intro hx
    induction hx with
    | @root s x hs href =>
      have himage := hroots s hs
      rw [href] at himage
      exact himage.of_ref
    | @slot x k y _ hk href ih =>
      obtain ⟨p, hp, rfl⟩ := ih
      have hk' : k ∈ offsets env mem p := hoffsets p hp ▸ hk
      have himage := hrefs p hp k hk'
      rw [href] at himage
      exact himage.of_ref
  · rintro ⟨p, hp, rfl⟩
    have hreach := (hlive p).mp hp
    clear hp
    induction hreach with
    | @root s p hs href =>
      have himage := hroots s hs
      rw [href] at himage
      exact .root hs himage.eq_ref.2
    | @slot p k q hp hk href ih =>
      have hp' := (hlive p).mpr hp
      have himage := hrefs p hp' k hk
      rw [href] at himage
      have hk' : k ∈ offsets env mem' (φ p) := (hoffsets p hp').symm ▸ hk
      exact .slot ih hk' himage.eq_ref.2

end Images

/-! ## The collection -/

namespace Scan

variable {env : Env} {roots objs : List Nat} {g₀ g : Gc} {cs pend : List Nat} {φ : Nat → Nat}

/-- Before anything has been moved, the queue holds the root slots. -/
theorem start (h₀ : Populated env roots g₀ objs) : Scan env roots g₀ g₀ [] id roots where
  rest := rfl
  nodup := List.nodup_nil
  reach := by simp
  tiled := h₀.empty2.symm
  old := by simp
  forward := by simp
  words := by simp
  pendNodup := h₀.nodup
  pendSlot := fun w hw => ⟨_, .root hw⟩
  todo := by
    intro w v hw _
    cases hw with
    | root hs => rfl
    | copy hp hk => cases hp
  done := by
    intro w v hw hpend
    cases hw with
    | root hs => exact absurd hs hpend
    | copy hp hk => cases hp

/-- When the queue is empty, everything that is reachable has been copied. -/
theorem mem_iff_reachable (h : Scan env roots g₀ g cs φ []) {p : Nat} :
    p ∈ cs ↔ Reachable env roots g₀.mem p := by
  have htarget : ∀ {w q}, IsSlot env roots g₀.mem cs φ w (ref q) → q ∈ cs := fun hw =>
    (h.done _ _ hw List.not_mem_nil).eq_ref.1
  constructor
  · exact h.reach p
  · intro hp
    induction hp with
    | @root s p hs href =>
      have hslot : IsSlot env roots g₀.mem cs φ s (g₀.mem s) := .root hs
      rw [href] at hslot
      exact htarget hslot
    | @slot p k q _ hk href ih =>
      have hslot : IsSlot env roots g₀.mem cs φ (φ p + k) (g₀.mem (p + k)) := .copy ih hk
      rw [href] at hslot
      exact htarget hslot

theorem recognisable (h₀ : Populated env roots g₀ objs) (h : Scan env roots g₀ g cs φ pend) {p : Nat}
    (hp : p ∈ objs) : Recognisable env g₀.mem g p := by
  have hobj := h₀.isObject p hp
  have hsize : 4 ≤ objSize env g₀.mem p := four_le_objSize hobj
  have hbounds := h₀.bounds hp
  refine ⟨hobj, ?_, fun k hpos hk => ?_⟩
  · unfold walkFlags
    simp only [Gc.getObjFlags, Nat.add_sub_cancel]
    by_cases hcopied : p ∈ cs
    · right
      have hcopy := h.tiled.mem_bounds hcopied
      have htop := top_le h₀ h
      have hborder := live_le_border2 h₀
      have hhigh := h₀.high
      have hsmall : ref (φ p) + 1 < 2 ^ 32 := by
        unfold ref
        omega
      have hflags : g.mem (φ p) = g₀.mem p := h.words p hcopied 0 (by omega) fun hmem => by
        have := (offset_bounds hobj hmem).1
        omega
      rw [h.forward p hcopied, isForward_forward, forwardPtr_forward hsmall, ref_div_four,
        Nat.add_sub_cancel, hflags, if_pos rfl]
    · left
      have hflags : g.mem p = g₀.mem p := h.old p (by omega) (by omega) hcopied
      rw [hflags, hobj.not_forward]
      rfl
  · refine h.old _ (by omega) (by omega) fun hmem => ?_
    have := h₀.eq_of_inside hp (mem_objs h₀ h hmem) hk rfl
    omega

/-- The heap at the end of the scan, seen after the semispaces have been swapped. -/
theorem isomorphic (h₀ : Populated env roots g₀ objs) (h : Scan env roots g₀ g cs φ [])
    (d : List (Nat × Nat)) :
    Isomorphic env roots g₀ (swap { g with decRefcount := d }) cs φ := by
  have hlayout := fun p (hp : p ∈ cs) => copy_layout h₀ h hp
  have hroot : ∀ s ∈ roots, Image cs φ (g₀.mem s) (g.mem s) := fun s hs =>
    h.done s _ (.root hs) List.not_mem_nil
  have hslot : ∀ p ∈ cs, ∀ k ∈ offsets env g₀.mem p,
      Image cs φ (g₀.mem (p + k)) (g.mem (φ p + k)) := fun p hp k hk =>
    h.done _ _ (.copy hp hk) List.not_mem_nil
  refine
    { swapped := ?_, live_iff := fun p => mem_iff_reachable h, nodup := h.nodup, tiled := ?_,
      fits := ?_, layout := hlayout, words := h.words, refs := hslot, rootRefs := hroot,
      reachable_iff := fun x => ?_ }
  · rw [h.rest]
    exact ⟨rfl, rfl, rfl, rfl, rfl⟩
  · have hheap : (swap { g with decRefcount := d }).heap = g₀.heap2 := by
      rw [h.rest]
      rfl
    rw [hheap]
    exact h.tiled
  · have htop := top_le h₀ h
    have hborder := live_le_border2 h₀
    have hborder2 : (swap { g with decRefcount := d }).heapBorder = g₀.heapBorder2 := by
      rw [h.rest]
      rfl
    rw [hborder2]
    exact Nat.le_trans htop hborder
  · exact reachable_image (fun p => mem_iff_reachable h) (fun p hp => (hlayout p hp).2.2) hslot hroot

end Scan

/-- Whatever the graph looks like, a collection terminates and leaves it as it was, provided that
the words behind the last copy are not in use. -/
theorem collects_of_roomy {env : Env} {roots : List Nat} {g : Gc} {objs : List Nat}
    (h : Populated env roots g objs) (hroomy : Roomy env roots g objs) : Collects env roots g := by
  -- the root slots
  have hstart : Scan env roots g g [] id (roots ++ []) := by
    rw [List.append_nil]
    exact Scan.start h
  have hbfs : Bfs env roots g.mem ((roots ++ []).map g.mem) [] := by
    rw [List.append_nil]
    exact .start
  obtain ⟨g₁, cs₁, φ₁, hroots, -, hscan₁, hbfs₁⟩ := Scan.foldlM_moves h hroomy hstart hbfs
  -- the second semispace
  have hstart₁ : Tiled φ₁ (objSize env g.mem) g.heap2 [] g₁.heap2 := by
    rw [hscan₁.rest]
    rfl
  obtain ⟨g₂, cs, φ, hwalk, hscan⟩ := Scan.walkHeap2_spec h hroomy hscan₁ hbfs₁ hstart₁
    (show objs.length < objs.length + 1 + 0 by omega)
  -- the finalizers
  have hold : ∀ handlers, Quiet handlers → ∀ d, ∃ d',
      walkHeap env handlers (objs.length + 1) { g₂ with decRefcount := d } =
        pure { g₂ with decRefcount := d' } := by
    intro handlers hquiet d
    have htiled : Tiled id (objSize env g.mem) g₂.heap objs g₂.heapTop := by
      rw [hscan.rest]
      exact h.tiled
    refine walkHeap_old hquiet (g := { g₂ with decRefcount := d }) htiled (fun p hp => ?_) (by omega)
    have hp' := Scan.recognisable h hscan hp
    exact ⟨hp'.isObject, hp'.flags, hp'.words⟩
  obtain ⟨d, hmemory⟩ : ∃ d, finalizeMemory env (objs.length + 1) g₂ =
      pure { g₂ with decRefcount := d } :=
    hold _ ⟨skip_eq, skip_eq, skip_eq⟩ g₂.decRefcount
  obtain ⟨d', hportals⟩ : ∃ d', finalizePortals env (objs.length + 1)
      { g₂ with decRefcount := d } = pure { g₂ with decRefcount := d' } :=
    hold _ ⟨skip_eq, skip_eq, finalizePortalsCB_eq env⟩ d
  refine ⟨swap { g₂ with decRefcount := d' }, ⟨objs.length + 1, fun fuel hfuel => ?_⟩, cs, φ,
    hscan.isomorphic h d'⟩
  have hwalk' : walkHeap2 env (scanHeap2 env) fuel g₁ = pure g₂ := walkContinuesBlock_mono hwalk hfuel
  have hmemory' : finalizeMemory env fuel g₂ = pure { g₂ with decRefcount := d } :=
    walkContinuesBlock_mono hmemory hfuel
  have hportals' : finalizePortals env fuel { g₂ with decRefcount := d } =
      pure { g₂ with decRefcount := d' } := walkContinuesBlock_mono hportals hfuel
  simp only [gcNewGc, hroots, hwalk', hmemory', hportals', pure_bind]

/-! ### A ring

Two objects that refer to each other, and an array that holds one of them. -/

/-- Every class has one field, and it is a reference; every array class is `[LRing;`. -/
def ringEnv : Env where
  classDesc _ := ⟨1, [1]⟩
  arrayName _ := ['[', 'L', 'R', 'i', 'n', 'g', ';']
  domainId _ := 0
  domain := 0
  otherSize _ := 0
  otherMove _ _ _ := throw (.panic "")
  otherScan _ _ _ := throw (.panic "")
  otherFinalize _ _ _ _ := throw (.panic "")

/-- The memory given by a list of addresses and words. -/
def memOf (l : List (Nat × Nat)) (w : Nat) : Nat := (l.lookup w).getD 0

/-- The ring is at `0x40000` and `0x40005`, the array at `0x4000a`, the root slot at `0x30000`. -/
def ringHeap : Gc where
  mem := memOf
    [(0x40000, 0x02), (0x40001, magicObject), (0x40002, 0x80000), (0x40003, ref 0x40005),
      (0x40005, 0x02), (0x40006, magicObject), (0x40007, 0x80000), (0x40008, ref 0x40000),
      (0x4000a, 0x16), (0x4000b, magicObject), (0x4000c, 0x80100), (0x4000d, 0x80200),
      (0x4000e, 2), (0x4000f, ref 0x40005), (0x30000, ref 0x4000a)]
  heap := 0x40000
  heapTop := 0x40011
  heapBorder := 0x40b00
  heap2 := 0x40b00
  heapTop2 := 0x40b00
  heapBorder2 := 0x41600
  decRefcount := []

theorem ring_populated :
    Populated ringEnv [0x30000] ringHeap [0x40000, 0x40005, 0x4000a] where
  tiled := ⟨rfl, rfl, rfl, rfl⟩
  isObject := by
    simp only [List.forall_mem_cons, List.not_mem_nil, false_implies, implies_true, and_true]
    exact ⟨⟨by decide, by decide, by decide⟩, ⟨by decide, by decide, by decide⟩,
      ⟨by decide, by decide, by decide⟩⟩
  refTo := by
    have hfirst : offsets ringEnv ringHeap.mem 0x40000 = [3] := by decide
    have hsecond : offsets ringEnv ringHeap.mem 0x40005 = [3] := by decide
    have harray : offsets ringEnv ringHeap.mem 0x4000a = [5, 6] := by decide
    simp only [List.forall_mem_cons, List.not_mem_nil, false_implies, implies_true, and_true, hfirst,
      hsecond, harray]
    exact ⟨.inr ⟨0x40005, by decide, rfl⟩, .inr ⟨0x40000, by decide, rfl⟩,
      .inr ⟨0x40005, by decide, rfl⟩, .inl rfl⟩
  rootTo := by
    simp only [List.forall_mem_cons, List.not_mem_nil, false_implies, implies_true, and_true]
    exact .inr ⟨0x4000a, by decide, rfl⟩
  nodup := by decide
  outside := by decide
  top_le := by decide
  border2 := by decide
  empty2 := rfl
  apart := by decide
  low := by decide
  high := by decide

theorem ring_collects : Collects ringEnv [0x30000] ringHeap :=
  collects_of_roomy ring_populated (.of_slack ring_populated (by decide))

/-! ### A heap that is full

Two objects without fields and an array of integers fill a heap of 11 blocks, and the second
semispace lies directly below it. The copy of the last object overwrites the flags word of the first
one, which held its forward pointer, and the root slot that comes next is not understood. -/

def fullEnv : Env where
  classDesc _ := ⟨0, []⟩
  arrayName _ := ['[', 'I']
  domainId _ := 0
  domain := 0
  otherSize _ := 0
  otherMove _ _ _ := throw (.panic "")
  otherScan _ _ _ := throw (.panic "")
  otherFinalize _ _ _ _ := throw (.panic "")

def fullRoots : List Nat := [0x30000, 0x30001, 0x30002, 0x30003]

/-- The objects are at `0x40b00` and `0x415fc`, the array of 2803 elements at `0x40b04`. -/
def fullHeap : Gc where
  mem := memOf
    [(0x40b00, 0x02), (0x40b01, magicObject), (0x40b02, 0x80000),
      (0x40b04, 0x16), (0x40b05, magicObject), (0x40b06, 0x80100), (0x40b07, 0x80200),
      (0x40b08, 2803),
      (0x415fc, 0x02), (0x415fd, magicObject), (0x415fe, 0x80000),
      (0x30000, ref 0x40b00), (0x30001, ref 0x40b04), (0x30002, ref 0x415fc),
      (0x30003, ref 0x40b00)]
  heap := 0x40b00
  heapTop := 0x41600
  heapBorder := 0x41600
  heap2 := 0x40000
  heapTop2 := 0x40000
  heapBorder2 := 0x40b00
  decRefcount := []

theorem full_populated : Populated fullEnv fullRoots fullHeap [0x40b00, 0x40b04, 0x415fc] where
  tiled := ⟨rfl, rfl, rfl, rfl⟩
  isObject := by
    simp only [List.forall_mem_cons, List.not_mem_nil, false_implies, implies_true, and_true]
    exact ⟨⟨by decide, by decide, by decide⟩, ⟨by decide, by decide, by decide⟩,
      ⟨by decide, by decide, by decide⟩⟩
  refTo := by
    have hfirst : offsets fullEnv fullHeap.mem 0x40b00 = [] := by decide
    have harray : offsets fullEnv fullHeap.mem 0x40b04 = [] := by decide
    have hlast : offsets fullEnv fullHeap.mem 0x415fc = [] := by decide
    simp only [List.forall_mem_cons, List.not_mem_nil, false_implies, implies_true, and_true, hfirst,
      harray, hlast]
  rootTo := by
    simp only [fullRoots, List.forall_mem_cons, List.not_mem_nil, false_implies, implies_true,
      and_true]
    exact ⟨.inr ⟨0x40b00, by decide, rfl⟩, .inr ⟨0x40b04, by decide, rfl⟩,
      .inr ⟨0x415fc, by decide, rfl⟩, .inr ⟨0x40b00, by decide, rfl⟩⟩
  nodup := by decide
  outside := by decide
  top_le := by decide
  border2 := by decide
  empty2 := rfl
  apart := by decide
  low := by decide
  high := by decide

theorem not_collects_full : Populated fullEnv fullRoots fullHeap [0x40b00, 0x40b04, 0x415fc] ∧
    ¬ Collects fullEnv fullRoots fullHeap := by
  refine ⟨full_populated, ?_⟩
  rintro ⟨g', ⟨n, hn⟩, -⟩
  have hroots : fullRoots.foldlM (moveReference fullEnv) fullHeap =
      throw (.panic "UNKNOWN OBJECT TYPE") := rfl
  have hrun := hn n (le_refl n)
  unfold gcNewGc at hrun
  rw [hroots] at hrun
  cases hrun

end JxCore.GcNew
