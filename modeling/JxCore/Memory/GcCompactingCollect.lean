import JxCore.Memory.GcCompactingSlide

/-!
# A whole collection of the compacting collector

`gc_compacting_gc` is the two phases one after the other. What the first promises about the marks is
what the second asks for, and what comes out is again a heap that can be collected: the objects that
could be reached, in their order and without gaps, and the same graph between them.

Nothing else is left, so that all of the objects can still be reached, and a second collection would
not find anything to do.
-/

namespace JxCore.GcCompacting

open Exec GcNew HeapWalk BoundedMark

/-! ## What a collection does -/

/-- The size that the walk works out for the object at `p`. -/
def sizeAt (env : Env) (mem : Nat → Nat) (p : Nat) : Nat := (sizeOf env mem p).getD 0

/-- Where the references of the object at `p` are, counted from its flags. -/
def offsets (env : Env) (mem : Nat → Nat) (p : Nat) : List Nat :=
  (slots env mem (p + 2)).map fun a => a.addr - p

/-- An object, an array or a portal. -/
def Plain (mem : Nat → Nat) (p : Nat) : Prop :=
  Kind.ofFlags (mem p) = some .object ∨ Kind.ofFlags (mem p) = some .array ∨
    Kind.ofFlags (mem p) = some .portal

/-- The words that decide what an object is, the magic among them: of an array the class and the
length, too. -/
def headerWords (mem : Nat → Nat) (p : Nat) : Nat :=
  if Kind.ofFlags (mem p) = some .array then 5 else 3

/-- A heap of objects, arrays and portals, and the words outside of it that refer to them. -/
structure Collectable (env : Env) (s : State) (objs roots : List Nat) : Prop where
  heapOf : HeapOf env s objs (sizeAt env s.mem)
  plain : ∀ p ∈ objs, Plain s.mem p
  magic : ∀ p ∈ objs, s.mem (p + 1) = magicObject
  border : s.heapTop ≤ s.heapBorder
  roots_outside : ∀ a ∈ roots, ¬ (s.heap ≤ a ∧ a < s.heapBorder)
  roots_ok : ∀ a ∈ roots, RefOk s objs (s.mem a)
  /-- Each root slot is visited once. -/
  roots_nodup : roots.Nodup

/-- What becomes of a reference when the object at `p` goes to `φ p`. -/
def redirect (s : State) (φ : Nat → Nat) (v : Nat) : Nat :=
  (objAt s v).elim v fun q => ref (φ q)

/-- The objects `l` are those that could be reached, in their order. They have gone to where `φ` says,
one behind the other, and refer to each other as before. -/
structure Collected (env : Env) (s s' : State) (objs roots l : List Nat) (φ : Nat → Nat) : Prop where
  sublist : l.Sublist objs
  survivors : ∀ p, p ∈ l ↔ Reachable env s roots p
  heap : s'.heap = s.heap
  heapBorder : s'.heapBorder = s.heapBorder
  packed : Tiled φ (sizeAt env s.mem) s.heap l s'.heapTop
  kind : ∀ p ∈ l, Kind.ofFlags (s'.mem (φ p)) = Kind.ofFlags (s.mem p)
  size : ∀ p ∈ l, sizeAt env s'.mem (φ p) = sizeAt env s.mem p
  offsets : ∀ p ∈ l, offsets env s'.mem (φ p) = offsets env s.mem p
  words : ∀ p ∈ l, ∀ k, 0 < k → k < sizeAt env s.mem p → k ∉ GcCompacting.offsets env s.mem p →
    s'.mem (φ p + k) = s.mem (p + k)
  refs : ∀ p ∈ l, ∀ k ∈ GcCompacting.offsets env s.mem p,
    s'.mem (φ p + k) = redirect s φ (s.mem (p + k))
  rootRefs : ∀ a ∈ roots, s'.mem a = redirect s φ (s.mem a)

/-! ## Objects, arrays and portals -/

section Plain

variable {env : Env} {s : State} {objs roots : List Nat} {mem mem' : Nat → Nat} {p q k : Nat}

theorem Plain.congr (h : Plain mem p) (hkind : Kind.ofFlags (mem' q) = Kind.ofFlags (mem p)) :
    Plain mem' q := by
  unfold Plain at *
  rwa [hkind]

theorem Plain.sizeOf (h : Plain mem p) : sizeOf env mem p = some (sizeAt env mem p) := by
  unfold sizeAt GcCompacting.sizeOf
  rcases h with hkind | hkind | hkind <;> rw [hkind] <;> rfl

theorem Plain.walkable (h : Plain mem p) : Walkable env mem p := by
  unfold Walkable
  rw [h.sizeOf]
  rfl

theorem three_le_headerWords (mem : Nat → Nat) (p : Nat) : 3 ≤ headerWords mem p := by
  unfold headerWords
  split <;> decide

theorem Plain.headerWords_le (env : Env) (h : Plain mem p) : headerWords mem p ≤ sizeAt env mem p := by
  unfold sizeAt GcCompacting.sizeOf headerWords
  rcases h with hkind | hkind | hkind <;> rw [hkind]
  · exact Nat.le_trans (by decide) (Nat.le_add_left 4 _)
  · exact Nat.le_add_left 5 _
  · change 3 ≤ objsizePortal
    decide

theorem Plain.four_le (env : Env) (h : Plain mem p) : 4 ≤ sizeAt env mem p := by
  unfold sizeAt GcCompacting.sizeOf
  rcases h with hkind | hkind | hkind <;> rw [hkind]
  · exact Nat.le_add_left 4 _
  · exact Nat.le_trans (by decide) (Nat.le_add_left 5 _)
  · change 4 ≤ objsizePortal
    decide

/-- The slots of these kinds are references, and their places count from the start. -/
theorem Plain.slots (h : Plain mem p) :
    slots env mem (p + 2) = (offsets env mem p).map fun k => .ref (p + k) := by
  unfold offsets
  rw [List.map_map]
  conv_lhs => rw [← List.map_id (GcCompacting.slots env mem (p + 2))]
  refine List.map_congr_left fun a ha => ?_
  have hbounds := slot_bounds h.sizeOf ha
  have href : a = .ref a.addr := by
    unfold GcCompacting.slots at ha
    rw [Nat.add_sub_cancel] at ha
    rcases h with hkind | hkind | hkind <;> rw [hkind] at ha
    · obtain ⟨i, -, rfl⟩ := List.mem_map.mp ha
      rfl
    · simp only at ha
      split at ha
      · obtain ⟨i, -, rfl⟩ := List.mem_map.mp ha
        rfl
      · cases ha
    · cases ha
  simp only [Function.comp, id]
  rw [Nat.add_sub_cancel' (by omega), ← href]

theorem Plain.mem_offsets (h : Plain mem p) :
    k ∈ offsets env mem p ↔ Slot.ref (p + k) ∈ GcCompacting.slots env mem (p + 2) := by
  rw [h.slots]
  simp

theorem Plain.offset_bounds (h : Plain mem p) (hk : k ∈ offsets env mem p) :
    headerWords mem p ≤ k ∧ k < sizeAt env mem p := by
  have hslot := h.mem_offsets.mp hk
  have hbounds := slot_bounds h.sizeOf hslot
  simp only [Slot.addr] at hbounds
  refine ⟨?_, by omega⟩
  unfold headerWords
  split
  · next harray =>
    unfold GcCompacting.slots at hslot
    rw [Nat.add_sub_cancel, harray] at hslot
    simp only at hslot
    split at hslot
    · obtain ⟨i, -, hi⟩ := List.mem_map.mp hslot
      simp only [Slot.ref.injEq] at hi
      omega
    · cases hslot
  · omega

/-- The same kind and the same header, perhaps somewhere else. -/
theorem Plain.moved (env : Env) (h : Plain mem p)
    (hkind : Kind.ofFlags (mem' q) = Kind.ofFlags (mem p))
    (hwords : ∀ k, 0 < k → k < headerWords mem p → mem' (q + k) = mem (p + k)) :
    sizeAt env mem' q = sizeAt env mem p ∧ offsets env mem' q = offsets env mem p := by
  suffices hsame : sizeAt env mem' q = sizeAt env mem p ∧
      GcCompacting.slots env mem' (q + 2) =
        (GcCompacting.slots env mem (p + 2)).map fun a => .ref (q + (a.addr - p)) by
    refine ⟨hsame.1, ?_⟩
    rw [offsets, hsame.2, List.map_map]
    refine List.map_congr_left fun a _ => ?_
    simp only [Function.comp, Slot.addr]
    omega
  unfold headerWords at hwords
  unfold sizeAt GcCompacting.sizeOf GcCompacting.slots
  simp only [Nat.add_sub_cancel, Nat.add_assoc, Nat.reduceAdd, hkind]
  rcases h with hp | hp | hp <;> rw [hp] at hwords ⊢
  · have hvtable := hwords 2 (by decide) (by decide)
    simp only [hvtable, true_and, List.map_map]
    refine List.map_congr_left fun i _ => ?_
    simp only [Function.comp, Slot.addr, Slot.ref.injEq]
    omega
  · have hclass := hwords 3 (by decide) (by decide)
    have hlength := hwords 4 (by decide) (by decide)
    simp only [hclass, hlength, true_and]
    split
    · rw [List.map_map]
      refine List.map_congr_left fun i _ => ?_
      simp only [Function.comp, Slot.addr, Slot.ref.injEq]
      omega
    · rfl
  · exact ⟨rfl, rfl⟩

end Plain

/-! ## Marking -/

section Mark

variable {env : Env} {s t : State} {objs roots : List Nat} {p : Nat}

theorem Collectable.rootsOk (h : Collectable env s objs roots) : RootsOk s objs roots := by
  refine ⟨fun a ha hmem => ?_, h.roots_ok⟩
  have hbounds := h.heapOf.tiled.mem_bounds hmem
  have hborder := h.border
  have hpos := h.heapOf.pos a hmem
  exact h.roots_outside a ha (by simp only [id] at hbounds; omega)

/-- The state after the first half: the heap as it was, with a mark on each object that can be
reached. -/
structure Marked (env : Env) (s t : State) (objs roots : List Nat) : Prop where
  same : SameHeap objs s t
  heapBorder : t.heapBorder = s.heapBorder
  marks : ∀ p ∈ objs, isMarked (t.mem p) = true ↔ Reachable env s roots p

theorem Collectable.marks (h : Collectable env s objs roots) :
    ∃ t, Returns (fun fuel => markPhase env roots fuel s) t ∧ Marked env s t objs roots := by
  have hwalk : ∀ p ∈ objs, Walkable env s.mem p := fun p hp => (h.plain p hp).walkable
  have hsame : SameHeap objs s (s.cleared objs) := sameHeap_cleared fun _ hp => hp
  have hc := h.heapOf.cleared hwalk
  have hroots := h.rootsOk.same hsame
  have hstart : s.cleared objs = (s.cleared objs).marked ⟨∅, s.abort⟩ s.depth := by
    simp only [State.marked, State.cleared]
    congr 1
  obtain ⟨hrootSet, hinside⟩ := hc.walkRootSet_eq hroots (m := ⟨∅, s.abort⟩) (by simp) s.depth
  rw [← hstart] at hrootSet
  obtain ⟨m, hpasses, hreach⟩ := exists_passes (d := 10) hc.heapOf.closed_succ hinside
  have hm : ∀ y ∈ m.marked, y ∈ objs := fun y hy => by
    rw [hreach] at hy
    obtain ⟨r, hr, hpath⟩ := hy
    induction hpath with
    | refl => exact hinside r hr
    | tail _ hstep ih => exact hc.heapOf.closed_succ _ ih _ hstep
  have hmarked := sameHeap_marked (s := s.cleared objs) (d := lastDepth objs s.depth) hm
  refine ⟨(s.cleared objs).marked m (lastDepth objs s.depth),
    ⟨max 11 objs.length + 1, fun fuel hfuel => ?_⟩, ?_, rfl, fun p hp => ?_⟩
  · have h11 := Nat.le_max_left 11 objs.length
    have hlen := Nat.le_max_right 11 objs.length
    obtain ⟨n, rfl⟩ := Nat.exists_eq_add_of_le (show objs.length + 1 ≤ fuel by omega)
    have hclear := h.heapOf.walk_clear (r := []) (by simp) hwalk h.heapOf.tiled (Nat.le_refl _) (n + 1)
    rw [walkContinuesBlockAlt, if_neg (Nat.lt_irrefl _)] at hclear
    simp only [markPhase, walkHeap]
    rw [show objs.length + 1 + n = objs.length + (n + 1) by omega] at hfuel ⊢
    rw [hclear, pure_bind, hrootSet, pure_bind]
    exact hc.markLoop_eq (by omega) (by omega) _ s.depth hinside (hpasses _ (by omega))
  · exact ⟨rfl, rfl, fun w hw => (hmarked.word w hw).trans (hsame.word w hw),
      fun p hp => (hmarked.kind p hp).trans (hsame.kind p hp)⟩
  · have hmark : isMarked (((s.cleared objs).marked m (lastDepth objs s.depth)).mem p) =
        decide (p ∈ m.marked) := hc.isMarked_paint hp _
    have hsame' : Reachable env (s.cleared objs) roots p ↔ Reachable env s roots p :=
      ⟨Reachable.same hc.heapOf hc.walkable hroots hsame.symm,
        Reachable.same h.heapOf hwalk h.rootsOk hsame⟩
    rw [hmark, decide_eq_true_eq, hreach, ← hsame', reachable_iff]
    simp [mem_foldl_markRoot, target]

/-- The marks are what the second half asks for. -/
theorem Collectable.markedHeap (h : Collectable env s objs roots) (ht : Marked env s t objs roots) :
    MarkedHeap env t objs (sizeAt env s.mem) roots := by
  have hwalk : ∀ p ∈ objs, Walkable env s.mem p := fun p hp => (h.plain p hp).walkable
  have hheap := (h.heapOf.same hwalk ht.same).1
  have hslots : ∀ p ∈ objs, slots env t.mem (p + 2) = slots env s.mem (p + 2) := fun p hp =>
    (ht.same.layout h.heapOf hp (h.plain p hp).sizeOf).2
  have hroot := h.rootsOk.same ht.same
  have hword : ∀ a ∈ roots, t.mem a = s.mem a := fun a ha => ht.same.word a (h.rootsOk.not_mem a ha)
  refine ⟨hheap, fun p hp => (h.plain p hp).congr (ht.same.kind p hp), fun p hp => ?_,
    fun p hp hmark a ha q hq => ?_, ?_, fun a ha => ?_, hroot.refs, fun a ha q hq => ?_,
    h.roots_nodup⟩
  · have hfour := (h.plain p hp).four_le env
    rw [ht.same.word _ (h.heapOf.inside_not_mem hp (k := 1) (by omega) (by omega))]
    exact h.magic p hp
  · rw [hslots p hp] at ha
    rw [ht.same.target (h.heapOf.slot_not_mem hp (hwalk p hp) ha)] at hq
    have hreach := Reachable.slot ((ht.marks p hp).mp hmark) ha hq
    exact (ht.marks q (hreach.mem h.heapOf h.rootsOk)).mpr hreach
  · rw [ht.same.heapTop, ht.heapBorder]
    exact h.border
  · rw [ht.same.heap, ht.heapBorder]
    exact h.roots_outside a ha
  · rw [ht.same.objAt, hword a ha] at hq
    have hreach : Reachable env s roots q := .root ha hq
    exact (ht.marks q (hreach.mem h.heapOf h.rootsOk)).mpr hreach

end Mark

/-! ## Sliding -/

section Slide

variable {env : Env} {s s' t : State} {objs roots l : List Nat} {size φ : Nat → Nat} {p q v : Nat}

theorem MarkedHeap.slidePhase_border (h : MarkedHeap env s objs size roots)
    (hs : Returns (fun fuel => slidePhase env roots fuel s) s') : s'.heapBorder = s.heapBorder := by
  obtain ⟨t, hwalk, hm⟩ := h.walk_move
  obtain ⟨n, hn⟩ := hs
  have hfuel : objs.length < max n (objs.length + 1) := Nat.le_max_right _ _
  obtain ⟨s₂, hroots, hrest⟩ := bind_eq_pure (h.adjust_all _ hfuel)
  have hrun := hn _ (Nat.le_max_left n (objs.length + 1))
  simp only [slidePhase, h.walk_calcAddr _ hfuel, pure_bind, hroots, hrest, hwalk _ hfuel] at hrun
  rw [← eq_of_pure_eq hrun]
  exact hm.heapBorder

theorem Marked.relocate_eq (ht : Marked env s t objs roots) (v : Nat) :
    relocate t objs size v = redirect s (newAddr t objs size) v := by
  rw [relocate, redirect, ht.same.objAt]

/-- What sliding does to the marked heap, in terms of the heap before the marks. -/
theorem Collectable.collected_of_slid (h : Collectable env s objs roots)
    (ht : Marked env s t objs roots) (hslid : Slid env t s' objs (sizeAt env s.mem) roots)
    (hborder : s'.heapBorder = t.heapBorder) :
    Collected env s s' objs roots (live t objs) (newAddr t objs (sizeAt env s.mem)) := by
  have hsub : (live t objs).Sublist objs := List.filter_sublist
  have hword : ∀ p ∈ objs, ∀ k, 0 < k → k < sizeAt env s.mem p → t.mem (p + k) = s.mem (p + k) :=
    fun p hp k hk hlt => ht.same.word _ (h.heapOf.inside_not_mem hp hk hlt)
  have hslots : ∀ p ∈ objs, slots env t.mem (p + 2) = slots env s.mem (p + 2) := fun p hp =>
    (ht.same.layout h.heapOf hp (h.plain p hp).sizeOf).2
  have hkind : ∀ p ∈ live t objs, Kind.ofFlags (s'.mem (newAddr t objs (sizeAt env s.mem) p)) =
      Kind.ofFlags (s.mem p) := fun p hp => by
    have hobj := hsub.subset hp
    have hfour := (h.plain p hobj).four_le env
    have hflags := hslid.words p hp 0 (by omega)
    rw [hslots p hobj, if_neg fun hmem => ?_] at hflags
    · exact (congrArg Kind.ofFlags hflags).trans (ht.same.kind p hobj)
    · have hbounds := slot_bounds (h.plain p hobj).sizeOf hmem
      simp only [Slot.addr] at hbounds
      omega
  have hwords : ∀ p ∈ live t objs, ∀ k, 0 < k → k < sizeAt env s.mem p →
      k ∉ offsets env s.mem p →
      s'.mem (newAddr t objs (sizeAt env s.mem) p + k) = s.mem (p + k) := fun p hp k hk hlt hno => by
    have hobj := hsub.subset hp
    rw [hslid.words p hp k hlt, hslots p hobj,
      if_neg fun hmem => hno ((h.plain p hobj).mem_offsets.mpr hmem), hword p hobj k hk hlt]
  have hlayout : ∀ p ∈ live t objs,
      sizeAt env s'.mem (newAddr t objs (sizeAt env s.mem) p) = sizeAt env s.mem p ∧
        offsets env s'.mem (newAddr t objs (sizeAt env s.mem) p) = offsets env s.mem p :=
    fun p hp => by
    have hplain := h.plain p (hsub.subset hp)
    refine hplain.moved env (hkind p hp) fun k hk hlt => ?_
    have hsize := hplain.headerWords_le env
    exact hwords p hp k hk (by omega) fun hmem => by
      have := hplain.offset_bounds hmem
      omega
  refine
    { sublist := hsub, survivors := fun p => ?_, heap := hslid.heap.trans ht.same.heap,
      heapBorder := hborder.trans ht.heapBorder, packed := ?_, kind := hkind,
      size := fun p hp => (hlayout p hp).1, offsets := fun p hp => (hlayout p hp).2,
      words := hwords, refs := fun p hp k hk => ?_, rootRefs := fun a ha => ?_ }
  · rw [mem_live]
    constructor
    · rintro ⟨hobj, hmark⟩
      exact (ht.marks p hobj).mp hmark
    · intro hreach
      have hobj := hreach.mem h.heapOf h.rootsOk
      exact ⟨hobj, (ht.marks p hobj).mpr hreach⟩
  · rw [← ht.same.heap]
    exact hslid.tiled
  · have hobj := hsub.subset hp
    have hbounds := (h.plain p hobj).offset_bounds hk
    have hthree := three_le_headerWords s.mem p
    rw [hslid.words p hp k hbounds.2, hslots p hobj, if_pos ((h.plain p hobj).mem_offsets.mp hk),
      ht.relocate_eq, hword p hobj k (by omega) hbounds.2]
  · rw [hslid.roots a ha, ht.relocate_eq, ht.same.word a (h.rootsOk.not_mem a ha)]

/-! ## The heap afterwards -/

theorem Collected.heapTop_le (hc : Collected env s s' objs roots l φ)
    (h : Collectable env s objs roots) : s'.heapTop ≤ s.heapTop := by
  rw [hc.packed.top_eq, h.heapOf.tiled.top_eq]
  exact Nat.add_le_add_left ((hc.sublist.map _).sum_le_sum fun _ _ => Nat.zero_le _) _

/-- A reference to an object leads to the same object afterwards. -/
theorem Collected.objAt_ref (hc : Collected env s s' objs roots l φ)
    (h : Collectable env s objs roots) (hq : q ∈ l) : objAt s' (ref (φ q)) = some (φ q) := by
  have hbounds := hc.packed.mem_bounds hq
  have hfour := (h.plain q (hc.sublist.subset hq)).four_le env
  have hin : ref (φ q) ≠ 0 ∧ s'.isInHeap (ref (φ q)) := by
    unfold State.isInHeap ref
    rw [hc.heap]
    omega
  rw [objAt, if_pos hin, ref_div_four, Nat.add_sub_cancel]

theorem Collected.refOk (hc : Collected env s s' objs roots l φ) (h : Collectable env s objs roots)
    (hv : RefOk s objs v) (hlive : ∀ q, objAt s v = some q → q ∈ l) :
    RefOk s' (l.map φ) (redirect s φ v) := by
  have htop := hc.heapTop_le h
  rcases hv.cases with ⟨hnone, hout⟩ | ⟨q, -, -, -, -, hobj⟩
  · have hsame : redirect s φ v = v := by
      rw [redirect, hnone]
      rfl
    rw [hsame]
    refine hout.imp_right fun hout => .inl fun hin => hout ?_
    unfold State.isInHeap at hin ⊢
    rw [hc.heap] at hin
    omega
  · rw [redirect, hobj]
    exact .inr (.inr ⟨φ q, List.mem_map_of_mem (hlive q hobj), rfl⟩)

/-- The heap can be collected again. -/
theorem Collected.collectable (hc : Collected env s s' objs roots l φ)
    (h : Collectable env s objs roots) : Collectable env s' (l.map φ) roots := by
  have hobj : ∀ p ∈ l, p ∈ objs := fun p hp => hc.sublist.subset hp
  have hplain : ∀ p ∈ l, Plain s'.mem (φ p) := fun p hp => (h.plain p (hobj p hp)).congr (hc.kind p hp)
  have hfour : ∀ p ∈ l, 4 ≤ sizeAt env s.mem p := fun p hp => (h.plain p (hobj p hp)).four_le env
  have hfixed : ∀ p ∈ l, ∀ k, 0 < k → k ≤ 2 → s'.mem (φ p + k) = s.mem (p + k) :=
    fun p hp k hk hle => by
      have := hfour p hp
      refine hc.words p hp k hk (by omega) fun hmem => ?_
      have := (h.plain p (hobj p hp)).offset_bounds hmem
      have := three_le_headerWords s.mem p
      omega
  have htop := hc.heapTop_le h
  have hborder := h.border
  refine ⟨⟨?_, ?_, ?_, ?_, ?_, ?_⟩, ?_, ?_, ?_, ?_, fun a ha => ?_, h.roots_nodup⟩
  · rw [hc.heap]
    refine hc.packed.of_map_eq ?_
    rw [List.map_map]
    exact List.map_congr_left fun p hp => by simp only [Function.comp, id, hc.size p hp]
  · rw [List.forall_mem_map]
    intro p hp
    rw [hc.size p hp]
    exact Nat.le_of_succ_le (hfour p hp)
  · rw [List.forall_mem_map]
    intro p hp n hn
    rw [sizeAt, hn]
    rfl
  · rw [List.forall_mem_map]
    intro p hp hkind
    rw [hfixed p hp 2 (by omega) (Nat.le_refl 2)]
    exact h.heapOf.vtable p (hobj p hp) ((hc.kind p hp).symm.trans hkind)
  · rw [List.forall_mem_map]
    intro p hp a ha
    rw [(hplain p hp).slots, hc.offsets p hp] at ha
    obtain ⟨k, hk, rfl⟩ := List.mem_map.mp ha
    have hslot := (h.plain p (hobj p hp)).mem_offsets.mp hk
    rw [SlotOk, hc.refs p hp k hk]
    refine hc.refOk h (h.heapOf.slots p (hobj p hp) _ hslot) fun q hq => ?_
    exact (hc.survivors q).mpr (.slot ((hc.survivors p).mp hp) hslot hq)
  · rw [List.forall_mem_map]
    intro p hp
    rw [hc.kind p hp]
    exact h.heapOf.no_pool p (hobj p hp)
  · rw [List.forall_mem_map]
    exact hplain
  · rw [List.forall_mem_map]
    intro p hp
    rw [hfixed p hp 1 (by omega) (by omega)]
    exact h.magic p (hobj p hp)
  · rw [hc.heapBorder]
    omega
  · rw [hc.heap, hc.heapBorder]
    exact h.roots_outside
  · rw [hc.rootRefs a ha]
    refine hc.refOk h (h.roots_ok a ha) fun q hq => ?_
    exact (hc.survivors q).mpr (.root ha hq)

/-- Everything that is left can be reached. -/
theorem Collected.reachable (hc : Collected env s s' objs roots l φ)
    (h : Collectable env s objs roots) (hp : p ∈ l) : Reachable env s' roots (φ p) := by
  have hreach := (hc.survivors p).mp hp
  clear hp
  induction hreach with
  | @root a p ha hp =>
    have hmem := (hc.survivors p).mpr (.root ha hp)
    refine .root ha ?_
    rw [hc.rootRefs a ha, redirect, hp]
    exact hc.objAt_ref h hmem
  | @slot p q a hp ha hq ih =>
    have hmem := (hc.survivors p).mpr hp
    have hplain := h.plain p (hc.sublist.subset hmem)
    have hmem' := (hc.survivors q).mpr (.slot hp ha hq)
    rw [hplain.slots] at ha
    obtain ⟨k, hk, rfl⟩ := List.mem_map.mp ha
    refine .slot ih (a := .ref (φ p + k)) ?_ ?_
    · rw [(hplain.congr (hc.kind p hmem)).slots, hc.offsets p hmem]
      exact List.mem_map_of_mem hk
    · simp only [target] at hq ⊢
      rw [hc.refs p hmem k hk, redirect, hq]
      exact hc.objAt_ref h hmem'

/-- Both halves end. -/
theorem Collectable.collects (h : Collectable env s objs roots) :
    ∃ s' l φ, Returns (fun fuel => gcCompactingGc env roots fuel s) s' ∧
      Collected env s s' objs roots l φ := by
  obtain ⟨t, hmark, ht⟩ := h.marks
  have hmarked := h.markedHeap ht
  obtain ⟨s', hslide, hslid⟩ := slidePhase_slides hmarked
  exact ⟨s', _, _, hmark.bind hslide,
    h.collected_of_slid ht hslid (hmarked.slidePhase_border hslide)⟩

end Slide

/-- A collection ends, and it keeps what can be reached. The heap that it leaves can be collected
again, and nothing in it is garbage. -/
theorem gcCompactingGc_collects {env : Env} {s : State} {objs roots : List Nat}
    (h : Collectable env s objs roots) :
    ∃ s' l φ, Returns (fun fuel => gcCompactingGc env roots fuel s) s' ∧
      Collected env s s' objs roots l φ ∧ Collectable env s' (l.map φ) roots ∧
      ∀ p ∈ l, Reachable env s' roots (φ p) := by
  obtain ⟨s', l, φ, hret, hc⟩ := h.collects
  exact ⟨s', l, φ, hret, hc, hc.collectable h, fun p hp => hc.reachable h hp⟩

theorem collectable_exampleState : Collectable exampleEnv exampleState [100, 106, 112] [10] where
  heapOf :=
    { tiled := ⟨rfl, rfl, rfl, rfl⟩
      three_le := by decide
      size_of := fun p _ n hn => by rw [sizeAt, hn]; rfl
      vtable := by decide
      slots := heapOf_exampleState.slots
      no_pool := by decide }
  plain := by
    simp only [List.forall_mem_cons]
    exact ⟨.inl rfl, .inr (.inl rfl), .inr (.inr rfl), nofun⟩
  magic := by decide
  border := by decide
  roots_outside := by decide
  roots_ok := rootsOk_exampleState.refs
  roots_nodup := by decide

theorem gcCompactingGc_exampleState :
    Collectable exampleEnv exampleState [100, 106, 112] [10] ∧
    ∃ s' l φ, Returns (fun fuel => gcCompactingGc exampleEnv [10] fuel exampleState) s' ∧
      Collected exampleEnv exampleState s' [100, 106, 112] [10] l φ ∧
      Collectable exampleEnv s' (l.map φ) [10] ∧
      ∀ p ∈ l, Reachable exampleEnv s' [10] (φ p) :=
  ⟨collectable_exampleState, gcCompactingGc_collects collectable_exampleState⟩

end JxCore.GcCompacting
