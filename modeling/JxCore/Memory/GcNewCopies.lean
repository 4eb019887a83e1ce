import JxCore.Memory.GcNewHeap
import Mathlib.Logic.Function.Basic

/-!
# A collection copies what is reachable

The invariant of the collector (`Scan`) speaks about the objects copied so far, in the order in
which they lie in the second semispace, and about a queue of slots that still hold references into
the old heap: the root slots that have not been moved yet, then the reference slots of the copies
that the walk has not come to. Moving a reference takes the first slot from the queue, and if it
makes a copy, the slots of the copy join the queue at its end.

A copy of a plain object overwrites three words behind it. That is harmless as long as those words
are not in use, which is what `Roomy` says.
-/

namespace JxCore.GcNew

open Exec

/-! ## The heap before a collection -/

/-- The heap holds the objects `objs`, and nothing else that is alive; `roots` are the slots from
which they are used. -/
structure Populated (env : Env) (roots : List Nat) (g : Gc) (objs : List Nat) : Prop where
  tiled : Tiled id (objSize env g.mem) g.heap objs g.heapTop
  isObject : ∀ p ∈ objs, IsObject g.mem p
  refTo : ∀ p ∈ objs, ∀ k ∈ offsets env g.mem p, RefTo objs (g.mem (p + k))
  rootTo : ∀ s ∈ roots, RefTo objs (g.mem s)
  /-- `walkRootSet` comes to each root slot once. -/
  nodup : roots.Nodup
  outside : ∀ s ∈ roots, (s < g.heap ∨ g.heapBorder ≤ s) ∧ (s < g.heap2 ∨ g.heapBorder2 ≤ s)
  top_le : g.heapTop ≤ g.heapBorder
  /-- The second semispace has the size of the first one, is empty and lies elsewhere. -/
  border2 : g.heapBorder2 = g.heap2 + (g.heapBorder - g.heap)
  empty2 : g.heapTop2 = g.heap2
  apart : g.heapBorder ≤ g.heap2 ∨ g.heapBorder2 ≤ g.heap
  /-- The first page is no heap. -/
  low : 0xfff < 4 * g.heap
  high : 4 * g.heapBorder2 ≤ 2 ^ 32

open Classical in
/-- The words that the reachable objects take. -/
noncomputable def liveWords (env : Env) (roots : List Nat) (g : Gc) (objs : List Nat) : Nat :=
  ((objs.filter (Reachable env roots g.mem)).map (objSize env g.mem)).sum

/-- A breadth-first traversal of the graph from the root slots: the words that have been put aside,
and the objects that have been met. -/
inductive Bfs (env : Env) (roots : List Nat) (mem : Nat → Nat) : List Nat → List Nat → Prop
  | start : Bfs env roots mem (roots.map mem) []
  | null {vs seen : List Nat} (h : Bfs env roots mem (0 :: vs) seen) : Bfs env roots mem vs seen
  | known {p : Nat} {vs seen : List Nat} (h : Bfs env roots mem (ref p :: vs) seen)
      (hp : p ∈ seen) : Bfs env roots mem vs seen
  | meet {p : Nat} {vs seen : List Nat} (h : Bfs env roots mem (ref p :: vs) seen)
      (hp : p ∉ seen) :
      Bfs env roots mem (vs ++ (offsets env mem p).map fun k => mem (p + k)) (seen ++ [p])

/-- The traversal comes to `q` when it has met every other reachable object. -/
def MetLast (env : Env) (roots : List Nat) (mem : Nat → Nat) (q : Nat) : Prop :=
  ∃ vs seen, Bfs env roots mem (ref q :: vs) seen ∧ q ∉ seen ∧
    ∀ p, Reachable env roots mem p → p ∈ seen ∨ p = q

/-- If the object that is met last is a plain one, the three words behind the live words in the
second semispace belong neither to the old heap nor to the root slots. -/
def Roomy (env : Env) (roots : List Nat) (g : Gc) (objs : List Nat) : Prop :=
  ∀ q, MetLast env roots g.mem q → g.mem q = Kind.object.flags →
    ∀ w, g.heap2 + liveWords env roots g objs ≤ w →
      w < g.heap2 + liveWords env roots g objs + 3 →
      (w < g.heap ∨ g.heapTop ≤ w) ∧ w ∉ roots

namespace Populated

variable {env : Env} {roots : List Nat} {g : Gc} {objs : List Nat} {p q k : Nat}

theorem mem_of_reachable (h : Populated env roots g objs) (hp : Reachable env roots g.mem p) :
    p ∈ objs := by
  have hmem : ∀ {v q}, RefTo objs v → v = ref q → q ∈ objs := by
    rintro v q (hv | ⟨q', hq', hv⟩) href
    · rw [hv, ref] at href
      omega
    · rwa [ref_injective (href.symm.trans hv)]
  induction hp with
  | root hs href => exact hmem (h.rootTo _ hs) href
  | slot _ hk href ih => exact hmem (h.refTo _ ih _ hk) href

theorem bounds (h : Populated env roots g objs) (hp : p ∈ objs) :
    g.heap ≤ p ∧ p + objSize env g.mem p ≤ g.heapTop := h.tiled.mem_bounds hp

/-- No object begins inside of another one. -/
theorem eq_of_inside (h : Populated env roots g objs) (hp : p ∈ objs) (hq : q ∈ objs)
    (hk : k < objSize env g.mem p) (heq : p + k = q) : p = q := by
  have hsize : 4 ≤ objSize env g.mem q := four_le_objSize (h.isObject q hq)
  exact h.tiled.block_unique hp hq hk (by omega : 0 < objSize env g.mem q) heq

theorem liveWords_le (h : Populated env roots g objs) :
    g.heap + liveWords env roots g objs ≤ g.heapTop := by
  have hnodup : objs.Nodup := h.tiled.nodup fun p hp => by
    have : 4 ≤ objSize env g.mem p := four_le_objSize (h.isObject p hp)
    omega
  have hle : liveWords env roots g objs ≤ (objs.map (objSize env g.mem)).sum :=
    sum_map_le_of_subset _ (hnodup.filter _) fun p hp => List.mem_of_mem_filter hp
  rw [h.tiled.top_eq]
  omega

/-- Reachable objects that are all different fit into what is counted as live. -/
theorem sum_le_liveWords (h : Populated env roots g objs) {l : List Nat} (hl : l.Nodup)
    (hreach : ∀ p ∈ l, Reachable env roots g.mem p) :
    (l.map (objSize env g.mem)).sum ≤ liveWords env roots g objs := by
  refine sum_map_le_of_subset _ hl fun p hp => ?_
  exact List.mem_filter.mpr ⟨h.mem_of_reachable (hreach p hp), by simpa using hreach p hp⟩

end Populated

/-- It is enough that the part of the heap in use leaves three words of the semispace free. -/
theorem Roomy.of_slack {env : Env} {roots : List Nat} {g : Gc} {objs : List Nat}
    (h : Populated env roots g objs) (hslack : g.heapTop + 3 ≤ g.heapBorder) :
    Roomy env roots g objs := by
  intro q _ _ w hlow hhigh
  have hlive := h.liveWords_le
  have hborder2 := h.border2
  have hapart := h.apart
  refine ⟨by omega, fun hw => ?_⟩
  have := (h.outside w hw).2
  omega

/-! ## The invariant -/

/-- `v'` is the word `v` with a reference to an object replaced by one to its copy. -/
def Image (cs : List Nat) (φ : Nat → Nat) (v v' : Nat) : Prop :=
  (v = 0 ∧ v' = 0) ∨ ∃ q ∈ cs, v = ref q ∧ v' = ref (φ q)

/-- A slot that the collector has to move, and what it held at first: a root slot, or a reference
slot in the copy `φ p` of some object `p`. -/
inductive IsSlot (env : Env) (roots : List Nat) (mem : Nat → Nat) (cs : List Nat) (φ : Nat → Nat) :
    Nat → Nat → Prop
  | root {s : Nat} (hs : s ∈ roots) : IsSlot env roots mem cs φ s (mem s)
  | copy {p k : Nat} (hp : p ∈ cs) (hk : k ∈ offsets env mem p) :
      IsSlot env roots mem cs φ (φ p + k) (mem (p + k))

/-- The reference slots of the copy of `p`. -/
def slotsOf (env : Env) (mem : Nat → Nat) (φ : Nat → Nat) (p : Nat) : List Nat :=
  (offsets env mem p).map (φ p + ·)

/-- The collection of `g₀` in the middle: the objects `cs` have been copied, `p` to `φ p`, and the
slots `pend` have not been moved. -/
structure Scan (env : Env) (roots : List Nat) (g₀ g : Gc) (cs : List Nat) (φ : Nat → Nat)
    (pend : List Nat) : Prop where
  rest : g = { g₀ with mem := g.mem, heapTop2 := g.heapTop2 }
  nodup : cs.Nodup
  reach : ∀ p ∈ cs, Reachable env roots g₀.mem p
  tiled : Tiled φ (objSize env g₀.mem) g₀.heap2 cs g.heapTop2
  /-- The old heap is as it was, except for the forward pointers. -/
  old : ∀ w, g₀.heap ≤ w → w < g₀.heapTop → w ∉ cs → g.mem w = g₀.mem w
  forward : ∀ p ∈ cs, g.mem p = ref (φ p) + 1
  words : ∀ p ∈ cs, ∀ k < objSize env g₀.mem p, k ∉ offsets env g₀.mem p →
    g.mem (φ p + k) = g₀.mem (p + k)
  pendNodup : pend.Nodup
  pendSlot : ∀ w ∈ pend, ∃ v, IsSlot env roots g₀.mem cs φ w v
  todo : ∀ w v, IsSlot env roots g₀.mem cs φ w v → w ∈ pend → g.mem w = v
  done : ∀ w v, IsSlot env roots g₀.mem cs φ w v → w ∉ pend → Image cs φ v (g.mem w)

theorem Image.mono {cs cs' : List Nat} {φ φ' : Nat → Nat} {v v' : Nat} (h : Image cs φ v v')
    (hsub : ∀ p ∈ cs, p ∈ cs') (hφ : ∀ p ∈ cs, φ' p = φ p) : Image cs' φ' v v' := by
  rcases h with h | ⟨q, hq, hv, hv'⟩
  · exact .inl h
  · exact .inr ⟨q, hsub q hq, hv, by rw [hφ q hq, hv']⟩

section Slots

variable {env : Env} {roots : List Nat} {mem : Nat → Nat} {cs : List Nat} {φ φ' : Nat → Nat}
  {w v q : Nat}

/-- The slots after the copy of `q` has been made. -/
theorem isSlot_concat (hφ : ∀ p ∈ cs, φ' p = φ p) :
    IsSlot env roots mem (cs ++ [q]) φ' w v ↔ IsSlot env roots mem cs φ w v ∨
      ∃ k ∈ offsets env mem q, w = φ' q + k ∧ v = mem (q + k) := by
  constructor
  · intro h
    cases h with
    | root hs => exact .inl (.root hs)
    | @copy p k hp hk =>
      rcases List.mem_append.mp hp with hp | hp
      · left
        rw [hφ p hp]
        exact .copy hp hk
      · obtain rfl : p = q := by simpa using hp
        exact .inr ⟨k, hk, rfl, rfl⟩
  · rintro (h | ⟨k, hk, rfl, rfl⟩)
    · cases h with
      | root hs => exact .root hs
      | @copy p k hp hk =>
        rw [← hφ p hp]
        exact .copy (List.mem_append_left _ hp) hk
    · exact .copy (by simp) hk

end Slots

namespace Scan

variable {env : Env} {roots objs : List Nat} {g₀ g g' : Gc} {cs pend : List Nat} {φ : Nat → Nat}
  {p q w v s : Nat}

theorem mem_objs (h₀ : Populated env roots g₀ objs) (h : Scan env roots g₀ g cs φ pend)
    (hp : p ∈ cs) : p ∈ objs :=
  h₀.mem_of_reachable (h.reach p hp)

/-- A slot is outside of the semispaces, or it is in a copy. -/
theorem slot_place (h₀ : Populated env roots g₀ objs) (h : Scan env roots g₀ g cs φ pend)
    (hw : IsSlot env roots g₀.mem cs φ w v) : w ∈ roots ∨ (g₀.heap2 ≤ w ∧ w < g.heapTop2) := by
  cases hw with
  | root hs => exact .inl hs
  | @copy p k hp hk =>
    have hbounds := h.tiled.mem_bounds hp
    have hoff := offset_bounds (h₀.isObject p (mem_objs h₀ h hp)) hk
    omega

/-- What a slot held refers to a reachable object. -/
theorem slot_reachable (h₀ : Populated env roots g₀ objs) (h : Scan env roots g₀ g cs φ pend)
    (hw : IsSlot env roots g₀.mem cs φ w v) :
    v = 0 ∨ ∃ q, v = ref q ∧ Reachable env roots g₀.mem q := by
  cases hw with
  | root hs =>
    rcases h₀.rootTo _ hs with hv | ⟨q, -, hv⟩
    · exact .inl hv
    · exact .inr ⟨q, hv, .root hs hv⟩
  | copy hp hk =>
    rcases h₀.refTo _ (mem_objs h₀ h hp) _ hk with hv | ⟨q, -, hv⟩
    · exact .inl hv
    · exact .inr ⟨q, hv, .slot (h.reach _ hp) hk hv⟩

theorem top_le (h₀ : Populated env roots g₀ objs) (h : Scan env roots g₀ g cs φ pend) :
    g.heapTop2 ≤ g₀.heap2 + liveWords env roots g₀ objs := by
  have hsum := h₀.sum_le_liveWords h.nodup h.reach
  rw [h.tiled.top_eq]
  omega

theorem live_le_border2 (h₀ : Populated env roots g₀ objs) :
    g₀.heap2 + liveWords env roots g₀ objs ≤ g₀.heapBorder2 := by
  have hlive := h₀.liveWords_le
  have htop := h₀.top_le
  rw [h₀.border2]
  omega

/-- Inside the second semispace there is no root slot, and no word of the old heap. -/
theorem free_of_inside (h₀ : Populated env roots g₀ objs) (hlow : g₀.heap2 ≤ w)
    (hhigh : w < g₀.heapBorder2) : (w < g₀.heap ∨ g₀.heapTop ≤ w) ∧ w ∉ roots := by
  have hapart := h₀.apart
  have htop := h₀.top_le
  refine ⟨by omega, fun hw => ?_⟩
  have := (h₀.outside w hw).2
  omega

/-- A slot that is moved is not part of the old heap. -/
theorem slot_not_old (h₀ : Populated env roots g₀ objs) (h : Scan env roots g₀ g cs φ pend)
    (hw : IsSlot env roots g₀.mem cs φ w v) : w < g₀.heap ∨ g₀.heapTop ≤ w := by
  rcases slot_place h₀ h hw with hroot | hplace
  · have hout := (h₀.outside w hroot).1
    have := h₀.top_le
    omega
  · have htop := top_le h₀ h
    have hborder := live_le_border2 h₀
    exact (free_of_inside h₀ hplace.1 (by omega)).1

/-! ### A slot gets its new value -/

theorem setSlot (h₀ : Populated env roots g₀ objs) (h : Scan env roots g₀ g cs φ (s :: pend))
    (hv : Image cs φ (g.mem s) v) : Scan env roots g₀ (g.setWord s v) cs φ pend := by
  obtain ⟨v₀, hs⟩ := h.pendSlot s (by simp)
  obtain ⟨hfresh, hnodup⟩ := List.nodup_cons.mp h.pendNodup
  have hother : ∀ w, w ≠ s → (g.setWord s v).mem w = g.mem w := fun w hw => if_neg hw
  have hnotOld := slot_not_old h₀ h hs
  refine
    { rest := ?_, nodup := h.nodup, reach := h.reach, tiled := h.tiled, old := ?_, forward := ?_,
      words := ?_, pendNodup := hnodup, pendSlot := fun w hw => h.pendSlot w (by simp [hw]),
      todo := ?_, done := ?_ }
  · rw [Gc.setWord, h.rest]
  · intro w hlow hhigh hw
    rw [hother w (by omega)]
    exact h.old w hlow hhigh hw
  · intro p hp
    have hbounds := h₀.bounds (mem_objs h₀ h hp)
    have hsize : 4 ≤ objSize env g₀.mem p := four_le_objSize (h₀.isObject p (mem_objs h₀ h hp))
    rw [hother p (by omega)]
    exact h.forward p hp
  · intro p hp k hk hoff
    -- a word that is no slot is not the slot that is written
    have hne : φ p + k ≠ s := by
      intro heq
      have hbounds := h.tiled.mem_bounds hp
      have htop := top_le h₀ h
      have hborder := live_le_border2 h₀
      cases hs with
      | root hs => exact (free_of_inside h₀ (w := s) (by omega) (by omega)).2 hs
      | @copy p' k' hp' hk' =>
        have hk'' := (offset_bounds (h₀.isObject p' (mem_objs h₀ h hp')) hk').2
        obtain rfl := h.tiled.block_unique hp hp' hk hk'' heq
        obtain rfl : k = k' := by omega
        exact hoff hk'
    rw [hother _ hne]
    exact h.words p hp k hk hoff
  · intro w v' hw hmem
    rw [hother w fun heq => hfresh (heq ▸ hmem)]
    exact h.todo w v' hw (by simp [hmem])
  · intro w v' hw hmem
    by_cases heq : w = s
    · subst heq
      have hold := h.todo w v' hw (by simp)
      rw [hold] at hv
      simpa using hv
    · rw [hother w heq]
      exact h.done w v' hw (by simp [heq, hmem])

/-! ### An object is copied -/

/-- Where a copy of `q` would be written, with the words behind it. If another object is still to
come, it will take these words; if not, they are what `Roomy` is about. -/
theorem copy_free (h₀ : Populated env roots g₀ objs) (hroomy : Roomy env roots g₀ objs)
    (h : Scan env roots g₀ g cs φ pend) (hq : Reachable env roots g₀.mem q) (hfresh : q ∉ cs)
    {vs : List Nat} (hbfs : Bfs env roots g₀.mem (ref q :: vs) cs) :
    g.heapTop2 + objSize env g₀.mem q ≤ g₀.heapBorder2 ∧
      ∀ w, g.heapTop2 ≤ w → w < g.heapTop2 + objSize env g₀.mem q + overrun g₀.mem q →
        (w < g₀.heap ∨ g₀.heapTop ≤ w) ∧ w ∉ roots := by
  have hsum : ∀ l : List Nat, (q :: l).Nodup → (∀ p ∈ l, p ∉ cs ∧ Reachable env roots g₀.mem p) →
      g.heapTop2 + objSize env g₀.mem q + (l.map (objSize env g₀.mem)).sum ≤
        g₀.heap2 + liveWords env roots g₀ objs := by
    intro l hl hreach
    have hnodup : (cs ++ q :: l).Nodup := by
      refine List.nodup_append.mpr ⟨h.nodup, hl, ?_⟩
      rintro a ha b hb rfl
      rcases List.mem_cons.mp hb with rfl | hb
      · exact hfresh ha
      · exact (hreach a hb).1 ha
    have hle := h₀.sum_le_liveWords hnodup fun p hp => by
      rcases List.mem_append.mp hp with hp | hp
      · exact h.reach p hp
      · rcases List.mem_cons.mp hp with rfl | hp
        · exact hq
        · exact (hreach p hp).2
    rw [List.map_append, List.sum_append, List.map_cons, List.sum_cons] at hle
    rw [h.tiled.top_eq]
    omega
  have hfits : g.heapTop2 + objSize env g₀.mem q ≤ g₀.heap2 + liveWords env roots g₀ objs := by
    simpa using hsum [] (by simp) (by simp)
  have hborder := live_le_border2 h₀
  have hbase := h.tiled.base_le
  refine ⟨by omega, fun w hlow hhigh => ?_⟩
  by_cases hin : w < g₀.heapBorder2
  · exact free_of_inside h₀ (by omega) hin
  · unfold overrun at hhigh
    split at hhigh
    · next hplain =>
      by_cases hlast : ∀ p, Reachable env roots g₀.mem p → p ∈ cs ∨ p = q
      · exact hroomy q ⟨vs, cs, hbfs, hfresh, hlast⟩ hplain w (by omega) (by omega)
      · obtain ⟨r, hr⟩ := not_forall.mp hlast
        obtain ⟨hr, hrest⟩ := Classical.not_imp.mp hr
        rw [not_or] at hrest
        have hmore := hsum [r] (by simp [Ne.symm hrest.2]) (by simp [hr, hrest.1])
        have hsize : 4 ≤ objSize env g₀.mem r :=
          four_le_objSize (h₀.isObject r (h₀.mem_of_reachable hr))
        rw [List.map_singleton, List.sum_singleton] at hmore
        omega
    · omega

/-- An object that has not been copied is as it was. -/
theorem source_eq (h₀ : Populated env roots g₀ objs) (h : Scan env roots g₀ g cs φ pend)
    (hq : q ∈ objs) (hfresh : q ∉ cs) {k : Nat} (hk : k < objSize env g₀.mem q) :
    g.mem (q + k) = g₀.mem (q + k) := by
  have hbounds := h₀.bounds hq
  refine h.old _ (by omega) (by omega) fun hmem => hfresh ?_
  rwa [← h₀.eq_of_inside hq (mem_objs h₀ h hmem) hk rfl] at hmem

theorem source_layout (h₀ : Populated env roots g₀ objs) (h : Scan env roots g₀ g cs φ pend)
    (hq : q ∈ objs) (hfresh : q ∉ cs) :
    IsObject g.mem q ∧ objSize env g.mem q = objSize env g₀.mem q ∧
      overrun g.mem q = overrun g₀.mem q := by
  have hobj := h₀.isObject q hq
  have hsize : 4 ≤ objSize env g₀.mem q := four_le_objSize hobj
  obtain ⟨hobj', hsize', -⟩ := layout_congr hobj fun k hk _ => source_eq h₀ h hq hfresh hk
  have hflags : g.mem q = g₀.mem q := source_eq (k := 0) h₀ h hq hfresh (by omega)
  exact ⟨hobj', hsize', by rw [overrun, overrun, hflags]⟩

/-- The words after the copy of `q` has been made and its forward pointer set: those of the copy,
and those that are not touched. -/
theorem mem_copy (h₀ : Populated env roots g₀ objs) (hroomy : Roomy env roots g₀ objs)
    (h : Scan env roots g₀ g cs φ pend) (hq : Reachable env roots g₀.mem q) (hfresh : q ∉ cs)
    {vs : List Nat} (hbfs : Bfs env roots g₀.mem (ref q :: vs) cs) (hc : Copied env g q g') :
    (∀ k < objSize env g₀.mem q,
        (g'.setWord q v).mem (g.heapTop2 + k) = g₀.mem (q + k)) ∧
      ∀ w, w ≠ q → (w < g.heapTop2 ∨ (g₀.heap ≤ w ∧ w < g₀.heapTop) ∨ w ∈ roots) →
        (g'.setWord q v).mem w = g.mem w := by
  have hmem := h₀.mem_of_reachable hq
  obtain ⟨-, hsize, hover⟩ := source_layout h₀ h hmem hfresh
  have hbounds := h₀.bounds hmem
  have hpos : 4 ≤ objSize env g₀.mem q := four_le_objSize (h₀.isObject q hmem)
  have hfree := (copy_free h₀ hroomy h hq hfresh hbfs).2
  constructor
  · intro k hk
    have hplace := (hfree (g.heapTop2 + k) (by omega) (by omega)).1
    rw [Gc.mem_setWord, if_neg (by omega), hc.words k (by omega)]
    exact source_eq h₀ h hmem hfresh hk
  · intro w hne hw
    rw [Gc.mem_setWord, if_neg hne]
    apply hc.frame
    rw [hsize, hover]
    by_contra hin
    have hplace := hfree w (by omega) (by omega)
    rcases hw with hw | hw | hw
    · omega
    · omega
    · exact hplace.2 hw

theorem copy (h₀ : Populated env roots g₀ objs) (hroomy : Roomy env roots g₀ objs)
    (h : Scan env roots g₀ g cs φ pend) (hq : Reachable env roots g₀.mem q) (hfresh : q ∉ cs)
    {vs : List Nat} (hbfs : Bfs env roots g₀.mem (ref q :: vs) cs) (hc : Copied env g q g')
    {φ' : Nat → Nat} (hφ : ∀ p ∈ cs, φ' p = φ p)
    (hφq : φ' q = g.heapTop2) :
    Scan env roots g₀ (g'.setWord q (ref g.heapTop2 + 1)) (cs ++ [q]) φ'
      (pend ++ slotsOf env g₀.mem φ' q) := by
  have hmem := h₀.mem_of_reachable hq
  have hobj := h₀.isObject q hmem
  obtain ⟨-, hsize, -⟩ := source_layout h₀ h hmem hfresh
  obtain ⟨hfits, hfree⟩ := copy_free h₀ hroomy h hq hfresh hbfs
  obtain ⟨hcopy, hframe⟩ := mem_copy (v := ref g.heapTop2 + 1) h₀ hroomy h hq hfresh hbfs hc
  have hbounds := h₀.bounds hmem
  have hbase := h.tiled.base_le
  have hqOut : q < g₀.heap2 ∨ g₀.heapBorder2 ≤ q := by
    by_contra hin
    have := (free_of_inside h₀ (w := q) (by omega) (by omega)).1
    have : 4 ≤ objSize env g₀.mem q := four_le_objSize hobj
    omega
  -- where the slots are that existed before
  have hslot : ∀ {w v}, IsSlot env roots g₀.mem cs φ w v →
      w ∉ slotsOf env g₀.mem φ' q ∧ (g'.setWord q (ref g.heapTop2 + 1)).mem w = g.mem w := by
    intro w v hw
    have hplace := slot_place h₀ h hw
    constructor
    · intro hin
      obtain ⟨k, hk, rfl⟩ := List.mem_map.mp hin
      have hoff := (offset_bounds hobj hk).2
      rw [hφq] at hplace
      rcases hplace with hroot | hplace
      · exact (hfree (g.heapTop2 + k) (by omega) (by omega)).2 hroot
      · omega
    · have hold := slot_not_old h₀ h hw
      have hpos : 4 ≤ objSize env g₀.mem q := four_le_objSize hobj
      refine hframe w (by omega) ?_
      exact hplace.elim (fun hroot => .inr (.inr hroot)) fun hin => .inl hin.2
  have hnew : ∀ {w}, w ∈ slotsOf env g₀.mem φ' q →
      ∃ k ∈ offsets env g₀.mem q, w = φ' q + k := by
    intro w hw
    obtain ⟨k, hk, rfl⟩ := List.mem_map.mp hw
    exact ⟨k, hk, rfl⟩
  refine
    { rest := ?_, nodup := ?_, reach := ?_, tiled := ?_, old := ?_, forward := ?_, words := ?_,
      pendNodup := ?_, pendSlot := ?_, todo := ?_, done := ?_ }
  · rw [Gc.setWord, hc.rest, h.rest]
  · refine List.nodup_append.mpr ⟨h.nodup, by simp, ?_⟩
    rintro a ha b hb rfl
    obtain rfl : a = q := by simpa using hb
    exact hfresh ha
  · intro p hp
    rcases List.mem_append.mp hp with hp | hp
    · exact h.reach p hp
    · obtain rfl : p = q := by simpa using hp
      exact hq
  · have htop : (g'.setWord q (ref g.heapTop2 + 1)).heapTop2 =
        g.heapTop2 + objSize env g₀.mem q := by
      rw [Gc.setWord, hc.rest, ← hsize]
    rw [htop]
    exact (h.tiled.congr hφ fun _ _ => rfl).concat hφq
  · intro w hlow hhigh hw
    rw [List.mem_append, List.mem_singleton, not_or] at hw
    rw [hframe w hw.2 (.inr (.inl ⟨hlow, hhigh⟩))]
    exact h.old w hlow hhigh hw.1
  · intro p hp
    rcases List.mem_append.mp hp with hp | hp
    · have hpb := h₀.bounds (mem_objs h₀ h hp)
      have hpos : 4 ≤ objSize env g₀.mem p := four_le_objSize (h₀.isObject p (mem_objs h₀ h hp))
      rw [hframe p (fun heq => hfresh (heq ▸ hp)) (.inr (.inl (by omega))), hφ p hp]
      exact h.forward p hp
    · obtain rfl : p = q := by simpa using hp
      rw [Gc.mem_setWord, if_pos rfl, hφq]
  · intro p hp k hk hoff
    rcases List.mem_append.mp hp with hp | hp
    · have hpb := h.tiled.mem_bounds hp
      rw [hφ p hp, hframe _ (by omega) (.inl (by omega))]
      exact h.words p hp k hk hoff
    · obtain rfl : p = q := by simpa using hp
      rw [hφq]
      exact hcopy k hk
  · refine List.nodup_append.mpr ⟨h.pendNodup, ?_, ?_⟩
    · exact (nodup_offsets hobj).map fun i j hij => by simpa using hij
    · rintro a ha b hb rfl
      obtain ⟨v, hv⟩ := h.pendSlot a ha
      exact (hslot hv).1 hb
  · intro w hw
    rcases List.mem_append.mp hw with hw | hw
    · obtain ⟨v, hv⟩ := h.pendSlot w hw
      exact ⟨v, (isSlot_concat hφ).mpr (.inl hv)⟩
    · obtain ⟨k, hk, hwk⟩ := hnew hw
      exact ⟨_, (isSlot_concat hφ).mpr (.inr ⟨k, hk, hwk, rfl⟩)⟩
  · intro w v hw hpend
    rcases (isSlot_concat hφ).mp hw with hw | ⟨k, hk, rfl, rfl⟩
    · have hold := hslot hw
      rw [hold.2]
      exact h.todo w v hw ((List.mem_append.mp hpend).resolve_right hold.1)
    · rw [hφq]
      exact hcopy k (offset_bounds hobj hk).2
  · intro w v hw hpend
    rw [List.mem_append, not_or] at hpend
    rcases (isSlot_concat hφ).mp hw with hw | ⟨k, hk, rfl, rfl⟩
    · rw [(hslot hw).2]
      exact (h.done w v hw hpend.1).mono (fun p hp => List.mem_append_left _ hp) hφ
    · exact absurd (List.mem_map_of_mem hk) hpend.2

/-! ### A reference is moved -/

/-- What moving one reference leads to: new copies and their slots join at the end. -/
def Moves (env : Env) (roots : List Nat) (g₀ : Gc) (cs : List Nat) (φ : Nat → Nat)
    (pend : List Nat) (call : Exec Gc) : Prop :=
  ∃ g' new φ', call = pure g' ∧ (∀ p ∈ cs, φ' p = φ p) ∧
    Scan env roots g₀ g' (cs ++ new) φ' (pend ++ new.flatMap (slotsOf env g₀.mem φ')) ∧
    Bfs env roots g₀.mem ((pend ++ new.flatMap (slotsOf env g₀.mem φ')).map g'.mem) (cs ++ new)

/-- The slots that wait hold what they held. -/
theorem pend_words {s : Nat} {cs' : List Nat} {φ' : Nat → Nat} {pend' : List Nat}
    (h : Scan env roots g₀ g cs φ (s :: pend)) (h' : Scan env roots g₀ g' cs' φ' (pend ++ pend'))
    (hslot : ∀ {w v}, IsSlot env roots g₀.mem cs φ w v → IsSlot env roots g₀.mem cs' φ' w v) :
    pend.map g'.mem = pend.map g.mem := by
  refine List.map_congr_left fun w hw => ?_
  obtain ⟨v, hv⟩ := h.pendSlot w (by simp [hw])
  rw [h.todo w v hv (by simp [hw]), h'.todo w v (hslot hv) (by simp [hw])]

theorem ref_low (h₀ : Populated env roots g₀ objs) (hq : q ∈ objs) : ¬ ref q ≤ 0xfff := by
  have hbounds := h₀.bounds hq
  have hlow := h₀.low
  unfold ref
  omega

theorem moveReference_moves (h₀ : Populated env roots g₀ objs) (hroomy : Roomy env roots g₀ objs)
    (h : Scan env roots g₀ g cs φ (s :: pend))
    (hbfs : Bfs env roots g₀.mem ((s :: pend).map g.mem) cs) :
    Moves env roots g₀ cs φ pend (moveReference env g s) := by
  obtain ⟨v, hv⟩ := h.pendSlot s (by simp)
  have hword := h.todo s v hv (by simp)
  rw [List.map_cons, hword] at hbfs
  rcases slot_reachable h₀ h hv with rfl | ⟨q, rfl, hq⟩
  · -- NULL stays NULL
    refine ⟨g, [], φ, if_pos hword, fun _ _ => rfl, ?_, by simpa using hbfs.null⟩
    have hset := setSlot h₀ h (.inl ⟨hword, hword⟩)
    have hself : g.setWord s (g.mem s) = g := by
      have hmem : (fun w => if w = s then g.mem s else g.mem w) = g.mem := by
        funext w
        split <;> simp_all
      rw [Gc.setWord, hmem]
    rw [hself] at hset
    simpa using hset
  have hmem := h₀.mem_of_reachable hq
  have hlow := ref_low h₀ hmem
  have hnull : ¬ ref q = 0 := by
    unfold ref
    omega
  unfold moveReference
  simp only [hword, if_neg hnull, if_neg hlow, ref_div_four, Gc.getObjFlags, Nat.add_sub_cancel]
  by_cases hcopied : q ∈ cs
  · -- the object has been copied before
    have hbounds := h.tiled.mem_bounds hcopied
    have hsize : 4 ≤ objSize env g₀.mem q := four_le_objSize (h₀.isObject q hmem)
    have htop := top_le h₀ h
    have hborder := live_le_border2 h₀
    have hhigh := h₀.high
    have hsmall : ref (φ q) + 1 < 2 ^ 32 := by
      unfold ref
      omega
    have hset := setSlot h₀ h (.inr ⟨q, hcopied, hword, rfl⟩)
    refine ⟨g.setWord s (ref (φ q)), [], φ, ?_, fun _ _ => rfl, by simpa using hset, ?_⟩
    · rw [h.forward q hcopied, isForward_forward, forwardPtr_forward hsmall]
      rfl
    · have hset' : Scan env roots g₀ (g.setWord s (ref (φ q))) cs φ (pend ++ []) := by
        simpa using hset
      have hwords := pend_words h hset' id
      simpa [hwords] using hbfs.known hcopied
  · obtain ⟨hobj, hsize, -⟩ := source_layout h₀ h hmem hcopied
    obtain ⟨hfits, hfree⟩ := copy_free h₀ hroomy h hq hcopied hbfs
    have hbounds := h₀.bounds hmem
    have hsize4 : 4 ≤ objSize env g.mem q := four_le_objSize hobj
    have hin : isInHeap g (q + 2) := by
      rw [isInHeap, h.rest]
      simp only
      omega
    have hroom : g.heapTop2 ≤ g.heapBorder2 := by
      have hborder2 : g.heapBorder2 = g₀.heapBorder2 := by rw [h.rest]
      omega
    have hapart : Apart env g q g.heapTop2 := by
      have hfirst := (hfree g.heapTop2 (by omega) (by omega)).1
      have hlast := (hfree (g.heapTop2 + (objSize env g₀.mem q - 1)) (by omega) (by omega)).1
      by_contra hover
      rw [Apart] at hover
      -- if they met, the start of one of them would be inside of the other
      have hmeet := (hfree (max g.heapTop2 q) (by omega) (by omega)).1
      omega
    obtain ⟨g', hcall, hc⟩ := moveKind_spec hobj hin hroom hapart
    have hkind : isForward (g.mem q) = false := hobj.not_forward
    have hφ : ∀ p ∈ cs, Function.update φ q g.heapTop2 p = φ p := by
      intro p hp
      have hne : p ≠ q := fun heq => hcopied (heq ▸ hp)
      exact Function.update_of_ne hne _ _
    have hφq : Function.update φ q g.heapTop2 q = g.heapTop2 := Function.update_self ..
    have hscan := copy h₀ hroomy h hq hcopied hbfs hc hφ hφq
    have hold : ∀ {w v}, IsSlot env roots g₀.mem cs φ w v →
        IsSlot env roots g₀.mem (cs ++ [q]) (Function.update φ q g.heapTop2) w v := fun hw =>
      (isSlot_concat hφ).mpr (.inl hw)
    have hset := setSlot (v := ref g.heapTop2) h₀ hscan
      (.inr ⟨q, by simp, hscan.todo s _ (hold hv) (by simp), by rw [hφq]⟩)
    refine ⟨(g'.setWord q (ref g.heapTop2 + 1)).setWord s (ref g.heapTop2), [q],
      Function.update φ q g.heapTop2, ?_, hφ, by simpa using hset, ?_⟩
    · simp only [hkind, hcall, pure_bind, Bool.false_eq_true, if_false]
      rw [assert_pos (isForward_ref _), pure_bind, ref_or_one, Gc.setObjFlags, Nat.add_sub_cancel]
    · have hwords := pend_words h hset hold
      have hnew := List.map_congr_left fun k hk => hset.todo _ _
        ((isSlot_concat hφ).mpr (.inr ⟨k, hk, rfl, rfl⟩))
        (List.mem_append_right _ (List.mem_map_of_mem hk))
      have hmet := hbfs.meet hcopied
      rw [← hwords, ← hnew] at hmet
      simpa [slotsOf, Function.comp_def] using hmet

end Scan

end JxCore.GcNew
