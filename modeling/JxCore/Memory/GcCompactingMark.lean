import JxCore.Lib.BoundedMark
import JxCore.Memory.GcCompactingHeap

/-!
# The marks of the compacting collector

The recursion of `markCB3` on the heap and `BoundedMark.mark` on the graph of its objects do the
same: the graph has an edge for each slot that leads to an object of the heap, and `depth` counts
from the other end. `marked` writes a set of marks into the flags, and every state of the mark
phase is one of these, so that the simulation is a chain of equations.

A heap that holds an object of another kind does not get as far as that; the first walk stops there.
-/

namespace JxCore.GcCompacting

open Exec GcNew HeapWalk BoundedMark

/-! ## The graph of a heap -/

/-- The object that a reference leads to, if it is in the heap. -/
def objAt (s : State) (v : Nat) : Option Nat :=
  if v ≠ 0 ∧ s.isInHeap v then some (v / 4 - 2) else none

/-- The object that a slot leads to. -/
def target (s : State) : Slot → Option Nat
  | .ref a => objAt s (s.mem a)
  | .tcb a => if s.mem a = 0 then none else objAt s (s.mem a - 4)

/-- The objects that the object at `p` refers to. -/
def succ (env : Env) (s : State) (p : Nat) : List Nat :=
  (slots env s.mem (p + 2)).filterMap (target s)

/-- The objects that can be reached from the root slots. -/
inductive Reachable (env : Env) (s : State) (roots : List Nat) : Nat → Prop
  | root {a p : Nat} (ha : a ∈ roots) (hp : objAt s (s.mem a) = some p) : Reachable env s roots p
  | slot {p q : Nat} {a : Slot} (hp : Reachable env s roots p) (ha : a ∈ slots env s.mem (p + 2))
      (hq : target s a = some q) : Reachable env s roots q

/-- The mark phase ends, and then an object is marked if it can be reached. -/
def MarksExactly (env : Env) (s : State) (objs roots : List Nat) : Prop :=
  ∃ s', Returns (fun fuel => markPhase env roots fuel s) s' ∧
    ∀ p ∈ objs, isMarked (s'.mem p) = true ↔ Reachable env s roots p

/-- The root slots are outside of the heap and refer to objects. -/
structure RootsOk (s : State) (objs roots : List Nat) : Prop where
  not_mem : ∀ a ∈ roots, a ∉ objs
  refs : ∀ a ∈ roots, RefOk s objs (s.mem a)

/-! ## States that differ in their marks -/

/-- The same heap with other marks. -/
structure SameHeap (objs : List Nat) (s s' : State) : Prop where
  heap : s'.heap = s.heap
  heapTop : s'.heapTop = s.heapTop
  word : ∀ w, w ∉ objs → s'.mem w = s.mem w
  kind : ∀ p ∈ objs, Kind.ofFlags (s'.mem p) = Kind.ofFlags (s.mem p)

section Same

variable {env : Env} {s s' : State} {objs roots : List Nat} {size : Nat → Nat} {p v : Nat} {a : Slot}

theorem SameHeap.symm (h : SameHeap objs s s') : SameHeap objs s' s :=
  ⟨h.heap.symm, h.heapTop.symm, fun w hw => (h.word w hw).symm, fun p hp => (h.kind p hp).symm⟩

theorem SameHeap.kind_word (h : SameHeap objs s s') (w : Nat) :
    Kind.ofFlags (s'.mem w) = Kind.ofFlags (s.mem w) := by
  by_cases hw : w ∈ objs
  · exact h.kind w hw
  · rw [h.word w hw]

theorem SameHeap.isInHeap (h : SameHeap objs s s') : s'.isInHeap v ↔ s.isInHeap v := by
  rw [State.isInHeap, State.isInHeap, h.heap, h.heapTop]

theorem SameHeap.objAt (h : SameHeap objs s s') : objAt s' v = objAt s v := by
  unfold GcCompacting.objAt
  simp only [h.isInHeap]

theorem SameHeap.refOk (h : SameHeap objs s s') : RefOk s' objs v ↔ RefOk s objs v := by
  unfold RefOk
  rw [h.isInHeap]

theorem SameHeap.layout (h : SameHeap objs s s') (hheap : HeapOf env s objs size) (hp : p ∈ objs)
    {n : Nat} (hn : sizeOf env s.mem p = some n) :
    sizeOf env s'.mem p = some n ∧ slots env s'.mem (p + 2) = slots env s.mem (p + 2) := by
  refine layout_of_words hn (h.kind p hp) fun k hk hlt _ => h.word _ ?_
  rw [← hheap.size_of p hp n hn] at hlt
  exact hheap.inside_not_mem hp (by omega) hlt

/-- A slot of an object is none of the flags. -/
theorem HeapOf.slot_not_mem (hheap : HeapOf env s objs size) (hp : p ∈ objs)
    (hwalk : Walkable env s.mem p) (ha : a ∈ GcCompacting.slots env s.mem (p + 2)) :
    a.addr ∉ objs := by
  obtain ⟨n, hn⟩ := Option.isSome_iff_exists.mp hwalk
  have hbounds := slot_bounds hn ha
  have hsize := hheap.size_of p hp n hn
  have hin := hheap.inside_not_mem hp (k := a.addr - p) (by omega) (by omega)
  rwa [Nat.add_sub_cancel' (by omega)] at hin

theorem SameHeap.target (h : SameHeap objs s s') (ha : a.addr ∉ objs) : target s' a = target s a := by
  cases a with
  | ref a => rw [GcCompacting.target, GcCompacting.target, h.objAt, h.word a ha]
  | tcb a => rw [GcCompacting.target, GcCompacting.target, h.objAt, h.word a ha]

theorem SameHeap.slotOk (h : SameHeap objs s s') (ha : a.addr ∉ objs) (hok : SlotOk s objs a) :
    SlotOk s' objs a := by
  cases a with
  | ref a =>
    rw [SlotOk, h.refOk, h.word a ha]
    exact hok
  | tcb a =>
    rw [SlotOk, h.refOk, h.word a ha, State.getObjFlags, h.kind_word]
    exact hok

/-- All that is known about a heap is known about it with other marks. -/
theorem HeapOf.same (hheap : HeapOf env s objs size) (hwalk : ∀ p ∈ objs, Walkable env s.mem p)
    (h : SameHeap objs s s') :
    HeapOf env s' objs size ∧ ∀ p ∈ objs, Walkable env s'.mem p := by
  have hlayout : ∀ p ∈ objs, ∃ n, sizeOf env s.mem p = some n ∧ sizeOf env s'.mem p = some n ∧
      GcCompacting.slots env s'.mem (p + 2) = GcCompacting.slots env s.mem (p + 2) := fun p hp => by
    obtain ⟨n, hn⟩ := Option.isSome_iff_exists.mp (hwalk p hp)
    exact ⟨n, hn, h.layout hheap hp hn⟩
  refine ⟨⟨?_, hheap.three_le, fun p hp n hn => ?_, fun p hp hkind => ?_, fun p hp a ha => ?_,
    fun p hp => ?_⟩, fun p hp => ?_⟩
  · rw [h.heap, h.heapTop]
    exact hheap.tiled
  · obtain ⟨n', hn', hsame, -⟩ := hlayout p hp
    rw [hsame] at hn
    exact hheap.size_of p hp n (hn'.trans hn)
  · have hthree := hheap.three_le p hp
    rw [h.word _ (hheap.inside_not_mem hp (by omega) (by omega))]
    rw [h.kind p hp] at hkind
    exact hheap.vtable p hp hkind
  · obtain ⟨n, hn, -, hslots⟩ := hlayout p hp
    rw [hslots] at ha
    exact h.slotOk (hheap.slot_not_mem hp (hwalk p hp) ha) (hheap.slots p hp a ha)
  · rw [h.kind p hp]
    exact hheap.no_pool p hp
  · obtain ⟨n, -, hn, -⟩ := hlayout p hp
    exact Option.isSome_iff_exists.mpr ⟨n, hn⟩

theorem objAt_mem (hv : RefOk s objs v) {q : Nat} (hq : objAt s v = some q) : q ∈ objs := by
  unfold objAt at hq
  split at hq
  · next hin =>
    cases hq
    rcases hv with rfl | hout | ⟨q, hq, rfl⟩
    · exact absurd rfl hin.1
    · exact absurd hin.2 hout
    · rwa [ref_div_four, Nat.add_sub_cancel]
  · cases hq

theorem target_mem (ha : SlotOk s objs a) {q : Nat} (hq : target s a = some q) : q ∈ objs := by
  cases a with
  | ref a => exact objAt_mem ha hq
  | tcb a =>
    simp only [target] at hq
    split at hq
    · cases hq
    · next hne => exact objAt_mem (ha.resolve_left hne).2.1 hq

theorem HeapOf.closed_succ (hheap : HeapOf env s objs size) : Closed (succ env s) (· ∈ objs) := by
  intro p hp q hq
  obtain ⟨a, ha, hq⟩ := List.mem_filterMap.mp hq
  exact target_mem (hheap.slots p hp a ha) hq

theorem Reachable.mem (hheap : HeapOf env s objs size) (hroots : RootsOk s objs roots)
    (hp : Reachable env s roots p) : p ∈ objs := by
  induction hp with
  | root ha hp => exact objAt_mem (hroots.refs _ ha) hp
  | slot _ ha hq ih => exact target_mem (hheap.slots _ ih _ ha) hq

theorem Reachable.same (hheap : HeapOf env s objs size) (hwalk : ∀ p ∈ objs, Walkable env s.mem p)
    (hroots : RootsOk s objs roots) (h : SameHeap objs s s') (hp : Reachable env s roots p) :
    Reachable env s' roots p := by
  induction hp with
  | @root a p ha hp =>
    refine .root ha ?_
    rw [h.objAt, h.word a (hroots.not_mem a ha)]
    exact hp
  | @slot p q a hp ha hq ih =>
    have hmem := hp.mem hheap hroots
    obtain ⟨n, hn⟩ := Option.isSome_iff_exists.mp (hwalk p hmem)
    have hslots := (h.layout hheap hmem hn).2
    refine .slot ih (hslots ▸ ha) ?_
    rw [h.target (hheap.slot_not_mem hmem (hwalk p hmem) ha)]
    exact hq

theorem RootsOk.same (hroots : RootsOk s objs roots) (h : SameHeap objs s s') :
    RootsOk s' objs roots := by
  refine ⟨hroots.not_mem, fun a ha => ?_⟩
  rw [h.refOk, h.word a (hroots.not_mem a ha)]
  exact hroots.refs a ha

/-- What can be reached is reached along the edges of the graph. -/
theorem reachable_iff : Reachable env s roots p ↔
    ∃ r, (∃ a ∈ roots, objAt s (s.mem a) = some r) ∧
      Relation.ReflTransGen (fun p q => q ∈ succ env s p) r p := by
  constructor
  · intro hp
    induction hp with
    | root ha hp => exact ⟨_, ⟨_, ha, hp⟩, .refl⟩
    | slot _ ha hq ih =>
      obtain ⟨r, hr, hpath⟩ := ih
      exact ⟨r, hr, hpath.tail (List.mem_filterMap.mpr ⟨_, ha, hq⟩)⟩
  · rintro ⟨r, ⟨a, ha, hr⟩, hpath⟩
    induction hpath with
    | refl => exact .root ha hr
    | tail _ hstep ih =>
      obtain ⟨b, hb, hq⟩ := List.mem_filterMap.mp hstep
      exact .slot ih hb hq

end Same

/-! ## Marks in the flags -/

/-- The flags of the objects in `m` with their marks set. -/
def paint (mem : Nat → Nat) (m : Finset Nat) (w : Nat) : Nat :=
  if w ∈ m then mem w ||| 0x00000001 else mem w

/-- The state of the mark phase that has come to the marks `m`, at the given depth. -/
def State.marked (s : State) (m : Marks Nat) (depth : Nat) : State :=
  { s with mem := paint s.mem m.marked, abort := m.abort, depth := depth }

/-- A heap of known kinds without marks. -/
structure Cleared (env : Env) (s : State) (objs : List Nat) (size : Nat → Nat) : Prop where
  heapOf : HeapOf env s objs size
  walkable : ∀ p ∈ objs, Walkable env s.mem p
  unmarked : ∀ p ∈ objs, isMarked (s.mem p) = false

section Simulation

variable {env : Env} {s : State} {objs roots : List Nat} {size : Nat → Nat} {p v d k : Nat}
  {m : Marks Nat} {a : Slot}

theorem sameHeap_marked (hm : ∀ y ∈ m.marked, y ∈ objs) : SameHeap objs s (s.marked m d) where
  heap := rfl
  heapTop := rfl
  word w hw := if_neg fun hmem => hw (hm w hmem)
  kind p _ := by
    simp only [State.marked, paint]
    split
    · exact ofFlags_mark _
    · rfl

theorem Cleared.isMarked_paint (hc : Cleared env s objs size) (hp : p ∈ objs) (m : Finset Nat) :
    isMarked (paint s.mem m p) = decide (p ∈ m) := by
  unfold paint
  split
  · next hm => simp [hm]
  · next hm => simp [hm, hc.unmarked p hp]

/-- Setting the mark of one more object. -/
theorem marked_insert (hp : p ∉ m.marked) :
    (s.marked m d).setWord p (paint s.mem m.marked p ||| 0x00000001) =
      s.marked { m with marked := insert p m.marked } d := by
  simp only [State.marked, State.setWord]
  congr 1
  funext w
  by_cases hw : w = p
  · simp [paint, hw, hp]
  · simp [paint, hw]

theorem setWord_self (s : State) (w : Nat) : s.setWord w (s.mem w) = s := by
  simp only [State.setWord]
  congr 1
  funext w'
  split
  · next h => rw [h]
  · rfl

/-- What a search from a reference does to the marks. -/
def markFrom (env : Env) (s : State) (k : Nat) (m : Marks Nat) (o : Option Nat) : Marks Nat :=
  o.elim m fun q => mark (succ env s) k q m

theorem markFrom_inside (hheap : HeapOf env s objs size) (hm : ∀ y ∈ m.marked, y ∈ objs)
    {o : Option Nat} (ho : ∀ q, o = some q → q ∈ objs) :
    ∀ y ∈ (markFrom env s k m o).marked, y ∈ objs := by
  cases o with
  | none => exact hm
  | some q => exact mark_inside hheap.closed_succ k q (ho q rfl) m hm

/-- A callback for references that searches `k` objects deep. -/
def Searches (env : Env) (s : State) (objs : List Nat) (d k : Nat) (handle : HandleReference) : Prop :=
  ∀ v m, RefOk s objs v → (∀ y ∈ m.marked, y ∈ objs) →
    handle v (s.marked m d) = pure (none, s.marked (markFrom env s k m (objAt s v)) d)

theorem Searches.handleSlot {handle : HandleReference} (hh : Searches env s objs d k handle)
    (hok : SlotOk s objs a) (ha : a.addr ∉ objs) (hheap : HeapOf env s objs size)
    (hm : ∀ y ∈ m.marked, y ∈ objs) :
    handleSlot env handle (s.marked m d) a =
      pure (s.marked (markFrom env s k m (target s a)) d) := by
  have hword : ∀ m : Marks Nat, (∀ y ∈ m.marked, y ∈ objs) →
      (s.marked m d).mem a.addr = s.mem a.addr := fun m hm => (sameHeap_marked hm).word _ ha
  cases a with
  | ref a =>
    simp only [Slot.addr] at hword
    rw [GcCompacting.handleSlot, hword m hm, hh _ m hok hm]
    rfl
  | tcb a =>
    simp only [Slot.addr] at hword
    simp only [GcCompacting.handleSlot, target, hword m hm]
    split
    · rfl
    · next hne =>
      obtain ⟨hlt, href, hkind⟩ := hok.resolve_left hne
      rw [hh _ m href hm]
      have hm' := markFrom_inside (k := k) hheap hm (fun q hq => objAt_mem href hq)
      generalize markFrom env s k m (objAt s (s.mem a - 4)) = m' at hm'
      have hkind' := (sameHeap_marked (s := s) (d := d) hm').kind_word ((s.mem a - 4) / 4 - 2)
      -- the pointer that comes back is the one that was there
      have hthread : cpuState2thread env (s.marked m' d) (s.mem a - 4) = pure (s.mem a) := by
        rw [cpuState2thread, if_neg (by omega), State.getObjFlags, hkind']
        simp only [State.getObjFlags] at hkind
        simp only [hkind]
        rw [Nat.sub_add_cancel (by omega)]
      simp only [pure_bind, Option.getD_none, hthread]
      rw [← hword m' hm', setWord_self]

theorem Searches.walkContent {handle : HandleReference} (hh : Searches env s objs d k handle)
    (hc : Cleared env s objs size) (hp : p ∈ objs) (hm : ∀ y ∈ m.marked, y ∈ objs) :
    walkContent env handle (p + 2) (s.marked m d) =
      pure (s.marked (markAll (succ env s) k (succ env s p) m) d) := by
  have hsame := sameHeap_marked (s := s) (d := d) hm
  have hvtable : ((s.marked m d).mem (p + 2) = s.mem (p + 2)) := by
    have hthree := hc.heapOf.three_le p hp
    exact hsame.word _ (hc.heapOf.inside_not_mem hp (by omega) (by omega))
  obtain ⟨n, hn⟩ := Option.isSome_iff_exists.mp (hc.walkable p hp)
  have hstep : ∀ a ∈ slots env s.mem (p + 2), ∀ m : Marks Nat, (∀ y ∈ m.marked, y ∈ objs) →
      GcCompacting.handleSlot env handle (s.marked m d) a =
        pure (s.marked (markFrom env s k m (target s a)) d) ∧
      ∀ y ∈ (markFrom env s k m (target s a)).marked, y ∈ objs := fun a ha m hm => by
    have hok := hc.heapOf.slots p hp a ha
    exact ⟨hh.handleSlot hok (hc.heapOf.slot_not_mem hp (hc.walkable p hp) ha) hc.heapOf hm,
      markFrom_inside hc.heapOf hm fun q hq => target_mem hok hq⟩
  have hfold := foldlM_eq (f := fun m => s.marked m d) _ hstep m hm
  have hmarks : (slots env s.mem (p + 2)).foldl (fun m a => markFrom env s k m (target s a)) m =
      markAll (succ env s) k (succ env s p) m := by
    rw [markAll, succ, List.foldl_filterMap]
    congr 1
    funext m a
    cases target s a <;> rfl
  rw [hmarks] at hfold
  rw [GcCompacting.walkContent, (hsame.layout hc.heapOf hp hn).2, hvtable, State.getObjFlags,
    Nat.add_sub_cancel, hsame.kind p hp]
  split
  · next hkind =>
    rw [assert_pos (hc.heapOf.vtable p hp hkind), pure_bind]
    exact hfold.1
  · exact hfold.1

theorem getObjFlags_ref (m : Marks Nat) (q : Nat) :
    (s.marked m d).getObjFlags (ref q / 4) = paint s.mem m.marked q := by
  rw [State.getObjFlags, ref_div_four, Nat.add_sub_cancel]
  rfl

/-- A reference leads out of the heap or to an object. -/
theorem RefOk.cases (hv : RefOk s objs v) :
    objAt s v = none ∧ (v = 0 ∨ ¬ s.isInHeap v) ∨
      ∃ q ∈ objs, v = ref q ∧ v ≠ 0 ∧ s.isInHeap v ∧ objAt s v = some q := by
  by_cases hin : v ≠ 0 ∧ s.isInHeap v
  · right
    obtain ⟨q, hq, rfl⟩ := (hv.resolve_left hin.1).resolve_left (not_not.mpr hin.2)
    refine ⟨q, hq, rfl, hin.1, hin.2, ?_⟩
    rw [objAt, if_pos hin, ref_div_four, Nat.add_sub_cancel]
  · left
    refine ⟨if_neg hin, ?_⟩
    by_cases hzero : v = 0
    · exact .inl hzero
    · exact .inr fun h => hin ⟨hzero, h⟩

theorem markCB3_outside {s : State} (hv : v = 0 ∨ ¬ s.isInHeap v) (n : Nat) :
    markCB3 env (n + 1) v s = pure (none, s) := by
  rw [markCB3]
  split
  · rfl
  · next hzero => rw [if_pos (hv.resolve_left hzero)]

/-- `markCB3` is the search of the graph. The recursion is on the depth that is left. -/
theorem markCB3_searches (hc : Cleared env s objs size) (hk : k ≤ 11) (fuel : Nat) (hfuel : k < fuel) :
    Searches env s objs (11 - k) k (markCB3 env fuel) := by
  induction k generalizing fuel with
  | zero =>
    intro v m hv hm
    obtain ⟨n, rfl⟩ := Nat.exists_eq_add_of_lt hfuel
    rcases hv.cases with ⟨hnone, hout⟩ | ⟨q, hq, rfl, hzero, hin, hobj⟩
    · rw [hnone, markCB3_outside (s := s.marked m _) hout]
      rfl
    · rw [markCB3, if_neg hzero,
        if_neg (show ¬ ¬ (s.marked m _).isInHeap (ref q) from not_not.mpr hin), hobj]
      simp only [getObjFlags_ref, hc.isMarked_paint hq, decide_eq_true_eq, markFrom, Option.elim, mark]
      split
      · rfl
      · rfl
  | succ k ih =>
    intro v m hv hm
    obtain ⟨n, rfl⟩ := Nat.exists_eq_add_of_lt hfuel
    rcases hv.cases with ⟨hnone, hout⟩ | ⟨q, hq, rfl, hzero, hin, hobj⟩
    · rw [hnone, markCB3_outside (s := s.marked m _) hout]
      rfl
    · rw [markCB3, if_neg hzero,
        if_neg (show ¬ ¬ (s.marked m _).isInHeap (ref q) from not_not.mpr hin), hobj]
      simp only [getObjFlags_ref, hc.isMarked_paint hq, decide_eq_true_eq, markFrom, Option.elim, mark]
      split
      · rfl
      · next hnew =>
        have hdepth : ¬ (s.marked m (11 - (k + 1))).depth > 10 := by
          simp only [State.marked]
          omega
        have hinside : ∀ y ∈ insert q m.marked, y ∈ objs := by
          simpa [hq] using hm
        have hwalk := (ih (by omega) (k + 1 + n) (by omega)).walkContent hc hq
          (m := { m with marked := insert q m.marked }) hinside
        have hnext : { s.marked { m with marked := insert q m.marked } (11 - (k + 1)) with
            depth := (s.marked { m with marked := insert q m.marked } (11 - (k + 1))).depth + 1 } =
            s.marked { m with marked := insert q m.marked } (11 - k) := by
          simp only [State.marked]
          congr 1
          omega
        rw [if_neg hdepth, State.setObjFlags, ref_div_four, Nat.add_sub_cancel, marked_insert hnew,
          hnext, hwalk, pure_bind]
        congr 2

end Simulation

/-! ## The phases -/

section Phases

variable {env : Env} {s : State} {objs roots : List Nat} {size : Nat → Nat} {p : Nat} {m m' : Marks Nat}

theorem Cleared.visit_mark2 (hc : Cleared env s objs size) (hp : p ∈ objs)
    (hm : ∀ y ∈ m.marked, y ∈ objs) {fuel : Nat} (hfuel : 11 < fuel) (d : Nat) :
    visit env (.all (mark2CB env fuel)) p (s.marked m d) =
      pure (size p, s.marked (scan (succ env s) 11 m p) 0) := by
  obtain ⟨n, hn⟩ := Option.isSome_iff_exists.mp (hc.walkable p hp)
  have hn' := ((sameHeap_marked (d := d) hm).layout hc.heapOf hp hn).1
  have hflags : isMarked ((s.marked m d).mem p) = decide (p ∈ m.marked) := hc.isMarked_paint hp _
  have hwalk := (markCB3_searches hc (Nat.le_refl 11) fuel hfuel).walkContent hc hp hm
  rw [visit_eq hn', of_all _ hn', hc.heapOf.size_of p hp n hn]
  simp only [mark2CB, hflags, decide_eq_true_eq, scan]
  split
  · exact congrArg (Functor.map (Prod.mk n)) hwalk
  · rfl

theorem scan_inside_objs (hc : Cleared env s objs size) (hm : ∀ y ∈ m.marked, y ∈ objs) (p : Nat) :
    ∀ y ∈ (scan (succ env s) 11 m p).marked, y ∈ objs :=
  scan_inside hc.heapOf.closed_succ 11 m p hm

/-- The depth that a pass leaves behind. -/
def lastDepth (objs : List Nat) (d : Nat) : Nat := if objs = [] then d else 0

theorem lastDepth_lastDepth (objs : List Nat) (d : Nat) :
    lastDepth objs (lastDepth objs d) = lastDepth objs d := by
  unfold lastDepth
  split <;> rfl

theorem foldl_scan_depth (l : List Nat) (t : Marks Nat × Nat) :
    l.foldl (fun t p => (scan (succ env s) 11 t.1 p, 0)) t =
      (l.foldl (scan (succ env s) 11) t.1, lastDepth l t.2) := by
  induction l generalizing t with
  | nil => rfl
  | cons p l ih =>
    rw [List.foldl_cons, ih]
    simp [lastDepth]

/-- One pass of the loop is one pass over the graph. -/
theorem Cleared.walkHeap_mark2 (hc : Cleared env s objs size) (hm : ∀ y ∈ m.marked, y ∈ objs)
    {fuel : Nat} (hfuel : 11 < fuel) (hlen : objs.length < fuel) (d : Nat) :
    walkHeap env (.all (mark2CB env fuel)) fuel { s.marked m d with abort := 0 } =
      pure (s.marked (pass (succ env s) 11 objs m) (lastDepth objs d)) := by
  have hwalk := walkHeap_eq (h := .all (mark2CB env fuel))
    (f := fun t : Marks Nat × Nat => s.marked t.1 t.2)
    (g := fun t p => (scan (succ env s) 11 t.1 p, 0))
    (I := fun _ t => ∀ y ∈ t.1.marked, y ∈ objs) (t := ({ m with abort := 0 }, d))
    (fun l q r t hsplit ht => by
      have hq : q ∈ objs := by simp [hsplit]
      exact ⟨hc.visit_mark2 hq ht hfuel t.2, scan_inside_objs hc ht q⟩)
    hc.heapOf.tiled hc.heapOf.pos hm hlen
  rw [foldl_scan_depth] at hwalk
  exact hwalk.1

theorem Cleared.markLoop_eq (hc : Cleared env s objs size) {fuel : Nat} (hfuel : 11 < fuel)
    (hlen : objs.length < fuel) (n : Nat) (d : Nat) (hm : ∀ y ∈ m.marked, y ∈ objs)
    (hpasses : passes (succ env s) 11 objs n m = some m') :
    markLoop env fuel n (s.marked m d) = pure (s.marked m' (lastDepth objs d)) := by
  induction n generalizing m d with
  | zero => cases hpasses
  | succ n ih =>
    rw [markLoop, hc.walkHeap_mark2 hm hfuel hlen d, pure_bind]
    simp only [passes] at hpasses
    split at hpasses
    · next habort =>
      have hrest := ih (lastDepth objs d) (pass_inside hc.heapOf.closed_succ hm) hpasses
      rw [lastDepth_lastDepth] at hrest
      exact (if_pos habort).trans hrest
    · next habort =>
      cases hpasses
      exact if_neg habort

/-- What `markCB` does to the marks. -/
def markRoot (s : State) (m : Marks Nat) (a : Slot) : Marks Nat :=
  (target s a).elim m fun q => { m with marked := insert q m.marked }

theorem Cleared.markCB_eq (hc : Cleared env s objs size) {v : Nat} (hv : RefOk s objs v) (d : Nat) :
    markCB v (s.marked m d) =
      pure (none, s.marked ((objAt s v).elim m fun q => { m with marked := insert q m.marked }) d) := by
  rcases hv.cases with ⟨hnone, hout⟩ | ⟨q, hq, rfl, hzero, hin, hobj⟩
  · rw [hnone, markCB]
    split
    · rfl
    · next hzero =>
      rw [if_pos (show ¬ (s.marked m d).isInHeap v from hout.resolve_left hzero)]
      rfl
  · rw [markCB, if_neg hzero, if_neg (show ¬ ¬ (s.marked m d).isInHeap (ref q) from not_not.mpr hin),
      hobj]
    simp only [getObjFlags_ref, hc.isMarked_paint hq, decide_eq_true_eq, Option.elim]
    split
    · next hold => rw [Finset.insert_eq_of_mem hold]
    · next hnew =>
      rw [State.setObjFlags, ref_div_four, Nat.add_sub_cancel, marked_insert hnew]

theorem Cleared.walkRootSet_eq (hc : Cleared env s objs size) (hroots : RootsOk s objs roots)
    (hm : ∀ y ∈ m.marked, y ∈ objs) (d : Nat) :
    walkRootSet env markCB roots (s.marked m d) =
        pure (s.marked ((roots.map Slot.ref).foldl (markRoot s) m) d) ∧
      ∀ y ∈ ((roots.map Slot.ref).foldl (markRoot s) m).marked, y ∈ objs := by
  refine foldlM_eq (f := fun m => s.marked m d) (I := fun m => ∀ y ∈ m.marked, y ∈ objs) _
    (fun a ha m hm => ?_) m hm
  obtain ⟨a, hmem, rfl⟩ := List.mem_map.mp ha
  have href := hroots.refs a hmem
  have hword : (s.marked m d).mem a = s.mem a := (sameHeap_marked hm).word a (hroots.not_mem a hmem)
  refine ⟨?_, fun y hy => ?_⟩
  · rw [handleSlot, hword, hc.markCB_eq href]
    rfl
  · simp only [markRoot, target] at hy
    cases hobj : objAt s (s.mem a) with
    | none =>
      rw [hobj] at hy
      exact hm y hy
    | some q =>
      rw [hobj] at hy
      rcases Finset.mem_insert.mp hy with rfl | hy
      · exact objAt_mem href hobj
      · exact hm y hy

theorem mem_foldl_markRoot (l : List Slot) (m : Marks Nat) (p : Nat) :
    p ∈ (l.foldl (markRoot s) m).marked ↔ p ∈ m.marked ∨ ∃ a ∈ l, target s a = some p := by
  induction l generalizing m with
  | nil => simp
  | cons a l ih =>
    rw [List.foldl_cons, ih]
    cases ha : target s a with
    | none => simp [markRoot, ha]
    | some q =>
      simp only [markRoot, ha, Option.elim, Finset.mem_insert, List.mem_cons, exists_eq_or_imp,
        Option.some.injEq]
      grind

/-- From a heap without marks on, the marks are those of the objects that can be reached. -/
theorem Cleared.mark_spec (hc : Cleared env s objs size) (hroots : RootsOk s objs roots) :
    ∃ s', Returns (fun fuel => walkRootSet env markCB roots s >>= markLoop env fuel fuel) s' ∧
      ∀ p ∈ objs, isMarked (s'.mem p) = true ↔ Reachable env s roots p := by
  have hstart : s = s.marked ⟨∅, s.abort⟩ s.depth := by
    have hpaint : paint s.mem ∅ = s.mem := by
      funext w
      simp [paint]
    simp only [State.marked, hpaint]
  obtain ⟨hwalk, hinside⟩ := hc.walkRootSet_eq hroots (m := ⟨∅, s.abort⟩) (by simp) s.depth
  rw [← hstart] at hwalk
  obtain ⟨m', hpasses, hreach⟩ := exists_passes (d := 10) hc.heapOf.closed_succ hinside
  refine ⟨s.marked m' (lastDepth objs s.depth), ⟨max 11 objs.length + 1, fun fuel hfuel => ?_⟩,
    fun p hp => ?_⟩
  · have h11 := Nat.le_max_left 11 objs.length
    have hlen := Nat.le_max_right 11 objs.length
    change walkRootSet env markCB roots s >>= markLoop env fuel fuel = _
    rw [hwalk, pure_bind]
    exact hc.markLoop_eq (by omega) (by omega) fuel s.depth hinside (hpasses fuel (by omega))
  · have hmark : isMarked ((s.marked m' (lastDepth objs s.depth)).mem p) = decide (p ∈ m'.marked) :=
      hc.isMarked_paint hp _
    rw [hmark, decide_eq_true_eq, hreach, reachable_iff]
    simp [mem_foldl_markRoot, target]

end Phases

/-! ## Clearing the marks -/

/-- The state in which the marks of the objects in `l` have been cleared. -/
def State.cleared (s : State) (l : List Nat) : State :=
  { s with mem := fun w => if w ∈ l then s.mem w &&& 0xfffffffe else s.mem w }

section Clear

variable {env : Env} {s : State} {objs roots l : List Nat} {size : Nat → Nat} {p : Nat}

theorem sameHeap_cleared (hl : ∀ p ∈ l, p ∈ objs) : SameHeap objs s (s.cleared l) where
  heap := rfl
  heapTop := rfl
  word w hw := if_neg fun hmem => hw (hl w hmem)
  kind p _ := by
    simp only [State.cleared]
    split
    · exact ofFlags_clear _
    · rfl

theorem cleared_append (hp : p ∉ l) :
    (s.cleared l).setObjFlags (p + 2) ((s.cleared l).getObjFlags (p + 2) &&& 0xfffffffe) =
      s.cleared (l ++ [p]) := by
  simp only [State.cleared, State.setObjFlags, State.getObjFlags, State.setWord,
    Nat.add_sub_cancel, if_neg hp]
  congr 1
  funext w
  by_cases hw : w = p
  · simp [hw]
  · simp [hw]

/-- Before a visit, the objects in front have been cleared. -/
theorem HeapOf.visit_clear (hheap : HeapOf env s objs size) {r : List Nat}
    (hsplit : objs = l ++ p :: r) (hwalk : Walkable env s.mem p) :
    visit env (.all clearMarkCB) p (s.cleared l) = pure (size p, s.cleared (l ++ [p])) := by
  have hp : p ∈ objs := by simp [hsplit]
  have hnew : p ∉ l := fun hl => by
    have hnodup := hheap.nodup
    rw [hsplit, List.nodup_append] at hnodup
    exact hnodup.2.2 p hl p List.mem_cons_self rfl
  obtain ⟨n, hn⟩ := Option.isSome_iff_exists.mp hwalk
  have hn' := ((sameHeap_cleared (l := l) fun q hq => by simp [hsplit, hq]).layout hheap hp hn).1
  rw [visit_eq hn', of_all _ hn', hheap.size_of p hp n hn, clearMarkCB, cleared_append hnew]
  rfl

/-- The walk that clears the marks, as far as there are only known kinds. -/
theorem HeapOf.walk_clear (hheap : HeapOf env s objs size) {l r : List Nat} {mid : Nat}
    (hsplit : objs = l ++ r) (hwalk : ∀ p ∈ l, Walkable env s.mem p)
    (htiled : Tiled id size s.heap l mid) (hmid : mid ≤ s.heapTop) (n : Nat) :
    walkContinuesBlockAlt env (.all clearMarkCB) s.heapTop (l.length + n) s.heap s =
      walkContinuesBlockAlt env (.all clearMarkCB) s.heapTop n mid (s.cleared l) := by
  have hstart : s = s.cleared [] := by
    simp [State.cleared]
  have hfold : walkContinuesBlockAlt env (.all clearMarkCB) s.heapTop (l.length + n) s.heap
        (s.cleared []) =
      walkContinuesBlockAlt env (.all clearMarkCB) s.heapTop n mid
        (s.cleared (l.foldl (fun l p => l ++ [p]) [])) ∧ l.foldl (fun l p => l ++ [p]) [] = [] ++ l :=
    walk_append (g := fun l p => l ++ [p]) (I := fun done t => t = done) l [] []
    (fun l' q r' t hl ht => by
      rw [ht, List.nil_append]
      refine ⟨hheap.visit_clear (r := r' ++ r) ?_ (hwalk q ?_), rfl⟩
      · rw [hsplit, hl, List.append_assoc, List.cons_append]
      · simp [hl])
    htiled (fun q hq => hheap.pos q (by simp [hsplit, hq])) hmid rfl n
  rw [hfold.2, List.nil_append] at hfold
  rw [← hstart] at hfold
  exact hfold.1

/-- After the first walk there are no marks. -/
theorem HeapOf.cleared (hheap : HeapOf env s objs size)
    (hwalk : ∀ p ∈ objs, Walkable env s.mem p) : Cleared env (s.cleared objs) objs size := by
  obtain ⟨hheap', hwalk'⟩ := hheap.same hwalk (sameHeap_cleared (l := objs) fun _ hp => hp)
  refine ⟨hheap', hwalk', fun p hp => ?_⟩
  simp only [State.cleared, if_pos hp]
  exact isMarked_clear _

theorem HeapOf.marksExactly (hheap : HeapOf env s objs size)
    (hwalk : ∀ p ∈ objs, Walkable env s.mem p) (hroots : RootsOk s objs roots) :
    MarksExactly env s objs roots := by
  have hsame : SameHeap objs s (s.cleared objs) := sameHeap_cleared fun _ hp => hp
  obtain ⟨s', ⟨N, hN⟩, hmarks⟩ := (hheap.cleared hwalk).mark_spec (hroots.same hsame)
  refine ⟨s', ⟨max N (objs.length + 1), fun fuel hfuel => ?_⟩, fun p hp => ?_⟩
  · have hlen := Nat.le_max_right N (objs.length + 1)
    obtain ⟨n, rfl⟩ := Nat.exists_eq_add_of_le (show objs.length + 1 ≤ fuel by omega)
    have hclear := hheap.walk_clear (r := []) (by simp) hwalk hheap.tiled (Nat.le_refl _) (n + 1)
    rw [walkContinuesBlockAlt, if_neg (Nat.lt_irrefl _)] at hclear
    have hrest := hN (objs.length + 1 + n) (by omega)
    simp only [markPhase, walkHeap]
    rw [show objs.length + 1 + n = objs.length + (n + 1) by omega] at hrest ⊢
    rw [hclear, pure_bind]
    exact hrest
  · rw [hmarks p hp]
    constructor
    · exact Reachable.same (hheap.cleared hwalk).heapOf (hheap.cleared hwalk).walkable
        (hroots.same hsame) hsame.symm
    · exact Reachable.same hheap hwalk hroots hsame

/-- An object that cannot be walked over ends the collection, whatever is in the place of the
callback for domain proxies as long as it does not come back. -/
theorem HeapOf.not_marksExactly (hheap : HeapOf env s objs size)
    (hstray : ∀ obj n flags s t, env.handleDomainProxy obj n flags s ≠ pure t)
    (hp : p ∈ objs) (hwalk : ¬ Walkable env s.mem p) : ¬ MarksExactly env s objs roots := by
  -- the first such object, and the walk up to there
  obtain ⟨l, q, r, hsplit, hfront, hq⟩ : ∃ l q r, objs = l ++ q :: r ∧
      (∀ p ∈ l, Walkable env s.mem p) ∧ ¬ Walkable env s.mem q := by
    clear hheap
    induction objs with
    | nil => cases hp
    | cons x xs ih =>
      by_cases hx : Walkable env s.mem x
      · have hmem : p ∈ xs := (List.mem_cons.mp hp).resolve_left fun h => hwalk (h ▸ hx)
        obtain ⟨l, q, r, rfl, hfront, hq⟩ := ih hmem
        exact ⟨x :: l, q, r, rfl, by simpa [hx] using hfront, hq⟩
      · exact ⟨[], x, xs, rfl, by simp, hx⟩
  rintro ⟨s', ⟨N, hN⟩, -⟩
  have htiled := hheap.tiled
  rw [hsplit] at htiled
  obtain ⟨mid, hleft, hright⟩ := htiled.of_append
  have hstart : q = mid := hright.1
  have hmem : q ∈ objs := by simp [hsplit]
  have hsize := hheap.pos q hmem
  have hbound : mid + size q ≤ s.heapTop := hright.2.base_le
  have hclear := hheap.walk_clear hsplit hfront hleft (by omega) (N + 1)
  have hsame : SameHeap objs s (s.cleared l) := sameHeap_cleared fun p hl => by simp [hsplit, hl]
  obtain ⟨s'', hwalk', -⟩ := bind_eq_pure (hN (l.length + (N + 1)) (by omega))
  rw [walkHeap, hclear, walkContinuesBlockAlt, if_pos (by omega)] at hwalk'
  obtain ⟨x, hvisit, -⟩ := bind_eq_pure hwalk'
  rw [← hstart] at hvisit
  refine visit_ne_pure ?_ ?_ hstray hvisit
  · rw [← Option.not_isSome_iff_eq_none]
    exact fun h => hq ((walkable_congr (hsame.kind q hmem)).mp h)
  · rw [hsame.kind q hmem]
    exact hheap.no_pool q hmem

end Clear

/-- The marks are right if the heap holds nothing but objects, arrays, portals, memory objects,
services, atomic variables and CAS objects, and not otherwise. Nobody knows what is in the place of
the callback that the calls leave out. -/
theorem marksExactly_iff {env : Env} {s : State} {objs roots : List Nat} {size : Nat → Nat}
    (hheap : HeapOf env s objs size) (hroots : RootsOk s objs roots) :
    (∀ stray, MarksExactly { env with handleDomainProxy := stray } s objs roots) ↔
      ∀ p ∈ objs, Walkable env s.mem p := by
  have hheap' : ∀ stray, HeapOf { env with handleDomainProxy := stray } s objs size := fun _ =>
    ⟨hheap.tiled, hheap.three_le, hheap.size_of, hheap.vtable, hheap.slots, hheap.no_pool⟩
  constructor
  · intro hall p hp
    by_contra hwalk
    exact (hheap' fun _ _ _ _ => throw (.panic "")).not_marksExactly (by nofun) hp hwalk (hall _)
  · intro hwalk stray
    exact (hheap' stray).marksExactly hwalk hroots

/-- Every class has two fields, both references, and every array is one of references. -/
def exampleEnv : Env where
  classDesc := fun _ => ⟨2, [3]⟩
  arrayName := fun _ => ['[', 'L', 'A', ';']
  sizeofServiceThreadPool := 16
  findThreadDesc := fun _ => 0
  memoryDeleted := fun _ s => pure s
  handleDomainProxy := skip

/-- A root at word 10, and in the heap an object and an array that refer to each other and a portal
that nobody refers to. -/
def exampleState : State where
  mem w :=
    ([(10, 408), (100, 0x02), (101, magicObject), (102, 4000), (103, 432), (106, 0x16),
      (107, magicObject), (108, 4000), (109, 5000), (110, 1), (111, 408), (112, 0x04),
      (113, magicObject), (114, 4000)].lookup w).getD 0
  heap := 100
  heapTop := 118
  heapBorder := 200
  depth := 0
  abort := 0
  data := 0

theorem heapOf_exampleState : HeapOf exampleEnv exampleState [100, 106, 112] fun _ => 6 where
  tiled := ⟨rfl, rfl, rfl, rfl⟩
  three_le := by decide
  size_of := by
    simp only [List.forall_mem_cons]
    exact ⟨fun _ hn => Option.some.inj hn, fun _ hn => Option.some.inj hn,
      fun _ hn => Option.some.inj hn, nofun⟩
  vtable := by decide
  slots := by
    have hobject : slots exampleEnv exampleState.mem 102 = [.ref 103, .ref 104] := rfl
    have harray : slots exampleEnv exampleState.mem 108 = [.ref 111] := rfl
    have hportal : slots exampleEnv exampleState.mem 114 = [] := rfl
    simp only [List.forall_mem_cons, Nat.reduceAdd, hobject, harray, hportal]
    exact ⟨⟨.inr (.inr ⟨106, by decide, rfl⟩), .inl rfl, nofun⟩,
      ⟨.inr (.inr ⟨100, by decide, rfl⟩), nofun⟩, nofun, nofun⟩
  no_pool := by decide

theorem rootsOk_exampleState : RootsOk exampleState [100, 106, 112] [10] where
  not_mem := by decide
  refs := by
    simp only [List.forall_mem_cons]
    exact ⟨.inr (.inr ⟨100, by decide, rfl⟩), nofun⟩

theorem marksExactly_exampleState :
    (∀ p ∈ [100, 106, 112], Walkable exampleEnv exampleState.mem p) ∧
      MarksExactly exampleEnv exampleState [100, 106, 112] [10] := by
  have hwalk : ∀ p ∈ [100, 106, 112], Walkable exampleEnv exampleState.mem p := by decide
  exact ⟨hwalk, (marksExactly_iff heapOf_exampleState rootsOk_exampleState).mpr hwalk skip⟩

/-- A heap that holds the descriptor of a thread. -/
def threadState : State :=
  { exampleState with
    mem := fun w => ([(100, 0x0e), (101, magicObject), (102, 4000)].lookup w).getD 0
    heapTop := 200 }

theorem not_marksExactly_thread : ¬ ∀ (env : Env) (s : State) (objs roots : List Nat)
    (size : Nat → Nat), HeapOf env s objs size → RootsOk s objs roots →
      MarksExactly env s objs roots := by
  intro hall
  have hheap : HeapOf { exampleEnv with handleDomainProxy := fun _ _ _ _ => throw (.panic "") }
      threadState [100] fun _ => 100 :=
    ⟨⟨rfl, rfl⟩, by decide, by simpa only [List.forall_mem_cons] using ⟨by nofun, by nofun⟩,
      by decide, by
        simp only [List.forall_mem_cons]
        exact ⟨by nofun, nofun⟩, by decide⟩
  exact hheap.not_marksExactly (by nofun) (p := 100) (by decide) (by decide)
    (hall _ _ _ [] _ hheap ⟨nofun, nofun⟩)

end JxCore.GcCompacting
