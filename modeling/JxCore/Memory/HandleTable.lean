import JxCore.Memory.GcNewAlloc
import Mathlib.Data.List.Nodup
import Mathlib.Data.PEquiv
import Mathlib.Tactic.SplitIfs

/-!
# Handles (`nonatomic_registerObject` in `Memory/gc.c`)

A routine of the kernel that needs an object across a collection registers it in a table of its
domain and works with the slot. The table has no other bookkeeping than its contents: a slot is free
when it holds `NULL`. So an object must not be at address zero, neither when it is registered nor
after a collection has moved it.

Where an object is, is a partial bijection between addresses and objects; a collection is one
between addresses before and addresses after. Only real objects are registered: the allocators
register what they have just made.
-/

namespace JxCore.HandleTable

open GcNewAlloc (maxRegistered)

/-- The identity of an object, which it keeps when it is moved. -/
abbrev Obj := Nat

/-- `domain->gc.registeredObjects`, with zero for `NULL`; a handle is the index of a slot. -/
abbrev Table := Nat → Nat

/-! ## The routines -/

/-- `nonatomic_registerObject` of a domain. -/
def nonatomicRegisterObject (table : Table) (o : Nat) : Except Stop (Nat × Table) :=
  match (List.range maxRegistered).find? fun i => table i = 0 with
  | some i => .ok (i, Function.update table i o)
  | none => .error (.panic "maximal number of registered objects reached for this domain")

/-- `nonatomic_unregisterObject` of a domain, for one of its handles. -/
def nonatomicUnregisterObject (table : Table) (o : Nat) : Nat × Table :=
  (table o, Function.update table o 0)

/-- `gc_common_move_reference`, when the collection puts the object at `a` to `move a`. -/
def moveReference (move : Nat ≃. Nat) (ref : Nat) : Nat :=
  if ref = 0 then ref else if ref ≤ 0xfff then ref else (move ref).getD ref

/-- `walkRegistereds` -/
def walkRegistereds (move : Nat ≃. Nat) (table : Table) : Table :=
  (List.range maxRegistered).foldl
    (fun t i => if t i ≠ 0 then Function.update t i (moveReference move (t i)) else t) table

/-! ## Runs -/

structure State where
  registeredObjects : Table
  /-- The object that is at an address. -/
  objects : Nat ≃. Obj
  /-- The first page is no heap. -/
  high : ∀ a x, x ∈ objects a → 0xfff < a
  /-- The handles in use, each with the object it was registered for. -/
  handles : List (Nat × Obj)

/-- After `gc_init`. -/
def State.init : State where
  registeredObjects _ := 0
  objects := ⊥
  high _ _ h := absurd h (Option.not_mem_none _)
  handles := []

/-- A collection moves what the handles point to, and nothing to the first page. -/
structure Moves (s : State) (move : Nat ≃. Nat) : Prop where
  keeps : ∀ i < maxRegistered, s.registeredObjects i ≠ 0 → (move (s.registeredObjects i)).isSome
  high : ∀ a b, b ∈ move a → 0xfff < b

/-- Where the objects are after a collection. -/
theorem Moves.objects_high {s : State} {move : Nat ≃. Nat} (h : Moves s move) (b : Nat)
    (x : Obj) (hx : x ∈ (move.symm.trans s.objects) b) : 0xfff < b := by
  obtain ⟨a, ha, -⟩ := (PEquiv.mem_trans _ _ _ _).mp hx
  exact h.high a b ((PEquiv.mem_iff_mem move).mp ha)

inductive Step (s : State) : State → Prop where
  | register {o : Nat} {x : Obj} (hx : x ∈ s.objects o) {i : Nat} {table : Table}
      (hrun : nonatomicRegisterObject s.registeredObjects o = .ok (i, table)) :
      Step s { s with registeredObjects := table, handles := (i, x) :: s.handles }
  | unregister {i : Nat} {x : Obj} (hi : (i, x) ∈ s.handles) :
      Step s { s with
        registeredObjects := (nonatomicUnregisterObject s.registeredObjects i).2
        handles := s.handles.erase (i, x) }
  | collect (move : Nat ≃. Nat) (h : Moves s move) :
      Step s { s with
        registeredObjects := walkRegistereds move s.registeredObjects
        objects := move.symm.trans s.objects
        high := h.objects_high }
  /-- Objects are made. -/
  | alloc (objects : Nat ≃. Obj) (hold : ∀ a x, x ∈ s.objects a → x ∈ objects a)
      (hhigh : ∀ a x, x ∈ objects a → 0xfff < a) : Step s { s with objects, high := hhigh }

/-! ## The table -/

section Table

variable {table table' : Table} {o : Nat} {i : Nat}

theorem register_ok (h : nonatomicRegisterObject table o = .ok (i, table')) :
    i < maxRegistered ∧ table i = 0 ∧ table' = Function.update table i o := by
  unfold nonatomicRegisterObject at h
  cases hfind : (List.range maxRegistered).find? fun i => table i = 0 with
  | none =>
    rw [hfind] at h
    cases h
  | some j =>
    rw [hfind] at h
    cases h
    exact ⟨List.mem_range.mp (List.mem_of_find?_eq_some hfind),
      of_decide_eq_true (List.find?_some (p := fun i => decide (table i = 0)) hfind), rfl⟩

/-- Registration fails only if no slot is free. -/
theorem register_error {e : Stop} (h : nonatomicRegisterObject table o = .error e) :
    ∀ i < maxRegistered, table i ≠ 0 := by
  unfold nonatomicRegisterObject at h
  cases hfind : (List.range maxRegistered).find? fun i => table i = 0 with
  | none =>
    intro i hi hzero
    exact List.find?_eq_none.mp hfind i (List.mem_range.mpr hi) (decide_eq_true hzero)
  | some j =>
    rw [hfind] at h
    cases h

/-- The scan of the table moves each slot on its own. -/
theorem walkRegistereds_eq (move : Nat ≃. Nat) (table : Table) (i : Nat) :
    walkRegistereds move table i =
      if i < maxRegistered then moveReference move (table i) else table i := by
  suffices hprefix : ∀ n i, (List.range n).foldl
      (fun t i => if t i ≠ 0 then Function.update t i (moveReference move (t i)) else t) table i =
      if i < n then moveReference move (table i) else table i from hprefix maxRegistered i
  intro n
  induction n with
  | zero => exact fun i => rfl
  | succ n ih =>
    intro i
    rw [List.range_succ, List.foldl_append]
    simp only [List.foldl_cons, List.foldl_nil]
    have hn := ih n
    rw [if_neg (Nat.lt_irrefl n)] at hn
    rw [hn]
    by_cases hin : i = n
    · subst hin
      rw [if_pos (Nat.lt_succ_self i)]
      split_ifs with hzero
      · rw [Function.update_self]
      · rw [hn, not_not.mp hzero]
        rfl
    · have hlt : i < n + 1 ↔ i < n := by omega
      have hsame : ∀ t : Table, (if table n ≠ 0 then Function.update t n (moveReference move (table n))
          else t) i = t i := by
        intro t
        split_ifs
        · exact Function.update_of_ne hin _ _
        · rfl
      rw [hsame, ih i]
      simp only [hlt]

theorem moveReference_of_mem {move : Nat ≃. Nat} {a b : Nat} (hhigh : 0xfff < a)
    (h : b ∈ move a) : moveReference move a = b := by
  have hmove : move a = some b := h
  rw [moveReference, if_neg (by omega), if_neg (by omega), hmove, Option.getD_some]

end Table

/-! ## Invariant -/

/-- A slot is free exactly when no handle in use names it; a handle leads to its object. -/
structure Inv (s : State) : Prop where
  distinct : (s.handles.map Prod.fst).Nodup
  slot : ∀ h ∈ s.handles, h.1 < maxRegistered
  deref : ∀ h ∈ s.handles, h.2 ∈ s.objects (s.registeredObjects h.1)
  used : ∀ i < maxRegistered, s.registeredObjects i ≠ 0 → i ∈ s.handles.map Prod.fst

namespace Inv

variable {s : State}

theorem init : Inv .init where
  distinct := List.nodup_nil
  slot _ hh := absurd hh List.not_mem_nil
  deref _ hh := absurd hh List.not_mem_nil
  used _ _ hne := absurd rfl hne

/-- The slot of a handle holds an address of the heap. -/
theorem slot_high (h : Inv s) {i : Nat} {x : Obj} (hi : (i, x) ∈ s.handles) :
    0xfff < s.registeredObjects i := s.high _ x (h.deref _ hi)

/-- Two handles with one slot are the same. -/
theorem eq_of_slot (h : Inv s) {p q : Nat × Obj} (hp : p ∈ s.handles) (hq : q ∈ s.handles)
    (heq : p.1 = q.1) : p = q :=
  List.inj_on_of_nodup_map h.distinct hp hq heq

theorem register (h : Inv s) {o : Nat} {x : Obj} (hx : x ∈ s.objects o) {i : Nat} {table : Table}
    (hrun : nonatomicRegisterObject s.registeredObjects o = .ok (i, table)) :
    Inv { s with registeredObjects := table, handles := (i, x) :: s.handles } := by
  obtain ⟨hi, hfree, rfl⟩ := register_ok hrun
  -- the slots of the handles in use are not free, so the new one is none of them
  have hne : ∀ p ∈ s.handles, p.1 ≠ i := by
    rintro ⟨j, y⟩ hp rfl
    have hhigh := h.slot_high hp
    rw [hfree] at hhigh
    exact absurd hhigh (Nat.not_lt_zero _)
  have hnew : i ∉ s.handles.map Prod.fst := by
    intro hmem
    obtain ⟨p, hp, heq⟩ := List.mem_map.mp hmem
    exact hne p hp heq
  refine ⟨List.nodup_cons.mpr ⟨hnew, h.distinct⟩, List.forall_mem_cons.mpr ⟨hi, h.slot⟩,
    List.forall_mem_cons.mpr ⟨?_, fun p hp => ?_⟩, fun j hj hused => ?_⟩
  · show x ∈ s.objects (Function.update s.registeredObjects i o i)
    rwa [Function.update_self]
  · show p.2 ∈ s.objects (Function.update s.registeredObjects i o p.1)
    rw [Function.update_of_ne (hne p hp)]
    exact h.deref p hp
  · by_cases hji : j = i
    · subst hji
      exact List.mem_cons_self ..
    · have hused' : s.registeredObjects j ≠ 0 := by
        rwa [← Function.update_of_ne hji o s.registeredObjects]
      exact List.mem_cons_of_mem _ (h.used j hj hused')

theorem unregister (h : Inv s) {i : Nat} {x : Obj} (hi : (i, x) ∈ s.handles) :
    Inv { s with
      registeredObjects := (nonatomicUnregisterObject s.registeredObjects i).2
      handles := s.handles.erase (i, x) } := by
  have hnodup : s.handles.Nodup := h.distinct.of_map _
  have hsub : ∀ p ∈ s.handles.erase (i, x), p ∈ s.handles ∧ p.1 ≠ i := by
    intro p hp
    obtain ⟨hne, hmem⟩ := hnodup.mem_erase_iff.mp hp
    exact ⟨hmem, fun heq => hne (h.eq_of_slot hmem hi heq)⟩
  refine ⟨h.distinct.sublist (List.erase_sublist.map _), fun p hp => h.slot p (hsub p hp).1,
    fun p hp => ?_, fun j hj hused => ?_⟩
  · show p.2 ∈ s.objects (Function.update s.registeredObjects i 0 p.1)
    rw [Function.update_of_ne (hsub p hp).2]
    exact h.deref p (hsub p hp).1
  · have hji : j ≠ i := by
      rintro rfl
      exact hused (Function.update_self ..)
    have hused' : s.registeredObjects j ≠ 0 := by
      intro hzero
      exact hused ((Function.update_of_ne hji _ _).trans hzero)
    obtain ⟨p, hp, rfl⟩ := List.mem_map.mp (h.used j hj hused')
    refine List.mem_map_of_mem (hnodup.mem_erase_iff.mpr ⟨?_, hp⟩)
    rintro rfl
    exact hji rfl

theorem collect (h : Inv s) {move : Nat ≃. Nat} (hmove : Moves s move) :
    Inv { s with
      registeredObjects := walkRegistereds move s.registeredObjects
      objects := move.symm.trans s.objects
      high := hmove.objects_high } := by
  refine ⟨h.distinct, h.slot, fun p hp => ?_, fun i hi hused => h.used i hi fun hzero => hused ?_⟩
  · have hslot := h.slot p hp
    have hhigh := h.slot_high hp
    obtain ⟨b, hb⟩ := Option.isSome_iff_exists.mp
      (hmove.keeps p.1 hslot (Nat.ne_of_gt (Nat.lt_of_le_of_lt (Nat.zero_le _) hhigh)))
    have hwalk : walkRegistereds move s.registeredObjects p.1 = b := by
      rw [walkRegistereds_eq, if_pos hslot, moveReference_of_mem hhigh hb]
    simp only [hwalk, PEquiv.mem_trans]
    exact ⟨_, (PEquiv.mem_iff_mem move).mpr hb, h.deref p hp⟩
  · have hwalk : walkRegistereds move s.registeredObjects i = moveReference move 0 := by
      rw [walkRegistereds_eq, if_pos hi, hzero]
    simp only [hwalk]
    rfl

theorem step {s' : State} (h : Inv s) (hstep : Step s s') : Inv s' := by
  cases hstep with
  | register hx hrun => exact h.register hx hrun
  | unregister hi => exact h.unregister hi
  | collect move hmove => exact h.collect hmove
  | alloc objects hold _ =>
    exact ⟨h.distinct, h.slot, fun p hp => hold _ _ (h.deref p hp), h.used⟩

end Inv

/-! ## The handles of every reachable state -/

/-- What a user of the table relies on. -/
structure Sound (s : State) : Prop where
  distinct : (s.handles.map Prod.fst).Nodup
  slot : ∀ h ∈ s.handles, h.1 < maxRegistered
  /-- A handle leads to where its object is now. -/
  deref : ∀ h ∈ s.handles, h.2 ∈ s.objects (s.registeredObjects h.1)
  /-- Giving a handle back yields that object and makes its slot free, and no other one. -/
  unregister : ∀ h ∈ s.handles,
    h.2 ∈ s.objects (nonatomicUnregisterObject s.registeredObjects h.1).1 ∧
      s.registeredObjects h.1 ≠ 0 ∧
      ∀ i, (nonatomicUnregisterObject s.registeredObjects h.1).2 i =
        if i = h.1 then 0 else s.registeredObjects i
  /-- Registration gives a new handle unless the table is full. -/
  register : ∀ o, (∃ i table, nonatomicRegisterObject s.registeredObjects o = .ok (i, table) ∧
      i ∉ s.handles.map Prod.fst) ∨ s.handles.length = maxRegistered

theorem Inv.sound {s : State} (h : Inv s) : Sound s where
  distinct := h.distinct
  slot := h.slot
  deref := h.deref
  unregister p hp := by
    refine ⟨h.deref p hp, ?_, fun i => ?_⟩
    · have hhigh := h.slot_high hp
      omega
    · exact Function.update_apply ..
  register o := by
    cases hrun : nonatomicRegisterObject s.registeredObjects o with
    | ok r =>
      refine .inl ⟨r.1, r.2, rfl, fun hmem => ?_⟩
      obtain ⟨-, hfree, -⟩ := register_ok hrun
      obtain ⟨p, hp, heq⟩ := List.mem_map.mp hmem
      have hhigh := h.slot_high hp
      rw [heq] at hhigh
      omega
    | error e =>
      -- all slots are taken, each by one handle
      have hfull := register_error hrun
      have hperm : (s.handles.map Prod.fst).Perm (List.range maxRegistered) := by
        refine (List.perm_ext_iff_of_nodup h.distinct List.nodup_range).mpr fun i => ?_
        rw [List.mem_range]
        constructor
        · intro hmem
          obtain ⟨p, hp, rfl⟩ := List.mem_map.mp hmem
          exact h.slot p hp
        · exact fun hi => h.used i hi (hfull i hi)
      have hlen := hperm.length_eq
      rw [List.length_map, List.length_range] at hlen
      exact .inr hlen

/-- In every reachable state the handles in use are distinct slots that lead to their objects,
wherever the collections have put them. -/
theorem handles_sound_of_run {s : State} (hrun : Relation.ReflTransGen Step .init s) : Sound s :=
  (invariant_of_run (fun _ _ hs hstep => Inv.step hs hstep) hrun Inv.init).sound

/-- One object at an address outside the first page. -/
theorem single_high {a b : Nat} {x y : Obj} (ha : 0xfff < a) (h : y ∈ PEquiv.single a x b) :
    0xfff < b := by
  obtain ⟨rfl, -⟩ := (PEquiv.mem_single_iff _ _ _ _).mp h
  exact ha

/-- An object is made and registered, and a collection moves it. -/
theorem sound_moved : ∃ s, Relation.ReflTransGen Step .init s ∧ s.handles = [(0, 7)] ∧
    Sound s := by
  have halloc : Step .init ⟨fun _ => 0, PEquiv.single 0x1000 7, _, []⟩ :=
    .alloc _ (fun _ _ h => absurd h (Option.not_mem_none _)) fun _ _ h => single_high (by decide) h
  have hregister : Step _ ⟨Function.update (fun _ => 0) 0 0x1000, PEquiv.single 0x1000 7, _, [(0, 7)]⟩ :=
    .register (s := ⟨fun _ => 0, PEquiv.single 0x1000 7, fun _ _ h => single_high (by decide) h, []⟩)
      ((PEquiv.mem_single_iff _ _ _ _).mpr ⟨rfl, rfl⟩) rfl
  have hmoves : Moves ⟨Function.update (fun _ => 0) 0 0x1000, PEquiv.single 0x1000 7,
      fun _ _ h => single_high (by decide) h, [(0, 7)]⟩ (PEquiv.single 0x1000 0x2000) := by
    refine ⟨fun i _ hne => ?_, fun a b hb => ?_⟩
    · by_cases hi : i = 0
      · subst hi
        rfl
      · exact absurd (Function.update_of_ne hi 0x1000 fun _ => 0) hne
    · obtain ⟨-, rfl⟩ := (PEquiv.mem_single_iff _ _ _ _).mp hb
      decide
  have hrun := ((Relation.ReflTransGen.single halloc).tail hregister).tail (.collect _ hmoves)
  exact ⟨_, hrun, rfl, handles_sound_of_run hrun⟩

end JxCore.HandleTable
