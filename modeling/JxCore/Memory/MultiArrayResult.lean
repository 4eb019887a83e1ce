import JxCore.Memory.MultiArray

/-!
# What `doAllocMultiArray` returns

As long as nothing is collected the heap only grows, so an attempt that goes through has laid its arrays
one above the other, and a pointer it has stored is one into the heap as it is. After a collection there
is nothing to be said about the arrays built so far, and they are dropped. The routine only sees the
epoch, which comes round after `2 ^ 32` collections.

The attempts come to an end exactly if the collections do. Where what a collection leaves has room for
each of the arrays but not for all of them, the routine starts again for ever.
-/

namespace JxCore.MultiArray

open Lib Access Lib.Retry NameBuffer
open GcNewAlloc (Heap Admits Ready Wraps lastTry)
open EStateM (Result)

/-! ## Exceptions -/

section Exceptions

variable {env : Env} {fuel room : Nat} {elem elemClass : JType} {size : Size} {rest : List Size}
  {alloc : Run Address} {s s' : State} {e : Halt}

theorem raises_of_refused (h : allocByteArray env elemClass size s = .error e s')
    (hserved : s'.Served env) : e.Raises := by
  have hfinal : final (allocByteArray env elemClass size s) = s' := by rw [h, final_error]
  rcases allocByteArray_run elemClass (hserved _ (lastHeap_mem hfinal)) with
    ⟨h', hok, -⟩ | herror
  · cases hok.symm.trans h
  · obtain ⟨rfl, -⟩ := Result.error.inj (herror.symm.trans h)
    trivial

theorem alloc_of_fill_error {gcEpoch : BitVec 32} {array : Address} {i n : Nat}
    (h : fill alloc gcEpoch array i n s = .error e s') : ∃ t, alloc t = .error e s' := by
  induction n generalizing i s with
  | zero => cases h
  | succ n ih =>
    rcases bind_error h with halloc | ⟨v, t, -, h⟩
    · exact ⟨s, halloc⟩
    · change (if gcEpoch ≠ (t.stored array i v).epoch then pure false
        else fill alloc gcEpoch array (i + 1) n) (t.stored array i v) = .error e s' at h
      split_ifs at h
      · cases h
      · exact ih h

/-- An attempt stops where the first array or one of the elements does. -/
theorem alloc_of_attempt_error (h : attempt env elemClass size alloc s = .error e s') :
    specialAllocArray env elemClass size s = .error e s' ∨ ∃ t, alloc t = .error e s' := by
  change (specialAllocArray env elemClass size >>= _) s = .error e s' at h
  rcases bind_error h with hfirst | ⟨a, t, -, h⟩
  · exact Or.inl hfirst
  · change (if s.epoch ≠ t.epoch then pure none
      else fill alloc s.epoch a 0 size >>= fun b => if b then pure (some a) else pure none) t =
        .error e s' at h
    split_ifs at h
    · cases h
    · rcases bind_error h with hfill | ⟨b, u, -, h⟩
      · exact Or.inr (alloc_of_fill_error hfill)
      · cases b with
        | true => cases h
        | false => cases h

theorem Env.Holds.here {further : Nat} (h : env.Holds room further) : stackNeeded ≤ room :=
  (Nat.le_add_right _ _).trans h

theorem Env.Holds.below {further : Nat} (h : env.Holds room (further + 1)) :
    env.Holds (room - env.frame) further := by
  unfold Env.Holds at h ⊢
  rw [Nat.succ_mul] at h
  omega

/-- If every allocation keeps to its contract and the stack holds all dimensions, then the call does
not stop for another reason than an exception. -/
theorem raises_of_error (hknows : env.Knows elem (rest.length + 1)) (hstack : env.Holds room rest.length)
    (hserved : s'.Served env)
    (h : doAllocMultiArray env fuel room (nested elem (rest.length + 1)) size rest s = .error e s') :
    e.Raises ∨ e = .running := by
  induction rest generalizing room size s with
  | nil =>
    have henter := hknows.enter (Nat.lt_succ_self _) hstack.here s
    have hrest := (bind_of_ok henter).symm.trans h
    rw [hknows.specialAllocArray (Nat.lt_succ_self _)] at hrest
    exact Or.inl (raises_of_refused hrest hserved)
  | cons next rest ih =>
    have henter := hknows.enter (Nat.lt_succ_self _) hstack.here s
    have hrest := (bind_of_ok henter).symm.trans h
    rcases retry_error hrest with hout | ⟨t, hattempt⟩
    · exact Or.inr hout
    · rcases alloc_of_attempt_error hattempt with hfirst | ⟨t', hinner⟩
      · rw [hknows.specialAllocArray (Nat.lt_succ_self _)] at hfirst
        exact Or.inl (raises_of_refused hfirst hserved)
      · exact ih hknows.of_succ hstack.below hinner

end Exceptions

/-! ## Arrays -/

section Arrays

variable {env : Env} {fuel room : Nat} {elem : JType} {size next : Size} {rest : List Size}
  {alloc : Run Address} {h₀ : Heap} {x : Node} {lo mid i : Nat} {v : Address} {s s' t u : State}
  {l : List Node}

/-- The array `x` with the first `i` of its elements. What lies below `lo` is as it was in `h₀`, and the
elements lie above `mid`. -/
structure Filling (env : Env) (elem : JType) (next : Size) (rest : List Size) (h₀ : Heap) (x : Node)
    (mid i : Nat) (s : State) : Prop where
  heap : s.heap.heap = h₀.heap
  below : Same 0 h₀.heapTop.toNat h₀.mem s.heap.mem
  described : x.Described env s.heap
  top : mid ≤ s.heap.heapTop.toNat
  placed : Placed env s.heap mid s.heap.heapTop.toNat
    ((List.range i).flatMap fun j => nodes s.heap elem next rest (element s.heap x.address j))

/-- An element is stored into its array and nowhere else. -/
theorem same_stored {lo' hi' : Nat} (hx : x.Within lo mid) (hmid : mid ≤ 2 ^ 32) (hi : i < x.size)
    (h : hi' ≤ x.address.toNat + 12 + 4 * i ∨ x.address.toNat + 16 + 4 * i ≤ lo') :
    Same lo' hi' t.heap.mem (t.stored x.address i v).heap.mem := by
  obtain ⟨hlo, hend⟩ := hx
  have haddr : (dataAt x.address i).toNat = x.address.toNat + (12 + 4 * i) := add_toNat (by omega)
  apply same_setWord
  · omega
  · omega

theorem Filling.step (hf : Filling env elem next rest h₀ x mid i s)
    (hx : x.Within h₀.heapTop.toNat mid) (hi : i < x.size) (hc : t.collections = s.collections)
    (hbuilt : Built env s t (nodes t.heap elem next rest v)) :
    Filling env elem next rest h₀ x mid (i + 1) (t.stored x.address i v) := by
  obtain ⟨hlo, hend⟩ := id hx
  obtain ⟨hheap, htop, hsame⟩ := hbuilt.grown hc
  have hlt := s.heap.heapTop.isLt
  have hlt' := t.heap.heapTop.isLt
  have hmid := hf.top
  have hstore : ∀ {lo' hi'}, hi' ≤ x.address.toNat + 12 + 4 * i ∨ x.address.toNat + 16 + 4 * i ≤ lo' →
      Same lo' hi' t.heap.mem (t.stored x.address i v).heap.mem := fun h =>
    same_stored hx (by omega) hi h
  have hkept : ∀ {lo' hi'}, hi' ≤ s.heap.heapTop.toNat →
      hi' ≤ x.address.toNat + 12 + 4 * i ∨ x.address.toNat + 16 + 4 * i ≤ lo' →
      Same lo' hi' s.heap.mem (t.stored x.address i v).heap.mem := fun htop h =>
    (hsame.mono (Nat.zero_le _) htop).trans (hstore h)
  refine ⟨hheap.trans hf.heap, hf.below.trans (hkept (by omega) (Or.inl (by omega))), ?_,
    hmid.trans htop, ?_⟩
  · exact hf.described.congr (hkept (by omega) (Or.inl (by omega))) (by omega)
  · rw [List.range_succ, List.flatMap_append, List.flatMap_singleton]
    obtain ⟨lo, -, hle, hfrom, hplaced⟩ := hbuilt.placed
    apply Placed.append ?_ ?_ hmid htop
    · -- the elements before have been kept
      have helem : ∀ j ∈ List.range i,
          nodes (t.stored x.address i v).heap elem next rest
              (element (t.stored x.address i v).heap x.address j) =
            nodes s.heap elem next rest (element s.heap x.address j) := by
        intro j hj
        have hj' := List.mem_range.mp hj
        have hfront : Same x.address.toNat (x.address.toNat + 12 + 4 * i) s.heap.mem
            (t.stored x.address i v).heap.mem := hkept (by omega) (Or.inl le_rfl)
        have heq : element (t.stored x.address i v).heap x.address j = element s.heap x.address j :=
          hfront.wordAt (by omega) (by omega) (by omega)
        rw [heq]
        refine nodes_congr (fun y hy => hf.placed.within y (List.mem_flatMap.mpr ⟨j, hj, hy⟩))
          (hkept le_rfl (Or.inr (by omega))) hlt.le
      rw [List.flatMap_congr helem]
      exact hf.placed.congr (hkept le_rfl (Or.inr (by omega))) hlt.le
    · -- and the new one is in its place
      have hel : element (t.stored x.address i v).heap x.address i = v := wordAt_setWord _ _ _
      have habove := hfrom hc
      have hnew : Same lo t.heap.heapTop.toNat t.heap.mem (t.stored x.address i v).heap.mem :=
        hstore (Or.inr (by omega))
      rw [hel, nodes_congr hplaced.within hnew hlt'.le]
      exact (hplaced.congr hnew hlt'.le).mono habove le_rfl

/-- What the routine does for the further dimensions. -/
def Builds (env : Env) (elem : JType) (next : Size) (rest : List Size) (alloc : Run Address) : Prop :=
  ∀ s v s', alloc s = .ok v s' → s'.Served env → s'.collections < s.collections + 2 ^ 32 →
    Ordered s.heap → Built env s s' (nodes s'.heap elem next rest v)

/-- With fewer than `2 ^ 32` collections in between, the epoch tells whether there was one. -/
theorem eq_of_epoch_eq (h : s.epoch = t.epoch) (hle : s.collections ≤ t.collections)
    (hlt : t.collections < s.collections + 2 ^ 32) : t.collections = s.collections := by
  have hmod := congrArg BitVec.toNat h
  simp only [State.epoch, BitVec.toNat_ofNat] at hmod
  omega

theorem Filling.fill (hbuilds : Builds env elem next rest alloc) (hkeeps : Keeps (Later env) alloc)
    (hx : x.Within h₀.heapTop.toNat mid) (h₀_ordered : Ordered h₀) {n : Nat} (hn : i + n = x.size)
    (hf : Filling env elem next rest h₀ x mid i t) (hc : t.collections = s.collections)
    (h : fill alloc s.epoch x.address i n t = .ok true s') (hserved : s'.Served env)
    (hfew : s'.collections < s.collections + 2 ^ 32) :
    s'.collections = s.collections ∧ Filling env elem next rest h₀ x mid x.size s' := by
  induction n generalizing i t with
  | zero =>
    obtain ⟨-, rfl⟩ := Result.ok.inj h
    exact ⟨hc, hn ▸ hf⟩
  | succ n ih =>
    obtain ⟨v, u, halloc, ⟨-, hstop, -⟩ | ⟨hepoch, hrest⟩⟩ := fill_succ h
    · cases hstop
    · have hlater := hkeeps.ok halloc
      have hlater' := (keeps_fill hkeeps (i + 1) n).ok hrest
      have hle : s.collections ≤ u.collections := hc ▸ hlater.collections
      have hle' : u.collections ≤ s'.collections := hlater'.collections
      have hcu : u.collections = s.collections := eq_of_epoch_eq hepoch hle (by omega)
      have hordered : Ordered t.heap := by
        obtain ⟨hlo, hend⟩ := hx
        have htop := hf.top
        unfold Ordered at h₀_ordered ⊢
        rw [hf.heap]
        omega
      have hbuilt := hbuilds t v u halloc (hlater'.served hserved) (by omega) hordered
      exact ih (by omega) (hf.step hx (by omega) (hcu.trans hc.symm) hbuilt) hcu hrest

/-- An attempt that goes through has built everything without a collection. -/
theorem built_of_attempt (hbuilds : Builds env elem next rest alloc) (hkeeps : Keeps (Later env) alloc)
    (hknows : env.Knows elem (rest.length + 2)) {a : Address}
    (h : attempt env (nested elem (rest.length + 1)) size alloc s = .ok (some a) s')
    (hserved : s'.Served env) (hfew : s'.collections < s.collections + 2 ^ 32) (hs : Ordered s.heap) :
    Built env s s' (nodes s'.heap elem size (next :: rest) a) := by
  obtain ⟨a', t, hfirst, ⟨-, hr, -⟩ | ⟨hepoch, b, hfill, hr⟩⟩ := attempt_ok h
  · cases hr
  · cases b with
    | false => cases hr
    | true =>
      obtain rfl : a = a' := Option.some.inj hr
      have hlater := (keeps_specialAllocArray _ _).ok hfirst
      have hlater' := (keeps_fill hkeeps 0 size).ok hfill
      have hle := hlater'.collections
      have hct : t.collections = s.collections := eq_of_epoch_eq hepoch hlater.collections (by omega)
      obtain ⟨⟨lo, -, -, hfrom, hplaced⟩, hgrown⟩ :=
        allocByteArray_ok (hknows.specialAllocArray (Nat.lt_succ_self _) size ▸ hfirst)
          (hlater'.served hserved) hs
      obtain ⟨hheap, htop, hsame⟩ := hgrown hct
      have hone := List.forall_mem_singleton.mp hplaced.within
      have hstart : Filling env elem next rest s.heap ⟨nested elem (rest.length + 2), size, a⟩
          t.heap.heapTop.toNat 0 t :=
        ⟨hheap, hsame, List.forall_mem_singleton.mp hplaced.described, le_rfl, placed_nil ..⟩
      obtain ⟨hcs, hdone⟩ := Filling.fill hbuilds hkeeps (hone.mono (hfrom hct) le_rfl) hs
        (Nat.zero_add _) hstart hct hfill hserved hfew
      have hhead := placed_singleton (hone.mono (hfrom hct) le_rfl) hdone.described
      refine ⟨⟨s.heap.heapTop.toNat, ?_, htop.trans hdone.top, fun _ => le_rfl,
        hhead.append hdone.placed htop hdone.top⟩, fun _ => ⟨hdone.heap, htop.trans hdone.top, hdone.below⟩⟩
      rw [hdone.heap]
      exact hs

theorem Built.of_spoilt (h : Built env t s' l) (hlt : s.collections < t.collections)
    (hle : t.collections ≤ s'.collections) : Built env s s' l := by
  obtain ⟨⟨lo, hlo, htop, -, hplaced⟩, -⟩ := h
  exact ⟨⟨lo, hlo, htop, fun heq => by omega, hplaced⟩, fun heq => by omega⟩

theorem later_of_spoilt {elemClass : JType} (hkeeps : Keeps (Later env) alloc)
    (h : Relation.ReflTransGen (fun s t => attempt env elemClass size alloc s = .ok none t) s t) :
    Later env s t ∧ (s = t ∨ s.collections < t.collections) := by
  induction h with
  | refl => exact ⟨Later.refl env s, Or.inl rfl⟩
  | tail _ hstep ih =>
    have hlater := (keeps_attempt hkeeps elemClass size).ok hstep
    exact ⟨ih.1.trans hlater, Or.inr (ih.1.collections.trans_lt (lt_of_spoilt hkeeps hstep))⟩

theorem builds_doAllocMultiArray (hknows : env.Knows elem (rest.length + 1)) :
    Builds env elem size rest
      (doAllocMultiArray env fuel room (nested elem (rest.length + 1)) size rest) := by
  intro s a s' h hserved hfew hs
  induction rest generalizing room size s a s' with
  | nil =>
    obtain ⟨e, t, henter, hrest⟩ := bind_ok h
    obtain ⟨helem, rfl⟩ := hknows.of_enter (Nat.lt_succ_self _) henter
    rw [helem, hknows.specialAllocArray (Nat.lt_succ_self _)] at hrest
    exact allocByteArray_ok hrest hserved hs
  | cons next rest ih =>
    obtain ⟨e, t, henter, hrest⟩ := bind_ok h
    obtain ⟨rfl, rfl⟩ := hknows.of_enter (Nat.lt_succ_self _) henter
    obtain ⟨u, hspoilt, hlast⟩ := retry_ok hrest
    have hkeeps :=
      keeps_doAllocMultiArray env fuel (room - env.frame) (nested elem (rest.length + 1)) next rest
    obtain ⟨hlater, hmoved⟩ := later_of_spoilt hkeeps hspoilt
    have hlater' := (keeps_attempt hkeeps _ _).ok hlast
    have hle := hlater.collections
    have hle' := hlater'.collections
    have hbuilt := built_of_attempt (fun s v s' => ih hknows.of_succ s v s') hkeeps hknows hlast
      hserved (by omega) (hlater.ordered (hlater'.served hserved) hs)
    rcases hmoved with rfl | hlt
    · exact hbuilt
    · exact hbuilt.of_spoilt hlt hle'

end Arrays

/-! ## When the call does what it should -/

section Main

variable {env : Env} {c : Call} {s : State} {fuel : Nat}

/-- What the call gives, if it ends before the epoch has come round. -/
theorem good_of_ends (hs : Ordered s.heap) (hknows : env.Knows c.elem (c.rest.length + 1))
    (hstack : env.Holds env.room c.rest.length)
    (hserved : (final (c.run env fuel s)).Served env)
    (hfew : (final (c.run env fuel s)).collections < s.collections + 2 ^ 32)
    (hends : ∀ s', c.run env fuel s ≠ .error .running s') :
    Good env c.elem c.size c.rest (c.run env fuel s) := by
  cases hrun : c.run env fuel s with
  | ok a s' =>
    rw [hrun, final_ok] at hserved hfew
    obtain ⟨⟨lo, hlo, -, -, hplaced⟩, -⟩ :=
      builds_doAllocMultiArray hknows s a s' hrun hserved hfew hs
    exact hplaced.mono hlo le_rfl
  | error e s' =>
    rw [hrun, final_error] at hserved
    rcases raises_of_error hknows hstack hserved hrun with hraises | rfl
    · exact hraises
    · exact absurd hrun (hends s')

theorem correct_of_bounded (hs : Ordered s.heap) (hknows : env.Knows c.elem (c.rest.length + 1))
    (hstack : env.Holds env.room c.rest.length)
    (hserved : ∀ fuel, (final (c.run env fuel s)).Served env) {b : Nat}
    (hb : b < s.collections + 2 ^ 32) (h : BoundedBy State.collections (c.run env) s b) :
    Correct env c s := by
  obtain ⟨n, hn⟩ := (call_ends_iff env c s).mpr ⟨b, h⟩
  exact ⟨n, fun fuel hfuel =>
    good_of_ends hs hknows hstack (hserved fuel) ((h fuel).trans_lt hb) (hn fuel hfuel)⟩

theorem ends_of_correct (h : Correct env c s) : Ends .running (c.run env) s := by
  obtain ⟨n, hn⟩ := h
  refine ⟨n, fun fuel hfuel s' hrun => ?_⟩
  have hgood := hn fuel hfuel
  rw [hrun] at hgood
  exact hgood

/-- Without the stack for its first dimension the call ends in a panic. -/
theorem room_of_correct (h : Correct env c s) : stackNeeded ≤ env.room := by
  obtain ⟨n, hn⟩ := h
  by_contra hroom
  have hpanic : c.run env n s = .error (.stop (.panic "")) s := by
    obtain ⟨elem, size, rest⟩ := c
    have henter :=
      enter_of_overflow env (Nat.lt_of_not_le hroom) (nested elem (rest.length + 1)) s
    cases rest with
    | nil => exact bind_of_error henter
    | cons next rest => exact bind_of_error henter
  have hgood := hn n le_rfl
  rw [hpanic] at hgood
  exact hgood

/-- If the first array has no room, not even after the collection, then there is no second attempt. -/
theorem error_of_no_room (hfuel : 0 < fuel) (hknows : env.Knows c.elem (c.rest.length + 1))
    (hstack : env.Holds env.room c.rest.length)
    (hroom : ¬ Admits (env.context s.collections) (c.size + 5) (lastHeap env c.size s)) :
    ∃ e s', c.run env fuel s = .error e s' ∧ e ≠ .running := by
  have hfirst : ∃ e s', specialAllocArray env (nested c.elem c.rest.length) c.size s =
      .error (.stop e) s' := by
    obtain ⟨e, h', hrun⟩ := error_of_not_admits (c := env.context s.collections)
      (r := request env (nested c.elem c.rest.length) c.size) (h := s.heap) hroom
    rw [hknows.specialAllocArray (Nat.lt_succ_self _)]
    exact ⟨e, _, run_of_error hrun⟩
  obtain ⟨e, s', hfirst⟩ := hfirst
  obtain ⟨elem, size, rest⟩ := c
  have hok := hknows.enter (Nat.lt_succ_self _) hstack.here s
  refine ⟨.stop e, s', ?_, nofun⟩
  cases rest with
  | nil => exact (bind_of_ok hok).trans hfirst
  | cons next rest =>
    obtain ⟨fuel, rfl⟩ := Nat.exists_eq_succ_of_ne_zero (Nat.ne_zero_of_lt hfuel)
    exact (bind_of_ok hok).trans (bind_of_error (attempt_error hfirst))

/-- Provided that every allocation of the call keeps to its contract: on a stack that holds all
dimensions the call does what it should if fewer than `2 ^ 32` collections run meanwhile, and it raises
an exception if there is no room for its first array. It runs for ever if the number of collections is
not bounded, and without the stack for its first dimension it does not do what it should. -/
theorem correct_of_few_collections (hs : Ordered s.heap) (hknows : env.Knows c.elem (c.rest.length + 1))
    (hserved : ∀ fuel, (final (c.run env fuel s)).Served env) :
    (env.Holds env.room c.rest.length →
        (∀ b < s.collections + 2 ^ 32, BoundedBy State.collections (c.run env) s b → Correct env c s) ∧
        (¬ Admits (env.context s.collections) (c.size + 5) (lastHeap env c.size s) →
          ∀ fuel > 0, ∃ e s', c.run env fuel s = .error e s' ∧ e.Raises)) ∧
      (Correct env c s →
        stackNeeded ≤ env.room ∧ ∃ b, BoundedBy State.collections (c.run env) s b) := by
  refine ⟨fun hstack => ⟨fun b hb h => ?_, fun hroom fuel hfuel => ?_⟩, fun h => ⟨?_, ?_⟩⟩
  · exact correct_of_bounded hs hknows hstack hserved hb h
  · obtain ⟨e, s', hrun, hne⟩ := error_of_no_room hfuel hknows hstack hroom
    have hend := hserved fuel
    rw [hrun, final_error] at hend
    exact ⟨e, s', hrun, (raises_of_error hknows hstack hend hrun).resolve_right hne⟩
  · exact room_of_correct h
  · exact (call_ends_iff env c s).mp (ends_of_correct h)

end Main

/-! ## Two calls -/

section Examples

def int : JType := .primitive 'I' (by decide)

/-- A domain that knows `int` and `int[]`, with a heap `left` after each collection. -/
def exampleEnv (left : Nat → Heap) (ordered : ∀ k, (left k).heap.toNat ≤ (left k).heapTop.toNat) : Env where
  room := 8000
  frame := 96
  tmp := zeros 80
  tmp_unused := unused_zeros 80
  name := zeros 256
  name_unused := unused_zeros 256
  findClass := fun a => if a = .primitive (some 'I') then some int
    else if a = .arrayName ['[', 'I'] then some (.array int) else none
  arrayClass := fun t => 0x300000 + BitVec.ofNat 32 (64 * t.nesting.length)
  vtable := fun _ => 0x2f0000
  isInterruptHandlerThread := false
  gcThread := true
  left := left
  ordered := ordered

/-- `new int[1][1]`. -/
def oneByOne : Call := ⟨int, 1, [1]⟩

theorem knows_oneByOne (left : Nat → Heap) (ordered : ∀ k, (left k).heap.toNat ≤ (left k).heapTop.toNat) :
    (exampleEnv left ordered).Knows oneByOne.elem (oneByOne.rest.length + 1) where
  found k hk := by
    have hk' : k < 2 := hk
    rcases Nat.lt_succ_iff_lt_or_eq.mp hk' with hzero | rfl
    · obtain rfl : k = 0 := by omega
      rfl
    · rfl
  short := nofun
  fits k hk := by
    have hk' : k < 2 := hk
    rcases Nat.lt_succ_iff_lt_or_eq.mp hk' with hzero | rfl
    · obtain rfl : k = 0 := by omega
      decide
    · decide

/-- After a collection there is room for 24 bytes before the reserve, in one semispace or the other. -/
def nearlyFull (second : Bool) : Heap where
  mem := fun _ => 0
  heap := if second then 0x200000 else 0x100000
  heapTop := if second then 0x240000 else 0x140000
  heapBorder := if second then 0x24a018 else 0x14a018
  registeredObjects := fun _ => 0

def starved : Env := exampleEnv (fun k => nearlyFull (k % 2 = 0)) fun k => by
  cases (decide (k % 2 = 0)) <;> decide

/-- There is no room left. -/
def Full (h : Heap) : Prop :=
  ∃ second, h.heapTop = (nearlyFull second).heapTop + 24 ∧ h.heapBorder = (nearlyFull second).heapBorder

theorem admits_nearlyFull (second : Bool) : Admits (starved.context 0) 6 (nearlyFull second) ∧
    Ready (nearlyFull second) ∧ ¬ Wraps (starved.context 0) 6 (nearlyFull second) := by
  refine ⟨?_, ⟨?_, 0, by decide, rfl⟩, ?_⟩
  · unfold Admits
    cases second <;> decide
  · cases second <;> decide
  · unfold Wraps
    cases second <;> decide

/-- Each array of one element takes all that a collection has left. -/
theorem allocByteArray_starved (elemClass : JType) {s : State} (h : Full s.heap) :
    ∃ a s', allocByteArray starved elemClass 1 s = .ok a s' ∧
      s'.collections = s.collections + 1 ∧ Full s'.heap := by
  obtain ⟨second, htop, hborder⟩ := h
  have hno : ¬ Admits (starved.context 0) 6 s.heap := by
    unfold Admits
    rw [htop, hborder]
    cases second <;> decide
  have hcollects : starved.Collects 6 s := by
    rintro (hadm | hirq | hgc)
    · exact hno hadm
    · cases hirq
    · cases hgc
  obtain ⟨other, hother⟩ : ∃ b, nearlyFull (decide (s.collections % 2 = 0)) = nearlyFull b := ⟨_, rfl⟩
  have hlast : lastTry (starved.context s.collections) (request starved elemClass 1).words s.heap =
      nearlyFull other := (if_neg hcollects).trans hother
  obtain ⟨hadm, hready, hwraps⟩ := admits_nearlyFull other
  obtain ⟨h', hrun, -, htaken⟩ := admitted_run (r := request starved elemClass 1) (h := s.heap)
    (hlast ▸ hadm) (hlast ▸ hready) (hlast ▸ hwraps)
  rw [hlast] at htaken
  refine ⟨_, _, run_of_ok hrun, if_pos hcollects, other, ?_, htaken.border⟩
  apply BitVec.eq_of_toNat_eq
  refine htaken.top.trans ?_
  cases other <;> rfl

/-- Each attempt ends with a collection at the first array. -/
theorem retry_starved (alloc : Run Address) (fuel : Nat) {s : State} (h : Full s.heap) :
    ∃ s', retry .running (attempt starved (nested int 1) 1 alloc) fuel s = .error .running s' := by
  induction fuel generalizing s with
  | zero => exact ⟨s, rfl⟩
  | succ fuel ih =>
    obtain ⟨a, t, hrun, hc, hfull⟩ := allocByteArray_starved (nested int 1) h
    have hname := (knows_oneByOne _ starved.ordered).specialAllocArray (Nat.lt_succ_self 1) 1
    have hepoch : s.epoch ≠ t.epoch := by
      intro heq
      have hmod := congrArg BitVec.toNat heq
      simp only [State.epoch, BitVec.toNat_ofNat] at hmod
      omega
    obtain ⟨s', hout⟩ := ih hfull
    exact ⟨s', (bind_of_ok (attempt_spoilt ((congrFun hname s).trans hrun) hepoch)).trans hout⟩

def filled : State where
  heap := { nearlyFull false with heapTop := 0x140018 }
  collections := 0
  demands := []

/-- Both arrays of the call would fit one by one, and the call starts again for ever. -/
theorem not_correct_starved : Ordered filled.heap ∧
    starved.Knows oneByOne.elem (oneByOne.rest.length + 1) ∧
    starved.Holds starved.room oneByOne.rest.length ∧ ¬ Correct starved oneByOne filled := by
  refine ⟨Nat.le_of_ble_eq_true rfl, knows_oneByOne _ _, Nat.le_of_ble_eq_true rfl, fun hcorrect => ?_⟩
  obtain ⟨n, hn⟩ := ends_of_correct hcorrect
  have hfull : Full filled.heap := ⟨false, rfl, rfl⟩
  obtain ⟨s', hout⟩ :=
    retry_starved (doAllocMultiArray starved n (8000 - 96) (nested int 1) 1 []) n hfull
  have henter : enter starved 8000 (nested int 2) filled = .ok (nested int 1) filled :=
    (knows_oneByOne _ starved.ordered).enter (Nat.lt_succ_self 1) (by decide) filled
  exact hn n le_rfl s' ((bind_of_ok henter).trans hout)

def roomy : Env := exampleEnv (fun _ => GcNewAlloc.exampleHeap) fun _ => Nat.le_refl _

def empty : State where
  heap := GcNewAlloc.exampleHeap
  collections := 0
  demands := []

/-- With room for everything the first attempt goes through. -/
theorem run_roomy (fuel : Nat) : (final (oneByOne.run roomy fuel empty)).Served roomy ∧
    (final (oneByOne.run roomy fuel empty)).collections = 0 := by
  have hone : (∀ d ∈ (final (oneByOne.run roomy 1 empty)).demands, roomy.Serves d) ∧
      (final (oneByOne.run roomy 1 empty)).collections = 0 := by decide +kernel
  cases fuel with
  | zero => exact ⟨List.forall_mem_nil _, rfl⟩
  | succ fuel =>
    have hends : ∀ s', oneByOne.run roomy 1 empty ≠ .error .running s' := by
      intro s' hrun
      have hspent := spends_doAllocMultiArray _ 1 _ _ _ _ empty s' hrun
      have hclock := hone.2
      rw [hrun, final_error] at hclock
      omega
    have hmore : oneByOne.run roomy (fuel + 1) empty = oneByOne.run roomy 1 empty :=
      eq_of_ends (fun hle => refines_doAllocMultiArray hle _ _ _ _) hends (Nat.le_add_left 1 fuel)
    rw [hmore]
    exact hone

theorem correct_roomy : Correct roomy oneByOne empty := by
  have hmain := correct_of_few_collections (Nat.le_refl _ : Ordered empty.heap) (knows_oneByOne _ _)
    fun fuel => (run_roomy fuel).1
  exact (hmain.1 (Nat.le_of_ble_eq_true rfl)).1 0 (by decide) fun fuel => (run_roomy fuel).2.le

end Examples

end JxCore.MultiArray
