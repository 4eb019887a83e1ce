import JxCore.Memory.GcCompactingCollect
import JxCore.Memory.HandleTable

/-!
# Allocation on a compacting heap (`Memory/gc_compacting.c`)

`gc_compacting_allocDataInDomain` tries again after each collection, and nothing but room ends this.
As a collection leaves no garbage, the first one decides: if the object does not fit behind what can
be reached, then the thread collects for ever, and there is no exception that would tell the program.
The new top is a sum of 32 bits, so a request for almost the whole address space passes the test.

The second half is about programs. They allocate, they store references that they have, and they
forget some; the heap stays one that can be collected.
-/

namespace JxCore.GcCompacting

open Exec GcNew HeapWalk
open GcNewAlloc (maxRegistered)

/-! ## The routine -/

/-- What the routine asks about the thread and the domain, and where `gc.registeredObjects` is. -/
structure Caller where
  isInterruptHandlerThread : Bool
  hasGcThread : Bool
  inhibitGCFlag : Bool
  registeredObjects : Nat

/-- `gc_in`, which the collector thread of the domain runs. -/
def gcIn (env : Env) (c : Caller) (roots : List Nat) (fuel : Nat) (s : State) : Exec State :=
  if c.inhibitGCFlag then
    throw (.panic "GC CURRENTLY INHIBITED IN DOMAIN")
  else
    gcCompactingGc env roots fuel s

/-- `registerObject`. The handle is the word of the table where the reference is kept. -/
def registerObject (registeredObjects obj : Nat) (s : State) : Exec (Nat × State) :=
  match HandleTable.nonatomicRegisterObject (fun i => s.mem (registeredObjects + i)) (4 * obj) with
  | .ok (i, _) => pure (registeredObjects + i, s.setWord (registeredObjects + i) (4 * obj))
  | .error e => throw e

/-- `unregisterObject` -/
def unregisterObject (handle : Nat) (s : State) : Nat × State :=
  (s.mem handle / 4, s.setWord handle 0)

/-- The heap with a block taken off, which is cleared and has its header. The size of the `memset` is
a product of 32 bits. -/
def takeBlock (objSize flags nextObj : Nat) (s : State) : State :=
  let data := s.heapTop
  let s := { s with
    heapTop := nextObj
    mem := fun w => if data ≤ w ∧ w < data + objSize % 2 ^ 30 then 0 else s.mem w }
  (s.setObjFlags (data + 2) flags).setObjMagic (data + 2) magicObject

/-- What follows the label `do_alloc`. -/
def doAlloc (c : Caller) (objSize flags nextObj : Nat) (s : State) : Exec (Nat × State) := do
  assert (s.heapTop ≠ 0) "data != NULL"
  registerObject c.registeredObjects (s.heapTop + 2) (takeBlock objSize flags nextObj s)

/-- `gc_compacting_allocDataInDomain`, which goes back to `try_alloc` at most `tries` times. Pointers
to words have thirty bits here, and `nextObj` wraps before it is compared. The heap has at least
`HEAP_RESERVE` words, so that `heapBorder - HEAP_RESERVE` is one of them. -/
def allocDataInDomain (c : Caller) (collect : State → Exec State) (objSize flags : Nat) :
    (tries : Nat) → State → Exec (Nat × State)
  | 0, _ => loop none
  | tries + 1, s =>
    let nextObj := (s.heapTop + objSize) % 2 ^ 30
    if nextObj + heapReserve > s.heapBorder then
      if c.isInterruptHandlerThread then
        if nextObj > s.heapBorder then
          throw (.panic "no GC in interrupt handler possible!")
        else
          doAlloc c objSize flags nextObj s
      else if c.hasGcThread then
        collect s >>= allocDataInDomain c collect objSize flags tries
      else
        throw (.panic "GC but no GC thread availabke")
    else
      doAlloc c objSize flags nextObj s

/-- `gc_compacting_init`, where `heap` is what `jxmalloc_align` has returned. The check of the block
sizes compares two constants. -/
def gcCompactingInit (heapBytes heap : Nat) (s : State) : Exec State :=
  let heapSize := u4 (heapBytes + 4096 - 1) &&& 0xfffff000
  if heapBytes = 0 then
    throw (.panic "gc_compacting is not suitable for domain Zero")
  else if heapSize ≤ heapReserve + 1000 then
    throw (.panic "heap too small. need at least 10240 bytes ")
  else if heap + heapReserve > heap + heapBytes >>> 2 then
    throw (.panic "HEAP TOO SMALL")
  else
    pure { s with heap := heap, heapTop := heap, heapBorder := heap + heapBytes >>> 2 }

/-! ## When it comes back -/

section

variable {env : Env} {c : Caller} {s s' : State} {objs roots l : List Nat} {φ : Nat → Nat}
  {objSize flags tries : Nat}

open Classical in
/-- The words of the objects that can be reached. -/
noncomputable def liveWords (env : Env) (s : State) (objs roots : List Nat) : Nat :=
  ((objs.filter fun p => Reachable env s roots p).map (sizeAt env s.mem)).sum

/-- The object fits on the heap as it is. -/
def Fits (objSize : Nat) (s : State) : Prop := s.heapTop + objSize + heapReserve ≤ s.heapBorder

/-- The object fits behind those that can be reached. -/
def FitsLive (env : Env) (objs roots : List Nat) (objSize : Nat) (s : State) : Prop :=
  s.heap + liveWords env s objs roots + objSize + heapReserve ≤ s.heapBorder

/-- The sum does not wrap, and a handle is free. The collector visits the handles, too. -/
structure Servable (c : Caller) (roots : List Nat) (objSize : Nat) (s : State) : Prop where
  heap_pos : 0 < s.heap
  no_wrap : s.heapTop + objSize < 2 ^ 30
  free : ∃ i < maxRegistered, c.registeredObjects + i ∈ roots ∧ s.mem (c.registeredObjects + i) = 0

/-- The thread may start a collection. -/
def Caller.MayCollect (c : Caller) : Prop :=
  c.isInterruptHandlerThread = false ∧ c.hasGcThread = true ∧ c.inhibitGCFlag = false

theorem liveWords_le (h : Collectable env s objs roots) :
    s.heap + liveWords env s objs roots ≤ s.heapTop := by
  rw [h.heapOf.tiled.top_eq]
  exact Nat.add_le_add_left ((List.filter_sublist.map _).sum_le_sum fun _ _ => Nat.zero_le _) _

/-- The top after a collection. -/
theorem Collected.heapTop_eq (hc : Collected env s s' objs roots l φ)
    (h : Collectable env s objs roots) : s'.heapTop = s.heap + liveWords env s objs roots := by
  classical
  have hperm : l.Perm (objs.filter fun p => Reachable env s roots p) := by
    refine (List.perm_ext_iff_of_nodup (hc.sublist.nodup h.heapOf.nodup)
      (h.heapOf.nodup.filter _)).mpr fun p => ?_
    simp only [List.mem_filter, decide_eq_true_eq, hc.survivors]
    exact ⟨fun hp => ⟨hp.mem h.heapOf h.rootsOk, hp⟩, And.right⟩
  rw [hc.packed.top_eq, liveWords, (hperm.map _).sum_eq]

/-- A second collection would not find anything. -/
theorem Collected.fitsLive_iff (hc : Collected env s s' objs roots l φ)
    (h : Collectable env s objs roots) : FitsLive env (l.map φ) roots objSize s' ↔ Fits objSize s' := by
  classical
  have hall : (l.map φ).filter (fun p => Reachable env s' roots p) = l.map φ := by
    rw [List.filter_eq_self]
    simp only [List.forall_mem_map, decide_eq_true_eq]
    exact fun p hp => hc.reachable h hp
  rw [FitsLive, Fits, liveWords, hall, (hc.collectable h).heapOf.tiled.top_eq]

theorem Collected.fits_iff (hc : Collected env s s' objs roots l φ)
    (h : Collectable env s objs roots) : Fits objSize s' ↔ FitsLive env objs roots objSize s := by
  rw [Fits, FitsLive, hc.heapTop_eq h, hc.heapBorder]

theorem allocDataInDomain_fits (hwrap : s.heapTop + objSize < 2 ^ 30) (hfits : Fits objSize s)
    {collect : State → Exec State} :
    allocDataInDomain c collect objSize flags (tries + 1) s =
      doAlloc c objSize flags (s.heapTop + objSize) s := by
  rw [allocDataInDomain]
  simp only [Nat.mod_eq_of_lt hwrap]
  exact if_neg (Nat.not_lt.mpr hfits)

theorem allocDataInDomain_collects (hwrap : s.heapTop + objSize < 2 ^ 30) (hfits : ¬ Fits objSize s)
    (hirq : c.isInterruptHandlerThread = false) {collect : State → Exec State} :
    allocDataInDomain c collect objSize flags (tries + 1) s =
      if c.hasGcThread then collect s >>= allocDataInDomain c collect objSize flags tries
      else throw (.panic "GC but no GC thread availabke") := by
  rw [allocDataInDomain]
  simp only [Nat.mod_eq_of_lt hwrap, hirq, Bool.false_eq_true, if_false]
  exact if_pos (Nat.lt_of_not_le hfits)

/-- A request that wraps is never too large: the block is given out, and the top goes down. -/
theorem allocDataInDomain_wraps (hwrap : 2 ^ 30 ≤ s.heapTop + objSize)
    (hlt : s.heapTop + objSize < 2 ^ 31) (hbelow : s.heapTop + objSize + heapReserve ≤ s.heapBorder + 2 ^ 30)
    {collect : State → Exec State} :
    allocDataInDomain c collect objSize flags (tries + 1) s =
      doAlloc c objSize flags (s.heapTop + objSize - 2 ^ 30) s := by
  have hnext : (s.heapTop + objSize) % 2 ^ 30 = s.heapTop + objSize - 2 ^ 30 := by omega
  rw [allocDataInDomain]
  simp only [hnext]
  exact if_neg (by omega)

/-- A handle that is taken and given back again changes nothing. -/
theorem unregisterObject_registerObject {table obj handle : Nat}
    (h : registerObject table obj s = pure (handle, s')) : unregisterObject handle s' = (obj, s) := by
  unfold registerObject at h
  split at h
  · next i t hreg =>
    obtain ⟨-, hzero, -⟩ := HandleTable.register_ok hreg
    obtain ⟨rfl, rfl⟩ := Prod.mk.inj (eq_of_pure_eq h)
    have hmem : (fun w => if w = table + i then 0 else (s.setWord (table + i) (4 * obj)).mem w) =
        s.mem := by
      funext w
      simp only [State.setWord]
      grind
    simp only [unregisterObject, State.setWord, if_true] at hmem ⊢
    rw [hmem, Nat.mul_div_cancel_left obj (by decide)]
  · cases h

theorem doAlloc_returns (flags : Nat) (hserv : Servable c roots objSize s) (hle : s.heap ≤ s.heapTop)
    (hfits : Fits objSize s) (hout : ∀ a ∈ roots, ¬ (s.heap ≤ a ∧ a < s.heapBorder)) :
    ∃ r, doAlloc c objSize flags (s.heapTop + objSize) s = pure r := by
  obtain ⟨hpos, hwrap, i, hi, hmem, hzero⟩ := hserv
  have hslot := hout _ hmem
  have hreserve : heapReserve = 10240 := rfl
  unfold Fits at hfits
  rw [doAlloc, assert_pos (by omega), pure_bind, registerObject]
  split
  · exact ⟨_, rfl⟩
  · next e hfull =>
    refine absurd ?_ (HandleTable.register_error hfull i hi)
    -- the table is not where the block is
    simp only [takeBlock, State.setObjMagic, State.setObjFlags, State.setWord]
    rw [if_neg (by omega), if_neg (by omega), if_neg (by omega)]
    exact hzero

/-- A collection visits the free handle and leaves it free. -/
theorem Collected.servable (hc : Collected env s s' objs roots l φ)
    (h : Collectable env s objs roots) (hserv : Servable c roots objSize s) :
    Servable c roots objSize s' := by
  obtain ⟨hpos, hwrap, i, hi, hmem, hzero⟩ := hserv
  have htop := hc.heapTop_le h
  refine ⟨hc.heap ▸ hpos, by omega, i, hi, hmem, ?_⟩
  have hnone : objAt s 0 = none := if_neg fun hne => hne.1 rfl
  rw [hc.rootRefs _ hmem, hzero, redirect, hnone]
  rfl

/-- Without room behind what can be reached, each try ends with another collection. -/
theorem allocDataInDomain_starves (hc : c.MayCollect) (tries : Nat)
    (h : Collectable env s objs roots) (hwrap : s.heapTop + objSize < 2 ^ 30)
    (hfits : ¬ FitsLive env objs roots objSize s) :
    ∃ n, ∀ fuel ≥ n,
      allocDataInDomain c (gcIn env c roots fuel) objSize flags tries s = loop none := by
  obtain ⟨hirq, hthread, hinhibit⟩ := hc
  induction tries generalizing s objs with
  | zero => exact ⟨0, fun _ _ => rfl⟩
  | succ tries ih =>
    have hlive := liveWords_le h
    have hnow : ¬ Fits objSize s := fun hnow => hfits (by unfold Fits FitsLive at *; omega)
    obtain ⟨s', l, φ, ⟨n, hn⟩, hcol⟩ := h.collects
    have htop := hcol.heapTop_le h
    obtain ⟨m, hm⟩ := ih (hcol.collectable h) (by omega)
      (by rwa [hcol.fitsLive_iff h, hcol.fits_iff h])
    refine ⟨max n m, fun fuel hfuel => ?_⟩
    have hgc : gcIn env c roots fuel s = pure s' := by
      rw [gcIn, hinhibit]
      exact hn fuel (Nat.le_trans (Nat.le_max_left n m) hfuel)
    rw [allocDataInDomain_collects hwrap hnow hirq, if_pos hthread, hgc, pure_bind]
    exact hm fuel (Nat.le_trans (Nat.le_max_right n m) hfuel)

end

/-- One collection is enough, or none is. A thread that may collect gets its object after at most one
collection if there is room behind what can be reached, and collects for ever otherwise. -/
theorem allocDataInDomain_returns {env : Env} {c : Caller} {s : State} {objs roots : List Nat}
    {objSize flags : Nat} (hc : c.MayCollect) (h : Collectable env s objs roots)
    (hserv : Servable c roots objSize s) :
    (FitsLive env objs roots objSize s → ∃ r,
      Returns (fun fuel => allocDataInDomain c (gcIn env c roots fuel) objSize flags 2 s) r) ∧
    (¬ FitsLive env objs roots objSize s → ∀ tries, ∃ n, ∀ fuel ≥ n,
      allocDataInDomain c (gcIn env c roots fuel) objSize flags tries s = loop none) := by
  refine ⟨fun hlive => ?_, fun hlive tries => allocDataInDomain_starves hc tries h hserv.no_wrap hlive⟩
  by_cases hfits : Fits objSize s
  · obtain ⟨r, hr⟩ := doAlloc_returns flags hserv h.heapOf.tiled.base_le hfits h.roots_outside
    exact ⟨r, 0, fun fuel _ => (allocDataInDomain_fits hserv.no_wrap hfits).trans hr⟩
  · obtain ⟨hirq, hthread, hinhibit⟩ := hc
    obtain ⟨s', l, φ, ⟨n, hn⟩, hcol⟩ := h.collects
    have hserv' := hcol.servable h hserv
    have hfits' := (hcol.fits_iff h).mpr hlive
    have h' := hcol.collectable h
    obtain ⟨r, hr⟩ := doAlloc_returns flags hserv' h'.heapOf.tiled.base_le hfits'
      h'.roots_outside
    refine ⟨r, n, fun fuel hfuel => ?_⟩
    have hgc : gcIn env c roots fuel s = pure s' := by
      rw [gcIn, hinhibit]
      exact hn fuel hfuel
    simp only [allocDataInDomain_collects hserv.no_wrap hfits hirq, if_pos hthread, hgc, pure_bind]
    exact (allocDataInDomain_fits hserv'.no_wrap hfits').trans hr

/-- The example without room for another object, as long as the portal is there. The handles are in
the words from 20 on. -/
def fullState : State := { exampleState with heapBorder := 118 + heapReserve }

def fullCaller : Caller := ⟨false, true, false, 20⟩

theorem collectable_fullState : Collectable exampleEnv fullState [100, 106, 112] [10, 20] where
  heapOf :=
    have h := collectable_exampleState.heapOf
    ⟨h.tiled, h.three_le, h.size_of, h.vtable, heapOf_exampleState.slots, h.no_pool⟩
  plain := collectable_exampleState.plain
  magic := collectable_exampleState.magic
  border := by decide
  roots_outside := by decide
  roots_ok := by
    simp only [List.forall_mem_cons]
    exact ⟨.inr (.inr ⟨100, by decide, rfl⟩), .inl rfl, nofun⟩
  roots_nodup := by decide

/-- Nobody refers to the portal. -/
theorem not_reachable_fullState : ¬ Reachable exampleEnv fullState [10, 20] 112 := by
  have hslots : ∀ p, slots exampleEnv fullState.mem (p + 2) = slots exampleEnv exampleState.mem (p + 2) :=
    fun _ => rfl
  have hobject : slots exampleEnv exampleState.mem 102 = [.ref 103, .ref 104] := rfl
  have harray : slots exampleEnv exampleState.mem 108 = [.ref 111] := rfl
  suffices h : ∀ p, Reachable exampleEnv fullState [10, 20] p → p = 100 ∨ p = 106 from fun hp => by
    rcases h 112 hp with h | h <;> cases h
  intro p hp
  induction hp with
  | root ha hp =>
    rcases List.mem_cons.mp ha with rfl | ha
    · exact .inl (Option.some.inj hp).symm
    · obtain rfl := List.mem_singleton.mp ha
      cases hp
  | slot _ ha hq ih =>
    rw [hslots] at ha
    rcases ih with rfl | rfl
    · rw [hobject] at ha
      rcases List.mem_cons.mp ha with rfl | ha
      · exact .inr (Option.some.inj hq).symm
      · obtain rfl := List.mem_singleton.mp ha
        cases hq
    · rw [harray] at ha
      obtain rfl := List.mem_singleton.mp ha
      exact .inl (Option.some.inj hq).symm

theorem fitsLive_fullState : FitsLive exampleEnv [100, 106, 112] [10, 20] 6 fullState := by
  classical
  have hlive : liveWords exampleEnv fullState [100, 106, 112] [10, 20] ≤ 12 := by
    have hsub : ([100, 106, 112].filter fun p => Reachable exampleEnv fullState [10, 20] p).Sublist
        [100, 106] := by
      rw [show [100, 106, 112] = [100, 106] ++ [112] from rfl, List.filter_append,
        List.filter_singleton, decide_eq_false not_reachable_fullState]
      simp
    exact (hsub.map _).sum_le_sum fun _ _ => Nat.zero_le _
  have hbounds : fullState.heap = 100 ∧ fullState.heapBorder = 118 + heapReserve := ⟨rfl, rfl⟩
  unfold FitsLive
  omega

theorem servable_fullState : Servable fullCaller [10, 20] 6 fullState where
  heap_pos := by decide
  no_wrap := by decide
  free := ⟨0, by decide, by decide, rfl⟩

theorem allocDataInDomain_fullState : ¬ Fits 6 fullState ∧ ∃ r,
    Returns (fun fuel => allocDataInDomain fullCaller (gcIn exampleEnv fullCaller [10, 20] fuel) 6 0x02
      2 fullState) r :=
  ⟨by unfold Fits; decide, (allocDataInDomain_returns ⟨rfl, rfl, rfl⟩ collectable_fullState
    servable_fullState).1 fitsLive_fullState⟩

/-! ## Programs -/

/-- A call of `nonatomic_allocObjectInDomain`, `allocArrayInDomain` or `allocProxyInDomain`. -/
inductive Request where
  | object (vtable : Nat)
  | array (vtable arrayClass size : Nat)
  | proxy (vtable targetDomain targetDomainID depIndex : Nat)

namespace Request

def objSize (env : Env) : Request → Nat
  | object vtable => objsizeObject (env.classDesc vtable).instanceSize
  | array _ _ size => objsizeArray32bit size
  | proxy _ _ _ _ => objsizePortal

def kind : Request → Kind
  | object _ => .object
  | array _ _ _ => .array
  | proxy _ _ _ _ => .portal

/-- The words that the routine sets, from the vtable on. -/
def fields : Request → List Nat
  | object vtable => [vtable]
  | array vtable arrayClass size => [vtable, arrayClass, size]
  | proxy vtable targetDomain targetDomainID depIndex => [vtable, targetDomain, targetDomainID, depIndex]

/-- A class that has been linked has a vtable. -/
def Linked : Request → Prop
  | object vtable => vtable ≠ 0
  | _ => True

/-- What the routine does with the object that it gets. -/
def init (r : Request) (obj : Nat) (s : State) : State :=
  { s with mem := fun w =>
      if obj ≤ w ∧ w < obj + r.fields.length then r.fields.getD (w - obj) 0 else s.mem w }

end Request

/-- `NULL`, something that is not on the heap, or one of the objects. -/
def StrictRef (s : State) (P : Nat → Prop) (v : Nat) : Prop :=
  v = 0 ∨ ¬ (4 * s.heap ≤ v ∧ v < 4 * s.heapBorder) ∨ ∃ q, P q ∧ v = ref q

/-- A program's step: the state of the heap and the words where the program keeps its references. A
program only has references to what it can reach. -/
inductive Step (env : Env) : State × List Nat → State × List Nat → Prop
  /-- It asks for an object, which it keeps in `a`. The handle is given back before the fields are
  set. The request is none that goes around the address space. -/
  | alloc {s s' t : State} {roots : List Nat} {c : Caller} {r : Request} {a tries handle obj : Nat}
      (hr : r.Linked) (ha : a ∈ roots) (hsize : s.heapTop + r.objSize env < 2 ^ 30)
      (hret : Returns (fun fuel =>
        allocDataInDomain c (gcIn env c roots fuel) (r.objSize env) r.kind.flags tries s) (handle, s'))
      (hobj : unregisterObject handle s' = (obj, t)) :
      Step env (s, roots) ((r.init obj t).setWord a (4 * obj), roots)
  /-- A collection that nobody has waited for. -/
  | collect {s s' : State} {roots : List Nat}
      (hret : Returns (fun fuel => gcCompactingGc env roots fuel s) s') :
      Step env (s, roots) (s', roots)
  | putReference {s : State} {roots : List Nat} {p k v : Nat} (hp : Reachable env s roots p)
      (hk : k ∈ offsets env s.mem p) (hv : StrictRef s (Reachable env s roots) v) :
      Step env (s, roots) (s.setWord (p + k) v, roots)
  | putData {s : State} {roots : List Nat} {p k v : Nat} (hp : Reachable env s roots p)
      (hk : headerWords s.mem p ≤ k) (hlt : k < sizeAt env s.mem p) (hno : k ∉ offsets env s.mem p) :
      Step env (s, roots) (s.setWord (p + k) v, roots)
  /-- Its stacks grow, shrink and change. -/
  | frames {s : State} {roots roots' : List Nat} {mem : Nat → Nat}
      (hheap : ∀ w, s.heap ≤ w → w < s.heapBorder → mem w = s.mem w) (hnodup : roots'.Nodup)
      (hout : ∀ a ∈ roots', ¬ (s.heap ≤ a ∧ a < s.heapBorder))
      (hv : ∀ a ∈ roots', StrictRef s (Reachable env s roots) (mem a)) :
      Step env (s, roots) ({ s with mem := mem }, roots')

/-- What all steps keep. -/
structure Sound (env : Env) (s : State) (objs roots : List Nat) : Prop where
  tiled : Tiled id (sizeAt env s.mem) s.heap objs s.heapTop
  plain : ∀ p ∈ objs, Plain s.mem p
  magic : ∀ p ∈ objs, s.mem (p + 1) = magicObject
  vtable : ∀ p ∈ objs, Kind.ofFlags (s.mem p) = some .object → s.mem (p + 2) ≠ 0
  border : s.heapTop ≤ s.heapBorder
  refs : ∀ p ∈ objs, ∀ k ∈ offsets env s.mem p, StrictRef s (· ∈ objs) (s.mem (p + k))
  roots_outside : ∀ a ∈ roots, ¬ (s.heap ≤ a ∧ a < s.heapBorder)
  roots_nodup : roots.Nodup
  rootRefs : ∀ a ∈ roots, StrictRef s (· ∈ objs) (s.mem a)

section Runs

variable {env : Env} {s s' : State} {objs roots roots' l : List Nat} {φ : Nat → Nat} {p k v w : Nat}
  {r : Request} {P Q : Nat → Prop}

theorem StrictRef.mono (h : StrictRef s P v) (hPQ : ∀ q, P q → Q q) : StrictRef s Q v :=
  h.imp_right fun h => h.imp_right fun ⟨q, hq, hv⟩ => ⟨q, hPQ q hq, hv⟩

theorem StrictRef.refOk (h : StrictRef s (· ∈ objs) v) (hborder : s.heapTop ≤ s.heapBorder) :
    RefOk s objs v := by
  refine h.imp_right fun h => h.imp_left fun hout hin => hout ?_
  unfold State.isInHeap at hin
  omega

theorem Sound.collectable (h : Sound env s objs roots) : Collectable env s objs roots where
  heapOf :=
    { tiled := h.tiled
      three_le := fun p hp => Nat.le_of_succ_le ((h.plain p hp).four_le env)
      size_of := fun p _ n hn => by
        rw [sizeAt, hn]
        rfl
      vtable := h.vtable
      slots := fun p hp a ha => by
        rw [(h.plain p hp).slots] at ha
        obtain ⟨k, hk, rfl⟩ := List.mem_map.mp ha
        exact (h.refs p hp k hk).refOk h.border
      no_pool := fun p hp hpool => by
        rcases h.plain p hp with hkind | hkind | hkind <;> rw [hkind] at hpool <;> cases hpool }
  plain := h.plain
  magic := h.magic
  border := h.border
  roots_outside := h.roots_outside
  roots_ok := fun a ha => (h.rootRefs a ha).refOk h.border
  roots_nodup := h.roots_nodup

theorem Sound.mem_of_reachable (h : Sound env s objs roots) (hp : Reachable env s roots p) :
    p ∈ objs := hp.mem h.collectable.heapOf h.collectable.rootsOk

/-- A collection redirects references and invents none. -/
theorem Collected.strictRef (hc : Collected env s s' objs roots l φ)
    (hv : StrictRef s (· ∈ objs) v) (h : Collectable env s objs roots)
    (hlive : ∀ q, objAt s v = some q → q ∈ l) :
    StrictRef s' (· ∈ l.map φ) (redirect s φ v) := by
  rcases (hv.refOk h.border).cases with ⟨hnone, hout⟩ | ⟨q, -, -, -, -, hobj⟩
  · have hsame : redirect s φ v = v := by
      rw [redirect, hnone]
      rfl
    rw [hsame, StrictRef, hc.heap, hc.heapBorder]
    refine hv.imp_right fun hv => hv.imp_right ?_
    rintro ⟨q, hq, rfl⟩
    have hbounds := h.heapOf.tiled.mem_bounds hq
    have hfour := (h.plain q hq).four_le env
    unfold State.isInHeap ref at hout
    simp only [id] at hbounds
    omega
  · rw [redirect, hobj]
    exact .inr (.inr ⟨φ q, List.mem_map_of_mem (hlive q hobj), rfl⟩)

theorem Sound.collected (h : Sound env s objs roots) (hc : Collected env s s' objs roots l φ) :
    Sound env s' (l.map φ) roots := by
  have hagain := hc.collectable h.collectable
  refine
    { tiled := hagain.heapOf.tiled, plain := hagain.plain, magic := hagain.magic,
      vtable := hagain.heapOf.vtable, border := hagain.border, refs := ?_,
      roots_outside := hagain.roots_outside, roots_nodup := h.roots_nodup, rootRefs := fun a ha => ?_ }
  · rw [List.forall_mem_map]
    intro p hp k hk
    have hobj := hc.sublist.subset hp
    rw [hc.offsets p hp] at hk
    rw [hc.refs p hp k hk]
    refine hc.strictRef (h.refs p hobj k hk) h.collectable fun q hq => ?_
    exact (hc.survivors q).mpr
      (.slot ((hc.survivors p).mp hp) ((h.plain p hobj).mem_offsets.mp hk) hq)
  · rw [hc.rootRefs a ha]
    exact hc.strictRef (h.rootRefs a ha) h.collectable fun q hq => (hc.survivors q).mpr (.root ha hq)

/-- Memory may change as long as the headers stay and the references are good. -/
theorem Sound.write (h : Sound env s objs roots) {mem : Nat → Nat}
    (hheader : ∀ p ∈ objs, ∀ k < headerWords s.mem p, mem (p + k) = s.mem (p + k))
    (hrefs : ∀ p ∈ objs, ∀ k ∈ offsets env s.mem p, StrictRef s (· ∈ objs) (mem (p + k)))
    (hout : ∀ a ∈ roots', ¬ (s.heap ≤ a ∧ a < s.heapBorder)) (hnodup : roots'.Nodup)
    (hroots : ∀ a ∈ roots', StrictRef s (· ∈ objs) (mem a)) :
    Sound env { s with mem := mem } objs roots' := by
  have hkind : ∀ p ∈ objs, Kind.ofFlags (mem p) = Kind.ofFlags (s.mem p) := fun p hp => by
    have := three_le_headerWords s.mem p
    exact congrArg Kind.ofFlags (hheader p hp 0 (by omega))
  have hword : ∀ p ∈ objs, ∀ k < 3, mem (p + k) = s.mem (p + k) := fun p hp k hk =>
    hheader p hp k (Nat.lt_of_lt_of_le hk (three_le_headerWords s.mem p))
  have hlayout := fun p hp => (h.plain p hp).moved env (hkind p hp)
    fun k _ hlt => hheader p hp k hlt
  refine
    { tiled := h.tiled.congr (fun _ _ => rfl) fun p hp => (hlayout p hp).1,
      plain := fun p hp => (h.plain p hp).congr (hkind p hp),
      magic := fun p hp => (hword p hp 1 (by decide)).trans (h.magic p hp),
      vtable := fun p hp hobject => ?_, border := h.border, refs := fun p hp k hk => ?_,
      roots_outside := hout, roots_nodup := hnodup, rootRefs := hroots }
  · rw [show ({ s with mem := mem } : State).mem (p + 2) = s.mem (p + 2) from hword p hp 2 (by decide)]
    exact h.vtable p hp ((hkind p hp).symm.trans hobject)
  · rw [(hlayout p hp).2] at hk
    exact hrefs p hp k hk

theorem Sound.header_le (h : Sound env s objs roots) (hp : p ∈ objs) :
    headerWords s.mem p ≤ sizeAt env s.mem p := (h.plain p hp).headerWords_le env

/-- A root slot is not inside of an object. -/
theorem Sound.root_ne (h : Sound env s objs roots) {a : Nat} (ha : a ∈ roots) (hp : p ∈ objs)
    (hlt : k < sizeAt env s.mem p) : p + k ≠ a := by
  have hbounds := h.tiled.mem_bounds hp
  have hborder := h.border
  have hout := h.roots_outside a ha
  simp only [id] at hbounds
  omega

/-- A write into an object, behind its header. -/
theorem Sound.setWord (h : Sound env s objs roots) (hp : p ∈ objs) (hk : headerWords s.mem p ≤ k)
    (hlt : k < sizeAt env s.mem p)
    (hv : k ∈ offsets env s.mem p → StrictRef s (· ∈ objs) v) :
    Sound env (s.setWord (p + k) v) objs roots := by
  have hbounds := h.tiled.mem_bounds hp
  have hborder := h.border
  -- the word belongs to no other object
  have hsame : ∀ q ∈ objs, ∀ j < sizeAt env s.mem q, q + j = p + k → q = p ∧ j = k :=
    fun q hq j hj heq => by
      have := h.tiled.block_unique hq hp hj hlt heq
      omega
  refine h.write (fun q hq j hj => ?_) (fun q hq j hj => ?_) h.roots_outside h.roots_nodup fun a ha => ?_
  · have hsize := h.header_le hq
    refine if_neg fun heq => ?_
    obtain ⟨rfl, rfl⟩ := hsame q hq j (by omega) heq
    omega
  · have hj' := ((h.plain q hq).offset_bounds hj).2
    by_cases heq : q + j = p + k
    · obtain ⟨rfl, rfl⟩ := hsame q hq j hj' heq
      rw [if_pos rfl]
      exact hv hj
    · rw [if_neg heq]
      exact h.refs q hq j hj
  · rw [if_neg (h.root_ne ha hp hlt).symm]
    exact h.rootRefs a ha

/-! ## A new object -/

/-- The words of a new object. -/
def Request.newWord (r : Request) (k : Nat) : Nat :=
  if k = 0 then r.kind.flags else if k = 1 then magicObject else r.fields.getD (k - 2) 0

theorem Request.fields_le (env : Env) (r : Request) : 2 + r.fields.length ≤ r.objSize env := by
  cases r with
  | object vtable =>
    simp only [fields, objSize, objsizeObject, List.length_cons, List.length_nil]
    omega
  | array vtable arrayClass size =>
    simp only [fields, objSize, objsizeArray32bit, List.length_cons, List.length_nil]
    omega
  | proxy vtable targetDomain targetDomainID depIndex => exact Nat.le_refl 6

theorem Request.init_mem (r : Request) (s : State) (n w : Nat) (hsize : r.objSize env < 2 ^ 30) :
    (r.init (s.heapTop + 2) (takeBlock (r.objSize env) r.kind.flags n s)).mem w =
      if s.heapTop ≤ w ∧ w < s.heapTop + r.objSize env then r.newWord (w - s.heapTop) else s.mem w := by
  have hfields := r.fields_le env
  simp only [init, takeBlock, State.setObjMagic, State.setObjFlags, State.setWord, newWord,
    Nat.mod_eq_of_lt hsize]
  by_cases hin : s.heapTop ≤ w ∧ w < s.heapTop + r.objSize env
  · rw [if_pos hin, if_pos hin]
    obtain ⟨k, rfl⟩ := Nat.exists_eq_add_of_le hin.1
    rw [Nat.add_sub_cancel_left]
    by_cases hk : 2 ≤ k
    · rw [if_neg (show ¬ k = 0 by omega), if_neg (show ¬ k = 1 by omega)]
      split
      · rw [show s.heapTop + k - (s.heapTop + 2) = k - 2 by omega]
      · rw [if_neg (by omega), if_neg (by omega), List.getD_eq_getElem?_getD,
          List.getElem?_eq_none (by omega), Option.getD_none]
    · rw [if_neg (by omega)]
      obtain rfl | rfl : k = 0 ∨ k = 1 := by omega
      · rw [if_neg (by omega), if_pos (by omega)]
        rfl
      · rw [if_pos (by omega)]
        rfl
  · rw [if_neg hin, if_neg (by omega), if_neg (by omega), if_neg (by omega), if_neg (by omega)]

/-- A new object is as long as it was asked for, and its references are `NULL`. -/
theorem Request.layout {mem : Nat → Nat} (hmem : ∀ k < r.objSize env, mem (p + k) = r.newWord k) :
    Plain mem p ∧ sizeAt env mem p = r.objSize env ∧ ∀ k ∈ offsets env mem p, mem (p + k) = 0 := by
  have hfields := r.fields_le env
  have hkind : Kind.ofFlags (mem p) = some r.kind := by
    rw [← ofFlags_flags, show mem p = r.kind.flags from hmem 0 (by omega)]
  have hplain : Plain mem p := by
    unfold Plain
    rw [hkind]
    cases r <;> simp [kind]
  have hsize : sizeAt env mem p = r.objSize env := by
    unfold sizeAt GcCompacting.sizeOf
    rw [hkind]
    cases r with
    | object vtable =>
      have hvtable := hmem 2 (by simp only [objSize, objsizeObject]; omega)
      simp only [kind, hvtable]
      rfl
    | array vtable arrayClass size =>
      have hlength := hmem 4 (by simp only [objSize, objsizeArray32bit]; omega)
      simp only [kind, hlength]
      rfl
    | proxy vtable targetDomain targetDomainID depIndex => rfl
  refine ⟨hplain, hsize, fun k hk => ?_⟩
  have hbounds := hplain.offset_bounds hk
  rw [hsize] at hbounds
  -- a portal has no references at all
  have hheader : r.fields.length + 2 ≤ headerWords mem p := by
    unfold headerWords
    rw [hkind]
    cases r with
    | object vtable => simp [kind, fields]
    | array vtable arrayClass size => simp [kind, fields]
    | proxy vtable targetDomain targetDomainID depIndex =>
      unfold offsets slots at hk
      rw [Nat.add_sub_cancel, hkind] at hk
      cases hk
  have hthree := three_le_headerWords mem p
  rw [hmem k hbounds.2, newWord, if_neg (by omega), if_neg (by omega),
    List.getD_eq_getElem?_getD, List.getElem?_eq_none (by omega), Option.getD_none]

theorem Sound.init (h : Sound env s objs roots) (hr : r.Linked)
    (hsize : r.objSize env < 2 ^ 30) (hfits : s.heapTop + r.objSize env ≤ s.heapBorder) :
    Sound env (r.init (s.heapTop + 2)
      (takeBlock (r.objSize env) r.kind.flags (s.heapTop + r.objSize env) s))
      (objs ++ [s.heapTop]) roots := by
  have hfields := r.fields_le env
  generalize hs' : r.init (s.heapTop + 2)
    (takeBlock (r.objSize env) r.kind.flags (s.heapTop + r.objSize env) s) = s'
  have hmem : ∀ w, s'.mem w = if s.heapTop ≤ w ∧ w < s.heapTop + r.objSize env
      then r.newWord (w - s.heapTop) else s.mem w := fun w => hs' ▸ r.init_mem s _ w hsize
  have hheap : s'.heap = s.heap := by rw [← hs']; rfl
  have hborder : s'.heapBorder = s.heapBorder := by rw [← hs']; rfl
  have htop : s'.heapTop = s.heapTop + r.objSize env := by rw [← hs']; rfl
  have hold : ∀ p ∈ objs, ∀ k < sizeAt env s.mem p, s'.mem (p + k) = s.mem (p + k) :=
    fun p hp k hk => by
      have hbounds := h.tiled.mem_bounds hp
      simp only [id] at hbounds
      rw [hmem, if_neg (by omega)]
  have hkind : ∀ p ∈ objs, Kind.ofFlags (s'.mem p) = Kind.ofFlags (s.mem p) := fun p hp => by
    have := (h.plain p hp).four_le env
    exact congrArg Kind.ofFlags (hold p hp 0 (by omega))
  have hlayout := fun p hp => (h.plain p hp).moved env (hkind p hp)
    fun k _ hlt => hold p hp k (Nat.lt_of_lt_of_le hlt (h.header_le hp))
  have hnew : ∀ k < r.objSize env, s'.mem (s.heapTop + k) = r.newWord k := fun k hk => by
    rw [hmem, if_pos (by omega), Nat.add_sub_cancel_left]
  obtain ⟨hplain, hsize, hzero⟩ := r.layout hnew
  have hfour : 4 ≤ r.objSize env := hsize ▸ hplain.four_le env
  have hstrict : ∀ {v}, StrictRef s (· ∈ objs) v → StrictRef s' (· ∈ objs ++ [s.heapTop]) v := by
    intro v hv
    rw [StrictRef, hheap, hborder]
    exact hv.mono fun q hq => List.mem_append_left _ hq
  refine
    { tiled := ?_, plain := ?_, magic := ?_, vtable := ?_, border := by rw [htop, hborder]; exact hfits,
      refs := ?_, roots_outside := by rw [hheap, hborder]; exact h.roots_outside,
      roots_nodup := h.roots_nodup, rootRefs := fun a ha => ?_ }
  · rw [hheap, htop, ← hsize]
    exact (h.tiled.congr (fun _ _ => rfl) fun p hp => (hlayout p hp).1).concat rfl
  · simp only [List.forall_mem_append, List.forall_mem_singleton]
    exact ⟨fun p hp => (h.plain p hp).congr (hkind p hp), hplain⟩
  · simp only [List.forall_mem_append, List.forall_mem_singleton]
    refine ⟨fun p hp => ?_, hnew 1 (by omega)⟩
    have := (h.plain p hp).four_le env
    rw [hold p hp 1 (by omega)]
    exact h.magic p hp
  · simp only [List.forall_mem_append, List.forall_mem_singleton]
    refine ⟨fun p hp hobject => ?_, fun hobject => ?_⟩
    · have := (h.plain p hp).four_le env
      rw [hold p hp 2 (by omega)]
      exact h.vtable p hp ((hkind p hp).symm.trans hobject)
    · have hflags : s'.mem s.heapTop = r.kind.flags := hnew 0 (by omega)
      rw [hflags, ofFlags_flags] at hobject
      cases r with
      | object vtable =>
        rw [hnew 2 (by omega)]
        exact hr
      | array vtable arrayClass size => cases hobject
      | proxy vtable targetDomain targetDomainID depIndex => cases hobject
  · simp only [List.forall_mem_append, List.forall_mem_singleton]
    refine ⟨fun p hp k hk => ?_, fun k hk => .inl (hzero k hk)⟩
    rw [(hlayout p hp).2] at hk
    rw [hold p hp k ((h.plain p hp).offset_bounds hk).2]
    exact hstrict (h.refs p hp k hk)
  · have hout := h.roots_outside a ha
    have htiled := h.tiled.base_le
    rw [hmem, if_neg (by omega)]
    exact hstrict (h.rootRefs a ha)

theorem doAlloc_inv {c : Caller} {objSize flags nextObj : Nat} {x : Nat × State}
    (h : doAlloc c objSize flags nextObj s = pure x) :
    unregisterObject x.1 x.2 = (s.heapTop + 2, takeBlock objSize flags nextObj s) := by
  obtain ⟨-, -, hreg⟩ := bind_eq_pure h
  exact unregisterObject_registerObject hreg

/-- Whatever collections an allocation has started, it is done on a heap like the first. -/
theorem Sound.allocDataInDomain (h : Sound env s objs roots) {c : Caller} {objSize flags tries : Nat}
    {x : Nat × State} (hsize : s.heapTop + objSize < 2 ^ 30)
    (hret : Returns (fun fuel => allocDataInDomain c (gcIn env c roots fuel) objSize flags tries s) x) :
    ∃ t objs', Sound env t objs' roots ∧ t.heapTop + objSize ≤ t.heapBorder ∧
      unregisterObject x.1 x.2 =
        (t.heapTop + 2, takeBlock objSize flags (t.heapTop + objSize) t) := by
  induction tries generalizing s objs with
  | zero =>
    obtain ⟨n, hn⟩ := hret
    cases loop_eq_pure (hn n (Nat.le_refl n))
  | succ tries ih =>
    have hdone : ∀ {y : Exec (Nat × State)}, Returns (fun _ => y) x → y = pure x :=
      fun ⟨n, hn⟩ => hn n (Nat.le_refl n)
    by_cases hfits : Fits objSize s
    · simp only [allocDataInDomain_fits hsize hfits] at hret
      exact ⟨s, objs, h, Nat.le_of_add_right_le hfits, doAlloc_inv (hdone hret)⟩
    · have hpanic : ∀ {text}, ¬ Returns (fun _ => (throw (.panic text) : Exec (Nat × State))) x :=
        fun ⟨n, hn⟩ => by cases hn n (Nat.le_refl n)
      cases hirq : c.isInterruptHandlerThread with
      | true =>
        simp only [GcCompacting.allocDataInDomain, Nat.mod_eq_of_lt hsize, hirq, if_true,
          if_pos (Nat.lt_of_not_le hfits)] at hret
        split at hret
        · exact absurd hret hpanic
        · next hroom => exact ⟨s, objs, h, Nat.le_of_not_lt hroom, doAlloc_inv (hdone hret)⟩
      | false =>
        simp only [allocDataInDomain_collects hsize hfits hirq] at hret
        split at hret
        · cases hinhibit : c.inhibitGCFlag with
          | true =>
            simp only [gcIn, hinhibit, if_true] at hret
            exact absurd hret hpanic
          | false =>
            obtain ⟨s', l, φ, hcollect, hcol⟩ := h.collectable.collects
            have hgc : Returns (fun fuel => gcIn env c roots fuel s) s' := by
              simpa only [gcIn, hinhibit, Bool.false_eq_true, if_false] using hcollect
            -- the top has only gone down
            have htop := hcol.heapTop_le h.collectable
            exact ih (h.collected hcol) (by omega) ((returns_bind_iff hgc).mp hret)
        · exact absurd hret hpanic

theorem Sound.alloc (h : Sound env s objs roots) (hr : r.Linked) {c : Caller}
    {a tries handle obj : Nat} {s'' : State} (ha : a ∈ roots)
    (hsize : s.heapTop + r.objSize env < 2 ^ 30)
    (hret : Returns (fun fuel =>
      GcCompacting.allocDataInDomain c (gcIn env c roots fuel) (r.objSize env) r.kind.flags tries s)
      (handle, s'))
    (hobj : unregisterObject handle s' = (obj, s'')) :
    ∃ objs', Sound env ((r.init obj s'').setWord a (4 * obj)) objs' roots := by
  obtain ⟨t, objs', ht, hfits, hx⟩ := h.allocDataInDomain hsize hret
  obtain ⟨rfl, rfl⟩ := Prod.mk.inj (hobj.symm.trans hx)
  have hnew := ht.init hr (by omega) hfits
  refine ⟨objs' ++ [t.heapTop], hnew.write (fun p hp k hk => ?_) (fun p hp k hk => ?_)
    hnew.roots_outside hnew.roots_nodup fun a' ha' => ?_⟩
  · have hlt := Nat.lt_of_lt_of_le hk (hnew.header_le hp)
    exact if_neg (hnew.root_ne ha hp hlt)
  · have hlt := ((hnew.plain p hp).offset_bounds hk).2
    rw [if_neg (hnew.root_ne ha hp hlt)]
    exact hnew.refs p hp k hk
  · by_cases heq : a' = a
    · rw [if_pos heq]
      exact .inr (.inr ⟨t.heapTop, by simp, rfl⟩)
    · rw [if_neg heq]
      exact hnew.rootRefs a' ha'

/-! ## Runs -/

theorem Sound.step (h : Sound env s objs roots) (hstep : Step env (s, roots) (s', roots')) :
    ∃ objs', Sound env s' objs' roots' := by
  cases hstep with
  | alloc hr ha hsize hret hobj => exact h.alloc hr ha hsize hret hobj
  | collect hret =>
    obtain ⟨t, l, φ, hcollect, hcol⟩ := h.collectable.collects
    rw [hret.unique hcollect]
    exact ⟨_, h.collected hcol⟩
  | putReference hp hk hv =>
    have hmem := h.mem_of_reachable hp
    have hbounds := (h.plain _ hmem).offset_bounds hk
    exact ⟨objs, h.setWord hmem hbounds.1 hbounds.2 fun _ => hv.mono fun q hq => h.mem_of_reachable hq⟩
  | putData hp hk hlt hno =>
    exact ⟨objs, h.setWord (h.mem_of_reachable hp) hk hlt fun hmem => absurd hmem hno⟩
  | frames hheap hnodup hout hv =>
    have hsame : ∀ p ∈ objs, ∀ k < sizeAt env s.mem p, _ = s.mem (p + k) := fun p hp k hk => by
      have hbounds := h.tiled.mem_bounds hp
      have hborder := h.border
      simp only [id] at hbounds
      exact hheap (p + k) (by omega) (by omega)
    refine ⟨objs, h.write (fun p hp k hk => ?_) (fun p hp k hk => ?_) hout hnodup fun a ha => ?_⟩
    · exact hsame p hp k (Nat.lt_of_lt_of_le hk (h.header_le hp))
    · rw [hsame p hp k ((h.plain p hp).offset_bounds hk).2]
      exact h.refs p hp k hk
    · exact (hv a ha).mono fun q hq => h.mem_of_reachable hq

theorem Sound.run (h : Sound env s objs roots)
    (hrun : Relation.ReflTransGen (Step env) (s, roots) (s', roots')) :
    ∃ objs', Sound env s' objs' roots' :=
  invariant_of_run (I := fun x : State × List Nat => ∃ objs, Sound env x.1 objs x.2)
    (fun _ _ ⟨_, h⟩ hstep => h.step hstep) hrun ⟨objs, h⟩

/-- A heap that has just been made, and a program that has nothing on it. -/
structure Start (s : State) (roots : List Nat) : Prop where
  init : ∃ heapBytes heap t, gcCompactingInit heapBytes heap t = pure s
  roots_outside : ∀ a ∈ roots, ¬ (s.heap ≤ a ∧ a < s.heapBorder)
  roots_nodup : roots.Nodup
  rootRefs : ∀ a ∈ roots, StrictRef s (fun _ => False) (s.mem a)

theorem Start.sound (h : Start s roots) (env : Env) : Sound env s [] roots := by
  obtain ⟨heapBytes, heap, t, hinit⟩ := h.init
  have hbounds : s.heapTop = s.heap ∧ s.heap ≤ s.heapBorder := by
    unfold gcCompactingInit at hinit
    simp only at hinit
    split at hinit
    · cases hinit
    · split at hinit
      · cases hinit
      · split at hinit
        · cases hinit
        · rw [← eq_of_pure_eq hinit]
          exact ⟨rfl, Nat.le_add_right _ _⟩
  exact
    { tiled := hbounds.1.symm, plain := nofun, magic := nofun, vtable := nofun,
      border := hbounds.1 ▸ hbounds.2, refs := nofun, roots_outside := h.roots_outside,
      roots_nodup := h.roots_nodup, rootRefs := fun a ha => (h.rootRefs a ha).mono nofun }

end Runs

/-- Whatever a program does, its heap can be collected at any time, and the collection keeps what the
program can reach. -/
theorem collected_of_run {env : Env} {s₀ s : State} {roots₀ roots : List Nat} (hstart : Start s₀ roots₀)
    (hrun : Relation.ReflTransGen (Step env) (s₀, roots₀) (s, roots)) :
    ∃ objs, Collectable env s objs roots ∧
      ∃ s' l φ, Returns (fun fuel => gcCompactingGc env roots fuel s) s' ∧
        Collected env s s' objs roots l φ := by
  obtain ⟨objs, h⟩ := (hstart.sound env).run hrun
  exact ⟨objs, h.collectable, h.collectable.collects⟩

/-- A heap of sixteen thousand words, and a program with one reference, which is `NULL`. -/
def newState : State := { exampleState with
  mem := fun _ => 0, heap := 0x10000, heapTop := 0x10000, heapBorder := 0x14000 }

theorem start_newState : Start newState [10] where
  init := ⟨0x10000, 0x10000, { exampleState with mem := fun _ => 0 }, rfl⟩
  roots_outside := by decide
  roots_nodup := by decide
  rootRefs := by
    simp only [List.forall_mem_singleton]
    exact .inl rfl

/-- The program makes an object. -/
theorem collected_newState :
    ∃ s, Relation.ReflTransGen (Step exampleEnv) (newState, [10]) (s, [10]) ∧
      s.heapTop = newState.heapTop + 6 ∧ ∃ objs, Collectable exampleEnv s objs [10] ∧
        ∃ s' l φ, Returns (fun fuel => gcCompactingGc exampleEnv [10] fuel s) s' ∧
          Collected exampleEnv s s' objs [10] l φ := by
  have hfits : Fits 6 newState := by
    unfold Fits
    decide
  have hret : Returns (fun fuel => allocDataInDomain fullCaller (gcIn exampleEnv fullCaller [10] fuel) 6
      Kind.object.flags 1 newState)
      (20, (takeBlock 6 Kind.object.flags 0x10006 newState).setWord 20 (4 * 0x10002)) :=
    ⟨0, fun _ _ => (allocDataInDomain_fits (by decide) hfits).trans rfl⟩
  have hstep : Step exampleEnv (newState, [10]) (((Request.object 4000).init _ _).setWord 10 _, [10]) :=
    .alloc (show 4000 ≠ 0 by decide) (by decide) (by decide) hret rfl
  have hrun := Relation.ReflTransGen.single hstep
  exact ⟨_, hrun, rfl, collected_of_run start_newState hrun⟩

end JxCore.GcCompacting
