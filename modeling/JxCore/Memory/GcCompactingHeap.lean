import JxCore.Memory.GcCompacting
import JxCore.Memory.GcNewHeap

/-!
# What the compacting collector finds in its heap

An object is named by the word `p` that holds its flags, as in `GcNewHeap`. `HeapOf` says what the
collector relies on: objects from the bottom to the top, and references that lead to one of them, to
somewhere else or nowhere.

`walk_append` replaces the walk over such a heap by a fold over its objects. It asks for a
description `f` of the states in between, so that each phase can keep its own books.
-/

namespace JxCore.GcCompacting

open Exec GcNew HeapWalk

/-! ## Objects -/

/-- The size of the object at `p` if it is of a kind that the collector has a callback for. -/
def sizeOf (env : Env) (mem : Nat → Nat) (p : Nat) : Option Nat :=
  match Kind.ofFlags (mem p) with
  | some .array => some (objsizeArray32bit (mem (p + 4)))
  | some .object => some (objsizeObject (env.classDesc (mem (p + 2))).instanceSize)
  | some .portal => some objsizePortal
  | some .memory => some objsizeMemory
  | some .service => some objsizeServicedesc
  | some .atomvar => some objsizeAtomvar
  | some .cas => some objsizeCas
  | _ => none

/-- The collector can walk over the object at `p`. -/
def Walkable (env : Env) (mem : Nat → Nat) (p : Nat) : Prop := (sizeOf env mem p).isSome

instance (env : Env) (mem : Nat → Nat) (p : Nat) : Decidable (Walkable env mem p) :=
  inferInstanceAs (Decidable (_ = true))

/-- The callback for an object with these flags. -/
def Handlers.of (h : Handlers) (flags : Nat) : HandleObject :=
  match Kind.ofFlags flags with
  | some .array => h.array
  | some .object => h.object
  | some .portal => h.portal
  | some .memory => h.memory
  | some .service => h.service
  | some .atomvar => h.atomVar
  | some .cas => h.cas
  | _ => skip

/-- `NULL`, a reference out of the heap, or a reference to one of its objects. -/
def RefOk (s : State) (objs : List Nat) (v : Nat) : Prop :=
  v = 0 ∨ ¬ s.isInHeap v ∨ ∃ q ∈ objs, v = ref q

/-- What a slot may hold. A pointer to a thread leads into its descriptor. -/
def SlotOk (s : State) (objs : List Nat) : Slot → Prop
  | .ref a => RefOk s objs (s.mem a)
  | .tcb a => s.mem a = 0 ∨ 4 < s.mem a ∧ RefOk s objs (s.mem a - 4) ∧
      Kind.ofFlags (s.getObjFlags ((s.mem a - 4) / 4)) = some .cpustate

/-- The words of a slot lie in the object at `p`, behind its flags. -/
def Slot.addr : Slot → Nat
  | .ref a => a
  | .tcb a => a

/-- The heap consists of the objects `objs`. How long the kinds are that the collector cannot walk
over does not matter. -/
structure HeapOf (env : Env) (s : State) (objs : List Nat) (size : Nat → Nat) : Prop where
  tiled : Tiled id size s.heap objs s.heapTop
  three_le : ∀ p ∈ objs, 3 ≤ size p
  size_of : ∀ p ∈ objs, ∀ n, sizeOf env s.mem p = some n → size p = n
  vtable : ∀ p ∈ objs, Kind.ofFlags (s.mem p) = some .object → s.mem (p + 2) ≠ 0
  slots : ∀ p ∈ objs, ∀ a ∈ slots env s.mem (p + 2), SlotOk s objs a
  /-- The build does not allocate service pools. -/
  no_pool : ∀ p ∈ objs, Kind.ofFlags (s.mem p) ≠ some .servicePool

section

variable {env : Env} {h : Handlers} {s : State} {objs : List Nat} {size : Nat → Nat} {p n : Nat}

theorem visit_eq (hsize : sizeOf env s.mem p = some n) :
    visit env h p s = (n, ·) <$> h.of (s.mem p) (p + 2) n (s.mem p) s := by
  unfold visit Handlers.of
  unfold sizeOf at hsize
  simp only [State.getObjFlags, Nat.add_sub_cancel]
  split at hsize
  all_goals first
    | next hkind => cases hsize; simp only [hkind]
    | cases hsize

theorem of_all (handle : HandleObject) (hsize : sizeOf env s.mem p = some n) :
    (Handlers.all handle).of (s.mem p) = handle := by
  unfold Handlers.of
  unfold sizeOf at hsize
  generalize Kind.ofFlags (s.mem p) = kind at hsize ⊢
  match kind with
  | some .array | some .object | some .portal | some .memory | some .service | some .atomvar
  | some .cas => rfl
  | some .servicePool | some .domain | some .cpustate | some .foreignCpustate
  | some .externalCpudesc | some .externalString | some .externalMethod | some .externalClass
  | some .interceptInboundInfo | some .vmobject | some .stack | none => cases hsize

/-- A kind without a callback ends the walk, unless it is a domain proxy. -/
theorem visit_ne_pure (hsize : sizeOf env s.mem p = none)
    (hpool : Kind.ofFlags (s.mem p) ≠ some .servicePool) {x : Nat × State}
    (hstray : ∀ obj n flags s t, env.handleDomainProxy obj n flags s ≠ pure t) :
    visit env h p s ≠ pure x := by
  unfold visit
  unfold sizeOf at hsize
  simp only [State.getObjFlags, Nat.add_sub_cancel]
  generalize Kind.ofFlags (s.mem p) = kind at hsize hpool ⊢
  match kind with
  | some .array | some .object | some .portal | some .memory | some .service | some .atomvar
  | some .cas => cases hsize
  | some .servicePool => exact absurd rfl hpool
  | some .domain =>
    intro hvisit
    obtain ⟨t, ht, -⟩ := bind_eq_pure (map_eq_pure_bind (m := Exec) _ _ ▸ hvisit)
    exact hstray _ _ _ _ _ ht
  | some .cpustate | some .foreignCpustate | some .externalCpudesc | some .externalString
  | some .externalMethod | some .externalClass | some .interceptInboundInfo | some .vmobject
  | some .stack | none => nofun

/-! ## Walks -/

/-- The walk over the first objects of a heap. `f t` is the state that belongs to the books `t`, and
`I` says what the books hold when the objects of a list have been visited. -/
theorem walk_append {τ : Type} {f : τ → State} {g : τ → Nat → τ} {I : List Nat → τ → Prop}
    {base mid top : Nat} (l done : List Nat) (t : τ)
    (hvisit : ∀ l' q r t, l = l' ++ q :: r → I (done ++ l') t →
      visit env h q (f t) = pure (size q, f (g t q)) ∧ I (done ++ l' ++ [q]) (g t q))
    (htiled : Tiled id size base l mid) (hpos : ∀ q ∈ l, 0 < size q) (hmid : mid ≤ top)
    (ht : I done t) (n : Nat) :
    walkContinuesBlockAlt env h top (l.length + n) base (f t) =
        walkContinuesBlockAlt env h top n mid (f (l.foldl g t)) ∧ I (done ++ l) (l.foldl g t) := by
  induction l generalizing base done t with
  | nil =>
    rw [Tiled.nil_iff] at htiled
    subst htiled
    simpa using ht
  | cons q l ih =>
    obtain ⟨hstart, hrest⟩ := htiled
    have hstart : q = base := hstart
    subst hstart
    have hbound := hrest.base_le
    have hq := hpos q List.mem_cons_self
    obtain ⟨hq', hI⟩ := hvisit [] q l t rfl (by simpa using ht)
    rw [List.append_nil] at hI
    obtain ⟨hwalk, hend⟩ := ih (done ++ [q]) (g t q)
      (fun l' q' r t' hl ht' => by
        have hsplit := hvisit (q :: l') q' r t' (by rw [hl, List.cons_append])
        rw [List.append_cons] at hsplit
        exact hsplit ht')
      hrest (fun q' hq' => hpos q' (List.mem_cons_of_mem q hq')) hI
    rw [← List.append_cons] at hend
    refine ⟨?_, hend⟩
    rw [List.length_cons, Nat.add_right_comm, walkContinuesBlockAlt, if_pos (by omega), hq',
      pure_bind]
    exact hwalk

/-- The walk over the whole heap. -/
theorem walkHeap_eq {τ : Type} {f : τ → State} {g : τ → Nat → τ} {I : List Nat → τ → Prop} {t : τ}
    (hvisit : ∀ l q r t, objs = l ++ q :: r → I l t →
      visit env h q (f t) = pure (size q, f (g t q)) ∧ I (l ++ [q]) (g t q))
    (htiled : Tiled id size (f t).heap objs (f t).heapTop) (hpos : ∀ q ∈ objs, 0 < size q)
    (ht : I [] t) {fuel : Nat} (hfuel : objs.length < fuel) :
    walkHeap env h fuel (f t) = pure (f (objs.foldl g t)) ∧ I objs (objs.foldl g t) := by
  obtain ⟨n, rfl⟩ := Nat.exists_eq_add_of_lt hfuel
  obtain ⟨hwalk, hend⟩ := walk_append (I := I) objs [] t hvisit htiled hpos (Nat.le_refl _) ht (n + 1)
  refine ⟨?_, hend⟩
  rw [walkHeap, Nat.add_assoc, hwalk, walkContinuesBlockAlt, if_neg (Nat.lt_irrefl _)]

/-- A fold whose steps come back, described by books in the same way. -/
theorem foldlM_eq {τ β : Type} {f : τ → State} {step : State → β → Exec State} {g : τ → β → τ}
    {I : τ → Prop} (l : List β)
    (hstep : ∀ b ∈ l, ∀ t, I t → step (f t) b = pure (f (g t b)) ∧ I (g t b)) (t : τ) (ht : I t) :
    l.foldlM step (f t) = pure (f (l.foldl g t)) ∧ I (l.foldl g t) := by
  induction l generalizing t with
  | nil => exact ⟨rfl, ht⟩
  | cons b l ih =>
    simp only [List.forall_mem_cons] at hstep
    obtain ⟨hb, hI⟩ := hstep.1 t ht
    rw [List.foldlM_cons, hb, pure_bind]
    exact ih hstep.2 (g t b) hI

end

/-! ## Marks do not change what an object is -/

theorem ofFlags_congr {f f' : Nat} (h : f' &&& 0xfe = f &&& 0xfe) :
    Kind.ofFlags f' = Kind.ofFlags f := by
  unfold Kind.ofFlags
  rw [h]

@[simp] theorem ofFlags_mark (f : Nat) : Kind.ofFlags (f ||| 0x00000001) = Kind.ofFlags f := by
  apply ofFlags_congr
  rw [Nat.and_or_distrib_right]
  simp

@[simp] theorem ofFlags_clear (f : Nat) : Kind.ofFlags (f &&& 0xfffffffe) = Kind.ofFlags f := by
  apply ofFlags_congr
  rw [Nat.and_assoc]
  rfl

@[simp] theorem isMarked_mark (f : Nat) : isMarked (f ||| 0x00000001) = true := by
  unfold isMarked
  rw [Nat.and_or_distrib_right]
  have hbit : f &&& 0x00000001 = 0 ∨ f &&& 0x00000001 = 1 := by
    rw [Nat.and_one_is_mod]
    omega
  rcases hbit with h | h <;> rw [h] <;> rfl

@[simp] theorem isMarked_clear (f : Nat) : isMarked (f &&& 0xfffffffe) = false := by
  unfold isMarked
  rw [Nat.and_assoc]
  simp

section Layout

variable {env : Env} {s : State} {objs : List Nat} {size : Nat → Nat} {mem mem' : Nat → Nat}
  {p n : Nat} {a : Slot}

/-- The references of an object are inside of it, behind the flags, the magic and the vtable. -/
theorem slot_bounds (hsize : sizeOf env mem p = some n) (ha : a ∈ slots env mem (p + 2)) :
    p + 2 < a.addr ∧ a.addr < p + n := by
  unfold slots at ha
  unfold sizeOf at hsize
  rw [Nat.add_sub_cancel] at ha
  generalize Kind.ofFlags (mem p) = kind at hsize ha
  match kind with
  | some .array =>
    cases hsize
    simp only at ha
    split at ha
    · obtain ⟨i, hi, rfl⟩ := List.mem_map.mp ha
      have hlt : i < mem (p + 4) := List.mem_range.mp hi
      simp only [Slot.addr, objsizeArray32bit]
      omega
    · cases ha
  | some .object =>
    cases hsize
    obtain ⟨index, hindex, rfl⟩ := List.mem_map.mp ha
    have hlt := mem_setIndices hindex
    simp only [Slot.addr, objsizeObject]
    omega
  | some .service =>
    cases hsize
    simp only [List.mem_cons, List.not_mem_nil, or_false] at ha
    rcases ha with rfl | rfl | rfl <;> simp [Slot.addr, objsizeServicedesc]
  | some .atomvar =>
    cases hsize
    simp only [List.mem_cons, List.not_mem_nil, or_false] at ha
    rcases ha with rfl | rfl <;> simp [Slot.addr, objsizeAtomvar]
  | some .portal | some .memory | some .cas => cases ha
  | some .servicePool | some .domain | some .cpustate | some .foreignCpustate
  | some .externalCpudesc | some .externalString | some .externalMethod | some .externalClass
  | some .interceptInboundInfo | some .vmobject | some .stack | none => cases hsize

/-- Only the kind decides whether there is a callback. -/
theorem walkable_congr (hkind : Kind.ofFlags (mem' p) = Kind.ofFlags (mem p)) :
    Walkable env mem' p ↔ Walkable env mem p := by
  unfold Walkable sizeOf
  rw [hkind]
  generalize Kind.ofFlags (mem p) = kind
  match kind with
  | some .array | some .object | some .portal | some .memory | some .service | some .atomvar
  | some .cas => exact Iff.rfl
  | some .servicePool | some .domain | some .cpustate | some .foreignCpustate
  | some .externalCpudesc | some .externalString | some .externalMethod | some .externalClass
  | some .interceptInboundInfo | some .vmobject | some .stack | none => exact Iff.rfl

/-- The kind and the words behind the magic decide on the size and the slots. -/
theorem layout_of_words (hsize : sizeOf env mem p = some n)
    (hkind : Kind.ofFlags (mem' p) = Kind.ofFlags (mem p))
    (hmem : ∀ k, 1 < k → k < n → (∀ a ∈ slots env mem (p + 2), a.addr ≠ p + k) →
      mem' (p + k) = mem (p + k)) :
    sizeOf env mem' p = some n ∧ slots env mem' (p + 2) = slots env mem (p + 2) := by
  unfold sizeOf slots at *
  rw [Nat.add_sub_cancel] at *
  rw [hkind]
  generalize Kind.ofFlags (mem p) = kind at *
  match kind with
  | some .array =>
    cases hsize
    simp only [objsizeArray32bit] at hmem ⊢
    have hclass : mem' (p + 3) = mem (p + 3) := by
      apply hmem 3 (by omega) (by omega)
      intro a ha
      split at ha
      · obtain ⟨i, -, rfl⟩ := List.mem_map.mp ha
        simp only [Slot.addr]
        omega
      · cases ha
    have hlen : mem' (p + 4) = mem (p + 4) := by
      apply hmem 4 (by omega) (by omega)
      intro a ha
      split at ha
      · obtain ⟨i, -, rfl⟩ := List.mem_map.mp ha
        simp only [Slot.addr]
        omega
      · cases ha
    rw [show p + 2 + 1 = p + 3 by omega, show p + 2 + 2 = p + 4 by omega, hclass, hlen]
    exact ⟨rfl, rfl⟩
  | some .object =>
    cases hsize
    simp only [objsizeObject] at hmem ⊢
    have hvtable : mem' (p + 2) = mem (p + 2) := by
      apply hmem 2 (by omega) (by omega)
      intro a ha
      obtain ⟨i, -, rfl⟩ := List.mem_map.mp ha
      simp only [Slot.addr]
      omega
    rw [hvtable]
    exact ⟨rfl, rfl⟩
  | some .service | some .atomvar | some .portal | some .memory | some .cas => exact ⟨hsize, rfl⟩
  | some .servicePool | some .domain | some .cpustate | some .foreignCpustate
  | some .externalCpudesc | some .externalString | some .externalMethod | some .externalClass
  | some .interceptInboundInfo | some .vmobject | some .stack | none => cases hsize

/-- What is inside of one object is not the start of another. -/
theorem HeapOf.inside_not_mem (hheap : HeapOf env s objs size) (hp : p ∈ objs) {k : Nat} (hk : 0 < k)
    (hlt : k < size p) : p + k ∉ objs := by
  intro hmem
  have hpos := hheap.three_le _ hmem
  have heq := hheap.tiled.block_unique hp hmem hlt (show 0 < size (p + k) by omega) rfl
  omega

theorem HeapOf.pos (hheap : HeapOf env s objs size) : ∀ p ∈ objs, 0 < size p := fun p hp => by
  have := hheap.three_le p hp
  omega

theorem HeapOf.nodup (hheap : HeapOf env s objs size) : objs.Nodup := hheap.tiled.nodup hheap.pos

end Layout

end JxCore.GcCompacting
