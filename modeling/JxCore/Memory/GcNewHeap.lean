import JxCore.Lib.Tiling
import JxCore.Memory.GcNew

/-!
# Heaps of objects, arrays and portals

What the words of a `gc_new` heap mean. An object is named by the word `p` that holds its flags; a
reference to it is the byte address of its vtable word. `objSize` and `offsets` say how long it is
and which of its words are references, and `Reachable` follows these from the root slots.

`moveKind_spec` is all that the correctness proof knows about the three copy routines.
-/

namespace JxCore.GcNew

open Exec

/-- The word that refers to the object at `p`. -/
def ref (p : Nat) : Nat := 4 * (p + 2)

theorem ref_injective {p q : Nat} (h : ref p = ref q) : p = q := by
  unfold ref at h
  omega

@[simp] theorem ref_div_four (p : Nat) : ref p / 4 = p + 2 := by
  unfold ref
  omega

/-! ## Objects in memory -/

/-- The number of words of the object at `p`. -/
def objSize (env : Env) (mem : Nat → Nat) (p : Nat) : Nat :=
  match Kind.ofFlags (mem p) with
  | some .object => objsizeObject (env.classDesc (mem (p + 2))).instanceSize
  | some .array => objsizeArray32bit (mem (p + 4))
  | _ => objsizePortal

/-- Where the references are in the object at `p`, counted from `p`. -/
def offsets (env : Env) (mem : Nat → Nat) (p : Nat) : List Nat :=
  match Kind.ofFlags (mem p) with
  | some .object =>
    let cl := env.classDesc (mem (p + 2))
    (setIndices cl.map cl.instanceSize).map (3 + ·)
  | some .array =>
    let c := (env.arrayName (mem (p + 3)))[1]?
    if c = some 'L' ∨ c = some '[' then (List.range (mem (p + 4))).map (5 + ·) else []
  | _ => []

/-- An object, an array or a portal starts at `p`. -/
structure IsObject (mem : Nat → Nat) (p : Nat) : Prop where
  kind : mem p = Kind.object.flags ∨ mem p = Kind.array.flags ∨ mem p = Kind.portal.flags
  magic : mem (p + 1) = magicObject
  vtable : mem (p + 2) ≠ 0

/-- `NULL`, or a reference to one of `objs`. -/
def RefTo (objs : List Nat) (v : Nat) : Prop := v = 0 ∨ ∃ q ∈ objs, v = ref q

/-- The objects that can be reached from the root slots. -/
inductive Reachable (env : Env) (roots : List Nat) (mem : Nat → Nat) : Nat → Prop
  | root {s p : Nat} (hs : s ∈ roots) (href : mem s = ref p) : Reachable env roots mem p
  | slot {p k q : Nat} (hp : Reachable env roots mem p) (hk : k ∈ offsets env mem p)
      (href : mem (p + k) = ref q) : Reachable env roots mem q

section Layout

variable {env : Env} {mem mem' : Nat → Nat} {p p' k : Nat}

theorem objSize_object (h : mem p = Kind.object.flags) :
    objSize env mem p = objsizeObject (env.classDesc (mem (p + 2))).instanceSize := by
  unfold objSize
  rw [h]
  rfl

theorem objSize_array (h : mem p = Kind.array.flags) :
    objSize env mem p = objsizeArray32bit (mem (p + 4)) := by
  unfold objSize
  rw [h]
  rfl

theorem objSize_portal (h : mem p = Kind.portal.flags) : objSize env mem p = objsizePortal := by
  unfold objSize
  rw [h]
  rfl

theorem offsets_object (h : mem p = Kind.object.flags) :
    offsets env mem p = (setIndices (env.classDesc (mem (p + 2))).map
      (env.classDesc (mem (p + 2))).instanceSize).map (3 + ·) := by
  unfold offsets
  rw [h]
  rfl

theorem offsets_array (h : mem p = Kind.array.flags) :
    offsets env mem p =
      if (env.arrayName (mem (p + 3)))[1]? = some 'L' ∨ (env.arrayName (mem (p + 3)))[1]? = some '['
      then (List.range (mem (p + 4))).map (5 + ·) else [] := by
  unfold offsets
  rw [h]
  rfl

theorem offsets_portal (h : mem p = Kind.portal.flags) : offsets env mem p = [] := by
  unfold offsets
  rw [h]
  rfl

theorem four_le_objSize (h : IsObject mem p) : 4 ≤ objSize env mem p := by
  rcases h.kind with hk | hk | hk
  · rw [objSize_object hk, objsizeObject]
    omega
  · rw [objSize_array hk, objsizeArray32bit]
    omega
  · rw [objSize_portal hk, objsizePortal]
    omega

theorem mem_setIndices {map : List Nat} {mapsize index : Nat}
    (h : index ∈ setIndices map mapsize) : index < mapsize := by
  obtain ⟨⟨b, i⟩, hmem, hb⟩ := List.mem_filterMap.mp h
  have hlt := List.snd_lt_of_mem_zipIdx hmem
  rw [TypeMap.length_forBitmap] at hlt
  cases b
  · cases hb
  · cases hb
    simpa using hlt

theorem nodup_setIndices (map : List Nat) (mapsize : Nat) : (setIndices map mapsize).Nodup := by
  unfold setIndices
  have hsub : ((TypeMap.forBitmap map mapsize).zipIdx.filterMap fun x =>
      if x.1 then some x.2 else none).Sublist ((TypeMap.forBitmap map mapsize).zipIdx.map (·.2)) := by
    generalize (TypeMap.forBitmap map mapsize).zipIdx = l
    induction l with
    | nil => exact List.Sublist.refl _
    | cons a l ih =>
      obtain ⟨b, index⟩ := a
      cases b
      · exact List.Sublist.cons index ih
      · exact List.Sublist.cons_cons index ih
  refine hsub.nodup ?_
  rw [List.zipIdx_map_snd]
  exact List.nodup_range'

/-- The flags, the magic and the vtable are never references, and no reference is outside. -/
theorem offset_bounds (h : IsObject mem p) (hk : k ∈ offsets env mem p) :
    3 ≤ k ∧ k < objSize env mem p := by
  rcases h.kind with hkind | hkind | hkind
  · rw [offsets_object hkind] at hk
    rw [objSize_object hkind, objsizeObject]
    obtain ⟨index, hindex, rfl⟩ := List.mem_map.mp hk
    have := mem_setIndices hindex
    omega
  · rw [offsets_array hkind] at hk
    rw [objSize_array hkind, objsizeArray32bit]
    split at hk
    · obtain ⟨index, hindex, rfl⟩ := List.mem_map.mp hk
      have := List.mem_range.mp hindex
      omega
    · cases hk
  · rw [offsets_portal hkind] at hk
    cases hk

theorem nodup_offsets (h : IsObject mem p) : (offsets env mem p).Nodup := by
  rcases h.kind with hkind | hkind | hkind
  · rw [offsets_object hkind]
    exact (nodup_setIndices _ _).map fun i j hij => by simpa using hij
  · rw [offsets_array hkind]
    split
    · exact List.nodup_range.map fun i j hij => by simpa using hij
    · exact List.nodup_nil
  · rw [offsets_portal hkind]
    exact List.nodup_nil

/-- The words that are not references decide what an object is. -/
theorem layout_congr (h : IsObject mem p)
    (heq : ∀ k < objSize env mem p, k ∉ offsets env mem p → mem' (p' + k) = mem (p + k)) :
    IsObject mem' p' ∧ objSize env mem' p' = objSize env mem p ∧
      offsets env mem' p' = offsets env mem p := by
  have hsize : 4 ≤ objSize env mem p := four_le_objSize h
  have hhead : ∀ k < 3, mem' (p' + k) = mem (p + k) := fun k hk =>
    heq k (by omega) fun hmem => by
      have := (offset_bounds h hmem).1
      omega
  have hflags : mem' p' = mem p := hhead 0 (by omega)
  have hvtable : mem' (p' + 2) = mem (p + 2) := hhead 2 (by omega)
  have hobj : IsObject mem' p' :=
    ⟨by rw [hflags]; exact h.kind, by rw [hhead 1 (by omega)]; exact h.magic,
      by rw [hvtable]; exact h.vtable⟩
  refine ⟨hobj, ?_⟩
  rcases h.kind with hkind | hkind | hkind
  · rw [objSize_object hkind, objSize_object (hflags.trans hkind), offsets_object hkind,
      offsets_object (hflags.trans hkind), hvtable]
    exact ⟨rfl, rfl⟩
  · have harray : ∀ k, k = 3 ∨ k = 4 → mem' (p' + k) = mem (p + k) := by
      intro k hk
      apply heq k
      · rw [objSize_array hkind, objsizeArray32bit]
        omega
      · rw [offsets_array hkind]
        split
        · intro hmem
          obtain ⟨i, -, hi⟩ := List.mem_map.mp hmem
          omega
        · exact List.not_mem_nil
    rw [objSize_array hkind, objSize_array (hflags.trans hkind), offsets_array hkind,
      offsets_array (hflags.trans hkind), harray 3 (.inl rfl), harray 4 (.inr rfl)]
    exact ⟨rfl, rfl⟩
  · rw [objSize_portal hkind, objSize_portal (hflags.trans hkind), offsets_portal hkind,
      offsets_portal (hflags.trans hkind)]
    exact ⟨rfl, rfl⟩

end Layout

/-! ## Forward pointers -/

theorem isForward_ref (p : Nat) : isForward (ref p) = false := by
  have hand : ref p &&& 1 = 0 := by
    rw [Nat.and_one_is_mod]
    unfold ref
    omega
  simp [isForward, hand]

theorem ref_or_one (p : Nat) : ref p ||| 0x00000001 = ref p + 1 := by
  exact (Nat.two_pow_add_eq_or_of_lt (i := 2) (b := 1) (by decide) (p + 2)).symm

theorem isForward_forward (p : Nat) : isForward (ref p + 1) = true := by
  have hand : (ref p + 1) &&& 1 = 1 := by
    rw [Nat.and_one_is_mod]
    unfold ref
    omega
  simp [isForward, hand]

theorem forwardPtr_forward {p : Nat} (h : ref p + 1 < 2 ^ 32) : forwardPtr (ref p + 1) = ref p := by
  unfold forwardPtr
  apply Nat.eq_of_testBit_eq
  intro i
  rw [Nat.testBit_and]
  cases i with
  | zero =>
    have heven : (ref p).testBit 0 = false := by
      have hmod : ref p % 2 = 0 := by
        unfold ref
        omega
      simp [hmod]
    rw [heven]
    exact Bool.and_false _
  | succ i =>
    have hhalf : (ref p + 1) / 2 = ref p / 2 := by
      unfold ref
      omega
    have hmask : 0xfffffffe / 2 = 2 ^ 31 - 1 := rfl
    rw [Nat.testBit_succ, Nat.testBit_succ, Nat.testBit_succ, hhalf, hmask,
      Nat.testBit_two_pow_sub_one]
    by_cases hi : i < 31
    · simp [hi]
    · have hsmall : ref p / 2 < 2 ^ i :=
        Nat.lt_of_lt_of_le (by omega : ref p / 2 < 2 ^ 31) (Nat.pow_le_pow_right (by decide) (by omega))
      simp [Nat.testBit_lt_two_pow hsmall]

theorem isForward_kind (k : Kind) : isForward k.flags = false := by cases k <;> rfl

/-- Flags are no forward pointer. -/
theorem IsObject.not_forward {mem : Nat → Nat} {p : Nat} (h : IsObject mem p) :
    isForward (mem p) = false := by
  rcases h.kind with hk | hk | hk <;> rw [hk] <;> exact isForward_kind _

theorem walkFlags_eq {g : Gc} {p : Nat} (h : IsObject g.mem p) : walkFlags g (p + 2) = g.mem p := by
  simp only [walkFlags, Gc.getObjFlags, Nat.add_sub_cancel, h.not_forward, Bool.false_eq_true, if_false]

/-! ## Copies

The copy of the object at `p` starts at the top of the second semispace. -/

/-- How many words behind the copy are overwritten. -/
def overrun (mem : Nat → Nat) (p : Nat) : Nat := if mem p = Kind.object.flags then 3 else 0

/-- `g'` is `g` with a copy of the object at `p`, and nothing is said about the words that the
copy routine overwrites behind it. -/
structure Copied (env : Env) (g : Gc) (p : Nat) (g' : Gc) : Prop where
  rest : g' = { g with mem := g'.mem, heapTop2 := g.heapTop2 + objSize env g.mem p }
  words : ∀ k < objSize env g.mem p, g'.mem (g.heapTop2 + k) = g.mem (p + k)
  frame : ∀ w, (w < g.heapTop2 ∨ g.heapTop2 + objSize env g.mem p + overrun g.mem p ≤ w) →
    g'.mem w = g.mem w

section Moves

variable {env : Env} {g : Gc} {p : Nat}

@[simp] theorem Gc.mem_setWord (g : Gc) (a v w : Nat) :
    (g.setWord a v).mem w = if w = a then v else g.mem w := rfl

@[simp] theorem Gc.mem_memcpy4 (g : Gc) (dst src size w : Nat) :
    (g.memcpy4 dst src size).mem w =
      if dst ≤ w ∧ w < dst + size then g.mem (src + (w - dst)) else g.mem w := rfl

theorem assertObject_eq (h : IsObject g.mem p) : assertObject g (p + 2) = pure () :=
  assert_pos h.magic _

theorem obj2ClassDesc_eq (env : Env) (h : IsObject g.mem p) :
    obj2ClassDesc env g (p + 2) = pure (env.classDesc (g.mem (p + 2))) :=
  if_pos ⟨h.magic, h.vtable⟩

theorem allocHeap2_eq (size : Nat) (h : g.heapTop2 ≤ g.heapBorder2) :
    allocHeap2 size g = pure (g.heapTop2, { g with heapTop2 := g.heapTop2 + size }) :=
  if_neg (by omega)

/-- In `g'` the first `n` words of the object at `p` have been copied to `dst`, and `e` words from
there on may have been written. -/
structure CopyTo (g : Gc) (p dst n e : Nat) (g' : Gc) : Prop where
  rest : g' = { g with mem := g'.mem }
  words : ∀ k < n, g'.mem (dst + k) = g.mem (p + k)
  frame : ∀ w, (w < dst ∨ dst + e ≤ w) → g'.mem w = g.mem w

namespace CopyTo

variable {g' : Gc} {dst n : Nat}

theorem start (h : IsObject g.mem p) {kind : Kind} (hkind : g.mem p = kind.flags)
    (hapart : p + 3 ≤ dst ∨ dst + 3 ≤ p) :
    CopyTo g p dst 3 3 (startCopy kind (dst + 2) (p + 2) g) := by
  have hmem : ∀ w, (startCopy kind (dst + 2) (p + 2) g).mem w =
      if w = dst + 2 then g.mem (p + 2)
      else if w = dst + 1 then magicObject else if w = dst then kind.flags else g.mem w := by
    intro w
    have hsrc : p + 2 ≠ dst + 1 ∧ p + 2 ≠ dst := by omega
    simp [startCopy, Gc.setObjMagic, Gc.setObjFlags, hsrc.1, hsrc.2]
  refine ⟨rfl, fun k hk => ?_, fun w hw => ?_⟩
  · rw [hmem]
    obtain rfl | rfl | rfl : k = 0 ∨ k = 1 ∨ k = 2 := by omega
    · simp [hkind]
    · simp [h.magic]
    · simp
  · rw [hmem, if_neg (by omega), if_neg (by omega), if_neg (by omega)]

/-- One field more. -/
theorem field (h : CopyTo g p dst n n g') (hapart : p + n < dst ∨ dst + n ≤ p + n) :
    CopyTo g p dst (n + 1) (n + 1) (g'.setWord (dst + n) (g'.mem (p + n))) := by
  refine ⟨?_, fun k hk => ?_, fun w hw => ?_⟩
  · rw [Gc.setWord, h.rest]
  · rw [Gc.mem_setWord]
    split
    · next heq =>
      obtain rfl : k = n := by omega
      exact h.frame _ hapart
    · next hne => exact h.words k (by omega)
  · rw [Gc.mem_setWord, if_neg (by omega)]
    exact h.frame w (by omega)

/-- `m` words more, by a `memcpy` that may go on for longer. -/
theorem block (h : CopyTo g p dst n n g') (m m' : Nat) (hm : m ≤ m')
    (hapart : ∀ k < m, p + n + k < dst ∨ dst + n ≤ p + n + k) :
    CopyTo g p dst (n + m) (n + m') (g'.memcpy4 (dst + n) (p + n) m') := by
  refine ⟨?_, fun k hk => ?_, fun w hw => ?_⟩
  · rw [Gc.memcpy4, h.rest]
  · rw [Gc.mem_memcpy4]
    split
    · next hin =>
      have hk' : p + n + (dst + k - (dst + n)) = p + k := by omega
      have hsrc := hapart (k - n) (by omega)
      rw [hk']
      exact h.frame _ (by omega)
    · next hout => exact h.words k (by omega)
  · rw [Gc.mem_memcpy4, if_neg (by omega)]
    exact h.frame w (by omega)

theorem cast {n' e e' : Nat} (h : CopyTo g p dst n e g') (hn : n' = n) (he : e' = e) :
    CopyTo g p dst n' e' g' := by
  subst hn he
  exact h

end CopyTo

/-- The object at `p` is outside of the words its copy will take. -/
def Apart (env : Env) (g : Gc) (p dst : Nat) : Prop :=
  p + objSize env g.mem p ≤ dst ∨ dst + objSize env g.mem p ≤ p

theorem shallowCopyObject_spec (h : IsObject g.mem p) (hkind : g.mem p = Kind.object.flags)
    {dst : Nat} (hapart : Apart env g p dst) :
    ∃ g', shallowCopyObject env dst (p + 2) g = pure (ref dst, g') ∧
      CopyTo g p dst (objSize env g.mem p) (objSize env g.mem p + 3) g' := by
  have hsize : objSize env g.mem p = (env.classDesc (g.mem (p + 2))).instanceSize + 4 :=
    objSize_object hkind
  rw [Apart, hsize] at hapart
  have h3 : CopyTo g p dst 3 3 _ := CopyTo.start h hkind (by omega)
  have hclass : obj2ClassDesc env (startCopy .object (dst + 2) (p + 2) g) (p + 2) =
      pure (env.classDesc (g.mem (p + 2))) := by
    have hmagic := h3.frame (p + 1) (by omega)
    have hvtable := h3.frame (p + 2) (by omega)
    unfold obj2ClassDesc
    rw [if_pos ⟨hmagic.trans h.magic, by rw [hvtable]; exact h.vtable⟩, hvtable]
  unfold shallowCopyObject
  simp only [hclass, pure_bind]
  refine ⟨_, rfl, ?_⟩
  -- one word behind the fields belongs to the object, three more do not
  generalize (env.classDesc (g.mem (p + 2))).instanceSize = n at hsize hapart
  have hall := h3.block (n + 1) (n + 4) (by omega) (by omega)
  exact hall.cast (by omega) (by omega)

theorem shallowCopyArray_spec (h : IsObject g.mem p) (hkind : g.mem p = Kind.array.flags)
    {dst : Nat} (hapart : Apart env g p dst) :
    ∃ g', shallowCopyArray dst (p + 2) g = (ref dst, g') ∧
      CopyTo g p dst (objSize env g.mem p) (objSize env g.mem p) g' := by
  have hsize : objSize env g.mem p = g.mem (p + 4) + 5 := objSize_array hkind
  rw [Apart, hsize] at hapart
  refine ⟨_, rfl, ?_⟩
  have h3 : CopyTo g p dst 3 3 _ := CopyTo.start h hkind (by omega)
  have h4 := h3.field (by omega)
  have h5 := h4.field (by omega)
  -- the size is read again after the two fields have been written
  have hlen : arraySize _ (p + 2) = g.mem (p + 4) := h5.frame (p + 4) (by omega)
  have hall := h5.block (g.mem (p + 4)) (arraySize _ (p + 2)) hlen.ge (by omega)
  exact hall.cast (by omega) (by omega)

theorem shallowCopyPortal_spec (h : IsObject g.mem p) (hkind : g.mem p = Kind.portal.flags)
    {dst : Nat} (hapart : Apart env g p dst) :
    ∃ g', shallowCopyPortal dst (p + 2) g = (ref dst, g') ∧
      CopyTo g p dst (objSize env g.mem p) (objSize env g.mem p) g' := by
  have hsize : objSize env g.mem p = 6 := objSize_portal hkind
  rw [Apart, hsize] at hapart
  refine ⟨_, rfl, ?_⟩
  have h3 : CopyTo g p dst 3 3 _ := CopyTo.start h hkind (by omega)
  have h4 := h3.field (by omega)
  have h5 := h4.field (by omega)
  rw [hsize]
  exact h5.field (by omega)

/-- Allocation changes nothing that a copy looks at. -/
theorem Copied.of_copyTo {g' : Gc}
    (h : CopyTo { g with heapTop2 := g.heapTop2 + objSize env g.mem p } p g.heapTop2
      (objSize env g.mem p) (objSize env g.mem p + overrun g.mem p) g') : Copied env g p g' :=
  ⟨h.rest, h.words, fun w hw => h.frame w (by omega)⟩

theorem moveKind_spec (h : IsObject g.mem p) (hin : isInHeap g (p + 2))
    (hroom : g.heapTop2 ≤ g.heapBorder2) (hapart : Apart env g p g.heapTop2) :
    ∃ g', moveKind env (Kind.ofFlags (g.mem p)) (p + 2) g = pure (some (ref g.heapTop2, g')) ∧
      Copied env g p g' := by
  -- the object is copied in the state after the allocation
  have halloc : IsObject { g with heapTop2 := g.heapTop2 + objSize env g.mem p }.mem p := h
  rcases h.kind with hkind | hkind | hkind
  · obtain ⟨g', hcall, hcopy⟩ := shallowCopyObject_spec halloc hkind hapart
    refine ⟨g', ?_, .of_copyTo (hcopy.cast rfl ?_)⟩
    · have hmove : moveObject env (p + 2) g = pure (ref g.heapTop2, g') := by
        unfold moveObject
        rw [assertObject_eq h, pure_bind, if_neg (not_not.mpr hin), obj2ClassDesc_eq env h]
        simp only [pure_bind, allocHeap2_eq _ hroom]
        rw [← objSize_object hkind]
        exact hcall
      rw [hkind]
      change (obj2ClassDesc env g (p + 2) >>= fun _ => some <$> moveObject env (p + 2) g) = _
      rw [obj2ClassDesc_eq env h, pure_bind, hmove, map_pure]
    · rw [overrun, if_pos hkind]
  · obtain ⟨g', hcall, hcopy⟩ := shallowCopyArray_spec halloc hkind hapart
    refine ⟨g', ?_, .of_copyTo (hcopy.cast rfl ?_)⟩
    · have hmove : moveArray (p + 2) g = pure (ref g.heapTop2, g') := by
        unfold moveArray
        rw [assertObject_eq h, pure_bind, allocHeap2_eq _ hroom, pure_bind]
        rw [objSize_array hkind] at hcall
        exact congrArg pure hcall
      rw [hkind]
      change (obj2ClassDesc env g (p + 2) >>= fun _ => some <$> moveArray (p + 2) g) = _
      rw [obj2ClassDesc_eq env h, pure_bind, hmove, map_pure]
    · rw [overrun, if_neg (by rw [hkind]; decide)]
      rfl
  · obtain ⟨g', hcall, hcopy⟩ := shallowCopyPortal_spec halloc hkind hapart
    refine ⟨g', ?_, .of_copyTo (hcopy.cast rfl ?_)⟩
    · have hmove : movePortal (p + 2) g = pure (ref g.heapTop2, g') := by
        unfold movePortal
        rw [assertObject_eq h, pure_bind, allocHeap2_eq _ hroom, pure_bind]
        rw [objSize_portal hkind] at hcall
        exact congrArg pure hcall
      rw [hkind]
      change (obj2ClassDesc env g (p + 2) >>= fun _ => some <$> movePortal (p + 2) g) = _
      rw [obj2ClassDesc_eq env h, pure_bind, hmove, map_pure]
    · rw [overrun, if_neg (by rw [hkind]; decide)]
      rfl

end Moves

end JxCore.GcNew
