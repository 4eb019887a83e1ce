import JxCore.Memory.GcCompactingMark

/-!
# The compacting collector slides its objects

The second half of a collection starts from a heap with marks. While it runs, the magic word of a
marked object holds the address that the object will have; the flags and the words that decide on
the size stay as they are until the object is moved. Three facts carry the proof:

* what the walks read of an object is none of the words that the adjustment writes;
* every reference is adjusted once, so that an adjusted reference is never looked up;
* a new address is not above the old one, and the moves go upwards, so that a move only writes to
  words of objects that have been moved or are not marked.
-/

namespace JxCore.GcCompacting

open Exec GcNew HeapWalk

/-! ## Where the objects go -/

/-- The objects with a mark, in their order. -/
def live (s : State) (l : List Nat) : List Nat := l.filter fun p => isMarked (s.mem p)

/-- The room that the marked objects of a list take. -/
def room (s : State) (size : Nat → Nat) (l : List Nat) : Nat := ((live s l).map size).sum

/-- Where the object at `p` goes: behind the marked objects in front of it. -/
def newAddr (s : State) (objs : List Nat) (size : Nat → Nat) (p : Nat) : Nat :=
  s.heap + room s size (objs.takeWhile (· ≠ p))

/-- A reference after the collection. -/
def relocate (s : State) (objs : List Nat) (size : Nat → Nat) (v : Nat) : Nat :=
  (objAt s v).elim v fun q => ref (newAddr s objs size q)

/-- A heap of objects, arrays and portals with marks on it, and what a mark promises. -/
structure MarkedHeap (env : Env) (s : State) (objs : List Nat) (size : Nat → Nat)
    (roots : List Nat) : Prop where
  heapOf : HeapOf env s objs size
  kind : ∀ p ∈ objs, Kind.ofFlags (s.mem p) = some .object ∨ Kind.ofFlags (s.mem p) = some .array ∨
    Kind.ofFlags (s.mem p) = some .portal
  magic : ∀ p ∈ objs, s.mem (p + 1) = magicObject
  closed : ∀ p ∈ objs, isMarked (s.mem p) → ∀ a ∈ slots env s.mem (p + 2), ∀ q,
    target s a = some q → isMarked (s.mem q)
  border : s.heapTop ≤ s.heapBorder
  roots_outside : ∀ a ∈ roots, ¬ (s.heap ≤ a ∧ a < s.heapBorder)
  roots_ok : ∀ a ∈ roots, RefOk s objs (s.mem a)
  roots_marked : ∀ a ∈ roots, ∀ q, objAt s (s.mem a) = some q → isMarked (s.mem q)
  /-- Each root slot is visited once. -/
  roots_nodup : roots.Nodup

/-- What the heap looks like afterwards. -/
structure Slid (env : Env) (s s' : State) (objs : List Nat) (size : Nat → Nat)
    (roots : List Nat) : Prop where
  heap : s'.heap = s.heap
  /-- The marked objects lie one behind the other, in their order. -/
  tiled : Tiled (newAddr s objs size) size s.heap (live s objs) s'.heapTop
  heapTop : s'.heapTop = s.heap + ((live s objs).map size).sum
  words : ∀ p ∈ live s objs, ∀ k < size p, s'.mem (newAddr s objs size p + k) =
    if Slot.ref (p + k) ∈ slots env s.mem (p + 2) then relocate s objs size (s.mem (p + k))
    else s.mem (p + k)
  roots : ∀ a ∈ roots, s'.mem a = relocate s objs size (s.mem a)

section Addresses

variable {env : Env} {s : State} {objs roots l r : List Nat} {size : Nat → Nat} {p : Nat}

@[simp] theorem room_nil (s : State) (size : Nat → Nat) : room s size [] = 0 := rfl

theorem room_concat (s : State) (size : Nat → Nat) (l : List Nat) (p : Nat) :
    room s size (l ++ [p]) = room s size l + if isMarked (s.mem p) then size p else 0 := by
  simp only [room, live, List.filter_append, List.map_append, List.sum_append, List.filter_cons,
    List.filter_nil]
  split <;> simp

theorem room_le (s : State) (size : Nat → Nat) (l : List Nat) : room s size l ≤ (l.map size).sum := by
  exact (List.filter_sublist.map size).sum_le_sum fun _ _ => Nat.zero_le _

theorem newAddr_split (hheap : HeapOf env s objs size) (hsplit : objs = l ++ p :: r) :
    newAddr s objs size p = s.heap + room s size l := by
  have hnew : ∀ q ∈ l, decide (q ≠ p) = true := fun q hq => by
    have hnodup := hheap.nodup
    rw [hsplit, List.nodup_append] at hnodup
    exact decide_eq_true (hnodup.2.2 q hq p List.mem_cons_self)
  rw [newAddr, hsplit, List.takeWhile_append_of_pos hnew]
  simp

/-- An object with `l` in front of it starts where `l` ends. -/
theorem HeapOf.start_split (hheap : HeapOf env s objs size) (hsplit : objs = l ++ p :: r) :
    p = s.heap + (l.map size).sum := by
  have htiled := hheap.tiled
  rw [hsplit] at htiled
  obtain ⟨mid, hl, hr⟩ := htiled.of_append
  have hstart : p = mid := hr.1
  rw [hstart, hl.top_eq]

theorem newAddr_le (hheap : HeapOf env s objs size) (hsplit : objs = l ++ p :: r) :
    newAddr s objs size p ≤ p := by
  have hstart := hheap.start_split hsplit
  have hroom := room_le s size l
  rw [newAddr_split hheap hsplit]
  omega

theorem tiled_live (hheap : HeapOf env s objs size) (hsplit : objs = l ++ r) :
    Tiled (newAddr s objs size) size s.heap (live s l) (s.heap + room s size l) := by
  induction l using List.reverseRecOn generalizing r with
  | nil => rfl
  | append_singleton l p ih =>
    rw [List.append_assoc, List.singleton_append] at hsplit
    have hfront := ih hsplit
    rw [room_concat]
    simp only [live, List.filter_append, List.filter_cons, List.filter_nil]
    split
    · rw [← Nat.add_assoc]
      exact hfront.concat (newAddr_split hheap hsplit)
    · rwa [List.append_nil, Nat.add_zero]

end Addresses

/-! ## A copy that goes down -/

theorem memcpy_mem {dst src : Nat} (hle : dst ≤ src) (s : State) (size w : Nat) :
    (s.memcpy dst src size).mem w =
      if dst ≤ w ∧ w < dst + size then s.mem (src + (w - dst)) else s.mem w := by
  induction size generalizing w with
  | zero =>
    rw [if_neg (by omega)]
    rfl
  | succ n ih =>
    have hstep : s.memcpy dst src (n + 1) =
        (s.memcpy dst src n).setWord (dst + n) ((s.memcpy dst src n).mem (src + n)) := by
      simp only [State.memcpy, List.range_succ, List.foldl_append, List.foldl_cons, List.foldl_nil]
    -- the word that is read has not been written yet
    rw [hstep, ih (src + n), if_neg (by omega)]
    simp only [State.setWord]
    split
    · next heq =>
      rw [if_pos (by omega)]
      congr 1
      omega
    · rw [ih w]
      split
      · rw [if_pos (by omega)]
      · rw [if_neg (by omega)]

theorem memcpy_frame (s : State) (dst src size : Nat) :
    (s.memcpy dst src size).heap = s.heap ∧ (s.memcpy dst src size).heapTop = s.heapTop ∧
      (s.memcpy dst src size).heapBorder = s.heapBorder ∧ (s.memcpy dst src size).data = s.data := by
  induction size with
  | zero => exact ⟨rfl, rfl, rfl, rfl⟩
  | succ n ih =>
    simp only [State.memcpy, List.range_succ, List.foldl_append, List.foldl_cons, List.foldl_nil]
    exact ih

/-! ## New addresses -/

/-- The state in which the marked objects of `l` know their new addresses. -/
def State.addressed (s : State) (objs : List Nat) (size : Nat → Nat) (l : List Nat) : State :=
  { s with
    mem := fun w => if 0 < w ∧ w - 1 ∈ live s l then 4 * newAddr s objs size (w - 1) else s.mem w
    data := s.heap + room s size l }

section Addressed

variable {env : Env} {s t : State} {objs roots l r : List Nat} {size : Nat → Nat} {p w : Nat}

theorem mem_live : p ∈ live s l ↔ p ∈ l ∧ isMarked (s.mem p) = true := List.mem_filter

theorem live_concat (s : State) (l : List Nat) (p : Nat) :
    live s (l ++ [p]) = if isMarked (s.mem p) then live s l ++ [p] else live s l := by
  simp only [live, List.filter_append, List.filter_cons, List.filter_nil]
  split <;> simp

theorem MarkedHeap.sizeOf (h : MarkedHeap env s objs size roots) (hp : p ∈ objs) :
    sizeOf env s.mem p = some (size p) := by
  have hsize := h.heapOf.size_of p hp
  unfold GcCompacting.sizeOf at hsize ⊢
  rcases h.kind p hp with hkind | hkind | hkind <;> rw [hkind] at hsize ⊢ <;>
    exact congrArg some (hsize _ rfl).symm

theorem MarkedHeap.four_le (h : MarkedHeap env s objs size roots) (hp : p ∈ objs) : 4 ≤ size p := by
  have hsize := h.sizeOf hp
  unfold GcCompacting.sizeOf at hsize
  rcases h.kind p hp with hkind | hkind | hkind <;> rw [hkind] at hsize <;>
    rw [← Option.some.inj hsize]
  · exact Nat.le_add_left 4 _
  · exact Nat.le_trans (by decide) (Nat.le_add_left 5 _)
  · decide

/-- The flags and the words that are neither the magic nor references decide what the walks see. -/
theorem MarkedHeap.layout (h : MarkedHeap env s objs size roots) (hp : p ∈ objs)
    (hmem : ∀ k < size p, k ≠ 1 → Slot.ref (p + k) ∉ slots env s.mem (p + 2) →
      t.mem (p + k) = s.mem (p + k)) :
    t.mem p = s.mem p ∧ GcCompacting.sizeOf env t.mem p = some (size p) ∧
      slots env t.mem (p + 2) = slots env s.mem (p + 2) := by
  have hfour := h.four_le hp
  have hflags : t.mem p = s.mem p := by
    refine hmem 0 (by omega) (by omega) fun hslot => ?_
    have hbounds := slot_bounds (h.sizeOf hp) hslot
    simp only [Slot.addr] at hbounds
    omega
  refine ⟨hflags, layout_of_words (h.sizeOf hp) (by rw [hflags]) fun k hk hlt hno => ?_⟩
  exact hmem k hlt (by omega) fun hslot => hno _ hslot rfl

/-- An object's flags are not the magic word of another. -/
theorem MarkedHeap.ne_magic (h : MarkedHeap env s objs size roots) {q k : Nat} (hp : p ∈ objs)
    (hq : q ∈ objs) (hk : k < size p) (hne : k ≠ 1) : p + k ≠ q + 1 := by
  intro heq
  have hfour := h.four_le hq
  have hsame := h.heapOf.tiled.block_unique hp hq hk (show 1 < size q by omega) heq
  omega

theorem addressed_mem (hw : ∀ q ∈ l, w ≠ q + 1) : (s.addressed objs size l).mem w = s.mem w := by
  refine if_neg fun hmem => ?_
  have hq := hw (w - 1) (mem_live.mp hmem.2).1
  omega

theorem addressed_magic (hp : p ∈ live s l) :
    (s.addressed objs size l).mem (p + 1) = 4 * newAddr s objs size p :=
  if_pos ⟨Nat.succ_pos p, hp⟩

theorem MarkedHeap.visit_calcAddr (h : MarkedHeap env s objs size roots)
    (hsplit : objs = l ++ p :: r) :
    visit env (.all calcAddrCB) p (s.addressed objs size l) =
      pure (size p, s.addressed objs size (l ++ [p])) := by
  have hp : p ∈ objs := by simp [hsplit]
  have hl : ∀ q ∈ l, q ∈ objs := fun q hq => by simp [hsplit, hq]
  obtain ⟨hflags, hsize, -⟩ := h.layout (t := s.addressed objs size l) hp fun k hk hne _ =>
    addressed_mem fun q hq => h.ne_magic hp (hl q hq) hk hne
  rw [visit_eq hsize, of_all _ hsize, hflags]
  simp only [calcAddrCB]
  by_cases hmark : isMarked (s.mem p) = true
  · rw [if_pos hmark]
    have hstate : { (s.addressed objs size l).setObjMagic (p + 2)
          (4 * (s.addressed objs size l).data) with
          data := (s.addressed objs size l).data + size p } = s.addressed objs size (l ++ [p]) := by
      simp only [State.addressed, State.setObjMagic, State.setWord, room_concat, live_concat, hmark,
        if_true, Nat.add_assoc]
      congr 1
      funext w
      by_cases hw : w = p + 1
      · subst hw
        simp [newAddr_split h.heapOf hsplit]
      · have hne : ¬ (0 < w ∧ w - 1 = p) := by omega
        simp only [show p + 2 - 1 = p + 1 from rfl, hw, if_false, List.mem_append,
          List.mem_singleton]
        grind
    rw [hstate]
    rfl
  · rw [if_neg hmark]
    have hstate : s.addressed objs size (l ++ [p]) = s.addressed objs size l := by
      simp only [State.addressed, room_concat, live_concat, hmark, Bool.false_eq_true, if_false,
        Nat.add_zero]
    rw [hstate]
    rfl

/-- The first phase. -/
theorem MarkedHeap.walk_calcAddr (h : MarkedHeap env s objs size roots) (fuel : Nat)
    (hfuel : objs.length < fuel) :
    walkHeap env (.all calcAddrCB) fuel { s with data := s.heap } =
      pure (s.addressed objs size objs) := by
  have hstart : { s with data := s.heap } = s.addressed objs size [] := by
    simp [State.addressed, live]
  have hvisit : ∀ l q r t, objs = l ++ q :: r → t = l →
      visit env (.all calcAddrCB) q (s.addressed objs size t) =
        pure (size q, s.addressed objs size (t ++ [q])) ∧ t ++ [q] = l ++ [q] := by
    intro l q r t hsplit ht
    rw [ht]
    exact ⟨h.visit_calcAddr hsplit, rfl⟩
  obtain ⟨hwalk, hbooks⟩ := walkHeap_eq (I := fun done t => t = done) (t := []) hvisit h.heapOf.tiled
    h.heapOf.pos rfl hfuel
  rw [hstart, hwalk, hbooks]

end Addressed

/-! ## References -/

/-- The state in which the references in the words `done` have been adjusted. -/
def State.adjusted (s : State) (objs : List Nat) (size : Nat → Nat) (done : List Nat) : State :=
  { s.addressed objs size objs with
    mem := fun w =>
      if w ∈ done then relocate s objs size (s.mem w) else (s.addressed objs size objs).mem w }

/-- The words of the references of the object at `p`. -/
def slotWords (env : Env) (s : State) (p : Nat) : List Nat :=
  (slots env s.mem (p + 2)).map Slot.addr

/-- A word that may be adjusted: it is not one that the walks look at, and what it refers to is
marked. -/
structure Adjustable (env : Env) (s : State) (objs : List Nat) (size : Nat → Nat) (w : Nat) : Prop where
  not_plain : ∀ q ∈ objs, ∀ k < size q, w = q + k → Slot.ref w ∈ slots env s.mem (q + 2)
  refOk : RefOk s objs (s.mem w)
  marked : ∀ q, objAt s (s.mem w) = some q → isMarked (s.mem q) = true

section Adjusted

variable {env : Env} {s : State} {objs roots l r done ws : List Nat} {size : Nat → Nat} {p w : Nat}

theorem MarkedHeap.slot_ref (h : MarkedHeap env s objs size roots) (hp : p ∈ objs) {a : Slot}
    (ha : a ∈ slots env s.mem (p + 2)) : a = .ref a.addr := by
  unfold slots at ha
  rw [Nat.add_sub_cancel] at ha
  rcases h.kind p hp with hkind | hkind | hkind <;> rw [hkind] at ha
  · obtain ⟨i, -, rfl⟩ := List.mem_map.mp ha
    rfl
  · simp only at ha
    split at ha
    · obtain ⟨i, -, rfl⟩ := List.mem_map.mp ha
      rfl
    · cases ha
  · cases ha

theorem MarkedHeap.mem_slotWords (h : MarkedHeap env s objs size roots) (hp : p ∈ objs) :
    w ∈ slotWords env s p ↔ Slot.ref w ∈ slots env s.mem (p + 2) := by
  rw [slotWords, List.mem_map]
  constructor
  · rintro ⟨a, ha, rfl⟩
    rwa [← h.slot_ref hp ha]
  · exact fun hw => ⟨_, hw, rfl⟩

theorem MarkedHeap.map_slotWords (h : MarkedHeap env s objs size roots) (hp : p ∈ objs) :
    slots env s.mem (p + 2) = (slotWords env s p).map Slot.ref := by
  rw [slotWords, List.map_map]
  conv_lhs => rw [← List.map_id (slots env s.mem (p + 2))]
  exact List.map_congr_left fun a ha => h.slot_ref hp ha

theorem MarkedHeap.nodup_slotWords (h : MarkedHeap env s objs size roots) (hp : p ∈ objs) :
    (slotWords env s p).Nodup := by
  unfold slotWords slots
  rw [Nat.add_sub_cancel]
  rcases h.kind p hp with hkind | hkind | hkind <;> rw [hkind]
  · rw [List.map_map]
    exact (nodup_setIndices _ _).map fun i j hij => by simpa [Slot.addr] using hij
  · simp only
    split
    · rw [List.map_map]
      exact List.nodup_range.map fun i j hij => by simpa [Slot.addr] using hij
    · exact List.nodup_nil
  · exact List.nodup_nil

/-- The references of marked objects may be adjusted. -/
theorem MarkedHeap.adjustable_slot (h : MarkedHeap env s objs size roots) (hp : p ∈ objs)
    (hmark : isMarked (s.mem p) = true) (hw : w ∈ slotWords env s p) :
    Adjustable env s objs size w := by
  have hslot := (h.mem_slotWords hp).mp hw
  have hbounds := slot_bounds (h.sizeOf hp) hslot
  simp only [Slot.addr] at hbounds
  refine ⟨fun q hq k hk heq => ?_, h.heapOf.slots p hp _ hslot, h.closed p hp hmark _ hslot⟩
  have hsame := h.heapOf.tiled.block_unique hp hq (i := w - p) (j := k) (by omega) hk
    (by simp only [id]; omega)
  rwa [← hsame]

theorem MarkedHeap.adjustable_root (h : MarkedHeap env s objs size roots) (hw : w ∈ roots) :
    Adjustable env s objs size w := by
  refine ⟨fun q hq k hk heq => ?_, h.roots_ok w hw, h.roots_marked w hw⟩
  have hbounds := h.heapOf.tiled.mem_bounds hq
  have hborder := h.border
  exact absurd (h.roots_outside w hw) (by simp only [id] at hbounds; omega)

theorem MarkedHeap.not_magic (h : MarkedHeap env s objs size roots)
    (hw : Adjustable env s objs size w) : ∀ q ∈ objs, w ≠ q + 1 := by
  intro q hq heq
  have hfour := h.four_le hq
  have hslot := hw.not_plain q hq 1 (by omega) heq
  have hbounds := slot_bounds (h.sizeOf hq) hslot
  simp only [Slot.addr] at hbounds
  omega

/-- What the walks look at has not been adjusted. -/
theorem adjusted_plain (hdone : ∀ w ∈ done, Adjustable env s objs size w) (hp : p ∈ objs) {k : Nat}
    (hk : k < size p) (hplain : Slot.ref (p + k) ∉ slots env s.mem (p + 2)) :
    (s.adjusted objs size done).mem (p + k) = (s.addressed objs size objs).mem (p + k) :=
  if_neg fun hmem => hplain ((hdone _ hmem).not_plain p hp k hk rfl)

theorem MarkedHeap.layout_adjusted (h : MarkedHeap env s objs size roots)
    (hdone : ∀ w ∈ done, Adjustable env s objs size w) (hp : p ∈ objs) :
    (s.adjusted objs size done).mem p = s.mem p ∧
      GcCompacting.sizeOf env (s.adjusted objs size done).mem p = some (size p) ∧
      slots env (s.adjusted objs size done).mem (p + 2) = slots env s.mem (p + 2) := by
  refine h.layout hp fun k hk hne hplain => ?_
  rw [adjusted_plain hdone hp hk hplain]
  exact addressed_mem fun q hq => h.ne_magic hp hq hk hne

theorem MarkedHeap.adjusted_magic (h : MarkedHeap env s objs size roots)
    (hdone : ∀ w ∈ done, Adjustable env s objs size w) (hp : p ∈ live s objs) :
    (s.adjusted objs size done).mem (p + 1) = 4 * newAddr s objs size p := by
  have hmem := (mem_live.mp hp).1
  have hfour := h.four_le hmem
  rw [adjusted_plain hdone hmem (by omega) fun hslot => ?_, addressed_magic hp]
  have hbounds := slot_bounds (h.sizeOf hmem) hslot
  simp only [Slot.addr] at hbounds
  omega

theorem adjusted_concat {v : Nat} (hv : v = relocate s objs size (s.mem w)) :
    (s.adjusted objs size done).setWord w v = s.adjusted objs size (done ++ [w]) := by
  simp only [State.adjusted, State.setWord]
  congr 1
  funext w'
  by_cases hw : w' = w
  · simp [hw, hv]
  · simp [hw]

/-- One reference. -/
theorem MarkedHeap.adjust_word (h : MarkedHeap env s objs size roots)
    (hdone : ∀ w ∈ done, Adjustable env s objs size w) (hw : Adjustable env s objs size w)
    (hnew : w ∉ done) :
    handleSlot env adjustRefCB (s.adjusted objs size done) (.ref w) =
      pure (s.adjusted objs size (done ++ [w])) := by
  have hread : (s.adjusted objs size done).mem w = s.mem w :=
    (if_neg hnew).trans (addressed_mem (h.not_magic hw))
  rw [handleSlot, hread]
  rcases hw.refOk.cases with ⟨hnone, hout⟩ | ⟨q, hq, href, hzero, hin, hobj⟩
  · have hsame : s.adjusted objs size (done ++ [w]) = s.adjusted objs size done := by
      have hstay := setWord_self (s.adjusted objs size done) w
      rw [hread, adjusted_concat (by rw [relocate, hnone]; rfl)] at hstay
      exact hstay
    have hskip : adjustRefCB (s.mem w) (s.adjusted objs size done) =
        pure (none, s.adjusted objs size done) := by
      unfold adjustRefCB
      split
      · rfl
      · next hzero => exact if_pos (hout.resolve_left hzero)
    rw [hskip, hsame, pure_bind]
    rfl
  · have hmark := hw.marked q hobj
    have hflags := (h.layout_adjusted hdone hq).1
    have hmagic := h.adjusted_magic hdone (mem_live.mpr ⟨hq, hmark⟩)
    have hadjust : adjustRefCB (s.mem w) (s.adjusted objs size done) =
        pure (some (ref (newAddr s objs size q)), s.adjusted objs size done) := by
      unfold adjustRefCB
      rw [if_neg hzero, if_neg (show ¬ ¬ (s.adjusted objs size done).isInHeap (s.mem w) from
        not_not.mpr hin), href, ref_div_four, State.getObjFlags, State.getObjMagic,
        Nat.add_sub_cancel, show q + 2 - 1 = q + 1 from rfl, hflags, hmagic, assert_pos hmark,
        pure_bind]
      congr 3
    rw [hadjust, pure_bind]
    simp only [Option.elim]
    rw [adjusted_concat (by rw [relocate, hobj]; rfl)]

/-- Several references, none of which has been adjusted before. -/
theorem MarkedHeap.adjust_words (h : MarkedHeap env s objs size roots) (ws done : List Nat)
    (hdone : ∀ w ∈ done, Adjustable env s objs size w) (hws : ∀ w ∈ ws, Adjustable env s objs size w)
    (hnodup : ws.Nodup) (hnew : ∀ w ∈ ws, w ∉ done) :
    (ws.map Slot.ref).foldlM (handleSlot env adjustRefCB) (s.adjusted objs size done) =
      pure (s.adjusted objs size (done ++ ws)) := by
  induction ws generalizing done with
  | nil => simp
  | cons w ws ih =>
    simp only [List.forall_mem_cons] at hws hnew
    rw [List.nodup_cons] at hnodup
    rw [List.map_cons, List.foldlM_cons, h.adjust_word hdone hws.1 hnew.1, pure_bind,
      ih (done ++ [w]) ?_ hws.2 hnodup.2 ?_, List.append_assoc, List.singleton_append]
    · intro w' hw'
      rw [List.mem_append, List.mem_singleton] at hw'
      rcases hw' with hold | rfl
      · exact hdone w' hold
      · exact hws.1
    · intro w' hw' hmem
      rw [List.mem_append, List.mem_singleton] at hmem
      rcases hmem with hold | rfl
      · exact hnew.2 w' hw' hold
      · exact hnodup.1 hw'

end Adjusted

/-! ## All references -/

section AllAdjusted

variable {env : Env} {s : State} {objs roots l r : List Nat} {size : Nat → Nat} {p w : Nat}

/-- What has been adjusted after the objects of `l`: the roots and the references of these. -/
def adjustedWords (env : Env) (s : State) (roots l : List Nat) : List Nat :=
  roots ++ (live s l).flatMap (slotWords env s)

theorem adjustedWords_concat (env : Env) (s : State) (roots l : List Nat) (p : Nat) :
    adjustedWords env s roots (l ++ [p]) =
      adjustedWords env s roots l ++ if isMarked (s.mem p) then slotWords env s p else [] := by
  simp only [adjustedWords, live_concat]
  split
  · simp
  · simp

theorem MarkedHeap.adjustable_words (h : MarkedHeap env s objs size roots) (hl : ∀ q ∈ l, q ∈ objs) :
    ∀ w ∈ adjustedWords env s roots l, Adjustable env s objs size w := by
  intro w hw
  rw [adjustedWords, List.mem_append, List.mem_flatMap] at hw
  rcases hw with hroot | ⟨q, hq, hw⟩
  · exact h.adjustable_root hroot
  · obtain ⟨hmem, hmark⟩ := mem_live.mp hq
    exact h.adjustable_slot (hl q hmem) hmark hw

/-- The references of the next object are new. -/
theorem MarkedHeap.slot_new (h : MarkedHeap env s objs size roots) (hsplit : objs = l ++ p :: r)
    (hw : w ∈ slotWords env s p) : w ∉ adjustedWords env s roots l := by
  have hp : p ∈ objs := by simp [hsplit]
  have hbounds := slot_bounds (h.sizeOf hp) ((h.mem_slotWords hp).mp hw)
  simp only [Slot.addr] at hbounds
  intro hmem
  rw [adjustedWords, List.mem_append, List.mem_flatMap] at hmem
  rcases hmem with hroot | ⟨q, hq, hw'⟩
  · have hobj := h.heapOf.tiled.mem_bounds hp
    have hborder := h.border
    exact absurd (h.roots_outside w hroot) (by simp only [id] at hobj; omega)
  · have hql := (mem_live.mp hq).1
    have hqobjs : q ∈ objs := by simp [hsplit, hql]
    have hbounds' := slot_bounds (h.sizeOf hqobjs) ((h.mem_slotWords hqobjs).mp hw')
    simp only [Slot.addr] at hbounds'
    have hsame := h.heapOf.tiled.block_unique hp hqobjs (i := w - p) (j := w - q) (by omega)
      (by omega) (by simp only [id]; omega)
    have hnodup := h.heapOf.nodup
    rw [hsplit, List.nodup_append] at hnodup
    exact hnodup.2.2 q hql p List.mem_cons_self hsame.symm

/-- Portals have no callback, and nothing to adjust either. -/
theorem MarkedHeap.of_adjustHandlers (h : MarkedHeap env s objs size roots) (hp : p ∈ objs) :
    (adjustHandlers env).of (s.mem p) = adjustCB env ∨
      (adjustHandlers env).of (s.mem p) = skip ∧ slotWords env s p = [] := by
  rcases h.kind p hp with hkind | hkind | hkind <;> unfold Handlers.of <;> rw [hkind]
  · exact .inl rfl
  · exact .inl rfl
  · refine .inr ⟨rfl, ?_⟩
    unfold slotWords slots
    rw [Nat.add_sub_cancel, hkind]
    rfl

theorem MarkedHeap.visit_adjust (h : MarkedHeap env s objs size roots)
    (hsplit : objs = l ++ p :: r) :
    visit env (adjustHandlers env) p (s.adjusted objs size (adjustedWords env s roots l)) =
      pure (size p, s.adjusted objs size (adjustedWords env s roots (l ++ [p]))) := by
  have hp : p ∈ objs := by simp [hsplit]
  have hdone := h.adjustable_words (l := l) fun q hq => by simp [hsplit, hq]
  obtain ⟨hflags, hsize, hslots⟩ := h.layout_adjusted hdone hp
  rw [visit_eq hsize, hflags, adjustedWords_concat]
  rcases h.of_adjustHandlers hp with hcall | ⟨hcall, hnone⟩
  · rw [hcall]
    simp only [adjustCB]
    split
    · next hmark =>
      have hvtable : Kind.ofFlags (s.mem p) = some .object →
          (s.adjusted objs size (adjustedWords env s roots l)).mem (p + 2) ≠ 0 := fun hkind => by
        have hfour := h.four_le hp
        rw [adjusted_plain hdone hp (by omega) fun hslot => ?_,
          addressed_mem fun q hq => h.ne_magic hp hq (by omega) (by omega)]
        · exact h.heapOf.vtable p hp hkind
        · have hbounds := slot_bounds (h.sizeOf hp) hslot
          simp only [Slot.addr] at hbounds
          omega
      have hwords := h.adjust_words (slotWords env s p) (adjustedWords env s roots l) hdone
        (fun w hw => h.adjustable_slot hp hmark hw) (h.nodup_slotWords hp)
        (fun w hw => h.slot_new hsplit hw)
      have hwalk : walkContent env adjustRefCB (p + 2)
          (s.adjusted objs size (adjustedWords env s roots l)) =
          pure (s.adjusted objs size (adjustedWords env s roots l ++ slotWords env s p)) := by
        rw [walkContent, State.getObjFlags, Nat.add_sub_cancel, hflags, hslots, h.map_slotWords hp]
        split
        · next hkind =>
          rw [assert_pos (hvtable hkind), pure_bind]
          exact hwords
        · exact hwords
      rw [hwalk]
      rfl
    · rw [List.append_nil]
      rfl
  · rw [hcall, hnone]
    simp only [skip, ite_self, List.append_nil]
    rfl

/-- The second and the third phase. -/
theorem MarkedHeap.adjust_all (h : MarkedHeap env s objs size roots) (fuel : Nat)
    (hfuel : objs.length < fuel) :
    (walkRootSet env adjustRefCB roots (s.addressed objs size objs) >>=
      walkHeap env (adjustHandlers env) fuel) =
        pure (s.adjusted objs size (adjustedWords env s roots objs)) := by
  have hstart : s.addressed objs size objs = s.adjusted objs size [] := by
    simp [State.adjusted]
  have hroots := h.adjust_words roots [] (by simp) (fun w hw => h.adjustable_root hw) h.roots_nodup
    (by simp)
  rw [← hstart, List.nil_append] at hroots
  have hvisit : ∀ l q r t, objs = l ++ q :: r → t = l →
      visit env (adjustHandlers env) q (s.adjusted objs size (adjustedWords env s roots t)) =
        pure (size q, s.adjusted objs size (adjustedWords env s roots (t ++ [q]))) ∧
      t ++ [q] = l ++ [q] := by
    intro l q r t hsplit ht
    rw [ht]
    exact ⟨h.visit_adjust hsplit, rfl⟩
  obtain ⟨hwalk, hbooks⟩ := walkHeap_eq
    (f := fun l => s.adjusted objs size (adjustedWords env s roots l)) (I := fun done t => t = done)
    (t := []) hvisit h.heapOf.tiled h.heapOf.pos rfl hfuel
  have hnone : adjustedWords env s roots [] = roots := by
    simp [adjustedWords, live]
  rw [hbooks] at hwalk
  simp only [hnone] at hwalk
  rw [walkRootSet, hroots, pure_bind, hwalk]

end AllAdjusted

/-! ## Moves -/

/-- What `moveCB` does to an object of `size p` words. -/
def moved (size : Nat → Nat) (t : State) (p : Nat) : State :=
  if isMarked (t.mem p) then
    let dst := t.mem (p + 1) / 4
    let t := t.setWord (p + 1) magicObject
    if p = dst then t else t.memcpy dst p (size p)
  else
    t

/-- The word `k` of an object when it has been moved. -/
def movedWord (a : State) (p k : Nat) : Nat := if k = 1 then magicObject else a.mem (p + k)

/-- The objects of `l` have been moved, and the words behind them are still those of `a`. -/
structure Moving (s a : State) (objs : List Nat) (size : Nat → Nat) (l : List Nat) (t : State) :
    Prop where
  heap : t.heap = s.heap
  heapTop : t.heapTop = s.heapTop
  heapBorder : t.heapBorder = s.heapBorder
  data : t.data = s.heap + room s size objs
  front : ∀ p ∈ live s l, ∀ k < size p, t.mem (newAddr s objs size p + k) = movedWord a p k
  rest : ∀ w, s.heap + (l.map size).sum ≤ w → t.mem w = a.mem w
  below : ∀ w < s.heap, t.mem w = a.mem w

section Moves

variable {env : Env} {s t : State} {objs roots l r : List Nat} {size : Nat → Nat} {p : Nat}

theorem moved_frame (size : Nat → Nat) (t : State) (p : Nat) :
    (moved size t p).heap = t.heap ∧ (moved size t p).heapTop = t.heapTop ∧
      (moved size t p).heapBorder = t.heapBorder ∧ (moved size t p).data = t.data := by
  unfold moved
  split
  · simp only
    split
    · exact ⟨rfl, rfl, rfl, rfl⟩
    · exact memcpy_frame _ _ _ _
  · exact ⟨rfl, rfl, rfl, rfl⟩

/-- The words after the move of a marked object; the words that it leaves behind do not matter. -/
theorem moved_mem (size : Nat → Nat) (hmark : isMarked (t.mem p) = true) {dst : Nat}
    (hdst : t.mem (p + 1) = 4 * dst)
    (hle : dst ≤ p) (w : Nat) :
    (moved size t p).mem w = if dst ≤ w ∧ w < dst + size p then
      (t.setWord (p + 1) magicObject).mem (p + (w - dst))
    else (t.setWord (p + 1) magicObject).mem w := by
  have hdiv : t.mem (p + 1) / 4 = dst := by omega
  simp only [moved, hmark, if_true, hdiv]
  split
  · next heq =>
    subst heq
    split
    · rw [Nat.add_sub_cancel' (by omega)]
    · rfl
  · exact memcpy_mem hle _ _ _

theorem MarkedHeap.visit_move (h : MarkedHeap env s objs size roots) (hp : p ∈ objs)
    (hflags : t.mem p = s.mem p) (hsize : GcCompacting.sizeOf env t.mem p = some (size p))
    (hmagic : isMarked (s.mem p) = true → t.mem (p + 1) ≠ magicObject) :
    visit env (.all (moveCB env)) p t = pure (size p, moved size t p) := by
  rw [visit_eq hsize, of_all _ hsize]
  have hmove : moveCB env (p + 2) (size p) (t.mem p) t = pure (moved size t p) := by
    simp only [moveCB, moved, State.getObjMagic, State.setObjMagic, Nat.add_sub_cancel,
      show p + 2 - 1 = p + 1 from rfl]
    split
    · next hmark =>
      rw [hflags] at hmark
      rw [assert_pos (hmagic hmark), pure_bind]
      split <;> rfl
    · rw [if_neg]
      rw [hflags]
      rcases h.kind p hp with hkind | hkind | hkind <;> rw [hkind] <;> decide
  rw [hmove]
  rfl

/-- The object that comes next has not been touched. -/
theorem MarkedHeap.visit_moving (h : MarkedHeap env s objs size roots)
    (hsplit : objs = l ++ p :: r)
    (hm : Moving s (s.adjusted objs size (adjustedWords env s roots objs)) objs size l t) :
    t.mem p = s.mem p ∧ visit env (.all (moveCB env)) p t = pure (size p, moved size t p) := by
  have hp : p ∈ objs := by simp [hsplit]
  have hdone := h.adjustable_words (l := objs) fun q hq => hq
  have hstart := h.heapOf.start_split hsplit
  have hrest : ∀ k, t.mem (p + k) =
      (s.adjusted objs size (adjustedWords env s roots objs)).mem (p + k) := fun k =>
    hm.rest _ (by omega)
  obtain ⟨hflags, hsize, -⟩ := h.layout (t := t) hp fun k hk hne hplain => by
    rw [hrest, adjusted_plain hdone hp hk hplain]
    exact addressed_mem fun q hq => h.ne_magic hp hq hk hne
  refine ⟨hflags, h.visit_move hp hflags hsize fun hmark => ?_⟩
  rw [hrest 1, h.adjusted_magic hdone (mem_live.mpr ⟨hp, hmark⟩), magicObject]
  omega

theorem MarkedHeap.moving_step (h : MarkedHeap env s objs size roots)
    (hsplit : objs = l ++ p :: r)
    (hm : Moving s (s.adjusted objs size (adjustedWords env s roots objs)) objs size l t) :
    Moving s (s.adjusted objs size (adjustedWords env s roots objs)) objs size (l ++ [p])
      (moved size t p) := by
  have hp : p ∈ objs := by simp [hsplit]
  have hdone := h.adjustable_words (l := objs) fun q hq => hq
  have hstart := h.heapOf.start_split hsplit
  have hflags := (h.visit_moving hsplit hm).1
  obtain ⟨hheap, htop, hborder, hdata⟩ := moved_frame size t p
  have hsum : ((l ++ [p]).map size).sum = (l.map size).sum + size p := by simp
  by_cases hmark : isMarked (s.mem p) = true
  · have hmagic : t.mem (p + 1) = 4 * newAddr s objs size p :=
      (hm.rest _ (by omega)).trans (h.adjusted_magic hdone (mem_live.mpr ⟨hp, hmark⟩))
    have hle := newAddr_le h.heapOf hsplit
    have hmark' : isMarked (t.mem p) = true := by rw [hflags]; exact hmark
    have hmem := fun w => moved_mem size hmark' hmagic hle w
    have hnew := newAddr_split h.heapOf hsplit
    have hlive := tiled_live h.heapOf hsplit
    have hfour := h.four_le hp
    refine ⟨hheap.trans hm.heap, htop.trans hm.heapTop, hborder.trans hm.heapBorder,
      hdata.trans hm.data, fun q hq k hk => ?_, fun w hw => ?_, fun w hw => ?_⟩
    · rw [live_concat, if_pos hmark, List.mem_append, List.mem_singleton] at hq
      rcases hq with hold | rfl
      · -- objects that have been moved end below the new place of this one
        have hbounds := hlive.mem_bounds hold
        rw [hmem, if_neg (by omega)]
        simp only [State.setWord]
        rw [if_neg (by omega)]
        exact hm.front q hold k hk
      · rw [hmem, if_pos (by omega), Nat.add_sub_cancel_left]
        simp only [State.setWord, movedWord, Nat.add_right_inj]
        split
        · rfl
        · exact hm.rest _ (by omega)
    · rw [hmem, if_neg (by omega)]
      simp only [State.setWord]
      rw [if_neg (by omega)]
      exact hm.rest w (by omega)
    · rw [hmem, if_neg (by omega)]
      simp only [State.setWord]
      rw [if_neg (by omega)]
      exact hm.below w hw
  · have hstay : moved size t p = t := by
      unfold moved
      rw [hflags, if_neg hmark]
    rw [hstay]
    refine ⟨hm.heap, hm.heapTop, hm.heapBorder, hm.data, fun q hq => ?_, fun w hw => ?_, hm.below⟩
    · rw [live_concat, if_neg hmark] at hq
      exact hm.front q hq
    · exact hm.rest w (by omega)

/-- The last phase. -/
theorem MarkedHeap.walk_move (h : MarkedHeap env s objs size roots) :
    ∃ t, (∀ fuel > objs.length, walkHeap env (.all (moveCB env)) fuel
        (s.adjusted objs size (adjustedWords env s roots objs)) = pure t) ∧
      Moving s (s.adjusted objs size (adjustedWords env s roots objs)) objs size objs t := by
  have hvisit : ∀ l q r t, objs = l ++ q :: r →
      Moving s (s.adjusted objs size (adjustedWords env s roots objs)) objs size l t →
      visit env (.all (moveCB env)) q (id t) = pure (size q, id (moved size t q)) ∧
        Moving s (s.adjusted objs size (adjustedWords env s roots objs)) objs size (l ++ [q])
          (moved size t q) := fun l q r t hsplit hm =>
    ⟨(h.visit_moving hsplit hm).2, h.moving_step hsplit hm⟩
  have hstart : Moving s (s.adjusted objs size (adjustedWords env s roots objs)) objs size []
      (s.adjusted objs size (adjustedWords env s roots objs)) :=
    ⟨rfl, rfl, rfl, rfl, nofun, fun _ _ => rfl, fun _ _ => rfl⟩
  have hwalk := fun fuel (hfuel : objs.length < fuel) =>
    walkHeap_eq (t := s.adjusted objs size (adjustedWords env s roots objs)) hvisit
      h.heapOf.tiled h.heapOf.pos hstart hfuel
  exact ⟨_, fun fuel hfuel => (hwalk fuel hfuel).1, (hwalk _ (Nat.lt_succ_self _)).2⟩

/-- The words of a marked object after its move. -/
theorem MarkedHeap.movedWord_eq (h : MarkedHeap env s objs size roots) (hp : p ∈ live s objs)
    {k : Nat} (hk : k < size p) :
    movedWord (s.adjusted objs size (adjustedWords env s roots objs)) p k =
      if Slot.ref (p + k) ∈ slots env s.mem (p + 2) then relocate s objs size (s.mem (p + k))
      else s.mem (p + k) := by
  obtain ⟨hobj, hmark⟩ := mem_live.mp hp
  have hdone := h.adjustable_words (l := objs) fun q hq => hq
  unfold movedWord
  split
  · next hone =>
    subst hone
    rw [if_neg fun hslot => ?_, h.magic p hobj]
    have hbounds := slot_bounds (h.sizeOf hobj) hslot
    simp only [Slot.addr] at hbounds
    omega
  · next hne =>
    split
    · next hslot =>
      refine if_pos (List.mem_append_right roots (List.mem_flatMap.mpr ⟨p, hp, ?_⟩))
      exact (h.mem_slotWords hobj).mpr hslot
    · next hplain =>
      rw [adjusted_plain hdone hobj hk hplain]
      exact addressed_mem fun q hq => h.ne_magic hobj hq hk hne

end Moves

/-- Sliding does what it should do on every heap of objects, arrays and portals. -/
theorem slidePhase_slides {env : Env} {s : State} {objs roots : List Nat} {size : Nat → Nat}
    (h : MarkedHeap env s objs size roots) :
    ∃ s', Returns (fun fuel => slidePhase env roots fuel s) s' ∧ Slid env s s' objs size roots := by
  obtain ⟨t, hwalk, hm⟩ := h.walk_move
  have hlive := tiled_live h.heapOf (List.append_nil objs).symm
  have hroom := room_le s size objs
  have htop := h.heapOf.tiled.top_eq
  have hborder := h.border
  refine ⟨{ t with
      heapTop := t.data
      mem := fun w => if t.data ≤ w ∧ w < t.heapBorder then 0xffffffff else t.mem w },
    ⟨objs.length + 1, fun fuel hfuel => ?_⟩, ?_⟩
  · have hadjust := h.adjust_all fuel hfuel
    obtain ⟨s₂, hroots, hrest⟩ := bind_eq_pure hadjust
    simp only [slidePhase, h.walk_calcAddr fuel hfuel, pure_bind, hroots, hrest, hwalk fuel hfuel]
  · refine ⟨hm.heap, ?_, hm.data, fun p hp k hk => ?_, fun a ha => ?_⟩
    · rw [show ({ t with heapTop := t.data, mem := _ } : State).heapTop = t.data from rfl, hm.data]
      exact hlive
    · have hbounds := hlive.mem_bounds hp
      change (if t.data ≤ _ ∧ _ < t.heapBorder then _ else t.mem _) = _
      rw [hm.data, if_neg (by omega), hm.front p hp k hk, h.movedWord_eq hp hk]
    · have hout := h.roots_outside a ha
      have hword : t.mem a = (s.adjusted objs size (adjustedWords env s roots objs)).mem a := by
        by_cases hlow : a < s.heap
        · exact hm.below a hlow
        · exact hm.rest a (by omega)
      change (if t.data ≤ _ ∧ _ < t.heapBorder then _ else t.mem _) = _
      rw [hm.data, hm.heapBorder, if_neg (by omega), hword]
      exact if_pos (List.mem_append_left _ ha)

/-- A portal that nobody refers to, and behind it an object and an array that refer to each other,
with their marks. -/
def markedState : State :=
  { exampleState with
    mem := fun w =>
      ([(10, 432), (100, 0x04), (101, magicObject), (102, 4000), (106, 0x03), (107, magicObject),
        (108, 4000), (109, 456), (112, 0x17), (113, magicObject), (114, 4000), (115, 5000),
        (116, 1), (117, 432)].lookup w).getD 0 }

theorem heapOf_markedState : HeapOf exampleEnv markedState [100, 106, 112] fun _ => 6 where
  tiled := ⟨rfl, rfl, rfl, rfl⟩
  three_le := by decide
  size_of := by
    simp only [List.forall_mem_cons]
    exact ⟨fun _ hn => Option.some.inj hn, fun _ hn => Option.some.inj hn,
      fun _ hn => Option.some.inj hn, nofun⟩
  vtable := by decide
  slots := by
    have hportal : slots exampleEnv markedState.mem 102 = [] := rfl
    have hobject : slots exampleEnv markedState.mem 108 = [.ref 109, .ref 110] := rfl
    have harray : slots exampleEnv markedState.mem 114 = [.ref 117] := rfl
    simp only [List.forall_mem_cons, Nat.reduceAdd, hobject, harray, hportal]
    exact ⟨nofun, ⟨.inr (.inr ⟨112, by decide, rfl⟩), .inl rfl, nofun⟩,
      ⟨.inr (.inr ⟨106, by decide, rfl⟩), nofun⟩, nofun⟩
  no_pool := by decide

theorem markedHeap_markedState :
    MarkedHeap exampleEnv markedState [100, 106, 112] (fun _ => 6) [10] where
  heapOf := heapOf_markedState
  kind := by decide
  magic := by decide
  closed := by
    have hportal : slots exampleEnv markedState.mem 102 = [] := rfl
    have hobject : slots exampleEnv markedState.mem 108 = [.ref 109, .ref 110] := rfl
    have harray : slots exampleEnv markedState.mem 114 = [.ref 117] := rfl
    simp only [List.forall_mem_cons, Nat.reduceAdd, hobject, harray, hportal]
    exact ⟨fun _ => nofun,
      fun _ => ⟨fun q hq => Option.some.inj hq ▸ by decide, fun q hq => (by cases hq), nofun⟩,
      fun _ => ⟨fun q hq => Option.some.inj hq ▸ by decide, nofun⟩, nofun⟩
  border := by decide
  roots_outside := by decide
  roots_ok := by
    simp only [List.forall_mem_cons]
    exact ⟨.inr (.inr ⟨106, by decide, rfl⟩), nofun⟩
  roots_marked := by
    simp only [List.forall_mem_cons]
    exact ⟨fun q hq => Option.some.inj hq ▸ by decide, nofun⟩
  roots_nodup := by decide

theorem slides_markedState : MarkedHeap exampleEnv markedState [100, 106, 112] (fun _ => 6) [10] ∧
    ∃ s', Returns (fun fuel => slidePhase exampleEnv [10] fuel markedState) s' ∧
      Slid exampleEnv markedState s' [100, 106, 112] (fun _ => 6) [10] :=
  ⟨markedHeap_markedState, slidePhase_slides markedHeap_markedState⟩

end JxCore.GcCompacting
