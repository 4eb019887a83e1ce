import JxCore.Basic
import JxCore.Lib.Bitmap
import JxCore.Lib.RingScan
import Mathlib.Tactic.SplitIfs

/-!
# The heap with a bitmap (`Memory/gc_bitmap.c`)

The heap is cut into slots, and a bitmap in front of it holds one bit per slot. `bitmap_alloc` looks
for free slots from a cursor on: where they are not all free it moves the cursor over the whole length,
and then on to the next free slot. The mark phase clears the bitmap and takes the slots of the objects
that are still reachable, with the same cursor.

The model keeps the indices of all bits that have been read. What lies behind the bits of the slots is
memory with any contents.
-/

namespace JxCore.GcBitmap

open Exec Lib

/-! ## The data -/

/-- `SLOT_SIZE`, in bytes. -/
def slotSize : Nat := 16

/-- `BYTES2SLOTS(size)`. -/
def bytes2Slots (size : Nat) : Nat := u4 (size + slotSize - 1) / slotSize

/-- `gc_bitmap_mem_t`. Memory is addressed from `map` on, and `mapSize` is `heap - map`. -/
structure Mem where
  map : Bytes
  mapSize : Nat
  heap : Nat
  nSlots : Nat
  current : Nat
  freeSlots : Nat
  /-- The indices of the bits that have been read, the last one first. -/
  reads : List Nat

/-- `map[i >> 3] & 1 << (i & 7)`. -/
abbrev Mem.bit (s : Mem) (i : Nat) : Bool := s.map.getBit i

def Mem.look (s : Mem) (i : Nat) : Mem := { s with reads := i :: s.reads }

/-! ## The routines -/

/-- `bitmap_clear`. -/
def bitmapClear (s : Mem) : Mem :=
  { s with map := s.map.zero s.mapSize, freeSlots := s.nSlots, current := 0 }

/-- The loop of `bitmap_next_free` at `c`. -/
def nextFreeLoop : Nat → Nat → Mem → Exec (Bool × Mem)
  | 0, _, _ => loop none
  | fuel + 1, c, s =>
    if s.bit c then
      if s.nSlots = 0 then throw .divideError
      else if u4 (c + 1) % s.nSlots = s.current then return (false, s.look c)
      else nextFreeLoop fuel (u4 (c + 1) % s.nSlots) (s.look c)
    else return (true, { s.look c with current := c })

/-- `bitmap_next_free`. -/
def bitmapNextFree (fuel : Nat) (s : Mem) : Exec (Bool × Mem) := nextFreeLoop fuel s.current s

/-- The loop of `bitmap_has_space`; `n` rounds are left. -/
def hasSpaceLoop : Nat → Nat → Mem → Bool × Mem
  | 0, _, s => (true, s)
  | n + 1, i, s =>
    if s.bit (u4 (s.current + i)) then (false, s.look (u4 (s.current + i)))
    else hasSpaceLoop n (i + 1) (s.look (u4 (s.current + i)))

/-- `bitmap_has_space`. -/
def bitmapHasSpace (s : Mem) (nslots : Nat) : Bool × Mem :=
  if s.nSlots < u4 (s.current + nslots) then (false, s) else hasSpaceLoop nslots 0 s

/-- The loop of `bitmap_mark`; `|=` reads the bits too. -/
def markLoop : Nat → Nat → Mem → Mem
  | 0, _, s => s
  | n + 1, i, s =>
    markLoop n (i + 1)
      { s.look (u4 (s.current + i)) with map := s.map.setBit (u4 (s.current + i)) }

/-- `bitmap_mark`. -/
def bitmapMark (s : Mem) (nslots : Nat) : Exec (Nat × Mem) := do
  assert (u4 (s.current + nslots) ≤ s.nSlots) "(c + nslots) <= s"
  let t := markLoop nslots 0 s
  return (u4 (s.heap + s.current * slotSize),
    { t with freeSlots := u4 (2 ^ 32 + t.freeSlots - nslots), current := u4 (s.current + nslots) })

/-- The loop of `bitmap_alloc`; `n` rounds are left. -/
def allocLoop (fuel nslots : Nat) : Nat → Mem → Exec (Option Nat × Mem)
  | 0, s => return (none, s)
  | n + 1, s => do
    let (free, s) := bitmapHasSpace s nslots
    if free then
      let (addr, s) ← bitmapMark s nslots
      return (some addr, s)
    else
      let (found, s) ← bitmapNextFree fuel { s with current := u4 (s.current + nslots) }
      if found then allocLoop fuel nslots n s else return (none, s)

/-- `bitmap_alloc`; `none` is `NULL`. -/
def bitmapAlloc (fuel : Nat) (s : Mem) (size : Nat) : Exec (Option Nat × Mem) :=
  allocLoop fuel (bytes2Slots size) (s.nSlots / 2) s

/-- The slot of an address. -/
def Mem.slotOf (s : Mem) (addr : Nat) : Nat := u4 (2 ^ 32 + addr - s.heap) / slotSize

/-- `bitmap_mark_addr`; `size` is a number of words. Behind `bitmap_mark` there is no `return`, and the
caller takes for the result what it finds in the register, `eax`. -/
def bitmapMarkAddr (s : Mem) (addr size eax : Nat) : Exec (Nat × Mem) := do
  let nslots := bytes2Slots (u4 (size * 4))
  let (free, s) := bitmapHasSpace { s with current := s.slotOf addr } nslots
  if free then
    let (marked, s) ← bitmapMark s nslots
    assert (addr = marked) "0"
    return (eax, s)
  else return (0, s)

/-- `HEAP_BLOCKSIZE`. -/
def heapBlocksize : Nat := 4096

/-- `HEAP_RESERVE`. -/
def heapReserve : Nat := 10 * 1024

/-- `(a + HEAP_BLOCKSIZE - 1) & HEAP_BLOCKADDR_MASK`. -/
def toHeapBlock (a : Nat) : Nat := u4 (a + heapBlocksize - 1) / heapBlocksize * heapBlocksize

/-- `gc_bitmap_init`, with memory at `start` that has been allocated and holds `mem`. -/
def gcBitmapInit (heapBytes start : Nat) (mem : Bytes) : Except Stop Mem :=
  if heapBytes = 0 then throw (.panic "gc_bitmap is not suitable for domain Zero")
  else
    let heapBytes :=
      if heapBytes < heapReserve + heapBlocksize then heapReserve + heapBlocksize else heapBytes
    let bitmapSize := heapBytes / slotSize / 8
    let heapSize := toHeapBlock (u4 (heapBytes + bitmapSize))
    let mapSize := toHeapBlock bitmapSize
    let nSlots := u4 (2 ^ 32 + heapSize - mapSize) / slotSize
    return {
      map := mem
      mapSize := mapSize
      heap := u4 (start + mapSize)
      nSlots := nSlots
      current := 0
      freeSlots := nSlots
      reads := [] }

/-! ## What the calls should do -/

/-- The slots, and a number of them to look for. -/
def Mem.ring (s : Mem) (need : Nat) : Ring := ⟨s.nSlots, s.bit, 0, need⟩

/-- The number of slots that hold `size` bytes. -/
def slotsFor (size : Nat) : Nat := (size + slotSize - 1) / slotSize

/-- The free slots are counted, and only bits of slots have been read. -/
structure Sound (s : Mem) : Prop where
  counted : s.freeSlots = s.map.clearCount s.nSlots
  inside : ∀ i ∈ s.reads, i < s.nSlots

/-- The calls, with arguments of 32 bits. -/
inductive Op where
  | alloc (size : BitVec 32)
  | clear
  | markAddr (addr size eax : BitVec 32)
  deriving DecidableEq

/-- The slots `c`, …, `c + k - 1` are new, and no others. -/
def Takes (s t : Mem) (c k : Nat) : Prop :=
  ∀ j, t.bit j = (decide (c ≤ j ∧ j < c + k) || s.bit j)

/-- The result of `bitmap_alloc(size)` is `NULL`, or the address of slots that were free. -/
def AllocRight (s : Mem) (size : Nat) : Option Nat → Mem → Prop
  | none, t => Takes s t 0 0
  | some addr, t => ∃ c, (s.ring (slotsFor size)).FreeRun c ∧
      addr = u4 (s.heap + c * slotSize) ∧ Takes s t c (slotsFor size)

/-- The result of `bitmap_mark_addr(addr, size)` tells whether the slots were free, and they are taken
if they were. -/
def MarkRight (s : Mem) (addr size result : Nat) (t : Mem) : Prop :=
  ((s.ring (slotsFor (size * 4))).FreeRun (s.slotOf addr) → result ≠ 0 ∧
      Takes s t (s.slotOf addr) (slotsFor (size * 4))) ∧
    (¬ (s.ring (slotsFor (size * 4))).FreeRun (s.slotOf addr) → result = 0 ∧ Takes s t 0 0)

/-- The call ends and does what it should. -/
def Meets (s : Mem) : Op → Prop
  | .alloc size => ∃ r t, Returns (fun fuel => bitmapAlloc fuel s size.toNat) (r, t) ∧
      AllocRight s size.toNat r t ∧ Sound t
  | .clear => Sound (bitmapClear s)
  | .markAddr addr size eax => ∃ r t,
      bitmapMarkAddr s addr.toNat size.toNat eax.toNat = pure (r, t) ∧
        MarkRight s addr.toNat size.toNat r t ∧ Sound t

/-- A call that comes back. -/
inductive Step : Op → Mem → Mem → Prop where
  | alloc {s t : Mem} {size : BitVec 32} {r : Option Nat}
      (h : Returns (fun fuel => bitmapAlloc fuel s size.toNat) (r, t)) : Step (.alloc size) s t
  | clear {s : Mem} : Step .clear s (bitmapClear s)
  | markAddr {s t : Mem} {addr size eax : BitVec 32} {r : Nat}
      (h : bitmapMarkAddr s addr.toNat size.toNat eax.toNat = pure (r, t)) :
      Step (.markAddr addr size eax) s t

/-- A property of each call, at the state where it is made. -/
def Each (P : Mem → Op → Prop) : Mem → List Op → Prop
  | _, [] => True
  | s, op :: ops => P s op ∧ ∀ t, Step op s t → Each P t ops

/-- The counts are right at the beginning, and each call does what it should. -/
def Correct (s : Mem) (ops : List Op) : Prop := Sound s ∧ Each Meets s ops

/-! ## Looking at bits -/

variable {s t u : Mem} {c k n : Nat}

/-- The cursor is at `c`, and bits of slots have been read; nothing else has changed. -/
def Moved (s : Mem) (c : Nat) (t : Mem) : Prop :=
  ∃ l, t = { s with current := c, reads := l ++ s.reads } ∧ ∀ i ∈ l, i < s.nSlots

theorem Moved.refl (s : Mem) : Moved s s.current s := ⟨[], rfl, List.forall_mem_nil _⟩

theorem moved_current (s : Mem) (c : Nat) : Moved s c { s with current := c } :=
  ⟨[], rfl, List.forall_mem_nil _⟩

theorem moved_look {i : Nat} (hi : i < s.nSlots) : Moved s s.current (s.look i) :=
  ⟨[i], rfl, List.forall_mem_singleton.mpr hi⟩

theorem Moved.trans {d : Nat} (h : Moved s c t) (h' : Moved t d u) : Moved s d u := by
  obtain ⟨l, rfl, hl⟩ := h
  obtain ⟨l', rfl, hl'⟩ := h'
  refine ⟨l' ++ l, by rw [List.append_assoc], fun i hi => ?_⟩
  rcases List.mem_append.mp hi with hnew | hold
  · exact hl' i hnew
  · exact hl i hold

theorem Moved.current (h : Moved s c t) : t.current = c := by
  obtain ⟨l, rfl, -⟩ := h
  rfl

theorem Moved.nSlots (h : Moved s c t) : t.nSlots = s.nSlots := by
  obtain ⟨l, rfl, -⟩ := h
  rfl

theorem Moved.heap (h : Moved s c t) : t.heap = s.heap := by
  obtain ⟨l, rfl, -⟩ := h
  rfl

theorem Moved.map (h : Moved s c t) : t.map = s.map := by
  obtain ⟨l, rfl, -⟩ := h
  rfl

theorem Moved.ring (h : Moved s c t) (k : Nat) : t.ring k = s.ring k := by
  obtain ⟨l, rfl, -⟩ := h
  rfl

theorem Moved.takes (h : Moved s c t) : Takes s t 0 0 := by
  intro j
  have hnone : ¬ (0 ≤ j ∧ j < 0 + 0) := by omega
  rw [Mem.bit, h.map, decide_eq_false hnone, Bool.false_or]

theorem Moved.sound (h : Moved s c t) (hs : Sound s) : Sound t := by
  obtain ⟨l, rfl, hl⟩ := h
  refine ⟨hs.counted, fun i hi => ?_⟩
  rcases List.mem_append.mp hi with hnew | hold
  · exact hl i hnew
  · exact hs.inside i hold

/-- What has been read is not forgotten, and the slots stay. -/
structure Grows (s t : Mem) : Prop where
  reads : s.reads ⊆ t.reads
  nSlots : t.nSlots = s.nSlots

theorem Grows.refl (s : Mem) : Grows s s := ⟨List.Subset.refl _, rfl⟩

theorem Grows.trans (h : Grows s t) (h' : Grows t u) : Grows s u :=
  ⟨List.Subset.trans h.reads h'.reads, h'.nSlots.trans h.nSlots⟩

theorem grows_look (s : Mem) (i : Nat) : Grows s (s.look i) := ⟨List.subset_cons_self _ _, rfl⟩

/-! ## The next free slot -/

section NextFree

variable {p q : Nat}

theorem nextFreeLoop_free (fuel : Nat) (h : s.bit c = false) :
    nextFreeLoop (fuel + 1) c s = pure (true, { s.look c with current := c }) := by
  rw [nextFreeLoop, h]
  rfl

theorem nextFreeLoop_used (fuel : Nat) (hpos : 0 < s.nSlots) (h : s.bit c = true) :
    nextFreeLoop (fuel + 1) c s =
      if u4 (c + 1) % s.nSlots = s.current then pure (false, s.look c)
      else nextFreeLoop fuel (u4 (c + 1) % s.nSlots) (s.look c) := by
  rw [nextFreeLoop, h, if_pos rfl, if_neg (Nat.ne_of_gt hpos)]

/-- Used slots are passed as long as the cursor does not come. -/
theorem nextFreeLoop_passes (hn : s.nSlots < 2 ^ 28) {d : Nat} (hd : c + d < s.nSlots)
    (hused : ∀ b, c ≤ b → b < c + d → s.bit b = true)
    (hcur : s.current ≤ c ∨ c + d < s.current) :
    ∃ t, Moved s s.current t ∧
      ∀ fuel, nextFreeLoop (fuel + d) c s = nextFreeLoop fuel (c + d) t := by
  induction d generalizing s c with
  | zero => exact ⟨s, Moved.refl s, fun _ => rfl⟩
  | succ d ih =>
    have hstep : u4 (c + 1) % s.nSlots = c + 1 := by
      rw [u4_of_lt (by omega), Nat.mod_eq_of_lt (by omega)]
    have hlook := @moved_look s c (by omega)
    obtain ⟨t, hmoved, ht⟩ := @ih (s.look c) (c + 1) hn (show c + 1 + d < s.nSlots by omega)
      (fun b hb hlt => hused b (by omega) (by omega))
      (show s.current ≤ c + 1 ∨ c + 1 + d < s.current by omega)
    refine ⟨t, hlook.trans hmoved, fun fuel => ?_⟩
    rw [← Nat.add_assoc fuel d 1, nextFreeLoop_used _ (by omega) (hused c (by omega) (by omega)), hstep,
      if_neg (by omega), ht fuel]
    congr 1
    omega

/-- Behind the last slot comes slot 0. -/
theorem nextFreeLoop_over (hn : s.nSlots < 2 ^ 28) (hc : c < s.nSlots) (hcur : s.current ≤ c)
    (hused : ∀ b, c ≤ b → b < s.nSlots → s.bit b = true) :
    ∃ t, Moved s s.current t ∧ ∀ fuel, nextFreeLoop (fuel + (s.nSlots - c)) c s =
      if s.current = 0 then pure (false, t) else nextFreeLoop fuel 0 t := by
  obtain ⟨t, hmoved, ht⟩ := nextFreeLoop_passes hn (show c + (s.nSlots - 1 - c) < s.nSlots by omega)
    (fun b hb hlt => hused b hb (by omega)) (Or.inl hcur)
  have hlast : c + (s.nSlots - 1 - c) = s.nSlots - 1 := by omega
  rw [hlast] at ht
  have hlt : s.nSlots - 1 < t.nSlots := by
    rw [hmoved.nSlots]
    omega
  have hlook := (hmoved.current) ▸ moved_look hlt
  refine ⟨t.look (s.nSlots - 1), hmoved.trans hlook, fun fuel => ?_⟩
  have hbit : t.bit (s.nSlots - 1) = true := by
    rw [Mem.bit, hmoved.map]
    exact hused _ (by omega) (by omega)
  have hwrap : u4 (s.nSlots - 1 + 1) % t.nSlots = 0 := by
    rw [hmoved.nSlots, Nat.sub_add_cancel (by omega), u4_of_lt (by omega), Nat.mod_self]
  have hfuel : fuel + (s.nSlots - c) = fuel + 1 + (s.nSlots - 1 - c) := by omega
  rw [hfuel, ht, nextFreeLoop_used _ (by omega) hbit, hwrap, hmoved.current]
  simp only [eq_comm]

/-- The used slots below a free slot are passed, and the search ends there. -/
theorem nextFreeLoop_up (hn : s.nSlots < 2 ^ 28) (hle : c ≤ q) (hq : q < s.nSlots)
    (hfree : s.bit q = false) (hused : ∀ b, c ≤ b → b < q → s.bit b = true)
    (hcur : s.current ≤ c ∨ q < s.current) :
    ∃ t, Moved s q t ∧ ∀ fuel > q - c, nextFreeLoop fuel c s = pure (true, t) := by
  have hsum : c + (q - c) = q := Nat.add_sub_cancel' hle
  obtain ⟨t, hmoved, ht⟩ := @nextFreeLoop_passes s c hn (q - c) (by omega)
    (fun b hb hlt => hused b hb (by omega)) (by omega)
  rw [hsum] at ht
  have hfound : Moved t q { t.look q with current := q } := by
    refine ⟨[q], rfl, List.forall_mem_singleton.mpr ?_⟩
    rw [hmoved.nSlots]
    exact hq
  have hbit : t.bit q = false := by
    rw [Mem.bit, hmoved.map]
    exact hfree
  refine ⟨_, hmoved.trans hfound, fun fuel hfuel => ?_⟩
  have hsplit : fuel = fuel - (q - c) - 1 + 1 + (q - c) := by omega
  rw [hsplit, ht, nextFreeLoop_free _ hbit]

/-- The search from the cursor on finds what comes first. -/
theorem bitmapNextFree_lands (hn : s.nSlots < 2 ^ 28) (h : (s.ring k).Lands s.current q) :
    ∃ t, Moved s q t ∧ ∀ fuel > 2 * s.nSlots, bitmapNextFree fuel s = pure (true, t) := by
  cases h with
  | up hle hlt hfree hused =>
    obtain ⟨t, hmoved, ht⟩ :=
      nextFreeLoop_up hn hle hlt hfree hused (Or.inl (Nat.le_refl s.current))
    change q < s.nSlots at hlt
    exact ⟨t, hmoved, fun fuel hfuel => ht fuel (by omega)⟩
  | wrap hlt hp hfree hused hbelow =>
    change s.current < s.nSlots at hp
    obtain ⟨t, hmoved, ht⟩ := nextFreeLoop_over hn hp (Nat.le_refl s.current) hused
    have hnSlots := hmoved.nSlots
    have hbits : ∀ b, t.bit b = s.bit b := by
      intro b
      rw [Mem.bit, hmoved.map]
    obtain ⟨u, hmoved', hu⟩ := @nextFreeLoop_up t 0 q (by omega) (Nat.zero_le q) (by omega)
      ((hbits q).trans hfree) (fun b _ hb => (hbits b).trans (hbelow b hb))
      (Or.inr (by rw [hmoved.current]; exact hlt))
    refine ⟨u, hmoved.trans hmoved', fun fuel hfuel => ?_⟩
    have hsplit : fuel = fuel - (s.nSlots - s.current) + (s.nSlots - s.current) := by omega
    rw [bitmapNextFree, hsplit, ht, if_neg (by omega), hu _ (by omega)]

theorem bitmapNextFree_allUsed (hn : s.nSlots < 2 ^ 28) (hp : s.current < s.nSlots)
    (h : (s.ring k).AllUsed) :
    ∃ t, Moved s s.current t ∧ ∀ fuel > 2 * s.nSlots, bitmapNextFree fuel s = pure (false, t) := by
  obtain ⟨t, hmoved, ht⟩ := nextFreeLoop_over hn hp (Nat.le_refl s.current) fun b _ hb => h b hb
  have hsplit : ∀ fuel > 2 * s.nSlots,
      fuel = fuel - (s.nSlots - s.current) + (s.nSlots - s.current) := by omega
  by_cases hzero : s.current = 0
  · refine ⟨t, hmoved, fun fuel hfuel => ?_⟩
    rw [bitmapNextFree, hsplit fuel hfuel, ht, if_pos hzero]
  · -- from slot 0 up to the slot in front of the cursor
    have hnSlots := hmoved.nSlots
    have hcur := hmoved.current
    have hbits : ∀ b < s.nSlots, t.bit b = true := by
      intro b hb
      rw [Mem.bit, hmoved.map]
      exact h b hb
    obtain ⟨u, hmoved', hu⟩ := @nextFreeLoop_passes t 0 (by omega) (s.current - 1) (by omega)
      (fun b _ hb => hbits b (by omega)) (Or.inr (by omega))
    rw [Nat.zero_add] at hu
    have hlt : s.current - 1 < u.nSlots := by
      rw [hmoved'.nSlots]
      omega
    have hall := hmoved.trans (hmoved'.trans ((hmoved'.current) ▸ moved_look hlt))
    rw [hcur] at hall
    refine ⟨u.look (s.current - 1), hall, fun fuel hfuel => ?_⟩
    have hbit : u.bit (s.current - 1) = true := by
      rw [Mem.bit, hmoved'.map]
      exact hbits _ (by omega)
    have hback : u4 (s.current - 1 + 1) % u.nSlots = u.current := by
      rw [hmoved'.current, hmoved'.nSlots, hcur, hnSlots, Nat.sub_add_cancel (by omega),
        u4_of_lt (by omega), Nat.mod_eq_of_lt hp]
    have hsplit' : fuel - (s.nSlots - s.current) =
        fuel - (s.nSlots - s.current) - (s.current - 1) - 1 + 1 + (s.current - 1) := by omega
    rw [bitmapNextFree, hsplit fuel hfuel, ht, if_neg hzero, hsplit', hu,
      nextFreeLoop_used _ (by omega) hbit, if_pos hback]

theorem grows_nextFreeLoop {fuel : Nat} {r : Bool} (h : nextFreeLoop fuel c s = pure (r, t)) :
    Grows (s.look c) t := by
  induction fuel generalizing c s with
  | zero => cases h
  | succ fuel ih =>
    unfold nextFreeLoop at h
    split_ifs at h
    · cases h
    · cases eq_of_pure_eq h
      exact Grows.refl _
    · exact (grows_look _ _).trans (ih h)
    · cases eq_of_pure_eq h
      exact ⟨List.Subset.refl _, rfl⟩

end NextFree

/-! ## Free runs -/

section Runs

/-- The loop tells whether the rest of the slots is free. -/
theorem hasSpaceLoop_spec {n i : Nat} (hle : s.current + i + n ≤ s.nSlots) (hn : s.nSlots < 2 ^ 28) :
    ∃ b t, hasSpaceLoop n i s = (b, t) ∧ Moved s s.current t ∧
      (b = true ↔ ∀ j < n, s.bit (s.current + i + j) = false) := by
  induction n generalizing i s with
  | zero => exact ⟨true, s, rfl, Moved.refl s, iff_of_true rfl fun j hj => absurd hj (Nat.not_lt_zero j)⟩
  | succ n ih =>
    have hpos : u4 (s.current + i) = s.current + i := u4_of_lt (by omega)
    have hlook := @moved_look s (s.current + i) (by omega)
    rw [hasSpaceLoop, hpos]
    by_cases hbit : s.bit (s.current + i) = true
    · refine ⟨false, _, if_pos hbit, hlook, iff_of_false Bool.false_ne_true fun h => ?_⟩
      have hfree := h 0 (Nat.succ_pos n)
      rw [Nat.add_zero, hbit] at hfree
      cases hfree
    · obtain ⟨b, t, hrun, hmoved, hiff⟩ := @ih (s.look (s.current + i)) (i + 1)
        (show s.current + (i + 1) + n ≤ s.nSlots by omega) hn
      refine ⟨b, t, (if_neg hbit).trans hrun, hlook.trans hmoved, hiff.trans ?_⟩
      constructor
      · intro h j hj
        cases j with
        | zero => exact Bool.eq_false_iff.mpr hbit
        | succ j =>
          have hfree := h j (Nat.lt_of_succ_lt_succ hj)
          rwa [show s.current + i + (j + 1) = s.current + (i + 1) + j by omega]
      · intro h j hj
        have hfree := h (j + 1) (Nat.succ_lt_succ hj)
        rwa [show s.current + i + (j + 1) = s.current + (i + 1) + j by omega] at hfree

/-- `bitmap_has_space` tells whether the run at the cursor is free. -/
theorem bitmapHasSpace_spec (hn : s.nSlots < 2 ^ 28) (hc : s.current + k < 2 ^ 32) :
    ∃ b t, bitmapHasSpace s k = (b, t) ∧ Moved s s.current t ∧
      (b = true ↔ (s.ring k).FreeRun s.current) := by
  rw [bitmapHasSpace, u4_of_lt hc]
  by_cases hle : s.current + k ≤ s.nSlots
  · obtain ⟨b, t, hrun, hmoved, hiff⟩ := @hasSpaceLoop_spec s k 0 hle hn
    refine ⟨b, t, (if_neg (Nat.not_lt.mpr hle)).trans hrun, hmoved, hiff.trans ?_⟩
    constructor
    · intro h
      exact ⟨hle, h⟩
    · intro h
      exact h.2
  · refine ⟨false, s, if_pos (Nat.lt_of_not_le hle), Moved.refl s, ?_⟩
    exact iff_of_false Bool.false_ne_true fun h => hle h.1

/-- The slots `c`, …, `c + k - 1` have been marked, and the cursor is behind them. -/
def Marked (s : Mem) (c k : Nat) (t : Mem) : Prop :=
  ∃ l, t = { s with
    map := s.map.setRun c k
    current := c + k
    freeSlots := u4 (2 ^ 32 + s.freeSlots - k)
    reads := l ++ s.reads } ∧ ∀ i ∈ l, i < s.nSlots

theorem markLoop_spec {n i : Nat} (hle : s.current + i + n ≤ s.nSlots) (hn : s.nSlots < 2 ^ 28) :
    ∃ l, markLoop n i s =
        { s with map := s.map.setRun (s.current + i) n, reads := l ++ s.reads } ∧
      ∀ b ∈ l, b < s.nSlots := by
  induction n generalizing i s with
  | zero => exact ⟨[], rfl, List.forall_mem_nil _⟩
  | succ n ih =>
    have hpos : u4 (s.current + i) = s.current + i := u4_of_lt (by omega)
    rw [markLoop, hpos]
    obtain ⟨l, hrun, hl⟩ := @ih
      { s.look (s.current + i) with map := s.map.setBit (s.current + i) } (i + 1)
      (show s.current + (i + 1) + n ≤ s.nSlots by omega) hn
    refine ⟨l ++ [s.current + i], ?_, fun b hb => ?_⟩
    · rw [hrun, List.append_assoc]
      rfl
    · rcases List.mem_append.mp hb with hnew | hlast
      · exact hl b hnew
      · rw [List.mem_singleton.mp hlast]
        omega

theorem bitmapMark_spec (hn : s.nSlots < 2 ^ 28) (hle : s.current + k ≤ s.nSlots) :
    ∃ t, bitmapMark s k = pure (u4 (s.heap + s.current * slotSize), t) ∧ Marked s s.current k t := by
  obtain ⟨l, hrun, hl⟩ := @markLoop_spec s k 0 hle hn
  have hcur : u4 (s.current + k) = s.current + k := u4_of_lt (by omega)
  refine ⟨_, ?_, l, rfl, hl⟩
  simp only [bitmapMark, hcur, assert_pos hle, pure_bind, hrun, Nat.add_zero]

/-- Slots that were free are taken, and counted. -/
theorem Marked.right (h : Marked s c k t) (hs : Sound s) (hn : s.nSlots < 2 ^ 28)
    (hrun : (s.ring k).FreeRun c) : Takes s t c k ∧ Sound t := by
  obtain ⟨l, rfl, hl⟩ := h
  have hcount := Bytes.clearCount_setRun hrun.1 hrun.2
  have hle := Bytes.clearCount_le s.map s.nSlots
  refine ⟨fun j => Bytes.getBit_setRun s.map c k j, ?_, fun i hi => ?_⟩
  · show u4 (2 ^ 32 + s.freeSlots - k) = (s.map.setRun c k).clearCount s.nSlots
    change (s.map.setRun c k).clearCount s.nSlots + k = s.map.clearCount s.nSlots at hcount
    rw [hs.counted]
    simp only [u4]
    omega
  · rcases List.mem_append.mp hi with hnew | hold
    · exact hl i hnew
    · exact hs.inside i hold

/-- The slots are marked behind a move of the cursor. -/
theorem Moved.marked {d : Nat} (h : Moved s d t) (h' : Marked t c k u) :
    Marked s c k u := by
  obtain ⟨l, rfl, hl⟩ := h
  obtain ⟨l', rfl, hl'⟩ := h'
  refine ⟨l' ++ l, by rw [List.append_assoc], fun i hi => ?_⟩
  rcases List.mem_append.mp hi with hnew | hold
  · exact hl' i hnew
  · exact hl i hold

end Runs

/-! ## The search for a run -/

/-- The search for `need` slots from `c` on, in at most `n` rounds, stays in front of the end: it comes
to a free run, or each time it moves the cursor the place is a slot. -/
def Stays (r : Ring) : Nat → Nat → Prop
  | 0, _ => True
  | n + 1, c =>
    r.FreeRun c ∨
      c + r.need < r.size ∧ (r.AllUsed ∨ ∃ q, r.Lands (c + r.need) q ∧ Stays r n q)

section Search

/-- What `bitmap_alloc` has done. -/
def Allocated (s : Mem) (k : Nat) : Option Nat → Mem → Prop
  | none, t => ∃ c < 2 ^ 29, Moved s c t
  | some addr, t => ∃ c, (s.ring k).FreeRun c ∧ addr = u4 (s.heap + c * slotSize) ∧ Marked s c k t

theorem Moved.allocated {d : Nat} {r : Option Nat} (h : Moved s d t) (h' : Allocated t k r u) :
    Allocated s k r u := by
  cases r with
  | none =>
    obtain ⟨c, hc, hmoved⟩ := h'
    exact ⟨c, hc, h.trans hmoved⟩
  | some addr =>
    obtain ⟨c, hrun, haddr, hmarked⟩ := h'
    rw [h.ring] at hrun
    rw [h.heap] at haddr
    exact ⟨c, hrun, haddr, h.marked hmarked⟩

/-- A free run at the cursor is taken. -/
theorem allocLoop_of_freeRun (hn : s.nSlots < 2 ^ 28) (h : (s.ring k).FreeRun s.current) :
    ∃ t, Marked s s.current k t ∧ ∀ fuel i, allocLoop fuel k (i + 1) s =
      pure (some (u4 (s.heap + s.current * slotSize)), t) := by
  have hle : s.current + k ≤ s.nSlots := h.1
  obtain ⟨b, u, hspace, hmoved, hb⟩ := @bitmapHasSpace_spec s k hn (by omega)
  have hnSlots := hmoved.nSlots
  have hcur := hmoved.current
  obtain ⟨t, hmark, hmarked⟩ := @bitmapMark_spec u k (by omega) (by omega)
  rw [hcur] at hmarked
  refine ⟨t, hmoved.marked hmarked, fun fuel i => ?_⟩
  rw [allocLoop, hspace, hb.mpr h]
  simp only [if_true, hmark, pure_bind, hcur, hmoved.heap]

/-- Without a free run at the cursor the search goes on behind it. -/
theorem allocLoop_of_not_freeRun (hn : s.nSlots < 2 ^ 28) (hk : k < 2 ^ 28)
    (hc : s.current < 2 ^ 29) (h : ¬ (s.ring k).FreeRun s.current) :
    ∃ v, Moved s (s.current + k) v ∧ ∀ fuel i, allocLoop fuel k (i + 1) s =
      bitmapNextFree fuel v >>= fun x => if x.1 then allocLoop fuel k i x.2 else pure (none, x.2) := by
  obtain ⟨b, u, hspace, hmoved, hb⟩ := @bitmapHasSpace_spec s k hn (by omega)
  have hcur := hmoved.current
  have hfalse : b = false := Bool.eq_false_iff.mpr fun htrue => h (hb.mp htrue)
  have hsum : u4 (u.current + k) = s.current + k := by
    rw [hcur]
    exact u4_of_lt (by omega)
  refine ⟨{ u with current := s.current + k }, hmoved.trans (moved_current u _), fun fuel i => ?_⟩
  rw [allocLoop, hspace, hfalse]
  simp only [Bool.false_eq_true, if_false, hsum]

/-- A search that stays in front of the end comes back, and is right. -/
theorem allocLoop_of_stays (hn : s.nSlots < 2 ^ 28) (hk : k < 2 ^ 28) (hc : s.current < 2 ^ 29) {i : Nat}
    (h : Stays (s.ring k) i s.current) :
    ∃ r t, Allocated s k r t ∧ ∀ fuel > 2 * s.nSlots, allocLoop fuel k i s = pure (r, t) := by
  induction i generalizing s with
  | zero => exact ⟨none, s, ⟨s.current, hc, Moved.refl s⟩, fun _ _ => rfl⟩
  | succ i ih =>
    by_cases hrun : (s.ring k).FreeRun s.current
    · obtain ⟨t, hmarked, ht⟩ := allocLoop_of_freeRun hn hrun
      exact ⟨some _, t, ⟨s.current, hrun, rfl, hmarked⟩, fun fuel _ => ht fuel i⟩
    · obtain ⟨hlt, hrest⟩ := h.resolve_left hrun
      change s.current + k < s.nSlots at hlt
      obtain ⟨v, hmoved, hv⟩ := allocLoop_of_not_freeRun hn hk hc hrun
      have hnSlots := hmoved.nSlots
      have hcur := hmoved.current
      rcases hrest with hall | ⟨q, hlands, hstays⟩
      · rw [← hmoved.ring] at hall
        obtain ⟨w, hmoved', hw⟩ := @bitmapNextFree_allUsed v k (by omega) (by omega) hall
        rw [hcur] at hmoved'
        refine ⟨none, w, ⟨s.current + k, by omega, hmoved.trans hmoved'⟩, fun fuel hfuel => ?_⟩
        rw [hv, hw fuel (by omega)]
        rfl
      · have hq := hlands.lt
        change q < s.nSlots at hq
        change (s.ring k).Lands (s.current + k) q at hlands
        rw [← hmoved.ring, ← hcur] at hlands
        obtain ⟨w, hmoved', hw⟩ := @bitmapNextFree_lands v k q (by omega) hlands
        have hback := hmoved.trans hmoved'
        have hnSlots' := hback.nSlots
        rw [← hback.ring, ← hback.current] at hstays
        obtain ⟨r, t, halloc, ht⟩ := @ih w (by omega) (by rw [hback.current]; omega) hstays
        refine ⟨r, t, hback.allocated halloc, fun fuel hfuel => ?_⟩
        rw [hv, hw fuel (by omega)]
        exact ht fuel (by omega)

theorem grows_hasSpaceLoop (n i : Nat) (s : Mem) : Grows s (hasSpaceLoop n i s).2 := by
  induction n generalizing i s with
  | zero => exact Grows.refl s
  | succ n ih =>
    unfold hasSpaceLoop
    split_ifs
    · exact grows_look s _
    · exact (grows_look s _).trans (ih (i + 1) _)

theorem grows_bitmapHasSpace (s : Mem) (k : Nat) : Grows s (bitmapHasSpace s k).2 := by
  unfold bitmapHasSpace
  split_ifs
  · exact Grows.refl s
  · exact grows_hasSpaceLoop k 0 s

theorem grows_markLoop (n i : Nat) (s : Mem) : Grows s (markLoop n i s) := by
  induction n generalizing i s with
  | zero => exact Grows.refl s
  | succ n ih =>
    have hstep : Grows s { s.look (u4 (s.current + i)) with
        map := s.map.setBit (u4 (s.current + i)) } := ⟨List.subset_cons_self _ _, rfl⟩
    exact hstep.trans (ih (i + 1) _)

theorem grows_bitmapMark {addr : Nat} (h : bitmapMark s k = pure (addr, t)) : Grows s t := by
  obtain ⟨_, -, hrest⟩ := bind_eq_pure h
  have heq := (Prod.mk.inj (eq_of_pure_eq hrest)).2
  have hloop := grows_markLoop k 0 s
  rw [← heq]
  exact ⟨hloop.reads, hloop.nSlots⟩

theorem grows_allocLoop {fuel i : Nat} {r : Option Nat} (h : allocLoop fuel k i s = pure (r, t)) :
    Grows s t := by
  induction i generalizing s with
  | zero =>
    obtain rfl : s = t := (Prod.mk.inj (eq_of_pure_eq h)).2
    exact Grows.refl s
  | succ i ih =>
    have hspace := grows_bitmapHasSpace s k
    rw [allocLoop] at h
    simp only at h
    split_ifs at h
    · obtain ⟨⟨addr, u⟩, hmark, hrest⟩ := bind_eq_pure h
      cases eq_of_pure_eq hrest
      exact hspace.trans (grows_bitmapMark hmark)
    · obtain ⟨⟨found, w⟩, hnext, hrest⟩ := bind_eq_pure h
      -- the cursor moves without a read
      have hmove : Grows (bitmapHasSpace s k).2 { (bitmapHasSpace s k).2 with
          current := u4 ((bitmapHasSpace s k).2.current + k) } := ⟨List.Subset.refl _, rfl⟩
      have hnext' := (grows_look _ _).trans (grows_nextFreeLoop hnext)
      have hgrows := (hspace.trans hmove).trans hnext'
      simp only at hrest
      split_ifs at hrest
      · exact hgrows.trans (ih hrest)
      · cases eq_of_pure_eq hrest
        exact hgrows

/-- A search that does not stay in front of the end reads a bit behind it. -/
theorem exists_read_outside (hn : s.nSlots < 2 ^ 28) (hk : k < 2 ^ 28) (hc : s.current < 2 ^ 29)
    {i fuel : Nat} (hfuel : 2 * s.nSlots < fuel) (h : ¬ Stays (s.ring k) i s.current)
    {r : Option Nat} (hcall : allocLoop fuel k i s = pure (r, t)) : ∃ j ∈ t.reads, s.nSlots ≤ j := by
  induction i generalizing s with
  | zero => exact absurd trivial h
  | succ i ih =>
    obtain ⟨hrun, hrest⟩ := not_or.mp h
    obtain ⟨v, hmoved, hv⟩ := allocLoop_of_not_freeRun hn hk hc hrun
    have hnSlots := hmoved.nSlots
    have hcur := hmoved.current
    rw [hv] at hcall
    by_cases hlt : s.current + k < s.nSlots
    · obtain ⟨hall, hgo⟩ := not_or.mp fun hor => hrest ⟨hlt, hor⟩
      obtain ⟨q, hlands⟩ := Ring.exists_lands (r := s.ring k) hlt hall
      have hq := hlands.lt
      change q < s.nSlots at hq
      have hlands' := hlands
      rw [← hmoved.ring, ← hcur] at hlands'
      obtain ⟨w, hmoved', hw⟩ := @bitmapNextFree_lands v k q (by omega) hlands'
      have hback := hmoved.trans hmoved'
      have hnSlots' := hback.nSlots
      rw [hw fuel (by omega)] at hcall
      have hstays : ¬ Stays (w.ring k) i w.current := by
        rw [hback.ring, hback.current]
        exact fun hstays => hgo ⟨q, hlands, hstays⟩
      obtain ⟨j, hj, hout⟩ := ih (by omega) (by rw [hback.current]; omega) (by omega) hstays hcall
      exact ⟨j, hj, by omega⟩
    · -- the first bit that is read now
      obtain ⟨⟨found, w⟩, hnext, hrest⟩ := bind_eq_pure hcall
      have hread : v.current ∈ w.reads := (grows_nextFreeLoop hnext).reads List.mem_cons_self
      refine ⟨v.current, ?_, by omega⟩
      simp only at hrest
      split_ifs at hrest
      · exact (grows_allocLoop hrest).reads hread
      · cases eq_of_pure_eq hrest
        exact hread

end Search

/-! ## The condition -/

/-- The size is not so large that rounding wraps, and the search stays in front of the end; the part of
the bitmap that is not cleared is clear; and for an object whose slots are free the address is that of
its first slot, and the caller finds a result other than zero. -/
def Good (s : Mem) : Op → Prop
  | .alloc size => s.nSlots / 2 = 0 ∨
      size.toNat + 15 < 2 ^ 32 ∧ Stays (s.ring (slotsFor size.toNat)) (s.nSlots / 2) s.current
  | .clear => ∀ i < s.nSlots, s.mapSize ≤ i / 8 → s.bit i = false
  | .markAddr addr size eax =>
    (s.ring (bytes2Slots (u4 (size.toNat * 4)))).FreeRun (s.slotOf addr.toNat) →
      addr.toNat = u4 (s.heap + s.slotOf addr.toNat * slotSize) ∧
        if size.toNat * 4 + 15 < 2 ^ 32 then eax.toNat ≠ 0
        else bytes2Slots (u4 (size.toNat * 4)) = 0 ∧ eax.toNat = 0

/-- There are fewer slots than memory has, and the cursor is not far away. -/
structure Small (s : Mem) : Prop where
  nSlots : s.nSlots < 2 ^ 28
  current : s.current < 2 ^ 29

theorem bytes2Slots_eq {size : Nat} (h : size + 15 < 2 ^ 32) : bytes2Slots size = slotsFor size := by
  unfold bytes2Slots slotsFor slotSize
  rw [u4_of_lt (by omega)]

theorem bytes2Slots_lt (size : Nat) : bytes2Slots size < 2 ^ 28 := by
  unfold bytes2Slots slotSize u4
  omega

/-- A size close to the end of the address space is rounded to nothing. -/
theorem bytes2Slots_eq_zero {size : Nat} (hlt : size < 2 ^ 32) (h : ¬ size + 15 < 2 ^ 32) :
    bytes2Slots size = 0 := by
  unfold bytes2Slots slotSize u4
  omega

/-- No heap has that many slots. -/
theorem Small.not_freeRun (hs : Small s) {size : Nat} (h : ¬ size + 15 < 2 ^ 32) (c : Nat) :
    ¬ (s.ring (slotsFor size)).FreeRun c := by
  intro hrun
  have hle : c + slotsFor size ≤ s.nSlots := hrun.1
  have hsmall := hs.nSlots
  unfold slotsFor slotSize at hle
  omega

theorem Takes.refl (s : Mem) : Takes s s 0 0 := (Moved.refl s).takes

/-- What was allocated is right if the size was not rounded to nothing. -/
theorem Allocated.right {r : Option Nat} {size : Nat} (h : Allocated s (slotsFor size) r t)
    (hs : Sound s) (hn : s.nSlots < 2 ^ 28) : AllocRight s size r t ∧ Sound t := by
  cases r with
  | none =>
    obtain ⟨c, -, hmoved⟩ := h
    exact ⟨hmoved.takes, hmoved.sound hs⟩
  | some addr =>
    obtain ⟨c, hrun, haddr, hmarked⟩ := h
    obtain ⟨htakes, hsound⟩ := hmarked.right hs hn hrun
    exact ⟨⟨c, hrun, haddr, htakes⟩, hsound⟩

theorem Moved.small (h : Moved s c t) (hn : s.nSlots < 2 ^ 28) (hc : c < 2 ^ 29) : Small t := by
  refine ⟨?_, ?_⟩
  · rw [h.nSlots]
    exact hn
  · rw [h.current]
    exact hc

theorem Marked.small (h : Marked s c k t) (hn : s.nSlots < 2 ^ 28) (hle : c + k ≤ s.nSlots) :
    Small t := by
  obtain ⟨l, rfl, -⟩ := h
  exact ⟨hn, show c + k < 2 ^ 29 by omega⟩

theorem Allocated.small {r : Option Nat} (h : Allocated s k r t) (hn : s.nSlots < 2 ^ 28) :
    Small t := by
  cases r with
  | none =>
    obtain ⟨c, hc, hmoved⟩ := h
    exact hmoved.small hn hc
  | some addr =>
    obtain ⟨c, hrun, -, hmarked⟩ := h
    exact hmarked.small hn hrun.1

/-- An allocation that meets its condition. -/
theorem alloc_of_good (hs : Sound s) (hsmall : Small s) {size : BitVec 32}
    (h : Good s (.alloc size)) :
    ∃ r t, Returns (fun fuel => bitmapAlloc fuel s size.toNat) (r, t) ∧
      AllocRight s size.toNat r t ∧ Sound t ∧ Small t := by
  rcases h with hzero | ⟨hsize, hstays⟩
  · refine ⟨none, s, ⟨0, fun fuel _ => ?_⟩, Takes.refl s, hs, hsmall⟩
    show allocLoop fuel (bytes2Slots size.toNat) (s.nSlots / 2) s = pure (none, s)
    rw [hzero]
    rfl
  · have hk := bytes2Slots_lt size.toNat
    rw [← bytes2Slots_eq hsize] at hstays
    obtain ⟨r, t, halloc, ht⟩ := allocLoop_of_stays hsmall.nSlots hk hsmall.current hstays
    have hsmall' := halloc.small hsmall.nSlots
    rw [bytes2Slots_eq hsize] at halloc
    obtain ⟨hright, hsound⟩ := halloc.right hs hsmall.nSlots
    exact ⟨r, t, ⟨2 * s.nSlots + 1, fun fuel hfuel => ht fuel hfuel⟩, hright, hsound, hsmall'⟩

/-- The search for nothing comes back with an address. -/
theorem allocLoop_zero (hn : s.nSlots < 2 ^ 28) {i : Nat} (h : Stays (s.ring 0) (i + 1) s.current) :
    ∃ t addr, ∀ fuel, allocLoop fuel 0 (i + 1) s = pure (some addr, t) := by
  have hle : s.current ≤ s.nSlots := by
    rcases h with hrun | ⟨hlt, -⟩
    · exact hrun.1
    · exact Nat.le_of_lt hlt
  have hrun : (s.ring 0).FreeRun s.current := ⟨hle, fun j hj => absurd hj (Nat.not_lt_zero j)⟩
  obtain ⟨t, -, ht⟩ := allocLoop_of_freeRun hn hrun
  exact ⟨t, _, fun fuel => ht fuel i⟩

theorem meets_alloc_iff (hs : Sound s) (hsmall : Small s) (size : BitVec 32) :
    Meets s (.alloc size) ↔ Good s (.alloc size) := by
  have hk := bytes2Slots_lt size.toNat
  constructor
  · rintro ⟨r, t, ⟨n, hn⟩, hright, hsound⟩
    by_cases hzero : s.nSlots / 2 = 0
    · exact Or.inl hzero
    · have hcall : bitmapAlloc (n + 2 * s.nSlots + 1) s size.toNat = pure (r, t) :=
        hn _ (by omega)
      have hstays : Stays (s.ring (bytes2Slots size.toNat)) (s.nSlots / 2) s.current := by
        by_contra hno
        obtain ⟨j, hj, hout⟩ :=
          exists_read_outside hsmall.nSlots hk hsmall.current (by omega) hno hcall
        have hin := hsound.inside j hj
        rw [(grows_allocLoop hcall).nSlots] at hin
        exact Nat.not_lt.mpr hout hin
      by_cases hsize : size.toNat + 15 < 2 ^ 32
      · rw [bytes2Slots_eq hsize] at hstays
        exact Or.inr ⟨hsize, hstays⟩
      · -- a run of no slots has been found, and was called a run of many
        obtain ⟨i, hi⟩ := Nat.exists_eq_succ_of_ne_zero hzero
        rw [bytes2Slots_eq_zero size.isLt hsize, hi] at hstays
        obtain ⟨u, addr, hu⟩ := allocLoop_zero hsmall.nSlots hstays
        unfold bitmapAlloc at hcall
        rw [bytes2Slots_eq_zero size.isLt hsize, hi, hu] at hcall
        cases eq_of_pure_eq hcall
        obtain ⟨c, hrun, -⟩ := hright
        exact absurd hrun (hsmall.not_freeRun hsize c)
  · intro h
    obtain ⟨r, t, hreturns, hright, hsound, -⟩ := alloc_of_good hs hsmall h
    exact ⟨r, t, hreturns, hright, hsound⟩

theorem meets_clear_iff (hs : Sound s) : Meets s .clear ↔ Good s .clear := by
  have hbit : ∀ i, (bitmapClear s).bit i = false ↔ s.mapSize ≤ i / 8 → s.bit i = false := by
    intro i
    by_cases hi : i / 8 < s.mapSize
    · exact iff_of_true (Bytes.getBit_zero s.map hi) fun h => absurd hi (Nat.not_lt.mpr h)
    · have hsame : (bitmapClear s).bit i = s.bit i := Bytes.getBit_congr (if_neg hi)
      rw [hsame]
      exact ⟨fun h _ => h, fun h => h (Nat.le_of_not_lt hi)⟩
  constructor
  · intro h i hi
    have hcount : (bitmapClear s).map.clearCount s.nSlots = s.nSlots := h.counted.symm
    exact (hbit i).mp (Bytes.clearCount_eq_iff.mp hcount i hi)
  · intro h
    refine ⟨?_, hs.inside⟩
    have hclear : ∀ i < s.nSlots, (bitmapClear s).map.getBit i = false :=
      fun i hi => (hbit i).mpr (h i hi)
    exact (Bytes.clearCount_of_clear hclear).symm

theorem slotOf_lt (s : Mem) (addr : Nat) : s.slotOf addr < 2 ^ 28 := by
  unfold Mem.slotOf slotSize u4
  omega

/-- Slots that are not free are left, and the result is zero. -/
theorem bitmapMarkAddr_of_not_freeRun (hsmall : Small s) {addr size : Nat} (eax : Nat)
    (h : ¬ (s.ring (bytes2Slots (u4 (size * 4)))).FreeRun (s.slotOf addr)) :
    ∃ t, bitmapMarkAddr s addr size eax = pure (0, t) ∧ Moved s (s.slotOf addr) t := by
  have hk := bytes2Slots_lt (u4 (size * 4))
  have hc := slotOf_lt s addr
  have hcur := moved_current s (s.slotOf addr)
  obtain ⟨b, u, hspace, hmoved, hb⟩ := @bitmapHasSpace_spec { s with current := s.slotOf addr }
    (bytes2Slots (u4 (size * 4))) hsmall.nSlots (show s.slotOf addr + _ < 2 ^ 32 by omega)
  have hfalse : b = false := Bool.eq_false_iff.mpr fun htrue => h (hb.mp htrue)
  refine ⟨u, ?_, hcur.trans hmoved⟩
  simp only [bitmapMarkAddr, hspace, hfalse, Bool.false_eq_true, if_false]

/-- Free slots are marked; then the address is compared. -/
theorem bitmapMarkAddr_of_freeRun (hsmall : Small s) {addr size : Nat} (eax : Nat)
    (h : (s.ring (bytes2Slots (u4 (size * 4)))).FreeRun (s.slotOf addr)) :
    ∃ t, Marked s (s.slotOf addr) (bytes2Slots (u4 (size * 4))) t ∧
      bitmapMarkAddr s addr size eax =
        assert (addr = u4 (s.heap + s.slotOf addr * slotSize)) "0" >>= fun _ => pure (eax, t) := by
  have hn := hsmall.nSlots
  have hle : s.slotOf addr + bytes2Slots (u4 (size * 4)) ≤ s.nSlots := h.1
  have hcur := moved_current s (s.slotOf addr)
  obtain ⟨b, u, hspace, hmoved, hb⟩ := @bitmapHasSpace_spec { s with current := s.slotOf addr }
    (bytes2Slots (u4 (size * 4))) hn (show s.slotOf addr + _ < 2 ^ 32 by omega)
  have hall := hcur.trans hmoved
  have hslot : u.current = s.slotOf addr := hall.current
  obtain ⟨t, hmark, hmarked⟩ := @bitmapMark_spec u (bytes2Slots (u4 (size * 4)))
    (by rw [hall.nSlots]; exact hn) (by rw [hslot, hall.nSlots]; exact hle)
  rw [hslot] at hmarked
  refine ⟨t, hall.marked hmarked, ?_⟩
  simp only [bitmapMarkAddr, hspace, hb.mpr h, if_true, hmark, pure_bind, hslot, hall.heap]

/-- The slots of an object whose size is not rounded to nothing. -/
theorem slots_eq {size : Nat} (h : size * 4 + 15 < 2 ^ 32) :
    bytes2Slots (u4 (size * 4)) = slotsFor (size * 4) := by
  rw [u4_of_lt (by omega), bytes2Slots_eq h]

theorem takes_zero_iff (c : Nat) : Takes s t c 0 ↔ Takes s t 0 0 := by
  have hnone : ∀ d j, decide (d ≤ j ∧ j < d + 0) = false := by
    intro d j
    apply decide_eq_false
    omega
  unfold Takes
  simp only [hnone]

/-- A run that is taken is not left as it was. -/
theorem eq_zero_of_takes (hrun : (s.ring k).FreeRun c) (h : Takes s t c k) (h' : Takes s t 0 0) :
    k = 0 := by
  by_contra hne
  have hpos := Nat.pos_of_ne_zero hne
  have hfree : s.bit (c + 0) = false := hrun.2 0 hpos
  have hset := (h c).symm.trans (h' c)
  have hin : c ≤ c ∧ c < c + k := ⟨Nat.le_refl c, by omega⟩
  have hout : ¬ (0 ≤ c ∧ c < 0 + 0) := by omega
  rw [decide_eq_true hin, decide_eq_false hout, Bool.true_or, Bool.false_or] at hset
  rw [Nat.add_zero] at hfree
  exact Bool.false_ne_true (hfree.symm.trans hset.symm)

theorem meets_markAddr_iff (hs : Sound s) (hsmall : Small s) (addr size eax : BitVec 32) :
    Meets s (.markAddr addr size eax) ↔ Good s (.markAddr addr size eax) := by
  by_cases hrun : (s.ring (bytes2Slots (u4 (size.toNat * 4)))).FreeRun (s.slotOf addr.toNat)
  · obtain ⟨t, hmarked, hcall⟩ := bitmapMarkAddr_of_freeRun hsmall eax.toNat hrun
    obtain ⟨htakes, hsound⟩ := hmarked.right hs hsmall.nSlots hrun
    constructor
    · rintro ⟨r, t', hcall', hright, -⟩ -
      rw [hcall] at hcall'
      obtain ⟨_, hassert, hrest⟩ := bind_eq_pure hcall'
      cases eq_of_pure_eq hrest
      have haddr : addr.toNat = u4 (s.heap + s.slotOf addr.toNat * slotSize) := by
        by_contra hne
        rw [assert, if_neg hne] at hassert
        cases hassert
      refine ⟨haddr, ?_⟩
      split_ifs with hsize
      · rw [slots_eq hsize] at hrun
        exact (hright.1 hrun).1
      · obtain ⟨hzero, hsame⟩ := hright.2 (hsmall.not_freeRun hsize _)
        exact ⟨eq_zero_of_takes hrun htakes hsame, hzero⟩
    · intro h
      obtain ⟨haddr, hresult⟩ := h hrun
      refine ⟨eax.toNat, t, ?_, ?_, hsound⟩
      · rw [hcall, assert_pos haddr, pure_bind]
      · split_ifs at hresult with hsize
        · rw [slots_eq hsize] at hrun htakes
          exact ⟨fun _ => ⟨hresult, htakes⟩, fun hno => absurd hrun hno⟩
        · obtain ⟨hk, hzero⟩ := hresult
          rw [hk, takes_zero_iff] at htakes
          exact ⟨fun hno => absurd hno (hsmall.not_freeRun hsize _), fun _ => ⟨hzero, htakes⟩⟩
  · refine iff_of_true ?_ fun h => absurd h hrun
    obtain ⟨t, hcall, hmoved⟩ := bitmapMarkAddr_of_not_freeRun hsmall eax.toNat hrun
    refine ⟨0, t, hcall, ⟨fun hfree => absurd hfree ?_, fun _ => ⟨rfl, hmoved.takes⟩⟩,
      hmoved.sound hs⟩
    by_cases hsize : size.toNat * 4 + 15 < 2 ^ 32
    · rw [← slots_eq hsize]
      exact hrun
    · exact hsmall.not_freeRun hsize _

theorem meets_iff (hs : Sound s) (hsmall : Small s) (op : Op) : Meets s op ↔ Good s op := by
  cases op with
  | alloc size => exact meets_alloc_iff hs hsmall size
  | clear => exact meets_clear_iff hs
  | markAddr addr size eax => exact meets_markAddr_iff hs hsmall addr size eax

/-! ## Runs -/

/-- The state after a call that meets the condition. -/
theorem small_step {op : Op} (hs : Sound s) (hsmall : Small s) (h : Good s op) (hstep : Step op s t) :
    Sound t ∧ Small t := by
  cases hstep with
  | alloc hcall =>
    obtain ⟨r, t', hreturns, -, hsound, hsmall'⟩ := alloc_of_good hs hsmall h
    obtain rfl := (Prod.mk.inj (hcall.unique hreturns)).2
    exact ⟨hsound, hsmall'⟩
  | clear =>
    refine ⟨(meets_clear_iff hs).mpr h, hsmall.nSlots, ?_⟩
    exact Nat.two_pow_pos 29
  | @markAddr _ _ addr size eax r hcall =>
    have hn := hsmall.nSlots
    by_cases hrun : (s.ring (bytes2Slots (u4 (size.toNat * 4)))).FreeRun (s.slotOf addr.toNat)
    · obtain ⟨t', hmarked, hcall'⟩ := bitmapMarkAddr_of_freeRun hsmall eax.toNat hrun
      rw [hcall'] at hcall
      obtain ⟨_, -, hrest⟩ := bind_eq_pure hcall
      obtain rfl := (Prod.mk.inj (eq_of_pure_eq hrest)).2
      exact ⟨(hmarked.right hs hn hrun).2, hmarked.small hn hrun.1⟩
    · obtain ⟨t', hcall', hmoved⟩ := bitmapMarkAddr_of_not_freeRun hsmall eax.toNat hrun
      rw [hcall'] at hcall
      obtain rfl := (Prod.mk.inj (eq_of_pure_eq hcall)).2
      have hc := slotOf_lt s addr.toNat
      exact ⟨hmoved.sound hs, hmoved.small hn (by omega)⟩

theorem each_iff (hs : Sound s) (hsmall : Small s) (ops : List Op) :
    Each Meets s ops ↔ Each Good s ops := by
  induction ops generalizing s with
  | nil => exact Iff.rfl
  | cons op ops ih =>
    unfold Each
    rw [meets_iff hs hsmall]
    refine and_congr_right fun hgood => forall_congr' fun t => imp_congr_right fun hstep => ?_
    obtain ⟨hsound, hsmall'⟩ := small_step hs hsmall hgood hstep
    exact ih hsound hsmall'

theorem gcBitmapInit_small {heapBytes start : Nat} {mem : Bytes}
    (h : gcBitmapInit heapBytes start mem = pure s) :
    Small s ∧ s.map = mem ∧ s.freeSlots = s.nSlots ∧ s.reads = [] := by
  unfold gcBitmapInit at h
  split_ifs at h
  · cases h
  all_goals
    cases pure_eq_ok.mp h
    refine ⟨⟨?_, Nat.two_pow_pos 29⟩, rfl, rfl, rfl⟩
    simp only [slotSize, u4]
    omega

/-- After the initialisation, each call of a sequence does what it should exactly if the memory of the
bitmap happened to be clear and each call meets its condition. -/
theorem correct_iff {heapBytes start : Nat} {mem : Bytes}
    (h : gcBitmapInit heapBytes start mem = pure s) (ops : List Op) :
    Correct s ops ↔ (∀ i < s.nSlots, mem.getBit i = false) ∧ Each Good s ops := by
  obtain ⟨hsmall, hmap, hfree, hreads⟩ := gcBitmapInit_small h
  have hsound : Sound s ↔ ∀ i < s.nSlots, mem.getBit i = false := by
    rw [← Bytes.clearCount_eq_iff, ← hmap]
    constructor
    · intro hs
      exact hs.counted.symm.trans hfree
    · intro hcount
      exact ⟨hfree.trans hcount.symm, by rw [hreads]; exact List.forall_mem_nil _⟩
  rw [Correct, ← hsound]
  exact and_congr_right fun hs => each_iff hs hsmall ops

/-- The heap of 768 slots that a small size gives, with clear memory. -/
def smallHeap : Mem where
  map := fun _ => 0
  mapSize := 4096
  heap := 0x201000
  nSlots := 768
  current := 0
  freeSlots := 768
  reads := []

theorem gcBitmapInit_smallHeap : gcBitmapInit 1 0x200000 (fun _ => 0) = pure smallHeap := rfl

theorem small_smallHeap : Small smallHeap := ⟨by decide, by decide⟩

theorem bit_smallHeap (i : Nat) : smallHeap.bit i = false := by
  rw [Mem.bit, Bytes.getBit_eq]
  exact BitVec.getLsbD_zero

theorem sound_smallHeap : Sound smallHeap :=
  ⟨(Bytes.clearCount_of_clear fun i _ => bit_smallHeap i).symm, List.forall_mem_nil _⟩

/-- Two slots are taken from the clear heap. -/
theorem good_smallHeap : Good smallHeap (.alloc 32) := by
  refine .inr ⟨by decide, .inl ⟨by decide, fun j _ => ?_⟩⟩
  exact bit_smallHeap (smallHeap.current + j)

/-- The map is cleared, and two slots are taken. -/
theorem correct_smallHeap : Correct smallHeap [.clear, .alloc 32] := by
  refine (correct_iff gcBitmapInit_smallHeap [.clear, .alloc 32]).mpr ⟨fun i _ => bit_smallHeap i, ?_⟩
  refine ⟨fun i _ _ => bit_smallHeap i, fun t hstep => ?_⟩
  cases hstep
  have hsame : bitmapClear smallHeap = smallHeap := by
    unfold bitmapClear
    congr 1
    funext i
    exact ite_self 0
  rw [hsame]
  exact ⟨good_smallHeap, fun _ _ => trivial⟩

/-- A request for 769 slots makes the cursor leave the heap. -/
theorem not_correct_large : ¬ Correct smallHeap [.alloc 12304] := by
  intro h
  have hgood := (meets_iff sound_smallHeap small_smallHeap (.alloc 12304)).mp h.2.1
  rcases hgood with hzero | ⟨-, hstays⟩
  · exact absurd hzero (by decide)
  · rcases hstays with hrun | ⟨hlt, -⟩
    · exact absurd hrun.1 (by decide)
    · exact absurd hlt (by decide)

end JxCore.GcBitmap
