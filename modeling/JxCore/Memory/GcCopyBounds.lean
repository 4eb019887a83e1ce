import JxCore.Memory.GcChunked

/-!
# Which words a copy touches

The copy routines of `gc_move.c` as lists of stores, word by word, so that one can ask where they read
and where they write. The routine for objects copies as many words as the whole block has, header
included, but starts at the first field: it goes three words beyond the object, on both sides.
`gc_new_allocHeap2` looks at the place where the new block starts and not at its end.
-/

namespace JxCore.GcCopy

open Exec
open GcNew (Gc Env Kind objsizeObject objsizeArray32bit objsizePortal)
open GcChunked (Heap chunkInfoWords)

/-! ## Stores -/

/-- One store of a copy routine. -/
inductive Store where
  | const (dst value : Nat)
  | copy (dst src : Nat)

namespace Store

def exec (g : Gc) : Store → Gc
  | const dst value => g.setWord dst value
  | copy dst src => g.setWord dst (g.mem src)

/-- The word that is written. -/
def target : Store → Nat
  | const dst _ => dst
  | copy dst _ => dst

/-- The word that is read. -/
def source : Store → Option Nat
  | const _ _ => none
  | copy _ src => some src

end Store

def run (l : List Store) (g : Gc) : Gc := l.foldl Store.exec g

theorem run_append (l l' : List Store) (g : Gc) : run (l ++ l') g = run l' (run l g) :=
  List.foldl_append

/-- `n` words, one after the other. -/
def words (dst src n : Nat) : List Store := (List.range n).map fun i => .copy (dst + i) (src + i)

/-- `gc_memcpy4` of words that do not overlap. -/
theorem run_words {dst src n : Nat} (h : dst + n ≤ src ∨ src + n ≤ dst) (g : Gc) :
    run (words dst src n) g = g.memcpy4 dst src n := by
  induction n with
  | zero =>
    have hnone : ∀ w, ¬ (dst ≤ w ∧ w < dst + 0) := by omega
    simp only [Gc.memcpy4, if_neg (hnone _)]
    rfl
  | succ n ih =>
    have hlast : words dst src (n + 1) = words dst src n ++ [.copy (dst + n) (src + n)] := by
      unfold words
      rw [List.range_succ, List.map_append]
      rfl
    rw [hlast, run_append, ih (by omega)]
    have hmem : (g.memcpy4 dst src n).mem (src + n) = g.mem (src + n) := if_neg (by omega)
    show (g.memcpy4 dst src n).setWord (dst + n) ((g.memcpy4 dst src n).mem (src + n)) = _
    rw [hmem]
    unfold Gc.setWord Gc.memcpy4
    congr 1
    funext w
    by_cases hw : w = dst + n
    · subst hw
      rw [if_pos rfl, if_pos (by omega), Nat.add_sub_cancel_left]
    · rw [if_neg hw]
      dsimp only
      by_cases hin : dst ≤ w ∧ w < dst + n
      · rw [if_pos hin, if_pos (by omega)]
      · rw [if_neg hin, if_neg (by omega)]

/-! ## The routines -/

/-- What is copied: an object with so many words of fields, an array with so many elements, a portal. -/
inductive Shape where
  | object (instanceSize : Nat)
  | array (size : Nat)
  | portal

namespace Shape

/-- The words that the block of such an object has. -/
def size : Shape → Nat
  | object n => objsizeObject n
  | array n => objsizeArray32bit n
  | portal => objsizePortal

/-- Flags, magic and vtable. -/
def header (kind : Kind) (dst srcObj : Nat) : List Store :=
  [.const dst kind.flags, .const (dst + 1) GcNew.magicObject, .copy (dst + 2) srcObj]

/-- The stores of the copy routine, into the block at `dst`. -/
def stores (dst srcObj : Nat) : Shape → List Store
  | object n => header .object dst srcObj ++ words (dst + 3) (srcObj + 1) (objsizeObject n)
  | array n => header .array dst srcObj ++
      [.copy (dst + 3) (srcObj + 1), .copy (dst + 4) (srcObj + 2)] ++ words (dst + 5) (srcObj + 3) n
  | portal => header .portal dst srcObj ++
      [.copy (dst + 3) (srcObj + 1), .copy (dst + 4) (srcObj + 2), .copy (dst + 5) (srcObj + 3)]

end Shape

theorem run_header (kind : Kind) (dst srcObj : Nat) (g : Gc) :
    run (Shape.header kind dst srcObj) g = GcNew.startCopy kind (dst + 2) srcObj g := rfl

/-- The new block and the words that are copied are apart. -/
theorem startCopy_mem {kind : Kind} {dst srcObj w : Nat} {g : Gc} (h : w < dst ∨ dst + 3 ≤ w) :
    (GcNew.startCopy kind (dst + 2) srcObj g).mem w = g.mem w := by
  simp only [GcNew.startCopy, Gc.setObjFlags, Gc.setObjMagic, Gc.setWord]
  rw [if_neg (by omega), if_neg (by omega), if_neg (by omega)]

section Routines

variable {env : Env} {dst srcObj p n : Nat} {g g' : Gc}

theorem shallowCopyObject_eq_run (h : GcNew.shallowCopyObject env dst srcObj g = pure (p, g'))
    (hapart : dst + (n + 7) ≤ srcObj ∨ srcObj + (n + 5) ≤ dst)
    (hn : (env.classDesc (g.mem srcObj)).instanceSize = n) :
    g' = run ((Shape.object n).stores dst srcObj) g := by
  obtain ⟨cl, hcl, hret⟩ := bind_eq_pure h
  obtain ⟨-, rfl⟩ := Prod.mk.inj (eq_of_pure_eq hret)
  have hsize : cl.instanceSize = n := by
    unfold GcNew.obj2ClassDesc at hcl
    split at hcl
    · rw [startCopy_mem (by omega)] at hcl
      rw [← eq_of_pure_eq hcl, hn]
    · cases hcl
  rw [hsize]
  unfold Shape.stores
  rw [run_append, run_header, run_words (by unfold objsizeObject; omega)]

theorem shallowCopyArray_eq_run (hn : GcNew.arraySize g srcObj = n)
    (hapart : dst + (n + 5) ≤ srcObj ∨ srcObj + (n + 3) ≤ dst) :
    (GcNew.shallowCopyArray dst srcObj g).2 = run ((Shape.array n).stores dst srcObj) g := by
  unfold Shape.stores
  rw [run_append, run_append, run_header, run_words (by omega)]
  unfold GcNew.shallowCopyArray
  dsimp only
  have hsize : ∀ v v', GcNew.arraySize (((GcNew.startCopy .array (dst + 2) srcObj g).setWord (dst + 3)
      v).setWord (dst + 4) v') srcObj = n := by
    intro v v'
    rw [← hn]
    simp only [GcNew.arraySize, Gc.setWord]
    rw [if_neg (by omega), if_neg (by omega), startCopy_mem (by omega)]
  rw [hsize]
  rfl

theorem shallowCopyPortal_eq_run :
    (GcNew.shallowCopyPortal dst srcObj g).2 = run (Shape.portal.stores dst srcObj) g := rfl

end Routines

/-! ## Inside the blocks -/

/-- Everything is read inside the block of the object and written inside the new one. -/
structure Confined (size dst srcObj : Nat) (l : List Store) : Prop where
  reads : ∀ s ∈ l, ∀ w ∈ s.source, srcObj ≤ w + 2 ∧ w + 2 < srcObj + size
  writes : ∀ s ∈ l, dst ≤ s.target ∧ s.target < dst + size

theorem mem_words {dst src n : Nat} {s : Store} (h : s ∈ words dst src n) :
    ∃ i < n, s = .copy (dst + i) (src + i) := by
  obtain ⟨i, hi, rfl⟩ := List.mem_map.mp h
  exact ⟨i, List.mem_range.mp hi, rfl⟩

section Confined

variable {size dst srcObj n : Nat} {l l' : List Store}

theorem Confined.append (h : Confined size dst srcObj l) (h' : Confined size dst srcObj l') :
    Confined size dst srcObj (l ++ l') where
  reads := by
    intro s hs
    rcases List.mem_append.mp hs with hs | hs
    · exact h.reads s hs
    · exact h'.reads s hs
  writes := by
    intro s hs
    rcases List.mem_append.mp hs with hs | hs
    · exact h.writes s hs
    · exact h'.writes s hs

theorem confined_nil : Confined size dst srcObj [] :=
  ⟨fun _ h => absurd h List.not_mem_nil, fun _ h => absurd h List.not_mem_nil⟩

theorem Confined.cons_copy {k j : Nat} (h : Confined size dst srcObj l) (hk : k < size)
    (hj : j + 2 < size) : Confined size dst srcObj (.copy (dst + k) (srcObj + j) :: l) where
  reads := by
    intro s hs w hw
    rcases List.mem_cons.mp hs with rfl | hs
    · obtain rfl := Option.some.inj hw
      omega
    · exact h.reads s hs w hw
  writes := by
    intro s hs
    rcases List.mem_cons.mp hs with rfl | hs
    · exact ⟨Nat.le_add_right dst k, Nat.add_lt_add_left hk dst⟩
    · exact h.writes s hs

theorem confined_header (kind : Kind) (hsize : 2 < size) :
    Confined size dst srcObj (Shape.header kind dst srcObj) where
  reads := by
    intro s hs w hw
    simp only [Shape.header, List.mem_cons, List.not_mem_nil, or_false] at hs
    rcases hs with rfl | rfl | rfl
    · cases hw
    · cases hw
    · obtain rfl := Option.some.inj hw
      omega
  writes := by
    intro s hs
    simp only [Shape.header, List.mem_cons, List.not_mem_nil, or_false] at hs
    rcases hs with rfl | rfl | rfl <;> simp only [Store.target] <;> omega

theorem confined_words {k j : Nat} (hk : k + n ≤ size) (hj : j + 2 + n ≤ size) :
    Confined size dst srcObj (words (dst + k) (srcObj + j) n) where
  reads := by
    intro s hs w hw
    obtain ⟨i, hi, rfl⟩ := mem_words hs
    obtain rfl := Option.some.inj hw
    omega
  writes := by
    intro s hs
    obtain ⟨i, hi, rfl⟩ := mem_words hs
    simp only [Store.target]
    omega

end Confined

/-- Only objects are copied beyond their end. -/
theorem confined_stores_iff (shape : Shape) (dst srcObj : Nat) :
    Confined shape.size dst srcObj (shape.stores dst srcObj) ↔ ∀ n, shape ≠ .object n := by
  cases shape with
  | object n =>
    refine iff_of_false (fun h => ?_) (fun h => h n rfl)
    -- the last word of the copy, three words behind the block
    have hmem : Store.copy (dst + 3 + (n + 3)) (srcObj + 1 + (n + 3)) ∈
        (Shape.object n).stores dst srcObj := by
      apply List.mem_append_right
      exact List.mem_map.mpr ⟨n + 3, List.mem_range.mpr (Nat.lt_succ_self _), rfl⟩
    have hlast := (h.writes _ hmem).2
    simp only [Store.target, Shape.size, objsizeObject] at hlast
    omega
  | array n =>
    refine iff_of_true ?_ nofun
    have hsize : (Shape.array n).size = n + 5 := rfl
    refine ((confined_header .array (by omega)).append ?_).append
      (confined_words (by omega) (by omega))
    exact (confined_nil.cons_copy (by omega) (by omega)).cons_copy (by omega) (by omega)
  | portal =>
    refine iff_of_true ?_ nofun
    have hsize : Shape.portal.size = 6 := rfl
    refine (confined_header .portal (by omega)).append ?_
    exact ((confined_nil.cons_copy (by omega) (by omega)).cons_copy (by omega) (by omega)).cons_copy
      (by omega) (by omega)

/-! ## The new blocks -/

/-- What is asked of the copying collectors. -/
inductive Operation where
  /-- An object is copied into a block of its size. -/
  | copy (shape : Shape) (dst srcObj : Nat)
  /-- `gc_new_allocHeap2`. -/
  | newAllocHeap2 (size : Nat) (g : Gc)
  /-- `gc_chunked_allocHeap2`. -/
  | chunkedAllocHeap2 (fuel objSize : Nat) (s : Heap)

namespace Operation

/-- The collector is at work: the target space is filled from its start. -/
def Wf : Operation → Prop
  | copy _ _ _ => True
  | newAllocHeap2 _ g => g.heap2 ≤ g.heapTop2
  | chunkedAllocHeap2 _ _ s => s.current2 = 0 ∨ s.currentChunk2 + chunkInfoWords ≤ s.current2

/-- Only the words of the object and of its new block are touched, and the new block is in the target
space. -/
def Inside : Operation → Prop
  | copy shape dst srcObj => Confined shape.size dst srcObj (shape.stores dst srcObj)
  | newAllocHeap2 size g => ∀ data g', GcNew.allocHeap2 size g = pure (data, g') →
      g.heap2 ≤ data ∧ data + size ≤ g.heapBorder2
  | chunkedAllocHeap2 fuel objSize s => ∀ data t,
      GcChunked.allocHeap2 fuel objSize s = pure (data, t) →
      t.currentChunk2 + chunkInfoWords ≤ data ∧ data + objSize ≤ t.endCurrentChunk2

/-- No ordinary object is copied, and the semispace has room for the block, or is overfull already. -/
def Fits : Operation → Prop
  | copy shape _ _ => ∀ n, shape ≠ .object n
  | newAllocHeap2 size g => g.heapBorder2 < g.heapTop2 ∨ g.heapTop2 + size ≤ g.heapBorder2
  | chunkedAllocHeap2 _ _ _ => True

end Operation

theorem newAllocHeap2_inside_iff {size : Nat} {g : Gc} (h : g.heap2 ≤ g.heapTop2) :
    (Operation.newAllocHeap2 size g).Inside ↔ (Operation.newAllocHeap2 size g).Fits := by
  simp only [Operation.Inside, Operation.Fits, GcNew.allocHeap2]
  constructor
  · intro hin
    by_cases hover : g.heapTop2 > g.heapBorder2
    · exact .inl hover
    · have hblock := hin g.heapTop2 { g with heapTop2 := g.heapTop2 + size } (if_neg hover)
      exact .inr hblock.2
  · intro hfits data g' hret
    split at hret
    · cases hret
    · obtain ⟨rfl, -⟩ := Prod.mk.inj (eq_of_pure_eq hret)
      exact ⟨h, by omega⟩

theorem tryAllocHeap2_inside {objSize fuel data : Nat} {s t : Heap}
    (hs : s.currentChunk2 + chunkInfoWords ≤ s.current2)
    (h : GcChunked.tryAllocHeap2 objSize fuel s = pure (data, t)) :
    t.currentChunk2 + chunkInfoWords ≤ data ∧ data + objSize ≤ t.endCurrentChunk2 := by
  induction fuel generalizing s with
  | zero => cases h
  | succ fuel ih =>
    unfold GcChunked.tryAllocHeap2 at h
    dsimp only at h
    split at h
    · obtain ⟨⟨chunk, u⟩, -, hnext⟩ := bind_eq_pure h
      exact ih (Nat.le_refl _) hnext
    next hfree =>
      obtain ⟨rfl, rfl⟩ := Prod.mk.inj (eq_of_pure_eq h)
      exact ⟨hs, Nat.le_of_lt (Nat.lt_of_not_le hfree)⟩

theorem chunkedAllocHeap2_inside {objSize fuel : Nat} {s : Heap}
    (hs : s.current2 = 0 ∨ s.currentChunk2 + chunkInfoWords ≤ s.current2) :
    (Operation.chunkedAllocHeap2 fuel objSize s).Inside := by
  intro data t h
  obtain ⟨u, hinit, htry⟩ := bind_eq_pure h
  refine tryAllocHeap2_inside ?_ htry
  split at hinit
  · obtain ⟨⟨chunk, v⟩, -, hret⟩ := bind_eq_pure hinit
    obtain rfl := eq_of_pure_eq hret
    exact Nat.le_refl _
  next hne =>
    obtain rfl := eq_of_pure_eq hinit
    exact hs.resolve_left hne

/-- Arrays and portals are copied word for word, chunks are never overfilled, and a semispace only if the
block does not fit; objects are always copied beyond their end. -/
theorem inside_iff_fits {op : Operation} (h : op.Wf) : op.Inside ↔ op.Fits := by
  cases op with
  | copy shape dst srcObj => exact confined_stores_iff shape dst srcObj
  | newAllocHeap2 size g => exact newAllocHeap2_inside_iff h
  | chunkedAllocHeap2 fuel objSize s => exact iff_of_true (chunkedAllocHeap2_inside h) trivial

/-- A semispace with sixteen words, four of them in use, and an array of three elements. -/
def exampleSpace : Gc where
  mem := fun _ => 0
  heap := 1024
  heapTop := 1040
  heapBorder := 1040
  heap2 := 2048
  heapTop2 := 2052
  heapBorder2 := 2064
  decRefcount := []

theorem inside_exampleSpace :
    (Operation.newAllocHeap2 (Shape.array 3).size exampleSpace).Inside ∧
      (Operation.copy (.array 3) 2052 1026).Inside := by
  have hspace : (Operation.newAllocHeap2 (Shape.array 3).size exampleSpace).Wf :=
    (by decide : (2048 : Nat) ≤ 2052)
  have hcopy : (Operation.copy (.array 3) 2052 1026).Wf := trivial
  refine ⟨(inside_iff_fits hspace).mpr (.inr ?_), (inside_iff_fits hcopy).mpr nofun⟩
  exact (by decide : (2052 + 8 : Nat) ≤ 2064)

/-- An object with one field. -/
theorem not_inside_object : ¬ ∀ op : Operation, op.Wf → op.Inside := by
  intro h
  exact (confined_stores_iff (.object 1) 2052 1026).mp (h (.copy (.object 1) 2052 1026) trivial) 1 rfl

end JxCore.GcCopy
