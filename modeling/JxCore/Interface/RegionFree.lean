import JxCore.Interface.RegionInvariant

/-!
# The death of a chain

`dzmemory_free_chunk` looks at the counts of the nodes behind, walks to the front and looks at those
there, and frees the chain as a whole if it found no reference. Each of its loops is either still
running when the fuel is used up, or ends as the list of the nodes says.
-/

namespace JxCore.Region

theorem assert_bind {α : Type} {cond : Prop} [Decidable cond] (h : cond) (text : String)
    (k : Unit → Except Fault α) : (assert cond text >>= k) = k () := by
  rw [assert, if_pos h]
  rfl

section Loops

variable {s : Sys} {p : Option Nat}

/-- Neighbours lie side by side, or have no memory any more. -/
def Adjacent (dz : Nat → DZMemoryProxy) (x y : Nat) : Prop :=
  (dz x).mem = 0 ∨ (dz y).mem = 0 ∨ (dz x).mem + (dz x).size = (dz y).mem

theorem tailDead_spec {l : List Nat} (fuel : Nat)
    (hl : Linked (fun n => (s.dz n).prev) (fun n => (s.dz n).next) p l none) :
    tailDead s fuel l.head? = .error .running ∧ fuel ≤ l.length ∨
    tailDead s fuel l.head? = .ok true ∧ (∀ n ∈ l, (s.dz n).refcount = 0) ∨
    tailDead s fuel l.head? = .ok false ∧ ∃ n ∈ l, (s.dz n).refcount ≠ 0 := by
  induction fuel generalizing l p with
  | zero => exact .inl ⟨rfl, Nat.zero_le _⟩
  | succ fuel ih =>
    cases l with
    | nil => exact .inr (.inl ⟨rfl, by simp⟩)
    | cons n l =>
      simp only [Linked.cons_iff, Option.or_none] at hl
      simp only [List.head?_cons, tailDead, List.length_cons, List.forall_mem_cons]
      by_cases hcount : (s.dz n).refcount = 0
      · rw [if_neg (not_not.mpr hcount), hl.2.1]
        have := ih hl.2.2
        grind
      · exact .inr (.inr ⟨by rw [if_pos hcount], n, List.mem_cons_self, hcount⟩)

theorem chunkTop_spec {left right : List Nat} {dzm : Nat} (fuel : Nat)
    (hl : Linked (fun n => (s.dz n).prev) (fun n => (s.dz n).next) p (left ++ dzm :: right) none)
    (hp : p = none) (hadj : (left ++ [dzm]).IsChain (Adjacent s.dz)) :
    chunkTop s fuel dzm = .error .running ∧ fuel ≤ left.length ∨
    chunkTop s fuel dzm = .ok (left ++ [dzm]).head? ∧ (∀ n ∈ left, (s.dz n).refcount = 0) ∨
    chunkTop s fuel dzm = .ok none ∧ ∃ n ∈ left, (s.dz n).refcount ≠ 0 := by
  induction fuel generalizing left right dzm with
  | zero => exact .inl ⟨rfl, Nat.zero_le _⟩
  | succ fuel ih =>
    have hprev := hl.at_mem.1
    rw [hp, Option.or_none] at hprev
    rcases List.eq_nil_or_concat left with rfl | ⟨left, x, rfl⟩
    · refine .inr (.inl ⟨?_, by simp⟩)
      simp only [chunkTop, hprev]
      rfl
    · rw [List.concat_eq_append] at hl hadj hprev ⊢
      rw [List.getLast?_concat] at hprev
      have hnext : (s.dz x).next = some dzm := by
        rw [List.append_assoc, List.singleton_append] at hl
        simpa using hl.at_mem.2
      have hx : Adjacent s.dz x dzm := by
        rw [List.append_assoc, List.isChain_append] at hadj
        simpa using hadj.2.1
      have hadj' := (List.isChain_append.mp hadj).1
      rw [List.append_assoc, List.singleton_append] at hl
      have hrun : chunkTop s (fuel + 1) dzm =
          if (s.dz x).refcount ≠ 0 then .ok none else chunkTop s fuel x := by
        simp only [chunkTop, hprev]
        rw [assert_bind hnext, assert_bind (by exact hx)]
        rfl
      rw [hrun, List.length_append, List.length_singleton]
      by_cases hcount : (s.dz x).refcount = 0
      · rw [if_neg (not_not.mpr hcount)]
        have hhead : (left ++ [x] ++ [dzm]).head? = (left ++ [x]).head? := by simp
        rw [hhead]
        have := ih hl hadj'
        grind
      · exact .inr (.inr ⟨by rw [if_pos hcount], x, by simp, hcount⟩)

/-- What the third loop did with the nodes `tail` behind `dzm`. -/
structure TailFreed (s t : Sys) (dzm : Nat) (tail : List Nat) : Prop where
  free : t.dzMemoryFreeList = tail.reverse ++ s.dzMemoryFreeList
  others : (t.proxies, t.allocated, t.freed) = (s.proxies, s.allocated, s.freed)
  top_dz : t.dz dzm = { s.dz dzm with size := (s.dz dzm).size + (tail.map fun n => (s.dz n).size).sum }
  tail_dz : ∀ n ∈ tail, t.dz n = { s.dz n with valid := 2, mem := 0, size := 0, prev := none,
                                               next := none }
  outer : ∀ n, n ≠ dzm → n ∉ tail → t.dz n = s.dz n

theorem freeTail_spec {dzm : Nat} {tail : List Nat} (fuel : Nat)
    (hl : Linked (fun n => (s.dz n).prev) (fun n => (s.dz n).next) p tail none)
    (hnodup : (dzm :: tail).Nodup) (hdead : ∀ n ∈ tail, (s.dz n).refcount = 0)
    (hmem : (s.dz dzm).mem = 0 ∨ ∃ top, Tiled (fun n => (s.dz n).mem) (fun n => (s.dz n).size)
      ((s.dz dzm).mem + (s.dz dzm).size) tail top) :
    freeTail dzm fuel tail.head? s = .error .running ∧ fuel ≤ tail.length ∨
    ∃ t, freeTail dzm fuel tail.head? s = .ok t ∧ TailFreed s t dzm tail := by
  induction fuel generalizing tail s p with
  | zero => exact .inl ⟨rfl, Nat.zero_le _⟩
  | succ fuel ih =>
    cases tail with
    | nil => exact .inr ⟨s, rfl, rfl, rfl, rfl, by simp, fun _ _ _ => rfl⟩
    | cons n tail =>
      simp only [Linked.cons_iff, Option.or_none] at hl
      simp only [List.forall_mem_cons] at hdead
      rw [List.nodup_cons, List.mem_cons, not_or, List.nodup_cons] at hnodup
      obtain ⟨⟨hn, hdzm⟩, hn_tail, htail⟩ := hnodup
      have hadj : (s.dz dzm).mem = 0 ∨ (s.dz n).mem = 0 ∨
          (s.dz n).mem = (s.dz dzm).mem + (s.dz dzm).size := by
        rcases hmem with hzero | ⟨top, htiled⟩
        · exact .inl hzero
        · exact .inr (.inr htiled.1)
      -- The state after one round.
      let s₁ := s.set dzm fun m => { m with size := m.size + (s.dz n).size }
      let s₂ := s₁.set n fun m => { m with prev := none, mem := 0, size := 0, next := none }
      let s₃ := s₂.set n fun m => { m with valid := 2 }
      let u : Sys := { s₃ with dzMemoryFreeList := n :: s.dzMemoryFreeList }
      have hdz : ∀ m, u.dz m = if m = n then { s.dz n with
          valid := 2, mem := 0, size := 0, prev := none, next := none }
          else if m = dzm then { s.dz dzm with size := (s.dz dzm).size + (s.dz n).size }
          else s.dz m := fun m => by
        simp only [u, s₃, s₂, s₁, set_dz]
        grind
      have hrun : freeTail dzm (fuel + 1) (some n) s = freeTail dzm fuel tail.head? u := by
        have hcount : (s₂.dz n).refcount = 0 := by
          simp only [s₂, s₁, set_dz]
          grind
        simp only [freeTail, hl.2.1]
        rw [assert_bind hdead.1, assert_bind hadj, dzmemoryFree, assert_bind hcount]
        rfl
      have hsame : ∀ m ∈ tail, u.dz m = s.dz m := fun m hm => by grind
      have hl' : Linked (fun n => (u.dz n).prev) (fun n => (u.dz n).next) (some n) tail none :=
        hl.2.2.congr (fun m hm => by rw [hsame m hm]) fun m hm => by rw [hsame m hm]
      have hmem' : (u.dz dzm).mem = 0 ∨ ∃ top, Tiled (fun n => (u.dz n).mem)
          (fun n => (u.dz n).size) ((u.dz dzm).mem + (u.dz dzm).size) tail top := by
        rw [hdz dzm, if_neg hn, if_pos rfl]
        rcases hmem with hzero | ⟨top, htiled⟩
        · exact .inl hzero
        · refine .inr ⟨top, ?_⟩
          rw [← Nat.add_assoc]
          refine htiled.2.congr ?_ ?_
          · exact fun m hm => by rw [hsame m hm]
          · exact fun m hm => by rw [hsame m hm]
      rw [List.head?_cons, hrun, List.length_cons]
      rcases ih hl' (List.nodup_cons.mpr ⟨hdzm, htail⟩) (fun m hm => by rw [hsame m hm, hdead.2 m hm])
        hmem' with ⟨hrunning, hfuel⟩ | ⟨t, hok, hfree, hothers, htop, htail_dz, houter⟩
      · exact .inl ⟨hrunning, Nat.succ_le_succ hfuel⟩
      refine .inr ⟨t, hok, ?_⟩
      constructor
      case free => rw [hfree, List.reverse_cons, List.append_assoc, List.singleton_append]
      case others => exact hothers
      case top_dz =>
        have hsum : (tail.map fun n => (u.dz n).size) = tail.map fun n => (s.dz n).size :=
          List.map_congr_left fun m hm => by rw [hsame m hm]
        rw [htop, hsum, hdz dzm, if_neg hn, if_pos rfl, List.map_cons, List.sum_cons, Nat.add_assoc]
      case tail_dz =>
        refine List.forall_mem_cons.mpr ⟨?_, fun m hm => ?_⟩
        · rw [houter n (Ne.symm hn) hn_tail, hdz n, if_pos rfl]
        · rw [htail_dz m hm, hsame m hm]
      case outer =>
        intro m hm hm'
        rw [List.mem_cons, not_or] at hm'
        rw [houter m hm hm'.2, hdz m, if_neg hm'.1, if_neg hm]

theorem freeTop_spec {dzm : Nat} (hprev : (s.dz dzm).prev = none) (hnext : (s.dz dzm).next = none)
    (hcount : (s.dz dzm).refcount = 0) (hsize : (s.dz dzm).mem ≠ 0 → 4 < (s.dz dzm).size) :
    ∃ t, freeTop dzm s = .ok t ∧ t.dzMemoryFreeList = dzm :: s.dzMemoryFreeList ∧
      (t.proxies, t.allocated) = (s.proxies, s.allocated) ∧
      t.freed = s.freed ++ (if (s.dz dzm).mem = 0 then [] else [((s.dz dzm).mem, (s.dz dzm).size)]) ∧
      ∀ n, t.dz n = if n = dzm then { s.dz dzm with valid := 2, mem := 0 } else s.dz n := by
  unfold freeTop
  simp only [assert_bind hprev, assert_bind hnext, assert_bind hcount]
  by_cases hmem : (s.dz dzm).mem = 0
  · rw [if_neg (not_not.mpr hmem), dzmemoryFree, assert_bind hcount]
    refine ⟨_, rfl, rfl, rfl, by rw [if_pos hmem, List.append_nil]; rfl, fun n => ?_⟩
    simp only [set_dz, hmem]
  · rw [if_pos hmem, assert_bind (hsize hmem), dzmemoryFree]
    rw [assert_bind (by rw [set_dz, if_pos rfl]; exact hcount)]
    refine ⟨_, rfl, rfl, rfl, by rw [if_neg hmem]; rfl, fun n => ?_⟩
    simp only [set_dz]
    split_ifs <;> rfl

end Loops

/-- The chain `l` is gone. -/
structure ChunkFreed (s t : Sys) (l : List Nat) : Prop where
  free : t.dzMemoryFreeList.Perm (l ++ s.dzMemoryFreeList)
  others : (t.proxies, t.allocated) = (s.proxies, s.allocated)
  freed : ∀ top, l.head? = some top → t.freed = s.freed ++
    if (s.dz top).mem = 0 then [] else [((s.dz top).mem, (l.map fun n => (s.dz n).size).sum)]
  dz : ∀ n ∈ l, (t.dz n).valid = 2 ∧ (t.dz n).refcount = 0 ∧ (t.dz n).prev = none ∧
    (t.dz n).next = none
  outer : ∀ n, n ∉ l → t.dz n = s.dz n

theorem isChain_adjacent {dz : Nat → DZMemoryProxy} {l : List Nat} {base top : Nat}
    (h : Tiled (fun n => (dz n).mem) (fun n => (dz n).size) base l top) :
    l.IsChain (Adjacent dz) := by
  induction l generalizing base with
  | nil => exact .nil
  | cons x l ih =>
    rw [List.isChain_cons]
    refine ⟨fun y hy => ?_, ih h.2⟩
    obtain ⟨l, rfl⟩ := List.head?_eq_some_iff.mp hy
    have hx : (dz x).mem = base := h.1
    have hy : (dz y).mem = base + (dz x).size := h.2.1
    exact .inr (.inr (by rw [hx, hy]))

/-- The third loop and the end, from the first node on. -/
theorem freeTail_freeTop_spec {s : Sys} {dzm : Nat} {tail : List Nat} (fuel : Nat)
    (hl : Linked (fun n => (s.dz n).prev) (fun n => (s.dz n).next) none (dzm :: tail) none)
    (hnodup : (dzm :: tail).Nodup) (hdead : ∀ n ∈ dzm :: tail, (s.dz n).refcount = 0)
    (hmem : (∀ n ∈ dzm :: tail, (s.dz n).mem = 0) ∨ ∃ base size, 4 < size ∧
      Tiled (fun n => (s.dz n).mem) (fun n => (s.dz n).size) base (dzm :: tail) (base + size)) :
    (freeTail dzm fuel tail.head? s >>= fun s =>
      freeTop dzm (s.set dzm fun m => { m with next := none })) = .error .running ∧
      fuel ≤ tail.length ∨
    ∃ t, (freeTail dzm fuel tail.head? s >>= fun s =>
      freeTop dzm (s.set dzm fun m => { m with next := none })) = .ok t ∧
      ChunkFreed s t (dzm :: tail) := by
  have hcount := hdead dzm List.mem_cons_self
  have htiled : (s.dz dzm).mem = 0 ∨ ∃ top, Tiled (fun n => (s.dz n).mem)
      (fun n => (s.dz n).size) ((s.dz dzm).mem + (s.dz dzm).size) tail top := by
    rcases hmem with hzero | ⟨base, size, -, h⟩
    · exact .inl (hzero dzm List.mem_cons_self)
    · have hbase : (s.dz dzm).mem = base := h.1
      exact .inr ⟨_, hbase ▸ h.2⟩
  have hsize : (s.dz dzm).mem ≠ 0 →
      4 < (s.dz dzm).size + (tail.map fun n => (s.dz n).size).sum := fun hne => by
    rcases hmem with hzero | ⟨base, size, hsize, h⟩
    · exact absurd (hzero dzm List.mem_cons_self) hne
    · have htop := h.top_eq
      rw [List.map_cons, List.sum_cons] at htop
      omega
  rcases freeTail_spec fuel hl.2.2 hnodup (fun n hn => hdead n (List.mem_cons_of_mem _ hn)) htiled
    with ⟨hrun, hfuel⟩ | ⟨u, hrun, hu⟩
  · refine .inl ⟨?_, hfuel⟩
    rw [hrun]
    rfl
  refine .inr ?_
  rw [hrun]
  change ∃ t, freeTop dzm _ = .ok t ∧ _
  let v := u.set dzm fun m => { m with next := none }
  have hv : v.dz dzm = { u.dz dzm with next := none } := by simp only [v, set_dz, if_true]
  rw [hu.top_dz] at hv
  have hend : ∃ t, freeTop dzm v = .ok t ∧ _ := freeTop_spec (by rw [hv]; exact hl.1) (by rw [hv])
    (by rw [hv]; exact hcount) (by rw [hv]; exact hsize)
  obtain ⟨t, hok, hfree, hothers, hfreed, hdz⟩ := hend
  refine ⟨t, hok, ?_⟩
  have hothers_u := hu.others
  simp only [Prod.mk.injEq] at hothers hothers_u
  constructor
  case free =>
    rw [hfree]
    change (dzm :: u.dzMemoryFreeList).Perm _
    rw [hu.free, List.cons_append]
    exact ((List.reverse_perm tail).append_right _).cons dzm
  case others => rw [hothers.1, hothers.2]; exact Prod.ext hothers_u.1 hothers_u.2.1
  case freed =>
    intro top htop
    cases htop
    rw [hfreed, hv, List.map_cons, List.sum_cons]
    change u.freed ++ _ = _
    rw [hothers_u.2.2]
  case dz =>
    intro n hn
    have hv_ne : ∀ m, m ≠ dzm → v.dz m = u.dz m := fun m hm => by
      simp only [v, set_dz, if_neg hm]
    by_cases hne : n = dzm
    · rw [hne, hdz dzm, if_pos rfl, hv]
      exact ⟨rfl, hcount, hl.1, rfl⟩
    · rw [hdz n, if_neg hne, hv_ne n hne,
        hu.tail_dz n ((List.mem_cons.mp hn).resolve_left hne)]
      exact ⟨rfl, hdead n hn, rfl, rfl⟩
  case outer =>
    intro n hn
    rw [List.mem_cons, not_or] at hn
    rw [hdz n, if_neg hn.1]
    simp only [v, set_dz, if_neg hn.1]
    exact hu.outer n hn.1 hn.2

/-- A chain of one node. -/
theorem freeTop_alone {s : Sys} {dzm : Nat} (hprev : (s.dz dzm).prev = none)
    (hnext : (s.dz dzm).next = none) (hcount : (s.dz dzm).refcount = 0)
    (hmem : (∀ n ∈ [dzm], (s.dz n).mem = 0) ∨ ∃ base size, 4 < size ∧
      Tiled (fun n => (s.dz n).mem) (fun n => (s.dz n).size) base [dzm] (base + size)) :
    ∃ t, freeTop dzm s = .ok t ∧ ChunkFreed s t [dzm] := by
  have hsize : (s.dz dzm).mem ≠ 0 → 4 < (s.dz dzm).size := fun hne => by
    rcases hmem with hzero | ⟨base, size, hsize, h⟩
    · exact absurd (hzero dzm List.mem_cons_self) hne
    · have htop : base + (s.dz dzm).size = base + size := h.2
      omega
  obtain ⟨t, hok, hfree, hothers, hfreed, hdz⟩ := freeTop_spec hprev hnext hcount hsize
  refine ⟨t, hok, hfree ▸ List.Perm.refl _, hothers, fun top htop => ?_, fun n hn => ?_, fun n hn => ?_⟩
  · cases htop
    simpa using hfreed
  · rw [List.mem_singleton.mp hn, hdz dzm, if_pos rfl]
    exact ⟨rfl, hcount, hprev, hnext⟩
  · rw [List.mem_singleton] at hn
    rw [hdz n, if_neg hn]

/-- **Freeing a chunk.** As long as a node of the chain has a reference nothing happens; otherwise
all of them go back to the free list, and the memory to the allocator. -/
theorem dzmemoryFreeChunk_spec {s : Sys} {left right : List Nat} {dzm : Nat} (fuel : Nat)
    (hl : Linked (fun n => (s.dz n).prev) (fun n => (s.dz n).next) none (left ++ dzm :: right) none)
    (hnodup : (left ++ dzm :: right).Nodup)
    (hmem : (∀ n ∈ left ++ dzm :: right, (s.dz n).mem = 0) ∨
      ∃ base size, ((∀ n ∈ left ++ dzm :: right, (s.dz n).refcount = 0) → 4 < size) ∧
        Tiled (fun n => (s.dz n).mem) (fun n => (s.dz n).size) base (left ++ dzm :: right)
          (base + size)) :
    dzmemoryFreeChunk fuel dzm s = .error .running ∧ fuel ≤ (left ++ dzm :: right).length ∨
    dzmemoryFreeChunk fuel dzm s = .ok s ∧ (∃ n ∈ left ++ dzm :: right, (s.dz n).refcount ≠ 0) ∨
    (∃ t, dzmemoryFreeChunk fuel dzm s = .ok t ∧ ChunkFreed s t (left ++ dzm :: right)) ∧
      ∀ n ∈ left ++ dzm :: right, (s.dz n).refcount = 0 := by
  have hright : Linked (fun n => (s.dz n).prev) (fun n => (s.dz n).next) left.getLast?
      (dzm :: right) none := by simpa using (Linked.append_iff.mp hl).2
  unfold dzmemoryFreeChunk
  rcases tailDead_spec fuel hright with ⟨hrun, hfuel⟩ | ⟨hrun, hdead⟩ | ⟨hrun, n, hn, hcount⟩
  · refine .inl ⟨?_, ?_⟩
    · rw [List.head?_cons] at hrun
      rw [hrun]
      rfl
    · rw [List.length_append]
      omega
  · rw [List.head?_cons] at hrun
    have hcount := hdead dzm List.mem_cons_self
    have hprev : (s.dz dzm).prev = left.getLast? := hright.1
    have hnext : (s.dz dzm).next = right.head? := by simpa using hright.2.1
    simp only [hrun]
    change (assert _ _ >>= _) = _ ∧ _ ∨ (assert _ _ >>= _) = _ ∧ _ ∨ (∃ t, (assert _ _ >>= _) = _ ∧ _)
      ∧ _
    rw [assert_bind hcount]
    by_cases halone : left = [] ∧ right = []
    · obtain ⟨rfl, rfl⟩ := halone
      refine .inr (.inr ⟨?_, hdead⟩)
      simp only [hprev, hnext, List.getLast?_nil, List.head?_nil, Option.isSome_none, Bool.or_self,
        Bool.false_eq_true, if_false]
      exact freeTop_alone hprev hnext hcount
        (hmem.imp_right fun ⟨base, size, hsize, htiled⟩ => ⟨base, size, hsize hdead, htiled⟩)
    · have hnot_alone : ((s.dz dzm).prev.isSome || (s.dz dzm).next.isSome) = true := by
        rw [hprev, hnext]
        simp only [Bool.or_eq_true, Option.isSome_iff_ne_none, ne_eq, List.getLast?_eq_none_iff,
          List.head?_eq_none_iff]
        tauto
      simp only [hnot_alone, if_true]
      have hadj : (left ++ [dzm]).IsChain (Adjacent s.dz) := by
        rw [List.append_cons] at hmem
        rcases hmem with hzero | ⟨base, size, -, htiled⟩
        · refine List.Pairwise.isChain (List.pairwise_of_forall_mem_list fun x hx y hy => ?_)
          exact .inl (hzero x (List.mem_append_left _ hx))
        · obtain ⟨top, htiled, -⟩ := htiled.of_append
          exact isChain_adjacent htiled
      rcases chunkTop_spec fuel hl rfl hadj with ⟨hrun, hfuel⟩ | ⟨hrun, hdead'⟩ |
        ⟨hrun, n, hn, hcount'⟩
      · refine .inl ⟨by rw [hrun]; rfl, ?_⟩
        rw [List.length_append]
        omega
      · obtain ⟨top, tail, htop⟩ := List.exists_cons_of_ne_nil
          (List.append_ne_nil_of_right_ne_nil left (List.cons_ne_nil dzm right))
        have hdead_all : ∀ n ∈ left ++ dzm :: right, (s.dz n).refcount = 0 := fun n hn =>
          (List.mem_append.mp hn).elim (hdead' n) (hdead n)
        have hhead : (left ++ [dzm]).head? = some top := by
          rw [← List.head?_cons (l := tail) (a := top), ← htop]
          simp
        have htail : tail.length ≤ (left ++ dzm :: right).length := by
          rw [htop]
          exact Nat.le_succ _
        rw [hrun, hhead]
        rw [htop] at hl hnodup hmem hdead_all
        have hnext_top : (s.dz top).next = tail.head? := by simpa using hl.2.1
        change (freeTail top fuel (s.dz top).next s >>= _) = _ ∧ _ ∨ (freeTail top fuel _ s >>= _) = _ ∧ _ ∨
          (∃ t, (freeTail top fuel _ s >>= _) = _ ∧ _) ∧ _
        rw [hnext_top]
        have hmem_all := hmem.imp_right fun ⟨base, size, hsize, htiled⟩ =>
          (⟨base, size, hsize hdead_all, htiled⟩ : ∃ base size, 4 < size ∧ Tiled (fun n => (s.dz n).mem)
            (fun n => (s.dz n).size) base (top :: tail) (base + size))
        rcases freeTail_freeTop_spec fuel hl hnodup hdead_all hmem_all with ⟨hrun, hfuel⟩ |
          ⟨t, hok, ht⟩
        · exact .inl ⟨hrun, hfuel.trans htail⟩
        · exact .inr (.inr ⟨⟨t, hok, htop ▸ ht⟩, htop ▸ hdead_all⟩)
      · refine .inr (.inl ⟨by rw [hrun]; rfl, n, List.mem_append_left _ hn, hcount'⟩)
  · refine .inr (.inl ⟨?_, n, List.mem_append_right _ hn, hcount⟩)
    rw [List.head?_cons] at hrun
    rw [hrun]
    rfl

end JxCore.Region
