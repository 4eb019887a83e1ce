import JxCore.Interface.RegionAccess
import JxCore.Interface.RegionFree
import JxCore.Core.Malloc

/-!
# Reference counts of memories

The count of a node is the number of objects that refer to it, and a chain is freed as a whole once
none of its nodes has a reference. Nodes that were exchanged for others hang together in chains of
their own, which hold no memory. `memory_getSubRange` and `memory_revoke` make nodes for which there
is no object, and so does every call that runs out of heap in the middle.
-/

namespace JxCore.Region

/-! ## The books -/

/-- The memories that are not freed. -/
def remaining (mems : List Allocation) (dead : List Nat) (i : Nat) : Option Allocation :=
  if i ∈ dead then none else mems[i]?

/-- What `jxfree` gets when the memory dies. -/
def Allocation.given (a : Allocation) : Option (Nat × Nat) :=
  if a.mem = 0 then none else some (a.mem, a.size)

/-- The blocks of the aligned range are those that `jxmalloc` gave. -/
def Allocation.Whole (a : Allocation) : Prop :=
  a.mem / Malloc.blockSize = a.block / Malloc.blockSize ∧
    Malloc.Allocator.sizeBlkOf a.size = Malloc.Allocator.sizeBlkOf a.blockSize

/-- What the collectors rely on: which of the memories `mems` are `dead`, the chains of the others,
and the chains `stale` of nodes that were exchanged. -/
structure Books (number : Nat) (mems : List Allocation) (s : Sys) (dead : List Nat)
    (chain : Nat → List Nat) (stale : List (List Nat)) : Prop where
  chained : Chained (remaining mems dead) s chain
  dead_nodup : dead.Nodup
  dead_lt : ∀ i ∈ dead, i < mems.length
  freed : dead.filterMap (fun i => mems[i]?.bind Allocation.given) = s.freed
  stale_linked : ∀ l ∈ stale,
    Linked (fun n => (s.dz n).prev) (fun n => (s.dz n).next) none l none
  stale_nodes : ∀ l ∈ stale, ∀ n ∈ l, (s.dz n).valid = 0 ∧ (s.dz n).mem = 0
  stale_nodup : stale.flatten.Nodup
  invalid : ∀ n, n + 1 ≠ number → (s.dz n).valid = 0 → n ∈ stale.flatten
  sentinel : ∀ n, n + 1 = number → (s.dz n).valid = 0 ∧ n ∉ stale.flatten ∧
    n ∉ s.proxies.map (·.dz)
  table : ∀ n < number, n ∈ s.dzMemoryFreeList ∨ (s.dz n).valid = 0 ∨ (s.dz n).valid = 1
  free_nodes : ∀ n ∈ s.dzMemoryFreeList,
    (s.dz n).refcount = 0 ∧ (s.dz n).prev = none ∧ (s.dz n).next = none
  count : ∀ n, n + 1 ≠ number → (s.dz n).refcount = (s.proxies.map (·.dz)).count n

/-- Every chain has a reference. -/
structure Held (mems : List Allocation) (s : Sys) (dead : List Nat) (chain : Nat → List Nat)
    (stale : List (List Nat)) : Prop where
  live : ∀ i a, remaining mems dead i = some a → ∃ n ∈ chain i, (s.dz n).refcount ≠ 0
  stale : ∀ l ∈ stale, ∃ n ∈ l, (s.dz n).refcount ≠ 0

section Exchange

variable {number i : Nat} {mems : List Allocation} {s t : Sys} {dead : List Nat}
  {chain : Nat → List Nat} {stale : List (List Nat)} {left mid new right : List Nat}

/-- An exchange touches the nodes of one chain and fresh ones. -/
theorem Replaced.frame (h : Replaced s t left mid new right) (hi : chain i = left ++ mid ++ right)
    {n : Nat} (hn : n ∉ chain i) (hnew : n ∉ new) : t.dz n = s.dz n := by
  rw [hi] at hn
  simp only [List.mem_append, not_or] at hn
  have hleft : left.getLast? ≠ some n := fun hl => hn.1.1 (List.mem_of_getLast? hl)
  have hright : right.head? ≠ some n := fun hr => hn.2 (List.mem_of_head? hr)
  rw [h.outer n hnew hn.1.2, if_neg hleft, if_neg hright]

theorem Books.stale_not_mem (h : Books number mems s dead chain stale) {l : List Nat} (hl : l ∈ stale)
    {n : Nat} (hn : n ∈ l) : (∀ i, n ∉ chain i) ∧ n ∉ s.dzMemoryFreeList := by
  have hvalid := (h.stale_nodes l hl n hn).1
  refine ⟨fun i hi => ?_, fun hfree => ?_⟩
  · have := (h.chained.valid n).mpr ⟨i, hi⟩
    omega
  · have := h.chained.free n hfree
    omega

/-- Exchanging nodes keeps the books if there is an object for each new node. -/
theorem Books.exchange (h : Books number mems s dead chain stale)
    (hi : chain i = left ++ mid ++ right) (hmid : mid ≠ []) (hrep : Replaced s t left mid new right)
    (hcount : Recounted s t mid new new) :
    Books number mems t dead (Function.update chain i (left ++ new ++ right)) (mid :: stale) := by
  have hmem : ∀ n ∈ mid, n ∈ chain i := fun n hn => by simp [hi, hn]
  have hmid_valid : ∀ n ∈ mid, (s.dz n).valid = 1 := fun n hn =>
    (h.chained.valid n).mpr ⟨i, hmem n hn⟩
  have hnew_free : ∀ n ∈ new, n ∈ s.dzMemoryFreeList := fun n hn => hrep.mem_free hn
  have hnew_valid : ∀ n ∈ new, (s.dz n).valid = 2 := fun n hn => h.chained.free n (hnew_free n hn)
  have hframe : ∀ n, (s.dz n).valid = 0 → t.dz n = s.dz n := fun n hn => by
    refine hrep.frame hi (fun hi => ?_) fun hnew => ?_
    · have := (h.chained.valid n).mpr ⟨i, hi⟩
      omega
    · have := hnew_valid n hnew
      omega
  have hstale : ∀ l ∈ stale, ∀ n ∈ l, t.dz n = s.dz n := fun l hl n hn =>
    hframe n (h.stale_nodes l hl n hn).1
  have hnew_nodup := hrep.new_nodup h.chained
  constructor
  case chained => exact hrep.chains h.chained hi hmid
  case dead_nodup => exact h.dead_nodup
  case dead_lt => exact h.dead_lt
  case freed => exact hcount.freed ▸ h.freed
  case stale_linked =>
    refine List.forall_mem_cons.mpr ⟨hcount.old_linked, fun l hl => ?_⟩
    refine (h.stale_linked l hl).congr (fun n hn => ?_) fun n hn => ?_
    · rw [hstale l hl n hn]
    · rw [hstale l hl n hn]
  case stale_nodes =>
    refine List.forall_mem_cons.mpr ⟨fun n hn => ⟨hrep.invalid n hn, hcount.old_mem n hn⟩, ?_⟩
    intro l hl n hn
    rw [hstale l hl n hn]
    exact h.stale_nodes l hl n hn
  case stale_nodup =>
    rw [List.flatten_cons, List.nodup_append]
    refine ⟨?_, h.stale_nodup, fun n hn m hm heq => ?_⟩
    · have hnodup := h.chained.nodup i
      rw [hi] at hnodup
      exact (List.nodup_append.mp (List.nodup_append.mp hnodup).1).2.1
    · obtain ⟨l, hl, hm⟩ := List.mem_flatten.mp hm
      have hv := (h.stale_nodes l hl m hm).1
      rw [← heq, hmid_valid n hn] at hv
      cases hv
  case invalid =>
    intro n hnumber hn
    rw [List.flatten_cons, List.mem_append]
    by_cases hold : n ∈ mid
    · exact .inl hold
    have hnew : n ∉ new := fun hnew => by
      have := hrep.valid n hnew
      omega
    rw [(hrep.keeps hnew hold).1] at hn
    exact .inr (h.invalid n hnumber hn)
  case sentinel =>
    intro n hn
    obtain ⟨hvalid, hn_stale, hproxy⟩ := h.sentinel n hn
    rw [hframe n hvalid, List.flatten_cons, hcount.proxies, List.mem_append, List.mem_append]
    refine ⟨hvalid, ?_, ?_⟩
    · rintro (hold | hold)
      · have := hmid_valid n hold
        omega
      · exact hn_stale hold
    · rintro (hold | hnew)
      · exact hproxy hold
      · have := hnew_valid n hnew
        omega
  case table =>
    intro n hn
    by_cases hnew : n ∈ new
    · exact .inr (.inr (hrep.valid n hnew))
    by_cases hold : n ∈ mid
    · exact .inr (.inl (hrep.invalid n hold))
    rw [(hrep.keeps hnew hold).1]
    refine (h.table n hn).imp_left fun hfree => ?_
    exact (List.mem_append.mp (hrep.taken.symm.subset hfree)).resolve_left hnew
  case free_nodes =>
    intro n hn
    have hfree := hrep.taken.subset (List.mem_append_right _ hn)
    have hnew : n ∉ new := fun hnew =>
      (List.nodup_append.mp (hrep.taken.nodup_iff.mpr h.chained.free_nodup)).2.2 n hnew n hn rfl
    have hchain : n ∉ chain i := fun hi => by
      have hv := (h.chained.valid n).mpr ⟨i, hi⟩
      have hf := h.chained.free n hfree
      omega
    rw [hrep.frame hi hchain hnew]
    exact h.free_nodes n hfree
  case count =>
    intro n hn
    rw [hcount.proxies, List.count_append, ← h.count n hn]
    by_cases hnew : n ∈ new
    · rw [hcount.new_count n hnew, (h.free_nodes n (hnew_free n hnew)).1,
        List.count_eq_one_of_mem hnew_nodup hnew]
    rw [List.count_eq_zero_of_not_mem hnew, Nat.add_zero]
    by_cases hold : n ∈ mid
    · exact hcount.old_count n hold
    · rw [hrep.outer n hnew hold]

/-- The new nodes are held by their objects, the old ones by the object that was exchanged. -/
theorem Held.exchange (hheld : Held mems s dead chain stale) (h : Books number mems s dead chain stale)
    (hi : chain i = left ++ mid ++ right) (hrep : Replaced s t left mid new right)
    (hcount : Recounted s t mid new new) {self : MemoryProxy} (hself : self ∈ s.proxies)
    (hmem : self.dz ∈ mid) :
    Held mems t dead (Function.update chain i (left ++ new ++ right)) (mid :: stale) where
  live j a ha := by
    by_cases hj : j = i
    · obtain ⟨n, hn⟩ := List.exists_mem_of_ne_nil _ hrep.new_ne
      rw [hj, Function.update_self]
      exact ⟨n, by simp [hn], by rw [hcount.new_count n hn]; exact Nat.one_ne_zero⟩
    · rw [Function.update_of_ne hj]
      obtain ⟨n, hn, hne⟩ := hheld.live j a ha
      refine ⟨n, hn, ?_⟩
      rw [hrep.frame hi (fun hi => hj (h.chained.disjoint j i n hn hi)) fun hnew =>
        hrep.new_not_mem h.chained hnew j hn]
      exact hne
  stale := by
    refine List.forall_mem_cons.mpr ⟨⟨self.dz, hmem, ?_⟩, fun l hl => ?_⟩
    · have hne : self.dz + 1 ≠ number := fun heq =>
        (h.sentinel _ heq).2.2 (List.mem_map_of_mem hself)
      rw [hcount.old_count _ hmem, h.count _ hne]
      exact (List.count_pos_iff.mpr (List.mem_map_of_mem hself)).ne'
    · obtain ⟨n, hn, hne⟩ := hheld.stale l hl
      obtain ⟨hchain, hfree⟩ := h.stale_not_mem hl hn
      refine ⟨n, hn, ?_⟩
      rw [hrep.frame hi (hchain i) fun hnew => hfree (hrep.mem_free hnew)]
      exact hne

end Exchange

/-! ## Revoking a memory that was never split -/

section Revoke

variable {s t : Sys} {live : Nat → Option Allocation} {chain : Nat → List Nat}
  {fuel cdom room cur lastNew : Nat} {curNew : Option Nat} {w : Walk} {o : Outcome}

theorem revokePrev_alone (hprev : (s.dz cur).prev = none)
    (h : revokePrev cdom fuel cur curNew lastNew s = .ok (w, t)) : t = s ∧ tiePrev w s = .ok s := by
  cases fuel with
  | zero => cases h
  | succ fuel =>
    unfold revokePrev at h
    rw [hprev] at h
    split at h <;> cases h
    · exact ⟨rfl, rfl⟩
    · exact ⟨rfl, by simp only [tiePrev, hprev]⟩

theorem revokeNext_alone (hnext : (s.dz cur).next = none)
    (h : revokeNext cdom fuel cur curNew lastNew s = .ok (w, t)) : t = s ∧ tieNext w s = .ok s := by
  cases fuel with
  | zero => cases h
  | succ fuel =>
    unfold revokeNext at h
    rw [hnext] at h
    split at h <;> cases h
    · exact ⟨rfl, rfl⟩
    · exact ⟨rfl, by simp only [tieNext, hnext]⟩

/-- A node without neighbours is exchanged for one other. -/
theorem memoryRevoke_alone {self : MemoryProxy} (hs : Chained live s chain)
    (hself : self ∈ s.proxies) (hprev : (s.dz self.dz).prev = none)
    (hnext : (s.dz self.dz).next = none) (hroom : 1 ≤ room)
    (h : memoryRevoke fuel cdom self room s = .ok (o, t)) :
    Effect s t chain self.dz o (1 ≤ room) := by
  rcases checkValid_ok h with hsame | ⟨hvalid, h⟩
  · exact .inl hsame
  obtain ⟨⟨-, hsize, hmem⟩, i, left, right, hi, hseg⟩ := hs.of_self hself hvalid
  obtain ⟨hleft, hright⟩ := Linked.singleton_iff.mp hseg.linked
  simp only [hprev, hnext] at hleft hright
  obtain rfl := List.getLast?_eq_none_iff.mp hleft.symm
  obtain rfl := List.head?_eq_none_iff.mp hright.symm
  simp only [bind_eq_ok, pure_eq_ok, Prod.exists] at h
  obtain ⟨n, s₁, hcreate, w, s₂, hwalk, s₃, htie, w', s₄, hwalk', s₅, htie', h⟩ := h
  obtain ⟨hc, hdz⟩ := createDZMemory_ok hcreate
  have hfresh := hseg.fresh (n := n) (by simp [hc.fields.1])
  rw [List.mem_singleton] at hfresh
  have hself_dz : s₁.dz self.dz = s.dz self.dz := by rw [hdz, if_neg (Ne.symm hfresh.1)]
  -- Neither walk moves.
  obtain ⟨rfl, htie₂⟩ := revokePrev_alone (by rw [hself_dz]; exact hprev) hwalk
  obtain rfl : s₃ = s₂ := Except.ok.inj (htie.symm.trans htie₂)
  obtain ⟨rfl, htie₄⟩ := revokeNext_alone (by rw [hself_dz]; exact hnext) hwalk'
  obtain rfl : s₅ = s₄ := Except.ok.inj (htie'.symm.trans htie₄)
  have hnode : (s₅.freeDZ self.dz).dz n = .created self.size self.mem := by
    rw [freeDZ_dz, if_neg hfresh.1, hdz n, if_pos rfl]
  have hold : (s₅.freeDZ self.dz).dz self.dz = (s.dz self.dz).invalidated := by
    rw [freeDZ_dz, if_pos rfl, hself_dz]
  have hcreated : Created s (s₅.freeDZ self.dz) [n] := hc.of_rest rfl
  have hrep : Replaced s (s₅.freeDZ self.dz) [] [self.dz] [n] [] := by
    refine Replaced.mk hcreated.fields.2.2.1 (hcreated.fields.1 ▸ List.Perm.refl _) ?_
      (List.cons_ne_nil _ _) ?_ (by simp) (by simp) (by simp) ?_ ?_ ?_ ?_
    · rw [hcreated.fields.2.1]
      exact fun p hp => .inl hp
    · simp [hnode, DZMemoryProxy.created]
    · simp [hnode, DZMemoryProxy.created, hsize, hmem]
    · simp [hnode, DZMemoryProxy.created]
    · simp [hold, DZMemoryProxy.invalidated]
    · intro x hx hx'
      rw [List.mem_singleton] at hx hx'
      simp [freeDZ_dz, hx', hdz x, hx]
  have hcount : Recounted s (s₅.freeDZ self.dz) [self.dz] [n] [] := by
    refine .of_created hcreated ?_ ?_ ?_ ?_
    · simp [hnode, DZMemoryProxy.created]
    · simp [hold, DZMemoryProxy.invalidated]
    · simp [hold, DZMemoryProxy.invalidated]
    · simp [hold, DZMemoryProxy.invalidated, hprev, hnext]
  have halloc : allocMemoryProxies room [n] (s₅.freeDZ self.dz) = (o, t) := by
    obtain ⟨room, rfl⟩ := Nat.exists_eq_add_of_le' hroom
    rw [← h]
    simp only [allocThenFree, allocMemoryProxies, freeDZ_dz, if_neg hfresh.1]
    rfl
  exact .inr ⟨i, [], _, _, [], hi, List.mem_singleton_self _, hrep.alloc (fun n hn => hn) halloc,
    fun hroom => hcount.alloc hroom halloc⟩

end Revoke

/-! ## Creating and copying -/

section Create

variable {number room : Nat} {mems : List Allocation} {s t : Sys} {dead : List Nat}
  {chain : Nat → List Nat} {stale : List (List Nat)} {o : Outcome}

/-- The node of an object is neither free nor `dzInvalid`. -/
theorem Books.of_mem (h : Books number mems s dead chain stale) {p : MemoryProxy} (hp : p ∈ s.proxies) :
    p.dz + 1 ≠ number ∧ (s.dz p.dz).refcount ≠ 0 := by
  have hmem : p.dz ∈ s.proxies.map (·.dz) := List.mem_map_of_mem hp
  have hne : p.dz + 1 ≠ number := fun heq => (h.sentinel _ heq).2.2 hmem
  rw [h.count _ hne]
  exact ⟨hne, (List.count_pos_iff.mpr hmem).ne'⟩

/-- A new memory with its object. -/
theorem Books.create {a : Allocation} {n : Nat} (h : Books number mems s dead chain stale)
    (hheld : Held mems s dead chain stale) (hroom : 1 ≤ room) (hn : CreatedMemory s t a room n) :
    Books number (mems ++ [a]) t dead (Function.update chain mems.length [n]) stale ∧
      Held (mems ++ [a]) t dead (Function.update chain mems.length [n]) stale := by
  have hk : remaining mems dead mems.length = none := by simp [remaining]
  have hdead : mems.length ∉ dead := fun hmem => Nat.lt_irrefl _ (h.dead_lt _ hmem)
  have hlive : remaining (mems ++ [a]) dead =
      Function.update (remaining mems dead) mems.length (some a) := by
    funext i
    rw [remaining, Function.update_apply]
    unfold remaining
    grind
  have hfree : n ∈ s.dzMemoryFreeList := by simp [hn.free]
  have hvalid : (s.dz n).valid = 2 := h.chained.free n hfree
  have hframe : ∀ m, m ≠ n → t.dz m = s.dz m := fun m hm => by rw [hn.dz m, if_neg hm]
  have hnode : t.dz n = .created a.size a.mem := by rw [hn.dz n, if_pos rfl]
  have hstale : ∀ l ∈ stale, ∀ m ∈ l, t.dz m = s.dz m := fun l hl m hm => by
    refine hframe m ?_
    rintro rfl
    exact (h.stale_not_mem hl hm).2 hfree
  have hobjects := hn.objects hroom
  refine ⟨?_, ?_, fun l hl => ?_⟩
  · constructor
    case chained => exact hlive ▸ hn.chained h.chained hk
    case dead_nodup => exact h.dead_nodup
    case dead_lt =>
      intro i hi
      rw [List.length_append]
      exact Nat.lt_add_right _ (h.dead_lt i hi)
    case freed =>
      rw [hn.freed, ← h.freed]
      refine List.filterMap_congr fun i hi => ?_
      rw [List.getElem?_append_left (h.dead_lt i hi)]
    case stale_linked =>
      intro l hl
      refine (h.stale_linked l hl).congr (fun m hm => ?_) fun m hm => ?_
      · rw [hstale l hl m hm]
      · rw [hstale l hl m hm]
    case stale_nodes =>
      intro l hl m hm
      rw [hstale l hl m hm]
      exact h.stale_nodes l hl m hm
    case stale_nodup => exact h.stale_nodup
    case invalid =>
      intro m hm hv
      have hne : m ≠ n := by
        rintro rfl
        rw [hnode] at hv
        cases hv
      rw [hframe m hne] at hv
      exact h.invalid m hm hv
    case sentinel =>
      intro m hm
      obtain ⟨hv, hm_stale, hproxy⟩ := h.sentinel m hm
      have hne : m ≠ n := by
        rintro rfl
        omega
      rw [hframe m hne, hobjects]
      exact ⟨hv, hm_stale, by simp [hproxy, hne]⟩
    case table =>
      intro m hm
      by_cases hne : m = n
      · rw [hne, hnode]
        exact .inr (.inr rfl)
      · have := h.table m hm
        rw [hn.free, List.mem_cons] at this
        rw [hframe m hne]
        exact this.imp_left fun h => h.resolve_left hne
    case free_nodes =>
      intro m hm
      have hnodup := h.chained.free_nodup
      rw [hn.free, List.nodup_cons] at hnodup
      rw [hframe m fun heq => hnodup.1 (heq ▸ hm)]
      exact h.free_nodes m (by simp [hn.free, hm])
    case count =>
      intro m hm
      rw [hobjects, List.count_append, ← h.count m hm]
      by_cases hne : m = n
      · rw [hne, hnode, (h.free_nodes n hfree).1, List.count_singleton_self]
        rfl
      · rw [hframe m hne, List.count_eq_zero_of_not_mem (by simpa using hne), Nat.add_zero]
  · intro i a' ha
    by_cases hi : i = mems.length
    · rw [hi, Function.update_self]
      exact ⟨n, List.mem_singleton_self n, by rw [hnode]; exact Nat.one_ne_zero⟩
    · rw [hlive, Function.update_of_ne hi] at ha
      obtain ⟨m, hm, hcount⟩ := hheld.live i a' ha
      rw [Function.update_of_ne hi]
      refine ⟨m, hm, ?_⟩
      rw [hframe m ?_]
      · exact hcount
      rintro rfl
      have := (h.chained.valid m).mpr ⟨i, hm⟩
      omega
  · obtain ⟨m, hm, hcount⟩ := hheld.stale l hl
    exact ⟨m, hm, by rw [hstale l hl m hm]; exact hcount⟩

/-- A change of counts only. -/
theorem Books.recount (h : Books number mems s dead chain stale)
    (hdz : ∀ m, { t.dz m with refcount := 0 } = { s.dz m with refcount := 0 })
    (hfree : t.dzMemoryFreeList = s.dzMemoryFreeList) (hfreed : t.freed = s.freed)
    (hproxies : ∀ p ∈ t.proxies, p ∈ s.proxies ∨ ∃ q ∈ s.proxies, p.dz = q.dz ∧
      p.size = (s.dz p.dz).size ∧ p.mem = (s.dz p.dz).mem)
    (hzero : ∀ m ∈ s.dzMemoryFreeList, (t.dz m).refcount = 0)
    (hcount : ∀ m, m + 1 ≠ number → (t.dz m).refcount = (t.proxies.map (·.dz)).count m) :
    Books number mems t dead chain stale := by
  have hfields := hdz
  simp only [DZMemoryProxy.mk.injEq, true_and] at hfields
  constructor
  case chained => exact h.chained.of_counts hdz hfree hproxies
  case dead_nodup => exact h.dead_nodup
  case dead_lt => exact h.dead_lt
  case freed => exact hfreed ▸ h.freed
  case stale_linked =>
    intro l hl
    exact (h.stale_linked l hl).congr (fun m _ => (hfields m).2.2.2.1) fun m _ =>
      (hfields m).2.2.2.2.1
  case stale_nodes =>
    intro l hl m hm
    rw [(hfields m).1, (hfields m).2.1]
    exact h.stale_nodes l hl m hm
  case stale_nodup => exact h.stale_nodup
  case invalid => exact fun m hm hv => h.invalid m hm ((hfields m).1 ▸ hv)
  case sentinel =>
    intro m hm
    obtain ⟨hv, hm_stale, hproxy⟩ := h.sentinel m hm
    refine ⟨(hfields m).1 ▸ hv, hm_stale, fun hmem => hproxy ?_⟩
    obtain ⟨p, hp, rfl⟩ := List.mem_map.mp hmem
    rcases hproxies p hp with hp | ⟨q, hq, hpq, -⟩
    · exact List.mem_map_of_mem hp
    · exact hpq ▸ List.mem_map_of_mem hq
  case table =>
    intro m hm
    rw [hfree, (hfields m).1]
    exact h.table m hm
  case free_nodes =>
    intro m hm
    rw [hfree] at hm
    rw [(hfields m).2.2.2.1, (hfields m).2.2.2.2.1]
    exact ⟨hzero m hm, (h.free_nodes m hm).2⟩
  case count => exact hcount

/-- A copy for another domain is one more object. -/
theorem Books.copy (h : Books number mems s dead chain stale) (hheld : Held mems s dead chain stale)
    {self : MemoryProxy} {quota : Nat} (hself : self ∈ s.proxies)
    (hrun : copyMemory self quota room s = .ok (o, t)) :
    Books number mems t dead chain stale ∧ Held mems t dead chain stale := by
  obtain ⟨hsentinel, hrefcount⟩ := h.of_mem hself
  rcases copyMemory_ok hrun with rfl | rfl
  · exact ⟨h, hheld⟩
  constructor
  · refine h.recount (fun m => ?_) rfl rfl (fun p hp => ?_) (fun m hm => ?_) fun m hm => ?_
    · simp only [Function.update_apply]
      split_ifs with heq
      · rw [heq]
      · rfl
    · rcases List.mem_append.mp hp with hp | hp
      · exact .inl hp
      · rw [List.mem_singleton.mp hp]
        exact .inr ⟨self, hself, rfl, rfl, rfl⟩
    · have hzero := (h.free_nodes m hm).1
      have hne : m ≠ self.dz := fun heq => hrefcount (heq ▸ hzero)
      simp only [Function.update_of_ne hne, hzero]
    · simp only [List.map_append, List.map_cons, List.map_nil, List.count_append, ← h.count m hm,
        Function.update_apply]
      split_ifs with heq
      · rw [heq, List.count_singleton_self]
      · rw [List.count_eq_zero_of_not_mem (by simpa using heq), Nat.add_zero]
  · have hmono : ∀ m, (s.dz m).refcount ≠ 0 → (Function.update s.dz self.dz
        { s.dz self.dz with refcount := (s.dz self.dz).refcount + 1 } m).refcount ≠ 0 := by
      intro m hm
      rw [Function.update_apply]
      split_ifs
      · exact Nat.succ_ne_zero _
      · exact hm
    exact ⟨fun i a ha => (hheld.live i a ha).imp fun m hm => ⟨hm.1, hmono m hm.2⟩,
      fun l hl => (hheld.stale l hl).imp fun m hm => ⟨hm.1, hmono m hm.2⟩⟩

end Create

/-! ## Deleting -/

section Delete

variable {number : Nat} {mems : List Allocation} {s t : Sys} {dead : List Nat}
  {chain : Nat → List Nat} {stale : List (List Nat)}

/-- The object is gone and no longer counted. -/
def Sys.drop (s : Sys) (self : MemoryProxy) : Sys :=
  ({ s with proxies := s.proxies.erase self } : Sys).set self.dz fun m =>
    { m with refcount := if m.refcount = 0 then 2 ^ 32 - 1 else m.refcount - 1 }

theorem memoryDeleted_eq (fuel : Nat) (self : MemoryProxy) (s : Sys) :
    memoryDeleted fuel self s = if ((s.drop self).dz self.dz).refcount = 0 then
      dzmemoryFreeChunk fuel self.dz (s.drop self) else .ok (s.drop self) := rfl

theorem Books.drop (h : Books number mems s dead chain stale) {self : MemoryProxy}
    (hself : self ∈ s.proxies) : Books number mems (s.drop self) dead chain stale ∧
      ∀ m, ((s.drop self).dz m).refcount =
        if m = self.dz then (s.dz m).refcount - 1 else (s.dz m).refcount := by
  obtain ⟨hsentinel, hrefcount⟩ := h.of_mem hself
  have hcounts : ∀ m, ((s.drop self).dz m).refcount =
      if m = self.dz then (s.dz m).refcount - 1 else (s.dz m).refcount := fun m => by
    simp only [Sys.drop, set_dz, if_neg hrefcount]
    split_ifs with heq
    · rw [heq]
    · rfl
  refine ⟨h.recount (fun m => ?_) rfl rfl (fun p hp => .inl (List.mem_of_mem_erase hp))
    (fun m hm => ?_) fun m hm => ?_, hcounts⟩
  · simp only [Sys.drop, set_dz]
    split_ifs with heq
    · rw [heq]
    · rfl
  · rw [hcounts m, (h.free_nodes m hm).1]
    split_ifs <;> rfl
  · have hperm := (List.perm_cons_erase hself).map (·.dz)
    rw [List.map_cons] at hperm
    rw [hcounts m, h.count m hm, hperm.count_eq, List.count_cons]
    change _ = ((s.proxies.erase self).map (·.dz)).count m
    grind

/-- What is left of the chains once `l` is freed. -/
theorem ChunkFreed.chained {l : List Nat} {live live' : Nat → Option Allocation}
    {chain' : Nat → List Nat} (h : ChunkFreed s t l) (hs : Chained live s chain) (hl : l.Nodup)
    (hfree : ∀ n ∈ l, n ∉ s.dzMemoryFreeList) (hproxies : ∀ p ∈ s.proxies, p.dz ∉ l)
    (hchain : ∀ j, chain' j = chain j ∧ live' j = live j ∧ (∀ n ∈ chain j, n ∉ l) ∨
      chain' j = [] ∧ live' j = none ∧ ∀ n ∈ chain j, n ∈ l) : Chained live' t chain' := by
  have hothers := h.others
  simp only [Prod.mk.injEq] at hothers
  constructor
  case isChain =>
    intro j a ha
    rcases hchain j with ⟨heq, hlive, hout⟩ | ⟨-, hlive, -⟩
    · rw [heq]
      have hold := hs.isChain j a (hlive ▸ ha)
      have hsame : ∀ n ∈ chain j, t.dz n = s.dz n := fun n hn => h.outer n (hout n hn)
      refine ⟨hold.linked.congr ?_ ?_, hold.owners.imp_of_mem_imp ?_, hold.tiled.congr ?_ ?_⟩
      · exact fun x hx => by rw [hsame x hx]
      · exact fun x hx => by rw [hsame x hx]
      · exact fun x y hx hy hxy => by rw [hsame x hx, hsame y hy, hxy]
      · exact fun x hx => by rw [hsame x hx]
      · exact fun x hx => by rw [hsame x hx]
    · rw [hlive] at ha
      cases ha
  case nodup =>
    intro j
    rcases hchain j with ⟨heq, -⟩ | ⟨heq, -⟩ <;> rw [heq]
    · exact hs.nodup j
    · exact List.nodup_nil
  case disjoint =>
    intro i j n hi hj
    have hdisjoint := hs.disjoint i j n
    have := hchain i
    have := hchain j
    grind
  case beyond =>
    intro j hj
    rcases hchain j with ⟨heq, hlive, -⟩ | ⟨heq, -⟩
    · rw [heq]
      exact hs.beyond j (hlive ▸ hj)
    · exact heq
  case valid =>
    intro n
    by_cases hn : n ∈ l
    · rw [(h.dz n hn).1]
      have := fun j => hchain j
      grind
    · rw [h.outer n hn, hs.valid n]
      refine exists_congr fun j => ?_
      have := hchain j
      grind
  case free =>
    intro n hn
    by_cases hmem : n ∈ l
    · exact (h.dz n hmem).1
    · rw [h.outer n hmem]
      exact hs.free n ((List.mem_append.mp (h.free.subset hn)).resolve_left hmem)
  case free_nodup =>
    rw [h.free.nodup_iff, List.nodup_append]
    refine ⟨hl, hs.free_nodup, fun n hn m hm heq => ?_⟩
    exact hfree n hn (heq ▸ hm)
  case proxies =>
    intro p hp
    rw [hothers.1] at hp
    rw [h.outer _ (hproxies p hp)]
    exact hs.proxies p hp

/-- The books once `l` is freed. -/
theorem Books.of_chunkFreed {l dead' : List Nat} {chain' : Nat → List Nat}
    {stale' : List (List Nat)} (h : Books number mems s dead chain stale) (hl : ChunkFreed s t l)
    (hnodup : l.Nodup) (hzero : ∀ n ∈ l, n + 1 ≠ number ∧ (s.dz n).refcount = 0)
    (hfree : ∀ n ∈ l, n ∉ s.dzMemoryFreeList)
    (hchain : ∀ j, chain' j = chain j ∧ remaining mems dead' j = remaining mems dead j ∧
        (∀ n ∈ chain j, n ∉ l) ∨
      chain' j = [] ∧ remaining mems dead' j = none ∧ ∀ n ∈ chain j, n ∈ l)
    (hdead : dead'.Nodup) (hlt : ∀ i ∈ dead', i < mems.length)
    (hfreed : dead'.filterMap (fun i => mems[i]?.bind Allocation.given) = t.freed)
    (hstale : ∀ l' ∈ stale', l' ∈ stale ∧ ∀ n ∈ l', n ∉ l) (hstale_nodup : stale'.flatten.Nodup)
    (hinvalid : ∀ n ∈ stale.flatten, n ∉ l → n ∈ stale'.flatten) :
    Books number mems t dead' chain' stale' := by
  have hothers := hl.others
  simp only [Prod.mk.injEq] at hothers
  have hproxies : ∀ n ∈ l, n ∉ s.proxies.map (·.dz) := fun n hn hmem => by
    obtain ⟨hne, hcount⟩ := hzero n hn
    rw [h.count n hne, List.count_eq_zero] at hcount
    exact hcount hmem
  have hsame : ∀ l' ∈ stale', ∀ n ∈ l', t.dz n = s.dz n := fun l' hl' n hn =>
    hl.outer n ((hstale l' hl').2 n hn)
  constructor
  case chained =>
    refine hl.chained h.chained hnodup hfree (fun p hp hmem => ?_) hchain
    exact hproxies p.dz hmem (List.mem_map_of_mem hp)
  case dead_nodup => exact hdead
  case dead_lt => exact hlt
  case freed => exact hfreed
  case stale_linked =>
    intro l' hl'
    refine (h.stale_linked l' (hstale l' hl').1).congr (fun n hn => ?_) fun n hn => ?_
    · rw [hsame l' hl' n hn]
    · rw [hsame l' hl' n hn]
  case stale_nodes =>
    intro l' hl' n hn
    rw [hsame l' hl' n hn]
    exact h.stale_nodes l' (hstale l' hl').1 n hn
  case stale_nodup => exact hstale_nodup
  case invalid =>
    intro n hn hv
    have hout : n ∉ l := fun hmem => by
      have := (hl.dz n hmem).1
      omega
    rw [hl.outer n hout] at hv
    exact hinvalid n (h.invalid n hn hv) hout
  case sentinel =>
    intro n hn
    obtain ⟨hv, hn_stale, hproxy⟩ := h.sentinel n hn
    rw [hl.outer n fun hmem => (hzero n hmem).1 hn, hothers.1]
    refine ⟨hv, fun hmem => hn_stale ?_, hproxy⟩
    obtain ⟨l', hl', hn⟩ := List.mem_flatten.mp hmem
    exact List.mem_flatten.mpr ⟨l', (hstale l' hl').1, hn⟩
  case table =>
    intro n hn
    by_cases hmem : n ∈ l
    · exact .inl (hl.free.symm.subset (List.mem_append_left _ hmem))
    · rw [hl.outer n hmem]
      exact (h.table n hn).imp_left fun hn => hl.free.symm.subset (List.mem_append_right _ hn)
  case free_nodes =>
    intro n hn
    by_cases hmem : n ∈ l
    · exact (hl.dz n hmem).2
    · rw [hl.outer n hmem]
      exact h.free_nodes n ((List.mem_append.mp (hl.free.subset hn)).resolve_left hmem)
  case count =>
    intro n hn
    rw [hothers.1, ← h.count n hn]
    by_cases hmem : n ∈ l
    · rw [(hl.dz n hmem).2.1, (hzero n hmem).2]
    · rw [hl.outer n hmem]

/-- The chain of a node that is in use. -/
theorem Books.exists_chunk (h : Books number mems s dead chain stale) {n : Nat} (hn : n + 1 ≠ number)
    (hvalid : (s.dz n).valid = 0 ∨ (s.dz n).valid = 1) : ∃ left right,
      Linked (fun n => (s.dz n).prev) (fun n => (s.dz n).next) none (left ++ n :: right) none ∧
      (left ++ n :: right).Nodup ∧
      ((∀ m ∈ left ++ n :: right, (s.dz m).mem = 0) ∧ left ++ n :: right ∈ stale ∨
      ∃ i a, remaining mems dead i = some a ∧ chain i = left ++ n :: right ∧
        Tiled (fun n => (s.dz n).mem) (fun n => (s.dz n).size) a.mem (left ++ n :: right)
          (a.mem + a.size)) := by
  rcases hvalid with hvalid | hvalid
  · obtain ⟨l, hl, hmem⟩ := List.mem_flatten.mp (h.invalid n hn hvalid)
    obtain ⟨left, right, rfl⟩ := List.append_of_mem hmem
    refine ⟨left, right, h.stale_linked _ hl, ?_, .inl ⟨fun m hm => (h.stale_nodes _ hl m hm).2, hl⟩⟩
    exact (List.nodup_flatten.mp h.stale_nodup).1 _ hl
  · obtain ⟨i, hi⟩ := (h.chained.valid n).mp hvalid
    obtain ⟨left, right, hleft⟩ := List.append_of_mem hi
    obtain ⟨a, ha⟩ : ∃ a, remaining mems dead i = some a := by
      refine Option.ne_none_iff_exists'.mp fun hnone => ?_
      rw [h.chained.beyond i hnone] at hi
      cases hi
    have hchain := h.chained.isChain i a ha
    have hnodup := h.chained.nodup i
    rw [hleft] at hchain hnodup
    exact ⟨left, right, hchain.linked, hnodup, .inr ⟨i, a, ha, hleft, hchain.tiled⟩⟩

theorem Books.stale_unique (h : Books number mems s dead chain stale) {l l' : List Nat}
    (hl : l ∈ stale) (hl' : l' ∈ stale) {n : Nat} (hn : n ∈ l) (hn' : n ∈ l') : l = l' := by
  by_contra hne
  have hdisjoint := (List.nodup_flatten.mp h.stale_nodup).2
  have : Std.Symm (List.Disjoint : List Nat → List Nat → Prop) := ⟨fun _ _ h => h.symm⟩
  exact hdisjoint.forall hl hl' hne hn hn'

/-- Every chain but that of `d` is held. -/
structure HeldBut (d : Nat) (mems : List Allocation) (s : Sys) (dead : List Nat)
    (chain : Nat → List Nat) (stale : List (List Nat)) : Prop where
  live : ∀ i a, remaining mems dead i = some a → d ∉ chain i → ∃ n ∈ chain i, (s.dz n).refcount ≠ 0
  stale : ∀ l ∈ stale, d ∉ l → ∃ n ∈ l, (s.dz n).refcount ≠ 0

theorem Held.drop (hheld : Held mems s dead chain stale) (h : Books number mems s dead chain stale)
    {self : MemoryProxy} (hself : self ∈ s.proxies) :
    HeldBut self.dz mems (s.drop self) dead chain stale := by
  have hcounts : ∀ l : List Nat, self.dz ∉ l → (∃ n ∈ l, (s.dz n).refcount ≠ 0) →
      ∃ n ∈ l, ((s.drop self).dz n).refcount ≠ 0 := by
    rintro l hout ⟨n, hn, hcount⟩
    have hne : n ≠ self.dz := fun heq => hout (heq ▸ hn)
    refine ⟨n, hn, ?_⟩
    rw [(h.drop hself).2 n, if_neg hne]
    exact hcount
  exact ⟨fun i a ha hout => hcounts _ hout (hheld.live i a ha),
    fun l hl hout => hcounts _ hout (hheld.stale l hl)⟩

section Chunk

variable {d : Nat} {l : List Nat}

/-- The chain of `d` has another reference. -/
theorem HeldBut.held (hheld : HeldBut d mems s dead chain stale) (h : Books number mems s dead chain stale)
    (hd : d ∈ l) (hl : l ∈ stale ∨ ∃ i, chain i = l) (hcount : ∃ n ∈ l, (s.dz n).refcount ≠ 0) :
    Held mems s dead chain stale where
  live i a ha := by
    by_cases hi : d ∈ chain i
    · rcases hl with hl | ⟨j, rfl⟩
      · exact absurd hi ((h.stale_not_mem hl hd).1 i)
      · rwa [h.chained.disjoint i j d hi hd]
    · exact hheld.live i a ha hi
  stale l' hl' := by
    by_cases hd' : d ∈ l'
    · rcases hl with hl | ⟨j, rfl⟩
      · rwa [h.stale_unique hl' hl hd' hd]
      · exact absurd hd ((h.stale_not_mem hl' hd').1 j)
    · exact hheld.stale l' hl' hd'

/-- The last reference to a chain of exchanged nodes is gone. -/
theorem Books.free_stale (h : Books number mems s dead chain stale)
    (hheld : HeldBut d mems s dead chain stale) (hd : d ∈ l) (hl : l ∈ stale)
    (hzero : ∀ n ∈ l, (s.dz n).refcount = 0) (ht : ChunkFreed s t l) :
    Books number mems t dead chain (stale.filter (· ≠ l)) ∧
      Held mems t dead chain (stale.filter (· ≠ l)) := by
  have hfreed : t.freed = s.freed := by
    obtain ⟨top, tail, rfl⟩ := List.exists_cons_of_ne_nil (List.ne_nil_of_mem hd)
    rw [ht.freed top rfl, if_pos (h.stale_nodes _ hl top List.mem_cons_self).2, List.append_nil]
  have hrest : ∀ l' ∈ stale.filter (· ≠ l), l' ∈ stale ∧ ∀ n ∈ l', n ∉ l := fun l' hl' => by
    rw [List.mem_filter, decide_eq_true_eq] at hl'
    exact ⟨hl'.1, fun n hn hn' => hl'.2 (h.stale_unique hl'.1 hl hn hn')⟩
  refine ⟨h.of_chunkFreed ht ?_ (fun n hn => ⟨fun hsentinel => ?_, hzero n hn⟩) ?_ (fun j => ?_)
    h.dead_nodup h.dead_lt (hfreed ▸ h.freed) hrest ?_ ?_, fun i a ha => ?_, fun l' hl' => ?_⟩
  · exact (List.nodup_flatten.mp h.stale_nodup).1 l hl
  · exact (h.sentinel n hsentinel).2.1 (List.mem_flatten.mpr ⟨l, hl, hn⟩)
  · exact fun n hn => (h.stale_not_mem hl hn).2
  · exact .inl ⟨rfl, rfl, fun n hn hn' => (h.stale_not_mem hl hn').1 j hn⟩
  · exact h.stale_nodup.sublist (List.filter_sublist.flatten)
  · intro n hn hout
    obtain ⟨l', hl', hn⟩ := List.mem_flatten.mp hn
    refine List.mem_flatten.mpr ⟨l', ?_, hn⟩
    rw [List.mem_filter, decide_eq_true_eq]
    exact ⟨hl', fun heq => hout (heq ▸ hn)⟩
  · obtain ⟨n, hn, hcount⟩ := hheld.live i a ha ((h.stale_not_mem hl hd).1 i)
    refine ⟨n, hn, ?_⟩
    rw [ht.outer n fun hn' => (h.stale_not_mem hl hn').1 i hn]
    exact hcount
  · obtain ⟨hmem, hout⟩ := hrest l' hl'
    obtain ⟨n, hn, hcount⟩ := hheld.stale l' hmem fun hd' => hout d hd' hd
    exact ⟨n, hn, by rw [ht.outer n (hout n hn)]; exact hcount⟩

/-- The last reference to a memory is gone. -/
theorem Books.free_live {i : Nat} {a : Allocation} (h : Books number mems s dead chain stale)
    (hheld : HeldBut d mems s dead chain stale) (hd : d ∈ l) (ha : remaining mems dead i = some a)
    (hl : chain i = l) (hzero : ∀ n ∈ l, (s.dz n).refcount = 0) (ht : ChunkFreed s t l) :
    Books number mems t (dead ++ [i]) (Function.update chain i []) stale ∧
      Held mems t (dead ++ [i]) (Function.update chain i []) stale := by
  subst hl
  have hi : i ∉ dead ∧ mems[i]? = some a := by
    unfold remaining at ha
    grind
  have hlive : ∀ j, remaining mems (dead ++ [i]) j = if j = i then none else remaining mems dead j := by
    intro j
    unfold remaining
    grind
  have hstale : ∀ l ∈ stale, ∀ n ∈ l, n ∉ chain i := fun l hl n hn => (h.stale_not_mem hl hn).1 i
  have hother : ∀ j, j ≠ i → ∀ n ∈ chain j, n ∉ chain i := fun j hj n hn hn' =>
    hj (h.chained.disjoint j i n hn hn')
  have hfreed : t.freed = s.freed ++ a.given.toList := by
    have htiled := (h.chained.isChain i a ha).tiled
    have hne := List.ne_nil_of_mem hd
    cases hchain : chain i with
    | nil => exact absurd hchain hne
    | cons top tail =>
      rw [hchain] at htiled
      have htop : (s.dz top).mem = a.mem := htiled.1
      have hsize := htiled.top_eq
      have hsum : ((top :: tail).map fun n => (s.dz n).size).sum = a.size := by omega
      rw [ht.freed top (by rw [hchain]; rfl), htop, hchain, hsum, Allocation.given]
      split <;> rfl
  refine ⟨h.of_chunkFreed ht (h.chained.nodup i) (fun n hn => ⟨fun hsentinel => ?_, hzero n hn⟩)
    (fun n hn hfree => ?_) (fun j => ?_) ?_ ?_ ?_ (fun l hl => ⟨hl, hstale l hl⟩) h.stale_nodup
    (fun n hn _ => hn), fun j b hb => ?_, fun l hl => ?_⟩
  · have hv := (h.chained.valid n).mpr ⟨i, hn⟩
    have := (h.sentinel n hsentinel).1
    omega
  · have hv := (h.chained.valid n).mpr ⟨i, hn⟩
    have := h.chained.free n hfree
    omega
  · by_cases hj : j = i
    · rw [hj, Function.update_self, hlive, if_pos rfl]
      exact .inr ⟨rfl, rfl, fun n hn => hn⟩
    · rw [Function.update_of_ne hj, hlive, if_neg hj]
      exact .inl ⟨rfl, rfl, hother j hj⟩
  · exact List.nodup_append.mpr ⟨h.dead_nodup, List.nodup_singleton i, by grind⟩
  · refine List.forall_mem_append.mpr ⟨h.dead_lt, List.forall_mem_singleton.mpr ?_⟩
    exact (List.getElem?_eq_some_iff.mp hi.2).1
  · rw [List.filterMap_append, h.freed, hfreed, List.filterMap_cons, hi.2, Option.bind_some]
    cases a.given <;> rfl
  · rw [hlive] at hb
    have hj : j ≠ i := by
      rintro rfl
      simp at hb
    rw [if_neg hj] at hb
    obtain ⟨n, hn, hcount⟩ := hheld.live j b hb fun hd' => hother j hj d hd' hd
    rw [Function.update_of_ne hj]
    exact ⟨n, hn, by rw [ht.outer n (hother j hj n hn)]; exact hcount⟩
  · obtain ⟨n, hn, hcount⟩ := hheld.stale l hl fun hd' => hstale l hl d hd' hd
    exact ⟨n, hn, by rw [ht.outer n (hstale l hl n hn)]; exact hcount⟩

end Chunk

/-- What the death of `proxy` does to the books: a memory dies if `proxy` was the last object of its
chain. -/
structure Buried (number : Nat) (mems : List Allocation) (proxy : MemoryProxy) (s t : Sys)
    (dead : List Nat) (chain : Nat → List Nat) (dead' : List Nat) (chain' : Nat → List Nat)
    (stale' : List (List Nat)) : Prop where
  books : Books number mems t dead' chain' stale'
  held : Held mems t dead' chain' stale'
  allocated : t.allocated = s.allocated
  chain_sub : ∀ j, ∀ n ∈ chain' j, n ∈ chain j
  dead_sub : ∀ i ∈ dead', i ∈ dead ∨
    proxy.dz ∈ chain i ∧ ∀ n ∈ chain i, ((s.drop proxy).dz n).refcount = 0

/-- **The death of an object** keeps the books, and the chain goes with its last reference. -/
theorem Books.delete (h : Books number mems s dead chain stale) (hheld : Held mems s dead chain stale)
    {self : MemoryProxy} (hself : self ∈ s.proxies)
    (hlast : ∀ i a, remaining mems dead i = some a → self.dz ∈ chain i →
      (∀ n ∈ chain i, ((s.drop self).dz n).refcount = 0) →
      4 < a.size ∨ ∀ n ∈ chain i, (s.dz n).mem = 0) : ∃ bound, ∀ fuel,
      memoryDeleted fuel self s = .error .running ∧ fuel ≤ bound ∨
      ∃ t dead' chain' stale', memoryDeleted fuel self s = .ok t ∧
        Buried number mems self s t dead chain dead' chain' stale' := by
  obtain ⟨hu, hcounts⟩ := h.drop hself
  have hheld_u := hheld.drop h hself
  have hvalid : ((s.drop self).dz self.dz).valid = 0 ∨ ((s.drop self).dz self.dz).valid = 1 := by
    have hproxy := h.chained.proxies self hself
    simp only [Sys.drop, set_dz, if_true]
    exact hproxy.imp_right And.left
  have hmem_eq : ∀ n, ((s.drop self).dz n).mem = (s.dz n).mem := fun n => by
    simp only [Sys.drop, set_dz]
    split
    case isTrue heq => rw [heq]
    case isFalse => rfl
  obtain ⟨left, right, hl, hnodup, hwhere⟩ := hu.exists_chunk (h.of_mem hself).1 hvalid
  have hmem : self.dz ∈ left ++ self.dz :: right := by simp
  have hsome : left ++ self.dz :: right ∈ stale ∨ ∃ i, chain i = left ++ self.dz :: right :=
    hwhere.imp And.right fun ⟨i, _, _, hi, _⟩ => ⟨i, hi⟩
  have hmemory : (∀ n ∈ left ++ self.dz :: right, ((s.drop self).dz n).mem = 0) ∨
      ∃ base size, ((∀ n ∈ left ++ self.dz :: right, ((s.drop self).dz n).refcount = 0) → 4 < size) ∧
        Tiled (fun n => ((s.drop self).dz n).mem) (fun n => ((s.drop self).dz n).size) base
          (left ++ self.dz :: right) (base + size) := by
    rcases hwhere with ⟨hzero, -⟩ | ⟨i, a, ha, hi, htiled⟩
    · exact .inl hzero
    by_cases hdies : ∀ n ∈ chain i, ((s.drop self).dz n).refcount = 0
    · rcases hlast i a ha (hi ▸ hmem) hdies with hsize | hzero
      · exact .inr ⟨a.mem, a.size, fun _ => hsize, htiled⟩
      · exact .inl fun n hn => (hmem_eq n).trans (hzero n (hi ▸ hn))
    · exact .inr ⟨a.mem, a.size, fun hall => absurd (hi ▸ hall) hdies, htiled⟩
  refine ⟨(left ++ self.dz :: right).length, fun fuel => ?_⟩
  rw [memoryDeleted_eq]
  split
  case isFalse hcount =>
    exact .inr ⟨_, _, _, _, rfl, hu, hheld_u.held hu hmem hsome ⟨_, hmem, hcount⟩, rfl,
      fun _ _ hn => hn, fun _ hi => .inl hi⟩
  case isTrue =>
    rcases dzmemoryFreeChunk_spec fuel hl hnodup hmemory with hrunning | ⟨hok, hcount⟩ |
      ⟨⟨t, hok, ht⟩, hzero⟩
    · exact .inl hrunning
    · exact .inr ⟨_, _, _, _, hok, hu, hheld_u.held hu hmem hsome hcount, rfl,
        fun _ _ hn => hn, fun _ hi => .inl hi⟩
    · have hallocated : t.allocated = s.allocated := (Prod.mk.inj ht.others).2
      rcases hwhere with ⟨-, hl⟩ | ⟨i, a, ha, hi, -⟩
      · obtain ⟨hbooks, hheld⟩ := hu.free_stale hheld_u hmem hl hzero ht
        exact .inr ⟨t, _, _, _, hok, hbooks, hheld, hallocated, fun _ _ hn => hn,
          fun _ hi => .inl hi⟩
      · obtain ⟨hbooks, hheld⟩ := hu.free_live hheld_u hmem ha hi hzero ht
        refine .inr ⟨t, _, _, _, hok, hbooks, hheld, hallocated, fun j n hn => ?_, fun j hj => ?_⟩
        · rw [Function.update_apply] at hn
          split at hn
          · cases hn
          · exact hn
        · refine (List.mem_append.mp hj).imp_right fun hj => ?_
          rw [List.mem_singleton.mp hj, hi]
          exact ⟨hmem, hzero⟩

end Delete

/-! ## Runs -/

/-- What happens to memory objects. -/
inductive Life where
  | call (c : Call)
  | copyMemory (self : MemoryProxy) (quota room : Nat)
  | memoryDeleted (fuel : Nat) (self : MemoryProxy)

namespace Life

variable (dzMemory dzMemoryBorder : Nat)

/-- `jxmalloc` does not answer with `NULL`, and what is called, copied or deleted is an object. -/
def Possible (s : Sys) : Life → Prop
  | call (.createMemoryInstance block size bytes room) =>
    block ≠ 0 ∧ (Call.createMemoryInstance block size bytes room).Possible s
  | call c => c.Possible s
  | copyMemory self _ _ | memoryDeleted _ self => self ∈ s.proxies

def Leads (s t : Sys) : Life → Prop
  | call c => c.Leads dzMemory dzMemoryBorder s t
  | copyMemory self quota room => ∃ o, Region.copyMemory self quota room s = .ok (o, t)
  | memoryDeleted fuel self => Region.memoryDeleted fuel self s = .ok t

/-- There is an object for every node that the call makes, and it creates no memory that cannot be
given back. -/
def Counted (s : Sys) : Life → Prop
  | call (.createMemoryInstance block size bytes room) =>
    (alignedAt block size bytes).Whole ∧ 4 < size ∧ 1 ≤ room
  | call (.getSubRange _ self offset len word0 word2 _) => (s.dz self.dz).valid = 0 ∨
    strayDecrements (s.dz self.dz).size offset len word0 word2 = []
  | call (.split2 _ self offset arr room) =>
    (s.dz self.dz).valid = 0 ∨ (Splits2 s self offset arr → 2 ≤ room)
  | call (.split3 _ self offset len arr room) =>
    (s.dz self.dz).valid = 0 ∨ (Splits3 s self offset len arr → 3 ≤ room)
  | call (.joinPrevious _ self room) | call (.joinAll _ _ self room) =>
    (s.dz self.dz).valid = 0 ∨ 1 ≤ room
  | call (.joinNext cdom self room) =>
    (s.dz self.dz).valid = 0 ∨ (s.dz self.dz).nextOwner ≠ cdom ∨ 1 ≤ room
  | call (.revoke _ _ self room) => (s.dz self.dz).valid = 0 ∨
    (s.dz self.dz).prev = none ∧ (s.dz self.dz).next = none ∧ 1 ≤ room
  | copyMemory _ _ _ | memoryDeleted _ _ => True

end Life

section Step

variable {dzMemory dzMemoryBorder number : Nat} {s t : Sys} {dead : List Nat}
  {chain : Nat → List Nat} {stale : List (List Nat)} {o : Outcome}

/-- Out of range, `memory_getSubRange` raises. -/
theorem memoryGetSubRange_same {live : Nat → Option Allocation}
    {cdom room : Nat} {word0 word2 : Word} {self : MemoryProxy} {offset len : Memory.Jint}
    (hs : Chained live s chain) (hself : self ∈ s.proxies)
    (hstray : strayDecrements (s.dz self.dz).size offset len word0 word2 = [])
    (h : memoryGetSubRange dzMemory dzMemoryBorder cdom self offset len word0 word2 room s =
      .ok (o, t)) : t = s := by
  rcases checkValid_ok h with ⟨hsame, -⟩ | ⟨hvalid, h⟩
  · exact hsame
  obtain ⟨-, i, left, right, hi, hseg⟩ := hs.of_self hself hvalid
  simp only [bind_eq_ok, assert_eq_ok] at h
  obtain ⟨-, -, -, -, h⟩ := h
  unfold strayDecrements at hstray
  split at h
  case isTrue hsum =>
    rw [if_pos hsum] at hstray
    simp only [bind_eq_ok] at h
    obtain ⟨⟨_ | ⟨n0, n1⟩, s₁⟩, hr, h⟩ := h
    · cases h
      exact dzmemorySplit2_none hr
    · obtain ⟨-, -, -, hrange⟩ := dzmemorySplit2_replaced hseg hr
      rw [hrange] at hstray
      cases hstray
  case isFalse hsum =>
    rw [if_neg hsum] at hstray
    simp only [bind_eq_ok] at h
    obtain ⟨⟨_ | ⟨n0, n1, n2⟩, s₁⟩, hr, h⟩ := h
    · cases h
      exact dzmemorySplit3_none hr
    · obtain ⟨-, -, -, -, hrange⟩ := dzmemorySplit3_replaced hseg hr
      rw [hrange] at hstray
      cases hstray

/-- Where the border belongs to another domain, `memory_joinNext` does nothing. -/
theorem memoryJoinNext_same {cdom room : Nat} {self : MemoryProxy}
    (howner : (s.dz self.dz).nextOwner ≠ cdom)
    (h : memoryJoinNext cdom self room s = .ok (o, t)) : t = s := by
  rcases checkValid_ok h with ⟨hsame, -⟩ | ⟨-, h⟩
  · exact hsame
  · simp only [howner, ne_eq, not_false_eq_true, if_true, pure_eq_ok, Prod.mk.injEq] at h
    exact h.2.symm

/-- What a call other than a creation does: nothing, or nodes are exchanged with an object for each
new one. -/
theorem Call.counted_cases {c : Call} {live : Nat → Option Allocation} (hs : Chained live s chain)
    (hc : c.Possible s) (hb : (Life.call c).Counted s)
    (hrun : c.run dzMemory dzMemoryBorder s = .ok (o, t)) :
    (∃ block size bytes room, c = .createMemoryInstance block size bytes room) ∨ t = s ∨
      ∃ self ∈ s.proxies, c.target s = some self ∧ ∃ i left mid new right,
        chain i = left ++ mid ++ right ∧ self.dz ∈ mid ∧ Replaced s t left mid new right ∧
        Recounted s t mid new new := by
  -- A call on an invalid object raises.
  have hinvalid : ∀ {self : MemoryProxy} {rest : Result},
      checkValid self s rest = .ok (o, t) → (s.dz self.dz).valid = 0 → t = s := by
    intro self rest hrun hvalid
    rcases checkValid_ok hrun with ⟨hsame, -⟩ | ⟨hne, -⟩
    · exact hsame
    · exact absurd hvalid hne
  have heffect : ∀ {self : MemoryProxy} {counted : Prop}, Effect s t chain self.dz o counted →
      counted → t = s ∨ ∃ i left mid new right, chain i = left ++ mid ++ right ∧ self.dz ∈ mid ∧
        Replaced s t left mid new right ∧ Recounted s t mid new new := by
    rintro self counted (⟨hsame, -⟩ | ⟨i, left, mid, new, right, hi, hmem, hrep, hcount⟩) hcounted
    · exact .inl hsame
    · exact .inr ⟨i, left, mid, new, right, hi, hmem, hrep, hcount hcounted⟩
  cases c with
  | createMemoryInstance block size bytes room => exact .inl ⟨block, size, bytes, room, rfl⟩
  | getSubRange cdom self =>
    rcases hb with hvalid | hstray
    · exact .inr (.inl (hinvalid hrun hvalid))
    · exact .inr (.inl (memoryGetSubRange_same hs hc hstray hrun))
  | split2 cdom self =>
    rcases hb with hvalid | hroom
    · exact .inr (.inl (hinvalid hrun hvalid))
    · exact .inr ((heffect (memorySplit2_effect hs hc hrun) hroom).imp_right fun h => ⟨self, hc, rfl, h⟩)
  | split3 cdom self =>
    rcases hb with hvalid | hroom
    · exact .inr (.inl (hinvalid hrun hvalid))
    · exact .inr ((heffect (memorySplit3_effect hs hc hrun) hroom).imp_right fun h => ⟨self, hc, rfl, h⟩)
  | joinPrevious cdom self =>
    rcases hb with hvalid | hroom
    · exact .inr (.inl (hinvalid hrun hvalid))
    · exact .inr ((heffect (memoryJoinPrevious_effect hs hc hrun) hroom).imp_right
        fun h => ⟨self, hc, rfl, h⟩)
  | joinNext cdom self =>
    rcases hb with hvalid | hnext
    · exact .inr (.inl (hinvalid hrun hvalid))
    by_cases howner : (s.dz self.dz).nextOwner = cdom
    · have hroom := hnext.resolve_left (not_not.mpr howner)
      have h := (memoryJoinNext_effect hs hc hrun).resolve_left fun h => h.1 howner
      exact .inr ((heffect h hroom).imp_right fun h => ⟨self, hc, if_pos howner, h⟩)
    · exact .inr (.inl (memoryJoinNext_same howner hrun))
  | joinAll fuel cdom self =>
    rcases hb with hvalid | hroom
    · exact .inr (.inl (hinvalid hrun hvalid))
    · exact .inr ((heffect (memoryJoinAll_effect hs hc hrun) hroom).imp_right
        fun h => ⟨self, hc, rfl, h⟩)
  | revoke fuel cdom self =>
    rcases hb with hvalid | ⟨hprev, hnext, hroom⟩
    · exact .inr (.inl (hinvalid hrun hvalid))
    · exact .inr ((heffect (memoryRevoke_alone hs hc hprev hnext hroom hrun) hroom).imp_right
        fun h => ⟨self, hc, rfl, h⟩)

theorem Call.Leads.exists_run {c : Call} (h : c.Leads dzMemory dzMemoryBorder s t)
    (hdefined : Defined (c.run dzMemory dzMemoryBorder s)) :
    ∃ o, c.run dzMemory dzMemoryBorder s = .ok (o, t) := by
  unfold Call.Leads at h
  split at h
  case h_1 o s' hrun => exact ⟨o, h ▸ hrun⟩
  case h_2 hrun => exact absurd hrun hdefined
  case h_3 => exact h.elim

/-- No call with an object for each node runs into what C leaves open. -/
theorem Life.exists_run {c : Call} {live : Nat → Option Allocation} (hs : Chained live s chain)
    (hc : (Life.call c).Possible s) (hb : (Life.call c).Counted s)
    (hleads : (Life.call c).Leads dzMemory dzMemoryBorder s t) :
    c.Possible s ∧ ∃ o, c.run dzMemory dzMemoryBorder s = .ok (o, t) := by
  have hcall : c.Possible s ∧ c.Benign dzMemory dzMemoryBorder s := by
    cases c with
    | createMemoryInstance => exact ⟨hc.2, trivial⟩
    | getSubRange => exact ⟨hc, hb.imp_right fun hstray d hd => by rw [hstray] at hd; cases hd⟩
    | revoke => exact ⟨hc, hb.imp_right fun ⟨hprev, hnext, hroom⟩ =>
        ⟨.inl hprev, .inl hnext, hroom⟩⟩
    | _ => exact ⟨hc, trivial⟩
  exact ⟨hcall.1, Call.Leads.exists_run hleads (c.defined hs hcall.1 hcall.2)⟩

theorem alignedAt_mem_ne {block : Nat} (hblock : block ≠ 0) (size bytes : Nat) :
    (alignedAt block size bytes).mem ≠ 0 := by
  have hmod := Nat.mod_le block bytes
  simp only [alignedAt]
  split <;> omega

/-- All that was allocated can be given back. -/
def Sys.Sound (s : Sys) : Prop := ∀ a ∈ s.allocated, a.Whole ∧ a.mem ≠ 0 ∧ 4 < a.size

theorem Sys.Sound.of_remaining (h : s.Sound) {i : Nat} {a : Allocation}
    (ha : remaining s.allocated dead i = some a) : a.Whole ∧ a.mem ≠ 0 ∧ 4 < a.size := by
  unfold remaining at ha
  split at ha
  · cases ha
  · exact h a (List.mem_of_getElem? ha)

/-- One step keeps the books. -/
theorem Books.step {e : Life} (h : Books number s.allocated s dead chain stale)
    (hheld : Held s.allocated s dead chain stale) (hsound : s.Sound) (hc : e.Possible s)
    (hb : e.Counted s) (hleads : e.Leads dzMemory dzMemoryBorder s t) :
    t.Sound ∧ ∃ dead' chain' stale', Books number t.allocated t dead' chain' stale' ∧
      Held t.allocated t dead' chain' stale' := by
  cases e with
  | copyMemory self quota room =>
    obtain ⟨o, hrun⟩ := hleads
    have hallocated : t.allocated = s.allocated := by
      rcases copyMemory_ok hrun with rfl | rfl <;> rfl
    have hcopy := h.copy hheld hc hrun
    rw [← hallocated] at hcopy
    exact ⟨by rwa [Sys.Sound, hallocated], _, _, _, hcopy⟩
  | memoryDeleted fuel self =>
    obtain ⟨bound, hdelete⟩ := h.delete hheld hc fun i a ha _ _ => .inl (hsound.of_remaining ha).2.2
    change memoryDeleted fuel self s = .ok t at hleads
    rcases hdelete fuel with ⟨hrunning, -⟩ | ⟨t', dead', chain', stale', hok, ht⟩
    · rw [hrunning] at hleads
      cases hleads
    · obtain rfl : t' = t := Except.ok.inj (hok.symm.trans hleads)
      rw [Sys.Sound, ht.allocated]
      exact ⟨hsound, _, _, _, ht.books, ht.held⟩
  | call c =>
    obtain ⟨hposs, o, hrun⟩ := Life.exists_run h.chained hc hb hleads
    rcases c.counted_cases h.chained hposs hb hrun with ⟨block, size, bytes, room, rfl⟩ | rfl |
      ⟨self, hself, -, i, left, mid, new, right, hi, hmem, hrep, hcount⟩
    · obtain ⟨n, hn⟩ := createMemoryInstance_ok hrun
      obtain ⟨hwhole, hsize, hroom⟩ := hb
      rw [Sys.Sound, hn.allocated]
      refine ⟨List.forall_mem_append.mpr ⟨hsound, List.forall_mem_singleton.mpr ?_⟩, _, _, _,
        h.create hheld hroom hn⟩
      exact ⟨hwhole, alignedAt_mem_ne hc.1 size bytes, hsize⟩
    · exact ⟨hsound, _, _, _, h, hheld⟩
    · rw [Sys.Sound, hrep.allocated]
      exact ⟨hsound, _, _, _, h.exchange hi (List.ne_nil_of_mem hmem) hrep hcount,
        hheld.exchange h hi hrep hcount hself hmem⟩

end Step

/-! ## The counts -/

/-- The blocks that `jxmalloc` gave: the first one and how many. -/
def Allocation.blocks (a : Allocation) : Nat × Nat :=
  (a.block / Malloc.blockSize, Malloc.Allocator.sizeBlkOf a.blockSize)

/-- **The counts of memories.** Every node but `dzInvalid` counts its objects. For each allocation
there is either one call of `jxfree` with its blocks, or a chain that covers it and at least one
object on it. A node is free if and only if none of the nodes it hangs together with has an object,
and no assertion fails when an object dies. -/
structure Accounted (number : Nat) (s : Sys) : Prop where
  counts : ∀ n, n + 1 ≠ number → (s.dz n).refcount = s.proxies.countP (·.dz = n)
  memories : ∃ (dead : List Nat) (chain : Nat → List Nat), dead.Nodup ∧
    (dead.map fun i => s.allocated[i]?.map Allocation.blocks) =
      (s.freed.map fun f => some (f.1 / Malloc.blockSize, Malloc.Allocator.sizeBlkOf f.2)) ∧
    (∀ n, (s.dz n).valid = 1 ↔ ∃ i, n ∈ chain i) ∧
    (∀ i j n, n ∈ chain i → n ∈ chain j → i = j) ∧
    ∀ i a, s.allocated[i]? = some a →
      i ∈ dead ∧ chain i = [] ∨
      i ∉ dead ∧ (∃ p ∈ s.proxies, p.dz ∈ chain i) ∧
        Linked (fun n => (s.dz n).prev) (fun n => (s.dz n).next) none (chain i) none ∧
        Tiled (fun n => (s.dz n).mem) (fun n => (s.dz n).size) a.mem (chain i) (a.mem + a.size)
  free : ∀ n, n + 1 < number → (n ∈ s.dzMemoryFreeList ↔ ¬∃ p ∈ s.proxies,
    Relation.ReflTransGen (fun x y => (s.dz x).next = some y ∨ (s.dz x).prev = some y) n p.dz)
  deleted : ∀ p ∈ s.proxies, ∃ fuel t, memoryDeleted fuel p s = .ok t

section Accounted

variable {dzMemory dzMemoryBorder number : Nat} {mems : List Allocation} {s : Sys}
  {dead : List Nat} {chain : Nat → List Nat} {stale : List (List Nat)}

theorem map_eq_map_filterMap {α β γ : Type*} {l : List α} {f : α → Option γ} {g : α → Option β}
    {b : β → γ} (h : ∀ i ∈ l, ∃ y, g i = some y ∧ f i = some (b y)) :
    l.map f = (l.filterMap g).map fun y => some (b y) := by
  induction l with
  | nil => rfl
  | cons i l ih =>
    rw [List.forall_mem_cons] at h
    obtain ⟨⟨y, hg, hf⟩, hl⟩ := h
    rw [List.map_cons, List.filterMap_cons_some hg, List.map_cons, hf, ih hl]

/-- A node with a count has an object. -/
theorem Books.exists_proxy (h : Books number mems s dead chain stale) {n : Nat} (hn : n + 1 ≠ number)
    (hcount : (s.dz n).refcount ≠ 0) : ∃ p ∈ s.proxies, p.dz = n := by
  rw [h.count n hn] at hcount
  exact List.mem_map.mp (List.count_pos_iff.mp (Nat.pos_of_ne_zero hcount))

theorem Books.accounted (h : Books number s.allocated s dead chain stale)
    (hheld : Held s.allocated s dead chain stale) (hsound : s.Sound) : Accounted number s := by
  constructor
  case counts =>
    intro n hn
    rw [h.count n hn, List.count, List.countP_map]
    congr 1
  case memories =>
    refine ⟨dead, chain, h.dead_nodup, ?_, h.chained.valid, h.chained.disjoint, fun i a ha => ?_⟩
    · let blocks (f : Nat × Nat) : Nat × Nat :=
        (f.1 / Malloc.blockSize, Malloc.Allocator.sizeBlkOf f.2)
      rw [← h.freed]
      refine map_eq_map_filterMap (b := blocks) fun i hi => ?_
      obtain ⟨a, ha⟩ : ∃ a, s.allocated[i]? = some a := ⟨_, List.getElem?_eq_getElem (h.dead_lt i hi)⟩
      obtain ⟨⟨hmem, hsize⟩, hne, -⟩ := hsound a (List.mem_of_getElem? ha)
      refine ⟨(a.mem, a.size), ?_, ?_⟩
      · rw [ha, Option.bind_some, Allocation.given, if_neg hne]
      · rw [ha, Option.map_some, Allocation.blocks, ← hmem, ← hsize]
    · by_cases hi : i ∈ dead
      · exact .inl ⟨hi, h.chained.beyond i (by simp [remaining, hi])⟩
      have hlive : remaining s.allocated dead i = some a := by simp [remaining, hi, ha]
      have hchain := h.chained.isChain i a hlive
      obtain ⟨n, hn, hcount⟩ := hheld.live i a hlive
      have hne : n + 1 ≠ number := fun heq => by
        have hv := (h.chained.valid n).mpr ⟨i, hn⟩
        have := (h.sentinel n heq).1
        omega
      obtain ⟨p, hp, rfl⟩ := h.exists_proxy hne hcount
      exact .inr ⟨hi, ⟨p, hp, hn⟩, hchain.linked, hchain.tiled⟩
  case free =>
    intro n hn
    constructor
    · rintro hfree ⟨p, hp, hpath⟩
      obtain ⟨hzero, hprev, hnext⟩ := h.free_nodes n hfree
      rcases hpath.cases_head with heq | ⟨m, hstep, -⟩
      · exact (h.of_mem hp).2 (heq ▸ hzero)
      · simp [hprev, hnext] at hstep
    · intro hnone
      by_contra hfree
      have hvalid := (h.table n (by omega)).resolve_left hfree
      obtain ⟨left, right, hl, -, hwhere⟩ := h.exists_chunk (by omega) hvalid
      have hmem : n ∈ left ++ n :: right := by simp
      -- Some node of the chain has a count, and so an object.
      obtain ⟨m, hm, hne, hcount⟩ : ∃ m ∈ left ++ n :: right, m + 1 ≠ number ∧
          (s.dz m).refcount ≠ 0 := by
        rcases hwhere with ⟨-, hstale⟩ | ⟨i, a, ha, hi, -⟩
        · obtain ⟨m, hm, hcount⟩ := hheld.stale _ hstale
          refine ⟨m, hm, fun heq => ?_, hcount⟩
          exact (h.sentinel m heq).2.1 (List.mem_flatten.mpr ⟨_, hstale, hm⟩)
        · obtain ⟨m, hm, hcount⟩ := hheld.live i a ha
          rw [hi] at hm
          refine ⟨m, hm, fun heq => ?_, hcount⟩
          have hv := (h.chained.valid m).mpr ⟨i, hi ▸ hm⟩
          have := (h.sentinel m heq).1
          omega
      obtain ⟨p, hp, rfl⟩ := h.exists_proxy hne hcount
      exact hnone ⟨p, hp, hl.connected hmem hm⟩
  case deleted =>
    intro p hp
    obtain ⟨bound, hdelete⟩ := h.delete hheld hp fun i a ha _ _ => .inl (hsound.of_remaining ha).2.2
    rcases hdelete (bound + 1) with ⟨-, hle⟩ | ⟨t, -, -, -, hok, -⟩
    · exact absurd hle (Nat.not_succ_le_self bound)
    · exact ⟨_, t, hok⟩

theorem init_books (number : Nat) : Books number [] (init number) [] (fun _ => []) [] where
  chained := by
    have hlive : remaining [] [] = fun i => (init number).allocated[i]? := by
      funext i
      simp [remaining, init]
    rw [hlive]
    exact init_chains number
  dead_nodup := List.nodup_nil
  dead_lt i hi := by cases hi
  freed := rfl
  stale_linked l hl := by cases hl
  stale_nodes l hl := by cases hl
  stale_nodup := List.nodup_nil
  invalid n hn hv := by
    simp only [init, if_neg hn] at hv
    cases hv
  sentinel n hn := by simp [init, hn]
  table n hn := by
    simp only [init, mem_countdown]
    by_cases heq : n + 1 = number
    · exact .inr (.inl (if_pos heq))
    · exact .inl (by omega)
  free_nodes n hn := by
    have hlt := mem_countdown.mp hn
    simp only [init, and_self, and_true]
    exact if_neg (by omega)
  count n hn := by simp [init, hn]

theorem init_held (number : Nat) : Held [] (init number) [] (fun _ => []) [] where
  live i a ha := by simp [remaining] at ha
  stale l hl := by cases hl

/-- In every run whose steps make an object for each node, the counts are right in every state. -/
theorem accounted_of_counted (number : Nat) {s : Sys}
    (hrun : Relation.ReflTransGen (fun s t => ∃ e : Life, e.Possible s ∧ e.Counted s ∧
      e.Leads dzMemory dzMemoryBorder s t) (init number) s) : Accounted number s := by
  let I (s : Sys) : Prop := s.Sound ∧ ∃ dead chain stale,
    Books number s.allocated s dead chain stale ∧ Held s.allocated s dead chain stale
  have hinit : I (init number) :=
    ⟨fun a ha => (by cases ha), _, _, _, init_books number, init_held number⟩
  have hstep : ∀ s t, I s → (∃ e : Life, e.Possible s ∧ e.Counted s ∧
      e.Leads dzMemory dzMemoryBorder s t) → I t := by
    rintro s t ⟨hsound, dead, chain, stale, h, hheld⟩ ⟨e, hc, hb, hleads⟩
    exact h.step hheld hsound hc hb hleads
  obtain ⟨hsound, dead, chain, stale, h, hheld⟩ := invariant_of_run hstep hrun hinit
  exact h.accounted hheld hsound

end Accounted

theorem Life.Leads.of_call {dzMemory dzMemoryBorder : Nat} {c : Call} {s t : Sys} {o : Outcome}
    (h : c.run dzMemory dzMemoryBorder s = .ok (o, t)) :
    (Life.call c).Leads dzMemory dzMemoryBorder s t := Call.Leads.of_ok h

theorem Life.Leads.of_deleted {dzMemory dzMemoryBorder fuel : Nat} {self : MemoryProxy} {s t : Sys}
    (h : Region.memoryDeleted fuel self s = .ok t) :
    (Life.memoryDeleted fuel self).Leads dzMemory dzMemoryBorder s t := h

/-- A memory is created and split, and all three objects die. -/
theorem accounted_freed : ∃ s : Sys, s.freed = [(0x400000, 64)] ∧ Accounted 20000 s :=
  ⟨_, rfl, @accounted_of_counted 0x300000 0x3afc80 20000 _
    (.tail (.tail (.tail (.tail (.tail .refl
      ⟨.call (.createMemoryInstance 0x400000 64 1 1), ⟨by decide, by decide⟩,
        ⟨⟨rfl, rfl⟩, by decide, by decide⟩, .of_call rfl⟩)
      ⟨.call (.split2 2 ⟨64, 0x400000, 19998⟩ 32 (some 2) 2), by exact List.mem_cons_self,
        .inr fun _ => by decide, .of_call rfl⟩)
      ⟨.memoryDeleted 2 ⟨64, 0x400000, 19998⟩, by exact List.mem_cons_self, trivial, .of_deleted rfl⟩)
      ⟨.memoryDeleted 3 ⟨32, 0x400000, 19997⟩, by exact List.mem_cons_self, trivial, .of_deleted rfl⟩)
      ⟨.memoryDeleted 3 ⟨32, 0x400020, 19996⟩, by exact List.mem_cons_self, trivial, .of_deleted rfl⟩)⟩

/-- `memory_getSubRange` counts an object for the part in front, but there is none. -/
theorem not_accounted_getSubRange : ¬∀ (dzMemory dzMemoryBorder number : Nat) (s : Sys),
    Relation.ReflTransGen (fun s t => ∃ e : Life, e.Possible s ∧
      e.Leads dzMemory dzMemoryBorder s t) (init number) s → Accounted number s := by
  intro h
  have haccounted := h 0x300000 0x3afc80 20000 _
    (.tail (.tail .refl
      ⟨.call (.createMemoryInstance 0x400000 64 1 1), ⟨by decide, by decide⟩,
        .of_call rfl⟩)
      ⟨.call (.getSubRange 1 ⟨64, 0x400000, 19998⟩ 16 48 (.foreign 5) (.foreign 5) 1), by exact List.mem_cons_self,
        .of_call rfl⟩)
  exact absurd (haccounted.counts 19997 (by decide)) (by decide)

end JxCore.Region
