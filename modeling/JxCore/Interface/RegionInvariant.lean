import JxCore.Interface.RegionRevoke

/-!
# The chains over whole runs

What the calls on memory objects do to the chains, and that the chains are there in every state of a
run. Two calls can go wrong: `memory_revoke`, if a neighbour is not the caller's or the heap is full,
and `memory_getSubRange`, if one of its stray decrements hits the table or another word of the kernel.
-/

namespace JxCore.Region

/-! ## One call -/

section Calls

variable {s t : Sys} {live : Nat → Option Allocation} {chain : Nat → List Nat} {cdom room : Nat}
  {self : MemoryProxy} {o : Outcome}

/-- The call raises and nothing happens, or other nodes are put in the place of `n` and of some of
its neighbours; if `counted` holds, with an object for each of them. -/
def Effect (s t : Sys) (chain : Nat → List Nat) (n : Nat) (o : Outcome) (counted : Prop) : Prop :=
  t = s ∧ o ≠ .returned ∨ ∃ i left mid new right, chain i = left ++ mid ++ right ∧ n ∈ mid ∧
    Replaced s t left mid new right ∧ (counted → Recounted s t mid new new)

theorem Effect.chains {n : Nat} {counted : Prop} (h : Effect s t chain n o counted) (hs : Chains s chain) :
    ∃ chain', Chains t chain' := by
  rcases h with ⟨rfl, -⟩ | ⟨i, left, mid, new, right, hi, hn, hrep, -⟩
  · exact ⟨chain, hs⟩
  · have hchained := hrep.chains hs hi (List.ne_nil_of_mem hn)
    rw [← hrep.allocated] at hchained
    exact ⟨_, hchained⟩

/-- What is invalid stays so. -/
theorem Effect.invalid {n m : Nat} {counted : Prop} (h : Effect s t chain n o counted)
    (hs : Chained live s chain)
    (hm : (s.dz m).valid = 0) : (t.dz m).valid = 0 := by
  rcases h with ⟨rfl, -⟩ | ⟨i, left, mid, new, right, -, -, hrep, -⟩
  · exact hm
  have hnew : m ∉ new := fun hmem => by
    have hfree := hs.free m (hrep.mem_free hmem)
    omega
  by_cases hmid : m ∈ mid
  · exact hrep.invalid m hmid
  · rw [(hrep.keeps hnew hmid).1, hm]

theorem checkValid_ok {rest : Result} (h : checkValid self s rest = .ok (o, t)) :
    t = s ∧ o ≠ .returned ∨ (s.dz self.dz).valid ≠ 0 ∧ rest = .ok (o, t) := by
  unfold checkValid at h
  split at h
  · cases h
    exact .inl ⟨rfl, by simp⟩
  · rename_i hvalid
    exact .inr ⟨hvalid, h⟩

/-- An object that passes the test is on some chain. -/
theorem Chained.of_self (hs : Chained live s chain) (hself : self ∈ s.proxies)
    (hvalid : (s.dz self.dz).valid ≠ 0) :
    ((s.dz self.dz).valid = 1 ∧ self.size = (s.dz self.dz).size ∧
      self.mem = (s.dz self.dz).mem) ∧
    ∃ i left right, chain i = left ++ [self.dz] ++ right ∧ Segment s left [self.dz] right := by
  have hdz := (hs.proxies self hself).resolve_left hvalid
  exact ⟨hdz, hs.exists_segment hdz.1⟩

theorem Chained.isChain_of_mem {n i : Nat} (hs : Chained live s chain) (hn : n ∈ chain i) :
    ∃ a, IsChain s.dz a (chain i) := by
  obtain ⟨a, ha⟩ : ∃ a, live i = some a := by
    refine Option.ne_none_iff_exists'.mp fun hnone => ?_
    rw [hs.beyond i hnone] at hn
    cases hn
  exact ⟨a, hs.isChain i a ha⟩

theorem Chained.linked {n i : Nat} (hs : Chained live s chain) (hn : n ∈ chain i) :
    Linked (fun n => (s.dz n).prev) (fun n => (s.dz n).next) none (chain i) none :=
  (hs.isChain_of_mem hn).choose_spec.linked

theorem Chained.owners {n i : Nat} (hs : Chained live s chain) (hn : n ∈ chain i) :
    (chain i).IsChain fun x y => (s.dz x).nextOwner = (s.dz y).prevOwner :=
  (hs.isChain_of_mem hn).choose_spec.owners

theorem dzmemorySplit2_none {dzm : Nat} {offset : Memory.Jint}
    (h : dzmemorySplit2 cdom dzm offset s = .ok (none, t)) : t = s := by
  unfold dzmemorySplit2 at h
  simp only [bind_eq_ok, assert_eq_ok] at h
  obtain ⟨-, -, -, -, h⟩ := h
  split at h
  · cases h
    rfl
  · simp only [bind_eq_ok, pure_eq_ok, Prod.mk.injEq, reduceCtorEq, false_and, and_false,
      exists_false] at h

theorem dzmemorySplit3_none {dzm : Nat} {offset len : Memory.Jint}
    (h : dzmemorySplit3 cdom dzm offset len s = .ok (none, t)) : t = s := by
  unfold dzmemorySplit3 at h
  simp only [bind_eq_ok, assert_eq_ok] at h
  obtain ⟨-, -, -, -, h⟩ := h
  split at h
  · cases h
    rfl
  · simp only [bind_eq_ok, pure_eq_ok, Prod.mk.injEq, reduceCtorEq, false_and, and_false,
      exists_false] at h

/-- The object's node is none of those that are put in its place. -/
theorem Replaced.self_not_mem {left new right : List Nat} (hseg : Segment s left [self.dz] right)
    (h : Replaced s t left [self.dz] new right) : self.dz ∉ new := fun hm =>
  (hseg.fresh (h.mem_free hm)).1 (List.mem_singleton_self _)

/-- `memory_split2` has an array for the parts, and they lie in the memory. -/
def Splits2 (s : Sys) (self : MemoryProxy) (offset : Memory.Jint) (arr : Option Nat) : Prop :=
  2 ≤ arr.getD 0 ∧ (offset.slt 0 || (s.dz self.dz).size < offset.toNat) = false

/-- `memory_split3` has an array for the parts, and they lie in the memory. -/
def Splits3 (s : Sys) (self : MemoryProxy) (offset len : Memory.Jint) (arr : Option Nat) : Prop :=
  3 ≤ arr.getD 0 ∧
    (offset.slt 0 || len.slt 0 || (s.dz self.dz).size < (offset + len).toNat) = false

theorem memorySplit2_effect {offset : Memory.Jint} {arr : Option Nat} (hs : Chained live s chain)
    (hself : self ∈ s.proxies) (h : memorySplit2 cdom self offset arr room s = .ok (o, t)) :
    Effect s t chain self.dz o (Splits2 s self offset arr → 2 ≤ room) := by
  rcases checkValid_ok h with hsame | ⟨hvalid, h⟩
  · exact .inl hsame
  obtain ⟨-, i, left, right, hi, hseg⟩ := hs.of_self hself hvalid
  split at h
  · cases h
    exact .inl ⟨rfl, by simp⟩
  rename_i harr
  simp only [bind_eq_ok] at h
  obtain ⟨⟨_ | ⟨n0, n1⟩, s₁⟩, hr, h⟩ := h
  · cases h
    exact .inl ⟨dzmemorySplit2_none hr, by simp⟩
  · obtain ⟨hrep, hcount, -, hrange⟩ := dzmemorySplit2_replaced hseg hr
    simp only [pure_eq_ok] at h
    have hrep' := hrep.allocThenFree (fun n hn => hn) (List.mem_singleton_self _)
      (hrep.self_not_mem hseg) h
    exact .inr ⟨i, left, _, _, right, hi, List.mem_singleton_self _, hrep',
      fun hroom => hcount.allocThenFree (hroom ⟨not_lt.mp harr, hrange⟩) h⟩

theorem memorySplit3_effect {offset len : Memory.Jint} {arr : Option Nat} (hs : Chained live s chain)
    (hself : self ∈ s.proxies) (h : memorySplit3 cdom self offset len arr room s = .ok (o, t)) :
    Effect s t chain self.dz o (Splits3 s self offset len arr → 3 ≤ room) := by
  rcases checkValid_ok h with hsame | ⟨hvalid, h⟩
  · exact .inl hsame
  obtain ⟨-, i, left, right, hi, hseg⟩ := hs.of_self hself hvalid
  split at h
  · cases h
    exact .inl ⟨rfl, by simp⟩
  rename_i harr
  simp only [bind_eq_ok, assert_eq_ok] at h
  obtain ⟨-, -, -, -, ⟨_ | ⟨n0, n1, n2⟩, s₁⟩, hr, h⟩ := h
  · cases h
    exact .inl ⟨dzmemorySplit3_none hr, by simp⟩
  · obtain ⟨hrep, hcount, -, -, hrange⟩ := dzmemorySplit3_replaced hseg hr
    simp only [pure_eq_ok] at h
    have hrep' := hrep.allocThenFree (fun n hn => hn) (List.mem_singleton_self _)
      (hrep.self_not_mem hseg) h
    exact .inr ⟨i, left, _, _, right, hi, List.mem_singleton_self _, hrep',
      fun hroom => hcount.allocThenFree (hroom ⟨not_lt.mp harr, hrange⟩) h⟩

theorem memoryGetSubRange_effect {dzMemory dzMemoryBorder : Nat} {word0 word2 : Word}
    {offset len : Memory.Jint} (hs : Chained live s chain) (hself : self ∈ s.proxies)
    (h : memoryGetSubRange dzMemory dzMemoryBorder cdom self offset len word0 word2 room s =
      .ok (o, t)) : Effect s t chain self.dz o False := by
  rcases checkValid_ok h with hsame | ⟨hvalid, h⟩
  · exact .inl hsame
  obtain ⟨-, i, left, right, hi, hseg⟩ := hs.of_self hself hvalid
  simp only [bind_eq_ok, assert_eq_ok] at h
  obtain ⟨-, -, -, -, h⟩ := h
  split at h
  · simp only [bind_eq_ok] at h
    obtain ⟨⟨_ | ⟨n0, n1⟩, s₁⟩, hr, h⟩ := h
    · cases h
      exact .inl ⟨dzmemorySplit2_none hr, by simp⟩
    · have hrep := (dzmemorySplit2_replaced hseg hr).1
      simp only [bind_eq_ok, pure_eq_ok] at h
      obtain ⟨-, -, h⟩ := h
      have hfreed := hrep.freeDZ (List.mem_singleton_self _) (hrep.self_not_mem hseg)
      have hrep' := hfreed.alloc (by simp) h
      exact .inr ⟨i, left, _, _, right, hi, List.mem_singleton_self _, hrep', False.elim⟩
  · simp only [bind_eq_ok] at h
    obtain ⟨⟨_ | ⟨n0, n1, n2⟩, s₁⟩, hr, h⟩ := h
    · cases h
      exact .inl ⟨dzmemorySplit3_none hr, by simp⟩
    · have hrep := (dzmemorySplit3_replaced hseg hr).1
      simp only [bind_eq_ok, pure_eq_ok] at h
      obtain ⟨-, -, -, -, h⟩ := h
      have hfreed := hrep.freeDZ (List.mem_singleton_self _) (hrep.self_not_mem hseg)
      have hrep' := hfreed.alloc (by simp) h
      exact .inr ⟨i, left, _, _, right, hi, List.mem_singleton_self _, hrep', False.elim⟩

/-- Two neighbours are joined, freed, and an object is made for the new node. -/
theorem joined_effect {left right : List Nat} {i dzm1 dzm2 n : Nat} {s₁ : Sys}
    (hs : Chained live s chain) (hi : chain i = left ++ [dzm1, dzm2] ++ right)
    (hjoin : dzmemoryJoin dzm1 dzm2 s = .ok (n, s₁)) {a b : Nat} (ha : a ∈ [dzm1, dzm2])
    (hb : b ∈ [dzm1, dzm2])
    (h : allocMemoryProxies room [n] ((s₁.freeDZ a).freeDZ b) = (o, t)) :
    Effect s t chain b o (1 ≤ room) := by
  have hseg := hs.segment hi (List.cons_ne_nil _ _)
  obtain ⟨hrep, hcount⟩ := dzmemoryJoin_replaced hseg hjoin
  have hnew : ∀ x ∈ [dzm1, dzm2], x ∉ [n] := fun x hx hm =>
    (hseg.fresh (hrep.mem_free hm)).1 hx
  have hfreed := (hrep.freeDZ ha (hnew a ha)).freeDZ hb (hnew b hb)
  exact .inr ⟨i, left, _, _, right, hi, hb, hfreed.alloc (fun n hn => hn) h,
    fun hroom => ((hcount.freeDZ a).freeDZ b).alloc hroom h⟩

theorem memoryJoinPrevious_effect (hs : Chained live s chain) (hself : self ∈ s.proxies)
    (h : memoryJoinPrevious cdom self room s = .ok (o, t)) :
    Effect s t chain self.dz o (1 ≤ room) := by
  rcases checkValid_ok h with hsame | ⟨hvalid, h⟩
  · exact .inl hsame
  obtain ⟨-, i, left, right, hi, hseg⟩ := hs.of_self hself hvalid
  simp only at h
  split at h
  · cases h
  split at h
  · cases h
  case h_2 p heq =>
    simp only [bind_eq_ok, pure_eq_ok, Prod.exists] at h
    obtain ⟨n, s₁, hjoin, h⟩ := h
    have hprev : (s.dz self.dz).prev = left.getLast? := hseg.linked.1
    obtain ⟨left, rfl⟩ := List.getLast?_eq_some_iff.mp (hprev.symm.trans heq)
    rw [List.append_assoc left] at hi
    exact joined_effect hs hi hjoin (by simp) (by simp) h

theorem memoryJoinNext_effect (hs : Chained live s chain) (hself : self ∈ s.proxies)
    (h : memoryJoinNext cdom self room s = .ok (o, t)) :
    (s.dz self.dz).nextOwner ≠ cdom ∧ t = s ∨ Effect s t chain self.dz o (1 ≤ room) := by
  rcases checkValid_ok h with hsame | ⟨hvalid, h⟩
  · exact .inr (.inl hsame)
  obtain ⟨-, i, left, right, hi, hseg⟩ := hs.of_self hself hvalid
  simp only at h
  split at h
  case isTrue howner =>
    cases h
    exact .inl ⟨howner, rfl⟩
  split at h
  · cases h
  case h_2 n heq =>
    simp only [bind_eq_ok, pure_eq_ok, Prod.exists] at h
    obtain ⟨m, s₁, hjoin, h⟩ := h
    have hnext : (s.dz self.dz).next = right.head? := by simpa using hseg.linked.2.1
    obtain ⟨right, rfl⟩ := List.head?_eq_some_iff.mp (hnext.symm.trans heq)
    have hi' : chain i = left ++ [self.dz, n] ++ right := by simpa using hi
    refine .inr ?_
    exact joined_effect hs hi' hjoin (by simp) (by simp) h

theorem memoryJoinAll_effect {fuel : Nat} (hs : Chained live s chain) (hself : self ∈ s.proxies)
    (h : memoryJoinAll fuel cdom self room s = .ok (o, t)) :
    Effect s t chain self.dz o (1 ≤ room) := by
  rcases checkValid_ok h with hsame | ⟨hvalid, h⟩
  · exact .inl hsame
  obtain ⟨-, i, left, right, hi, hseg⟩ := hs.of_self hself hvalid
  have hlinked := hs.linked (n := self.dz) (i := i) (by simp [hi])
  have howners := hs.owners (n := self.dz) (i := i) (by simp [hi])
  have hnodup := hs.nodup i
  simp only [bind_eq_ok, assert_eq_ok, pure_eq_ok, Prod.exists] at h
  obtain ⟨top, htop, dzmLast, size, s₁, hdown, n, s₂, hcreate, -, -, h⟩ := h
  -- The walk up gives the first node of the segment.
  rw [hi, List.append_assoc, List.singleton_append] at hlinked
  rw [hi, List.append_assoc, List.singleton_append] at howners
  obtain ⟨left', mid, hmid, hcdom⟩ := findTop_spec hlinked howners htop
  have hi' : chain i = left' ++ top :: (mid ++ right) := by simp [hi, hmid]
  rw [← List.singleton_append (x := self.dz), ← List.append_assoc, ← hi, hi', Linked.append_iff]
    at hlinked
  rw [hi', List.nodup_append] at hnodup
  -- The walk down gives the last one.
  obtain ⟨mid', right', hmid', hrest, hsize, hdz, hlast, hend⟩ :=
    freeDown_spec hlinked.2 hnodup.2.1 hdown
  have hi'' : chain i = left' ++ (top :: mid') ++ right' := by rw [hi', hmid', List.append_assoc]
  have hseg' := hs.segment hi'' (List.cons_ne_nil _ _)
  obtain ⟨hrep, hcount⟩ := joinAll_replaced hseg' hrest (by rw [hsize, Nat.zero_add]) hdz
    (fun n hn => (hlast n hn).1) hend hcreate
  change allocMemoryProxies room [n] (linkJoined cdom top dzmLast n s₂) = _ at h
  refine .inr ⟨i, left', _, _, right', hi'', ?_, hrep.alloc (fun n hn => hn) h,
    fun hroom => hcount.alloc hroom h⟩
  -- The walk down comes through the node from which the walk up started.
  have hself_last : (top :: mid).getLast? = some self.dz := by
    have hlast := congrArg List.getLast? hmid
    rwa [List.getLast?_concat, List.getLast?_append_of_ne_nil _ (List.cons_ne_nil top mid),
      eq_comm] at hlast
  rw [← List.cons_append] at hmid'
  rcases List.append_eq_append_iff.mp hmid' with ⟨l, hl, -⟩ | ⟨l, hl, hl'⟩
  · rw [hl]
    exact List.mem_append_left _ (List.mem_of_getLast? hself_last)
  cases l with
  | nil =>
    rw [List.append_nil] at hl
    exact hl ▸ List.mem_of_getLast? hself_last
  | cons y l =>
    cases dzmLast with
    | none => simp [(hend rfl).1] at hl'
    | some z =>
      obtain ⟨hz, howner⟩ := hlast z rfl
      refine absurd (hcdom z ?_) howner
      rw [hl, List.dropLast_append_of_ne_nil (List.cons_ne_nil y l)]
      exact List.mem_append_left _ (List.mem_of_getLast? hz)

/-- The front of a node on a chain, once a node was created for it. -/
theorem Chained.front {left right : List Nat} {i this n size mem : Nat} {s₁ : Sys}
    (hs : Chained live s chain) (hi : chain i = left ++ [this] ++ right)
    (hcreate : createDZMemory size mem s = .ok (n, s₁)) :
    Front s₁ left this n ∧ ∀ x ∈ chain i, s₁.dz x = s.dz x := by
  obtain ⟨hc, hdz⟩ := createDZMemory_ok hcreate
  have hmem : this ∈ chain i := by simp [hi]
  have hfresh : ∀ m ∈ s.dzMemoryFreeList, m ∉ chain i := fun m hm hi => by
    have hv := (hs.valid m).mpr ⟨i, hi⟩
    have hf := hs.free m hm
    omega
  have hfree_nodup := hs.free_nodup
  rw [hc.fields.1] at hfree_nodup hfresh
  rw [List.singleton_append, List.nodup_cons] at hfree_nodup
  have hsame : ∀ x ∈ chain i, s₁.dz x = s.dz x := fun x hx => by
    rw [hdz x, if_neg]
    rintro rfl
    exact hfresh x (by simp) hx
  refine ⟨?_, hsame⟩
  have hlinked := hs.linked hmem
  have howners := hs.owners hmem
  have hnodup := hs.nodup i
  rw [hi] at hlinked howners hnodup hfresh hsame
  rw [Linked.append_iff] at hlinked
  rw [List.isChain_append] at howners
  rw [List.nodup_append] at hnodup
  have hfront : ∀ x ∈ left ++ [this], s₁.dz x = s.dz x := fun x hx =>
    hsame x (List.mem_append_left _ hx)
  constructor
  case linked =>
    exact ⟨_, hlinked.1.congr (fun x hx => by rw [hfront x hx]) fun x hx => by rw [hfront x hx]⟩
  case owners =>
    exact howners.1.imp_of_mem_imp fun x y hx hy hxy => by rw [hfront x hx, hfront y hy, hxy]
  case nodup => exact hnodup.1
  case free_nodup => exact hfree_nodup.2
  case free =>
    intro m hm
    refine ⟨fun hx => hfresh m (by simp [hm]) (List.mem_append_left _ hx), ?_⟩
    rintro rfl
    exact hfree_nodup.1 hm
  case newThis => exact fun hx => hfresh n (by simp) (List.mem_append_left _ hx)

/-- The mirrored front, once the walk towards the beginning is over. -/
theorem Chained.back {left oldL newL right : List Nat} {i this n size mem : Nat} {s₁ s₃ : Sys}
    (hs : Chained live s chain) (hi : chain i = left ++ oldL ++ [this] ++ right)
    (hcreate : createDZMemory size mem s = .ok (n, s₁))
    (hL : Renewed cdom n s₁ s₃ left oldL newL) :
    Front s₃.mirror right.reverse this n ∧ s₃.dz this = s.dz this := by
  obtain ⟨hfront, hsame⟩ := hs.front hi hcreate
  have hmem : this ∈ chain i := by simp [hi]
  have hlinked := hs.linked hmem
  have howners := hs.owners hmem
  have hnodup := hs.nodup i
  have hfree : ∀ m ∈ n :: s₁.dzMemoryFreeList, m ∉ chain i := fun m hm hx => by
    have hv := (hs.valid m).mpr ⟨i, hx⟩
    have hf := hs.free m ((createDZMemory_ok hcreate).1.fields.1 ▸ hm)
    omega
  have hfree₃ := hL.created.fields.1
  have hnodup₃ := hfront.free_nodup
  rw [hfree₃, List.nodup_append] at hnodup₃
  have hnew : ∀ x ∈ newL, x ∈ s₁.dzMemoryFreeList := fun x hx => by
    rw [hfree₃]
    exact List.mem_append_left _ (List.mem_reverse.mpr hx)
  rw [hi, List.append_assoc] at hlinked howners hnodup hfree hsame
  rw [List.singleton_append] at hlinked howners hnodup hfree hsame
  -- The nodes behind are as they were at the beginning.
  have hback : ∀ x ∈ this :: right, s₃.dz x = s.dz x := fun x hx => by
    have hx' := List.mem_append_right (left ++ oldL) hx
    have hout : x ∉ left ++ oldL := fun hm => (List.nodup_append.mp hnodup).2.2 x hm x hx rfl
    rw [List.mem_append, not_or] at hout
    have hl : left.getLast? ≠ some x := fun heq => hout.1 (List.mem_of_getLast? heq)
    have hxn : x ≠ n := fun heq => hfree n (by simp) (heq ▸ hx')
    have hxL : x ∉ newL := fun hm => hfree x (by simp [hnew x hm]) hx'
    rw [hL.outer x hout.2 hxL hxn, if_neg hl, hsame x hx']
  rw [Linked.append_iff] at hlinked
  rw [List.isChain_append] at howners
  rw [List.nodup_append] at hnodup
  have hrev : right.reverse ++ [this] = (this :: right).reverse := by simp
  refine ⟨?_, hback this List.mem_cons_self⟩
  constructor
  case linked =>
    rw [hrev]
    refine ⟨_, Linked.reverse (hlinked.2.congr (fun x hx => ?_) fun x hx => ?_)⟩
    · exact congrArg DZMemoryProxy.prev (hback x hx)
    · exact congrArg DZMemoryProxy.next (hback x hx)
  case owners =>
    rw [hrev, List.isChain_reverse]
    refine howners.2.1.imp_of_mem_imp fun x y hx hy hxy => ?_
    change (s₃.dz y).prevOwner = (s₃.dz x).nextOwner
    rw [hback x hx, hback y hy, hxy]
  case nodup =>
    rw [hrev, List.nodup_reverse]
    exact hnodup.2.1
  case free_nodup => exact hnodup₃.2.1
  case free =>
    intro m hm
    have hm₁ : m ∈ s₁.dzMemoryFreeList := hfree₃ ▸ List.mem_append_right _ hm
    refine ⟨fun hx => ?_, (hfront.free m hm₁).2⟩
    rw [hrev, List.mem_reverse] at hx
    exact hfree m (List.mem_cons_of_mem n hm₁) (List.mem_append_right _ hx)
  case newThis =>
    rw [hrev, List.mem_reverse]
    exact fun hx => hfree n List.mem_cons_self (List.mem_append_right _ hx)

/-- The walks of `memory_revoke` and the ties at their ends, if each neighbour is the caller's. -/
theorem revoke_walks {fuel i this n size mem : Nat} {left₀ right₀ : List Nat} {s₁ s₂ : Sys}
    {w : Walk} (hs : Chained live s chain) (hi : chain i = left₀ ++ [this] ++ right₀)
    (hprev : (s.dz this).prev = none ∨ (s.dz this).prevOwner = cdom)
    (hnext : (s.dz this).next = none ∨ (s.dz this).nextOwner = cdom)
    (hcreate : createDZMemory size mem s = .ok (n, s₁))
    (hwalk : revokePrev cdom fuel this none n s₁ = .ok (w, s₂)) :
    ∃ s₃, tiePrev w s₂ = .ok s₃ ∧ ∀ w' s₄,
      revokeNext cdom fuel this w.dzmCurNew n s₃ = .ok (w', s₄) → ∃ s₅, tieNext w' s₄ = .ok s₅ ∧
        ∃ left oldL newL oldR newR right, left₀ = left ++ oldL ∧ right₀ = oldR ++ right ∧
          Renewed cdom n s₁ s₃ left oldL newL ∧ RenewedNext cdom n s₃ s₅ oldR newR right := by
  obtain ⟨hfront, hs₁⟩ := hs.front hi hcreate
  rw [← hs₁ this (by simp [hi])] at hprev
  obtain ⟨s₃, htie, left, oldL, newL, rfl, hL⟩ := revokePrev_renewed hfront hprev hwalk
  refine ⟨s₃, htie, fun w' s₄ hwalk' => ?_⟩
  obtain ⟨hback, hs₃⟩ := hs.back hi hcreate hL
  rw [← hs₃] at hnext
  obtain ⟨t, htie', right, oldR, newR, hright, hR⟩ :=
    revokePrev_renewed hback hnext (revokeNext_mirror hwalk')
  rw [tieNext_mirror] at htie'
  cases hs₅ : tieNext w' s₄ with
  | error e =>
    rw [hs₅] at htie'
    cases htie'
  | ok s₅ =>
    rw [hs₅] at htie'
    cases htie'
    rw [List.reverse_eq_iff, List.reverse_append] at hright
    exact ⟨s₅, rfl, left, oldL, newL, _, _, _, rfl, hright, hL, hR.of_mirror⟩

/-- `memory_revoke` if each neighbour is the caller's and there is room for an object. -/
theorem memoryRevoke_effect {fuel : Nat} (hs : Chained live s chain) (hself : self ∈ s.proxies)
    (hprev : (s.dz self.dz).prev = none ∨ (s.dz self.dz).prevOwner = cdom)
    (hnext : (s.dz self.dz).next = none ∨ (s.dz self.dz).nextOwner = cdom) (hroom : 0 < room)
    (h : memoryRevoke fuel cdom self room s = .ok (o, t)) :
    Effect s t chain self.dz o False := by
  rcases checkValid_ok h with hsame | ⟨hvalid, h⟩
  · exact .inl hsame
  obtain ⟨⟨-, hsize, hmem⟩, i, left₀, right₀, hi, hseg⟩ := hs.of_self hself hvalid
  simp only [bind_eq_ok, pure_eq_ok, Prod.exists] at h
  obtain ⟨n, s₁, hcreate, w, s₂, hwalk, s₃, htie, w', s₄, hwalk', s₅, htie', h⟩ := h
  obtain ⟨s₃', htie₃, hnext_walk⟩ := revoke_walks hs hi hprev hnext hcreate hwalk
  obtain rfl : s₃ = s₃' := Except.ok.inj (htie.symm.trans htie₃)
  obtain ⟨s₅', htie₅, left, oldL, newL, oldR, newR, right, rfl, rfl, hL, hR⟩ :=
    hnext_walk w' s₄ hwalk'
  obtain rfl : s₅ = s₅' := Except.ok.inj (htie'.symm.trans htie₅)
  have hi' : chain i = left ++ (oldL ++ self.dz :: oldR) ++ right := by simp [hi]
  obtain ⟨hc, hdz⟩ := createDZMemory_ok hcreate
  have hseg' := hs.segment hi' (by simp)
  have hrep := replaced_of_renewed hseg' hsize hmem hc hdz hL hR
  -- The object is made first and the old node freed then.
  have hne : n ≠ self.dz := fun heq => by
    have hmem := hrep.mem_free (List.mem_append_right newL List.mem_cons_self)
    exact (hseg'.fresh hmem).1 (by simp [heq])
  have halloc : allocMemoryProxies room [n] (s₅.freeDZ self.dz) = (o, t) := by
    obtain ⟨room, rfl⟩ := Nat.exists_eq_add_one_of_ne_zero hroom.ne'
    rw [← h]
    simp only [allocThenFree, allocMemoryProxies, freeDZ_dz, if_neg hne]
    rfl
  exact .inr ⟨i, left, _, _, right, hi', by simp, hrep.alloc (by simp) halloc, False.elim⟩

/-- What `createMemoryInstance` makes of the block. -/
def alignedAt (block size bytes : Nat) : Allocation :=
  ⟨block, size + bytes - 1,
    if 1 < bytes ∧ 0 < block % bytes then block + bytes - block % bytes else block, size⟩

/-- The node `n` is taken for the memory, and an object made for it if there is room. -/
structure CreatedMemory (s t : Sys) (a : Allocation) (room n : Nat) : Prop where
  allocated : t.allocated = s.allocated ++ [a]
  free : s.dzMemoryFreeList = n :: t.dzMemoryFreeList
  dz : ∀ m, t.dz m = if m = n then .created a.size a.mem else s.dz m
  freed : t.freed = s.freed
  proxies : ∀ p ∈ t.proxies, p ∈ s.proxies ∨ p.dz = n ∧ p.size = (t.dz p.dz).size ∧
    p.mem = (t.dz p.dz).mem
  objects : 1 ≤ room → t.proxies.map (·.dz) = s.proxies.map (·.dz) ++ [n]

theorem createMemoryInstance_ok {block size bytes : Nat}
    (h : createMemoryInstance block size bytes room s = .ok (o, t)) :
    ∃ n, CreatedMemory s t (alignedAt block size bytes) room n := by
  unfold createMemoryInstance at h
  simp only [bind_eq_ok, pure_eq_ok, Prod.exists] at h
  obtain ⟨n, s₁, hcreate, h⟩ := h
  obtain ⟨hc, hdz⟩ := createDZMemory_ok hcreate
  obtain ⟨hfree, hproxies, hallocated, hfreed⟩ := hc.fields
  obtain ⟨htdz, htfree, htallocated, htfreed, htproxies⟩ := allocMemoryProxies_spec h
  refine ⟨n, htallocated.trans hallocated, ?_, fun m => htdz ▸ hdz m, htfreed.trans hfreed,
    fun p hp => ?_, fun hroom => ?_⟩
  · rw [htfree]
    exact hfree
  · rw [htdz, ← List.mem_singleton]
    rw [hproxies] at htproxies
    exact htproxies p hp
  · rw [allocMemoryProxies_proxies hroom h, hproxies]

/-- A new memory is a chain of one node. -/
theorem CreatedMemory.chained {a : Allocation} {k n : Nat} (h : CreatedMemory s t a room n)
    (hs : Chained live s chain) (hk : live k = none) :
    Chained (Function.update live k (some a)) t (Function.update chain k [n]) := by
  have hfree := h.free
  have hnfree : n ∈ s.dzMemoryFreeList := by simp [hfree]
  have hn : ∀ j, n ∉ chain j := fun j hj => by
    have hv := (hs.valid n).mpr ⟨j, hj⟩
    have hf := hs.free n hnfree
    omega
  have hfree_nodup := hs.free_nodup
  rw [hfree, List.nodup_cons] at hfree_nodup
  have hdz_ne : ∀ x, x ≠ n → t.dz x = s.dz x := fun x hx => by rw [h.dz x, if_neg hx]
  have hdz_n := h.dz n
  rw [if_pos rfl] at hdz_n
  constructor
  case isChain =>
    intro j a ha
    by_cases hj : j = k
    · subst hj
      rw [Function.update_self] at ha ⊢
      cases ha
      refine ⟨?_, by simp, ?_⟩
      · simp [hdz_n, DZMemoryProxy.created]
      · simp [hdz_n, DZMemoryProxy.created]
    · rw [Function.update_of_ne hj] at ha ⊢
      have hold := hs.isChain j a ha
      have hsame : ∀ x ∈ chain j, t.dz x = s.dz x := fun x hx =>
        hdz_ne x fun heq => hn j (heq ▸ hx)
      refine ⟨hold.linked.congr ?_ ?_, hold.owners.imp_of_mem_imp ?_, hold.tiled.congr ?_ ?_⟩
      · exact fun x hx => by rw [hsame x hx]
      · exact fun x hx => by rw [hsame x hx]
      · exact fun x y hx hy hxy => by rw [hsame x hx, hsame y hy, hxy]
      · exact fun x hx => by rw [hsame x hx]
      · exact fun x hx => by rw [hsame x hx]
  case nodup =>
    intro j
    rw [Function.update_apply]
    split
    · simp
    · exact hs.nodup j
  case disjoint =>
    intro i j x hi hj
    have hdisjoint := hs.disjoint i j x
    simp only [Function.update_apply] at hi hj
    grind
  case beyond =>
    intro j hj
    have hne : j ≠ k := by
      rintro rfl
      simp at hj
    rw [Function.update_of_ne hne] at hj ⊢
    exact hs.beyond j hj
  case valid =>
    intro x
    by_cases hx : x = n
    · rw [hx, hdz_n]
      simp only [DZMemoryProxy.created, true_iff]
      exact ⟨k, by simp⟩
    · rw [hdz_ne x hx, hs.valid x]
      refine exists_congr fun j => ?_
      by_cases hj : j = k
      · subst hj
        simp [hs.beyond j hk, hx]
      · rw [Function.update_of_ne hj]
  case free =>
    intro x hx
    rw [hdz_ne x fun heq => hfree_nodup.1 (heq ▸ hx)]
    exact hs.free x (by simp [hfree, hx])
  case free_nodup => exact hfree_nodup.2
  case proxies =>
    intro p hp
    rcases h.proxies p hp with hp | ⟨hmem, hp⟩
    · have hpn : p.dz ≠ n := fun heq => by
        have hf := hs.free n hnfree
        rcases hs.proxies p hp with hv | ⟨hv, -⟩ <;> rw [heq] at hv <;> omega
      rw [hdz_ne _ hpn]
      exact hs.proxies p hp
    · refine .inr ⟨?_, hp⟩
      rw [hmem, hdz_n]
      rfl

theorem createMemoryInstance_chains {block size bytes : Nat} (hs : Chains s chain)
    (h : createMemoryInstance block size bytes room s = .ok (o, t)) :
    ∃ chain', Chains t chain' := by
  obtain ⟨n, hn⟩ := createMemoryInstance_ok h
  have hchained := hn.chained hs (List.getElem?_eq_none (Nat.le_refl s.allocated.length))
  have hlive : (fun i => t.allocated[i]?) = Function.update (fun i => s.allocated[i]?)
      s.allocated.length (some (alignedAt block size bytes)) := by
    funext i
    rw [hn.allocated, Function.update_apply]
    split
    case isTrue hi => rw [hi, List.getElem?_concat_length]
    case isFalse hi => grind
  exact ⟨_, hlive ▸ hchained⟩

end Calls

/-! ## Calls that are defined -/

/-- The call does not run into what C leaves open. -/
def Defined {α : Type} (x : Except Fault α) : Prop := x ≠ .error .undefined

theorem Defined.ok {α : Type} (a : α) : Defined (.ok a) := by simp [Defined]

theorem Defined.pure {α : Type} (a : α) : Defined (pure a) := Defined.ok a

theorem Defined.bind {α β : Type} {x : Except Fault α} {f : α → Except Fault β} (hx : Defined x)
    (hf : ∀ a, x = .ok a → Defined (f a)) : Defined (x >>= f) := by
  cases x with
  | error e =>
    intro h
    cases h
    exact hx rfl
  | ok a => exact hf a rfl

theorem assert_defined (cond : Prop) [Decidable cond] (text : String) :
    Defined (assert cond text) := by
  unfold assert
  split <;> simp [Defined]

theorem createDZMemory_defined (size mem : Nat) (s : Sys) :
    Defined (createDZMemory size mem s) := by
  unfold createDZMemory
  split <;> simp [Defined]

theorem dzmemorySplit2_defined (cdom dzm : Nat) (offset : Memory.Jint) (s : Sys) :
    Defined (dzmemorySplit2 cdom dzm offset s) := by
  refine (assert_defined _ _).bind fun _ _ => (assert_defined _ _).bind fun _ _ => ?_
  split
  · exact .pure _
  refine (createDZMemory_defined _ _ _).bind fun _ _ => ?_
  exact (createDZMemory_defined _ _ _).bind fun _ _ => .pure _

theorem dzmemorySplit3_defined (cdom dzm : Nat) (offset len : Memory.Jint) (s : Sys) :
    Defined (dzmemorySplit3 cdom dzm offset len s) := by
  refine (assert_defined _ _).bind fun _ _ => (assert_defined _ _).bind fun _ _ => ?_
  split
  · exact .pure _
  refine (createDZMemory_defined _ _ _).bind fun _ _ => ?_
  refine (createDZMemory_defined _ _ _).bind fun _ _ => ?_
  exact (createDZMemory_defined _ _ _).bind fun _ _ => .pure _

theorem dzmemoryJoin_defined (dzm1 dzm2 : Nat) (s : Sys) : Defined (dzmemoryJoin dzm1 dzm2 s) := by
  unfold dzmemoryJoin
  refine (assert_defined _ _).bind fun _ _ => (assert_defined _ _).bind fun _ _ => ?_
  refine (assert_defined _ _).bind fun _ _ => (assert_defined _ _).bind fun _ _ => ?_
  refine (assert_defined _ _).bind fun _ _ => (assert_defined _ _).bind fun _ _ => ?_
  refine (assert_defined _ _).bind fun _ _ => ?_
  exact (createDZMemory_defined _ _ _).bind fun _ _ => .pure _

theorem findTop_defined (cdom : Nat) (s : Sys) (fuel dzm : Nat) :
    Defined (findTop cdom s fuel dzm) := by
  induction fuel generalizing dzm with
  | zero => simp [findTop, Defined]
  | succ fuel ih =>
    unfold findTop
    split
    · exact .ok _
    split
    · exact (assert_defined _ _).bind fun _ _ => (assert_defined _ _).bind fun _ _ => ih _
    · exact .ok _

theorem freeDown_defined (cdom fuel dzm size : Nat) (s : Sys) :
    Defined (freeDown cdom fuel dzm size s) := by
  induction fuel generalizing dzm size s with
  | zero => simp [freeDown, Defined]
  | succ fuel ih =>
    unfold freeDown
    refine (assert_defined _ _).bind fun _ _ => (assert_defined _ _).bind fun _ _ => ?_
    refine (assert_defined _ _).bind fun _ _ => ?_
    simp only
    split
    · split
      · exact ih _ _ _
      · exact .pure _
    · exact .pure _

theorem revokePrev_defined (cdom fuel cur : Nat) (curNew : Option Nat) (lastNew : Nat) (s : Sys) :
    Defined (revokePrev cdom fuel cur curNew lastNew s) := by
  induction fuel generalizing cur curNew lastNew s with
  | zero => simp [revokePrev, Defined]
  | succ fuel ih =>
    unfold revokePrev
    split
    · split
      · exact .ok _
      · exact (createDZMemory_defined _ _ _).bind fun _ _ => ih _ _ _ _
    · exact .ok _

theorem revokeNext_defined (cdom fuel cur : Nat) (curNew : Option Nat) (lastNew : Nat) (s : Sys) :
    Defined (revokeNext cdom fuel cur curNew lastNew s) := by
  induction fuel generalizing cur curNew lastNew s with
  | zero => simp [revokeNext, Defined]
  | succ fuel ih =>
    unfold revokeNext
    split
    · split
      · exact .ok _
      · refine (createDZMemory_defined _ _ _).bind fun _ _ => ?_
        exact (assert_defined _ _).bind fun _ _ => ih _ _ _ _
    · exact .ok _

/-! ## Runs -/

section Runs

variable (dzMemory dzMemoryBorder : Nat)

/-- Decrementing the word at `m` touches no node, and harms nobody else. -/
def Misses (m : Nat) (word : Word) : Prop :=
  ¬(m < dzMemoryBorder ∧ dzMemory < m + 4) ∧ word.Harmless

/-- The addresses that `memory_getSubRange` takes for reference counts, with the words there. -/
def strayDecrements (size : Nat) (offset len : Memory.Jint) (word0 word2 : Word) :
    List (Nat × Word) :=
  if (offset + len).toNat = size then
    if offset.slt 0 || size < offset.toNat then [] else [(offset.toNat, word0)]
  else if offset.slt 0 || len.slt 0 || size < (offset + len).toNat then []
  else [(offset.toNat, word0), (size - len.toNat - offset.toNat, word2)]

/-- The calls that keep the chains. -/
def Call.Benign (s : Sys) : Call → Prop
  | getSubRange _ self offset len word0 word2 _ => (s.dz self.dz).valid = 0 ∨
      ∀ d ∈ strayDecrements (s.dz self.dz).size offset len word0 word2,
        Misses dzMemory dzMemoryBorder d.1 d.2
  | revoke _ cdom self room => (s.dz self.dz).valid = 0 ∨
      ((s.dz self.dz).prev = none ∨ (s.dz self.dz).prevOwner = cdom) ∧
      ((s.dz self.dz).next = none ∨ (s.dz self.dz).nextOwner = cdom) ∧ 0 < room
  | _ => True

variable {dzMemory dzMemoryBorder} {s t : Sys} {live : Nat → Option Allocation}
  {chain : Nat → List Nat}

theorem checkValid_defined {self : MemoryProxy} {rest : Result}
    (h : (s.dz self.dz).valid ≠ 0 → Defined rest) : Defined (checkValid self s rest) := by
  unfold checkValid
  split
  · exact .ok _
  · rename_i hvalid
    exact h hvalid

theorem decRefcountOfNode_defined {dzm : Nat} {word : Word}
    (h : Misses dzMemory dzMemoryBorder (s.dz dzm).size word) :
    Defined (decRefcountOfNode dzMemory dzMemoryBorder dzm word s) := by
  unfold decRefcountOfNode
  simp only [h.1, h.2, not_true, or_self, if_false]
  exact .ok _

theorem memoryGetSubRange_defined {cdom room : Nat} {word0 word2 : Word} {self : MemoryProxy}
    {offset len : Memory.Jint} (hs : Chained live s chain) (hself : self ∈ s.proxies)
    (hb : (s.dz self.dz).valid = 0 ∨
      ∀ d ∈ strayDecrements (s.dz self.dz).size offset len word0 word2,
        Misses dzMemory dzMemoryBorder d.1 d.2) :
    Defined (memoryGetSubRange dzMemory dzMemoryBorder cdom self offset len word0 word2 room s) := by
  refine checkValid_defined fun hvalid => ?_
  obtain ⟨-, i, left, right, hi, hseg⟩ := hs.of_self hself hvalid
  replace hb := hb.resolve_left hvalid
  refine (assert_defined _ _).bind fun _ _ => (assert_defined _ _).bind fun _ _ => ?_
  unfold strayDecrements at hb
  split
  case isTrue hsum =>
    rw [if_pos hsum] at hb
    refine (dzmemorySplit2_defined _ _ _ _).bind fun ⟨r, s₁⟩ hr => ?_
    cases r with
    | none => exact .ok _
    | some n =>
      obtain ⟨-, -, hsize, hrange⟩ := dzmemorySplit2_replaced hseg hr
      rw [hrange] at hb
      simp only [Bool.false_eq_true, if_false, List.mem_singleton, forall_eq] at hb
      exact (decRefcountOfNode_defined (hsize ▸ hb)).bind fun _ _ => .pure _
  case isFalse hsum =>
    rw [if_neg hsum] at hb
    refine (dzmemorySplit3_defined _ _ _ _ _).bind fun ⟨r, s₁⟩ hr => ?_
    cases r with
    | none => exact .ok _
    | some n =>
      obtain ⟨-, -, hsize0, hsize2, hrange⟩ := dzmemorySplit3_replaced hseg hr
      rw [hrange] at hb
      simp only [Bool.false_eq_true, if_false, List.forall_mem_cons] at hb
      refine (decRefcountOfNode_defined (hsize0 ▸ hb.1)).bind fun _ _ => ?_
      exact (decRefcountOfNode_defined (hsize2 ▸ hb.2.1)).bind fun _ _ => .pure _

theorem memoryRevoke_defined {fuel cdom room : Nat} {self : MemoryProxy} (hs : Chained live s chain)
    (hself : self ∈ s.proxies)
    (hprev : (s.dz self.dz).prev = none ∨ (s.dz self.dz).prevOwner = cdom)
    (hnext : (s.dz self.dz).next = none ∨ (s.dz self.dz).nextOwner = cdom) :
    Defined (memoryRevoke fuel cdom self room s) := by
  refine checkValid_defined fun hvalid => ?_
  obtain ⟨-, i, left, right, hi, -⟩ := hs.of_self hself hvalid
  refine (createDZMemory_defined _ _ _).bind fun ⟨n, s₁⟩ hcreate => ?_
  refine (revokePrev_defined _ _ _ _ _ _).bind fun ⟨w, s₂⟩ hwalk => ?_
  obtain ⟨s₃, htie, hnext_walk⟩ := revoke_walks hs hi hprev hnext hcreate hwalk
  simp only [htie]
  refine (revokeNext_defined _ _ _ _ _ _).bind fun ⟨w', s₄⟩ hwalk' => ?_
  obtain ⟨s₅, htie', -⟩ := hnext_walk w' s₄ hwalk'
  simp only [htie']
  exact .pure _

theorem Call.defined {c : Call} (hs : Chained live s chain) (hc : c.Possible s)
    (hb : c.Benign dzMemory dzMemoryBorder s) : Defined (c.run dzMemory dzMemoryBorder s) := by
  cases c with
  | createMemoryInstance => exact (createDZMemory_defined _ _ _).bind fun _ _ => .pure _
  | getSubRange => exact memoryGetSubRange_defined hs hc hb
  | split2 =>
    refine checkValid_defined fun _ => ?_
    split
    · exact .ok _
    apply (dzmemorySplit2_defined _ _ _ _).bind
    rintro ⟨r, s₁⟩ -
    cases r with
    | none => exact .ok _
    | some n => exact .pure _
  | split3 =>
    refine checkValid_defined fun _ => ?_
    split
    · exact .ok _
    refine (assert_defined _ _).bind fun _ _ => (assert_defined _ _).bind fun _ _ => ?_
    apply (dzmemorySplit3_defined _ _ _ _ _).bind
    rintro ⟨r, s₁⟩ -
    cases r with
    | none => exact .ok _
    | some n => exact .pure _
  | joinPrevious =>
    refine checkValid_defined fun _ => ?_
    simp only
    split
    · simp [Defined]
    split
    · simp [Defined]
    · exact (dzmemoryJoin_defined _ _ _).bind fun _ _ => .pure _
  | joinNext =>
    refine checkValid_defined fun _ => ?_
    simp only
    split
    · exact .pure _
    split
    · simp [Defined]
    · exact (dzmemoryJoin_defined _ _ _).bind fun _ _ => .pure _
  | joinAll =>
    refine checkValid_defined fun _ => (findTop_defined _ _ _ _).bind fun _ _ => ?_
    apply (freeDown_defined _ _ _ _ _).bind
    rintro ⟨_, _, _⟩ -
    apply (createDZMemory_defined _ _ _).bind
    rintro ⟨_, _⟩ -
    exact (assert_defined _ _).bind fun _ _ => .pure _
  | revoke =>
    rcases hb with hvalid | ⟨hprev, hnext, -⟩
    · exact checkValid_defined fun hne => absurd hvalid hne
    · exact memoryRevoke_defined hs hc hprev hnext

/-- One step of a run keeps the chains. -/
theorem Call.keeps {c : Call} (hs : Chains s chain) (hc : c.Possible s)
    (hb : c.Benign dzMemory dzMemoryBorder s) (h : c.Leads dzMemory dzMemoryBorder s t) :
    ∃ chain', Chains t chain' := by
  have hdefined := c.defined hs hc hb
  unfold Leads at h
  split at h
  case h_1 o s' hrun =>
    subst h
    cases c with
    | createMemoryInstance => exact createMemoryInstance_chains hs hrun
    | getSubRange => exact (memoryGetSubRange_effect hs hc hrun).chains hs
    | split2 => exact (memorySplit2_effect hs hc hrun).chains hs
    | split3 => exact (memorySplit3_effect hs hc hrun).chains hs
    | joinPrevious => exact (memoryJoinPrevious_effect hs hc hrun).chains hs
    | joinNext =>
      rcases memoryJoinNext_effect hs hc hrun with ⟨-, rfl⟩ | h
      · exact ⟨chain, hs⟩
      · exact h.chains hs
    | joinAll => exact (memoryJoinAll_effect hs hc hrun).chains hs
    | revoke =>
      rcases hb with hvalid | ⟨hprev, hnext, hroom⟩
      · rcases checkValid_ok hrun with ⟨rfl, -⟩ | ⟨hne, -⟩
        · exact ⟨chain, hs⟩
        · exact absurd hvalid hne
      · exact (memoryRevoke_effect hs hc hprev hnext hroom hrun).chains hs
  case h_2 hrun => exact absurd hrun hdefined
  case h_3 => exact h.elim

/-- **The chains.** The links of a valid node lead to valid nodes and back again, neighbours agree
on who owns the border, and the valid nodes fall into one list for each allocation, which covers it
from its first to its last byte. -/
structure ChainInvariant (s : Sys) : Prop where
  next_prev : ∀ x y, (s.dz x).valid = 1 → (s.dz x).next = some y →
    (s.dz y).valid = 1 ∧ (s.dz y).prev = some x ∧ (s.dz x).nextOwner = (s.dz y).prevOwner
  prev_next : ∀ x y, (s.dz x).valid = 1 → (s.dz x).prev = some y →
    (s.dz y).valid = 1 ∧ (s.dz y).next = some x ∧ (s.dz y).nextOwner = (s.dz x).prevOwner
  tiled : ∃ chain : Nat → List Nat,
    (∀ n, (s.dz n).valid = 1 ↔ ∃ i, n ∈ chain i) ∧
    (∀ i j n, n ∈ chain i → n ∈ chain j → i = j) ∧
    (∀ i, s.allocated.length ≤ i → chain i = []) ∧
    ∀ i a, s.allocated[i]? = some a → (chain i).Nodup ∧
      Linked (fun n => (s.dz n).prev) (fun n => (s.dz n).next) none (chain i) none ∧
      Tiled (fun n => (s.dz n).mem) (fun n => (s.dz n).size) a.mem (chain i) (a.mem + a.size)

theorem Chains.invariant (hs : Chains s chain) : ChainInvariant s where
  next_prev x y hx hy := by
    obtain ⟨i, left, right, hi, hseg⟩ := hs.exists_segment hx
    have hnext : (s.dz x).next = right.head? := by simpa using hseg.linked.2.1
    obtain ⟨right, rfl⟩ := List.head?_eq_some_iff.mp (hnext.symm.trans hy)
    rw [List.append_assoc, List.singleton_append, List.append_cons] at hi
    have hy_mem : y ∈ chain i := by simp [hi]
    have hlinked := hs.linked hy_mem
    rw [hi] at hlinked
    refine ⟨(hs.valid y).mpr ⟨i, hy_mem⟩, by simpa using hlinked.at_mem.1, ?_⟩
    exact hseg.owners_right x rfl y rfl
  prev_next x y hx hy := by
    obtain ⟨i, left, right, hi, hseg⟩ := hs.exists_segment hx
    have hprev : (s.dz x).prev = left.getLast? := hseg.linked.1
    have hlast := hprev.symm.trans hy
    obtain ⟨left, rfl⟩ := List.getLast?_eq_some_iff.mp hlast
    rw [List.append_assoc, List.append_assoc, List.singleton_append, List.singleton_append] at hi
    have hy_mem : y ∈ chain i := by simp [hi]
    have hlinked := hs.linked hy_mem
    rw [hi] at hlinked
    refine ⟨(hs.valid y).mpr ⟨i, hy_mem⟩, by simpa using hlinked.at_mem.2, ?_⟩
    exact hseg.owners_left y hlast x rfl
  tiled := by
    refine ⟨chain, hs.valid, hs.disjoint, fun i hi => hs.beyond i (List.getElem?_eq_none hi),
      fun i a ha => ?_⟩
    have hchain := hs.isChain i a ha
    exact ⟨hs.nodup i, hchain.linked, hchain.tiled⟩

theorem mem_countdown {n k : Nat} : n ∈ countdown k ↔ n < k := by
  induction k with
  | zero => simp [countdown]
  | succ k ih =>
    simp only [countdown, List.mem_cons, ih]
    omega

theorem nodup_countdown (k : Nat) : (countdown k).Nodup := by
  induction k with
  | zero => exact List.nodup_nil
  | succ k ih =>
    refine List.nodup_cons.mpr ⟨fun hmem => ?_, ih⟩
    exact Nat.lt_irrefl k (mem_countdown.mp hmem)

theorem init_chains (number : Nat) : Chains (init number) fun _ => [] where
  isChain i a ha := by simp [init] at ha
  nodup _ := List.nodup_nil
  disjoint _ _ _ hn := by cases hn
  beyond _ _ := rfl
  valid n := by
    simp only [init, List.not_mem_nil, exists_false, iff_false]
    split <;> simp
  free n hn := by
    have hlt := mem_countdown.mp hn
    simp only [init]
    rw [if_neg (by omega)]
  free_nodup := nodup_countdown _
  proxies p hp := by cases hp

/-- In every run whose calls are benign the chains are there in every state. -/
theorem chainInvariant_of_benign (number : Nat) {s : Sys}
    (hrun : Relation.ReflTransGen (fun s t => ∃ c : Call, c.Possible s ∧
      c.Benign dzMemory dzMemoryBorder s ∧ c.Leads dzMemory dzMemoryBorder s t) (init number) s) :
    ChainInvariant s := by
  have hchains : ∃ chain, Chains s chain := by
    refine invariant_of_run (I := fun s => ∃ chain, Chains s chain) ?_ hrun ⟨_, init_chains number⟩
    rintro s t ⟨chain, hs⟩ ⟨c, hc, hb, hleads⟩
    exact c.keeps hs hc hb hleads
  obtain ⟨chain, hs⟩ := hchains
  exact hs.invariant

end Runs

theorem Call.Leads.of_ok {dzMemory dzMemoryBorder : Nat} {c : Call} {s t : Sys} {o : Outcome}
    (h : c.run dzMemory dzMemoryBorder s = .ok (o, t)) : c.Leads dzMemory dzMemoryBorder s t := by
  unfold Leads
  rw [h]

/-- A memory is created and revoked as a whole. -/
theorem chainInvariant_revoked : ∃ s : Sys, s.allocated.length = 1 ∧ ChainInvariant s :=
  ⟨_, rfl, @chainInvariant_of_benign 0x300000 0x3afc80 20000 _
    (.tail (.tail .refl
      ⟨.createMemoryInstance 0x400000 64 1 1, by decide, trivial, .of_ok rfl⟩)
      ⟨.revoke 2 7 ⟨64, 0x400000, 19998⟩ 1, by decide,
        .inr ⟨.inl rfl, .inl rfl, by decide⟩, .of_ok rfl⟩)⟩

/-- Domain 2 splits a memory, domain 1 splits the first part again and revokes its second half: the
node behind is tied to the first new node of the walk towards the beginning. -/
theorem not_chainInvariant_split : ¬∀ (dzMemory dzMemoryBorder number : Nat) (s : Sys),
    Relation.ReflTransGen (fun s t => ∃ c : Call, c.Possible s ∧
      c.Leads dzMemory dzMemoryBorder s t) (init number) s → ChainInvariant s := by
  intro h
  have hinv := h 0x300000 0x3afc80 20000 _
    (.tail (.tail (.tail (.tail .refl
      ⟨.createMemoryInstance 0x400000 64 1 1, by decide, .of_ok rfl⟩)
      ⟨.split2 2 ⟨64, 0x400000, 19998⟩ 32 (some 2) 2, by decide, .of_ok rfl⟩)
      ⟨.split2 1 ⟨32, 0x400000, 19997⟩ 16 (some 2) 2, by decide, .of_ok rfl⟩)
      ⟨.revoke 3 1 ⟨16, 0x400010, 19994⟩ 1, by decide, .of_ok rfl⟩)
  obtain ⟨-, hnext, -⟩ := hinv.prev_next 19993 19992 rfl rfl
  exact absurd hnext (by decide)

end JxCore.Region
