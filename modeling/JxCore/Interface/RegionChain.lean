import JxCore.Interface.Region
import JxCore.Lib.DoublyLinked
import JxCore.Lib.Tiling
import Mathlib.Data.List.Chain

/-!
# The chain of an allocation

The valid nodes of one allocation hang together in the order of their addresses and cover it. Every
operation exchanges a segment of such a chain for new nodes that cover the same range; `Replaced` is
what this takes of the fields, and the operations are shown to be exchanges of this kind.
-/

namespace JxCore.Region

/-! ## Chains -/

/-- The nodes `l` are the allocation `a`, cut into pieces. -/
structure IsChain (dz : Nat → DZMemoryProxy) (a : Allocation) (l : List Nat) : Prop where
  linked : Linked (fun n => (dz n).prev) (fun n => (dz n).next) none l none
  owners : l.IsChain fun x y => (dz x).nextOwner = (dz y).prevOwner
  tiled : Tiled (fun n => (dz n).mem) (fun n => (dz n).size) a.mem l (a.mem + a.size)

/-- The valid nodes are those of the chains, one chain for each allocation in `live`. -/
structure Chained (live : Nat → Option Allocation) (s : Sys) (chain : Nat → List Nat) : Prop where
  isChain : ∀ i a, live i = some a → IsChain s.dz a (chain i)
  nodup : ∀ i, (chain i).Nodup
  disjoint : ∀ i j n, n ∈ chain i → n ∈ chain j → i = j
  beyond : ∀ i, live i = none → chain i = []
  valid : ∀ n, (s.dz n).valid = 1 ↔ ∃ i, n ∈ chain i
  free : ∀ n ∈ s.dzMemoryFreeList, (s.dz n).valid = 2
  free_nodup : s.dzMemoryFreeList.Nodup
  proxies : ∀ p ∈ s.proxies, (s.dz p.dz).valid = 0 ∨
    (s.dz p.dz).valid = 1 ∧ p.size = (s.dz p.dz).size ∧ p.mem = (s.dz p.dz).mem

/-- As long as no memory is freed. -/
abbrev Chains (s : Sys) : (Nat → List Nat) → Prop := Chained (fun i => s.allocated[i]?) s

/-- The segment `mid` between `left` and `right` is exchanged for `new`. -/
structure Replaced (s t : Sys) (left mid new right : List Nat) : Prop where
  allocated : t.allocated = s.allocated
  taken : (new ++ t.dzMemoryFreeList).Perm s.dzMemoryFreeList
  proxies : ∀ p ∈ t.proxies, p ∈ s.proxies ∨
    p.dz ∈ new ∧ p.size = (t.dz p.dz).size ∧ p.mem = (t.dz p.dz).mem
  new_ne : new ≠ []
  linked : Linked (fun n => (t.dz n).prev) (fun n => (t.dz n).next) left.getLast? new right.head?
  owners : new.IsChain fun x y => (t.dz x).nextOwner = (t.dz y).prevOwner
  owners_left : ∀ x ∈ left.getLast?, ∀ y ∈ new.head?, (s.dz x).nextOwner = (t.dz y).prevOwner
  owners_right : ∀ x ∈ new.getLast?, ∀ y ∈ right.head?, (t.dz x).nextOwner = (s.dz y).prevOwner
  tiled : ∀ base top, Tiled (fun n => (s.dz n).mem) (fun n => (s.dz n).size) base mid top →
    Tiled (fun n => (t.dz n).mem) (fun n => (t.dz n).size) base new top
  valid : ∀ x ∈ new, (t.dz x).valid = 1
  invalid : ∀ x ∈ mid, (t.dz x).valid = 0
  outer : ∀ x, x ∉ new → x ∉ mid → t.dz x =
    { s.dz x with next := if left.getLast? = some x then new.head? else (s.dz x).next
                  prev := if right.head? = some x then new.getLast? else (s.dz x).prev }

/-- The counts: each new node starts with one reference, and there are `objects` for new nodes. The
old nodes keep theirs and hang together without the others. -/
structure Recounted (s t : Sys) (mid new objects : List Nat) : Prop where
  new_count : ∀ x ∈ new, (t.dz x).refcount = 1
  old_count : ∀ x ∈ mid, (t.dz x).refcount = (s.dz x).refcount
  old_mem : ∀ x ∈ mid, (t.dz x).mem = 0
  old_linked : Linked (fun n => (t.dz n).prev) (fun n => (t.dz n).next) none mid none
  proxies : t.proxies.map (·.dz) = s.proxies.map (·.dz) ++ objects
  freed : t.freed = s.freed

namespace Replaced

variable {s t : Sys} {left mid new right : List Nat} {live : Nat → Option Allocation}
  {chain : Nat → List Nat} {i : Nat}

/-- What the exchange leaves of a valid node outside the segment: all but its links. -/
theorem keeps (h : Replaced s t left mid new right) {x : Nat} (hnew : x ∉ new) (hmid : x ∉ mid) :
    (t.dz x).valid = (s.dz x).valid ∧ (t.dz x).mem = (s.dz x).mem ∧
      (t.dz x).size = (s.dz x).size ∧ (t.dz x).prevOwner = (s.dz x).prevOwner ∧
      (t.dz x).nextOwner = (s.dz x).nextOwner := by
  rw [h.outer x hnew hmid]
  exact ⟨rfl, rfl, rfl, rfl, rfl⟩

theorem mem_free (h : Replaced s t left mid new right) {x : Nat} (hx : x ∈ new) :
    x ∈ s.dzMemoryFreeList := h.taken.subset (List.mem_append_left _ hx)

/-- Fresh nodes are on no chain. -/
theorem new_not_mem (h : Replaced s t left mid new right) (hs : Chained live s chain) {x : Nat}
    (hx : x ∈ new) (j : Nat) : x ∉ chain j := fun hj => by
  have hvalid := (hs.valid x).mpr ⟨j, hj⟩
  have hfree := hs.free x (h.mem_free hx)
  omega

theorem new_nodup (h : Replaced s t left mid new right) (hs : Chained live s chain) : new.Nodup :=
  (List.nodup_append.mp (h.taken.nodup_iff.mpr hs.free_nodup)).1

/-- The chain in which the exchange happens. -/
theorem isChain (h : Replaced s t left mid new right) (hs : Chained live s chain)
    (hi : chain i = left ++ mid ++ right) {a : Allocation} (ha : live i = some a) :
    IsChain t.dz a (left ++ new ++ right) := by
  have hold := hs.isChain i a ha
  have hnodup := hs.nodup i
  have hnew : ∀ x ∈ left ++ mid ++ right, x ∉ new := fun x hx hn =>
    h.new_not_mem hs hn i (hi ▸ hx)
  rw [hi] at hold hnodup
  rw [List.nodup_append, List.nodup_append] at hnodup
  obtain ⟨⟨hleft, -, hlm⟩, hright, hlmr⟩ := hnodup
  have hleft_mid : ∀ x ∈ left, x ∉ mid := fun x hx hm => hlm x hx x hm rfl
  have hright_mid : ∀ x ∈ right, x ∉ mid := fun x hx hm =>
    hlmr x (List.mem_append_right _ hm) x hx rfl
  have hleft_new : ∀ x ∈ left, x ∉ new := fun x hx =>
    hnew x (List.mem_append_left _ (List.mem_append_left _ hx))
  have hright_new : ∀ x ∈ right, x ∉ new := fun x hx => hnew x (List.mem_append_right _ hx)
  have hleft_right : ∀ x ∈ left, right.head? ≠ some x := fun x hx hr =>
    hlmr x (List.mem_append_left _ hx) x (List.mem_of_mem_head? hr) rfl
  have hright_left : ∀ x ∈ right, left.getLast? ≠ some x := fun x hx hl =>
    hlmr x (List.mem_append_left _ (List.mem_of_mem_getLast? hl)) x hx rfl
  have hkeeps_left := fun x (hx : x ∈ left) => h.keeps (hleft_new x hx) (hleft_mid x hx)
  have hkeeps_right := fun x (hx : x ∈ right) => h.keeps (hright_new x hx) (hright_mid x hx)
  have hhead : new.head?.or right.head? = new.head? := by
    obtain ⟨y, hy⟩ := Option.ne_none_iff_exists'.mp (mt List.head?_eq_none_iff.mp h.new_ne)
    rw [hy, Option.some_or]
  constructor
  case linked =>
    have hlinked := hold.linked
    simp only [Linked.append_iff, Option.or_none] at hlinked ⊢
    rw [hhead, List.getLast?_append_of_ne_nil _ h.new_ne]
    refine ⟨⟨hlinked.1.1.set_next hleft (fun x hx => ?_) (fun x hx hlast => ?_) fun x hx => ?_,
      h.linked⟩, hlinked.2.set_prev hright (fun x hx => ?_) (fun x hx hfirst => ?_) fun x hx => ?_⟩
    -- In front only the last node changes, and only its `next`.
    · simp [h.outer x (hleft_new x hx) (hleft_mid x hx), hleft_right x hx]
    · simp [h.outer x (hleft_new x hx) (hleft_mid x hx), hlast]
    · have hmem := List.mem_of_getLast? hx
      simp [h.outer x (hleft_new x hmem) (hleft_mid x hmem), hx]
    -- Behind only the first node changes, and only its `prev`.
    · simp [h.outer x (hright_new x hx) (hright_mid x hx), hright_left x hx]
    · simp [h.outer x (hright_new x hx) (hright_mid x hx), hfirst]
    · have hmem := List.mem_of_head? hx
      simp [h.outer x (hright_new x hmem) (hright_mid x hmem), hx]
  case owners =>
    have howners := hold.owners
    simp only [List.isChain_append] at howners ⊢
    refine ⟨⟨?_, h.owners, fun x hx y hy => ?_⟩, ?_, fun x hx y hy => ?_⟩
    · refine howners.1.1.imp_of_mem_imp fun x y hx hy hxy => ?_
      rw [(hkeeps_left x hx).2.2.2.2, (hkeeps_left y hy).2.2.2.1, hxy]
    · rw [(hkeeps_left x (List.mem_of_mem_getLast? hx)).2.2.2.2]
      exact h.owners_left x hx y hy
    · refine howners.2.1.imp_of_mem_imp fun x y hx hy hxy => ?_
      rw [(hkeeps_right x hx).2.2.2.2, (hkeeps_right y hy).2.2.2.1, hxy]
    · rw [List.getLast?_append_of_ne_nil _ h.new_ne] at hx
      rw [(hkeeps_right y (List.mem_of_mem_head? hy)).2.2.2.1]
      exact h.owners_right x hx y hy
  case tiled =>
    obtain ⟨top, hlm, hr⟩ := hold.tiled.of_append
    obtain ⟨base, hl, hm⟩ := hlm.of_append
    refine (Tiled.append (hl.congr ?_ ?_) (h.tiled base top hm)).append (hr.congr ?_ ?_)
    · exact fun x hx => (hkeeps_left x hx).2.1
    · exact fun x hx => (hkeeps_left x hx).2.2.1
    · exact fun x hx => (hkeeps_right x hx).2.1
    · exact fun x hx => (hkeeps_right x hx).2.2.1

/-- An exchange keeps the chains. -/
theorem chains (h : Replaced s t left mid new right) (hs : Chained live s chain)
    (hi : chain i = left ++ mid ++ right) (hmid : mid ≠ []) :
    Chained live t (Function.update chain i (left ++ new ++ right)) := by
  have hmem_mid : ∀ x ∈ mid, x ∈ chain i := fun x hx => by
    rw [hi]
    exact List.mem_append_left _ (List.mem_append_right _ hx)
  -- A node of another chain is no part of the exchange.
  have hother : ∀ j, j ≠ i → ∀ x ∈ chain j, t.dz x = s.dz x := fun j hj x hx => by
    have hout : x ∉ chain i := fun hxi => hj (hs.disjoint j i x hx hxi)
    rw [hi] at hout
    simp only [List.mem_append, not_or] at hout
    have hl : left.getLast? ≠ some x := fun hl => hout.1.1 (List.mem_of_mem_getLast? hl)
    have hr : right.head? ≠ some x := fun hr => hout.2 (List.mem_of_mem_head? hr)
    rw [h.outer x (fun hn => h.new_not_mem hs hn j hx) hout.1.2, if_neg hl, if_neg hr]
  constructor
  case isChain =>
    intro j a ha
    by_cases hj : j = i
    · subst hj
      rw [Function.update_self]
      exact h.isChain hs hi ha
    · rw [Function.update_of_ne hj]
      have hold := hs.isChain j a ha
      have hsame := hother j hj
      refine ⟨hold.linked.congr ?_ ?_, hold.owners.imp_of_mem_imp ?_, hold.tiled.congr ?_ ?_⟩
      · exact fun x hx => by rw [hsame x hx]
      · exact fun x hx => by rw [hsame x hx]
      · exact fun x y hx hy hxy => by rw [hsame x hx, hsame y hy, hxy]
      · exact fun x hx => by rw [hsame x hx]
      · exact fun x hx => by rw [hsame x hx]
  case nodup =>
    intro j
    by_cases hj : j = i
    · subst hj
      rw [Function.update_self]
      have hold := hs.nodup j
      have hfresh := fun x hx => h.new_not_mem hs (x := x) hx j
      have hnew := h.new_nodup hs
      rw [hi] at hold hfresh
      simp only [List.nodup_append] at hold ⊢
      grind
    · rw [Function.update_of_ne hj]
      exact hs.nodup j
  case disjoint =>
    intro j k x hj hk
    have hnew := fun l hx => h.new_not_mem hs (x := x) hx l
    have hdisj := hs.disjoint
    grind [Function.update_apply]
  case beyond =>
    intro j hj
    have hne : j ≠ i := by
      rintro rfl
      have hnil := hs.beyond j hj
      rw [hi] at hnil
      simp_all
    rw [Function.update_of_ne hne]
    exact hs.beyond j hj
  case valid =>
    intro x
    by_cases hnew : x ∈ new
    · simp only [h.valid x hnew, true_iff]
      exact ⟨i, by simp [hnew]⟩
    by_cases hold : x ∈ mid
    · have hout : ∀ j, x ∈ chain j → j = i := fun j hj => hs.disjoint j i x hj (hmem_mid x hold)
      have hnodup := hs.nodup i
      rw [hi] at hnodup
      simp only [h.invalid x hold]
      simp only [List.nodup_append] at hnodup
      grind [Function.update_apply]
    · rw [(h.keeps hnew hold).1, hs.valid x]
      refine exists_congr fun j => ?_
      by_cases hj : j = i
      · subst hj
        simp [hi, hnew, hold]
      · rw [Function.update_of_ne hj]
  case free =>
    intro x hx
    have hfree := hs.free x (h.taken.subset (List.mem_append_right _ hx))
    have hnew : x ∉ new := fun hn => by
      have := List.nodup_append.mp (h.taken.nodup_iff.mpr hs.free_nodup)
      exact this.2.2 x hn x hx rfl
    have hmid' : x ∉ mid := fun hm => by
      have := (hs.valid x).mpr ⟨i, hmem_mid x hm⟩
      omega
    rw [(h.keeps hnew hmid').1, hfree]
  case free_nodup => exact (List.nodup_append.mp (h.taken.nodup_iff.mpr hs.free_nodup)).2.1
  case proxies =>
    intro p hp
    rcases h.proxies p hp with hp | ⟨hnew, hp⟩
    · have hnew : p.dz ∉ new := fun hn => by
        have hfree := hs.free _ (h.mem_free hn)
        rcases hs.proxies p hp with hv | ⟨hv, -⟩ <;> omega
      by_cases hm : p.dz ∈ mid
      · exact .inl (h.invalid _ hm)
      · obtain ⟨hvalid, hmem, hsize, -⟩ := h.keeps hnew hm
        rw [hvalid, hmem, hsize]
        exact hs.proxies p hp
    · exact .inr ⟨h.valid _ hnew, hp⟩

end Replaced

/-- A segment `mid` of some chain and what is around it. -/
structure Segment (s : Sys) (left mid right : List Nat) : Prop where
  linked : Linked (fun n => (s.dz n).prev) (fun n => (s.dz n).next) left.getLast? mid right.head?
  owners : mid.IsChain fun x y => (s.dz x).nextOwner = (s.dz y).prevOwner
  owners_left : ∀ x ∈ left.getLast?, ∀ y ∈ mid.head?, (s.dz x).nextOwner = (s.dz y).prevOwner
  owners_right : ∀ x ∈ mid.getLast?, ∀ y ∈ right.head?, (s.dz x).nextOwner = (s.dz y).prevOwner
  nodup : mid.Nodup
  valid : ∀ x ∈ mid, (s.dz x).valid = 1
  left_last : ∀ x, left.getLast? = some x → (s.dz x).valid = 1 ∧ x ∉ mid
  right_head : ∀ x, right.head? = some x → (s.dz x).valid = 1 ∧ x ∉ mid
  free : ∀ n ∈ s.dzMemoryFreeList, (s.dz n).valid = 2
  free_nodup : s.dzMemoryFreeList.Nodup

/-- A free node is none of them. -/
theorem Segment.fresh {s : Sys} {left mid right : List Nat} (h : Segment s left mid right) {n : Nat}
    (hn : n ∈ s.dzMemoryFreeList) :
    n ∉ mid ∧ left.getLast? ≠ some n ∧ right.head? ≠ some n := by
  have hfree := h.free n hn
  refine ⟨fun hm => ?_, fun hl => ?_, fun hr => ?_⟩
  · have := h.valid n hm
    omega
  · have := (h.left_last n hl).1
    omega
  · have := (h.right_head n hr).1
    omega

namespace Chained

variable {s : Sys} {live : Nat → Option Allocation} {chain : Nat → List Nat} {n i : Nat}
  {left mid right : List Nat}

theorem segment (hs : Chained live s chain) (hi : chain i = left ++ mid ++ right) (hmid : mid ≠ []) :
    Segment s left mid right := by
  obtain ⟨a, ha⟩ : ∃ a, live i = some a := by
    refine Option.ne_none_iff_exists'.mp fun hnone => ?_
    have hnil := hs.beyond i hnone
    simp_all
  have hchain := hs.isChain i a ha
  have hvalid : ∀ x ∈ chain i, (s.dz x).valid = 1 := fun x hx => (hs.valid x).mpr ⟨i, hx⟩
  have hnodup := hs.nodup i
  rw [hi] at hchain hvalid hnodup
  have hlinked := hchain.linked
  have howners := hchain.owners
  have hlast : (left ++ mid).getLast? = mid.getLast? := List.getLast?_append_of_ne_nil _ hmid
  simp only [Linked.append_iff, Option.or_none] at hlinked
  simp only [List.isChain_append, hlast] at howners
  simp only [List.nodup_append] at hnodup
  constructor
  case linked => exact hlinked.1.2
  case owners => exact howners.1.2.1
  case owners_left => exact howners.1.2.2
  case owners_right => exact howners.2.2
  case nodup => exact hnodup.1.2.1
  case valid => grind
  case left_last => grind
  case right_head => grind
  case free => exact hs.free
  case free_nodup => exact hs.free_nodup

/-- A valid node is on some chain. -/
theorem exists_segment (hs : Chained live s chain) (hn : (s.dz n).valid = 1) :
    ∃ i left right, chain i = left ++ [n] ++ right ∧ Segment s left [n] right := by
  obtain ⟨i, hi⟩ := (hs.valid n).mp hn
  obtain ⟨left, right, heq⟩ := List.append_of_mem hi
  rw [List.append_cons] at heq
  exact ⟨i, left, right, heq, hs.segment heq (List.cons_ne_nil n [])⟩

end Chained

/-! ## Fields after an assignment -/

section Fields

variable (s : Sys) (x y n : Option Nat) (k : Nat) (f : DZMemoryProxy → DZMemoryProxy)

@[grind =] theorem set_dz (m : Nat) : (s.set k f).dz m = if m = k then f (s.dz k) else s.dz m :=
  Function.update_apply s.dz k _ m

@[grind =] theorem setNext_dz (m : Nat) :
    (s.setNext x n).dz m = if x = some m then { s.dz m with next := n } else s.dz m := by
  cases x <;> grind [Sys.setNext]

@[grind =] theorem setPrev_dz (m : Nat) :
    (s.setPrev x n).dz m = if x = some m then { s.dz m with prev := n } else s.dz m := by
  cases x <;> grind [Sys.setPrev]

/-- Everything but the nodes. -/
def Sys.rest : List Nat × List MemoryProxy × List Allocation × List (Nat × Nat) :=
  (s.dzMemoryFreeList, s.proxies, s.allocated, s.freed)

@[simp] theorem set_rest : (s.set k f).rest = s.rest := rfl

@[simp] theorem setNext_rest : (s.setNext x n).rest = s.rest := by cases x <;> rfl

@[simp] theorem setPrev_rest : (s.setPrev x n).rest = s.rest := by cases x <;> rfl

end Fields

/-! ## Inversion -/

theorem assert_eq_ok {cond : Prop} [Decidable cond] {text : String} {u : Unit} :
    assert cond text = .ok u ↔ cond := by
  unfold assert
  split <;> simp_all

/-- A node just created. -/
def DZMemoryProxy.created (size mem : Nat) : DZMemoryProxy :=
  { refcount := 1, valid := 1, mem, size, prev := none, next := none, prevOwner := 0,
    nextOwner := 0 }

/-- The nodes `new` left the free list; nothing else happened but to nodes. -/
def Created (s t : Sys) (new : List Nat) : Prop :=
  s.rest = (new ++ t.rest.1, t.rest.2)

theorem Created.trans {s t u : Sys} {l l' : List Nat} (h : Created s t l) (h' : Created t u l') :
    Created s u (l ++ l') := by
  unfold Created at h h' ⊢
  rw [h, h', List.append_assoc]

theorem Created.of_rest {s t u : Sys} {l : List Nat} (h : Created s t l) (htu : u.rest = t.rest) :
    Created s u l := by
  unfold Created
  rw [htu]
  exact h

theorem Created.fields {s t : Sys} {l : List Nat} (h : Created s t l) :
    s.dzMemoryFreeList = l ++ t.dzMemoryFreeList ∧ t.proxies = s.proxies ∧
      t.allocated = s.allocated ∧ t.freed = s.freed := by
  simp only [Created, Sys.rest, Prod.mk.injEq] at h
  exact ⟨h.1, h.2.1.symm, h.2.2.1.symm, h.2.2.2.symm⟩

theorem createDZMemory_ok {size mem n : Nat} {s t : Sys}
    (h : createDZMemory size mem s = .ok (n, t)) :
    Created s t [n] ∧ ∀ m, t.dz m = if m = n then .created size mem else s.dz m := by
  unfold createDZMemory at h
  split at h
  · cases h
  case h_2 m rest heq =>
    simp only [Except.ok.injEq, Prod.mk.injEq] at h
    obtain ⟨rfl, rfl⟩ := h
    refine ⟨?_, fun k => Function.update_apply s.dz m _ k⟩
    simp [Created, Sys.rest, heq]

/-! ## Splitting and joining two nodes -/

/-- A `jint` that passes the test for a sign. -/
theorem toNat_lt_of_not_slt {x : Memory.Jint} (h : x.slt 0 = false) : x.toNat < 2 ^ 31 := by
  simp only [BitVec.slt, BitVec.toInt_eq_toNat_cond] at h
  simp at h
  omega

section Split

variable {s t : Sys} {cdom dzm : Nat} {left right : List Nat}

/-- An exchange from what it does to the nodes, before objects are made for them. -/
theorem Replaced.of_created {mid new : List Nat} (hseg : Segment s left mid right)
    (hmid : mid ≠ []) (hcreated : Created s t new) (hne : new ≠ [])
    (linked : Linked (fun n => (t.dz n).prev) (fun n => (t.dz n).next) left.getLast? new right.head?)
    (owners : new.IsChain fun x y => (t.dz x).nextOwner = (t.dz y).prevOwner)
    (owner_head : ∀ x ∈ new.head?, ∀ y ∈ mid.head?, (t.dz x).prevOwner = (s.dz y).prevOwner)
    (owner_last : ∀ x ∈ new.getLast?, ∀ y ∈ mid.getLast?, (t.dz x).nextOwner = (s.dz y).nextOwner)
    (tiled : ∀ base top, Tiled (fun n => (s.dz n).mem) (fun n => (s.dz n).size) base mid top →
      Tiled (fun n => (t.dz n).mem) (fun n => (t.dz n).size) base new top)
    (valid : ∀ x ∈ new, (t.dz x).valid = 1) (invalid : ∀ x ∈ mid, (t.dz x).valid = 0)
    (outer : ∀ x, x ∉ new → x ∉ mid → t.dz x =
      { s.dz x with next := if left.getLast? = some x then new.head? else (s.dz x).next
                    prev := if right.head? = some x then new.getLast? else (s.dz x).prev }) :
    Replaced s t left mid new right := by
  obtain ⟨hfree, hproxies, hallocated, -⟩ := hcreated.fields
  refine ⟨hallocated, hfree ▸ List.Perm.refl _, ?_, hne, linked, owners, ?_, ?_, tiled, valid,
    invalid, outer⟩
  · rw [hproxies]
    exact fun p hp => .inl hp
  · intro x hx y hy
    have hhead := List.head?_eq_some_head hmid
    rw [owner_head y hy _ hhead, hseg.owners_left x hx _ hhead]
  · intro x hx y hy
    have hlast := List.getLast?_eq_some_getLast hmid
    rw [owner_last x hx _ hlast, hseg.owners_right _ hlast y hy]

theorem Recounted.of_created {mid new : List Nat} (hcreated : Created s t new)
    (new_count : ∀ x ∈ new, (t.dz x).refcount = 1)
    (old_count : ∀ x ∈ mid, (t.dz x).refcount = (s.dz x).refcount)
    (old_mem : ∀ x ∈ mid, (t.dz x).mem = 0)
    (old_linked : Linked (fun n => (t.dz n).prev) (fun n => (t.dz n).next) none mid none) :
    Recounted s t mid new [] := by
  obtain ⟨-, hproxies, -, hfreed⟩ := hcreated.fields
  exact ⟨new_count, old_count, old_mem, old_linked, by rw [hproxies, List.append_nil], hfreed⟩

theorem dzmemorySplit2_replaced {offset : Memory.Jint} {n0 n1 : Nat}
    (hseg : Segment s left [dzm] right)
    (h : dzmemorySplit2 cdom dzm offset s = .ok (some (n0, n1), t)) :
    Replaced s t left [dzm] [n0, n1] right ∧ Recounted s t [dzm] [n0, n1] [] ∧
      (t.dz n0).size = offset.toNat ∧ (offset.slt 0 || (s.dz dzm).size < offset.toNat) = false := by
  unfold dzmemorySplit2 at h
  simp only [bind_eq_ok, assert_eq_ok] at h
  obtain ⟨-, -, -, -, h⟩ := h
  split at h
  · cases h
  rename_i hrange
  simp only [bind_eq_ok, pure_eq_ok, Prod.exists] at h
  obtain ⟨m0, s0, h0, m1, s1, h1, h⟩ := h
  obtain ⟨hc0, hdz0⟩ := createDZMemory_ok h0
  obtain ⟨hc1, hdz1⟩ := createDZMemory_ok h1
  simp only [Prod.mk.injEq, Option.some.injEq] at h
  obtain ⟨⟨rfl, rfl⟩, ht⟩ := h
  obtain ⟨hprev, hnext⟩ := Linked.singleton_iff.mp hseg.linked
  rw [hprev, hnext] at ht
  have hcreated : Created s t [m0, m1] := (hc0.trans hc1).of_rest (by simp [← ht])
  have hnodup := hseg.free_nodup
  rw [hcreated.fields.1] at hnodup
  have hfresh0 := hseg.fresh (n := m0) (by simp [hcreated.fields.1])
  have hfresh1 := hseg.fresh (n := m1) (by simp [hcreated.fields.1])
  have hne : m1 ≠ m0 := by
    rintro rfl
    simp at hnodup
  rw [List.mem_singleton] at hfresh0 hfresh1
  have hn0 : t.dz m0 = ⟨1, 1, (s.dz dzm).mem, offset.toNat, left.getLast?, some m1,
      (s.dz dzm).prevOwner, cdom⟩ := by
    simp [← ht, set_dz, setNext_dz, setPrev_dz, hdz0, hdz1, hfresh0, hne.symm,
      DZMemoryProxy.created]
  have hn1 : t.dz m1 = ⟨1, 1, (s.dz dzm).mem + offset.toNat, (s.dz dzm).size - offset.toNat,
      some m0, right.head?, cdom, (s.dz dzm).nextOwner⟩ := by
    simp [← ht, set_dz, setNext_dz, setPrev_dz, hdz1, hfresh1, hne, DZMemoryProxy.created]
  refine ⟨?_, .of_created hcreated (by simp [hn0, hn1]) ?_ ?_ ?_, by simp [hn0], by simpa using hrange⟩
  rotate_left
  · simp [← ht, set_dz, setNext_dz, setPrev_dz, hdz0, hdz1, Ne.symm hfresh0.1, Ne.symm hfresh1.1]
    split_ifs <;> rfl
  · simp [← ht, set_dz]
  · simp [← ht, set_dz]
  refine Replaced.of_created hseg (List.cons_ne_nil _ _) hcreated (List.cons_ne_nil _ _)
    ?_ ?_ ?_ ?_ ?_ ?_ ?_ ?_
  · simp [hn0, hn1]
  · simp [hn0, hn1]
  · simp [hn0]
  · simp [hn1]
  · simp [hn0, hn1]
    simp at hrange
    omega
  · simp [hn0, hn1]
  · simp [← ht, set_dz]
  · intro x hx hm
    simp at hx hm
    simp [← ht, set_dz, setNext_dz, setPrev_dz, hx, hm, hdz0, hdz1]
    split_ifs <;> rfl

theorem dzmemorySplit3_replaced {offset len : Memory.Jint} {n0 n1 n2 : Nat}
    (hseg : Segment s left [dzm] right)
    (h : dzmemorySplit3 cdom dzm offset len s = .ok (some (n0, n1, n2), t)) :
    Replaced s t left [dzm] [n0, n1, n2] right ∧ Recounted s t [dzm] [n0, n1, n2] [] ∧
      (t.dz n0).size = offset.toNat ∧ (t.dz n2).size = (s.dz dzm).size - len.toNat - offset.toNat ∧
      (offset.slt 0 || len.slt 0 || (s.dz dzm).size < (offset + len).toNat) = false := by
  unfold dzmemorySplit3 at h
  simp only [bind_eq_ok, assert_eq_ok] at h
  obtain ⟨-, -, -, -, h⟩ := h
  split at h
  · cases h
  rename_i hrange
  simp only [bind_eq_ok, pure_eq_ok, Prod.exists] at h
  obtain ⟨m0, s0, h0, m1, s1, h1, m2, s2, h2, h⟩ := h
  obtain ⟨hc0, hdz0⟩ := createDZMemory_ok h0
  obtain ⟨hc1, hdz1⟩ := createDZMemory_ok h1
  obtain ⟨hc2, hdz2⟩ := createDZMemory_ok h2
  simp only [Prod.mk.injEq, Option.some.injEq] at h
  obtain ⟨⟨rfl, rfl, rfl⟩, ht⟩ := h
  obtain ⟨hprev, hnext⟩ := Linked.singleton_iff.mp hseg.linked
  rw [hprev, hnext] at ht
  have hcreated : Created s t [m0, m1, m2] :=
    ((hc0.trans hc1).trans hc2).of_rest (by simp [← ht])
  have hnodup := hseg.free_nodup
  rw [hcreated.fields.1] at hnodup
  have hfresh0 := hseg.fresh (n := m0) (by simp [hcreated.fields.1])
  have hfresh1 := hseg.fresh (n := m1) (by simp [hcreated.fields.1])
  have hfresh2 := hseg.fresh (n := m2) (by simp [hcreated.fields.1])
  have hne : m0 ≠ m1 ∧ m0 ≠ m2 ∧ m1 ≠ m2 := by
    simp at hnodup
    exact ⟨hnodup.1.1, hnodup.1.2.1, hnodup.2.1.1⟩
  obtain ⟨h01, h02, h12⟩ := hne
  rw [List.mem_singleton] at hfresh0 hfresh1 hfresh2
  have hn0 : t.dz m0 = ⟨1, 1, (s.dz dzm).mem, offset.toNat, left.getLast?, some m1,
      (s.dz dzm).prevOwner, cdom⟩ := by
    simp [← ht, set_dz, setNext_dz, setPrev_dz, hdz0, hdz1, hdz2, hfresh0, h01, h02,
      DZMemoryProxy.created]
  have hn1 : t.dz m1 = ⟨1, 1, (s.dz dzm).mem + offset.toNat, len.toNat, some m0, some m2, cdom,
      cdom⟩ := by
    simp [← ht, set_dz, setNext_dz, setPrev_dz, hdz1, hdz2, hfresh1, h01.symm, h12,
      DZMemoryProxy.created]
  have hn2 : t.dz m2 = ⟨1, 1, (s.dz dzm).mem + len.toNat + offset.toNat,
      (s.dz dzm).size - len.toNat - offset.toNat, some m1, right.head?, cdom,
      (s.dz dzm).nextOwner⟩ := by
    simp [← ht, set_dz, setNext_dz, setPrev_dz, hdz2, hfresh2, h02.symm, h12.symm,
      DZMemoryProxy.created]
  refine ⟨?_, .of_created hcreated (by simp [hn0, hn1, hn2]) ?_ ?_ ?_, by simp [hn0], by simp [hn2],
    by simpa using hrange⟩
  rotate_left
  · simp [← ht, set_dz, setNext_dz, setPrev_dz, hdz0, hdz1, hdz2, Ne.symm hfresh0.1, Ne.symm hfresh1.1,
      Ne.symm hfresh2.1]
    split_ifs <;> rfl
  · simp [← ht, set_dz]
  · simp [← ht, set_dz]
  refine Replaced.of_created hseg (List.cons_ne_nil _ _) hcreated (List.cons_ne_nil _ _)
    ?_ ?_ ?_ ?_ ?_ ?_ ?_ ?_
  · simp [hn0, hn1, hn2]
  · simp [hn0, hn1, hn2]
  · simp [hn0]
  · simp [hn2]
  · simp only [Bool.or_eq_true, decide_eq_true_eq, not_or, Bool.not_eq_true, Nat.not_lt] at hrange
    obtain ⟨⟨hoffset, hlen⟩, hsum⟩ := hrange
    have hoffset := toNat_lt_of_not_slt hoffset
    have hlen := toNat_lt_of_not_slt hlen
    rw [BitVec.toNat_add, Nat.mod_eq_of_lt (by omega)] at hsum
    simp [hn0, hn1, hn2]
    omega
  · simp [hn0, hn1, hn2]
  · simp [← ht, set_dz]
  · intro x hx hm
    simp at hx hm
    simp [← ht, set_dz, setNext_dz, setPrev_dz, hx, hm, hdz0, hdz1, hdz2]
    split_ifs <;> rfl

theorem dzmemoryJoin_replaced {dzm1 dzm2 n : Nat} (hseg : Segment s left [dzm1, dzm2] right)
    (h : dzmemoryJoin dzm1 dzm2 s = .ok (n, t)) :
    Replaced s t left [dzm1, dzm2] [n] right ∧ Recounted s t [dzm1, dzm2] [n] [] := by
  unfold dzmemoryJoin at h
  simp only [bind_eq_ok, assert_eq_ok, pure_eq_ok, Prod.exists] at h
  obtain ⟨-, -, -, -, -, -, -, -, -, -, -, -, -, -, m, s0, h0, h⟩ := h
  obtain ⟨hc0, hdz0⟩ := createDZMemory_ok h0
  simp only [Prod.mk.injEq] at h
  obtain ⟨rfl, ht⟩ := h
  have hlinked := hseg.linked
  simp only [Linked.cons_iff, List.head?_cons, Option.some_or, List.head?_nil, Option.none_or,
    Linked.nil, and_true] at hlinked
  obtain ⟨hprev, h12, h21, hnext⟩ := hlinked
  rw [hprev, hnext] at ht
  have hcreated : Created s t [m] := hc0.of_rest (by simp [← ht])
  have hfresh := hseg.fresh (n := m) (by simp [hcreated.fields.1])
  simp only [List.mem_cons, List.not_mem_nil, or_false, not_or] at hfresh
  have hnode : t.dz m = ⟨1, 1, (s.dz dzm1).mem, (s.dz dzm1).size + (s.dz dzm2).size,
      left.getLast?, right.head?, (s.dz dzm1).prevOwner, (s.dz dzm2).nextOwner⟩ := by
    simp [← ht, set_dz, setNext_dz, setPrev_dz, hdz0, hfresh, DZMemoryProxy.created]
  have hne : dzm1 ≠ dzm2 := by
    have hnodup := hseg.nodup
    simp at hnodup
    exact hnodup
  have hleft : ∀ x ∈ [dzm1, dzm2], left.getLast? ≠ some x := fun x hx heq =>
    (hseg.left_last x heq).2 hx
  have hright : ∀ x ∈ [dzm1, dzm2], right.head? ≠ some x := fun x hx heq =>
    (hseg.right_head x heq).2 hx
  simp only [List.forall_mem_cons] at hleft hright
  refine ⟨?_, .of_created hcreated (by simp [hnode]) ?_ ?_ ?_⟩
  rotate_left
  · simp [← ht, set_dz, setNext_dz, setPrev_dz, hdz0, Ne.symm hfresh.1.1, Ne.symm hfresh.1.2, hleft, hright,
      hne, hne.symm]
  · simp [← ht, set_dz, setNext_dz, setPrev_dz]
    split <;> rfl
  · simp [← ht, set_dz, setNext_dz, setPrev_dz, hdz0, Ne.symm hfresh.1.1, Ne.symm hfresh.1.2, hleft, hright,
      hne, hne.symm, h12, h21]
  refine Replaced.of_created hseg (List.cons_ne_nil _ _) hcreated (List.cons_ne_nil _ _)
    ?_ ?_ ?_ ?_ ?_ ?_ ?_ ?_
  · simp [hnode]
  · simp
  · simp [hnode]
  · simp [hnode]
  · simp [hnode]
    omega
  · simp [hnode]
  · simp [← ht, set_dz]
    split <;> rfl
  · intro x hx hm
    simp at hx hm
    simp [← ht, set_dz, setNext_dz, setPrev_dz, hx, hm, hdz0]
    split_ifs <;> rfl

end Split

/-! ## The end of a call -/

/-- Objects are made for some of the nodes, in order. -/
theorem allocMemoryProxies_spec {room : Nat} {l : List Nat} {s t : Sys} {o : Outcome}
    (h : allocMemoryProxies room l s = (o, t)) :
    t.dz = s.dz ∧ t.dzMemoryFreeList = s.dzMemoryFreeList ∧ t.allocated = s.allocated ∧
      t.freed = s.freed ∧ ∀ p ∈ t.proxies, p ∈ s.proxies ∨
        p.dz ∈ l ∧ p.size = (s.dz p.dz).size ∧ p.mem = (s.dz p.dz).mem := by
  induction l generalizing room s with
  | nil =>
    simp only [allocMemoryProxies, Prod.mk.injEq] at h
    obtain ⟨-, rfl⟩ := h
    exact ⟨rfl, rfl, rfl, rfl, fun p hp => .inl hp⟩
  | cons n l ih =>
    cases room with
    | zero =>
      simp only [allocMemoryProxies, Prod.mk.injEq] at h
      obtain ⟨-, rfl⟩ := h
      exact ⟨rfl, rfl, rfl, rfl, fun p hp => .inl hp⟩
    | succ room =>
      simp only [allocMemoryProxies] at h
      obtain ⟨hdz, hfree, hallocated, hfreed, hproxies⟩ := ih h
      refine ⟨hdz, hfree, hallocated, hfreed, fun p hp => ?_⟩
      rcases hproxies p hp with hp | hp
      · rcases List.mem_append.mp hp with hp | hp
        · exact .inl hp
        · simp only [List.mem_singleton] at hp
          subst hp
          exact .inr ⟨List.mem_cons_self, rfl, rfl⟩
      · exact .inr ⟨List.mem_cons_of_mem n hp.1, hp.2⟩

/-- If there is room, there is an object for each node. -/
theorem allocMemoryProxies_proxies {room : Nat} {l : List Nat} {s t : Sys} {o : Outcome}
    (hroom : l.length ≤ room) (h : allocMemoryProxies room l s = (o, t)) :
    t.proxies.map (·.dz) = s.proxies.map (·.dz) ++ l := by
  induction l generalizing room s with
  | nil =>
    simp only [allocMemoryProxies, Prod.mk.injEq] at h
    obtain ⟨-, rfl⟩ := h
    rw [List.append_nil]
  | cons n l ih =>
    cases room with
    | zero => simp at hroom
    | succ room =>
      simp only [allocMemoryProxies] at h
      rw [ih (Nat.le_of_succ_le_succ hroom) h]
      simp

namespace Replaced

variable {s t u : Sys} {left mid new right : List Nat}

theorem alloc (h : Replaced s t left mid new right) {room : Nat} {l : List Nat} {o : Outcome}
    (hl : ∀ n ∈ l, n ∈ new) (halloc : allocMemoryProxies room l t = (o, u)) :
    Replaced s u left mid new right := by
  obtain ⟨hdz, hfree, hallocated, -, hproxies⟩ := allocMemoryProxies_spec halloc
  obtain ⟨h1, h2, h3, h4, h5, h6, h7, h8, h9, h10, h11, h12⟩ := h
  rw [← hdz] at h5 h6 h7 h8 h9 h10 h11 h12
  refine ⟨hallocated.trans h1, hfree ▸ h2, fun p hp => ?_, h4, h5, h6, h7, h8, h9, h10, h11, h12⟩
  rcases hproxies p hp with hp | ⟨hmem, hp⟩
  · rw [hdz]
    exact h3 p hp
  · rw [hdz]
    exact .inr ⟨hl _ hmem, hp⟩

/-- Freeing a node of the segment once more changes nothing that matters. -/
theorem freeDZ (h : Replaced s t left mid new right) {n : Nat} (hn : n ∈ mid) (hnew : n ∉ new) :
    Replaced s (t.freeDZ n) left mid new right := by
  have hout : ∀ x, x ≠ n → (t.freeDZ n).dz x = t.dz x := fun x hx => by
    rw [Sys.freeDZ, set_dz, if_neg hx]
  have hsame : ∀ x ∈ new, (t.freeDZ n).dz x = t.dz x := fun x hx =>
    hout x fun heq => hnew (heq ▸ hx)
  constructor
  case allocated => exact h.allocated
  case taken => exact h.taken
  case proxies =>
    intro p hp
    refine (h.proxies p hp).imp_right fun ⟨hmem, hp⟩ => ⟨hmem, ?_⟩
    rwa [hsame _ hmem]
  case new_ne => exact h.new_ne
  case linked => exact h.linked.congr (fun x hx => by rw [hsame x hx]) fun x hx => by rw [hsame x hx]
  case owners =>
    exact h.owners.imp_of_mem_imp fun x y hx hy hxy => by rw [hsame x hx, hsame y hy, hxy]
  case owners_left =>
    intro x hx y hy
    rw [hsame y (List.mem_of_mem_head? hy)]
    exact h.owners_left x hx y hy
  case owners_right =>
    intro x hx y hy
    rw [hsame x (List.mem_of_mem_getLast? hx)]
    exact h.owners_right x hx y hy
  case tiled =>
    intro base top hmid
    exact (h.tiled base top hmid).congr (fun x hx => by rw [hsame x hx]) fun x hx => by
      rw [hsame x hx]
  case valid =>
    intro x hx
    rw [hsame x hx]
    exact h.valid x hx
  case invalid =>
    intro x hx
    rw [Sys.freeDZ, set_dz]
    split
    · rfl
    · exact h.invalid x hx
  case outer =>
    intro x hx hm
    rw [hout x fun heq => hm (heq ▸ hn)]
    exact h.outer x hx hm

theorem allocThenFree (h : Replaced s t left mid new right) {room : Nat} {l : List Nat}
    {self : MemoryProxy} {o : Outcome} (hl : ∀ n ∈ l, n ∈ new) (hself : self.dz ∈ mid)
    (hnew : self.dz ∉ new) (halloc : Region.allocThenFree room l self t = (o, u)) :
    Replaced s u left mid new right := by
  unfold Region.allocThenFree at halloc
  split at halloc
  case h_1 v hv =>
    simp only [Prod.mk.injEq] at halloc
    obtain ⟨-, rfl⟩ := halloc
    exact (h.alloc hl hv).freeDZ hself hnew
  case h_2 => exact h.alloc hl halloc

end Replaced

namespace Recounted

variable {s t u : Sys} {mid new objects : List Nat}

/-- Objects for all of `l`. -/
theorem alloc (h : Recounted s t mid new []) {room : Nat} {l : List Nat} {o : Outcome}
    (hroom : l.length ≤ room) (halloc : allocMemoryProxies room l t = (o, u)) :
    Recounted s u mid new l := by
  obtain ⟨hdz, -, -, hfreed, -⟩ := allocMemoryProxies_spec halloc
  obtain ⟨h1, h2, h3, h4, h5, h6⟩ := h
  rw [← hdz] at h1 h2 h3 h4
  refine ⟨h1, h2, h3, h4, ?_, hfreed.trans h6⟩
  rw [allocMemoryProxies_proxies hroom halloc, h5, List.append_nil]

theorem freeDZ (h : Recounted s t mid new objects) (n : Nat) :
    Recounted s (t.freeDZ n) mid new objects := by
  have hdz : ∀ x, ((t.freeDZ n).dz x).refcount = (t.dz x).refcount ∧
      ((t.freeDZ n).dz x).prev = (t.dz x).prev ∧ ((t.freeDZ n).dz x).next = (t.dz x).next ∧
      ((t.dz x).mem = 0 → ((t.freeDZ n).dz x).mem = 0) := fun x => by
    rw [Sys.freeDZ, set_dz]
    split_ifs with hx
    · rw [hx]
      exact ⟨rfl, rfl, rfl, fun _ => rfl⟩
    · exact ⟨rfl, rfl, rfl, id⟩
  constructor
  case new_count => exact fun x hx => (hdz x).1.trans (h.new_count x hx)
  case old_count => exact fun x hx => (hdz x).1.trans (h.old_count x hx)
  case old_mem => exact fun x hx => (hdz x).2.2.2 (h.old_mem x hx)
  case old_linked => exact h.old_linked.congr (fun x _ => (hdz x).2.1) fun x _ => (hdz x).2.2.1
  case proxies => exact h.proxies
  case freed => exact h.freed

theorem allocThenFree (h : Recounted s t mid new []) {room : Nat} {l : List Nat}
    {self : MemoryProxy} {o : Outcome} (hroom : l.length ≤ room)
    (halloc : Region.allocThenFree room l self t = (o, u)) : Recounted s u mid new l := by
  unfold Region.allocThenFree at halloc
  split at halloc
  case h_1 v hv =>
    simp only [Prod.mk.injEq] at halloc
    obtain ⟨-, rfl⟩ := halloc
    exact (h.alloc hroom hv).freeDZ _
  case h_2 => exact h.alloc hroom halloc

end Recounted

/-! ## Joining all nodes of a domain -/

/-- A node after `FREE_DZ`. -/
def DZMemoryProxy.invalidated (m : DZMemoryProxy) : DZMemoryProxy := { m with valid := 0, mem := 0 }

theorem freeDZ_dz (s : Sys) (n x : Nat) :
    (s.freeDZ n).dz x = if x = n then (s.dz x).invalidated else s.dz x := by
  rw [Sys.freeDZ, set_dz]
  split
  case isTrue heq => rw [heq]; rfl
  · rfl

section JoinAll

variable {s t : Sys} {cdom dzm : Nat} {left mid right : List Nat}

/-- The walk to the top stays on the chain and crosses only borders of the caller. -/
theorem findTop_spec {fuel top : Nat}
    (hlinked : Linked (fun n => (s.dz n).prev) (fun n => (s.dz n).next) none (left ++ dzm :: right)
      none)
    (howners : (left ++ dzm :: right).IsChain fun x y => (s.dz x).nextOwner = (s.dz y).prevOwner)
    (h : findTop cdom s fuel dzm = .ok top) :
    ∃ left' mid, left ++ [dzm] = left' ++ top :: mid ∧
      ∀ x ∈ (top :: mid).dropLast, (s.dz x).nextOwner = cdom := by
  induction fuel generalizing dzm left right with
  | zero => cases h
  | succ fuel ih =>
    have hprev := hlinked.at_mem.1
    rw [Option.or_none] at hprev
    unfold findTop at h
    split at h
    · cases h
      exact ⟨left, [], rfl, by simp⟩
    case h_2 p heq =>
      split at h
      case isTrue howner =>
        simp only [bind_eq_ok, assert_eq_ok] at h
        obtain ⟨-, -, -, -, h⟩ := h
        -- The predecessor is the last node of `left`.
        obtain ⟨left₀, rfl⟩ := List.getLast?_eq_some_iff.mp (hprev.symm.trans heq)
        rw [List.append_assoc, List.singleton_append] at hlinked howners
        obtain ⟨left', mid, hmid, hcdom⟩ := ih hlinked howners h
        refine ⟨left', mid ++ [dzm], by rw [hmid, List.append_assoc, List.cons_append], ?_⟩
        rw [← List.cons_append, List.dropLast_concat]
        intro x hx
        rw [← List.dropLast_append_getLast (List.cons_ne_nil top mid)] at hx
        rcases List.mem_append.mp hx with hx | hx
        · exact hcdom x hx
        · have hlast : (top :: mid).getLast (List.cons_ne_nil top mid) = p := by
            have := congrArg List.getLast? hmid
            rw [List.getLast?_concat, List.getLast?_append_of_ne_nil _ (List.cons_ne_nil top mid),
              List.getLast?_eq_some_getLast (List.cons_ne_nil top mid)] at this
            exact (Option.some.inj this).symm
          rw [List.mem_singleton.mp hx, hlast, ← howner]
          rw [List.isChain_append, List.isChain_cons_cons] at howners
          exact howners.2.1.1
      case isFalse =>
        cases h
        exact ⟨left, [], rfl, by simp⟩

/-- The walk down frees a segment of the chain, and stops where it ends or in front of a border
that is not the caller's. -/
theorem freeDown_spec {fuel size size' : Nat} {dzmLast : Option Nat} {p : Option Nat}
    (hlinked : Linked (fun n => (s.dz n).prev) (fun n => (s.dz n).next) p (dzm :: right) none)
    (hnodup : (dzm :: right).Nodup)
    (h : freeDown cdom fuel dzm size s = .ok (dzmLast, size', t)) :
    ∃ mid right', dzm :: right = dzm :: mid ++ right' ∧ t.rest = s.rest ∧
      size' = size + ((dzm :: mid).map fun n => (s.dz n).size).sum ∧
      (∀ x, t.dz x = if x ∈ dzm :: mid then (s.dz x).invalidated else s.dz x) ∧
      (∀ n, dzmLast = some n → (dzm :: mid).getLast? = some n ∧ (s.dz n).nextOwner ≠ cdom) ∧
      (dzmLast = none → right' = [] ∧ ∀ n ∈ (dzm :: mid).getLast?, (s.dz n).nextOwner = cdom) := by
  induction fuel generalizing dzm right size s p with
  | zero => cases h
  | succ fuel ih =>
    unfold freeDown at h
    simp only [bind_eq_ok, assert_eq_ok] at h
    obtain ⟨-, -, -, -, -, -, h⟩ := h
    have hone : ∀ x, (s.freeDZ dzm).dz x =
        if x ∈ [dzm] then (s.dz x).invalidated else s.dz x := by
      simp [freeDZ_dz]
    split at h
    case isTrue howner =>
      have hnext := hlinked.2.1
      rw [Option.or_none] at hnext
      split at h
      case h_1 n heq =>
        obtain ⟨right, rfl⟩ : ∃ l, right = n :: l := by
          cases right with
          | nil => simp [heq] at hnext
          | cons m l =>
            simp only [heq, List.head?_cons, Option.some.injEq] at hnext
            exact ⟨l, by rw [hnext]⟩
        have hlinked' : Linked (fun m => ((s.freeDZ dzm).dz m).prev)
            (fun m => ((s.freeDZ dzm).dz m).next) (some dzm) (n :: right) none := by
          refine hlinked.2.2.congr (fun x _ => ?_) fun x _ => ?_
          · simp only [hone x]
            split <;> rfl
          · simp only [hone x]
            split <;> rfl
        rw [List.nodup_cons] at hnodup
        obtain ⟨mid, right', hmid, hrest, hsize, hdz, hlast, hend⟩ := ih hlinked' hnodup.2 h
        have hout : dzm ∉ n :: mid := fun hm => by
          refine hnodup.1 ?_
          rw [hmid]
          exact List.mem_append_left _ hm
        have hsame : ∀ x ∈ n :: mid, (s.freeDZ dzm).dz x = s.dz x := fun x hx => by
          rw [hone x, if_neg]
          rintro hx'
          exact hout (List.mem_singleton.mp hx' ▸ hx)
        refine ⟨n :: mid, right', by rw [hmid]; rfl, hrest, ?_, fun x => ?_, fun m hm => ?_,
          fun hnone => ⟨(hend hnone).1, fun m hm => ?_⟩⟩
        · rw [hsize, List.map_congr_left fun x hx => by rw [hsame x hx], List.map_cons (a := dzm),
            List.sum_cons, Nat.add_assoc]
        · rw [hdz x]
          by_cases hx : x ∈ n :: mid
          · rw [if_pos hx, if_pos (List.mem_cons_of_mem dzm hx), hsame x hx]
          · rw [if_neg hx, hone x]
            simp [hx]
        · obtain ⟨hget, howner'⟩ := hlast m hm
          rw [List.getLast?_cons_cons]
          rw [hsame m (List.mem_of_getLast? hget)] at howner'
          exact ⟨hget, howner'⟩
        · rw [List.getLast?_cons_cons] at hm
          rw [← (hend hnone).2 m hm, hsame m (List.mem_of_mem_getLast? hm)]
      case h_2 heq =>
        cases h
        have hright : right = [] := List.head?_eq_none_iff.mp (hnext.symm.trans heq)
        refine ⟨[], [], by rw [hright]; rfl, rfl, by simp, hone, by simp, fun _ => ⟨rfl, ?_⟩⟩
        simpa using howner
    case isFalse howner =>
      cases h
      exact ⟨[], right, rfl, rfl, by simp, hone, by simpa using howner, by simp⟩

/-- What `memory_joinAll` does once the walks are over. -/
def linkJoined (cdom dzmTop : Nat) (dzmLast : Option Nat) (dzmNew : Nat) (s : Sys) : Sys :=
  let top := s.dz dzmTop
  let s := s.setNext top.prev (some dzmNew)
  let s := s.set dzmNew fun m => { m with prev := top.prev, prevOwner := top.prevOwner }
  let s := s.set dzmTop fun m => { m with prev := none }
  match dzmLast with
  | some dzmLast =>
    let last := s.dz dzmLast
    let s := s.set dzmNew fun m => { m with next := last.next, nextOwner := last.nextOwner }
    let s := s.setPrev last.next (some dzmNew)
    s.set dzmLast fun m => { m with next := none }
  | none => s.set dzmNew fun m => { m with next := none, nextOwner := cdom }

theorem linkJoined_rest (cdom dzmTop : Nat) (dzmLast : Option Nat) (dzmNew : Nat) (s : Sys) :
    (linkJoined cdom dzmTop dzmLast dzmNew s).rest = s.rest := by
  unfold linkJoined
  cases dzmLast <;> simp

theorem joinAll_replaced {s₁ s₂ : Sys} {n top size : Nat} {dzmLast : Option Nat}
    (hseg : Segment s left (top :: mid) right)
    (hrest : s₁.rest = s.rest)
    (hsize : size = ((top :: mid).map fun n => (s.dz n).size).sum)
    (hdz : ∀ x, s₁.dz x = if x ∈ top :: mid then (s.dz x).invalidated else s.dz x)
    (hlast : ∀ n, dzmLast = some n → (top :: mid).getLast? = some n)
    (hend : dzmLast = none → right = [] ∧
      ∀ n ∈ (top :: mid).getLast?, (s.dz n).nextOwner = cdom)
    (h : createDZMemory size (s.dz top).mem s₁ = .ok (n, s₂)) :
    Replaced s (linkJoined cdom top dzmLast n s₂) left (top :: mid) [n] right ∧
      Recounted s (linkJoined cdom top dzmLast n s₂) (top :: mid) [n] [] := by
  obtain ⟨hc, hdz₂⟩ := createDZMemory_ok h
  have hcreated : Created s (linkJoined cdom top dzmLast n s₂) [n] := by
    unfold Created at hc ⊢
    rw [linkJoined_rest, ← hc, hrest]
  have hfresh := hseg.fresh (n := n) (by simp [hcreated.fields.1])
  have hprev : (s.dz top).prev = left.getLast? := hseg.linked.1
  have htop : top ∈ top :: mid := List.mem_cons_self
  have htop_ne : top ≠ n := fun heq => hfresh.1 (heq ▸ htop)
  have hs₂ : ∀ x, x ≠ n → s₂.dz x = if x ∈ top :: mid then (s.dz x).invalidated else s.dz x :=
    fun x hx => by rw [hdz₂ x, if_neg hx, hdz x]
  have hs₂top : s₂.dz top = (s.dz top).invalidated := by rw [hs₂ top htop_ne, if_pos htop]
  have hs₂n : s₂.dz n = .created size (s.dz top).mem := by rw [hdz₂ n, if_pos rfl]
  -- The state before the last node is looked at.
  obtain ⟨s₃, hs₃⟩ : ∃ s₃ : Sys, s₃ = ((s₂.setNext left.getLast? (some n)).set n fun m =>
      { m with prev := left.getLast?, prevOwner := (s.dz top).prevOwner }).set top fun m =>
        { m with prev := none } := ⟨_, rfl⟩
  have hs₃n : s₃.dz n = ⟨1, 1, (s.dz top).mem, size, left.getLast?, none, (s.dz top).prevOwner,
      0⟩ := by
    simp [hs₃, set_dz, setNext_dz, htop_ne.symm, hs₂n, hfresh, DZMemoryProxy.created]
  have hs₃mid : ∀ x ∈ top :: mid, s₃.dz x = { (s.dz x).invalidated with
      prev := if x = top then none else (s.dz x).prev } := by
    intro x hx
    have hx_ne : x ≠ n := fun heq => hfresh.1 (heq ▸ hx)
    have hx_left : left.getLast? ≠ some x := fun heq => (hseg.left_last x heq).2 hx
    have hx_dz : s₂.dz x = (s.dz x).invalidated := by rw [hs₂ x hx_ne, if_pos hx]
    simp only [hs₃, set_dz, setNext_dz, hx_ne, hx_left, htop_ne, hs₂top, hx_dz, if_false]
    split <;> simp_all [DZMemoryProxy.invalidated]
  have hs₃out : ∀ x, x ∉ [n] → x ∉ top :: mid → s₃.dz x =
      { s.dz x with next := if left.getLast? = some x then some n else (s.dz x).next } := by
    intro x hx hm
    have hx_top : x ≠ top := fun heq => hm (heq ▸ htop)
    rw [List.mem_singleton] at hx
    simp only [hs₃, set_dz, setNext_dz, hx, hx_top, if_false, hs₂ x hx, hm]
    split <;> rfl
  have hlink : linkJoined cdom top dzmLast n s₂ = match dzmLast with
      | some z => ((s₃.set n fun m =>
          { m with next := (s₃.dz z).next, nextOwner := (s₃.dz z).nextOwner }).setPrev
            (s₃.dz z).next (some n)).set z fun m => { m with next := none }
      | none => s₃.set n fun m => { m with next := none, nextOwner := cdom } := by
    cases dzmLast <;> simp only [linkJoined, hs₃, hs₂top, DZMemoryProxy.invalidated, hprev]
  obtain ⟨z, hz, hnode, hold, houter⟩ : ∃ z, (top :: mid).getLast? = some z ∧
      (linkJoined cdom top dzmLast n s₂).dz n = ⟨1, 1, (s.dz top).mem, size, left.getLast?,
        right.head?, (s.dz top).prevOwner, (s.dz z).nextOwner⟩ ∧
      (∀ x ∈ top :: mid, (linkJoined cdom top dzmLast n s₂).dz x =
        { (s.dz x).invalidated with
          prev := if x = top then none else (s.dz x).prev
          next := if (top :: mid).getLast? = some x then none else (s.dz x).next }) ∧
      ∀ x, x ∉ [n] → x ∉ top :: mid → (linkJoined cdom top dzmLast n s₂).dz x =
        { s.dz x with next := if left.getLast? = some x then some n else (s.dz x).next
                      prev := if right.head? = some x then some n else (s.dz x).prev } := by
    rw [hlink]
    cases dzmLast with
    | some z =>
      have hz := hlast z rfl
      have hz_mem := List.mem_of_getLast? hz
      have hz_ne : z ≠ n := fun heq => hfresh.1 (heq ▸ hz_mem)
      have hz_next := hseg.linked.next_getLast hz
      have hnext : (s₃.dz z).next = (s.dz z).next := by rw [hs₃mid z hz_mem]; rfl
      have howner : (s₃.dz z).nextOwner = (s.dz z).nextOwner := by rw [hs₃mid z hz_mem]; rfl
      refine ⟨z, hz, ?_, fun x hx => ?_, fun x hx hm => ?_⟩
      · simp [set_dz, setPrev_dz, hz_ne.symm, hnext, howner, hz_next, hs₃n, hfresh]
      · have hx_ne : x ≠ n := fun heq => hfresh.1 (heq ▸ hx)
        have hx_right : right.head? ≠ some x := fun heq => (hseg.right_head x heq).2 hx
        by_cases hxz : x = z
        · subst hxz
          simp [set_dz, setPrev_dz, hz_next, hx_ne, hx_right, hz, hs₃mid x hx,
            DZMemoryProxy.invalidated]
        · simp [set_dz, setPrev_dz, hnext, hz_next, hx_ne, hx_right, hz, hxz, Ne.symm hxz,
            hs₃mid x hx, DZMemoryProxy.invalidated]
      · have hx_z : x ≠ z := fun heq => hm (heq ▸ hz_mem)
        rw [List.mem_singleton] at hx
        simp only [set_dz, setPrev_dz, hnext, hz_next, hx, hx_z, if_false]
        rw [hs₃out x (by simpa using hx) hm]
        split <;> rfl
    | none =>
      obtain ⟨hright, howner⟩ := hend rfl
      have hz := List.getLast?_eq_some_getLast (List.cons_ne_nil top mid)
      refine ⟨_, hz, ?_, fun x hx => ?_, fun x hx hm => ?_⟩
      · simp [set_dz, hs₃n, hright, howner _ hz]
      · have hx_ne : x ≠ n := fun heq => hfresh.1 (heq ▸ hx)
        have hx_next : (top :: mid).getLast? = some x → (s.dz x).next = none := fun hlast => by
          rw [hseg.linked.next_getLast hlast, hright, List.head?_nil]
        simp only [set_dz, hx_ne, if_false, hs₃mid x hx]
        grind [DZMemoryProxy.invalidated]
      · rw [set_dz, if_neg (by simpa using hx), hs₃out x hx hm]
        simp [hright]
  have hlinked : Linked (fun x => ((linkJoined cdom top dzmLast n s₂).dz x).prev)
      (fun x => ((linkJoined cdom top dzmLast n s₂).dz x).next) none (top :: mid) none := by
    have hprevs : Linked (fun x => ((linkJoined cdom top dzmLast n s₂).dz x).prev)
        (fun x => (s.dz x).next) none (top :: mid) right.head? := by
      refine hseg.linked.set_prev hseg.nodup (fun _ _ => rfl) (fun x hx hne => ?_) fun x hx => ?_
      · rw [hold x hx, if_neg fun heq => hne (by rw [heq, List.head?_cons])]
      · cases hx
        rw [hold top htop, if_pos rfl]
    refine hprevs.set_next hseg.nodup (fun _ _ => rfl) (fun x hx hne => ?_) fun x hx => ?_
    · rw [hold x hx, if_neg hne]
    · rw [hold x (List.mem_of_getLast? hx), if_pos hx]
  refine ⟨?_, .of_created hcreated (by simp [hnode]) (fun x hx => by rw [hold x hx]; rfl)
    (fun x hx => by rw [hold x hx]; rfl) hlinked⟩
  refine Replaced.of_created hseg (List.cons_ne_nil _ _) hcreated (List.cons_ne_nil _ _)
    ?_ ?_ ?_ ?_ ?_ ?_ (fun x hx => by rw [hold x hx]; rfl) houter
  · simp [hnode]
  · simp
  · simp [hnode]
  · simp [hnode, hz]
  · intro base top' htiled
    have htop_eq := htiled.top_eq
    have hbase : (s.dz top).mem = base := htiled.1
    simp [hnode, hsize]
    simp at htop_eq
    omega
  · simp [hnode]

end JoinAll

end JxCore.Region
