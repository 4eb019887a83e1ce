import JxCore.Core.MallocSearch

/-!
# The code area of a domain (`core/malloc.c`)

Descriptors and code of a domain are never freed one by one. `malloc_code` cuts them off the front of a
fragment, and starts a new fragment when the current one is full. The end of what is cut off is a sum of
a pointer and a size of 32 bits; if the sum wraps, it looks as if there were room.
-/

namespace JxCore.MallocCode

open Malloc Exec

/-! ## The routine -/

/-- `CODE_FRAGMENTS`. -/
def codeFragments : Nat := 128

/-- The part of a `DomainDesc` that describes its code. -/
structure DomainDesc where
  codeBytes : Nat
  code : Nat → Nat
  codeBorder : Nat → Nat
  codeTop : Nat → Nat
  /-- `cur_code`; `none` is -1. -/
  curCode : Option Nat

/-- The `size` bytes from `addr` on. -/
structure Span where
  addr : Nat
  size : Nat
  deriving DecidableEq

/-- One domain, the allocator, and a record of what `malloc_code` has returned to the domain. -/
structure State where
  world : World
  dom : DomainDesc
  returned : List Span

/-- The region of a fragment at `addr`. -/
def DomainDesc.region (dom : DomainDesc) (addr : Nat) : Region :=
  ⟨addr, dom.codeBytes, Allocator.sizeBlkOf dom.codeBytes⟩

/-- Fragment `c` is empty and begins at `addr`. -/
def DomainDesc.setFragment (dom : DomainDesc) (c addr : Nat) : DomainDesc :=
  { dom with
    code := Function.update dom.code c addr
    codeBorder := Function.update dom.codeBorder c (u4 (addr + dom.codeBytes))
    codeTop := Function.update dom.codeTop c addr
    curCode := some c }

/-- A new fragment from `jxmalloc`. -/
def startFragment (fuel : Nat) (s : State) (c : Nat) : Exec State := do
  let (addr, alloc) ← ExceptT.mk (s.world.alloc.jxmalloc fuel s.dom.codeBytes)
  return ⟨⟨alloc, s.dom.region addr :: s.world.live⟩, s.dom.setFragment c addr, s.returned⟩

/-- "if (domain->cur_code == -1)". -/
def firstFragment (fuel : Nat) (s : State) : Exec State :=
  if s.dom.curCode = none then startFragment fuel s 0 else return s

/-- `size` bytes are cut off fragment `c`. -/
def State.cut (s : State) (c size : Nat) : Nat × State :=
  (s.dom.codeTop c, { s with
    dom := { s.dom with
      codeTop := Function.update s.dom.codeTop c (u4 (s.dom.codeTop c + size)) }
    returned := ⟨s.dom.codeTop c, size⟩ :: s.returned })

/-- "nextObj > domain->codeBorder[c]". -/
def State.Full (s : State) (c size : Nat) : Prop :=
  s.dom.codeBorder c < u4 (s.dom.codeTop c + size)

instance (s : State) (c size : Nat) : Decidable (s.Full c size) := inferInstanceAs (Decidable (_ < _))

/-- The part of `malloc_code` behind the first fragment. -/
def cutCode (fuel : Nat) (s : State) (c size : Nat) : Exec (Nat × State) :=
  if s.Full c size then
    if c + 1 = codeFragments then throw (.panic "NO MORE CODE")
    else do
      let s ← startFragment fuel s (c + 1)
      if s.Full (c + 1) size then throw (.panic "can`t alloc %i byte")
      else return s.cut (c + 1) size
  else return s.cut c size

/-- `malloc_code`. -/
def mallocCode (fuel : Nat) (s : State) (size : Nat) : Exec (Nat × State) := do
  let s ← firstFragment fuel s
  cutCode fuel s (s.dom.curCode.getD 0) size

/-! ## Runs -/

/-- In the current fragment, and in the next one if there is need of it, the bytes that the call wants
end before the address space does. -/
structure NoWrap (fuel : Nat) (s : State) (size : Nat) : Prop where
  current : ∀ s' c, firstFragment fuel s = pure s' → s'.dom.curCode = some c →
    s'.dom.codeTop c + size < 2 ^ 32
  next : ∀ s' s'' c, firstFragment fuel s = pure s' → s'.dom.curCode = some c →
    s'.dom.codeBorder c < s'.dom.codeTop c + size → c + 1 ≠ codeFragments →
      startFragment fuel s' (c + 1) = pure s'' → s''.dom.codeTop (c + 1) + size < 2 ^ 32

/-- Fragment `c` has been started. -/
def State.Started (s : State) (c : Nat) : Prop := ∃ cur, s.dom.curCode = some cur ∧ c ≤ cur

/-- A call of `malloc_code` that meets `ok`, or anything that happens between two calls. Nobody else
frees the fragments; there are `n` managed blocks from `start` on. -/
inductive Step (start n : Nat) (ok : Nat → State → Nat → Prop) : State → State → Prop where
  | call {s s' : State} {fuel size addr : Nat} (hsize : size < 2 ^ 32) (hok : ok fuel s size)
      (h : mallocCode fuel s size = pure (addr, s')) : Step start n ok s s'
  | other {s : State} {op : Op} {world : World} (hfit : Fits start n op)
      (hkeep : ∀ c, s.Started c → op ≠ .free (s.dom.region (s.dom.code c)))
      (h : Malloc.Step op s.world world) : Step start n ok s { s with world := world }

/-- Spans that have no byte in common. -/
def Span.Apart (r r' : Span) : Prop := r.addr + r.size ≤ r'.addr ∨ r'.addr + r'.size ≤ r.addr

/-- The allocator has no fragment to give. -/
def OutOfMemory (fuel : Nat) (s : State) : Prop :=
  ∃ e, firstFragment fuel s = throw e ∨
    ∃ s' c, firstFragment fuel s = pure s' ∧ s'.dom.curCode = some c ∧
      startFragment fuel s' (c + 1) = throw e

/-- **The contract of `malloc_code`.** -/
structure Sound (s : State) : Prop where
  inside : ∀ r ∈ s.returned, ∃ c, s.Started c ∧
    s.dom.code c ≤ r.addr ∧ r.addr + r.size ≤ s.dom.codeBorder c
  apart : s.returned.Pairwise Span.Apart
  panics : ∀ fuel size e, size < 2 ^ 32 → NoWrap fuel s size → mallocCode fuel s size = throw e →
    s.dom.codeBytes < size ∨ s.dom.curCode = some (codeFragments - 1) ∨ OutOfMemory fuel s

/-- A new domain. -/
def DomainDesc.new (codeBytes : Nat) : DomainDesc :=
  ⟨codeBytes, fun _ => 0, fun _ => 0, fun _ => 0, none⟩

/-! ## The parts of the routine -/

section Parts

variable {s s' : State} {fuel c size addr : Nat} {e : Stop}

theorem startFragment_eq_pure (h : startFragment fuel s c = pure s') :
    ∃ addr alloc, s.world.alloc.jxmalloc fuel s.dom.codeBytes = some (.ok (addr, alloc)) ∧
      s' = ⟨⟨alloc, s.dom.region addr :: s.world.live⟩, s.dom.setFragment c addr, s.returned⟩ := by
  obtain ⟨⟨addr, alloc⟩, hcall, h⟩ := bind_eq_pure h
  exact ⟨addr, alloc, hcall, (eq_of_pure_eq h).symm⟩

end Parts

/-! ## The invariant -/

/-- Fragment `c` is a live region of the allocator, and its top is inside it. -/
structure Placed (start n : Nat) (s : State) (c : Nat) : Prop where
  block : ∃ b, s.dom.code c = start + b * blockSize ∧ b ≤ n ∧
    b + Allocator.sizeBlkOf s.dom.codeBytes ≤ n
  live : s.dom.region (s.dom.code c) ∈ s.world.live
  border : s.dom.codeBorder c = s.dom.code c + s.dom.codeBytes
  low : s.dom.code c ≤ s.dom.codeTop c
  high : s.dom.codeTop c ≤ s.dom.codeBorder c

/-- The whole of fragment `c`. -/
def State.span (s : State) (c : Nat) : Span := ⟨s.dom.code c, s.dom.codeBytes⟩

structure Inv (start n : Nat) (s : State) : Prop where
  malloc : Malloc.Inv start n s.world
  small : s.dom.codeBytes ≤ 2 ^ 32 - 1024
  placed : ∀ c, s.Started c → Placed start n s c
  spans : ∀ c c', s.Started c → s.Started c' → c ≠ c' → (s.span c).Apart (s.span c')
  inside : ∀ r ∈ s.returned, ∃ c, s.Started c ∧ s.dom.code c ≤ r.addr ∧
    r.addr + r.size ≤ s.dom.codeTop c
  apart : s.returned.Pairwise Span.Apart
  cur_lt : ∀ c, s.dom.curCode = some c → c < codeFragments

theorem Span.Apart.symm {r r' : Span} (h : r.Apart r') : r'.Apart r := Or.symm h

/-- Two runs of blocks that do not overlap. -/
theorem disjoint_Ico_iff {b b' k : Nat} (hk : 0 < k) :
    Disjoint (Finset.Ico b (b + k)) (Finset.Ico b' (b' + k)) ↔ b + k ≤ b' ∨ b' + k ≤ b := by
  rw [Finset.disjoint_left]
  constructor
  · intro h
    by_contra hcon
    have hmax := @h (max b b') (Finset.mem_Ico.mpr (by omega))
    exact hmax (Finset.mem_Ico.mpr (by omega))
  · intro h x hx hx'
    rw [Finset.mem_Ico] at hx hx'
    omega

section Inv

variable {start n : Nat} {s s' : State} {fuel c size addr : Nat}

/-- What the allocator promises about a new fragment. -/
theorem Inv.jxmalloc (hs : Inv start n s) (hmem : start + n * blockSize < 2 ^ 32) (h8 : n % 8 = 0)
    {alloc : Allocator}
    (h : s.world.alloc.jxmalloc fuel s.dom.codeBytes = some (.ok (addr, alloc))) :
    Malloc.Inv start n ⟨alloc, s.dom.region addr :: s.world.live⟩ ∧
      ∃ b, addr = start + b * blockSize ∧ b ≤ n ∧
        b + Allocator.sizeBlkOf s.dom.codeBytes ≤ n := by
  have hsmall := hs.small
  have hnb := hs.malloc.ready.nBlocks_eq
  have hn := hs.malloc.ready.counted.small
  have hblk := sizeBlkOf_of_le hsmall
  refine ⟨hs.malloc.step (by omega) h8 (show Fits start n (.malloc s.dom.codeBytes) from hsmall)
    (Malloc.Step.malloc (by omega) h), ?_⟩
  obtain ⟨b, hrun, hb, haddr, -⟩ :=
    Allocator.search_spec hs.malloc.ready.counted (by omega) (by omega) h
  refine ⟨b, ?_, by omega, hnb ▸ hrun⟩
  rw [haddr, Allocator.getAddr, hs.malloc.ready.start_eq]
  have hle : b * blockSize ≤ n * blockSize := Nat.mul_le_mul_right _ (by omega)
  exact u4_of_lt (by omega)

/-- The blocks of a fragment. -/
theorem blocks_region {w : World} {b : Nat} (hw : Malloc.Inv start n w) (hn : b ≤ n)
    (hmem : start + n * blockSize < 2 ^ 32) (dom : DomainDesc) :
    w.blocks (dom.region (start + b * blockSize)) =
      Finset.Ico b (b + Allocator.sizeBlkOf dom.codeBytes) := by
  have hsmall := hw.ready.counted.small
  have hnb := hw.ready.nBlocks_eq
  have hle : b * blockSize ≤ n * blockSize := Nat.mul_le_mul_right _ hn
  have haddr : w.alloc.getAddr b = start + b * blockSize := by
    rw [Allocator.getAddr, hw.ready.start_eq]
    exact u4_of_lt (by omega)
  have hof := blockAt_getAddr (s := w.alloc) (b := b) (by rw [hw.ready.start_eq]; omega) (by omega)
  rw [World.blocks, DomainDesc.region, ← haddr, hof]

theorem started_setFragment_iff
    (hnext : s.dom.curCode = none ∧ c = 0 ∨ ∃ k, s.dom.curCode = some k ∧ c = k + 1) (c' : Nat) :
    (∃ cur, some c = some cur ∧ c' ≤ cur) ↔ s.Started c' ∨ c' = c := by
  rcases hnext with ⟨hnone, rfl⟩ | ⟨k, hk, rfl⟩
  · simp [State.Started, hnone]
  · simp only [State.Started, hk, Option.some.injEq, exists_eq_left']
    omega

/-- What the allocator keeps apart is apart. -/
theorem apart_of_disjoint {w : World} {b b' : Nat} (hw : Malloc.Inv start n w) (hb : b ≤ n)
    (hb' : b' ≤ n) (hmem : start + n * blockSize < 2 ^ 32) {dom : DomainDesc}
    (hsmall : dom.codeBytes ≤ 2 ^ 32 - 1024)
    (h : Disjoint (w.blocks (dom.region (start + b * blockSize)))
      (w.blocks (dom.region (start + b' * blockSize)))) :
    (Span.mk (start + b * blockSize) dom.codeBytes).Apart
      (Span.mk (start + b' * blockSize) dom.codeBytes) := by
  rw [blocks_region hw hb hmem, blocks_region hw hb' hmem] at h
  have hblk := sizeBlkOf_of_le hsmall
  simp only [Span.Apart, blockSize]
  by_cases hk : 0 < Allocator.sizeBlkOf dom.codeBytes
  · have := (disjoint_Ico_iff hk).mp h
    omega
  -- without a block the fragments are empty
  · omega

theorem Inv.startFragment (hs : Inv start n s) (hmem : start + n * blockSize < 2 ^ 32)
    (h8 : n % 8 = 0)
    (hnext : s.dom.curCode = none ∧ c = 0 ∨ ∃ k, s.dom.curCode = some k ∧ c = k + 1)
    (hc : c < codeFragments) (h : startFragment fuel s c = pure s') : Inv start n s' := by
  obtain ⟨addr, alloc, hcall, rfl⟩ := startFragment_eq_pure h
  obtain ⟨hmalloc, b, rfl, hb, hrun⟩ := hs.jxmalloc hmem h8 hcall
  have hsmall := hs.small
  have hblk := sizeBlkOf_of_le hsmall
  have hstarted := started_setFragment_iff hnext
  have hne {c' : Nat} (h' : s.Started c') : c' ≠ c := by
    obtain ⟨cur, hcur, hle⟩ := h'
    rcases hnext with ⟨hnone, -⟩ | ⟨k, hk, rfl⟩
    · rw [hnone] at hcur
      cases hcur
    · have : k = cur := Option.some.inj (hk.symm.trans hcur)
      omega
  have hborder : u4 (start + b * blockSize + s.dom.codeBytes) =
      start + b * blockSize + s.dom.codeBytes := by
    refine u4_of_lt ?_
    rw [blockSize] at hmem ⊢
    omega
  -- the allocator keeps the new fragment away from the others
  have hapart {c' : Nat} (h' : s.Started c') :
      (Span.mk (start + b * blockSize) s.dom.codeBytes).Apart (s.span c') := by
    obtain ⟨b', hcode, hb', -⟩ := (hs.placed c' h').block
    have hlive := (hs.placed c' h').live
    rw [State.span, hcode]
    rw [hcode] at hlive
    exact apart_of_disjoint hmalloc hb hb' hmem hsmall
      (List.rel_of_pairwise_cons hmalloc.disjoint hlive)
  refine ⟨hmalloc, hsmall, fun c' hc' => ?_, fun c' c'' hc' hc'' hcc => ?_, fun r hr => ?_,
    hs.apart, fun c' hc' => ?_⟩
  · rcases (hstarted c').mp hc' with hold | rfl
    · have hp := hs.placed c' hold
      refine ⟨?_, ?_, ?_, ?_, ?_⟩ <;>
        simp only [DomainDesc.setFragment, Function.update_of_ne (hne hold)]
      · exact hp.block
      · exact List.mem_cons_of_mem _ hp.live
      · exact hp.border
      · exact hp.low
      · exact hp.high
    · refine ⟨⟨b, ?_, hb, hrun⟩, ?_, ?_, ?_, ?_⟩ <;>
        simp only [DomainDesc.setFragment, Function.update_self, hborder]
      · exact List.mem_cons_self
      · exact le_refl _
      · omega
  · have hspan {w : World} {k : Nat} (hk : s.Started k) :
        (State.mk w (s.dom.setFragment c (start + b * blockSize)) s.returned).span k = s.span k := by
      simp only [State.span, DomainDesc.setFragment, Function.update_of_ne (hne hk)]
    rcases (hstarted c').mp hc' with hold | rfl
    · rcases (hstarted c'').mp hc'' with hold' | rfl
      · rw [hspan hold, hspan hold']
        exact hs.spans c' c'' hold hold' hcc
      · rw [hspan hold]
        simp only [State.span, DomainDesc.setFragment, Function.update_self]
        exact (hapart hold).symm
    · rcases (hstarted c'').mp hc'' with hold' | rfl
      · rw [hspan hold']
        simp only [State.span, DomainDesc.setFragment, Function.update_self]
        exact hapart hold'
      · exact absurd rfl hcc
  · obtain ⟨c', hold, hlow, hhigh⟩ := hs.inside r hr
    refine ⟨c', (hstarted c').mpr (Or.inl hold), ?_⟩
    simp only [DomainDesc.setFragment, Function.update_of_ne (hne hold)]
    exact ⟨hlow, hhigh⟩
  · exact Option.some.inj hc' ▸ hc

/-- The bytes that are cut off lie behind everything else in the fragment. -/
theorem Inv.cut (hs : Inv start n s) (hc : s.Started c) (hwrap : s.dom.codeTop c + size < 2 ^ 32)
    (hroom : s.dom.codeTop c + size ≤ s.dom.codeBorder c) : Inv start n (s.cut c size).2 := by
  have hp := hs.placed c hc
  have htop : u4 (s.dom.codeTop c + size) = s.dom.codeTop c + size := u4_of_lt hwrap
  have hmono (c' : Nat) : s.dom.codeTop c' ≤ (s.cut c size).2.dom.codeTop c' := by
    by_cases h : c' = c
    · subst h
      simp only [State.cut, Function.update_self, htop]
      omega
    · simp only [State.cut, Function.update_of_ne h, le_refl]
  refine ⟨hs.malloc, hs.small, fun c' hc' => ?_, hs.spans, fun r hr => ?_, ?_, hs.cur_lt⟩
  · have hp' := hs.placed c' hc'
    refine ⟨hp'.block, hp'.live, hp'.border, Nat.le_trans hp'.low (hmono c'), ?_⟩
    by_cases h : c' = c
    · subst h
      simpa only [State.cut, Function.update_self, htop] using hroom
    · simpa only [State.cut, Function.update_of_ne h] using hp'.high
  · rcases List.mem_cons.mp hr with rfl | hr
    · refine ⟨c, hc, hp.low, ?_⟩
      simp only [State.cut, Function.update_self, htop, le_refl]
    · obtain ⟨c', hc', hlow, hhigh⟩ := hs.inside r hr
      exact ⟨c', hc', hlow, Nat.le_trans hhigh (hmono c')⟩
  · refine List.Pairwise.cons (fun r hr => ?_) hs.apart
    obtain ⟨c', hc', hlow, hhigh⟩ := hs.inside r hr
    by_cases h : c' = c
    · subst h
      exact Or.inr hhigh
    · have hp' := hs.placed c' hc'
      have hspans := hs.spans c c' hc hc' (Ne.symm h)
      have hborder := hp.border
      have hborder' := hp'.border
      have hlow' := hp.low
      have hhigh' := hp'.high
      simp only [Span.Apart, State.span] at hspans ⊢
      omega

theorem firstFragment_spec (h : firstFragment fuel s = pure s') :
    s.dom.curCode = none ∧ MallocCode.startFragment fuel s 0 = pure s' ∨
      s.dom.curCode ≠ none ∧ s' = s := by
  unfold firstFragment at h
  split_ifs at h with hnone
  · exact Or.inl ⟨hnone, h⟩
  · exact Or.inr ⟨hnone, (eq_of_pure_eq h).symm⟩

theorem exists_curCode (h : firstFragment fuel s = pure s') : ∃ c, s'.dom.curCode = some c := by
  rcases firstFragment_spec h with ⟨-, hstart⟩ | ⟨hne, rfl⟩
  · obtain ⟨addr, alloc, -, rfl⟩ := startFragment_eq_pure hstart
    exact ⟨0, rfl⟩
  · exact Option.ne_none_iff_exists'.mp hne

theorem Inv.firstFragment (hs : Inv start n s) (hmem : start + n * blockSize < 2 ^ 32)
    (h8 : n % 8 = 0) (h : MallocCode.firstFragment fuel s = pure s') : Inv start n s' := by
  rcases firstFragment_spec h with ⟨hnone, hstart⟩ | ⟨-, rfl⟩
  · exact hs.startFragment hmem h8 (Or.inl ⟨hnone, rfl⟩) (by decide) hstart
  · exact hs

/-- Whether there is room is decided by the true sum if that sum does not wrap. -/
theorem not_full_iff (h : s.dom.codeTop c + size < 2 ^ 32) :
    ¬ s.Full c size ↔ s.dom.codeTop c + size ≤ s.dom.codeBorder c := by
  rw [State.Full, u4_of_lt h, Nat.not_lt]

theorem Inv.mallocCode (hs : Inv start n s) (hmem : start + n * blockSize < 2 ^ 32) (h8 : n % 8 = 0)
    (hwrap : NoWrap fuel s size) (h : MallocCode.mallocCode fuel s size = pure (addr, s')) :
    Inv start n s' := by
  obtain ⟨s₁, hfirst, hcut⟩ := bind_eq_pure h
  obtain ⟨c, hcur⟩ := exists_curCode hfirst
  have hs₁ := hs.firstFragment hmem h8 hfirst
  have hnow := hwrap.current s₁ c hfirst hcur
  rw [hcur, Option.getD_some, cutCode] at hcut
  split_ifs at hcut with hfull hlast
  · cases hcut
  · obtain ⟨s₂, hstart, hcut⟩ := bind_eq_pure hcut
    have hc := hs₁.cur_lt c hcur
    have hs₂ := hs₁.startFragment hmem h8 (Or.inr ⟨c, hcur, rfl⟩) (by omega) hstart
    have hborder : s₁.dom.codeBorder c < s₁.dom.codeTop c + size := by
      by_contra hle
      exact (not_full_iff hnow).mpr (by omega) hfull
    have hnext := hwrap.next s₁ s₂ c hfirst hcur hborder hlast hstart
    have hcur₂ : s₂.Started (c + 1) := by
      obtain ⟨addr, alloc, -, rfl⟩ := startFragment_eq_pure hstart
      exact ⟨c + 1, rfl, le_refl _⟩
    split_ifs at hcut with hfull₂
    · cases hcut
    have heq : (s₂.cut (c + 1) size).2 = s' := congrArg Prod.snd (eq_of_pure_eq hcut)
    rw [← heq]
    exact hs₂.cut hcur₂ hnext ((not_full_iff hnext).mp hfull₂)
  · have heq : (s₁.cut c size).2 = s' := congrArg Prod.snd (eq_of_pure_eq hcut)
    rw [← heq]
    exact hs₁.cut ⟨c, hcur, le_refl _⟩ hnow ((not_full_iff hnow).mp hfull)

/-- What others do leaves the fragments alone. -/
theorem Inv.other (hs : Inv start n s) (hmem : start + n * blockSize < 2 ^ 32) (h8 : n % 8 = 0)
    {op : Op} {world : World} (hfit : Fits start n op)
    (hkeep : ∀ c, s.Started c → op ≠ .free (s.dom.region (s.dom.code c)))
    (h : Malloc.Step op s.world world) : Inv start n { s with world := world } := by
  refine ⟨hs.malloc.step (by omega) h8 hfit h, hs.small, fun c hc => ?_, hs.spans, hs.inside,
    hs.apart, hs.cur_lt⟩
  have hp := hs.placed c hc
  refine ⟨hp.block, ?_, hp.border, hp.low, hp.high⟩
  cases h with
  | malloc _ _ => exact List.mem_cons_of_mem _ hp.live
  | mallocAlign _ _ => exact List.mem_cons_of_mem _ hp.live
  | @free _ r a hlive hcall =>
    have hne : s.dom.region (s.dom.code c) ≠ r := fun h => hkeep c hc (h ▸ rfl)
    exact (List.mem_erase_of_ne hne).mpr hp.live
  | store _ _ => exact hp.live

theorem Inv.step (hs : Inv start n s) (hmem : start + n * blockSize < 2 ^ 32) (h8 : n % 8 = 0)
    (h : Step start n NoWrap s s') : Inv start n s' := by
  cases h with
  | call _ hok hcall => exact hs.mallocCode hmem h8 hok hcall
  | other hfit hkeep hstep => exact hs.other hmem h8 hfit hkeep hstep

/-! ## Panics -/

/-- In a new fragment there is room for as many bytes as it has. -/
theorem lt_of_full (hstart : MallocCode.startFragment fuel s c = pure s') (hs' : Inv start n s')
    (hcur : s'.dom.curCode = some c) (hwrap : s'.dom.codeTop c + size < 2 ^ 32)
    (hfull : s'.Full c size) : s.dom.codeBytes < size := by
  have hborder := (hs'.placed c ⟨c, hcur, le_refl c⟩).border
  have htop : s'.dom.codeTop c = s'.dom.code c ∧ s'.dom.codeBytes = s.dom.codeBytes := by
    obtain ⟨addr, alloc, -, rfl⟩ := startFragment_eq_pure hstart
    simp only [DomainDesc.setFragment, Function.update_self, and_self]
  rw [State.Full, u4_of_lt hwrap, hborder, htop.1, htop.2] at hfull
  omega

theorem Inv.panics (hs : Inv start n s) (hmem : start + n * blockSize < 2 ^ 32) (h8 : n % 8 = 0)
    {e : Stop} (hwrap : NoWrap fuel s size) (h : MallocCode.mallocCode fuel s size = throw e) :
    s.dom.codeBytes < size ∨ s.dom.curCode = some (codeFragments - 1) ∨ OutOfMemory fuel s := by
  rcases bind_eq_throw h with hfail | ⟨s₁, hfirst, hcut⟩
  · exact Or.inr (Or.inr ⟨e, Or.inl hfail⟩)
  obtain ⟨c, hcur⟩ := exists_curCode hfirst
  have hs₁ := hs.firstFragment hmem h8 hfirst
  have hnow := hwrap.current s₁ c hfirst hcur
  rw [hcur, Option.getD_some, cutCode] at hcut
  split_ifs at hcut with hfull hlast
  -- a fragment that has just been started is not the last one
  · refine Or.inr (Or.inl ?_)
    rcases firstFragment_spec hfirst with ⟨-, hstart⟩ | ⟨-, rfl⟩
    · obtain ⟨addr, alloc, -, rfl⟩ := startFragment_eq_pure hstart
      have hzero : c = 0 := (Option.some.inj hcur).symm
      exact absurd hlast (by rw [hzero]; decide)
    · rw [hcur, ← hlast, Nat.add_sub_cancel]
  · rcases bind_eq_throw hcut with hfail | ⟨s₂, hstart, hcut⟩
    · exact Or.inr (Or.inr ⟨e, Or.inr ⟨s₁, c, hfirst, hcur, hfail⟩⟩)
    · have hborder : s₁.dom.codeBorder c < s₁.dom.codeTop c + size := by
        by_contra hle
        exact (not_full_iff hnow).mpr (by omega) hfull
      have hc := hs₁.cur_lt c hcur
      have hs₂ := hs₁.startFragment hmem h8 (Or.inr ⟨c, hcur, rfl⟩) (by omega) hstart
      have hnext := hwrap.next s₁ s₂ c hfirst hcur hborder hlast hstart
      split_ifs at hcut with hfull₂
      · have hcur₂ : s₂.dom.curCode = some (c + 1) := by
          obtain ⟨addr, alloc, -, rfl⟩ := startFragment_eq_pure hstart
          rfl
        have hlt := lt_of_full hstart hs₂ hcur₂ hnext hfull₂
        rcases firstFragment_spec hfirst with ⟨-, hfirst⟩ | ⟨-, rfl⟩
        · obtain ⟨addr, alloc, -, rfl⟩ := startFragment_eq_pure hfirst
          exact Or.inl hlt
        · exact Or.inl hlt
      · cases hcut
  · cases hcut

theorem Inv.sound (hs : Inv start n s) (hmem : start + n * blockSize < 2 ^ 32) (h8 : n % 8 = 0) :
    Sound s where
  inside r hr := by
    obtain ⟨c, hc, hlow, hhigh⟩ := hs.inside r hr
    exact ⟨c, hc, hlow, Nat.le_trans hhigh (hs.placed c hc).high⟩
  apart := hs.apart
  panics fuel size e _ hwrap h := hs.panics hmem h8 hwrap h

/-- Fragments end where the managed memory ends, at the latest. -/
theorem Inv.border_le (hs : Inv start n s) (hc : s.Started c) :
    s.dom.codeBorder c ≤ start + n * blockSize := by
  have hp := hs.placed c hc
  obtain ⟨b, hcode, hb, hrun⟩ := hp.block
  have hsmall := hs.small
  have hblk := sizeBlkOf_of_le hsmall
  rw [hp.border, hcode]
  rw [blockSize]
  omega

/-- So there is no wrap as long as the size is less than what the memory leaves of the address space. -/
theorem Inv.noWrap (hs : Inv start n s) (h8 : n % 8 = 0)
    (hsize : start + n * blockSize + size < 2 ^ 32) (fuel : Nat) : NoWrap fuel s size := by
  have hmem : start + n * blockSize < 2 ^ 32 := by omega
  have htop {s₁ : State} {c : Nat} (hs₁ : Inv start n s₁) (hc : s₁.Started c) :
      s₁.dom.codeTop c + size < 2 ^ 32 := by
    have hhigh := (hs₁.placed c hc).high
    have hborder := hs₁.border_le hc
    omega
  constructor
  · intro s₁ c hfirst hcur
    exact htop (hs.firstFragment hmem h8 hfirst) ⟨c, hcur, le_refl c⟩
  · intro s₁ s₂ c hfirst hcur hborder hlast hstart
    have hs₁ := hs.firstFragment hmem h8 hfirst
    have hc := hs₁.cur_lt c hcur
    have hs₂ := hs₁.startFragment hmem h8 (Or.inr ⟨c, hcur, rfl⟩) (by omega) hstart
    obtain ⟨addr, alloc, -, rfl⟩ := startFragment_eq_pure hstart
    exact htop hs₂ ⟨c + 1, rfl, le_refl _⟩

/-- A sum that wraps looks like room: the call comes back with bytes that are not in the fragment. -/
theorem not_sound_of_wrap (hs : Inv start n s) (hmem : start + n * blockSize < 2 ^ 32)
    (hcur : s.dom.curCode = some c) (hsize : size < 2 ^ 32)
    (hwrap : 2 ^ 32 ≤ s.dom.codeTop c + size) (fuel : Nat) :
    MallocCode.mallocCode fuel s size = pure (s.cut c size) ∧ ¬ Sound (s.cut c size).2 := by
  have hborder {c' : Nat} (hc' : s.Started c') : s.dom.codeBorder c' < 2 ^ 32 :=
    Nat.lt_of_le_of_lt (hs.border_le hc') hmem
  have hp := hs.placed c ⟨c, hcur, le_refl c⟩
  have hroom : ¬ s.Full c size := by
    have hlt := hborder ⟨c, hcur, le_refl c⟩
    have hhigh := hp.high
    simp only [State.Full, u4]
    omega
  constructor
  · have hfirst : MallocCode.firstFragment fuel s = pure s := if_neg (by rw [hcur]; exact Option.some_ne_none c)
    rw [MallocCode.mallocCode, hfirst, pure_bind, hcur, Option.getD_some, cutCode, if_neg hroom]
  · intro hsound
    obtain ⟨c', hc', -, hend⟩ := hsound.inside ⟨s.dom.codeTop c, size⟩ List.mem_cons_self
    have hlt : s.dom.codeBorder c' < 2 ^ 32 := hborder hc'
    have hend' : s.dom.codeTop c + size ≤ s.dom.codeBorder c' := hend
    omega

theorem Inv.new {w : World} (hw : Malloc.Inv start n w) {codeBytes : Nat}
    (hsmall : codeBytes ≤ 2 ^ 32 - 1024) : Inv start n ⟨w, DomainDesc.new codeBytes, []⟩ where
  malloc := hw
  small := hsmall
  placed c hc := absurd hc (by rintro ⟨cur, hcur, -⟩; cases hcur)
  spans c c' hc := absurd hc (by rintro ⟨cur, hcur, -⟩; cases hcur)
  inside r hr := absurd hr List.not_mem_nil
  apart := List.Pairwise.nil
  cur_lt c hc := by cases hc

end Inv

/-- **`malloc_code` keeps its contract as long as no pointer sum wraps**: in every run of a domain, whose
fragments are not larger than what the allocator can round up, the returned regions lie in fragments and
are apart, and a call panics for one of the three good reasons only. -/
theorem code_sound_of_run {start size codeBytes : Nat} {mem : Lib.Bytes} {w : World} {s : State}
    (hmem : start + size < 2 ^ 32) (h8 : size / blockSize % 8 = 0)
    (hboot : Malloc.Reach start size mem (Fits start (size / blockSize)) w)
    (hchunk : codeBytes ≤ 2 ^ 32 - 1024)
    (hrun : Relation.ReflTransGen (Step start (size / blockSize) NoWrap) ⟨w, DomainDesc.new codeBytes, []⟩ s) :
    Sound s := by
  have hblocks : start + size / blockSize * blockSize < 2 ^ 32 :=
    Nat.lt_of_le_of_lt (Nat.add_le_add_left (Nat.div_mul_le_self size blockSize) start) hmem
  have hw := Malloc.Inv.of_reach (by omega) (by omega) h8 hboot
  have hs := invariant_of_run (I := Inv start (size / blockSize))
    (fun _ _ hs hstep => hs.step hblocks h8 hstep) hrun (Inv.new hw hchunk)
  exact hs.sound hblocks h8

/-! ## A domain on sixteen blocks -/

/-- A domain with fragments of four blocks. -/
def exampleState : State := ⟨⟨Malloc.sixteen, []⟩, DomainDesc.new 4096, []⟩

theorem inv_exampleState : Inv 0x100000 16 exampleState :=
  Inv.new (Malloc.Inv.of_reach (by decide) (by decide) (by decide) reach_sixteen) (by decide)

set_option maxRecDepth 10000 in
/-- Its first call takes a hundred bytes. -/
theorem mallocCode_exampleState : ∃ s, mallocCode 5 exampleState 100 = pure (0x100400, s) ∧
    s.dom.curCode = some 0 ∧ s.dom.codeTop 0 = 0x100400 + 100 ∧ s.returned = [⟨0x100400, 100⟩] :=
  ⟨_, rfl, rfl, rfl, rfl⟩

theorem sound_of_hundred : ∃ s, s.returned = [⟨0x100400, 100⟩] ∧ Sound s := by
  obtain ⟨s, hcall, -, -, hreturned⟩ := mallocCode_exampleState
  have hstep : Step 0x100000 16 NoWrap exampleState s :=
    .call (by decide) (inv_exampleState.noWrap (by decide) (by decide) 5) hcall
  exact ⟨s, hreturned, code_sound_of_run (by decide) (by decide) reach_sixteen (by decide) (.single hstep)⟩

/-- Its second call asks for all but one of the bytes of the address space. -/
theorem not_sound_of_huge : ∃ s, Relation.ReflTransGen (Step 0x100000 16 fun _ _ _ => True) exampleState s ∧
    ¬ Sound s := by
  obtain ⟨s, hcall, hcur, htop, -⟩ := mallocCode_exampleState
  have hs := inv_exampleState.mallocCode (by decide) (by decide)
    (inv_exampleState.noWrap (by decide) (by decide) 5) hcall
  have hwrap := not_sound_of_wrap hs (by decide) hcur (by decide : 0xffffffff < 2 ^ 32)
    (by rw [htop]; decide) 5
  exact ⟨_, .tail (.single (.call (by decide) trivial hcall)) (.call (by decide) trivial hwrap.1),
    hwrap.2⟩

end JxCore.MallocCode
