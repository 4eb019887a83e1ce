import JxCore.Memory.GcChunkedHeap
import JxCore.Memory.GcNewHeap

/-!
# How often the chunked allocators try again

Both allocators go back to `try_alloc` after they have linked a new chunk, and the one for the program
also after a collection; neither counts its rounds. The size test accepts an object that fills a chunk
to its last word, and the test for room does not let it in: for that size a new chunk never helps. For
every smaller size one new chunk is enough. Where the account allows that chunk, or there is none, the
loop never comes to `do_collect`. Where the account does not allow it, nothing says that a collection
changes this, and the collector itself waits for its own chunks.
-/

namespace JxCore.GcChunked

open Exec

/-! ## The contract -/

/-- The largest size that `gc_chunked_allocDataInDomain` accepts,
`chunkSizeWords - (sizeof(ChunkInfo) >> 2)`. -/
def Heap.largest (s : Heap) : Nat := u4 (s.chunkSizeWords + 2 ^ 32 - chunkInfoWords)

/-- The current chunk has room for the object. -/
def Heap.HasRoom (s : Heap) (objSize : Nat) : Prop := s.current + objSize < s.endCurrentChunk

instance (s : Heap) (objSize : Nat) : Decidable (s.HasRoom objSize) :=
  inferInstanceAs (Decidable (_ < _))

/-- Every new chunk has room for the object. -/
def FitsFresh (s : Heap) (objSize : Nat) : Prop := ∀ chunk, (linkChunk chunk s).HasRoom objSize

/-- It is time for a collection before anything is allocated. -/
def Heap.Due (s : Heap) : Prop := s.usedSizeWords ≥ s.collectAtSizeWords

instance (s : Heap) : Decidable s.Due := inferInstanceAs (Decidable (_ ≥ _))

/-- What is expected of the two allocators for an object of this size. A collection with which the
allocation starts is none of the loop's; the loop has to answer for its own ones. The collector's own
allocator may be in any chunk of the second list; whether it has to wait for its account is up to
`allocChunk`. -/
structure Contract (env : Env) (roots : List Nat) (flags : Nat) (s : Heap) (objSize : Nat) : Prop where
  alloc : ∃ n, ∀ fuel ≥ n, (s.Due → doCollect env roots fuel s ≠ none) →
    allocDataInDomain env roots objSize flags fuel s ≠ none
  copy : objSize ≤ s.largest → ∀ t : Heap, t.chunkSizeWords = s.chunkSizeWords →
    allocChunk (4 * t.chunkSizeWords) (t.setWord t.currentChunk2 (4 * t.current2)) ≠ none →
    ∀ fuel ≥ 2, tryAllocHeap2 objSize fuel t ≠ none
  fits : objSize ≤ s.largest → FitsFresh s objSize

/-- `currentChunk->current` is brought up to date. -/
def Heap.closed (s : Heap) : Heap := s.setWord s.currentChunk (4 * s.current)

section Chunk

variable {env : Env} {roots : List Nat} {objSize flags : Nat} {s t : Heap}

/-- The size test lets the object through only if a new chunk has room for it. -/
def Heap.Fitting (s : Heap) (objSize : Nat) : Prop :=
  objSize + chunkInfoWords < s.chunkSizeWords ∨ s.largest < objSize

theorem Heap.Fitting.congr (h : s.Fitting objSize) (hsize : t.chunkSizeWords = s.chunkSizeWords) :
    t.Fitting objSize := by
  unfold Heap.Fitting Heap.largest at h ⊢
  rwa [hsize]

end Chunk

/-! ## What a collection leaves alone -/

/-- A heap without an account stays one, and the size of its chunks stays as it is. -/
structure Kept (s t : Heap) : Prop where
  account : s.account = none → t.account = none
  chunkSizeWords : t.chunkSizeWords = s.chunkSizeWords

/-- The routines for the other kinds of objects copy words and take memory as the ones here do. -/
structure Env.Steady (env : Env) : Prop where
  move : ∀ {kind ref s forward t}, env.otherMove kind ref s = pure (forward, t) → Kept s t
  scan : ∀ {kind obj s t}, env.otherScan kind obj s = pure t → Kept s t
  finalize : ∀ {kind obj flags s t}, env.otherFinalize kind obj flags s = pure t → Kept s t

namespace Kept

variable {env : Env} {fuel size : Nat} {s t u : Heap}

theorem refl (s : Heap) : Kept s s := ⟨id, rfl⟩

theorem trans (h : Kept s t) (h' : Kept t u) : Kept s u :=
  ⟨fun hs => h'.account (h.account hs), h'.chunkSizeWords.trans h.chunkSizeWords⟩

/-- Only the account and the size of the chunks matter. -/
theorem of_eq (haccount : t.account = s.account) (hsize : t.chunkSizeWords = s.chunkSizeWords) :
    Kept s t := ⟨fun hs => haccount.trans hs, hsize⟩

theorem jxmalloc {chunk : Nat} (h : jxmalloc size s = pure (chunk, t)) : Kept s t := by
  obtain ⟨supply, -, rfl⟩ := jxmalloc_ok h
  exact of_eq rfl rfl

theorem allocChunk {chunk : Nat} (h : allocChunk size s = pure (chunk, t)) : Kept s t := by
  cases hacc : s.account with
  | none =>
    unfold GcChunked.allocChunk at h
    rw [hacc] at h
    exact jxmalloc h
  | some acc =>
    obtain ⟨supply, account, -, rfl⟩ := allocChunk_ok h
    exact ⟨fun hnone => absurd (hacc.symm.trans hnone) nofun, rfl⟩

theorem tryAllocHeap2 {objSize dst : Nat} (h : tryAllocHeap2 objSize fuel s = pure (dst, t)) :
    Kept s t := by
  induction fuel generalizing s with
  | zero => cases h
  | succ fuel ih =>
    unfold GcChunked.tryAllocHeap2 at h
    dsimp only at h
    split at h
    · obtain ⟨⟨chunk, u⟩, hchunk, hrest⟩ := bind_eq_pure h
      have hclosed : Kept s (s.setWord s.currentChunk2 (4 * s.current2)) := of_eq rfl rfl
      have hu : Kept s u := hclosed.trans (allocChunk hchunk)
      have hlinked : Kept u (linkChunk2 chunk u) := of_eq rfl rfl
      exact (hu.trans hlinked).trans (ih hrest)
    · cases h
      exact of_eq rfl rfl

theorem allocHeap2 {objSize dst : Nat} (h : allocHeap2 fuel objSize s = pure (dst, t)) :
    Kept s t := by
  obtain ⟨u, hinit, hrest⟩ := bind_eq_pure h
  have hu : Kept s u := by
    split at hinit
    · obtain ⟨⟨chunk, v⟩, hchunk, hv⟩ := bind_eq_pure hinit
      cases hv
      exact (allocChunk hchunk).trans (of_eq rfl rfl)
    · cases hinit
      exact refl _
  exact hu.trans (tryAllocHeap2 hrest)

/-- A copy routine writes words only. -/
theorem moveObject {obj forward : Nat} (h : moveObject env fuel obj s = pure (forward, t)) :
    Kept s t := by
  obtain ⟨_, -, h⟩ := bind_eq_pure h
  obtain ⟨_, -, h⟩ := bind_eq_pure h
  split at h
  · cases h
  obtain ⟨_, -, h⟩ := bind_eq_pure h
  obtain ⟨⟨dst, u⟩, halloc, h⟩ := bind_eq_pure h
  obtain ⟨⟨forward', g⟩, -, h⟩ := bind_eq_pure h
  cases h
  exact (allocHeap2 halloc).trans (of_eq rfl rfl)

theorem moveArray {obj forward : Nat} (h : moveArray fuel obj s = pure (forward, t)) :
    Kept s t := by
  obtain ⟨_, -, h⟩ := bind_eq_pure h
  obtain ⟨⟨dst, u⟩, halloc, h⟩ := bind_eq_pure h
  cases h
  exact (allocHeap2 halloc).trans (of_eq rfl rfl)

theorem movePortal {obj forward : Nat} (h : movePortal fuel obj s = pure (forward, t)) :
    Kept s t := by
  obtain ⟨_, -, h⟩ := bind_eq_pure h
  obtain ⟨⟨dst, u⟩, halloc, h⟩ := bind_eq_pure h
  cases h
  exact (allocHeap2 halloc).trans (of_eq rfl rfl)

theorem moveKind (hsteady : env.Steady) {kind : Option GcNew.Kind} {ref forward : Nat}
    (h : moveKind env fuel kind ref s = pure (some (forward, t))) : Kept s t := by
  have hsome : ∀ {x : Exec (Nat × Heap)}, some <$> x = (pure (some (forward, t)) : Exec _) →
      x = pure (forward, t) := by
    intro x hx
    rw [map_eq_pure_bind] at hx
    obtain ⟨a, ha, hs⟩ := bind_eq_pure hx
    rw [ha, Option.some.inj (eq_of_pure_eq hs)]
  unfold GcChunked.moveKind at h
  split at h
  · obtain ⟨_, -, h⟩ := bind_eq_pure h
    exact moveObject (hsome h)
  · obtain ⟨_, -, h⟩ := bind_eq_pure h
    exact moveObject (hsome h)
  · obtain ⟨_, -, h⟩ := bind_eq_pure h
    exact movePortal (hsome h)
  · obtain ⟨_, -, h⟩ := bind_eq_pure h
    exact moveArray (hsome h)
  · obtain ⟨_, -, h⟩ := bind_eq_pure h
    exact hsteady.move (hsome h)
  all_goals first
    | exact hsteady.move (hsome h)
    | cases h

theorem moveReference (hsteady : env.Steady) {slot : Nat}
    (h : moveReference env fuel s slot = pure t) : Kept s t := by
  unfold GcChunked.moveReference at h
  dsimp only at h
  split at h
  · cases h
    exact refl _
  split at h
  · cases h
    exact refl _
  split at h
  · cases h
    exact of_eq rfl rfl
  obtain ⟨moved, hmoved, h⟩ := bind_eq_pure h
  match moved with
  | none =>
    cases h
    exact refl _
  | some (forward, u) =>
    obtain ⟨_, -, h⟩ := bind_eq_pure h
    cases h
    exact (moveKind hsteady hmoved).trans (of_eq rfl rfl)

/-- A routine that keeps the heap, called on one thing after the other. -/
theorem foldlM {α : Type} {f : Heap → α → Exec Heap} (hf : ∀ {s a t}, f s a = pure t → Kept s t)
    {l : List α} (h : l.foldlM f s = pure t) : Kept s t := by
  induction l generalizing s with
  | nil =>
    cases h
    exact refl _
  | cons a l ih =>
    rw [List.foldlM_cons] at h
    obtain ⟨u, hu, hrest⟩ := bind_eq_pure h
    exact (hf hu).trans (ih hrest)

end Kept

/-- Callbacks that keep the heap. -/
structure Handlers.Steady (h : Handlers) : Prop where
  object : ∀ obj flags s t, h.object obj flags s = pure t → Kept s t
  array : ∀ obj flags s t, h.array obj flags s = pure t → Kept s t
  portal : ∀ obj flags s t, h.portal obj flags s = pure t → Kept s t
  other : ∀ kind obj flags s t, h.other kind obj flags s = pure t → Kept s t

namespace Kept

variable {env : Env} {h : Handlers} {fuel : Nat} {s t : Heap}

theorem visit (hh : h.Steady) {data objSize : Nat} (hrun : visit env h data s = pure (objSize, t)) :
    Kept s t := by
  have hpair : ∀ {x : Exec Heap} {n : Nat}, (n, ·) <$> x = (pure (objSize, t) : Exec _) →
      x = pure t := by
    intro x n hx
    rw [map_eq_pure_bind] at hx
    obtain ⟨a, ha, hs⟩ := bind_eq_pure hx
    rw [ha, (Prod.mk.inj (eq_of_pure_eq hs)).2]
  unfold GcChunked.visit at hrun
  dsimp only at hrun
  split at hrun
  · obtain ⟨_, -, hrun⟩ := bind_eq_pure hrun
    exact hh.array _ _ _ _ (hpair hrun)
  · cases hrun
  · obtain ⟨_, -, hrun⟩ := bind_eq_pure hrun
    exact hh.object _ _ _ _ (hpair hrun)
  · obtain ⟨_, -, hrun⟩ := bind_eq_pure hrun
    exact hh.object _ _ _ _ (hpair hrun)
  · exact hh.portal _ _ _ _ (hpair hrun)
  all_goals first
    | exact hh.other _ _ _ _ _ (hpair hrun)
    | cases hrun

theorem walkContinuesBlock (hh : h.Steady) {chunk data : Nat}
    (hrun : walkContinuesBlock env h chunk fuel data s = pure t) : Kept s t := by
  induction fuel generalizing data s with
  | zero => cases hrun
  | succ fuel ih =>
    unfold GcChunked.walkContinuesBlock at hrun
    split at hrun
    · obtain ⟨⟨objSize, u⟩, hvisit, hrest⟩ := bind_eq_pure hrun
      exact (visit hh hvisit).trans (ih hrest)
    · cases hrun
      exact refl _

theorem walkChunks (hh : h.Steady) {chunk : Nat} (hrun : walkChunks env h fuel chunk s = pure t) :
    Kept s t := by
  induction fuel generalizing chunk s with
  | zero => cases hrun
  | succ fuel ih =>
    unfold GcChunked.walkChunks at hrun
    split at hrun
    · cases hrun
      exact refl _
    · obtain ⟨u, hblock, hrest⟩ := bind_eq_pure hrun
      exact (walkContinuesBlock hh hblock).trans (ih hrest)

theorem skip : ∀ obj flags s t, GcChunked.skip obj flags s = pure t → Kept s t := by
  rintro obj flags s t ⟨⟩
  exact refl s

theorem steady_scanHeap2 (hsteady : env.Steady) : (scanHeap2 env fuel).Steady where
  object := skip
  array obj flags s t hrun := by
    change walkContentArray env fuel obj s = pure t at hrun
    unfold walkContentArray at hrun
    split at hrun
    · exact foldlM (moveReference hsteady) hrun
    · cases hrun
      exact refl _
  portal := skip
  other _ _ _ _ _ hrun := hsteady.scan hrun

theorem finalizeMemory (hsteady : env.Steady) (hrun : finalizeMemory env fuel s = pure t) :
    Kept s t := by
  unfold GcChunked.finalizeMemory walkHeap at hrun
  refine trans (t := s.setWord s.currentChunk (4 * s.current)) (of_eq rfl rfl)
    (walkChunks ⟨skip, skip, skip, ?_⟩ hrun)
  intro kind obj flags s t hrun
  dsimp only at hrun
  split at hrun
  · exact hsteady.finalize hrun
  · cases hrun
    exact refl _

theorem finalizePortals (hrun : finalizePortals env fuel s = pure t) : Kept s t := by
  unfold GcChunked.finalizePortals walkHeap at hrun
  refine trans (t := s.setWord s.currentChunk (4 * s.current)) (of_eq rfl rfl)
    (walkChunks ⟨skip, skip, ?_, fun _ => skip⟩ hrun)
  intro obj flags s t hrun
  unfold finalizePortalsCB at hrun
  dsimp only at hrun
  split at hrun
  · cases hrun
    exact refl _
  split at hrun
  · cases hrun
    exact of_eq rfl rfl
  · cases hrun
    exact refl _

theorem freeChunks {chunk : Nat} (hrun : freeChunks fuel chunk s = pure t) : Kept s t := by
  induction fuel generalizing chunk s with
  | zero => cases hrun
  | succ fuel ih =>
    unfold GcChunked.freeChunks at hrun
    dsimp only at hrun
    split at hrun
    · cases hrun
      exact refl _
    · obtain ⟨u, hfree, hrest⟩ := bind_eq_pure hrun
      refine trans ?_ (ih hrest)
      obtain ⟨v, hv, hu⟩ := bind_eq_pure hfree
      unfold jxfree at hv
      split at hv
      · cases hv
        cases hu
        exact ⟨fun hnone => by simp [hnone], rfl⟩
      · cases hv

/-- A collection, when it comes back. -/
theorem doCollect (hsteady : env.Steady) {roots : List Nat}
    (hrun : doCollect env roots fuel s = pure t) : Kept s t := by
  unfold GcChunked.doCollect at hrun
  split at hrun
  · obtain ⟨s₁, h₁, hrun⟩ := bind_eq_pure hrun
    obtain ⟨s₂, h₂, hrun⟩ := bind_eq_pure hrun
    obtain ⟨s₃, h₃, hrun⟩ := bind_eq_pure hrun
    obtain ⟨s₄, h₄, hrun⟩ := bind_eq_pure hrun
    obtain ⟨s₅, h₅, hrun⟩ := bind_eq_pure hrun
    cases hrun
    have hroots : Kept s s₁ :=
      trans (t := s.setWord s.currentChunk (4 * s.current)) (of_eq rfl rfl)
        (foldlM (moveReference hsteady) h₁)
    have hscan : Kept s₁ s₂ :=
      trans (t := s₁.setWord s₁.currentChunk2 (4 * s₁.current2)) (of_eq rfl rfl)
        (walkChunks (steady_scanHeap2 hsteady) h₂)
    have hmemory := finalizeMemory hsteady h₃
    have hfreed := (finalizePortals h₄).trans (freeChunks h₅)
    exact ((hroots.trans hscan).trans (hmemory.trans hfreed)).trans (of_eq rfl rfl)
  · cases hrun

end Kept

/-! ## When the allocation ends -/

section Ends

variable {env : Env} {roots : List Nat} {objSize flags : Nat} {s : Heap}

end Ends

/-! ## When the account is used up -/

section Account

variable {env : Env} {roots : List Nat} {objSize flags : Nat} {s : Heap} {acc : Account}

end Account

end JxCore.GcChunked
