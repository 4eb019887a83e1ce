import JxCore.Memory.GcChunked

/-!
# What the fields of a chunked heap say

The same heap is described several times: by the list of chunks, by the pointers into the last
chunk that the domain has, and by the headers of the chunks. `Consistent` says how these belong
together.

It is an invariant of allocation as long as no collection is started. `gc_chunked_gc` leaves
`endCurrentChunk` where it was, behind a chunk that it has given back.
-/

namespace JxCore.GcChunked

open Exec Lib

/-! ## Specification -/

/-- A pointer to a chunk, where 0 is `NULL`. -/
def pointer (chunk : Nat) : Option Nat := if chunk = 0 then none else some chunk

/-- The list of chunks is linked through `next`. -/
def Heap.links (s : Heap) : Links Nat := fun chunk => pointer (s.next chunk)

/-- The byte address up to which a chunk is in use. -/
def Heap.top (s : Heap) (chunk : Nat) : Nat := if s.mem chunk = 0 then 4 * s.current else s.mem chunk

/-- Byte addresses in the used part of a chunk, of which its `ChunkInfo` is the first piece. -/
def Heap.Used (s : Heap) (chunk obj : Nat) : Prop := 4 * chunk ≤ obj ∧ obj < s.top chunk

instance (s : Heap) (chunk obj : Nat) : Decidable (s.Used chunk obj) :=
  inferInstanceAs (Decidable (_ ∧ _))

/-- The fields agree with each other, and the heap is made of `chunks`. -/
structure Consistent (s : Heap) (chunks : List Nat) : Prop where
  end_eq : s.endCurrentChunk = s.last s.currentChunk
  current_low : s.currentChunk ≤ s.current
  current_high : s.current ≤ s.endCurrentChunk
  /-- The chunk that is being filled is the last one. -/
  queue : IsQueue s.links ⟨pointer s.firstChunk, pointer s.currentChunk⟩ chunks
  apart : s.objects.Pairwise Block.Apart
  inside : ∀ o ∈ s.objects, ∃ c ∈ chunks,
    c + chunkInfoWords ≤ o.start ∧ o.start + o.words ≤ s.last c
  inHeap : ∀ o ∈ s.objects, Returns (fun fuel => isInHeap fuel s (4 * (o.start + 2))) true
  notInHeap : ∀ a, (∀ c ∈ chunks, ¬ s.Used c a) → Returns (fun fuel => isInHeap fuel s a) false

/-! ## Operations -/

/-- The chunk is in the list of the heap. -/
def Heap.IsChunk (s : Heap) (chunk : Nat) : Prop :=
  ∃ chunks, Chain s.links (pointer s.firstChunk) chunks ∧ chunk ∈ chunks

inductive Op where
  /-- An allocation; if there has to be a collection, these are the root slots. -/
  | alloc (objSize flags : Nat) (roots : List Nat)
  | gc (roots : List Nat)
  /-- The program writes into one of its objects. -/
  | store (w v : Nat)
  /-- Others allocate and free blocks, use them, and run up or pay off the account. -/
  | others

/-- What the operations do to the heap. -/
inductive Step (env : Env) : Op → Heap → Heap → Prop
  | alloc {objSize flags obj fuel : Nat} {roots : List Nat} {s t : Heap}
      (h : allocDataInDomain env roots objSize flags fuel s = pure (obj, t)) :
      Step env (.alloc objSize flags roots) s t
  | gc {roots : List Nat} {fuel : Nat} {s t : Heap} (h : gcChunkedGc env roots fuel s = pure t) :
      Step env (.gc roots) s t
  | store {w v : Nat} {s : Heap} {o : Block} (ho : o ∈ s.objects) (hlow : o.start ≤ w)
      (hhigh : w < o.start + o.words) : Step env (.store w v) s (s.setWord w v)
  | others {mem : Nat → Nat} {blocks : List Block} {supply : List Nat} {account : Option Account}
      {s : Heap} (hblocks : blocks.Pairwise Block.Apart)
      (hours : ∀ b ∈ s.blocks, s.IsChunk b.start →
        b ∈ blocks ∧ ∀ w, b.start ≤ w → w < b.start + b.words → mem w = s.mem w) :
      Step env .others s
        { s with mem := mem, blocks := blocks, supply := supply, account := account }

/-- `tryAllocChunk` will not ask for a collection. -/
def GetsChunk (s : Heap) : Prop :=
  ∀ acc, s.account = some acc → u4 (acc.consumed + 4 * s.chunkSizeWords) ≤ acc.reduced

/-- No collection is started. An object has flags, a magic and a vtable at least. -/
def Op.Quiet : Op → Heap → Prop
  | .alloc objSize _ _, s => 3 ≤ objSize ∧ s.usedSizeWords < s.collectAtSizeWords ∧
      (s.current + objSize < s.endCurrentChunk ∨
        objSize + chunkInfoWords < s.chunkSizeWords ∧ GetsChunk s)
  | .gc _, _ => False
  | .store _ _, _ => True
  | .others, _ => True

/-- An initialised heap. The sizes are of type `jint`. -/
def Start (initialHeap : Nat) (s : Heap) : Prop :=
  ∃ raw chunkSize startGCatTotalSize account, raw.blocks.Pairwise Block.Apart ∧
    initialHeap < 2 ^ 31 ∧ chunkSize < 2 ^ 31 ∧
    init initialHeap chunkSize startGCatTotalSize account raw = pure s

/-! ## Lists of chunks -/

section Chunks

variable {s : Heap} {chunks : List Nat} {c obj : Nat}

theorem pointer_eq_none : pointer c = none ↔ c = 0 := by
  unfold pointer
  split <;> simp [*]

theorem pointer_eq_some {d : Nat} : pointer c = some d ↔ c ≠ 0 ∧ c = d := by
  unfold pointer
  split <;> simp [*]

/-- The loop looks at the chunks one after the other. -/
theorem isInHeapFrom_eq {fuel : Nat} (hc : Chain s.links (pointer c) chunks)
    (hfuel : chunks.length < fuel) :
    isInHeapFrom s obj fuel c = pure (decide (∃ c ∈ chunks, s.Used c obj)) := by
  induction chunks generalizing c fuel with
  | nil =>
    obtain ⟨fuel, rfl⟩ := Nat.exists_eq_succ_of_ne_zero (Nat.ne_of_gt hfuel)
    rw [isInHeapFrom, if_pos (pointer_eq_none.mp hc)]
    simp
  | cons d chunks ih =>
    obtain ⟨fuel, rfl⟩ := Nat.exists_eq_succ_of_ne_zero (show fuel ≠ 0 by omega)
    obtain ⟨hd, hc⟩ := hc
    obtain ⟨hne, rfl⟩ := pointer_eq_some.mp hd
    rw [isInHeapFrom, if_neg hne]
    by_cases hused : s.Used c obj
    · rw [if_pos (by exact hused)]
      simp [hused]
    · rw [if_neg (by exact hused), ih hc (Nat.lt_of_succ_lt_succ hfuel)]
      simp [hused]

theorem isInHeap_returns (hc : Chain s.links (pointer s.firstChunk) chunks) (obj : Nat) :
    Returns (fun fuel => isInHeap fuel s obj) (decide (∃ c ∈ chunks, s.Used c obj)) :=
  ⟨chunks.length + 1, fun _ hfuel => isInHeapFrom_eq hc hfuel⟩

end Chunks

/-! ## The invariant -/

/-- What allocation keeps. All chunks but the last one know how far they are filled, and each is
inside a block of its own. -/
structure Inv (s : Heap) (chunks : List Nat) : Prop where
  queue : IsQueue s.links ⟨pointer s.firstChunk, pointer s.currentChunk⟩ chunks
  current_ne : s.currentChunk ≠ 0
  end_eq : s.endCurrentChunk = s.last s.currentChunk
  current_low : s.currentChunk + chunkInfoWords ≤ s.current
  current_high : s.current ≤ s.endCurrentChunk
  filling : s.mem s.currentChunk = 0
  filled : ∀ c ∈ chunks, c ≠ s.currentChunk →
    s.mem c ≠ 0 ∧ 4 * (c + chunkInfoWords) ≤ s.mem c ∧ s.mem c ≤ 4 * s.last c
  owned : ∀ c ∈ chunks, c ≠ 0 ∧ c + chunkInfoWords ≤ s.last c ∧
    ∃ b ∈ s.blocks, b.start = c ∧ s.last c ≤ c + b.words
  blocks : s.blocks.Pairwise Block.Apart
  apart : s.objects.Pairwise Block.Apart
  inside : ∀ o ∈ s.objects, 3 ≤ o.words ∧ ∃ c ∈ chunks,
    c + chunkInfoWords ≤ o.start ∧ 4 * (o.start + o.words) ≤ s.top c
  chunkSize : s.chunkSizeWords < 2 ^ 29

instance : Std.Symm Block.Apart := ⟨fun _ _ h => Or.symm h⟩

namespace Inv

variable {s t : Heap} {chunks : List Nat} {c d : Nat}

theorem current_mem (h : Inv s chunks) : s.currentChunk ∈ chunks := by
  have hlast := h.queue.last
  rw [show pointer s.currentChunk = some s.currentChunk from if_neg h.current_ne] at hlast
  exact List.mem_of_getLast? hlast.symm

/-- The chunks do not overlap. -/
theorem chunks_apart (h : Inv s chunks) (hc : c ∈ chunks) (hd : d ∈ chunks) (hne : c ≠ d) :
    s.last c ≤ d ∨ s.last d ≤ c := by
  obtain ⟨-, -, b, hb, rfl, hfits⟩ := h.owned c hc
  obtain ⟨-, -, b', hb', rfl, hfits'⟩ := h.owned d hd
  have happart := h.blocks.forall hb hb' fun heq => hne (heq ▸ rfl)
  unfold Block.Apart at happart
  omega

theorem top_le (h : Inv s chunks) (hc : c ∈ chunks) : s.top c ≤ 4 * s.last c := by
  by_cases hcur : c = s.currentChunk
  · rw [Heap.top, if_pos (hcur ▸ h.filling), hcur, ← h.end_eq]
    have := h.current_high
    omega
  · obtain ⟨hne, -, hlast⟩ := h.filled c hc hcur
    rw [Heap.top, if_neg hne]
    exact hlast

/-- The words of an object are no header. -/
theorem not_header (h : Inv s chunks) {o : Block} (ho : o ∈ s.objects) {w : Nat}
    (hlow : o.start ≤ w) (hhigh : w < o.start + o.words) (hc : c ∈ chunks) :
    w < c ∨ c + chunkInfoWords ≤ w := by
  obtain ⟨-, d, hd, hstart, htop⟩ := h.inside o ho
  by_cases heq : d = c
  · subst heq
    omega
  · have hlast := h.top_le hd
    have happart := h.chunks_apart hd hc heq
    have hsize := (h.owned c hc).2.1
    have := (h.owned d hd).2.1
    omega

/-- The invariant is what the claim about the fields needs. -/
theorem consistent (h : Inv s chunks) : Consistent s chunks where
  end_eq := h.end_eq
  current_low := by
    have := h.current_low
    omega
  current_high := h.current_high
  queue := h.queue
  apart := h.apart
  inside := by
    intro o ho
    obtain ⟨-, c, hc, hstart, htop⟩ := h.inside o ho
    have hlast := h.top_le hc
    exact ⟨c, hc, hstart, by omega⟩
  inHeap := by
    intro o ho
    obtain ⟨hwords, c, hc, hstart, htop⟩ := h.inside o ho
    have hused : ∃ c ∈ chunks, s.Used c (4 * (o.start + 2)) := by
      refine ⟨c, hc, ?_, ?_⟩ <;> omega
    have hreturns := isInHeap_returns h.queue.chain (4 * (o.start + 2))
    rwa [decide_eq_true hused] at hreturns
  notInHeap := by
    intro a ha
    have hnone : ¬ ∃ c ∈ chunks, s.Used c a := by
      rintro ⟨c, hc, hused⟩
      exact ha c hc hused
    have hreturns := isInHeap_returns h.queue.chain a
    rwa [decide_eq_false hnone] at hreturns

end Inv

/-! ## Steps -/

/-- The headers of the chunks are in `t` what they are in `s`. -/
def SameHeaders (s t : Heap) (chunks : List Nat) : Prop :=
  ∀ c ∈ chunks, ∀ k < chunkInfoWords, t.mem (c + k) = s.mem (c + k)

namespace SameHeaders

variable {s t : Heap} {chunks : List Nat} {c : Nat}

theorem current (h : SameHeaders s t chunks) (hc : c ∈ chunks) : t.mem c = s.mem c :=
  h c hc 0 (by decide)

theorem last (h : SameHeaders s t chunks) (hc : c ∈ chunks) : t.last c = s.last c := by
  rw [Heap.last, Heap.last, h c hc 1 (by decide)]

theorem links (h : SameHeaders s t chunks) (hc : c ∈ chunks) : t.links c = s.links c := by
  rw [Heap.links, Heap.links, Heap.next, Heap.next, h c hc 2 (by decide)]

end SameHeaders

theorem le_wordsOf {n : Nat} (h : n < 2 ^ 29) : n ≤ wordsOf (4 * n) := by
  rw [wordsOf, Malloc.sizeBlkOf_of_le (by omega), Malloc.blockSize]
  omega

namespace Inv

variable {s t : Heap} {chunks : List Nat} {c d : Nat}

/-- Words that are not in a header may change, and so may the blocks of others. -/
theorem frame (h : Inv s chunks) (hsame : SameHeaders s t chunks)
    (hrest : t = { s with mem := t.mem, blocks := t.blocks, supply := t.supply, account := t.account })
    (hblocks : t.blocks.Pairwise Block.Apart)
    (hours : ∀ c ∈ chunks, ∀ b ∈ s.blocks, b.start = c → b ∈ t.blocks) : Inv t chunks := by
  have hfirst : t.firstChunk = s.firstChunk := by rw [hrest]
  have hcur : t.currentChunk = s.currentChunk := by rw [hrest]
  have hcurrent : t.current = s.current := by rw [hrest]
  have hend : t.endCurrentChunk = s.endCurrentChunk := by rw [hrest]
  have hobjects : t.objects = s.objects := by rw [hrest]
  have hsize : t.chunkSizeWords = s.chunkSizeWords := by rw [hrest]
  have htop : ∀ c ∈ chunks, t.top c = s.top c := fun c hc => by
    rw [Heap.top, Heap.top, hsame.current hc, hcurrent]
  refine
    { queue := ?_, current_ne := ?_, end_eq := ?_, current_low := ?_, current_high := ?_,
      filling := ?_, filled := ?_, owned := ?_, blocks := hblocks, apart := ?_, inside := ?_,
      chunkSize := ?_ }
  · rw [hfirst, hcur]
    exact h.queue.congr fun c hc => hsame.links hc
  · rw [hcur]
    exact h.current_ne
  · rw [hend, hcur, hsame.last h.current_mem]
    exact h.end_eq
  · rw [hcur, hcurrent]
    exact h.current_low
  · rw [hcurrent, hend]
    exact h.current_high
  · rw [hcur, hsame.current h.current_mem]
    exact h.filling
  · intro c hc hne
    rw [hcur] at hne
    rw [hsame.current hc, hsame.last hc]
    exact h.filled c hc hne
  · intro c hc
    obtain ⟨hpos, hheader, b, hb, hstart, hfits⟩ := h.owned c hc
    rw [hsame.last hc]
    exact ⟨hpos, hheader, b, hours c hc b hb hstart, hstart, hfits⟩
  · rw [hobjects]
    exact h.apart
  · rw [hobjects]
    intro o ho
    obtain ⟨hwords, c, hc, hstart, hinside⟩ := h.inside o ho
    exact ⟨hwords, c, hc, hstart, by rwa [htop c hc]⟩
  · rw [hsize]
    exact h.chunkSize

theorem store (h : Inv s chunks) {o : Block} (ho : o ∈ s.objects) {w v : Nat} (hlow : o.start ≤ w)
    (hhigh : w < o.start + o.words) : Inv (s.setWord w v) chunks := by
  apply h.frame (t := s.setWord w v) _ rfl h.blocks fun _ _ b hb _ => hb
  intro c hc k hk
  have hout := h.not_header ho hlow hhigh hc
  exact Function.update_of_ne (by omega) _ _

/-- The part of the last chunk that is still free holds no header. -/
theorem free_not_header (h : Inv s chunks) {w : Nat} (hlow : s.current ≤ w)
    (hhigh : w < s.endCurrentChunk) (hc : c ∈ chunks) : w < c ∨ c + chunkInfoWords ≤ w := by
  have hcurrent := h.current_low
  have hend := h.end_eq
  by_cases heq : s.currentChunk = c
  · omega
  · have happart := h.chunks_apart h.current_mem hc heq
    have hsize := (h.owned c hc).2.1
    omega

/-- The object is put where the last chunk is free. -/
theorem initData (h : Inv s chunks) {objSize flags : Nat} (hsize : 3 ≤ objSize)
    (hfits : s.current + objSize < s.endCurrentChunk) :
    Inv (initData objSize flags s).2 chunks := by
  have hframe : ∀ w, (w < s.current ∨ s.current + objSize ≤ w) →
      (GcChunked.initData objSize flags s).2.mem w = s.mem w := by
    intro w hw
    simp only [GcChunked.initData]
    rw [if_neg (by omega), if_neg (by omega), if_neg (by omega)]
  have hsame : SameHeaders s (GcChunked.initData objSize flags s).2 chunks := by
    intro c hc k hk
    apply hframe
    by_contra hin
    have := h.free_not_header (w := c + k) (by omega) (by omega) hc
    omega
  have hcurrent := h.current_low
  -- a chunk is in use up to where it was, and the last one a bit further
  have htop : ∀ c ∈ chunks, s.top c ≤ (GcChunked.initData objSize flags s).2.top c := by
    intro c hc
    rw [Heap.top, Heap.top, hsame.current hc]
    split
    · simp only [GcChunked.initData]
      omega
    · exact Nat.le_refl _
  have hlast : (GcChunked.initData objSize flags s).2.top s.currentChunk =
      4 * (s.current + objSize) := by
    rw [Heap.top, if_pos ((hsame.current h.current_mem).trans h.filling)]
    rfl
  refine
    { queue := h.queue.congr fun c hc => hsame.links hc
      current_ne := h.current_ne
      end_eq := h.end_eq.trans (hsame.last h.current_mem).symm
      current_low := ?_, current_high := ?_, filling := ?_, filled := ?_, owned := ?_
      blocks := h.blocks, apart := ?_, inside := ?_, chunkSize := h.chunkSize }
  · exact Nat.le_trans hcurrent (Nat.le_add_right _ _)
  · exact Nat.le_of_lt hfits
  · exact (hsame.current h.current_mem).trans h.filling
  · intro c hc hne
    rw [hsame.current hc, hsame.last hc]
    exact h.filled c hc hne
  · intro c hc
    rw [hsame.last hc]
    exact h.owned c hc
  · apply List.pairwise_append.mpr
    refine ⟨h.apart, List.pairwise_singleton _ _, ?_⟩
    intro o ho o' ho'
    obtain rfl := List.mem_singleton.mp ho'
    obtain ⟨-, c, hc, hstart, hinside⟩ := h.inside o ho
    by_cases heq : c = s.currentChunk
    · left
      rw [Heap.top, if_pos (heq ▸ h.filling)] at hinside
      simp only
      omega
    · have happart := h.chunks_apart hc h.current_mem heq
      have hle := h.top_le hc
      have hend := h.end_eq
      simp only [Block.Apart]
      omega
  · intro o ho
    rcases List.mem_append.mp ho with ho | ho
    · obtain ⟨hwords, c, hc, hstart, hinside⟩ := h.inside o ho
      exact ⟨hwords, c, hc, hstart, Nat.le_trans hinside (htop c hc)⟩
    · obtain rfl := List.mem_singleton.mp ho
      exact ⟨hsize, s.currentChunk, h.current_mem, hcurrent, hlast.ge⟩

end Inv

namespace Inv

variable {s t : Heap} {chunks : List Nat} {chunk : Nat}

/-- The words of the heap after a new chunk has become the last one. -/
theorem mem_linkChunk (s : Heap) (chunk w : Nat) :
    (linkChunk chunk s).mem w =
      if w = chunk + 2 then 0
      else if w = chunk + 1 then 4 * (chunk + s.chunkSizeWords)
      else if w = chunk then 0
      else if w = s.currentChunk + 2 then 4 * chunk
      else s.mem w := by
  simp only [linkChunk, Heap.setHeader, Heap.setWord, Function.update_apply]

/-- What the headers say after `chunk` has become the last one. -/
structure Linked (s : Heap) (chunks : List Nat) (chunk : Nat) (t : Heap) : Prop where
  /-- The chunk that was the last one knows how far it is filled. -/
  closed : t.mem s.currentChunk = 4 * s.current
  linked : t.links s.currentChunk = some chunk
  mem : ∀ c ∈ chunks, c ≠ s.currentChunk → t.mem c = s.mem c
  links : ∀ c ∈ chunks, c ≠ s.currentChunk → t.links c = s.links c
  last : ∀ c ∈ chunks, t.last c = s.last c
  memNew : t.mem chunk = 0
  linksNew : t.links chunk = none
  lastNew : t.last chunk = chunk + s.chunkSizeWords

/-- The header of the new chunk is written, and two words of the one that was the last. -/
theorem linkChunk_linked (h : Inv s chunks) {s' : Heap} (hchunk : chunk ≠ 0)
    (hnew : ∀ c ∈ chunks, c + chunkInfoWords ≤ chunk ∨ chunk + chunkInfoWords ≤ c)
    (hmem' : ∀ w, s'.mem w = if w = s.currentChunk then 4 * s.current else s.mem w)
    (hcur' : s'.currentChunk = s.currentChunk) (hsize' : s'.chunkSizeWords = s.chunkSizeWords) :
    Linked s chunks chunk (GcChunked.linkChunk chunk s') := by
  have hmem := mem_linkChunk s' chunk
  rw [hcur', hsize'] at hmem
  unfold chunkInfoWords at hnew
  have hother : ∀ c ∈ chunks, c ≠ s.currentChunk → c + 3 ≤ s.currentChunk ∨ s.currentChunk + 3 ≤ c := by
    intro c hc hne
    have happart := h.chunks_apart hc h.current_mem hne
    have hsize := (h.owned c hc).2.1
    have hsize' := (h.owned _ h.current_mem).2.1
    unfold chunkInfoWords at hsize hsize'
    omega
  have hheaders : ∀ c ∈ chunks, ∀ k < 3, c + k ≠ s.currentChunk → c + k ≠ s.currentChunk + 2 →
      (GcChunked.linkChunk chunk s').mem (c + k) = s.mem (c + k) := by
    intro c hc k hk hne hne'
    have happart := hnew c hc
    rw [hmem, if_neg (by omega), if_neg (by omega), if_neg (by omega), if_neg hne', hmem',
      if_neg hne]
  have hcurNew := hnew _ h.current_mem
  refine
    { closed := ?_, linked := ?_, mem := ?_, links := ?_, last := ?_, memNew := ?_, linksNew := ?_,
      lastNew := ?_ }
  · rw [hmem, if_neg (by omega), if_neg (by omega), if_neg (by omega), if_neg (by omega), hmem',
      if_pos rfl]
  · rw [Heap.links, Heap.next, hmem, if_neg (by omega), if_neg (by omega), if_neg (by omega),
      if_pos rfl, Nat.mul_div_cancel_left _ (by decide)]
    exact if_neg hchunk
  · intro c hc hne
    have happart := hother c hc hne
    exact hheaders c hc 0 (by decide) hne (by omega)
  · intro c hc hne
    have happart := hother c hc hne
    rw [Heap.links, Heap.links, Heap.next, Heap.next,
      hheaders c hc 2 (by decide) (by omega) (by omega)]
  · intro c hc
    have hne : c + 1 ≠ s.currentChunk ∧ c + 1 ≠ s.currentChunk + 2 := by
      by_cases heq : c = s.currentChunk
      · omega
      · have := hother c hc heq
        omega
    rw [Heap.last, Heap.last, hheaders c hc 1 (by decide) hne.1 hne.2]
  · rw [hmem, if_neg (by omega), if_neg (by omega), if_pos rfl]
  · rw [Heap.links, Heap.next, hmem, if_pos rfl]
    rfl
  · rw [Heap.last, hmem, if_neg (by omega), if_pos rfl]
    omega

theorem Linked.queue (hl : Linked s chunks chunk t) (h : Inv s chunks) (hchunk : chunk ∉ chunks)
    (hfirst : t.firstChunk = s.firstChunk) :
    IsQueue t.links ⟨pointer t.firstChunk, some chunk⟩ (chunks ++ [chunk]) := by
  have happend := isQueue_append h.queue hchunk
  have hptr : pointer s.currentChunk = some s.currentChunk := if_neg h.current_ne
  simp only [append, hptr] at happend
  rw [hfirst]
  apply happend.congr
  intro c hc
  rw [Function.update_apply, Function.update_apply]
  split
  · next heq => rw [heq, hl.linked]
  · next hnecur =>
    split
    · next heq => rw [heq, hl.linksNew]
    · next hnechunk => exact hl.links c (by simpa [hnechunk] using hc) hnecur

/-- Each chunk is in use up to where it was. -/
theorem Linked.top (hl : Linked s chunks chunk t) (h : Inv s chunks) {c : Nat} (hc : c ∈ chunks) :
    t.top c = s.top c := by
  by_cases heq : c = s.currentChunk
  · have hpos : 4 * s.current ≠ 0 := by
      have := h.current_low
      unfold chunkInfoWords at this
      omega
    rw [Heap.top, Heap.top, heq, hl.closed, if_neg hpos, if_pos h.filling]
  · have hnull := (h.filled c hc heq).1
    rw [Heap.top, Heap.top, hl.mem c hc heq, if_neg hnull, if_neg hnull]

/-- A new chunk, which belongs to nobody, becomes the last one. -/
theorem linkChunk (h : Inv s chunks) (hroom : chunkInfoWords < s.chunkSizeWords)
    (havail : s.Available ⟨chunk, wordsOf (4 * s.chunkSizeWords)⟩) {supply : List Nat}
    {account : Option Account} :
    Inv (linkChunk chunk { s.setWord s.currentChunk (4 * s.current) with
      blocks := ⟨chunk, wordsOf (4 * s.chunkSizeWords)⟩ :: s.blocks
      supply := supply
      account := account }) (chunks ++ [chunk]) := by
  obtain ⟨hpage, -, hfresh⟩ := havail
  have hchunk : chunk ≠ 0 := by
    simp only at hpage
    omega
  have hwords := le_wordsOf h.chunkSize
  -- the new chunk is apart from the others, header and all
  have hnew : ∀ c ∈ chunks, c + chunkInfoWords ≤ chunk ∨ chunk + chunkInfoWords ≤ c := by
    intro c hc
    obtain ⟨-, hheader, b, hb, rfl, hlast⟩ := h.owned c hc
    have happart := hfresh b hb
    simp only [Block.Apart] at happart
    omega
  have hmember : chunk ∉ chunks := fun hmem => by
    have := hnew chunk hmem
    unfold chunkInfoWords at this
    omega
  generalize hs' : ({ s.setWord s.currentChunk (4 * s.current) with
      blocks := ⟨chunk, wordsOf (4 * s.chunkSizeWords)⟩ :: s.blocks
      supply := supply
      account := account } : Heap) = s'
  have hl : Linked s chunks chunk (GcChunked.linkChunk chunk s') := by
    apply linkChunk_linked h hchunk hnew
    · intro w
      rw [← hs']
      exact Function.update_apply ..
    · rw [← hs']
      rfl
    · rw [← hs']
      rfl
  subst hs'
  refine
    { queue := ?_
      current_ne := hchunk
      end_eq := hl.lastNew.symm
      current_low := Nat.le_refl _
      current_high := Nat.add_le_add_left (Nat.le_of_lt hroom) chunk
      filling := hl.memNew
      filled := ?_
      owned := ?_
      blocks := List.pairwise_cons.mpr ⟨hfresh, h.blocks⟩
      apart := h.apart
      inside := ?_
      chunkSize := h.chunkSize }
  · have hptr : pointer chunk = some chunk := if_neg hchunk
    have hqueue := hl.queue h hmember rfl
    rwa [← hptr] at hqueue
  · intro c hc hne
    have hc : c ∈ chunks := (List.mem_append.mp hc).resolve_right fun hmem =>
      hne (List.mem_singleton.mp hmem)
    rw [hl.last c hc]
    by_cases heq : c = s.currentChunk
    · have hlow := h.current_low
      have hhigh := h.current_high
      have hend := h.end_eq
      rw [heq, hl.closed, ← hend]
      unfold chunkInfoWords at hlow ⊢
      omega
    · rw [hl.mem c hc heq]
      exact h.filled c hc heq
  · intro c hc
    rcases List.mem_append.mp hc with hc | hc
    · obtain ⟨hpos, hheader, b, hb, hstart, hfits⟩ := h.owned c hc
      rw [hl.last c hc]
      exact ⟨hpos, hheader, b, List.mem_cons_of_mem _ hb, hstart, hfits⟩
    · obtain rfl := List.mem_singleton.mp hc
      rw [hl.lastNew]
      exact ⟨hchunk, by omega, _, List.mem_cons_self, rfl, Nat.add_le_add_left hwords c⟩
  · intro o ho
    obtain ⟨hwords, c, hc, hstart, hinside⟩ := h.inside o ho
    refine ⟨hwords, c, List.mem_append_left _ hc, hstart, ?_⟩
    rwa [hl.top h hc]

end Inv

/-- `jxmalloc` comes back with a block that nobody has. -/
theorem jxmalloc_ok {size chunk : Nat} {s t : Heap} (h : jxmalloc size s = pure (chunk, t)) :
    ∃ supply, s.Available ⟨chunk, wordsOf size⟩ ∧
      t = { s with blocks := ⟨chunk, wordsOf size⟩ :: s.blocks, supply := supply } := by
  unfold jxmalloc at h
  split at h
  · cases h
  · next start supply _ =>
    split at h
    · next havail =>
      cases h
      exact ⟨supply, havail, rfl⟩
    · cases h

/-- Where the account is not used up, `tryAllocChunk` comes back with a chunk. -/
theorem tryAllocChunk_ok {size : Nat} {found : Option Nat} {s t : Heap}
    (haccount : ∀ acc, s.account = some acc → u4 (acc.consumed + size) ≤ acc.reduced)
    (h : tryAllocChunk size s = pure (found, t)) :
    ∃ chunk supply account, found = some chunk ∧ s.Available ⟨chunk, wordsOf size⟩ ∧
      t = { s with
        blocks := ⟨chunk, wordsOf size⟩ :: s.blocks
        supply := supply
        account := account } := by
  unfold tryAllocChunk at h
  split at h
  · next hnone =>
    rw [map_eq_pure_bind] at h
    obtain ⟨⟨chunk, s₁⟩, hmalloc, hr⟩ := bind_eq_pure h
    obtain ⟨supply, havail, hs⟩ := jxmalloc_ok hmalloc
    cases hr
    exact ⟨chunk, supply, s.account, rfl, havail, hs⟩
  · next acc hsome =>
    rw [if_neg (Nat.not_lt.mpr (haccount acc hsome)), map_eq_pure_bind] at h
    obtain ⟨⟨chunk, s₁⟩, hmalloc, hr⟩ := bind_eq_pure h
    obtain ⟨supply, havail, hs⟩ := jxmalloc_ok hmalloc
    cases hr
    exact ⟨chunk, supply, _, rfl, havail, hs⟩

namespace Inv

variable {env : Env} {s t : Heap} {chunks : List Nat}

/-- An allocation takes the object from the last chunk, or from a new one. -/
theorem alloc (h : Inv s chunks) {objSize flags obj fuel : Nat} {roots : List Nat}
    (hquiet : (Op.alloc objSize flags roots).Quiet s)
    (hcall : allocDataInDomain env roots objSize flags fuel s = pure (obj, t)) :
    ∃ chunks', Inv t chunks' := by
  obtain ⟨hsize, hused, hroom⟩ := hquiet
  unfold allocDataInDomain at hcall
  rw [if_neg (by omega), pure_bind] at hcall
  cases fuel with
  | zero => cases hcall
  | succ fuel =>
  rw [tryAlloc] at hcall
  split at hcall
  · cases hcall
  split at hcall
  · next hfull =>
    obtain ⟨hfits, haccount⟩ := hroom.resolve_left (Nat.not_lt.mpr hfull)
    obtain ⟨⟨found, s₁⟩, htry, hcall⟩ := bind_eq_pure hcall
    obtain ⟨chunk, supply, account, rfl, havail, rfl⟩ :=
      tryAllocChunk_ok (s := s.setWord s.currentChunk (4 * s.current)) haccount htry
    have hlinked := @Inv.linkChunk _ _ _ h (by omega) havail supply account
    -- the new chunk is empty, and the object is smaller than that
    simp only at hcall
    cases fuel with
    | zero => cases hcall
    | succ fuel =>
    rw [tryAlloc] at hcall
    split at hcall
    · cases hcall
    have hempty : chunk + chunkInfoWords + objSize < chunk + s.chunkSizeWords := by omega
    split at hcall
    · next hfull => exact absurd hempty (Nat.not_lt.mpr hfull)
    cases hcall
    exact ⟨_, hlinked.initData hsize hempty⟩
  · next hfits =>
    cases hcall
    exact ⟨_, h.initData hsize (Nat.not_le.mp hfits)⟩

/-- Others do not touch the blocks of the heap. -/
theorem others (h : Inv s chunks) {mem : Nat → Nat} {blocks : List Block} {supply : List Nat}
    {account : Option Account} (hblocks : blocks.Pairwise Block.Apart)
    (hours : ∀ b ∈ s.blocks, s.IsChunk b.start →
      b ∈ blocks ∧ ∀ w, b.start ≤ w → w < b.start + b.words → mem w = s.mem w) :
    Inv { s with mem := mem, blocks := blocks, supply := supply, account := account } chunks := by
  apply h.frame (t := { s with mem := mem, blocks := blocks, supply := supply, account := account })
    _ rfl hblocks
  · intro c hc b hb hstart
    exact (hours b hb ⟨chunks, h.queue.chain, hstart ▸ hc⟩).1
  · intro c hc k hk
    obtain ⟨-, hheader, b, hb, rfl, hlast⟩ := h.owned c hc
    exact (hours b hb ⟨chunks, h.queue.chain, hc⟩).2 _ (by omega) (by omega)

theorem step (h : Inv s chunks) {op : Op} (hquiet : op.Quiet s) (hstep : Step env op s t) :
    ∃ chunks', Inv t chunks' := by
  cases hstep with
  | alloc hret => exact h.alloc hquiet hret
  | gc hret => exact hquiet.elim
  | store ho hlow hhigh => exact ⟨chunks, h.store ho hlow hhigh⟩
  | others hblocks hours => exact ⟨chunks, h.others hblocks hours⟩

end Inv

/-! ## Runs -/

/-- `allocChunk` comes back with a block that nobody has. -/
theorem allocChunk_ok {size chunk : Nat} {s t : Heap} (h : allocChunk size s = pure (chunk, t)) :
    ∃ supply account, s.Available ⟨chunk, wordsOf size⟩ ∧
      t = { s with
        blocks := ⟨chunk, wordsOf size⟩ :: s.blocks
        supply := supply
        account := account } := by
  unfold allocChunk at h
  split at h
  · obtain ⟨supply, havail, hs⟩ := jxmalloc_ok h
    exact ⟨supply, s.account, havail, hs⟩
  · obtain ⟨acc, -, hmalloc⟩ := bind_eq_pure h
    obtain ⟨supply, havail, hs⟩ := jxmalloc_ok hmalloc
    exact ⟨supply, some acc, havail, hs⟩

/-- A heap that has just been initialised is one chunk, if there is room for its header. -/
theorem Start.inv {initialHeap : Nat} {s : Heap} (h : Start initialHeap s)
    (hroom : 4 * chunkInfoWords ≤ initialHeap) : ∃ chunks, Inv s chunks := by
  obtain ⟨raw, chunkSize, startGCatTotalSize, account, hblocks, hinitial, hchunk, hinit⟩ := h
  unfold init at hinit
  obtain ⟨⟨chunk, s₁⟩, halloc, hinit⟩ := bind_eq_pure hinit
  obtain ⟨supply, account', ⟨hpage, -, hfresh⟩, rfl⟩ := allocChunk_ok halloc
  cases hinit
  have hpos : chunk ≠ 0 := by
    simp only at hpage
    omega
  have hwords := le_wordsOf (n := initialHeap / 4) (by omega)
  unfold chunkInfoWords at hroom
  refine ⟨[chunk], ?_⟩
  have hptr : pointer chunk = some chunk := if_neg hpos
  generalize ht : Heap.setHeader _ _ _ = t
  have hmem : t.mem chunk = 0 ∧ t.last chunk = chunk + initialHeap / 4 ∧ t.next chunk = 0 := by
    rw [← ht]
    refine ⟨?_, ?_, ?_⟩ <;>
      simp [Heap.setHeader, Heap.setWord, Heap.last, Heap.next]
  have hlink : t.links chunk = none := by
    rw [Heap.links, hmem.2.2]
    rfl
  have hfields : t.firstChunk = chunk ∧ t.currentChunk = chunk ∧ t.current = chunk + chunkInfoWords ∧
      t.endCurrentChunk = chunk + initialHeap / 4 ∧ t.objects = [] ∧
      t.chunkSizeWords = chunkSize / 4 ∧
      t.blocks = ⟨chunk, wordsOf (4 * (initialHeap / 4))⟩ :: raw.blocks := by
    rw [← ht]
    exact ⟨rfl, rfl, rfl, rfl, rfl, rfl, rfl⟩
  obtain ⟨hfirst, hcur, hcurrent, hend, hobjects, hsize, hblocks'⟩ := hfields
  refine
    { queue := ?_, current_ne := ?_, end_eq := ?_, current_low := ?_, current_high := ?_,
      filling := ?_, filled := ?_, owned := ?_, blocks := ?_, apart := ?_, inside := ?_,
      chunkSize := ?_ }
  · rw [hfirst, hcur, hptr]
    exact ⟨⟨rfl, hlink⟩, rfl, List.nodup_singleton chunk⟩
  · rwa [hcur]
  · rw [hend, hcur, hmem.2.1]
  · rw [hcur, hcurrent]
  · rw [hcurrent, hend]
    unfold chunkInfoWords
    omega
  · rw [hcur]
    exact hmem.1
  · intro c hc hne
    exact absurd (List.mem_singleton.mp hc) (hcur ▸ hne)
  · intro c hc
    obtain rfl := List.mem_singleton.mp hc
    rw [hmem.2.1, hblocks']
    refine ⟨hpos, ?_, _, List.mem_cons_self, rfl, Nat.add_le_add_left hwords c⟩
    unfold chunkInfoWords
    omega
  · rw [hblocks']
    exact List.pairwise_cons.mpr ⟨hfresh, hblocks⟩
  · rw [hobjects]
    exact List.Pairwise.nil
  · rw [hobjects]
    simp
  · rw [hsize]
    omega

/-- **In every run in which no collection is started, the fields agree after each operation.** -/
theorem consistent_of_run {env : Env} {initialHeap : Nat} {s₀ s : Heap} (hstart : Start initialHeap s₀)
    (hroom : 4 * chunkInfoWords ≤ initialHeap)
    (hrun : Relation.ReflTransGen (fun s t => ∃ op : Op, op.Quiet s ∧ Step env op s t) s₀ s) :
    ∃ chunks, Consistent s chunks := by
  have hinv : ∃ chunks, Inv s chunks := by
    apply invariant_of_run (I := fun s => ∃ chunks, Inv s chunks) _ hrun (hstart.inv hroom)
    rintro s t ⟨chunks, h⟩ ⟨op, hquiet, hstep⟩
    exact h.step hquiet hstep
  obtain ⟨chunks, h⟩ := hinv
  exact ⟨chunks, h.consistent⟩

/-! ### A heap of 16 words

The first object is put into the chunk with which the heap starts, and the second one into a new
chunk. If there is a collection after the first one, `endCurrentChunk` still belongs to the chunk
that has been given back. -/

/-- Every class has four fields and none of them is a reference, and there are no other objects. -/
def plainEnv : Env where
  base :=
    { classDesc := fun _ => ⟨4, [0]⟩
      arrayName := fun _ => ['[', 'I']
      domainId := fun _ => 0
      domain := 0
      otherSize := fun _ => 0
      otherMove := fun _ _ _ => throw (.panic "")
      otherScan := fun _ _ _ => throw (.panic "")
      otherFinalize := fun _ _ _ _ => throw (.panic "") }
  otherMove _ _ _ := throw (.panic "")
  otherScan _ _ _ := throw (.panic "")
  otherFinalize _ _ _ _ := throw (.panic "")

/-- Before `gc_chunked_init`. The blocks will be at `0x40000`, `0x50000` and `0x60000`. -/
def rawHeap : Heap where
  mem _ := 0
  blocks := []
  supply := [0x40000, 0x50000, 0x60000]
  account := none
  firstChunk := 0
  current := 0
  currentChunk := 0
  endCurrentChunk := 0
  firstChunk2 := 0
  current2 := 0
  currentChunk2 := 0
  endCurrentChunk2 := 0
  totalSizeWords := 0
  freeSizeWords := 0
  usedSizeWords := 0
  collectAtSizeWords := 0
  chunkSizeWords := 0
  initialHeapWords := 0
  gcThread := true
  objects := []
  objects2 := []
  decRefcount := []

/-- The first block, with its header. -/
def smallHeap : Heap :=
  Heap.setHeader
    { rawHeap with
      blocks := [⟨0x40000, 256⟩]
      supply := [0x50000, 0x60000]
      firstChunk := 0x40000
      current := 0x40003
      currentChunk := 0x40000
      endCurrentChunk := 0x40010
      totalSizeWords := 16
      freeSizeWords := 13
      usedSizeWords := 3
      collectAtSizeWords := 1024
      chunkSizeWords := 16
      initialHeapWords := 16 }
    0x40000 0x40010

theorem smallHeap_start : Start 64 smallHeap :=
  ⟨rawHeap, 64, 4096, none, List.Pairwise.nil, by decide, by decide, rfl⟩

theorem smallHeap_alloc : Step plainEnv (.alloc 8 0x02 []) smallHeap (initData 8 0x02 smallHeap).2 := by
  refine @Step.alloc _ _ _ 0x40005 1 _ _ _ ?_
  unfold allocDataInDomain
  rw [if_neg (by decide), pure_bind, tryAlloc, if_neg (by decide), if_neg (by decide)]
  rfl

/-- There is no room for the second object in the first chunk. -/
def grownHeap : Heap :=
  linkChunk 0x50000 { (initData 8 0x02 smallHeap).2.setWord 0x40000 (4 * 0x4000b) with
    blocks := [⟨0x50000, 256⟩, ⟨0x40000, 256⟩]
    supply := [0x60000] }

theorem smallHeap_grows : Step plainEnv (.alloc 8 0x02 []) (initData 8 0x02 smallHeap).2
    (initData 8 0x02 grownHeap).2 := by
  refine @Step.alloc _ _ _ 0x50005 2 _ _ _ ?_
  have htry : tryAllocChunk 64 ((initData 8 0x02 smallHeap).2.setWord 0x40000 (4 * 0x4000b)) =
      pure (some 0x50000, { (initData 8 0x02 smallHeap).2.setWord 0x40000 (4 * 0x4000b) with
        blocks := [⟨0x50000, 256⟩, ⟨0x40000, 256⟩]
        supply := [0x60000] }) := rfl
  unfold allocDataInDomain
  rw [if_neg (by decide), pure_bind, tryAlloc, if_neg (by decide), if_pos (by decide)]
  change (tryAllocChunk 64 ((initData 8 0x02 smallHeap).2.setWord 0x40000 (4 * 0x4000b)) >>= _) = _
  rw [htry, pure_bind]
  change tryAlloc plainEnv [] 8 0x02 1 grownHeap = _
  rw [tryAlloc, if_neg (by decide), if_neg (by decide)]
  rfl

theorem consistent_twoChunks : Start 64 smallHeap ∧
    Relation.ReflTransGen (fun s t => ∃ op : Op, op.Quiet s ∧ Step plainEnv op s t) smallHeap
      (initData 8 0x02 grownHeap).2 ∧
    ∃ chunks, Consistent (initData 8 0x02 grownHeap).2 chunks := by
  have hquiet : (Op.alloc 8 0x02 []).Quiet smallHeap := ⟨by decide, by decide, .inl (by decide)⟩
  have hquiet' : (Op.alloc 8 0x02 []).Quiet (initData 8 0x02 smallHeap).2 :=
    ⟨by decide, by decide, .inr ⟨by decide, nofun⟩⟩
  have hrun : Relation.ReflTransGen (fun s t => ∃ op : Op, op.Quiet s ∧ Step plainEnv op s t)
      smallHeap (initData 8 0x02 grownHeap).2 :=
    .tail (.single ⟨_, hquiet, smallHeap_alloc⟩) ⟨_, hquiet', smallHeap_grows⟩
  exact ⟨smallHeap_start, hrun, consistent_of_run smallHeap_start (by decide) hrun⟩

/-- The two fields that should agree after a collection. -/
def ends : Exec Heap → Option (Nat × Nat)
  | some (.ok t) => some (t.endCurrentChunk, t.last t.currentChunk)
  | _ => none

/-- The object has got its vtable, and the root slot at `0x30000` refers to it. -/
def rootedHeap : Heap :=
  ((initData 8 0x02 smallHeap).2.setWord 0x40005 0x80000).setWord 0x30000 (4 * 0x40005)

theorem rootedHeap_run :
    Relation.ReflTransGen (fun s t => ∃ op : Op, Step plainEnv op s t) smallHeap rootedHeap := by
  have hstore : Step plainEnv (.store 0x40005 0x80000) (initData 8 0x02 smallHeap).2
      ((initData 8 0x02 smallHeap).2.setWord 0x40005 0x80000) :=
    .store (o := ⟨0x40003, 8⟩) (by decide) (by decide) (by decide)
  have hroot : Step plainEnv .others ((initData 8 0x02 smallHeap).2.setWord 0x40005 0x80000)
      rootedHeap := by
    refine @Step.others _ _ [⟨0x40000, 256⟩] [0x50000, 0x60000] none _
      (List.pairwise_singleton _ _) ?_
    intro b hb _
    obtain rfl : b = ⟨0x40000, 256⟩ := List.mem_singleton.mp hb
    refine ⟨hb, fun w hlow hhigh => ?_⟩
    exact Function.update_of_ne (Ne.symm (Nat.ne_of_lt (Nat.lt_of_lt_of_le (by decide) hlow))) _ _
  exact .tail (.tail (.single ⟨_, smallHeap_alloc⟩) ⟨_, hstore⟩) ⟨_, hroot⟩

theorem not_consistent_collected : ∃ s : Heap, Start 64 smallHeap ∧
    Relation.ReflTransGen (fun s t => ∃ op : Op, Step plainEnv op s t) smallHeap s ∧
    ¬ ∃ chunks, Consistent s chunks := by
  have hends : ends (gcChunkedGc plainEnv [0x30000] 5 rootedHeap) = some (0x40010, 0x50010) := by
    decide
  match hgc : gcChunkedGc plainEnv [0x30000] 5 rootedHeap with
  | none =>
    rw [hgc] at hends
    cases hends
  | some (.error _) =>
    rw [hgc] at hends
    cases hends
  | some (.ok t) =>
    rw [hgc] at hends
    simp only [ends, Option.some.injEq, Prod.mk.injEq] at hends
    refine ⟨t, smallHeap_start, .tail rootedHeap_run ⟨.gc [0x30000], .gc hgc⟩, ?_⟩
    rintro ⟨chunks, h⟩
    have heq := h.end_eq
    rw [hends.1, hends.2] at heq
    exact absurd heq (by decide)

end JxCore.GcChunked
