import JxCore.Memory.GcChunked
import Mathlib.Algebra.BigOperators.Group.List.Basic
import Mathlib.Algebra.Order.Ring.Nat
import Mathlib.Logic.Relation
import Mathlib.Order.Interval.Finset.Nat

/-!
# The account of a principal (`allocChunk`, `tryAllocChunk`, `freeChunk` of `Memory/gc_chunked.c`)

Domains with a heap of chunks can account to a principal, whose `limit` bounds what all of them take
together. A thread that finds the account used up links itself into `waiting` and blocks; `freeChunk` is
to take the list over and to wake everybody up. A step of the system is one pass through such a routine,
from one point at which another thread may run to the next.
-/

namespace JxCore.GcChunkedAccount

open Lib

/-! ## The routines -/

/-- A `ThreadDesc`. -/
abbrev Thread := Nat

/-- A chunk that is charged to the principal. -/
structure Chunk where
  start : Nat
  size : Nat
  deriving DecidableEq

def Chunk.Apart (a b : Chunk) : Prop := a.start + a.size ≤ b.start ∨ b.start + b.size ≤ a.start

/-- Where a thread is. Inside of `allocChunk` it is blocked, or it has been unblocked and is going to
check the account again. -/
inductive Phase where
  | outside
  | blocked (size : Nat)
  | unblocked (size : Nat)
  deriving DecidableEq

/-- The account of the principal, its waiting list, and what it has been charged for. -/
structure State where
  consumed : Nat
  limit : Nat
  collectAtSizeWords : Nat
  waiting : Option Thread
  nextInGCQueue : Thread → Option Thread
  phase : Thread → Phase
  live : List Chunk

namespace State

variable (s : State)

/-- `collectAtSizeWords << 2`. -/
def reserve : Nat := u4 (4 * s.collectAtSizeWords)

/-- `limit - (collectAtSizeWords << 2)`. -/
def reduced : Nat := u4 (2 ^ 32 + s.limit - s.reserve)

/-- The thread links itself into the list, and `threadblock`. -/
def block (t : Thread) (size : Nat) : State :=
  { s with
    nextInGCQueue := Function.update s.nextInGCQueue t s.waiting
    waiting := some t
    phase := Function.update s.phase t (.blocked size) }

/-- The account is charged with the chunk that `jxmalloc` gives out. -/
def charge (t : Thread) (c : Chunk) : State :=
  { s with
    consumed := u4 (s.consumed + c.size)
    phase := Function.update s.phase t .outside
    live := c :: s.live }

/-- One pass through the loop of `allocChunk`; `start` is where `jxmalloc` finds a block. -/
def allocChunk (t : Thread) (size start : Nat) : State :=
  if s.limit < u4 (s.consumed + size) then s.block t size else s.charge t ⟨start, size⟩

/-- `tryAllocChunk`. -/
def tryAllocChunk (t : Thread) (size start : Nat) : State :=
  if s.reduced < u4 (s.consumed + size) then s else s.charge t ⟨start, size⟩

/-- `threadunblock`. -/
def threadunblock (t : Thread) : State :=
  match s.phase t with
  | .blocked size => { s with phase := Function.update s.phase t (.unblocked size) }
  | _ => s

end State

/-- `NULL` was dereferenced. -/
inductive Fault where
  | nullThread
  deriving DecidableEq

/-- The loop of `freeChunk`. The list collects whom it unblocks. -/
def wake : (fuel : Nat) → Option Thread → List Thread → State →
    Option (Except Fault (List Thread × State))
  | 0, _, _, _ => none
  | _ + 1, none, log, s => some (.ok (log, s))
  | fuel + 1, some t, log, s =>
    let s := s.threadunblock t
    match s.nextInGCQueue t with
    | none => some (.error .nullThread)
    | some t' =>
      wake fuel (some t') (t :: log)
        { s with nextInGCQueue := Function.update s.nextInGCQueue t' none }

/-- The first half of `freeChunk`: the account is paid back, and the list taken over. -/
def State.release (s : State) (c : Chunk) : State :=
  { s with
    live := s.live.erase c
    consumed := u4 (2 ^ 32 + s.consumed - u4 c.size)
    waiting := none }

/-- `freeChunk`. -/
def freeChunk (fuel : Nat) (c : Chunk) (s : State) : Option (Except Fault (List Thread × State)) :=
  wake fuel s.waiting [] (s.release c)

/-! ## The system -/

/-- `jxmalloc` can give the block out: nobody has any of it, and the first page is not used. -/
def State.Available (s : State) (c : Chunk) : Prop :=
  0x1000 ≤ c.start ∧ c.start + c.size ≤ 2 ^ 32 ∧ ∀ d ∈ s.live, c.Apart d

/-- A call of one of the routines by a thread, of any domain that accounts to the principal. -/
inductive Action where
  | alloc (t : Thread) (size : Nat)
  | tryAlloc (t : Thread) (size : Nat)
  | free (t : Thread) (c : Chunk)

inductive Step (s : State) : Action → State → Prop
  | alloc {t : Thread} {size start : Nat} (hphase : s.phase t = .outside ∨ s.phase t = .unblocked size)
      (hsize : size < 2 ^ 32)
      (hblock : ¬ s.limit < u4 (s.consumed + size) → s.Available ⟨start, size⟩) :
      Step s (.alloc t size) (s.allocChunk t size start)
  | tryAlloc {t : Thread} {size start : Nat} (hphase : s.phase t = .outside) (hsize : size < 2 ^ 32)
      (hblock : ¬ s.reduced < u4 (s.consumed + size) → s.Available ⟨start, size⟩) :
      Step s (.tryAlloc t size) (s.tryAllocChunk t size start)
  | free {t : Thread} {c : Chunk} {fuel : Nat} {log : List Thread} {s' : State}
      (hphase : s.phase t = .outside) (hc : c ∈ s.live)
      (hfree : freeChunk fuel c s = some (.ok (log, s'))) : Step s (.free t c) s'

/-- An account that nobody has used yet. -/
def State.initial (limit collectAtSizeWords : Nat) (nextInGCQueue : Thread → Option Thread) : State where
  consumed := 0
  limit := limit
  collectAtSizeWords := collectAtSizeWords
  waiting := none
  nextInGCQueue := nextInGCQueue
  phase _ := .outside
  live := []

/-! ## What is expected -/

/-- The thread is blocked in `allocChunk`. -/
def State.Blocked (s : State) (t : Thread) : Prop := ∃ size, s.phase t = .blocked size

/-- Giving the chunk back unblocks each waiting thread exactly once, and leaves an empty list with every
link cleared. -/
def State.Wakes (s : State) (c : Chunk) : Prop :=
  ∃ fuel log s', freeChunk fuel c s = some (.ok (log, s')) ∧ log.Nodup ∧
    (∀ t, t ∈ log ↔ s.Blocked t) ∧ s'.waiting = none ∧ ∀ t ∈ log, s'.nextInGCQueue t = none

/-- The account is right, and the waiting list is; waking up works as long as nobody waits. -/
structure Sound (s : State) : Prop where
  balance : s.consumed = (s.live.map Chunk.size).sum
  bounded : s.consumed ≤ s.limit
  linked : ∃ l, Chain s.nextInGCQueue s.waiting l ∧ l.Nodup ∧ ∀ t, t ∈ l ↔ s.Blocked t
  wakes : ∀ c ∈ s.live, s.Wakes c ↔ s.waiting = none

/-- The call does not reach a defect: it gives nothing back while somebody waits, and the reserve that it
subtracts is not larger than the limit, or does not matter. -/
def Fits (s : State) : Action → Prop
  | .alloc _ _ => True
  | .tryAlloc _ size => s.reserve ≤ s.limit ∨ s.consumed + size ≤ s.limit ∨
      s.reduced < u4 (s.consumed + size)
  | .free _ _ => s.waiting = none

/-- A step that meets the condition. -/
def GoodStep (s s' : State) : Prop := ∃ a, Fits s a ∧ Step s a s'

/-! ## The room that chunks take -/

/-- The addresses that are in a chunk. -/
def cover : List Chunk → Finset Nat
  | [] => ∅
  | c :: l => Finset.Ico c.start (c.start + c.size) ∪ cover l

theorem mem_cover {l : List Chunk} {i : Nat} :
    i ∈ cover l ↔ ∃ c ∈ l, c.start ≤ i ∧ i < c.start + c.size := by
  induction l with
  | nil => simp [cover]
  | cons c l ih => simp [cover, ih]

theorem card_cover {l : List Chunk} (h : l.Pairwise Chunk.Apart) :
    (cover l).card = (l.map Chunk.size).sum := by
  induction l with
  | nil => rfl
  | cons c l ih =>
    obtain ⟨hc, hl⟩ := List.pairwise_cons.mp h
    have hdisjoint : Disjoint (Finset.Ico c.start (c.start + c.size)) (cover l) := by
      rw [Finset.disjoint_left]
      intro i hi hi'
      obtain ⟨d, hd, hle, hlt⟩ := mem_cover.mp hi'
      obtain ⟨hle', hlt'⟩ := Finset.mem_Ico.mp hi
      have := hc d hd
      simp only [Chunk.Apart] at this
      omega
    rw [cover, Finset.card_union_of_disjoint hdisjoint, ih hl, Nat.card_Ico, List.map_cons,
      List.sum_cons, Nat.add_sub_cancel_left]

/-- Chunks that are apart take no more than the memory has. -/
theorem sum_lt {l : List Chunk} (h : l.Pairwise Chunk.Apart)
    (hin : ∀ c ∈ l, 0x1000 ≤ c.start ∧ c.start + c.size ≤ 2 ^ 32) :
    (l.map Chunk.size).sum < 2 ^ 32 := by
  have hsub : cover l ⊆ Finset.Ico 0x1000 (2 ^ 32) := by
    intro i hi
    obtain ⟨c, hc, hle, hlt⟩ := mem_cover.mp hi
    obtain ⟨hlo, hhi⟩ := hin c hc
    rw [Finset.mem_Ico]
    omega
  have hcard := Finset.card_le_card hsub
  rw [card_cover h, Nat.card_Ico] at hcard
  omega

/-! ## The invariant -/

structure Inv (s : State) : Prop where
  balance : s.consumed = (s.live.map Chunk.size).sum
  bounded : s.consumed ≤ s.limit
  limit_lt : s.limit < 2 ^ 32
  linked : ∃ l, Chain s.nextInGCQueue s.waiting l ∧ l.Nodup ∧ ∀ t, t ∈ l ↔ s.Blocked t
  apart : s.live.Pairwise Chunk.Apart
  inside : ∀ c ∈ s.live, 0x1000 ≤ c.start ∧ c.start + c.size ≤ 2 ^ 32

namespace Inv

variable {s : State} {t : Thread} {c : Chunk} {size start : Nat}

/-- The chunks that are charged for still fit into the memory with a further one. -/
theorem sum_lt (h : Inv s) (hc : s.Available c) : s.consumed + c.size < 2 ^ 32 := by
  have hsum := GcChunkedAccount.sum_lt (List.pairwise_cons.mpr ⟨hc.2.2, h.apart⟩)
    (List.forall_mem_cons.mpr ⟨⟨hc.1, hc.2.1⟩, h.inside⟩)
  rw [List.map_cons, List.sum_cons, ← h.balance] at hsum
  omega

/-- A thread that is not blocked links itself into the list. -/
theorem block (h : Inv s) (ht : ¬ s.Blocked t) : Inv (s.block t size) := by
  obtain ⟨l, hchain, hnodup, hmem⟩ := h.linked
  have hnot : t ∉ l := fun hl => ht ((hmem t).mp hl)
  refine ⟨h.balance, h.bounded, h.limit_lt, ⟨t :: l, ⟨rfl, ?_⟩, ?_, fun t' => ?_⟩, h.apart, h.inside⟩
  · change Chain (Function.update s.nextInGCQueue t s.waiting)
      (Function.update s.nextInGCQueue t s.waiting t) l
    rw [Function.update_self]
    exact hchain.congr fun a ha => Function.update_of_ne (ne_of_mem_of_not_mem ha hnot) _ _
  · exact List.nodup_cons.mpr ⟨hnot, hnodup⟩
  · rw [List.mem_cons, hmem t']
    by_cases heq : t' = t
    · subst heq
      simp [State.Blocked, State.block]
    · simp [State.Blocked, State.block, heq]

/-- The account is charged with a chunk that fits. -/
theorem charge (h : Inv s) (ht : ¬ s.Blocked t) (hc : s.Available c)
    (hfits : s.consumed + c.size ≤ s.limit) : Inv (s.charge t c) := by
  have hsum : u4 (s.consumed + c.size) = s.consumed + c.size := u4_of_lt (h.sum_lt hc)
  refine ⟨?_, ?_, h.limit_lt, ?_, List.pairwise_cons.mpr ⟨hc.2.2, h.apart⟩,
    List.forall_mem_cons.mpr ⟨⟨hc.1, hc.2.1⟩, h.inside⟩⟩
  · change u4 (s.consumed + c.size) = ((c :: s.live).map Chunk.size).sum
    rw [hsum, List.map_cons, List.sum_cons, ← h.balance, Nat.add_comm]
  · change u4 (s.consumed + c.size) ≤ s.limit
    rwa [hsum]
  · obtain ⟨l, hchain, hnodup, hmem⟩ := h.linked
    refine ⟨l, hchain, hnodup, fun t' => ?_⟩
    rw [hmem t']
    by_cases heq : t' = t
    · subst heq
      have : ¬ (s.charge t' c).Blocked t' := by simp [State.Blocked, State.charge]
      exact iff_of_false ht this
    · simp [State.Blocked, State.charge, heq]

theorem not_blocked (hphase : s.phase t = .outside ∨ s.phase t = .unblocked size) :
    ¬ s.Blocked t := by
  rintro ⟨size', hblocked⟩
  rw [hblocked] at hphase
  obtain h | h := hphase <;> cases h

/-- `allocChunk` takes what the limit leaves, or waits. -/
theorem allocChunk (h : Inv s) (hphase : s.phase t = .outside ∨ s.phase t = .unblocked size)
    (hblock : ¬ s.limit < u4 (s.consumed + size) → s.Available ⟨start, size⟩) :
    Inv (s.allocChunk t size start) := by
  rw [State.allocChunk]
  split_ifs with hfull
  · exact h.block (not_blocked hphase)
  · have hc := hblock hfull
    have hsum : u4 (s.consumed + size) = s.consumed + size := u4_of_lt (h.sum_lt hc)
    exact h.charge (not_blocked hphase) hc (by rw [← hsum]; exact Nat.not_lt.mp hfull)

/-- The limit without the reserve. -/
theorem reduced_eq (h : Inv s) (hle : s.reserve ≤ s.limit) : s.reduced = s.limit - s.reserve := by
  have hlimit := h.limit_lt
  simp only [State.reduced, u4]
  omega

/-- `tryAllocChunk` takes what the limit leaves, if the reserve is within the limit. -/
theorem tryAllocChunk (h : Inv s) (hphase : s.phase t = .outside)
    (hblock : ¬ s.reduced < u4 (s.consumed + size) → s.Available ⟨start, size⟩)
    (hfits : Fits s (.tryAlloc t size)) : Inv (s.tryAllocChunk t size start) := by
  rw [State.tryAllocChunk]
  split_ifs with hfull
  · exact h
  · have hc := hblock hfull
    have hsum : u4 (s.consumed + size) = s.consumed + size := u4_of_lt (h.sum_lt hc)
    refine h.charge (not_blocked (Or.inl hphase : _ ∨ s.phase t = .unblocked size)) hc ?_
    obtain hreserve | hroom | hrefused := hfits
    · rw [h.reduced_eq hreserve, hsum] at hfull
      change s.consumed + size ≤ s.limit
      omega
    · exact hroom
    · exact absurd hrefused hfull

/-- What is left when a chunk has been paid back. -/
theorem release_consumed (h : Inv s) (hc : c ∈ s.live) :
    (s.release c).consumed = ((s.live.erase c).map Chunk.size).sum := by
  have hperm := ((List.perm_cons_erase hc).map Chunk.size).sum_eq
  rw [List.map_cons, List.sum_cons, ← h.balance] at hperm
  have hlimit := h.limit_lt
  have hbounded := h.bounded
  rw [State.release]
  simp only [u4]
  omega

/-- Giving a chunk back, when nobody waits. -/
theorem release (h : Inv s) (hc : c ∈ s.live) (hw : s.waiting = none) : Inv (s.release c) := by
  have hconsumed := h.release_consumed hc
  have hperm := ((List.perm_cons_erase hc).map Chunk.size).sum_eq
  rw [List.map_cons, List.sum_cons, ← h.balance] at hperm
  have hbounded := h.bounded
  have hle : (s.release c).consumed ≤ s.limit := by
    rw [hconsumed]
    omega
  constructor
  · exact hconsumed
  · exact hle
  · exact h.limit_lt
  · have hlinked := h.linked
    rwa [hw] at hlinked
  · exact h.apart.sublist List.erase_sublist
  · exact fun d hd => h.inside d (List.mem_of_mem_erase hd)

end Inv

/-! ## Waking up -/

@[simp] theorem nextInGCQueue_threadunblock (s : State) (t : Thread) :
    (s.threadunblock t).nextInGCQueue = s.nextInGCQueue := by
  rw [State.threadunblock]
  split <;> rfl

/-- A thread without a successor is the end of the loop: `NULL` is dereferenced. -/
theorem wake_last {fuel : Nat} {t : Thread} {log : List Thread} {s : State}
    (h : s.nextInGCQueue t = none) : wake (fuel + 1) (some t) log s = some (.error .nullThread) := by
  rw [wake, nextInGCQueue_threadunblock, h]

/-- The loop clears the link of the thread that comes next, and not of the one it has unblocked, so that
it never gets beyond the second. -/
theorem wake_some {fuel : Nat} {t : Thread} {log : List Thread} {s : State}
    {r : List Thread × State} : wake fuel (some t) log s ≠ some (.ok r) := by
  intro h
  cases fuel with
  | zero => cases h
  | succ fuel =>
    cases hnext : s.nextInGCQueue t with
    | none =>
      rw [wake_last hnext] at h
      cases h
    | some t' =>
      rw [wake, nextInGCQueue_threadunblock, hnext] at h
      cases fuel with
      | zero => cases h
      | succ fuel =>
        dsimp only at h
        rw [wake_last (Function.update_self t' none s.nextInGCQueue)] at h
        cases h

/-- `freeChunk` comes back exactly if nobody waits. -/
theorem freeChunk_eq_ok {fuel : Nat} {c : Chunk} {s s' : State} {log : List Thread}
    (h : freeChunk fuel c s = some (.ok (log, s'))) :
    s.waiting = none ∧ log = [] ∧ s' = s.release c := by
  rw [freeChunk] at h
  cases hw : s.waiting with
  | some t =>
    rw [hw] at h
    exact absurd h wake_some
  | none =>
    rw [hw] at h
    cases fuel with
    | zero => cases h
    | succ fuel =>
      cases h
      exact ⟨rfl, rfl, rfl⟩

namespace Inv

variable {s : State} {c : Chunk}

theorem wakes_iff (h : Inv s) : s.Wakes c ↔ s.waiting = none := by
  constructor
  · rintro ⟨fuel, log, s', hfree, -⟩
    exact (freeChunk_eq_ok hfree).1
  · intro hw
    obtain ⟨l, hchain, -, hmem⟩ := h.linked
    rw [hw] at hchain
    obtain rfl := hchain.eq_none_iff.mp rfl
    refine ⟨1, [], s.release c, ?_, List.nodup_nil, hmem, rfl, fun t ht => absurd ht List.not_mem_nil⟩
    rw [freeChunk, hw]
    rfl

theorem sound (h : Inv s) : Sound s := ⟨h.balance, h.bounded, h.linked, fun _ _ => h.wakes_iff⟩

theorem initial {limit collectAtSizeWords : Nat} {nextInGCQueue : Thread → Option Thread}
    (hlimit : limit < 2 ^ 32) : Inv (State.initial limit collectAtSizeWords nextInGCQueue) := by
  refine ⟨rfl, Nat.zero_le _, hlimit, ⟨[], rfl, List.nodup_nil, fun t => ?_⟩, List.Pairwise.nil,
    fun c hc => absurd hc List.not_mem_nil⟩
  simp [State.Blocked, State.initial]

/-- Every step that meets the condition keeps the invariant. -/
theorem step {s' : State} (h : Inv s) (hstep : GoodStep s s') : Inv s' := by
  obtain ⟨a, hfits, hstep⟩ := hstep
  cases hstep with
  | alloc hphase hsize hblock => exact h.allocChunk hphase hblock
  | tryAlloc hphase hsize hblock => exact h.tryAllocChunk hphase hblock hfits
  | free hphase hc hfree =>
    obtain ⟨hw, -, rfl⟩ := freeChunk_eq_ok hfree
    exact h.release hc hw

end Inv

/-! ## The heaps

`GcChunked` has the heap of one of the domains, whose `freeChunk` leaves out the threads that it wakes
up. As far as the account goes, its routines and those of the principal do the same. -/

/-- The heap is paid for by the principal. -/
def Accounts (h : GcChunked.Heap) (s : State) : Prop :=
  ∃ acc, h.account = some acc ∧ acc.consumed = s.consumed ∧ acc.limit = s.limit ∧
    acc.collectAtSizeWords = s.collectAtSizeWords

section Heaps

open Exec

variable {h h' : GcChunked.Heap} {s s' : State} {t : Thread} {size start : Nat}

theorem jxmalloc_account (hrun : GcChunked.jxmalloc size h = pure (start, h')) :
    h'.account = h.account := by
  unfold GcChunked.jxmalloc at hrun
  split at hrun
  · cases hrun
  · split at hrun
    · cases hrun
      rfl
    · cases hrun

/-- The account is charged with the chunk. -/
theorem accounts_charge {acc : GcChunked.Account}
    (hrun : GcChunked.jxmalloc size h = pure (start, h')) (hacc : h.account = some acc)
    (hconsumed : acc.consumed = u4 (s.consumed + size)) (hlimit : acc.limit = s.limit)
    (hcollect : acc.collectAtSizeWords = s.collectAtSizeWords) :
    Accounts h' (s.charge t ⟨start, size⟩) :=
  ⟨acc, (jxmalloc_account hrun).trans hacc, hconsumed, hlimit, hcollect⟩

theorem Accounts.freeChunk {c : Chunk} {fuel : Nat} {log : List Thread} (hs : Accounts h s)
    (hheap : GcChunked.freeChunk c.start c.size h = pure h')
    (hfree : GcChunkedAccount.freeChunk fuel c s = some (.ok (log, s'))) : Accounts h' s' := by
  obtain ⟨acc, hacc, hconsumed, hlimit, hcollect⟩ := hs
  obtain ⟨-, -, rfl⟩ := freeChunk_eq_ok hfree
  obtain ⟨g, hjxfree, hheap⟩ := bind_eq_pure hheap
  obtain rfl := eq_of_pure_eq hheap
  have hsame : g.account = h.account := by
    unfold GcChunked.jxfree at hjxfree
    split at hjxfree
    · cases hjxfree
      rfl
    · cases hjxfree
  refine ⟨{ acc with consumed := u4 (acc.consumed + 2 ^ 32 - u4 c.size) }, ?_, ?_, hlimit, hcollect⟩
  · show g.account.map _ = _
    rw [hsame, hacc]
    rfl
  · show u4 (acc.consumed + 2 ^ 32 - u4 c.size) = u4 (2 ^ 32 + s.consumed - u4 c.size)
    rw [hconsumed, Nat.add_comm]

theorem Accounts.tryAllocChunk {chunk : Option Nat} (hs : Accounts h s)
    (hheap : GcChunked.tryAllocChunk size h = pure (chunk, h')) :
    ∃ start, Accounts h' (s.tryAllocChunk t size start) ∧
      chunk = if s.reduced < u4 (s.consumed + size) then none else some start := by
  obtain ⟨acc, hacc, hconsumed, hlimit, hcollect⟩ := hs
  have hreduced : acc.reduced = s.reduced := by
    unfold GcChunked.Account.reduced State.reduced State.reserve
    rw [hlimit, hcollect, Nat.add_comm]
  unfold GcChunked.tryAllocChunk at hheap
  simp only [hacc, hreduced, hconsumed] at hheap
  unfold State.tryAllocChunk
  by_cases hover : s.reduced < u4 (s.consumed + size)
  · rw [if_pos hover] at hheap
    obtain ⟨rfl, rfl⟩ := Prod.mk.inj (eq_of_pure_eq hheap)
    simp only [if_pos hover]
    exact ⟨0, ⟨acc, hacc, hconsumed, hlimit, hcollect⟩, trivial⟩
  · rw [if_neg hover, map_eq_pure_bind] at hheap
    obtain ⟨⟨start, g⟩, hmalloc, hheap⟩ := bind_eq_pure hheap
    obtain ⟨rfl, rfl⟩ := Prod.mk.inj (eq_of_pure_eq hheap)
    simp only [if_neg hover]
    exact ⟨start, accounts_charge hmalloc rfl rfl hlimit hcollect, rfl⟩

/-- There is room at once, and the thread does not wait. -/
theorem Accounts.allocChunk (hs : Accounts h s) (hroom : ¬ s.limit < u4 (s.consumed + size))
    (hheap : GcChunked.allocChunk size h = pure (start, h')) :
    Accounts h' (s.allocChunk t size start) := by
  obtain ⟨acc, hacc, hconsumed, hlimit, hcollect⟩ := hs
  have hfits : ¬ u4 (s.consumed + size) > acc.limit := by
    rw [hlimit]
    exact hroom
  unfold GcChunked.allocChunk at hheap
  simp only [hacc, hconsumed] at hheap
  unfold GcChunked.Account.wait at hheap
  rw [if_neg hfits, pure_bind] at hheap
  unfold State.allocChunk
  rw [if_neg hroom]
  exact accounts_charge hheap rfl rfl hlimit hcollect

end Heaps

/-! ## Runs -/

/-- **The account is right in every run that gives nothing back while a thread waits, and whose reserve
never exceeds the limit where that matters.** Giving a chunk back wakes everybody up exactly if nobody
waits. -/
theorem chunks_sound_of_run {limit collectAtSizeWords : Nat} {nextInGCQueue : Thread → Option Thread}
    {s : State} (hlimit : limit < 2 ^ 32)
    (hrun : Relation.ReflTransGen GoodStep
      (State.initial limit collectAtSizeWords nextInGCQueue) s) : Sound s := by
  have hinv := invariant_of_run (I := Inv) (fun _ _ hs hstep => hs.step hstep) hrun
    (Inv.initial hlimit)
  exact hinv.sound

/-- A thread takes a chunk, and a second one has to wait. -/
def twoThreads : State :=
  ((State.initial 1000 0 fun _ => none).allocChunk 1 100 0x1000).allocChunk 2 950 0

theorem twoThreads_run :
    Relation.ReflTransGen GoodStep (State.initial 1000 0 fun _ => none) twoThreads := by
  refine .tail (.single ⟨.alloc 1 100, trivial, .alloc (Or.inl rfl) (by decide) fun _ => ?_⟩)
    ⟨.alloc 2 950, trivial, .alloc (Or.inl rfl) (by decide) fun h => absurd ?_ h⟩
  · exact ⟨by decide, by decide, fun d hd => absurd hd List.not_mem_nil⟩
  · decide

theorem sound_twoThreads : Sound twoThreads := chunks_sound_of_run (by decide) twoThreads_run

/-- With a waiting thread the next `freeChunk` dereferences `NULL`; and a reserve above the limit lets
`tryAllocChunk` take more than the limit. -/
theorem not_wakes_twoThreads : (⟨0x1000, 100⟩ ∈ twoThreads.live ∧ ¬ twoThreads.Wakes ⟨0x1000, 100⟩ ∧
    freeChunk 1 ⟨0x1000, 100⟩ twoThreads = some (.error .nullThread)) ∧
    ∃ s, Step (State.initial 100 100 fun _ => none) (.tryAlloc 1 200) s ∧ s.limit < s.consumed := by
  refine ⟨⟨by decide, ?_, wake_last rfl⟩, (State.initial 100 100 fun _ => none).tryAllocChunk 1 200 0x1000,
    .tryAlloc rfl (by decide) fun _ => ?_, by decide⟩
  · rintro ⟨fuel, log, s', hfree, -⟩
    cases (freeChunk_eq_ok hfree).1
  · exact ⟨by decide, by decide, fun d hd => absurd hd List.not_mem_nil⟩

end JxCore.GcChunkedAccount
