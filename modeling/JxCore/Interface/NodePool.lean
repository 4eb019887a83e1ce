import JxCore.Interface.RegionInvariant
import JxCore.Lib.LinkedQueue
import Mathlib.Tactic.SplitIfs

/-!
# The supply of nodes (`Interface/zero_Memory_org.c`)

The free nodes of the table `dzMemory` are threaded through `next`. `dzmemory_alloc` takes the first
of them; if there is none, it has the domains collected, because the death of memory objects gives
nodes back. If that gives nothing either, it does not tell its caller but starts again.

What a collection does is left open here as far as the free nodes are concerned: it changes nodes in
use and gives some of them back by `dzmemory_free`. The collections of one pass over the domains may
differ from those of the next. No other thread runs between the two accesses to the head of the list.
-/

namespace JxCore.NodePool

open Lib Exec
open Region (DZMemoryProxy)

/-! ## State -/

structure Pool where
  dz : Nat → DZMemoryProxy
  dzMemoryFreeList : Option Nat

/-- An active domain, as far as the collector looks at it. -/
structure DomainDesc where
  id : Nat
  /-- `domain->gc.gcThread`, if there is one. -/
  gcThread : Option Nat
  deriving DecidableEq, Repr

/-- `cas` on the head of the free list. -/
def Pool.cas (p : Pool) (old new : Option Nat) : Bool × Pool :=
  if p.dzMemoryFreeList = old then (true, { p with dzMemoryFreeList := new }) else (false, p)

def Pool.set (p : Pool) (n : Nat) (f : DZMemoryProxy → DZMemoryProxy) : Pool :=
  { p with dz := Function.update p.dz n (f (p.dz n)) }

def dzmemoryFree (n : Nat) (p : Pool) : Exec Pool := do
  assert ((p.dz n).refcount = 0) "dzm->refcount == 0"
  let p := p.set n fun m => { m with valid := 2, next := p.dzMemoryFreeList }
  return { p with dzMemoryFreeList := some n }

/-! ## The collector -/

section Collector

-- What the thread of a domain does when it collects the domain's heap.
variable (gc : DomainDesc → Pool → Pool)

def dzmemoryGcdomain (p : Pool) (domain : DomainDesc) : Exec Pool :=
  if domain.id = 0 then pure p
  else if domain.id = 1 then pure p
  else if (p.dzMemoryFreeList.bind fun n => (p.dz n).next).isSome then pure p
  else if domain.gcThread = none then throw (.panic "GC but no GC thread available")
  else pure (gc domain p)

/-- `dzmemory_collector` over the active domains: it takes the first free node itself. -/
def dzmemoryCollector (domains : List DomainDesc) (p : Pool) : Exec (Option Nat × Pool) := do
  let p ← domains.foldlM (dzmemoryGcdomain gc) p
  match p.dzMemoryFreeList with
  | none => return (none, p)
  | some dzm => do
    let p := { p with dzMemoryFreeList := (p.dz dzm).next }
    assert (some dzm ≠ p.dzMemoryFreeList) "dzm != dzMemoryFreeList"
    assert ((p.dz dzm).refcount = 0) "dzm->refcount == 0"
    assert ((p.dz dzm).mem = 0) "dzm->mem == 0"
    return (some dzm, p)

end Collector

/-! ## Allocation -/

section Alloc

variable (gc : Nat → DomainDesc → Pool → Pool) (domains : List DomainDesc)

/-- `leaf_alloc:` -/
def leafAlloc (dzm : Nat) (p : Pool) : Nat × Pool :=
  (dzm, p.set dzm fun m => { m with valid := 0, next := none, refcount := 1 })

/-- `dzmemory_alloc`; `pass` counts the calls of the collector. -/
def dzmemoryAlloc : (fuel pass : Nat) → Pool → Exec (Nat × Pool)
  | 0, _, _ => loop none
  | fuel + 1, pass, p =>
    match p.dzMemoryFreeList with
    | some dzm =>
      match p.cas (some dzm) (p.dz dzm).next with
      | (true, p) => pure (leafAlloc dzm p)
      | (false, p) => dzmemoryAlloc fuel pass p
    | none => do
      match ← dzmemoryCollector (gc pass) domains p with
      | (some dzm, p) => pure (leafAlloc dzm p)
      | (none, p) => dzmemoryAlloc fuel (pass + 1) p

/-- The pool after `n` passes over the domains, the first of them with number `pass`. -/
def passes (pass : Nat) : (n : Nat) → Pool → Exec Pool
  | 0, p => pure p
  | n + 1, p => domains.foldlM (dzmemoryGcdomain (gc pass)) p >>= passes (pass + 1) n

end Alloc

/-! ## The free nodes -/

/-- `l` are the free nodes, from the head of the list on. -/
structure FreeList (p : Pool) (l : List Nat) : Prop where
  chain : Chain (fun n => (p.dz n).next) p.dzMemoryFreeList l
  nodup : l.Nodup
  clean : ∀ n ∈ l, (p.dz n).refcount = 0 ∧ (p.dz n).mem = 0

/-- A collection, step by step: a node in use gets other fields, or is given back. -/
inductive Collects (p : Pool) : Pool → Prop where
  | refl : Collects p p
  | write {q : Pool} (n : Nat) (m : DZMemoryProxy) : Collects p q → (∀ l, FreeList q l → n ∉ l) →
      Collects p (q.set n fun _ => m)
  | free {q r : Pool} (n : Nat) : Collects p q → (∀ l, FreeList q l → n ∉ l) → (q.dz n).mem = 0 →
      dzmemoryFree n q = pure r → Collects p r

section FreeList

variable {p q : Pool} {l : List Nat} {n : Nat}

theorem FreeList.head (h : FreeList p l) : p.dzMemoryFreeList = l.head? := by
  cases l with
  | nil => exact h.chain
  | cons a l => exact h.chain.1

/-- Nodes in use may change. -/
theorem FreeList.congr (h : FreeList p l) (hhead : q.dzMemoryFreeList = p.dzMemoryFreeList)
    (hdz : ∀ n ∈ l, q.dz n = p.dz n) : FreeList q l where
  chain := by
    rw [hhead]
    refine h.chain.congr fun n hn => ?_
    simp only [hdz n hn]
  nodup := h.nodup
  clean n hn := by
    rw [hdz n hn]
    exact h.clean n hn

theorem FreeList.set (h : FreeList p l) (hn : n ∉ l) (f : DZMemoryProxy → DZMemoryProxy) :
    FreeList (p.set n f) l := by
  refine h.congr rfl fun m hm => ?_
  have hmn : m ≠ n := fun heq => hn (heq ▸ hm)
  exact Function.update_of_ne hmn _ _

/-- The rest is left when the first node is taken off. -/
theorem FreeList.tail (h : FreeList p (n :: l)) :
    FreeList { p with dzMemoryFreeList := (p.dz n).next } l where
  chain := h.chain.2
  nodup := (List.nodup_cons.mp h.nodup).2
  clean m hm := h.clean m (List.mem_cons_of_mem n hm)

/-- A node in use that is given back comes first. -/
theorem FreeList.free (h : FreeList p l) (hn : n ∉ l) (hmem : (p.dz n).mem = 0)
    (hrun : dzmemoryFree n p = pure q) : FreeList q (n :: l) := by
  obtain ⟨_, hassert, hrun⟩ := bind_eq_pure hrun
  obtain rfl := eq_of_pure_eq hrun
  have hcount : (p.dz n).refcount = 0 := by
    by_contra hne
    rw [assert, if_neg hne] at hassert
    cases hassert
  have hset := h.set hn fun m => { m with valid := 2, next := p.dzMemoryFreeList }
  refine ⟨⟨rfl, ?_⟩, List.nodup_cons.mpr ⟨hn, h.nodup⟩, List.forall_mem_cons.mpr ⟨?_, hset.clean⟩⟩
  · show Chain _ (Function.update p.dz n _ n).next l
    rw [Function.update_self]
    exact hset.chain
  · simp only [Pool.set, Function.update_self]
    exact ⟨hcount, hmem⟩

/-- A collection leaves every free node where it is, and puts those that it gives back in front. -/
theorem FreeList.collects (h : FreeList p l) (hgc : Collects p q) : ∃ new, FreeList q (new ++ l) := by
  induction hgc with
  | refl => exact ⟨[], h⟩
  | write n m _ huse ih =>
    obtain ⟨new, hq⟩ := ih
    exact ⟨new, hq.set (huse _ hq) _⟩
  | free n _ huse hmem hrun ih =>
    obtain ⟨new, hq⟩ := ih
    exact ⟨n :: new, hq.free (huse _ hq) hmem hrun⟩

end FreeList

/-! ## Passes over the domains -/

section Passes

variable {gc : DomainDesc → Pool → Pool} {domains : List DomainDesc} {p q : Pool} {l : List Nat}

theorem dzmemoryGcdomain_cases {domain : DomainDesc} (hrun : dzmemoryGcdomain gc p domain = pure q) :
    q = p ∨ q = gc domain p := by
  unfold dzmemoryGcdomain at hrun
  split_ifs at hrun
  · exact .inl (eq_of_pure_eq hrun).symm
  · exact .inl (eq_of_pure_eq hrun).symm
  · exact .inl (eq_of_pure_eq hrun).symm
  · cases hrun
  · exact .inr (eq_of_pure_eq hrun).symm

theorem dzmemoryGcdomain_ne_none (gc : DomainDesc → Pool → Pool) (p : Pool) (domain : DomainDesc) :
    dzmemoryGcdomain gc p domain ≠ none := by
  unfold dzmemoryGcdomain
  split_ifs <;> first | exact pure_ne_none | exact throw_ne_none

/-- A pass comes to an end. -/
theorem pass_ne_none (gc : DomainDesc → Pool → Pool) (domains : List DomainDesc) (p : Pool) :
    domains.foldlM (dzmemoryGcdomain gc) p ≠ none := by
  induction domains generalizing p with
  | nil => exact pure_ne_none
  | cons d domains ih =>
    rw [List.foldlM_cons]
    exact bind_ne_none (dzmemoryGcdomain_ne_none gc p d) fun q _ => ih q

theorem FreeList.pass (h : FreeList p l) (hgc : ∀ d q, Collects q (gc d q))
    (hrun : domains.foldlM (dzmemoryGcdomain gc) p = pure q) : ∃ new, FreeList q (new ++ l) := by
  induction domains generalizing p l with
  | nil =>
    obtain rfl := eq_of_pure_eq hrun
    exact ⟨[], h⟩
  | cons d domains ih =>
    rw [List.foldlM_cons] at hrun
    obtain ⟨r, hone, hrest⟩ := bind_eq_pure hrun
    have hr : ∃ new, FreeList r (new ++ l) := by
      rcases dzmemoryGcdomain_cases hone with rfl | rfl
      · exact ⟨[], h⟩
      · exact h.collects (hgc d p)
    obtain ⟨new, hr⟩ := hr
    obtain ⟨new', hq⟩ := ih hr hrest
    exact ⟨new' ++ new, by rwa [List.append_assoc]⟩

end Passes

section Alloc

variable {gc : Nat → DomainDesc → Pool → Pool} {domains : List DomainDesc} {p q : Pool}
  {l : List Nat} {pass : Nat}

theorem passes_ne_none (n pass : Nat) (p : Pool) : passes gc domains pass n p ≠ none := by
  induction n generalizing pass p with
  | zero => exact pure_ne_none
  | succ n ih => exact bind_ne_none (pass_ne_none _ _ p) fun q _ => ih _ q

/-- After a pass with a free node, the collector takes the first one. -/
theorem dzmemoryCollector_some {gc : DomainDesc → Pool → Pool} {n : Nat}
    (hrun : domains.foldlM (dzmemoryGcdomain gc) p = pure q) (hq : FreeList q (n :: l)) :
    dzmemoryCollector gc domains p =
      pure (some n, { q with dzMemoryFreeList := (q.dz n).next }) := by
  have hne : some n ≠ (q.dz n).next := by
    have hhead : (q.dz n).next = l.head? := hq.tail.head
    rw [hhead]
    intro heq
    exact (List.nodup_cons.mp hq.nodup).1 (List.mem_of_head? heq.symm)
  obtain ⟨hcount, hmem⟩ := hq.clean n (List.mem_cons_self ..)
  simp only [dzmemoryCollector, hrun, pure_bind, hq.head, List.head?_cons, assert_pos hne,
    assert_pos hcount, assert_pos hmem]

theorem dzmemoryCollector_none {gc : DomainDesc → Pool → Pool}
    (hrun : domains.foldlM (dzmemoryGcdomain gc) p = pure q) (hq : FreeList q []) :
    dzmemoryCollector gc domains p = pure (none, q) := by
  simp only [dzmemoryCollector, hrun, pure_bind, hq.head, List.head?_nil]

/-- With a free node, allocation takes the first one. -/
theorem dzmemoryAlloc_cons {n fuel : Nat} (h : FreeList p (n :: l)) :
    dzmemoryAlloc gc domains (fuel + 1) pass p =
      pure (leafAlloc n { p with dzMemoryFreeList := (p.dz n).next }) := by
  have hhead : p.dzMemoryFreeList = some n := h.head
  simp only [dzmemoryAlloc, hhead, Pool.cas, if_true]

/-- Without one, it is the collector that takes the node, or there is another round. -/
theorem dzmemoryAlloc_nil {fuel : Nat} (h : FreeList p [])
    (hrun : domains.foldlM (dzmemoryGcdomain (gc pass)) p = pure q) (hq : FreeList q l) :
    dzmemoryAlloc gc domains (fuel + 1) pass p =
      dzmemoryAlloc gc domains (if l = [] then fuel else fuel + 1) (pass + 1) q := by
  have hhead : p.dzMemoryFreeList = none := h.head
  cases l with
  | nil => simp only [dzmemoryAlloc, hhead, dzmemoryCollector_none hrun hq, pure_bind, if_true]
  | cons n l =>
    rw [if_neg (List.cons_ne_nil n l), dzmemoryAlloc_cons hq]
    simp only [dzmemoryAlloc, hhead, dzmemoryCollector_some hrun hq, pure_bind]

end Alloc

/-! ## What is supplied -/

/-- The node has been taken off the free nodes of `p`, with all others left where they are. -/
def Taken (p : Pool) (r : Nat × Pool) : Prop :=
  ∃ rest, FreeList p (r.1 :: rest) ∧ FreeList r.2 rest ∧ (r.2.dz r.1).refcount = 1 ∧
    (r.2.dz r.1).valid = 0 ∧ (r.2.dz r.1).next = none ∧ ∀ m, m ≠ r.1 → r.2.dz m = p.dz m

theorem FreeList.leafAlloc {p : Pool} {n : Nat} {rest : List Nat} (h : FreeList p (n :: rest)) :
    FreeList (leafAlloc n { p with dzMemoryFreeList := (p.dz n).next }).2 rest :=
  h.tail.set (List.nodup_cons.mp h.nodup).1 fun m => { m with valid := 0, next := none, refcount := 1 }

theorem taken_leafAlloc {p : Pool} {n : Nat} {rest : List Nat} (h : FreeList p (n :: rest)) :
    Taken p (leafAlloc n { p with dzMemoryFreeList := (p.dz n).next }) := by
  refine ⟨rest, h, h.leafAlloc, ?_, ?_, ?_, fun m hm => Function.update_of_ne hm _ _⟩
  all_goals simp only [NodePool.leafAlloc, Pool.set, Function.update_self]

section Supply

variable (gc : Nat → DomainDesc → Pool → Pool) (domains : List DomainDesc)

/-- The node has been free, or was so after the first passes that gave something back. -/
def Supplied (pass : Nat) (p : Pool) (r : Nat × Pool) : Prop :=
  ∃ k q, passes gc domains pass k p = pure q ∧ Taken q r ∧
    ∀ j < k, ∀ q', passes gc domains pass j p = pure q' → q'.dzMemoryFreeList = none

variable {gc domains} {p q : Pool} {l : List Nat} {pass : Nat} {r : Nat × Pool}

theorem Supplied.of_taken (h : Taken p r) : Supplied gc domains pass p r :=
  ⟨0, p, rfl, h, fun _ hj => absurd hj (Nat.not_lt_zero _)⟩

/-- One more pass comes before. -/
theorem Supplied.of_pass (hnone : p.dzMemoryFreeList = none)
    (hrun : domains.foldlM (dzmemoryGcdomain (gc pass)) p = pure q)
    (h : Supplied gc domains (pass + 1) q r) : Supplied gc domains pass p r := by
  obtain ⟨k, q', hpasses, htaken, hfirst⟩ := h
  refine ⟨k + 1, q', by rw [passes, hrun, pure_bind, hpasses], htaken, fun j hj u hu => ?_⟩
  cases j with
  | zero =>
    obtain rfl := eq_of_pure_eq hu
    exact hnone
  | succ j =>
    rw [passes, hrun, pure_bind] at hu
    exact hfirst j (Nat.lt_of_succ_lt_succ hj) u hu

theorem supplied_of_eq (hgc : ∀ k d q, Collects q (gc k d q)) {fuel : Nat} (h : FreeList p l)
    (hrun : dzmemoryAlloc gc domains fuel pass p = pure r) : Supplied gc domains pass p r := by
  induction fuel generalizing pass p l with
  | zero => cases hrun
  | succ fuel ih =>
    cases l with
    | cons n l =>
      rw [dzmemoryAlloc_cons h] at hrun
      obtain rfl := eq_of_pure_eq hrun
      exact .of_taken (taken_leafAlloc h)
    | nil =>
      -- whatever follows, the pass over the domains has come back
      have hpass : ∃ q, domains.foldlM (dzmemoryGcdomain (gc pass)) p = pure q := by
        simp only [dzmemoryAlloc, h.head, List.head?_nil, dzmemoryCollector, bind_assoc] at hrun
        obtain ⟨q, hq, -⟩ := bind_eq_pure hrun
        exact ⟨q, hq⟩
      obtain ⟨q, hq⟩ := hpass
      obtain ⟨new, hfree⟩ := h.pass (hgc pass) hq
      rw [List.append_nil] at hfree
      rw [dzmemoryAlloc_nil h hq hfree] at hrun
      refine .of_pass h.head hq ?_
      cases new with
      | nil => exact ih hfree hrun
      | cons n new =>
        rw [if_neg (List.cons_ne_nil n new), dzmemoryAlloc_cons hfree] at hrun
        obtain rfl := eq_of_pure_eq hrun
        exact .of_taken (taken_leafAlloc hfree)

theorem returns_of_cons {n : Nat} (h : FreeList p (n :: l)) :
    Returns (fun fuel => dzmemoryAlloc gc domains fuel pass p)
      (leafAlloc n { p with dzMemoryFreeList := (p.dz n).next }) :=
  (returns_succ_iff fun _ => dzmemoryAlloc_cons h).mpr (.pure _)

theorem returns_of_nil (h : FreeList p [])
    (hrun : domains.foldlM (dzmemoryGcdomain (gc pass)) p = pure q) (hq : FreeList q l)
    (hr : Returns (fun fuel => dzmemoryAlloc gc domains fuel (pass + 1) q) r) :
    Returns (fun fuel => dzmemoryAlloc gc domains fuel pass p) r := by
  obtain ⟨n, hn⟩ := hr
  refine ⟨n + 1, fun fuel hfuel => ?_⟩
  obtain ⟨fuel, rfl⟩ := Nat.exists_eq_succ_of_ne_zero (Nat.ne_zero_of_lt hfuel)
  refine (dzmemoryAlloc_nil h hrun hq).trans (hn _ ?_)
  have hle : n ≤ fuel := Nat.le_of_succ_le_succ hfuel
  split_ifs
  · exact hle
  · exact Nat.le_succ_of_le hle

theorem returns_of_passes (hgc : ∀ k d q, Collects q (gc k d q)) {k : Nat} (h : FreeList p l)
    (hpasses : passes gc domains pass k p = pure q) (hsome : q.dzMemoryFreeList ≠ none) :
    ∃ r, Returns (fun fuel => dzmemoryAlloc gc domains fuel pass p) r := by
  induction k generalizing pass p l with
  | zero =>
    obtain rfl := eq_of_pure_eq hpasses
    cases l with
    | nil => exact absurd h.head hsome
    | cons n l => exact ⟨_, returns_of_cons h⟩
  | succ k ih =>
    cases l with
    | cons n l => exact ⟨_, returns_of_cons h⟩
    | nil =>
      obtain ⟨u, hu, hrest⟩ := bind_eq_pure hpasses
      obtain ⟨new, hfree⟩ := h.pass (hgc pass) hu
      obtain ⟨r, hr⟩ := ih hfree hrest
      exact ⟨r, returns_of_nil h hu hfree hr⟩

/-- `dzmemory_alloc` comes back exactly when some node is free or becomes free in one of the passes
over the domains, and then it hands out the first free node and leaves the others on the list. -/
theorem dzmemoryAlloc_iff (hgc : ∀ k d q, Collects q (gc k d q)) (h : FreeList p l) :
    ((∃ r, Returns (fun fuel => dzmemoryAlloc gc domains fuel 0 p) r) ↔
        ∃ k q, passes gc domains 0 k p = pure q ∧ q.dzMemoryFreeList ≠ none) ∧
      ∀ r, Returns (fun fuel => dzmemoryAlloc gc domains fuel 0 p) r → Supplied gc domains 0 p r := by
  have hsupplied : ∀ r, Returns (fun fuel => dzmemoryAlloc gc domains fuel 0 p) r →
      Supplied gc domains 0 p r := by
    rintro r ⟨n, hn⟩
    exact supplied_of_eq hgc h (hn n (Nat.le_refl n))
  refine ⟨⟨?_, ?_⟩, hsupplied⟩
  · rintro ⟨r, hr⟩
    obtain ⟨k, q, hpasses, ⟨rest, hq, -⟩, -⟩ := hsupplied r hr
    refine ⟨k, q, hpasses, ?_⟩
    rw [hq.head]
    exact Option.some_ne_none r.1
  · rintro ⟨k, q, hpasses, hsome⟩
    exact returns_of_passes hgc h hpasses hsome

end Supply

/-- A table with two free nodes. -/
def twoFree : Pool where
  dz n := { refcount := if n < 2 then 0 else 1, valid := if n < 2 then 2 else 1, mem := 0, size := 0,
            prev := none, next := if n = 1 then some 0 else none, prevOwner := 0, nextOwner := 0 }
  dzMemoryFreeList := some 1

theorem dzmemoryAlloc_twoFree : ∃ r, Returns (fun fuel => dzmemoryAlloc (fun _ _ q => q) [] fuel 0
    twoFree) r ∧ Supplied (fun _ _ q => q) [] 0 twoFree r := by
  have h : FreeList twoFree [1, 0] := ⟨⟨rfl, rfl, rfl⟩, by decide, by decide⟩
  have hiff := @dzmemoryAlloc_iff (fun _ _ q => q) [] _ _ (fun _ _ _ => .refl) h
  obtain ⟨r, hr⟩ := hiff.1.mpr ⟨0, twoFree, rfl, Option.some_ne_none 1⟩
  exact ⟨r, hr, hiff.2 r hr⟩

/-- While no pass gives anything back, allocation goes on with the next one. -/
theorem dzmemoryAlloc_running {gc : Nat → DomainDesc → Pool → Pool} {domains : List DomainDesc}
    {p : Pool} (h : FreeList p [])
    (hgc : ∀ k, domains.foldlM (dzmemoryGcdomain (gc k)) p = pure p) (fuel pass : Nat) :
    dzmemoryAlloc gc domains fuel pass p = none := by
  induction fuel generalizing pass with
  | zero => rfl
  | succ fuel ih =>
    rw [dzmemoryAlloc_nil h (hgc pass) h, if_pos rfl]
    exact ih (pass + 1)

/-- Every node is in use. -/
def noneFree : Pool where
  dz _ := { refcount := 1, valid := 1, mem := 0, size := 0, prev := none, next := none,
            prevOwner := 0, nextOwner := 0 }
  dzMemoryFreeList := none

/-- With every node in use and nothing to collect, allocation neither returns nor reports a failure. -/
theorem not_returns_noneFree : ¬ ∀ (gc : Nat → DomainDesc → Pool → Pool) (domains : List DomainDesc)
    (p : Pool) (l : List Nat), (∀ k d q, Collects q (gc k d q)) → FreeList p l →
    ∃ r, Returns (fun fuel => dzmemoryAlloc gc domains fuel 0 p) r := by
  intro h
  have hfree : FreeList noneFree [] := ⟨rfl, List.nodup_nil, by decide⟩
  obtain ⟨r, n, hn⟩ := h (fun _ _ q => q) [⟨2, some 7⟩] noneFree [] (fun _ _ _ => .refl) hfree
  have hrunning := @dzmemoryAlloc_running (fun _ _ q => q) [⟨2, some 7⟩] _ hfree
    (fun _ => rfl) n 0
  exact pure_ne_none ((hn n (Nat.le_refl n)).symm.trans hrunning)

/-! ## The free list as a list

The memory objects (`Region`) see the free list as a list of nodes. -/

/-- The pool is the table of `s` with its free nodes threaded. -/
structure Represents (p : Pool) (s : Region.Sys) : Prop where
  free : FreeList p s.dzMemoryFreeList
  used : ∀ n, n ∉ s.dzMemoryFreeList → p.dz n = s.dz n

/-- `createDZMemory` after `dzmemory_alloc` has come back. -/
def createDZMemory (size mem : Nat) (r : Nat × Pool) : Nat × Pool :=
  (r.1, r.2.set r.1 fun m => { m with
    size, mem, valid := 1, prev := none, next := none, prevOwner := 0, nextOwner := 0 })

theorem FreeList.createDZMemory {size mem : Nat} {r : Nat × Pool} {l : List Nat} (h : FreeList r.2 l)
    (hn : r.1 ∉ l) : FreeList (createDZMemory size mem r).2 l :=
  h.set hn fun m => { m with
    size, mem, valid := 1, prev := none, next := none, prevOwner := 0, nextOwner := 0 }

theorem Represents.createDZMemory {gc : Nat → DomainDesc → Pool → Pool} {domains : List DomainDesc}
    {p : Pool} {s t : Region.Sys} {size mem n pass : Nat} (h : Represents p s)
    (hrun : Region.createDZMemory size mem s = .ok (n, t)) :
    ∃ r, Returns (fun fuel => dzmemoryAlloc gc domains fuel pass p) r ∧
      (NodePool.createDZMemory size mem r).1 = n ∧
      Represents (NodePool.createDZMemory size mem r).2 t := by
  unfold Region.createDZMemory at hrun
  cases hfree : s.dzMemoryFreeList with
  | nil =>
    rw [hfree] at hrun
    cases hrun
  | cons a rest =>
    rw [hfree] at hrun
    cases hrun
    have hlist : FreeList p (n :: rest) := hfree ▸ h.free
    have hn : n ∉ rest := (List.nodup_cons.mp hlist.nodup).1
    refine ⟨_, returns_of_cons hlist, rfl, ?_, fun m hm => ?_⟩
    · exact hlist.leafAlloc.createDZMemory hn
    by_cases hmn : m = n
    · subst hmn
      simp only [NodePool.createDZMemory, leafAlloc, Pool.set, Function.update_self]
    · have hused : p.dz m = s.dz m := by
        apply h.used
        rw [hfree, List.mem_cons, not_or]
        exact ⟨hmn, hm⟩
      simp only [NodePool.createDZMemory, leafAlloc, Pool.set, Function.update_of_ne hmn, hused]

theorem Represents.dzmemoryFree {p : Pool} {s t : Region.Sys} {n : Nat} (h : Represents p s)
    (hn : n ∉ s.dzMemoryFreeList) (hmem : (s.dz n).mem = 0)
    (hrun : Region.dzmemoryFree n s = .ok t) :
    ∃ q, NodePool.dzmemoryFree n p = pure q ∧ Represents q t := by
  have hsame := h.used n hn
  obtain ⟨_, hassert, hrun⟩ := bind_eq_ok.mp hrun
  obtain rfl := pure_eq_ok.mp hrun
  have hcount : (s.dz n).refcount = 0 := by
    by_contra hne
    rw [Region.assert, if_neg hne] at hassert
    cases hassert
  have hfree : ∃ q, NodePool.dzmemoryFree n p = pure q ∧ ∀ m, m ≠ n → q.dz m = p.dz m := by
    unfold NodePool.dzmemoryFree
    rw [hsame, assert_pos hcount, pure_bind]
    exact ⟨_, rfl, fun m hm => Function.update_of_ne hm _ _⟩
  obtain ⟨q, hfree, hothers⟩ := hfree
  refine ⟨q, hfree, h.free.free hn (hsame ▸ hmem) hfree, fun m hm => ?_⟩
  obtain ⟨hmn, hml⟩ := not_or.mp (List.mem_cons.not.mp hm)
  rw [hothers m hmn, h.used m hml]
  exact (Function.update_of_ne hmn _ _).symm

/-- The loop of `dzmemory_init`: every node is put in front of those before it. -/
def initPool (number : Nat) : Pool where
  dz n := { refcount := 0, valid := 2, mem := 0, size := 0, prev := none,
            next := if n = 0 ∨ number ≤ n then none else some (n - 1), prevOwner := 0, nextOwner := 0 }
  dzMemoryFreeList := if number = 0 then none else some (number - 1)

theorem chain_countdown {number k : Nat} (hk : k ≤ number) :
    Chain (fun n => ((initPool number).dz n).next) (if k = 0 then none else some (k - 1))
      (Region.countdown k) := by
  induction k with
  | zero => rfl
  | succ k ih =>
    have hnext : ((initPool number).dz k).next = if k = 0 then none else some (k - 1) := by
      have hin : ¬ number ≤ k := Nat.not_le.mpr hk
      simp only [initPool, hin, or_false]
    refine ⟨rfl, ?_⟩
    simp only [hnext]
    exact ih (Nat.le_of_succ_le hk)

theorem initPool_freeList (number : Nat) : FreeList (initPool number) (Region.countdown number) where
  chain := chain_countdown (Nat.le_refl number)
  nodup := Region.nodup_countdown number
  clean _ _ := ⟨rfl, rfl⟩

/-- `dzmemory_init` ends with the allocation of `dzInvalid`. -/
theorem represents_init {gc : Nat → DomainDesc → Pool → Pool} {domains : List DomainDesc}
    (number : Nat) : ∃ r, Returns (fun fuel => dzmemoryAlloc gc domains fuel 0 (initPool (number + 1))) r ∧
      r.1 = number ∧ Represents r.2 (Region.init (number + 1)) := by
  have hfree := initPool_freeList (number + 1)
  refine ⟨_, returns_of_cons hfree, rfl, hfree.leafAlloc, fun m hm => ?_⟩
  have hle : number ≤ m := Nat.not_lt.mp fun hlt => hm (Region.mem_countdown.mpr hlt)
  by_cases hmn : m = number
  · subst hmn
    simp [leafAlloc, Pool.set, initPool, Region.init]
  · have hlast : m = 0 ∨ number + 1 ≤ m := Or.inr (by omega)
    have hother : ¬ m + 1 = number + 1 := by omega
    refine (Function.update_of_ne hmn _ _).trans ?_
    simp only [initPool, Region.init, if_pos hlast, if_neg hother]

end JxCore.NodePool
