import JxCore.Core.DomainTable
import JxCore.Core.MallocCode
import Mathlib.Tactic.Push
import Mathlib.Tactic.SplitIfs

/-!
# Creating a domain (`core/domain.c`, `Memory/gc.c`)

`createDomain` takes a slot of the domain table, scratch memory and the first fragment of the code area,
one after the other, and then initialises the heap. There the number of the collector is looked at, and
one that is not built into the kernel raises an exception, which leaves `createDomain` for a handler of
the caller. Nothing is given back on this way.

The slot comes from `DomainTable`, the memory from `Malloc` and `MallocCode`. The collectors' own routines
are given by what they do to the allocator. A failure keeps the state it leaves, so an exception is a
result here.
-/

namespace JxCore.CreateDomain

open Exec DomainTable Malloc MallocCode

/-! ## The routines -/

/-- The arguments of `createDomain`. -/
structure Args where
  domainName : List Char
  gcinfo0 : Nat
  gcinfo1 : Nat
  gcinfo2 : Nat
  gcinfo3 : List Char
  gcinfo4 : Nat
  codeBytes : Nat
  gcImpl : Int

/-- The domain table, the block allocator with the memory that is in use, and whether interrupts are
enabled. -/
structure State where
  table : Table
  world : World
  irq : Bool

inductive Result where
  | created (d : Nat)
  /-- `NULL`. -/
  | null
  /-- `exceptionHandlerMsg`. -/
  | raised (e : Throw) (msg : String)
  deriving DecidableEq

/-- `gc_new_init` and `gc_chunked_init`. -/
structure Collectors where
  newInit : (heapBytes : Nat) → World → Exec World
  chunkedInit : (initialHeap chunkSize startGCatTotalSize : Nat) →
    (principalDomainName : List Char) → (limit : Nat) → World → Exec World

/-- `GC_IMPLEMENTATION_NEW`. -/
def gcImplementationNew : Int := 0

/-- `GC_IMPLEMENTATION_CHUNKED`. -/
def gcImplementationChunked : Int := 3

/-- `MAX_REGISTERED`. -/
def maxRegistered : Nat := 50

/-- `gc_mem`. -/
def gcMem : Nat := maxRegistered * 4

/-- `gc_init`; the result is the exception, if there is one. -/
def gcInit (c : Collectors) (args : Args) (w : World) : Exec (Option (Throw × String) × World) :=
  if args.gcImpl = gcImplementationNew then do
    return (none, ← c.newInit args.gcinfo0 w)
  else if args.gcImpl = gcImplementationChunked then do
    return (none,
      ← c.chunkedInit args.gcinfo0 args.gcinfo1 args.gcinfo2 args.gcinfo3 args.gcinfo4 w)
  else return (some (.runtimeException, "unknown gc implementation"), w)

/-- `DOMAIN_SCRATCHMEM_SIZE`. -/
def domainScratchmemSize : Nat := 4096 * 100

/-- `CODE_BYTES`. -/
def codeBytesDefault : Nat := 16 * 40 * 1024

/-- `MAX_NUMBER_LIBS`. -/
def maxNumberLibs : Nat := 100

/-- `domain->code_bytes`; the argument -1 stands for the default. -/
def Args.codeBytesOf (args : Args) : Nat :=
  if args.codeBytes ≠ 2 ^ 32 - 1 then args.codeBytes else codeBytesDefault

/-- `libMemSize`: the libraries, the name, the two tables of `USE_LIB_INDEX` and the registered
objects. -/
def Args.libMemSize (args : Args) : Nat :=
  u4 (4 * maxNumberLibs + args.domainName.length + 1 + 4 * maxNumberLibs + 4 * maxNumberLibs + gcMem)

/-- `jxmalloc`, with the new region among those that are in use. -/
def allocRegion (fuel : Nat) (w : World) (size : Nat) : Exec World := do
  let (addr, alloc) ← ExceptT.mk (w.alloc.jxmalloc fuel size)
  return ⟨alloc, ⟨addr, size, Allocator.sizeBlkOf size⟩ :: w.live⟩

/-- `createDomain`. -/
def createDomain (c : Collectors) (fuel : Nat) (args : Args) (s : State) : Exec (Result × State) := do
  let (found, irq, table) ← specialAllocDomainDesc fuel s.irq s.table
  match found with
  | none => return (.null, ⟨table, s.world, irq⟩)
  | some d =>
    let world ← allocRegion fuel s.world domainScratchmemSize
    let (_, code) ← mallocCode fuel ⟨world, .new args.codeBytesOf, []⟩ args.libMemSize
    let (raised, world) ← gcInit c args code.world
    match raised with
    | some (e, msg) => return (.raised e msg, ⟨table, world, irq⟩)
    | none => return (.created d, ⟨table.setState d domainStateActive, world, irq⟩)

/-! ## What a failure should leave -/

def Result.Failed : Result → Prop
  | .created _ => False
  | .null => True
  | .raised _ _ => True

/-- The free blocks of the allocator. -/
def State.freeBlocks (s : State) : Finset Nat := s.world.alloc.bitmap.clearBits s.world.alloc.nBlocks

/-- The table with its counters is the same, and the same blocks are free. -/
structure Unchanged (s t : State) : Prop where
  table : t.table = s.table
  freeBlocks : t.freeBlocks = s.freeBlocks

/-- The collector is built into the kernel. -/
def Implemented (gcImpl : Int) : Prop :=
  gcImpl = gcImplementationNew ∨ gcImpl = gcImplementationChunked

instance (gcImpl : Int) : Decidable (Implemented gcImpl) := inferInstanceAs (Decidable (_ ∨ _))

/-- The table counts as full, or no slot is free but the last one that a search would come to. -/
def NoSlot (t : Table) : Prop :=
  t.numberOfDomains = maxNumberDomains ∨
    ∀ i < maxNumberDomains, (t.slot i).state = domainStateFree → advance i = t.domainMemCurrent

/-! ## The slot -/

variable {t t' : Table} {fuel : Nat}

/-- More fuel does not change what is found. -/
theorem search_mono {slot : Nat → Slot} {start i k : Nat} {r : Option Nat × Nat}
    (h : search slot start fuel i = some r) (hle : fuel ≤ k) : search slot start k i = some r := by
  induction fuel generalizing i k with
  | zero => cases h
  | succ fuel ih =>
    obtain ⟨k, rfl⟩ := Nat.exists_eq_succ_of_ne_zero (Nat.ne_zero_of_lt hle)
    unfold search at h ⊢
    simp only at h ⊢
    split_ifs at h ⊢
    · exact h
    · exact h
    · exact ih h (Nat.le_of_succ_le_succ hle)

/-- The call takes a slot, or there is none and the table stays. -/
theorem specialAllocDomainDesc_cases {irq irq' : Bool} {found : Option Nat}
    (hcur : t.domainMemCurrent < maxNumberDomains)
    (h : specialAllocDomainDesc fuel irq t = pure (found, irq', t')) :
    (found = none ∧ t' = t ∧ NoSlot t) ∨
      ∃ d, found = some d ∧ t'.numberOfDomains = t.numberOfDomains + 1 ∧ ¬ NoSlot t := by
  unfold specialAllocDomainDesc at h
  split_ifs at h with hfull
  · cases eq_of_pure_eq h
    exact Or.inl ⟨rfl, rfl, Or.inl hfull⟩
  · obtain ⟨⟨f, next⟩, hloop, hrest⟩ := bind_eq_pure h
    have hzero : distance t.domainMemCurrent t.domainMemCurrent = 0 := by
      rw [distance, if_pos (Nat.le_refl _), Nat.sub_self]
    obtain ⟨r, hr, hfound⟩ := @search_found t.domainMemCurrent t.slot t.domainMemCurrent
      (maxNumberDomains - 1) hcur hcur (by rw [hzero]; rfl)
      (fun j _ hlt => absurd (hzero ▸ hlt) (Nat.not_lt_zero _))
    -- the fuel of the call may be less than what is always enough
    have hsame : (f, next) = r := by
      have hmono := search_mono (loop_eq_pure hloop) (Nat.le_add_right fuel maxNumberDomains)
      have hlong := hr (fuel + maxNumberDomains)
        (Nat.lt_of_lt_of_le (by decide) (Nat.le_add_left maxNumberDomains fuel))
      exact Option.some.inj (hmono.symm.trans hlong)
    rcases hfound with ⟨d, hd, hfree, hne, rfl⟩ | ⟨hall, rfl⟩
    · obtain ⟨rfl, rfl⟩ := Prod.mk.inj hsame
      cases eq_of_pure_eq hrest
      refine Or.inr ⟨d, rfl, rfl, ?_⟩
      rintro (hmax | hnone)
      · exact hfull hmax
      · exact hne (hnone d hd hfree)
    · obtain ⟨rfl, rfl⟩ := Prod.mk.inj hsame
      cases eq_of_pure_eq hrest
      exact Or.inl ⟨rfl, rfl, Or.inr hall⟩

/-! ## Creating a domain -/

variable {c : Collectors} {args : Args} {s s' : State} {r : Result}

/-- Only the exception for the collector is raised, and the memory stays as it is. -/
theorem gcInit_cases {w w' : World} {raised : Option (Throw × String)}
    (h : gcInit c args w = pure (raised, w')) :
    raised = none ∧ Implemented args.gcImpl ∨
      raised = some (.runtimeException, "unknown gc implementation") ∧ w' = w ∧
        ¬ Implemented args.gcImpl := by
  unfold gcInit at h
  split_ifs at h with hnew hchunked
  · obtain ⟨_, -, hrest⟩ := bind_eq_pure h
    cases eq_of_pure_eq hrest
    exact Or.inl ⟨rfl, Or.inl hnew⟩
  · obtain ⟨_, -, hrest⟩ := bind_eq_pure h
    cases eq_of_pure_eq hrest
    exact Or.inl ⟨rfl, Or.inr hchunked⟩
  · cases eq_of_pure_eq h
    exact Or.inr ⟨rfl, rfl, not_or.mpr ⟨hnew, hchunked⟩⟩

/-- How a call that comes back ends. -/
theorem createDomain_cases (hcur : s.table.domainMemCurrent < maxNumberDomains)
    (h : createDomain c fuel args s = pure (r, s')) :
    r = .null ∧ NoSlot s.table ∧ s'.table = s.table ∧ s'.world = s.world ∨
      ¬ NoSlot s.table ∧ (Implemented args.gcImpl ∧ (∃ d, r = .created d) ∨
        ¬ Implemented args.gcImpl ∧ r = .raised .runtimeException "unknown gc implementation" ∧
          s'.table.numberOfDomains = s.table.numberOfDomains + 1) := by
  obtain ⟨⟨found, irq, table⟩, halloc, hrest⟩ := bind_eq_pure h
  rcases specialAllocDomainDesc_cases hcur halloc with ⟨rfl, rfl, hno⟩ | ⟨d, rfl, hcount, hslot⟩
  · cases eq_of_pure_eq hrest
    exact Or.inl ⟨rfl, hno, rfl, rfl⟩
  · obtain ⟨world, -, hrest⟩ := bind_eq_pure hrest
    obtain ⟨⟨_, code⟩, -, hrest⟩ := bind_eq_pure hrest
    obtain ⟨⟨raised, world'⟩, hgc, hrest⟩ := bind_eq_pure hrest
    refine Or.inr ⟨hslot, ?_⟩
    rcases gcInit_cases hgc with ⟨rfl, himpl⟩ | ⟨rfl, rfl, himpl⟩
    · cases eq_of_pure_eq hrest
      exact Or.inl ⟨himpl, d, rfl⟩
    · cases eq_of_pure_eq hrest
      exact Or.inr ⟨himpl, rfl, hcount⟩

/-- A call that comes back leaves everything as it was when it fails, exactly if the collector is built
in or there is no slot. -/
theorem unchanged_of_failed_iff (hcur : s.table.domainMemCurrent < maxNumberDomains)
    (h : createDomain c fuel args s = pure (r, s')) :
    (r.Failed → Unchanged s s') ↔ Implemented args.gcImpl ∨ NoSlot s.table := by
  rcases createDomain_cases hcur h with ⟨rfl, hno, htable, hworld⟩ |
    ⟨hslot, ⟨himpl, d, rfl⟩ | ⟨himpl, rfl, hcount⟩⟩
  · refine iff_of_true (fun _ => ⟨htable, ?_⟩) (Or.inr hno)
    rw [State.freeBlocks, hworld]
    rfl
  · exact iff_of_true False.elim (Or.inl himpl)
  · -- the slot is counted, and stays so
    refine iff_of_false (fun hunchanged => ?_) (not_or.mpr ⟨himpl, hslot⟩)
    have hsame := congrArg Table.numberOfDomains (hunchanged trivial).table
    rw [hcount] at hsame
    exact Nat.succ_ne_self _ hsame


/-! ## A failure with a slot -/

/-- The result of a call, if it comes back. -/
def resultOf (x : Exec (Result × State)) : Option Result :=
  match x with
  | some (.ok (r, _)) => some r
  | _ => none

theorem exists_of_resultOf {x : Exec (Result × State)} (h : resultOf x = some r) :
    ∃ t, x = pure (r, t) := by
  match x with
  | none => cases h
  | some (.error _) => cases h
  | some (.ok (r', t)) =>
    obtain rfl : r' = r := Option.some.inj h
    exact ⟨t, rfl⟩

/-- A kernel with a free table and 512 free blocks. -/
def blank : State where
  table := ⟨fun _ => ⟨domainStateFree, 0⟩, 0, 0, 0⟩
  world := ⟨⟨0x100000, 512, 512, 0, fun _ => 0, 64, 1⟩, []⟩
  irq := true

/-- Collectors that take no memory. -/
def simple : Collectors := ⟨fun _ w => pure w, fun _ _ _ _ _ w => pure w⟩

/-- A domain with the collector 1, which is not built in. -/
def compacting : Args := ⟨['d'], 0x100000, 0, 0, [], 0, 4096, 1⟩

theorem createDomain_blank : ∃ s', createDomain simple 3 compacting blank =
    pure (.raised .runtimeException "unknown gc implementation", s') :=
  exists_of_resultOf (by decide +kernel)

theorem unchanged_blank_iff : ∃ r s', createDomain simple 3 compacting blank = pure (r, s') ∧
    ((r.Failed → Unchanged blank s') ↔ Implemented 1 ∨ NoSlot blank.table) := by
  obtain ⟨s', h⟩ := createDomain_blank
  exact ⟨_, s', h, unchanged_of_failed_iff (Nat.zero_lt_succ 199) h⟩

theorem not_unchanged_blank :
    ¬ ∀ c fuel args s r s', s.table.domainMemCurrent < maxNumberDomains →
      createDomain c fuel args s = pure (r, s') → r.Failed → Unchanged s s' := by
  intro hall
  obtain ⟨s', h⟩ := createDomain_blank
  have hcur : blank.table.domainMemCurrent < maxNumberDomains := Nat.zero_lt_succ 199
  have hsame := (hall simple 3 compacting blank _ s' hcur h trivial).table
  rcases createDomain_cases hcur h with ⟨hnull, -⟩ | ⟨-, ⟨-, d, hcreated⟩ | ⟨-, -, hcount⟩⟩
  · cases hnull
  · cases hcreated
  · rw [hsame] at hcount
    exact Nat.succ_ne_self _ hcount.symm

/-! ## The memory of a failure

The scratch memory and the fragments of the code area stay in use as well. -/

end JxCore.CreateDomain
