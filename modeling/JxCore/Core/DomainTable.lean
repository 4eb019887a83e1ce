import JxCore.Basic
import Mathlib.Data.Finset.Card
import Mathlib.Logic.Function.Basic
import Mathlib.Order.Interval.Finset.Nat
import Mathlib.Logic.Relation

/-!
# The table of domain control blocks (`core/domain.c`)

The control blocks of all domains lie in one array. `specialAllocDomainDesc` searches it as a ring from
where the last search ended; `terminateDomain` gives a slot back. A slot is named by its index.
-/

namespace JxCore.DomainTable

open Exec

/-- `MAX_NUMBER_DOMAINS`. -/
abbrev maxNumberDomains : Nat := 200

def domainStateFree : Nat := 0

def domainStateCreating : Nat := 1

def domainStateActive : Nat := 2

/-- The fields of a control block that the table is about. -/
structure Slot where
  state : Nat
  id : Nat

structure Table where
  slot : Nat → Slot
  domainMemCurrent : Nat
  numberOfDomains : Nat
  currentDomainID : Nat

/-- The slot is in use. -/
def Table.Live (t : Table) (i : Nat) : Prop := (t.slot i).state ≠ domainStateFree

instance (t : Table) (i : Nat) : Decidable (t.Live i) := inferInstanceAs (Decidable (_ ≠ _))

def Table.setState (t : Table) (i st : Nat) : Table :=
  { t with slot := Function.update t.slot i { t.slot i with state := st } }

/-! ## Allocation -/

/-- The slot behind slot `i` in the ring. -/
def advance (i : Nat) : Nat := if i + 1 ≥ maxNumberDomains then 0 else i + 1

/-- The loop of `specialAllocDomainDesc`: the cursor is moved and compared with the start before the
state of the slot is looked at. The result is the slot, and the cursor. -/
def search (slot : Nat → Slot) (start : Nat) : Nat → Nat → Option (Option Nat × Nat)
  | 0, _ => none
  | fuel + 1, i =>
    let next := advance i
    if next = start then some (none, next)
    else if (slot i).state = domainStateFree then some (some i, next)
    else search slot start fuel next

/-- `specialAllocDomainDesc`; `irq` says whether interrupts are enabled. The lock is `DISABLE_IRQ`, and
the two failing returns are not followed by `RESTORE_IRQ`. -/
def specialAllocDomainDesc (fuel : Nat) (irq : Bool) (t : Table) :
    Exec (Option Nat × Bool × Table) := do
  if t.numberOfDomains = maxNumberDomains then
    return (none, false, t)
  let (found, next) ← loop (search t.slot t.domainMemCurrent fuel t.domainMemCurrent)
  match found with
  | none => return (none, false, { t with domainMemCurrent := next })
  | some d =>
    return (some d, irq, { t with
      slot := Function.update t.slot d ⟨domainStateCreating, t.currentDomainID⟩
      domainMemCurrent := next
      numberOfDomains := t.numberOfDomains + 1
      currentDomainID := u4 (t.currentDomainID + 1) })

/-! ## Initialisation -/

/-- The loop of `init_domainsys`. Its pointer is one to words, and adding the size of a slot in bytes
to it skips three slots. -/
def freeSlots (slot : Nat → Slot) (i : Nat) : Nat → Slot :=
  if i < maxNumberDomains then
    freeSlots (Function.update slot i { slot i with state := domainStateFree }) (i + 4)
  else slot
termination_by maxNumberDomains - i

/-- `init_domainsys` on the memory that `jxmalloc` has given, with what `createDomain` does to the slot
of domain zero. -/
def initDomainsys (fuel : Nat) (irq : Bool) (mem : Nat → Slot) : Exec Table := do
  let t : Table := ⟨freeSlots mem 0, 0, 0, 0⟩
  match ← specialAllocDomainDesc fuel irq t with
  | (none, _) => throw (.panic "Cannot create domainzero")
  | (some d, _, t) => return t.setState d domainStateActive

/-! ## Runs -/

inductive Op where
  | alloc (irq : Bool)
  /-- A domain goes to another state. -/
  | setState (i st : Nat)
  /-- The end of `terminateDomain`. -/
  | release (i : Nat)

def release (t : Table) (i : Nat) : Table :=
  { t.setState i domainStateFree with numberOfDomains := t.numberOfDomains - 1 }

def exec (op : Op) (t : Table) (fuel : Nat) : Exec Table :=
  match op with
  | .alloc irq => (fun r => r.2.2) <$> specialAllocDomainDesc fuel irq t
  | .setState i st => pure (t.setState i st)
  | .release i => pure (release t i)

/-- Only a domain that exists changes its state or is given back. -/
def Enabled (t : Table) : Op → Prop
  | .alloc _ => True
  | .setState i st => i < maxNumberDomains ∧ t.Live i ∧ st ≠ domainStateFree
  | .release i => i < maxNumberDomains ∧ t.Live i

/-! ## Specification -/

/-- The slots in use. -/
def liveSlots (t : Table) : Finset Nat := (Finset.range maxNumberDomains).filter t.Live

structure Sound (t : Table) : Prop where
  number : t.numberOfDomains = (liveSlots t).card
  ids : ∀ i ∈ liveSlots t, ∀ j ∈ liveSlots t, (t.slot i).id = (t.slot j).id → i = j

/-- A call of `specialAllocDomainDesc` does what it should: it gives a slot that is free if there is
one, and changes nothing if there is none. -/
def Allocates (irq : Bool) (t : Table) : Prop :=
  ∃ r irq' t', Returns (fun fuel => specialAllocDomainDesc fuel irq t) (r, irq', t') ∧
    (r.isSome ↔ ∃ i < maxNumberDomains, ¬ t.Live i) ∧
    (∀ d, r = some d → d < maxNumberDomains ∧ ¬ t.Live d ∧ t'.Live d) ∧
    (r = none → t' = t) ∧ irq' = irq

/-- A slot is free that is not the last one of the ring; or none is free, and interrupts are disabled
anyway. -/
def Roomy (irq : Bool) (t : Table) : Prop :=
  (∃ i < maxNumberDomains, ¬ t.Live i ∧ advance i ≠ t.domainMemCurrent) ∨
    (∀ i < maxNumberDomains, t.Live i) ∧ irq = false

/-- The slots that `init_domainsys` skips are free by themselves. -/
def Blank (mem : Nat → Slot) : Prop :=
  ∀ i < maxNumberDomains, i % 4 ≠ 0 → (mem i).state = domainStateFree

/-- The number for the next domain is not in use. -/
def NewID (t : Table) : Prop := ∀ i ∈ liveSlots t, (t.slot i).id ≠ t.currentDomainID

/-- A step of a run in which no call meets a table without room, or an id in use. -/
def Step (s t : Table) : Prop :=
  ∃ op, Enabled s op ∧ (∀ irq, op = .alloc irq → Roomy irq s ∧ NewID s) ∧ Returns (exec op s) t

/-! ## The search -/

section Search

variable {slot : Nat → Slot} {start : Nat}

/-- How many steps from the start of the search a slot is. -/
def distance (start i : Nat) : Nat := if start ≤ i then i - start else i + maxNumberDomains - start

theorem advance_eq_start {i : Nat} (hstart : start < maxNumberDomains) (hi : i < maxNumberDomains) :
    advance i = start ↔ distance start i + 1 = maxNumberDomains := by
  unfold advance distance maxNumberDomains at *
  split <;> split <;> omega

theorem distance_advance {i : Nat} (hstart : start < maxNumberDomains) (hi : i < maxNumberDomains)
    (hne : advance i ≠ start) : advance i < maxNumberDomains ∧
      distance start (advance i) = distance start i + 1 := by
  unfold advance distance maxNumberDomains at *
  grind

theorem distance_lt {i : Nat} (hstart : start < maxNumberDomains) (hi : i < maxNumberDomains) :
    distance start i < maxNumberDomains := by
  unfold distance maxNumberDomains at *
  split <;> omega

theorem distance_injective {i j : Nat} (hstart : start < maxNumberDomains)
    (hi : i < maxNumberDomains) (hj : j < maxNumberDomains)
    (h : distance start i = distance start j) : i = j := by
  unfold distance maxNumberDomains at *
  split at h <;> split at h <;> omega

/-- What the search finds: a slot that is free, unless there is none but the last one of the ring. -/
def Found (slot : Nat → Slot) (start : Nat) (r : Option Nat × Nat) : Prop :=
  (∃ d < maxNumberDomains, (slot d).state = domainStateFree ∧ advance d ≠ start ∧
      r = (some d, advance d)) ∨
    (∀ i < maxNumberDomains, (slot i).state = domainStateFree → advance i = start) ∧
      r = (none, start)

/-- The search from slot `i` on, when the slots before it are in use; `k` steps are left. -/
theorem search_found (slot : Nat → Slot) {i k : Nat} (hstart : start < maxNumberDomains)
    (hi : i < maxNumberDomains)
    (hk : distance start i + k + 1 = maxNumberDomains)
    (hbefore : ∀ j < maxNumberDomains, distance start j < distance start i →
      (slot j).state ≠ domainStateFree) :
    ∃ r, (∀ fuel > k, search slot start fuel i = some r) ∧ Found slot start r := by
  induction k generalizing i with
  | zero =>
    have hend : advance i = start := (advance_eq_start hstart hi).mpr hk
    refine ⟨(none, start), fun fuel hfuel => ?_, .inr ⟨fun j hj hfree => ?_, rfl⟩⟩
    · obtain ⟨fuel, rfl⟩ := Nat.exists_eq_succ_of_ne_zero (Nat.ne_of_gt hfuel)
      unfold search
      simp only [hend, if_true]
    · by_contra hne
      refine hbefore j hj ?_ hfree
      have hlast := mt (advance_eq_start hstart hj).mpr hne
      have hlt := distance_lt hstart hj
      omega
  | succ k ih =>
    have hne : advance i ≠ start := fun heq => by
      have := (advance_eq_start hstart hi).mp heq
      omega
    obtain ⟨hnext, hdist⟩ := distance_advance hstart hi hne
    by_cases hfree : (slot i).state = domainStateFree
    · refine ⟨(some i, advance i), fun fuel hfuel => ?_, .inl ⟨i, hi, hfree, hne, rfl⟩⟩
      obtain ⟨fuel, rfl⟩ := Nat.exists_eq_succ_of_ne_zero (Nat.ne_of_gt (Nat.zero_lt_of_lt hfuel))
      unfold search
      simp only [if_neg hne, if_pos hfree]
    · obtain ⟨r, hr, hfound⟩ := ih hnext (by omega) fun j hj hlt => by
        by_cases heq : j = i
        · rwa [heq]
        · refine hbefore j hj ?_
          have hne' : distance start j ≠ distance start i :=
            fun hd => heq (distance_injective hstart hj hi hd)
          omega
      refine ⟨r, fun fuel hfuel => ?_, hfound⟩
      obtain ⟨fuel, rfl⟩ := Nat.exists_eq_succ_of_ne_zero (Nat.ne_of_gt (Nat.zero_lt_of_lt hfuel))
      unfold search
      simp only [if_neg hne, if_neg hfree]
      exact hr fuel (Nat.lt_of_succ_lt_succ hfuel)

end Search

/-! ## One call -/

section Call

variable {t : Table} {irq : Bool}

theorem not_live_iff {i : Nat} : ¬ t.Live i ↔ (t.slot i).state = domainStateFree := not_not

theorem mem_liveSlots {i : Nat} : i ∈ liveSlots t ↔ i < maxNumberDomains ∧ t.Live i := by
  simp [liveSlots]

/-- The count is at its limit when all slots are in use. -/
theorem Sound.full_iff (h : Sound t) :
    t.numberOfDomains = maxNumberDomains ↔ ∀ i < maxNumberDomains, t.Live i := by
  rw [h.number]
  constructor
  · intro hcard i hi
    have hall : liveSlots t = Finset.range maxNumberDomains := by
      refine Finset.eq_of_subset_of_card_le (Finset.filter_subset _ _) ?_
      rw [hcard, Finset.card_range]
    have hmem : i ∈ liveSlots t := hall ▸ Finset.mem_range.mpr hi
    exact (mem_liveSlots.mp hmem).2
  · intro hall
    have heq : liveSlots t = Finset.range maxNumberDomains :=
      Finset.filter_true_of_mem fun i hi => hall i (Finset.mem_range.mp hi)
    rw [heq, Finset.card_range]

/-- The table after slot `d` has been taken. -/
def taken (t : Table) (d : Nat) : Table :=
  { t with
    slot := Function.update t.slot d ⟨domainStateCreating, t.currentDomainID⟩
    domainMemCurrent := advance d
    numberOfDomains := t.numberOfDomains + 1
    currentDomainID := u4 (t.currentDomainID + 1) }

/-- What a call does: it takes a slot, or it fails and interrupts stay disabled. -/
theorem specialAllocDomainDesc_returns (irq : Bool) (h : Sound t)
    (hcur : t.domainMemCurrent < maxNumberDomains) :
    (∃ d < maxNumberDomains, ¬ t.Live d ∧ advance d ≠ t.domainMemCurrent ∧
        Returns (fun fuel => specialAllocDomainDesc fuel irq t) (some d, irq, taken t d)) ∨
      (∀ i < maxNumberDomains, ¬ t.Live i → advance i = t.domainMemCurrent) ∧
        Returns (fun fuel => specialAllocDomainDesc fuel irq t) (none, false, t) := by
  by_cases hfull : t.numberOfDomains = maxNumberDomains
  · refine .inr ⟨fun i hi hfree => absurd (h.full_iff.mp hfull i hi) hfree, 0, fun fuel _ => ?_⟩
    show specialAllocDomainDesc fuel irq t = _
    unfold specialAllocDomainDesc
    exact if_pos hfull
  · obtain ⟨r, hr, hfound⟩ := search_found t.slot (k := maxNumberDomains - 1) hcur hcur
      (by unfold distance maxNumberDomains; simp) fun j hj hlt => by
        unfold distance at hlt
        simp at hlt
    have hcall : ∀ fuel ≥ maxNumberDomains, search t.slot t.domainMemCurrent fuel t.domainMemCurrent =
        some r := fun fuel hfuel => hr fuel (Nat.lt_of_lt_of_le (by decide) hfuel)
    rcases hfound with ⟨d, hd, hfree, hne, rfl⟩ | ⟨hall, rfl⟩
    · refine .inl ⟨d, hd, not_live_iff.mpr hfree, hne, maxNumberDomains, fun fuel hfuel => ?_⟩
      show specialAllocDomainDesc fuel irq t = _
      unfold specialAllocDomainDesc
      rw [if_neg hfull, hcall fuel hfuel, loop_some]
      rfl
    · refine .inr ⟨fun i hi hfree => hall i hi (not_live_iff.mp hfree), maxNumberDomains,
        fun fuel hfuel => ?_⟩
      show specialAllocDomainDesc fuel irq t = _
      unfold specialAllocDomainDesc
      rw [if_neg hfull, hcall fuel hfuel, loop_some]
      rfl

/-- A call does what it should exactly if there is room. -/
theorem allocates_iff (h : Sound t) (hcur : t.domainMemCurrent < maxNumberDomains) :
    Allocates irq t ↔ Roomy irq t := by
  rcases specialAllocDomainDesc_returns irq h hcur with
    ⟨d, hd, hfree, hne, hret⟩ | ⟨hlast, hret⟩
  · refine iff_of_true ⟨some d, irq, taken t d, hret, ?_, ?_, nofun, rfl⟩ (.inl ⟨d, hd, hfree, hne⟩)
    · exact iff_of_true rfl ⟨d, hd, hfree⟩
    · intro e he
      obtain rfl : d = e := Option.some.inj he
      refine ⟨hd, hfree, ?_⟩
      simp [Table.Live, taken, domainStateCreating, domainStateFree]
  · constructor
    · rintro ⟨r, irq', t', hret', hsome, -, -, rfl⟩
      have heq := hret'.unique hret
      obtain ⟨rfl, rfl, rfl⟩ : r = none ∧ irq' = false ∧ t' = t := by simpa using heq
      refine .inr ⟨fun i hi => ?_, rfl⟩
      by_contra hfree
      exact nomatch hsome.mpr ⟨i, hi, hfree⟩
    · rintro (⟨i, hi, hfree, hne⟩ | ⟨hall, rfl⟩)
      · exact absurd (hlast i hi hfree) hne
      · refine ⟨none, false, t, hret, ?_, nofun, fun _ => rfl, rfl⟩
        simp only [Option.isSome_none, Bool.false_eq_true, false_iff, not_exists, not_and, not_not]
        exact hall

end Call

/-! ## Runs -/

section Run

variable {s t : Table}

/-- What holds in every state of a run. -/
def Invariant (t : Table) : Prop := Sound t ∧ t.domainMemCurrent < maxNumberDomains

theorem advance_lt (i : Nat) : advance i < maxNumberDomains := by
  unfold advance maxNumberDomains
  split <;> omega

theorem liveSlots_insert {d : Nat} {b : Slot} (hd : d < maxNumberDomains)
    (hb : b.state ≠ domainStateFree) {n c i : Nat} :
    liveSlots ⟨Function.update s.slot d b, c, n, i⟩ = insert d (liveSlots s) := by
  ext j
  rw [Finset.mem_insert, mem_liveSlots, mem_liveSlots]
  by_cases hj : j = d
  · subst hj
    simp [Table.Live, hd, hb]
  · simp [Table.Live, hj]

theorem Invariant.taken {d : Nat} (h : Invariant t) (hd : d < maxNumberDomains) (hfree : ¬ t.Live d)
    (hid : NewID t) : Invariant (taken t d) := by
  have hslots : liveSlots (DomainTable.taken t d) = insert d (liveSlots t) :=
    liveSlots_insert hd (show domainStateCreating ≠ domainStateFree by decide)
  have hnew : d ∉ liveSlots t := fun hmem => hfree (mem_liveSlots.mp hmem).2
  have hold : ∀ i ∈ liveSlots t, (DomainTable.taken t d).slot i = t.slot i := by
    intro i hi
    apply Function.update_of_ne
    rintro rfl
    exact hnew hi
  have hself : ((DomainTable.taken t d).slot d).id = t.currentDomainID := by
    simp [DomainTable.taken]
  refine ⟨⟨?_, ?_⟩, advance_lt d⟩
  · rw [hslots, Finset.card_insert_of_notMem hnew, ← h.1.number]
    rfl
  · rw [hslots]
    intro i hi j hj heq
    rcases Finset.mem_insert.mp hi with hid' | hi' <;> rcases Finset.mem_insert.mp hj with hjd | hj'
    · rw [hid', hjd]
    · rw [hid', hself, hold j hj'] at heq
      exact absurd heq.symm (hid j hj')
    · rw [hjd, hself, hold i hi'] at heq
      exact absurd heq (hid i hi')
    · rw [hold i hi', hold j hj'] at heq
      exact h.1.ids i hi' j hj' heq

theorem Invariant.setState {i st : Nat} (h : Invariant t) (hi : i < maxNumberDomains)
    (hlive : t.Live i) (hst : st ≠ domainStateFree) : Invariant (t.setState i st) := by
  have hmem : i ∈ liveSlots t := mem_liveSlots.mpr ⟨hi, hlive⟩
  have hslots : liveSlots (t.setState i st) = liveSlots t := by
    rw [Table.setState, liveSlots_insert hi hst, Finset.insert_eq_of_mem hmem]
  have hid : ∀ j, ((t.setState i st).slot j).id = (t.slot j).id := by
    intro j
    by_cases hj : j = i
    · simp [Table.setState, hj]
    · simp [Table.setState, hj]
  refine ⟨⟨?_, ?_⟩, h.2⟩
  · rw [hslots]
    exact h.1.number
  · rw [hslots]
    intro j hj k hk heq
    rw [hid, hid] at heq
    exact h.1.ids j hj k hk heq

theorem Invariant.release {i : Nat} (h : Invariant t) (hi : i < maxNumberDomains) (hlive : t.Live i) :
    Invariant (release t i) := by
  have hmem : i ∈ liveSlots t := mem_liveSlots.mpr ⟨hi, hlive⟩
  have hslots : liveSlots (DomainTable.release t i) = (liveSlots t).erase i := by
    ext j
    rw [Finset.mem_erase, mem_liveSlots, mem_liveSlots]
    by_cases hj : j = i
    · simp [Table.Live, DomainTable.release, Table.setState, hj]
    · simp [Table.Live, DomainTable.release, Table.setState, hj]
  have hold : ∀ j ≠ i, (DomainTable.release t i).slot j = t.slot j :=
    fun j hj => Function.update_of_ne hj _ _
  refine ⟨⟨?_, ?_⟩, h.2⟩
  · rw [hslots, Finset.card_erase_of_mem hmem, ← h.1.number]
    rfl
  · rw [hslots]
    intro j hj k hk heq
    obtain ⟨hji, hj⟩ := Finset.mem_erase.mp hj
    obtain ⟨hki, hk⟩ := Finset.mem_erase.mp hk
    rw [hold j hji, hold k hki] at heq
    exact h.1.ids j hj k hk heq

theorem Invariant.step (h : Invariant s) (hstep : Step s t) : Invariant t := by
  obtain ⟨op, he, hroom, hret⟩ := hstep
  cases op with
  | alloc irq =>
    obtain ⟨hroomy, hid⟩ := hroom irq rfl
    rcases specialAllocDomainDesc_returns irq h.1 h.2 with ⟨d, hd, hfree, -, hcall⟩ | ⟨-, hcall⟩
    · rw [hcall.map_eq (f := fun r : Option Nat × Bool × Table => r.2.2) hret]
      exact h.taken hd hfree hid
    · rw [hcall.map_eq (f := fun r : Option Nat × Bool × Table => r.2.2) hret]
      exact h
  | setState i st =>
    rw [hret.unique (.pure _)]
    exact h.setState he.1 he.2.1 he.2.2
  | release i =>
    rw [hret.unique (.pure _)]
    exact h.release he.1 he.2

/-! ## The start -/

/-- Only every fourth slot is marked. -/
theorem freeSlots_apply (mem : Nat → Slot) (i j : Nat) (hmod : i % 4 = 0) :
    freeSlots mem i j =
      if i ≤ j ∧ j < maxNumberDomains ∧ j % 4 = 0 then { mem j with state := domainStateFree }
      else mem j := by
  fun_induction freeSlots mem i with
  | case1 mem i hlt ih =>
    rw [ih (by omega)]
    by_cases hj : j = i
    · subst hj
      rw [if_neg (by omega), if_pos ⟨Nat.le_refl j, hlt, hmod⟩, Function.update_self]
    · rw [Function.update_of_ne hj]
      congr 1
      exact propext ⟨fun h => ⟨by omega, h.2⟩, fun h => ⟨by omega, h.2⟩⟩
  | case2 mem i hge =>
    rw [if_neg fun h => hge (Nat.lt_of_le_of_lt h.1 h.2.1)]

theorem freeSlots_live (mem : Nat → Slot) {i : Nat} (hi : i < maxNumberDomains) :
    ((freeSlots mem 0 i).state ≠ domainStateFree ↔
      i % 4 ≠ 0 ∧ (mem i).state ≠ domainStateFree) := by
  rw [freeSlots_apply mem 0 i rfl]
  by_cases hmod : i % 4 = 0
  · simp [hmod, hi]
  · simp [hmod]

/-- The table after `init_domainsys`. -/
def started (mem : Nat → Slot) : Table :=
  ⟨Function.update (freeSlots mem 0) 0 ⟨domainStateActive, 0⟩, 1, 1, 1⟩

theorem initDomainsys_returns (irq : Bool) (mem : Nat → Slot) :
    Returns (fun fuel => initDomainsys fuel irq mem) (started mem) := by
  refine ⟨1, fun fuel hfuel => ?_⟩
  obtain ⟨fuel, rfl⟩ := Nat.exists_eq_succ_of_ne_zero (Nat.ne_of_gt hfuel)
  have hfree : (freeSlots mem 0 0).state = domainStateFree := by
    rw [freeSlots_apply mem 0 0 rfl]
    rfl
  have hsearch : search (freeSlots mem 0) 0 (fuel + 1) 0 = some (some 0, 1) := by
    unfold search
    rw [if_neg (by decide), if_pos hfree]
    rfl
  show initDomainsys (fuel + 1) irq mem = _
  unfold initDomainsys specialAllocDomainDesc
  simp only [hsearch]
  simp [started, Table.setState, u4]

theorem mem_liveSlots_started {mem : Nat → Slot} {i : Nat} :
    i ∈ liveSlots (started mem) ↔ i < maxNumberDomains ∧
      (i = 0 ∨ i % 4 ≠ 0 ∧ (mem i).state ≠ domainStateFree) := by
  rw [mem_liveSlots]
  refine and_congr_right fun hi => ?_
  by_cases h0 : i = 0
  · subst h0
    simp [Table.Live, started, domainStateActive, domainStateFree]
  · have hlive : (started mem).Live i ↔ (freeSlots mem 0 i).state ≠ domainStateFree := by
      simp [Table.Live, started, h0]
    rw [hlive, freeSlots_live mem hi]
    simp [h0]

/-- Domain zero is the only one exactly if the slots that were skipped happen to be free. -/
theorem sound_started_iff {mem : Nat → Slot} : Sound (started mem) ↔ Blank mem := by
  have hzero : 0 ∈ liveSlots (started mem) := mem_liveSlots_started.mpr ⟨by decide, .inl rfl⟩
  constructor
  · intro h i hi hmod
    by_contra hlive
    have hmem : i ∈ liveSlots (started mem) :=
      mem_liveSlots_started.mpr ⟨hi, .inr ⟨hmod, hlive⟩⟩
    have heq := Finset.card_le_one.mp h.number.ge 0 hzero i hmem
    omega
  · intro h
    have hall : ∀ i ∈ liveSlots (started mem), i = 0 := by
      intro i hmem
      obtain ⟨hi, h0 | ⟨hmod, hlive⟩⟩ := mem_liveSlots_started.mp hmem
      · exact h0
      · exact absurd (h i hi hmod) hlive
    refine ⟨?_, fun i hi j hj _ => (hall i hi).trans (hall j hj).symm⟩
    have hsingle : liveSlots (started mem) = {0} :=
      Finset.eq_singleton_iff_unique_mem.mpr ⟨hzero, hall⟩
    rw [hsingle]
    rfl

/-- The table is sound after the start exactly if the memory was blank; then it is sound after every
sequence of calls that find room, and the next call does what it should exactly if there is room. -/
theorem sound_of_run (irq : Bool) (mem : Nat → Slot) :
    ∃ s, Returns (fun fuel => initDomainsys fuel irq mem) s ∧ (Sound s ↔ Blank mem) ∧
      (Blank mem → ∀ t, Relation.ReflTransGen Step s t →
        Sound t ∧ ∀ irq, Allocates irq t ↔ Roomy irq t) := by
  refine ⟨started mem, initDomainsys_returns irq mem, sound_started_iff, fun hblank t hrun => ?_⟩
  have hinv : Invariant t := invariant_of_run (fun _ _ h hstep => h.step hstep) hrun
    ⟨sound_started_iff.mpr hblank, show 1 < maxNumberDomains by decide⟩
  exact ⟨hinv.1, fun irq => allocates_iff hinv.1 hinv.2⟩

end Run

/-! ## Memory as it is found -/

/-- Memory with the pattern that `test_mem` would leave. Its call is commented out in `jxmalloc_init`, and
`jxmalloc` does not clear what it returns, so any other content may be found as well. -/
def tested : Nat → Slot := fun _ => ⟨0xcccccccc, 0xcccccccc⟩

/-- The table counts one domain, and 151 slots are in use: the slots between those that were marked will
never be given out. -/
theorem not_sound_tested : ∃ s, Returns (fun fuel => initDomainsys fuel true tested) s ∧
    s.numberOfDomains = 1 ∧ s.Live 1 ∧ ¬ Sound s := by
  refine ⟨started tested, initDomainsys_returns true tested, rfl, ?_, fun h => ?_⟩
  · have hmem : 1 ∈ liveSlots (started tested) :=
      mem_liveSlots_started.mpr ⟨by decide, .inr ⟨by decide, by decide⟩⟩
    exact (mem_liveSlots.mp hmem).2
  · exact absurd (sound_started_iff.mp h 1 (by decide) (by decide)) (by decide)

/-- Memory that is all zero. -/
def zeroed : Nat → Slot := fun _ => ⟨0, 0⟩

theorem sound_zeroed : ∃ s, Returns (fun fuel => initDomainsys fuel true zeroed) s ∧ Sound s ∧
    ∀ irq, Allocates irq s ↔ Roomy irq s := by
  obtain ⟨s, hs, -, hrun⟩ := sound_of_run true zeroed
  exact ⟨s, hs, hrun (fun _ _ _ => rfl) s .refl⟩

end JxCore.DomainTable
