import JxCore.Interface.FastMemory
import JxCore.Interface.RegionInvariant

/-!
# Access after a revocation

Every accessor of a memory object has to look at the `valid` field of its node itself. Those that do
raise once the node is invalidated, whatever happened in between; `memory_move` and the fast paths of
`zero_FastMemory.S` do not look, and `memory_copyToMemory` looks at one of its two memories only.
-/

namespace JxCore.Memory

open Lib Access

/-! ## The other accessors -/

/-- `memory_clear`; it counts words and hands them to `jxwmemset` as bytes. -/
def clear (self : MemoryProxy) : Acc Unit := do
  checkValid self
  jxwmemset self.mem 0 (self.size / 4)

/-- Every way to the bytes of a memory. -/
inductive Entry where
  | call (c : Call)
  | clear (self : MemoryProxy)
  | vmGet8 (self : MemoryProxy) (pos : Jint)
  | vmGet32 (self : MemoryProxy) (pos : Jint)
  | vmGetLittleEndian32 (self : MemoryProxy) (pos : Jint)

namespace Entry

def run (exceptionHandler : Jint → Stop) (bswap : Jint → Jint) : Entry → Acc Unit
  | call c => c.run bswap
  | clear self => Memory.clear self
  | vmGet8 self pos => discard (Fast.vmGet8 exceptionHandler self pos)
  | vmGet32 self pos => discard (Fast.vmGet32 exceptionHandler self pos)
  | vmGetLittleEndian32 self pos => discard (Fast.vmGetLittleEndian32 exceptionHandler self pos)

/-- The memories of a call. -/
def memories : Entry → List MemoryProxy
  | call (.copyToMemory self other _ _ _) | call (.copyFromMemory self other _ _ _) =>
    self :: other.toList
  | call c => [c.self]
  | clear self | vmGet8 self _ | vmGet32 self _ | vmGetLittleEndian32 self _ => [self]

/-- The calls that write only into their memories; the fast paths only read. -/
def InRange : Entry → Prop
  | call c => c.InRange
  | _ => True

/-- The calls that look at the memory that is revoked before they do anything else. -/
def Guarded : Entry → Prop
  | call (.move _ _ _ _) => False
  | call (.copyToByteArray _ bytes _ _ _) | call (.copyFromByteArray _ bytes _ _ _) =>
    bytes ≠ none
  | call (.copyToMemory self other _ _ _) => other ≠ none ∧ self.valid = false
  | call (.copyFromMemory _ other _ _ _) => other ≠ none
  | call _ => True
  | clear _ => True
  | vmGet8 _ _ | vmGet32 _ _ | vmGetLittleEndian32 _ _ => False

end Entry

/-- The action raises the exception for an invalid memory, and touches nothing. -/
def RaisesInvalid (act : Acc Unit) : Prop :=
  ∀ byte, act.run ⟨byte, [], []⟩ = (.error (.throw .invalidMemory ""), ⟨byte, [], []⟩)

theorem checkValid_revoked {p : MemoryProxy} (hp : p.valid = false) {α : Type}
    (k : Unit → Acc α) : checkValid p >>= k = throw (.throw .invalidMemory "") := by
  simp only [checkValid, hp]
  rfl

theorem raisesInvalid_throw : RaisesInvalid (throw (.throw .invalidMemory "")) := fun _ => rfl

theorem checkValid_of_valid {p : MemoryProxy} (hp : p.valid = true) {α : Type}
    (k : Unit → Acc α) : checkValid p >>= k = k () := by
  simp only [checkValid, hp]
  rfl

theorem not_raisesInvalid_outOfBounds : ¬RaisesInvalid outOfBounds := fun h => by
  cases h fun _ => 0

theorem not_raisesInvalid_of_footprint {act : Acc Unit} {R W : Address → Prop}
    (h : Footprint act R W) : ¬RaisesInvalid act := fun hraises => by
  obtain ⟨v, m', heq, -⟩ := h ⟨fun _ => 0, [], []⟩
  have hrun := hraises fun _ => 0
  rw [heq] at hrun
  cases hrun

/-- A fast path that fails has read the code of the exception. -/
theorem not_raisesInvalid_memThrow (exceptionHandler : Jint → Stop) {α : Type} :
    ¬RaisesInvalid (discard (Fast.memThrow exceptionHandler : Acc α)) := by
  intro hraises
  have hreads := congrArg (fun x => x.2.reads) (hraises fun _ => 0)
  cases hreads

theorem not_raisesInvalid_get (exceptionHandler : Jint → Stop) {α : Type} {get : Acc α}
    {R W : Address → Prop} {c : Prop} [Decidable c] (h : Footprint get R W) :
    ¬RaisesInvalid (discard (if c then Fast.memThrow exceptionHandler else get)) := by
  rw [apply_ite discard]
  split
  · exact not_raisesInvalid_memThrow exceptionHandler
  · exact not_raisesInvalid_of_footprint (footprint_discard h)

theorem raisesInvalid_discard {p : MemoryProxy} (hp : p.valid = false) {α : Type}
    (k : Unit → Acc α) : RaisesInvalid (discard (checkValid p >>= k)) := by
  rw [checkValid_revoked hp]
  exact fun _ => rfl

theorem raisesInvalid_checkValid {p : MemoryProxy} (hp : p.valid = false) (k : Unit → Acc Unit) :
    RaisesInvalid (checkValid p >>= k) := by
  rw [checkValid_revoked hp]
  exact raisesInvalid_throw

theorem not_raisesInvalid_null {α : Type} (k : α → Acc Unit) :
    ¬RaisesInvalid (checkNullPtr none >>= k) := fun h => by
  have hrun := h fun _ => 0
  cases hrun

/-- **Revocation, exactly.** With a revoked memory the guarded calls raise, and only they. -/
theorem raisesInvalid_iff_guarded (exceptionHandler : Jint → Stop) (bswap : Jint → Jint) (e : Entry)
    (h : ∃ p ∈ e.memories, p.valid = false) :
    RaisesInvalid (e.run exceptionHandler bswap) ↔ e.Guarded := by
  cases e with
  | call c =>
    cases c with
    | move p dst src count =>
      refine iff_of_false ?_ id
      change ¬RaisesInvalid (move p dst src count)
      unfold move
      split
      · exact not_raisesInvalid_outOfBounds
      split
      · exact not_raisesInvalid_of_footprint (footprint_moveUp _ _ _)
      · exact not_raisesInvalid_of_footprint (footprint_moveDown _ _ _)
    | copyToByteArray p bytes arrayOffset memOffset len =>
      have hp : p.valid = false := by simpa [Entry.memories, Call.self] using h
      cases bytes with
      | none => exact iff_of_false (not_raisesInvalid_null _) (by simp [Entry.Guarded])
      | some b => exact iff_of_true (raisesInvalid_checkValid hp _) (by simp [Entry.Guarded])
    | copyFromByteArray p bytes arrayOffset memOffset len =>
      have hp : p.valid = false := by simpa [Entry.memories, Call.self] using h
      cases bytes with
      | none => exact iff_of_false (not_raisesInvalid_null _) (by simp [Entry.Guarded])
      | some b => exact iff_of_true (raisesInvalid_checkValid hp _) (by simp [Entry.Guarded])
    | copyToMemory p other srcOffset dstOffset len =>
      cases other with
      | none => exact iff_of_false (not_raisesInvalid_null _) (by simp [Entry.Guarded])
      | some q =>
        cases hp : p.valid with
        | false =>
          exact iff_of_true (raisesInvalid_checkValid hp _) (by simp [Entry.Guarded, hp])
        | true =>
          refine iff_of_false ?_ (by simp [Entry.Guarded, hp])
          change ¬RaisesInvalid (checkValid p >>= _)
          rw [checkValid_of_valid hp]
          split
          · exact not_raisesInvalid_outOfBounds
          · exact not_raisesInvalid_of_footprint (footprint_wordOrByteCpy _ _ _)
    | copyFromMemory p other srcOffset dstOffset len =>
      cases other with
      | none => exact iff_of_false (not_raisesInvalid_null _) (by simp [Entry.Guarded])
      | some q =>
        refine iff_of_true ?_ (by simp [Entry.Guarded])
        change RaisesInvalid (checkValid p >>= _)
        cases hp : p.valid with
        | false => exact raisesInvalid_checkValid hp _
        | true =>
          have hq : q.valid = false := by simpa [Entry.memories, hp] using h
          rw [checkValid_of_valid hp]
          exact raisesInvalid_checkValid hq _
    | set8 p | set16 p | set32 p | fill16 p | fill32 p | copy p | setLittleEndian32 p
    | setLittleEndian16 p | setBigEndian32 p | setBigEndian16 p =>
      have hp : p.valid = false := by simpa [Entry.memories, Call.self] using h
      exact iff_of_true (raisesInvalid_checkValid hp _) trivial
    | get8 p | get16 p | get32 p | getLittleEndian32 p | getLittleEndian16 p | getBigEndian32 p
    | getBigEndian16 p =>
      have hp : p.valid = false := by simpa [Entry.memories, Call.self] using h
      exact iff_of_true (raisesInvalid_discard hp _) trivial
  | clear p =>
    have hp : p.valid = false := by simpa [Entry.memories] using h
    exact iff_of_true (raisesInvalid_checkValid hp _) trivial
  | vmGet8 p pos =>
    exact iff_of_false (not_raisesInvalid_get _ (footprint_map _ (Footprint.read8 _))) id
  | vmGet32 p pos =>
    exact iff_of_false (not_raisesInvalid_get _ (Footprint.read32 _)) id
  | vmGetLittleEndian32 p pos =>
    exact iff_of_false (not_raisesInvalid_get _ (Footprint.read32 _)) id

end JxCore.Memory

namespace JxCore.Region

/-- The memory object as the accessors see it. -/
def MemoryProxy.view (p : MemoryProxy) (s : Sys) : Memory.MemoryProxy :=
  ⟨BitVec.ofNat 32 p.size, BitVec.ofNat 32 p.mem, (s.dz p.dz).valid != 0⟩

/-! ## Histories -/

/-- What happens to memory objects, apart from their death. -/
inductive Event where
  | call (c : Call)
  | copyMemory (self : MemoryProxy) (quota room : Nat)
  | access (e : Memory.Entry)

namespace Event

variable (dzMemory dzMemoryBorder : Nat)

def Possible (s : Sys) : Event → Prop
  | call c => c.Possible s
  | copyMemory self _ _ => self ∈ s.proxies
  | access e => ∀ m ∈ e.memories, ∃ p ∈ s.proxies, m = p.view s

/-- An access that is in range writes only into its memories (`Memory.confined_iff_inRange`), which
leaves the nodes alone; any other may overwrite them. -/
def Leads (s t : Sys) : Event → Prop
  | call c => c.Leads dzMemory dzMemoryBorder s t
  | copyMemory self quota room => ∃ o, Region.copyMemory self quota room s = .ok (o, t)
  | access e => e.InRange → t = s

def Benign (s : Sys) : Event → Prop
  | call c => c.Benign dzMemory dzMemoryBorder s
  | copyMemory _ _ _ => True
  | access e => e.InRange

/-- One step of a history. -/
def Step (s t : Sys) : Prop := ∃ e : Event, e.Possible s ∧ e.Leads dzMemory dzMemoryBorder s t

/-- One step of a history in which nothing goes wrong. -/
def BenignStep (s t : Sys) : Prop := ∃ e : Event, e.Possible s ∧
  e.Benign dzMemory dzMemoryBorder s ∧ e.Leads dzMemory dzMemoryBorder s t

end Event

/-- The object whose node the call replaces, if it returns. -/
def Call.target (s : Sys) : Call → Option MemoryProxy
  | createMemoryInstance _ _ _ _ => none
  | joinNext cdom self _ => if (s.dz self.dz).nextOwner = cdom then some self else none
  | getSubRange _ self _ _ _ _ _ | split2 _ self _ _ _ | split3 _ self _ _ _ _
  | joinPrevious _ self _ | joinAll _ _ self _ | revoke _ _ self _ => some self

section Invalid

variable {dzMemory dzMemoryBorder : Nat} {s t : Sys} {chain : Nat → List Nat} {o : Outcome}

/-- What a call other than a creation does to its object. -/
theorem Call.effect {c : Call} {self : MemoryProxy} (hs : Chains s chain) (hc : c.Possible s)
    (hb : c.Benign dzMemory dzMemoryBorder s) (hself : c.target s = some self)
    (hrun : c.run dzMemory dzMemoryBorder s = .ok (o, t)) :
    ∃ counted, Effect s t chain self.dz o counted := by
  cases c with
  | createMemoryInstance => cases hself
  | getSubRange =>
    cases hself
    exact ⟨_, memoryGetSubRange_effect hs hc hrun⟩
  | split2 =>
    cases hself
    exact ⟨_, memorySplit2_effect hs hc hrun⟩
  | split3 =>
    cases hself
    exact ⟨_, memorySplit3_effect hs hc hrun⟩
  | joinPrevious =>
    cases hself
    exact ⟨_, memoryJoinPrevious_effect hs hc hrun⟩
  | joinNext =>
    simp only [target, Option.ite_none_right_eq_some, Option.some.injEq] at hself
    obtain ⟨howner, rfl⟩ := hself
    exact ⟨_, (memoryJoinNext_effect hs hc hrun).resolve_left fun h => h.1 howner⟩
  | joinAll =>
    cases hself
    exact ⟨_, memoryJoinAll_effect hs hc hrun⟩
  | revoke =>
    cases hself
    rcases hb with hvalid | ⟨hprev, hnext, hroom⟩
    · rcases checkValid_ok hrun with hsame | ⟨hne, -⟩
      · exact ⟨False, .inl hsame⟩
      · exact absurd hvalid hne
    · exact ⟨_, memoryRevoke_effect hs hc hprev hnext hroom hrun⟩

/-- A call leaves what is invalid invalid. -/
theorem Call.invalid {c : Call} {n : Nat} (hs : Chains s chain) (hc : c.Possible s)
    (hb : c.Benign dzMemory dzMemoryBorder s)
    (hrun : c.run dzMemory dzMemoryBorder s = .ok (o, t)) (hn : (s.dz n).valid = 0) :
    (t.dz n).valid = 0 := by
  cases htarget : c.target s with
  | some self =>
    obtain ⟨_, heffect⟩ := c.effect hs hc hb htarget hrun
    exact heffect.invalid hs hn
  | none =>
    cases c with
    | createMemoryInstance block size bytes room =>
      obtain ⟨m, hm⟩ := createMemoryInstance_ok hrun
      have hne : n ≠ m := by
        rintro rfl
        have hv := hs.free n (by simp [hm.free])
        omega
      rw [hm.dz n, if_neg hne]
      exact hn
    | joinNext cdom self room =>
      rcases memoryJoinNext_effect hs hc hrun with ⟨-, rfl⟩ | heffect
      · exact hn
      · exact heffect.invalid hs hn
    | _ => cases htarget

/-- The object is invalid as soon as the call returns. -/
theorem Call.invalidates {c : Call} {self : MemoryProxy} (hs : Chains s chain)
    (hc : c.Possible s) (hb : c.Benign dzMemory dzMemoryBorder s)
    (hself : c.target s = some self)
    (hrun : c.run dzMemory dzMemoryBorder s = .ok (.returned, t)) : (t.dz self.dz).valid = 0 := by
  obtain ⟨_, ⟨-, hraised⟩ | ⟨i, left, mid, new, right, -, hmem, hrep, -⟩⟩ :=
    c.effect hs hc hb hself hrun
  · exact absurd rfl hraised
  · exact hrep.invalid _ hmem

/-- The chains do not look at the counts. -/
theorem Chained.of_counts {live : Nat → Option Allocation} {s t : Sys} (hs : Chained live s chain)
    (hdz : ∀ n, { t.dz n with refcount := 0 } = { s.dz n with refcount := 0 })
    (hfree : t.dzMemoryFreeList = s.dzMemoryFreeList)
    (hproxies : ∀ p ∈ t.proxies, p ∈ s.proxies ∨ ∃ q ∈ s.proxies, p.dz = q.dz ∧
      p.size = (s.dz p.dz).size ∧ p.mem = (s.dz p.dz).mem) : Chained live t chain := by
  simp only [DZMemoryProxy.mk.injEq, true_and] at hdz
  constructor
  case isChain =>
    intro i a ha
    obtain ⟨hlinked, howners, htiled⟩ := hs.isChain i a ha
    constructor
    case linked => exact hlinked.congr (fun x _ => (hdz x).2.2.2.1) fun x _ => (hdz x).2.2.2.2.1
    case owners =>
      exact howners.imp fun x y hxy => by rw [(hdz x).2.2.2.2.2.2, (hdz y).2.2.2.2.2.1, hxy]
    case tiled => exact htiled.congr (fun x _ => (hdz x).2.1) fun x _ => (hdz x).2.2.1
  case nodup => exact hs.nodup
  case disjoint => exact hs.disjoint
  case beyond => exact hs.beyond
  case valid => exact fun n => (hdz n).1 ▸ hs.valid n
  case free => exact fun n hn => (hdz n).1 ▸ hs.free n (hfree ▸ hn)
  case free_nodup => exact hfree ▸ hs.free_nodup
  case proxies =>
    intro p hp
    rw [(hdz p.dz).1, (hdz p.dz).2.1, (hdz p.dz).2.2.1]
    rcases hproxies p hp with hp | ⟨q, hq, hpq, hfields⟩
    · exact hs.proxies p hp
    · rcases hs.proxies q hq with hq | hq
      · exact .inl (hpq ▸ hq)
      · exact .inr ⟨hpq ▸ hq.1, hfields⟩

theorem copyMemory_ok {self : MemoryProxy} {quota room : Nat}
    (hrun : copyMemory self quota room s = .ok (o, t)) :
    t = s ∨ t = { s with
      proxies := s.proxies ++ [⟨(s.dz self.dz).size, (s.dz self.dz).mem, self.dz⟩]
      dz := Function.update s.dz self.dz
        { s.dz self.dz with refcount := (s.dz self.dz).refcount + 1 } } := by
  unfold copyMemory at hrun
  split at hrun
  · cases hrun
  cases room with
  | zero =>
    simp only [allocMemoryProxies, Except.ok.injEq, Prod.mk.injEq] at hrun
    exact .inl hrun.2.symm
  | succ room =>
    simp only [allocMemoryProxies, Except.ok.injEq, Prod.mk.injEq] at hrun
    exact .inr hrun.2.symm

/-- A copy in another domain changes nothing of a node but its count. -/
theorem copyMemory_chained {live : Nat → Option Allocation} {self : MemoryProxy} {quota room : Nat}
    (hs : Chained live s chain) (hself : self ∈ s.proxies)
    (hrun : copyMemory self quota room s = .ok (o, t)) :
    Chained live t chain ∧ t.allocated = s.allocated ∧ ∀ n, (t.dz n).valid = (s.dz n).valid := by
  rcases copyMemory_ok hrun with rfl | rfl
  · exact ⟨hs, rfl, fun _ => rfl⟩
  refine ⟨hs.of_counts (fun n => ?_) rfl fun p hp => ?_, rfl, fun n => ?_⟩
  · simp only [Function.update_apply]
    split_ifs with hn
    · rw [hn]
    · rfl
  · rcases List.mem_append.mp hp with hp | hp
    · exact .inl hp
    · rw [List.mem_singleton.mp hp]
      exact .inr ⟨self, hself, rfl, rfl, rfl⟩
  · simp only [Function.update_apply]
    split_ifs with hn
    · rw [hn]
    · rfl

/-- One step keeps the chains, and what is invalid stays so. -/
theorem Event.BenignStep.keeps (hs : Chains s chain)
    (h : Event.BenignStep dzMemory dzMemoryBorder s t) :
    (∃ chain', Chains t chain') ∧ ∀ n, (s.dz n).valid = 0 → (t.dz n).valid = 0 := by
  obtain ⟨e, hc, hb, hleads⟩ := h
  cases e with
  | call c =>
    refine ⟨c.keeps hs hc hb hleads, fun n hn => ?_⟩
    have hdefined := c.defined hs hc hb
    change c.Leads dzMemory dzMemoryBorder s t at hleads
    unfold Call.Leads at hleads
    split at hleads
    case h_1 hrun =>
      subst hleads
      exact c.invalid hs hc hb hrun hn
    case h_2 hrun => exact absurd hrun hdefined
    case h_3 => exact hleads.elim
  | copyMemory self quota room =>
    obtain ⟨o, hrun⟩ := hleads
    obtain ⟨ht, hallocated, hvalid⟩ := copyMemory_chained hs hc hrun
    rw [← hallocated] at ht
    exact ⟨⟨chain, ht⟩, fun n hn => (hvalid n).trans hn⟩
  | access e =>
    obtain rfl := hleads hb
    exact ⟨⟨chain, hs⟩, fun n hn => hn⟩

end Invalid

section Histories

variable {dzMemory dzMemoryBorder number : Nat} {s t : Sys}

theorem exists_chains (hrun : Relation.ReflTransGen (Event.BenignStep dzMemory dzMemoryBorder)
    (init number) s) : ∃ chain, Chains s chain := by
  refine invariant_of_run (I := fun s => ∃ chain, Chains s chain) ?_ hrun ⟨_, init_chains number⟩
  rintro s t ⟨chain, hs⟩ hstep
  exact (hstep.keeps hs).1

theorem invalid_of_run {n : Nat} {chain : Nat → List Nat} (hs : Chains s chain)
    (hn : (s.dz n).valid = 0)
    (hrun : Relation.ReflTransGen (Event.BenignStep dzMemory dzMemoryBorder) s t) :
    (t.dz n).valid = 0 := by
  have hinv : (∃ chain, Chains t chain) ∧ (t.dz n).valid = 0 := by
    refine invariant_of_run (I := fun s => (∃ chain, Chains s chain) ∧ (s.dz n).valid = 0) ?_ hrun
      ⟨⟨chain, hs⟩, hn⟩
    rintro s t ⟨⟨chain, hs⟩, hn⟩ hstep
    obtain ⟨ht, hvalid⟩ := hstep.keeps hs
    exact ⟨ht, hvalid n hn⟩
  exact hinv.2

/-- **Revocation.** After a call that took the node away from an object, whatever happens, an access
through an object of this node raises exactly if it is guarded. -/
theorem raises_iff_guarded_of_revoked (exceptionHandler : Memory.Jint → Stop)
    (bswap : Memory.Jint → Memory.Jint) {s₁ : Sys} {c : Call} {self p : MemoryProxy} {e : Memory.Entry}
    (hbefore : Relation.ReflTransGen (Event.BenignStep dzMemory dzMemoryBorder) (init number) s)
    (hc : c.Possible s) (hb : c.Benign dzMemory dzMemoryBorder s)
    (hself : c.target s = some self)
    (hrun : c.run dzMemory dzMemoryBorder s = .ok (.returned, s₁))
    (hafter : Relation.ReflTransGen (Event.BenignStep dzMemory dzMemoryBorder) s₁ t)
    (hp : p.dz = self.dz) (he : p.view t ∈ e.memories) :
    Memory.RaisesInvalid (e.run exceptionHandler bswap) ↔ e.Guarded := by
  obtain ⟨chain, hs⟩ := exists_chains hbefore
  obtain ⟨chain₁, hs₁⟩ := c.keeps hs hc hb (.of_ok hrun)
  have hinvalid := invalid_of_run hs₁ (c.invalidates hs hc hb hself hrun) hafter
  refine Memory.raisesInvalid_iff_guarded exceptionHandler bswap e ⟨p.view t, he, ?_⟩
  simp [MemoryProxy.view, hp, hinvalid]

end Histories

section Concrete

variable {dzMemory dzMemoryBorder : Nat} {s t : Sys} {o : Outcome}

theorem Event.Step.of_call {c : Call} (hc : c.Possible s)
    (h : c.run dzMemory dzMemoryBorder s = .ok (o, t)) : Event.Step dzMemory dzMemoryBorder s t :=
  ⟨.call c, hc, Call.Leads.of_ok h⟩

theorem Event.BenignStep.of_call {c : Call} (hc : c.Possible s)
    (hb : c.Benign dzMemory dzMemoryBorder s)
    (h : c.run dzMemory dzMemoryBorder s = .ok (o, t)) :
    Event.BenignStep dzMemory dzMemoryBorder s t :=
  ⟨.call c, hc, hb, Call.Leads.of_ok h⟩

theorem Event.BenignStep.of_copyMemory (self : MemoryProxy) (quota room : Nat)
    (hself : self ∈ s.proxies) (h : Region.copyMemory self quota room s = .ok (o, t)) :
    Event.BenignStep dzMemory dzMemoryBorder s t :=
  ⟨.copyMemory self quota room, hself, trivial, o, h⟩

/-- A memory is created, copied to another domain and revoked; the copy is dead. -/
theorem raises_of_copied : ∃ (t : Sys) (p : MemoryProxy), p ∈ t.proxies ∧ p.dz = 19998 ∧
    Memory.RaisesInvalid ((Memory.Entry.call (.set8 (p.view t) 0 1)).run Memory.raiseOutOfBounds id) := by
  have hrun : Relation.ReflTransGen (Event.BenignStep 0x300000 0x3afc80) (init 20000) _ :=
    .tail (.tail .refl
      (.of_call (c := .createMemoryInstance 0x400000 64 1 1) (by decide) trivial rfl))
      (.of_copyMemory ⟨64, 0x400000, 19998⟩ 100 1 (by decide) rfl)
  refine ⟨_, ⟨64, 0x400000, 19998⟩, ?_, rfl,
    (raises_iff_guarded_of_revoked (c := .revoke 2 7 ⟨64, 0x400000, 19998⟩ 1) _ id
      hrun (by decide) (.inr ⟨.inl rfl, .inl rfl, by decide⟩)
      rfl rfl .refl rfl (List.mem_singleton_self _)).mpr trivial⟩
  decide

/-- A memory is created and revoked; `memory_move` still moves its bytes. -/
theorem not_raises_move : ¬∀ (dzMemory dzMemoryBorder number : Nat) (s s₁ t : Sys) (c : Call)
    (self p : MemoryProxy) (e : Memory.Entry),
    Relation.ReflTransGen (Event.Step dzMemory dzMemoryBorder) (init number) s → c.Possible s →
    c.target s = some self → c.run dzMemory dzMemoryBorder s = .ok (.returned, s₁) →
    Relation.ReflTransGen (Event.Step dzMemory dzMemoryBorder) s₁ t →
    p ∈ t.proxies → p.dz = self.dz → p.view t ∈ e.memories →
    Memory.RaisesInvalid (e.run Memory.raiseOutOfBounds id) := by
  intro h
  have hraises := h 0x300000 0x3afc80 20000 _ _ _ (.revoke 2 7 ⟨64, 0x400000, 19998⟩ 1)
    ⟨64, 0x400000, 19998⟩ ⟨64, 0x400000, 19998⟩
    (.call (.move ⟨64, 0x400000, false⟩ 0 8 8))
    (.tail .refl (.of_call (c := .createMemoryInstance 0x400000 64 1 1) (by decide) rfl))
    (by decide) rfl rfl .refl (by decide) rfl (List.mem_singleton_self _)
  have hguarded := (Memory.raisesInvalid_iff_guarded _ id _ ⟨_, List.mem_singleton_self _, rfl⟩).mp
    hraises
  exact hguarded

end Concrete

end JxCore.Region
