import Mathlib.Data.PEquiv
import Mathlib.Logic.Function.Basic
import JxCore.Basic
import JxCore.Lib.DoublyLinked

/-!
# The threads of a domain (`core/thread.c`)

The threads of a domain form a doubly linked list that starts in the domain control block. A thread
control block is an object on the heap of the domain, so a collection moves it. A thread that ends is
taken out of the list, but its control block stays on the heap, at least until the next collection.

Another domain knows a thread by a proxy. It has the id of the thread and a pointer to the control
block, which is used as long as no collection has run in the domain of the thread.

The model has one slot of the table of domains, with the domains that use it one after the other, and
the proxies for their threads.
-/

namespace JxCore.ThreadTable

open Exec Relation

/-! ## The data -/

/-- An `u4_t`. -/
abbrev Word := BitVec 32

/-- A `ThreadDesc *`. -/
abbrev Address := Nat

/-- `ThreadDesc`. -/
structure ThreadDesc where
  id : Word
  nextInDomain : Option Address
  prevInDomain : Option Address
  /-- A record of the past: the thread has not ended. -/
  alive : Bool
  deriving DecidableEq

/-- `DomainDesc`, with the thread control blocks on its heap. -/
structure DomainDesc where
  id : Word
  /-- `state` is not `DOMAIN_STATE_FREE`. -/
  inUse : Bool
  threads : Option Address
  /-- `sched.currentThreadID`. -/
  currentThreadID : Word
  /-- `gc.epoch`. -/
  epoch : Word
  tcb : Address → Option ThreadDesc

/-- `ThreadDescForeignProxy`; the domain of its `DomainProxy` is the one slot. -/
structure ThreadDescForeignProxy where
  domainID : Word
  threadID : Word
  thread : Address
  gcEpoch : Word
  deriving DecidableEq

namespace DomainDesc

/-- A write to a thread control block. -/
def modify (dom : DomainDesc) (a : Address) (f : ThreadDesc → ThreadDesc) : DomainDesc :=
  { dom with tcb := Function.update dom.tcb a ((dom.tcb a).map f) }

/-- A write to a thread control block, if there is one. -/
def modify? (dom : DomainDesc) (a : Option Address) (f : ThreadDesc → ThreadDesc) : DomainDesc :=
  a.elim dom fun a => dom.modify a f

/-- `createThreadInMem` when the control block has been allocated. -/
def createThread (dom : DomainDesc) (thread : Address) : DomainDesc :=
  let id := dom.currentThreadID + 1
  let first := dom.threads
  let dom := { dom with
    currentThreadID := id
    tcb := Function.update dom.tcb thread (some ⟨id, first, none, true⟩) }
  { dom.modify? first fun t => { t with prevInDomain := some thread } with threads := some thread }

/-- `terminateThread_internal` for the thread with control block `t`. -/
def terminateThread (dom : DomainDesc) (thread : Address) (t : ThreadDesc) : DomainDesc :=
  let dom := dom.modify? t.prevInDomain fun p => { p with nextInDomain := t.nextInDomain }
  let dom := { dom with threads := t.prevInDomain.elim t.nextInDomain fun _ => dom.threads }
  let dom := dom.modify? t.nextInDomain fun n => { n with prevInDomain := t.prevInDomain }
  dom.modify thread fun t => { t with alive := false }

/-- `MOVETCB` for the pointers of a control block that has been moved (`gc_impl_walkContentCPUState`). -/
def moveTcb (move : Address ≃. Address) (t : ThreadDesc) : ThreadDesc :=
  { t with nextInDomain := t.nextInDomain.bind move, prevInDomain := t.prevInDomain.bind move }

/-- A collection, which moves the control blocks and begins a new epoch. -/
def collect (dom : DomainDesc) (move : Address ≃. Address) : DomainDesc :=
  { dom with
    threads := dom.threads.bind move
    tcb := fun b => (move.symm b).bind fun a => (dom.tcb a).map (moveTcb move)
    epoch := dom.epoch + 1 }

/-- The text of `terminateDomain`: the heap is given back, the control block of the domain stays as it
is. Without `NEW_SCHED` a `sys_panic("")` comes before that, so the kernel as it is built has fewer runs
than the steps here. -/
def terminate (dom : DomainDesc) : DomainDesc := { dom with inUse := false, tcb := fun _ => none }

/-- `createDomain` in the slot. -/
def create (id : Word) : DomainDesc := ⟨id, true, none, 0, 0, fun _ => none⟩

end DomainDesc

/-- The proxy that `copy_cpustate` makes in another domain (`allocThreadDescForeignProxyInDomain`). -/
def foreignProxy (dom : DomainDesc) (thread : Address) (t : ThreadDesc) : ThreadDescForeignProxy :=
  ⟨dom.id, t.id, thread, dom.epoch⟩

/-- The loop of `findThreadDesc`. -/
def findInList (dom : DomainDesc) (id : Word) : Nat → Option Address → Exec (Option Address)
  | 0, _ => loop none
  | _ + 1, none => return none
  | fuel + 1, some a =>
    match dom.tcb a with
    | none => throw .wild
    | some t => if t.id = id then return some a else findInList dom id fuel t.nextInDomain

/-- `findThreadDesc`, with the proxy as it leaves it. -/
def findThreadDesc (dom : DomainDesc) (proxy : ThreadDescForeignProxy) (fuel : Nat) :
    Exec (Option Address × ThreadDescForeignProxy) := do
  if dom.id ≠ proxy.domainID then return (none, proxy)
  else if proxy.gcEpoch ≠ dom.epoch then
    let t ← findInList dom proxy.threadID fuel dom.threads
    return (t, t.elim proxy fun a => { proxy with thread := a, gcEpoch := dom.epoch })
  else return (some proxy.thread, proxy)

/-! ## Runs -/

structure State where
  dom : DomainDesc
  /-- The next id for a domain. -/
  currentDomainID : Word
  proxies : Nat → Option ThreadDescForeignProxy

/-- Before the first domain. -/
def State.boot : State := ⟨⟨0, false, none, 0, 0, fun _ => none⟩, 0, fun _ => none⟩

/-- What the collector promises: the control blocks that the list reaches survive, and those that a
survivor points to. -/
structure Keeps (dom : DomainDesc) (move : Address ≃. Address) : Prop where
  threads : ∀ a, dom.threads = some a → (move a).isSome
  next : ∀ a t b, (move a).isSome → dom.tcb a = some t → t.nextInDomain = some b → (move b).isSome
  prev : ∀ a t b, (move a).isSome → dom.tcb a = some t → t.prevInDomain = some b → (move b).isSome

/-- One step. -/
inductive Step (s : State) : State → Prop where
  /-- The allocation of the control block may have run the collector before, which is a step. -/
  | createThread (thread : Address) (hfree : s.dom.tcb thread = none) (huse : s.dom.inUse) :
      Step s { s with dom := s.dom.createThread thread }
  | terminateThread (thread : Address) (t : ThreadDesc) (htcb : s.dom.tcb thread = some t)
      (halive : t.alive) :
      Step s { s with dom := s.dom.terminateThread thread t }
  | collect (move : Address ≃. Address) (hkeeps : Keeps s.dom move) (huse : s.dom.inUse) :
      Step s { s with dom := s.dom.collect move }
  /-- A control block, also one of a thread that has ended, is copied to another domain. -/
  | copy (n : Nat) (thread : Address) (t : ThreadDesc) (htcb : s.dom.tcb thread = some t) :
      Step s { s with proxies := Function.update s.proxies n (some (foreignProxy s.dom thread t)) }
  /-- A domain uses a proxy. -/
  | find (n : Nat) (proxy proxy' : ThreadDescForeignProxy) (r : Option Address)
      (hproxy : s.proxies n = some proxy)
      (hret : Returns (findThreadDesc s.dom proxy) (r, proxy')) :
      Step s { s with proxies := Function.update s.proxies n (some proxy') }
  | terminateDomain (huse : s.dom.inUse) : Step s { s with dom := s.dom.terminate }
  | createDomain (hfree : ¬ s.dom.inUse) :
      Step s { s with dom := .create s.currentDomainID, currentDomainID := s.currentDomainID + 1 }
  /-- A domain is made in another slot. -/
  | otherDomain : Step s { s with currentDomainID := s.currentDomainID + 1 }

/-- No counter comes round in the next step. -/
structure Below (s : State) : Prop where
  threads : s.dom.currentThreadID.toNat + 1 < 2 ^ 32
  epoch : s.dom.epoch.toNat + 1 < 2 ^ 32
  domains : s.currentDomainID.toNat + 1 < 2 ^ 32

/-! ## The list and the proxies -/

namespace DomainDesc

/-- The thread exists. -/
def Exists (dom : DomainDesc) (a : Address) : Prop := ∃ t, dom.tcb a = some t ∧ t.alive

/-- `nextInDomain` of a control block. -/
def next (dom : DomainDesc) (a : Address) : Option Address := (dom.tcb a).bind (·.nextInDomain)

/-- `prevInDomain` of a control block. -/
def prev (dom : DomainDesc) (a : Address) : Option Address := (dom.tcb a).bind (·.prevInDomain)

end DomainDesc

/-- **The list has the existing threads**, once each, with `prevInDomain` as the inverse of
`nextInDomain`, and they have different ids. -/
structure Listed (dom : DomainDesc) : Prop where
  list : ∃ l : List Address, dom.threads = l.head? ∧ Linked dom.prev dom.next none l none ∧ l.Nodup ∧
    ∀ a, a ∈ l ↔ dom.Exists a
  ids : ∀ a b t u, dom.tcb a = some t → dom.tcb b = some u → t.alive → u.alive → t.id = u.id → a = b

/-- **`findThreadDesc` finds an existing thread or none.** -/
def Finds (dom : DomainDesc) (proxy : ThreadDescForeignProxy) : Prop :=
  ∃ r proxy', Returns (findThreadDesc dom proxy) (r, proxy') ∧
    ∀ a, r = some a → dom.id = proxy.domainID ∧ dom.Exists a ∧
      ∃ t, dom.tcb a = some t ∧ t.id = proxy.threadID

/-- When it does: the slot has another domain by now; or no collection has run since the pointer was
taken, and the thread still exists; or one has run, and the domain exists or ended without threads. -/
def Current (dom : DomainDesc) (proxy : ThreadDescForeignProxy) : Prop :=
  dom.id ≠ proxy.domainID ∨
    if proxy.gcEpoch = dom.epoch then
      ∃ a t, dom.tcb a = some t ∧ t.alive ∧ t.id = proxy.threadID
    else dom.inUse ∨ dom.threads = none

/-! ## What the operations do to the control blocks -/

namespace DomainDesc

variable {dom : DomainDesc}

theorem tcb_modify (dom : DomainDesc) (a b : Address) (f : ThreadDesc → ThreadDesc) :
    (dom.modify a f).tcb b = if b = a then (dom.tcb b).map f else dom.tcb b := by
  change Function.update dom.tcb a ((dom.tcb a).map f) b = _
  by_cases h : b = a
  · subst h
    rw [if_pos rfl, Function.update_self]
  · rw [if_neg h, Function.update_of_ne h]

theorem tcb_modify? (dom : DomainDesc) (a : Option Address) (b : Address)
    (f : ThreadDesc → ThreadDesc) :
    (dom.modify? a f).tcb b = if a = some b then (dom.tcb b).map f else dom.tcb b := by
  cases a with
  | none => simp [modify?]
  | some a => simp [modify?, tcb_modify, eq_comm]

/-- Only the control blocks change. -/
theorem modify?_eq (dom : DomainDesc) (a : Option Address) (f : ThreadDesc → ThreadDesc) :
    dom.modify? a f = { dom with tcb := (dom.modify? a f).tcb } := by
  cases a <;> rfl

theorem createThread_eq (dom : DomainDesc) (thread : Address) :
    dom.createThread thread = { dom with
      currentThreadID := dom.currentThreadID + 1
      threads := some thread
      tcb := (dom.createThread thread).tcb } := by
  simp only [createThread]
  rw [modify?_eq]

section

variable (dom : DomainDesc) (thread : Address)

@[simp] theorem createThread_id : (dom.createThread thread).id = dom.id := by
  rw [createThread_eq]

@[simp] theorem createThread_inUse : (dom.createThread thread).inUse = dom.inUse := by
  rw [createThread_eq]

@[simp] theorem createThread_epoch : (dom.createThread thread).epoch = dom.epoch := by
  rw [createThread_eq]

@[simp] theorem createThread_currentThreadID :
    (dom.createThread thread).currentThreadID = dom.currentThreadID + 1 := by
  rw [createThread_eq]

end

theorem terminateThread_eq (dom : DomainDesc) (thread : Address) (t : ThreadDesc) :
    dom.terminateThread thread t = { dom with
      threads := t.prevInDomain.elim t.nextInDomain fun _ => dom.threads
      tcb := (dom.terminateThread thread t).tcb } := by
  simp only [terminateThread, modify]
  rw [modify?_eq, modify?_eq]

section

variable (dom : DomainDesc) (thread : Address) (t : ThreadDesc)

@[simp] theorem terminateThread_id : (dom.terminateThread thread t).id = dom.id := by
  rw [terminateThread_eq]

@[simp] theorem terminateThread_inUse : (dom.terminateThread thread t).inUse = dom.inUse := by
  rw [terminateThread_eq]

@[simp] theorem terminateThread_epoch : (dom.terminateThread thread t).epoch = dom.epoch := by
  rw [terminateThread_eq]

@[simp] theorem terminateThread_currentThreadID :
    (dom.terminateThread thread t).currentThreadID = dom.currentThreadID := by
  rw [terminateThread_eq]

end

theorem createThread_tcb (dom : DomainDesc) (thread b : Address) :
    (dom.createThread thread).tcb b =
      if dom.threads = some b then
        (Function.update dom.tcb thread (some ⟨dom.currentThreadID + 1, dom.threads, none, true⟩) b).map
          fun t => { t with prevInDomain := some thread }
      else Function.update dom.tcb thread (some ⟨dom.currentThreadID + 1, dom.threads, none, true⟩) b := by
  simp only [createThread, tcb_modify?]

/-- After `createThread` there is one control block more; the others keep their ids. -/
theorem createThread_cases {thread b : Address} {u : ThreadDesc}
    (h : (dom.createThread thread).tcb b = some u) :
    b = thread ∧ u.id = dom.currentThreadID + 1 ∨ ∃ t, dom.tcb b = some t ∧ t.id = u.id := by
  rw [createThread_tcb] at h
  by_cases hb : b = thread
  · subst hb
    rw [Function.update_self] at h
    split_ifs at h
    · cases h
      exact .inl ⟨rfl, rfl⟩
    · cases h
      exact .inl ⟨rfl, rfl⟩
  · rw [Function.update_of_ne hb] at h
    split_ifs at h
    · obtain ⟨t, ht, rfl⟩ := Option.map_eq_some_iff.mp h
      exact .inr ⟨t, ht, rfl⟩
    · exact .inr ⟨u, h, rfl⟩

theorem createThread_of_some {thread b : Address} {t : ThreadDesc} (hfree : dom.tcb thread = none)
    (h : dom.tcb b = some t) : ∃ u, (dom.createThread thread).tcb b = some u ∧ u.id = t.id := by
  have hb : b ≠ thread := by
    rintro rfl
    rw [hfree] at h
    cases h
  rw [createThread_tcb, Function.update_of_ne hb, h]
  split_ifs
  · exact ⟨_, rfl, rfl⟩
  · exact ⟨t, rfl, rfl⟩

theorem terminateThread_tcb (dom : DomainDesc) (thread : Address) (t : ThreadDesc) (b : Address) :
    (dom.terminateThread thread t).tcb b = (dom.tcb b).map fun u =>
      ⟨u.id, if t.prevInDomain = some b then t.nextInDomain else u.nextInDomain,
        if t.nextInDomain = some b then t.prevInDomain else u.prevInDomain,
        if b = thread then false else u.alive⟩ := by
  simp only [terminateThread, tcb_modify, tcb_modify?]
  cases dom.tcb b with
  | none => simp
  | some u =>
    simp only [Option.map_some]
    split_ifs <;> rfl

theorem terminateThread_next (dom : DomainDesc) (thread : Address) (t : ThreadDesc) (b : Address) :
    (dom.terminateThread thread t).next b =
      if t.prevInDomain = some b then (dom.tcb b).bind fun _ => t.nextInDomain else dom.next b := by
  simp only [next, terminateThread_tcb]
  cases dom.tcb b <;> simp

theorem terminateThread_prev (dom : DomainDesc) (thread : Address) (t : ThreadDesc) (b : Address) :
    (dom.terminateThread thread t).prev b =
      if t.nextInDomain = some b then (dom.tcb b).bind fun _ => t.prevInDomain else dom.prev b := by
  simp only [prev, terminateThread_tcb]
  cases dom.tcb b <;> simp

theorem terminateThread_exists (dom : DomainDesc) (thread : Address) (t : ThreadDesc) (b : Address) :
    (dom.terminateThread thread t).Exists b ↔ b ≠ thread ∧ dom.Exists b := by
  simp only [Exists, terminateThread_tcb]
  cases dom.tcb b <;> simp [and_comm]

theorem collect_tcb {move : Address ≃. Address} {a b : Address} (h : move a = some b) :
    (dom.collect move).tcb b = (dom.tcb a).map (moveTcb move) := by
  have hsymm : move.symm b = some a := move.eq_some_iff.mpr h
  simp [collect, hsymm]

/-- What lies at an address after a collection was moved there. -/
theorem collect_tcb_eq_some {move : Address ≃. Address} {b : Address} {u : ThreadDesc}
    (h : (dom.collect move).tcb b = some u) :
    ∃ a t, move a = some b ∧ dom.tcb a = some t ∧ u = moveTcb move t := by
  simp only [collect, Option.bind_eq_some_iff, Option.map_eq_some_iff] at h
  obtain ⟨a, ha, t, ht, rfl⟩ := h
  exact ⟨a, t, move.eq_some_iff.mp ha, ht, rfl⟩

end DomainDesc

/-! ## The list stays a list -/

section List

variable {dom : DomainDesc}

/-- The list `l` has the existing threads. -/
structure IsList (dom : DomainDesc) (l : List Address) : Prop where
  threads : dom.threads = l.head?
  linked : Linked dom.prev dom.next none l none
  nodup : l.Nodup
  mem : ∀ a, a ∈ l ↔ dom.Exists a

theorem IsList.createThread {l : List Address} (h : IsList dom l) {thread : Address}
    (hfree : dom.tcb thread = none) : IsList (dom.createThread thread) (thread :: l) := by
  have hnotMem : thread ∉ l := by
    rw [h.mem]
    rintro ⟨t, ht, -⟩
    rw [hfree] at ht
    cases ht
  have hfirst : dom.threads ≠ some thread := fun heq =>
    hnotMem (List.mem_of_head? (h.threads.symm.trans heq))
  have hnew : (dom.createThread thread).tcb thread =
      some ⟨dom.currentThreadID + 1, dom.threads, none, true⟩ := by
    rw [DomainDesc.createThread_tcb, if_neg hfirst, Function.update_self]
  have hold : ∀ b, b ≠ thread → (dom.createThread thread).tcb b = if dom.threads = some b then
      (dom.tcb b).map fun t => { t with prevInDomain := some thread } else dom.tcb b := by
    intro b hb
    rw [DomainDesc.createThread_tcb, Function.update_of_ne hb]
  have hne : ∀ b ∈ l, b ≠ thread := fun b hb heq => hnotMem (heq ▸ hb)
  have hnext : ∀ b ∈ l, (dom.createThread thread).next b = dom.next b := by
    intro b hb
    unfold DomainDesc.next
    rw [hold b (hne b hb)]
    split_ifs
    · cases dom.tcb b <;> rfl
    · rfl
  refine ⟨?_, ⟨?_, ?_, ?_⟩, List.nodup_cons.mpr ⟨hnotMem, h.nodup⟩, ?_⟩
  · rw [DomainDesc.createThread_eq]
    rfl
  · simp [DomainDesc.prev, hnew]
  · simp [DomainDesc.next, hnew, h.threads]
  · refine h.linked.set_prev h.nodup hnext (fun b hb hb' => ?_) fun b hb => ?_
    · unfold DomainDesc.prev
      rw [hold b (hne b hb), if_neg (by rwa [h.threads])]
    · obtain ⟨t, ht, -⟩ := (h.mem b).mp (List.mem_of_head? hb)
      unfold DomainDesc.prev
      rw [hold b (hne b (List.mem_of_head? hb)), if_pos (h.threads.trans hb), ht]
      rfl
  · intro b
    by_cases hb : b = thread
    · subst hb
      simp [DomainDesc.Exists, hnew]
    · have hsame : (dom.createThread thread).Exists b ↔ dom.Exists b := by
        unfold DomainDesc.Exists
        rw [hold b hb]
        split_ifs
        · cases dom.tcb b <;> simp
        · rfl
      rw [hsame, ← h.mem, List.mem_cons, or_iff_right hb]

theorem IsList.terminateThread {l : List Address} (h : IsList dom l) {thread : Address}
    {t : ThreadDesc} (htcb : dom.tcb thread = some t) (halive : t.alive) :
    ∃ l', IsList (dom.terminateThread thread t) l' := by
  obtain ⟨l₁, l₂, rfl⟩ := List.append_of_mem ((h.mem thread).mpr ⟨t, htcb, halive⟩)
  have hprev : dom.prev thread = t.prevInDomain := by simp [DomainDesc.prev, htcb]
  have hnext : dom.next thread = t.nextInDomain := by simp [DomainDesc.next, htcb]
  obtain ⟨hbefore, hbehind⟩ := h.linked.at_mem
  rw [Option.or_none, hprev] at hbefore
  rw [Option.or_none, hnext] at hbehind
  have hnodup := h.nodup
  have hmid : thread ∉ l₁ ++ l₂ := (List.nodup_middle.mp hnodup).notMem
  refine ⟨l₁ ++ l₂, ?_, ?_, (List.nodup_middle.mp hnodup).of_cons, ?_⟩
  · rw [DomainDesc.terminateThread_eq]
    simp only
    rw [hbefore, hbehind, h.threads, List.head?_append, List.head?_append]
    cases l₁ with
    | nil => rfl
    | cons b l₁ =>
      have hsome : (b :: l₁).getLast? ≠ none := by simp
      obtain ⟨c, hc⟩ := Option.ne_none_iff_exists'.mp hsome
      rw [hc]
      rfl
  · refine h.linked.unlink h.nodup (fun b hb => ?_) (fun b hb => ?_) (fun b hb => ?_) fun b hb => ?_
    · rw [DomainDesc.terminateThread_next, if_neg (hprev ▸ hb)]
    · have hb₁ : b ∈ l₁ := List.mem_of_getLast? (hbefore.symm.trans (hprev.symm.trans hb))
      obtain ⟨u, hu, -⟩ := (h.mem b).mp (List.mem_append_left _ hb₁)
      rw [DomainDesc.terminateThread_next, if_pos (hprev.symm.trans hb), hu, hnext]
      rfl
    · rw [DomainDesc.terminateThread_prev, if_neg (hnext ▸ hb)]
    · have hb₂ : b ∈ l₂ := List.mem_of_head? (hbehind.symm.trans (hnext.symm.trans hb))
      obtain ⟨u, hu, -⟩ := (h.mem b).mp (List.mem_append_right _ (List.mem_cons_of_mem _ hb₂))
      rw [DomainDesc.terminateThread_prev, if_pos (hnext.symm.trans hb), hu, hprev]
      rfl
  · intro b
    rw [DomainDesc.terminateThread_exists, ← h.mem]
    simp only [List.mem_append, List.mem_cons] at hmid ⊢
    grind

/-- Where the list begins at a thread that survives a collection, all its threads survive. -/
theorem survives_of_head {move : Address ≃. Address} (hkeeps : Keeps dom move) {l : List Address}
    {p : Option Address} (hlinked : Linked dom.prev dom.next p l none)
    (hmem : ∀ a ∈ l, ∃ t, dom.tcb a = some t) (hhead : ∀ a, l.head? = some a → (move a).isSome) :
    ∀ a ∈ l, (move a).isSome := by
  induction l generalizing p with
  | nil => exact fun a ha => absurd ha List.not_mem_nil
  | cons a l ih =>
    have ha := hhead a rfl
    obtain ⟨t, ht⟩ := hmem a List.mem_cons_self
    have hnext : t.nextInDomain = l.head? := by
      have hlink := hlinked.2.1
      rwa [Option.or_none, DomainDesc.next, ht, Option.bind_some] at hlink
    have hrest := ih hlinked.2.2 (fun b hb => hmem b (List.mem_cons_of_mem a hb))
      fun b hb => hkeeps.next a t b ha ht (hnext.trans hb)
    exact List.forall_mem_cons.mpr ⟨ha, hrest⟩

/-- A collection moves the list. -/
theorem IsList.collect {l : List Address} (h : IsList dom l) {move : Address ≃. Address}
    (hkeeps : Keeps dom move) : ∃ l', IsList (dom.collect move) l' := by
  have htcb : ∀ a ∈ l, ∃ t, dom.tcb a = some t := by
    intro a ha
    obtain ⟨t, ht, -⟩ := (h.mem a).mp ha
    exact ⟨t, ht⟩
  have hsurvives := survives_of_head hkeeps h.linked htcb fun a ha =>
    hkeeps.threads a (h.threads.trans ha)
  let f : Address → Address := fun a => (move a).getD 0
  have hf : ∀ a, (move a).isSome → move a = some (f a) := by
    intro a ha
    obtain ⟨b, hb⟩ := Option.isSome_iff_exists.mp ha
    simp [f, hb]
  have hbind : ∀ o : Option Address, (∀ b, o = some b → (move b).isSome) → o.bind move = o.map f := by
    intro o ho
    cases o with
    | none => rfl
    | some b => exact hf b (ho b rfl)
  have hlinked : Linked (dom.collect move).prev (dom.collect move).next none (l.map f) none := by
    refine h.linked.map (fun a ha => ?_) fun a ha => ?_
    · obtain ⟨t, ht⟩ := htcb a ha
      have hmove := hsurvives a ha
      simp only [DomainDesc.prev, DomainDesc.collect_tcb (hf a hmove), ht, Option.map_some,
        Option.bind_some, DomainDesc.moveTcb]
      exact hbind _ fun b hb => hkeeps.prev a t b hmove ht hb
    · obtain ⟨t, ht⟩ := htcb a ha
      have hmove := hsurvives a ha
      simp only [DomainDesc.next, DomainDesc.collect_tcb (hf a hmove), ht, Option.map_some,
        Option.bind_some, DomainDesc.moveTcb]
      exact hbind _ fun b hb => hkeeps.next a t b hmove ht hb
  refine ⟨l.map f, ?_, hlinked, ?_, ?_⟩
  · change dom.threads.bind move = (l.map f).head?
    rw [hbind _ hkeeps.threads, h.threads, List.head?_map]
  · refine List.Nodup.map_on (fun a ha b hb heq => ?_) h.nodup
    exact move.inj (hf a (hsurvives a ha)) (heq ▸ hf b (hsurvives b hb))
  · intro b
    rw [List.mem_map]
    constructor
    · rintro ⟨a, ha, rfl⟩
      obtain ⟨t, ht, halive⟩ := (h.mem a).mp ha
      refine ⟨DomainDesc.moveTcb move t, ?_, halive⟩
      rw [DomainDesc.collect_tcb (hf a (hsurvives a ha)), ht, Option.map_some]
    · rintro ⟨u, hu, halive⟩
      obtain ⟨a, t, hmove, ht, rfl⟩ := DomainDesc.collect_tcb_eq_some hu
      exact ⟨a, (h.mem a).mpr ⟨t, ht, halive⟩, by simp [f, hmove]⟩

end List

/-! ## What every state has -/

/-- The invariant of the runs in which no counter comes round. -/
structure Inv (s : State) : Prop where
  list : s.dom.inUse → ∃ l, IsList s.dom l
  ids : ∀ a b t u, s.dom.tcb a = some t → s.dom.tcb b = some u → t.id = u.id → a = b
  below : ∀ a t, s.dom.tcb a = some t → t.id.toNat ≤ s.dom.currentThreadID.toNat
  gone : ¬ s.dom.inUse → ∀ a, s.dom.tcb a = none
  slot : s.dom.inUse → s.dom.id.toNat < s.currentDomainID.toNat
  domains : ∀ n p, s.proxies n = some p → p.domainID.toNat < s.currentDomainID.toNat
  /-- The cached pointer leads to the control block until the next collection. -/
  cached : ∀ n p, s.proxies n = some p → p.domainID = s.dom.id →
    p.gcEpoch.toNat ≤ s.dom.epoch.toNat ∧ (s.dom.inUse → p.gcEpoch = s.dom.epoch →
      ∃ t, s.dom.tcb p.thread = some t ∧ t.id = p.threadID)

theorem Inv.boot : Inv State.boot := by
  constructor <;> simp [State.boot]

/-- The search ends, and what it finds is a thread of the list with this id. -/
theorem findInList_returns {dom : DomainDesc} (id : Word) {l : List Address} {p : Option Address}
    (hlinked : Linked dom.prev dom.next p l none) (hmem : ∀ a ∈ l, dom.Exists a) :
    ∃ r, Returns (fun fuel => findInList dom id fuel l.head?) r ∧
      ∀ a, r = some a → dom.Exists a ∧ ∃ t, dom.tcb a = some t ∧ t.id = id := by
  induction l generalizing p with
  | nil =>
    refine ⟨none, ⟨1, fun fuel hfuel => ?_⟩, fun a ha => by cases ha⟩
    obtain ⟨k, rfl⟩ := Nat.exists_eq_add_of_le' hfuel
    rfl
  | cons a l ih =>
    obtain ⟨t, ht, halive⟩ := hmem a List.mem_cons_self
    have hnext : t.nextInDomain = l.head? := by
      have hlink := hlinked.2.1
      rwa [Option.or_none, DomainDesc.next, ht, Option.bind_some] at hlink
    have hstep : ∀ fuel, findInList dom id (fuel + 1) (some a) =
        if t.id = id then return some a else findInList dom id fuel l.head? := by
      intro fuel
      rw [findInList, ht, ← hnext]
    by_cases hid : t.id = id
    · refine ⟨some a, ⟨1, fun fuel hfuel => ?_⟩, ?_⟩
      · obtain ⟨k, rfl⟩ := Nat.exists_eq_add_of_le' hfuel
        exact (hstep k).trans (if_pos hid)
      · rintro b ⟨⟩
        exact ⟨⟨t, ht, halive⟩, t, ht, hid⟩
    · obtain ⟨r, hr, hfound⟩ := ih hlinked.2.2 fun b hb => hmem b (List.mem_cons_of_mem a hb)
      refine ⟨r, (returns_succ_iff fun fuel => ?_).mpr hr, hfound⟩
      exact (hstep fuel).trans (if_neg hid)

section FindThreadDesc

variable {dom : DomainDesc} {proxy : ThreadDescForeignProxy}

/-- A proxy of an earlier domain of the slot. -/
theorem findThreadDesc_of_gone (h : dom.id ≠ proxy.domainID) :
    Returns (findThreadDesc dom proxy) (none, proxy) :=
  ⟨0, fun fuel _ => by rw [findThreadDesc, if_pos h]⟩

/-- The cached pointer is used. -/
theorem findThreadDesc_of_cached (hid : dom.id = proxy.domainID) (h : proxy.gcEpoch = dom.epoch) :
    Returns (findThreadDesc dom proxy) (some proxy.thread, proxy) :=
  ⟨0, fun fuel _ => by rw [findThreadDesc, if_neg (not_not.mpr hid), if_neg (not_not.mpr h)]⟩

/-- The list is searched. -/
theorem findThreadDesc_iff_of_epoch (hid : dom.id = proxy.domainID) (h : proxy.gcEpoch ≠ dom.epoch)
    {x : Option Address × ThreadDescForeignProxy} :
    Returns (findThreadDesc dom proxy) x ↔
      ∃ r, Returns (fun fuel => findInList dom proxy.threadID fuel dom.threads) r ∧
        x = (r, r.elim proxy fun a => { proxy with thread := a, gcEpoch := dom.epoch }) := by
  have hcall : findThreadDesc dom proxy = fun fuel =>
      findInList dom proxy.threadID fuel dom.threads >>= fun r =>
        pure (r, r.elim proxy fun a => { proxy with thread := a, gcEpoch := dom.epoch }) := by
    funext fuel
    rw [findThreadDesc, if_neg (not_not.mpr hid), if_pos h]
  rw [hcall]
  exact returns_map_iff fun r r' heq => (Prod.mk.inj heq).1

end FindThreadDesc

section Steps

variable {s : State}

theorem Inv.createThread (h : Inv s) {thread : Address} (hfree : s.dom.tcb thread = none)
    (huse : s.dom.inUse) (hbelow : Below s) :
    Inv { s with dom := s.dom.createThread thread } := by
  have hcount : (s.dom.currentThreadID + 1).toNat = s.dom.currentThreadID.toNat + 1 := by
    have := hbelow.threads
    bv_omega
  have hold : ∀ b t, s.dom.tcb b = some t → t.id ≠ s.dom.currentThreadID + 1 := by
    intro b t ht hid
    have := h.below b t ht
    rw [hid] at this
    omega
  refine ⟨fun _ => ?_, ?_, ?_, fun hgone => ?_, fun _ => ?_, h.domains, ?_⟩
  · obtain ⟨l, hl⟩ := h.list huse
    exact ⟨thread :: l, hl.createThread hfree⟩
  · intro a b t u ha hb hid
    obtain ⟨rfl, ht⟩ | ⟨t', ha', ht⟩ := DomainDesc.createThread_cases ha
    · obtain ⟨rfl, -⟩ | ⟨u', hb', hu⟩ := DomainDesc.createThread_cases hb
      · rfl
      · exact absurd (hu.trans (hid.symm.trans ht)) (hold b u' hb')
    · obtain ⟨rfl, hu⟩ | ⟨u', hb', hu⟩ := DomainDesc.createThread_cases hb
      · exact absurd (ht.trans (hid.trans hu)) (hold a t' ha')
      · exact h.ids a b t' u' ha' hb' (ht.trans (hid.trans hu.symm))
  · intro a t ha
    simp only [DomainDesc.createThread_currentThreadID, hcount]
    obtain ⟨-, ht⟩ | ⟨t', ha', ht⟩ := DomainDesc.createThread_cases ha
    · rw [ht, hcount]
    · rw [← ht]
      exact Nat.le_succ_of_le (h.below a t' ha')
  · exact absurd huse (by simpa using hgone)
  · simpa using h.slot huse
  · intro n p hp hid
    simp only [DomainDesc.createThread_id, DomainDesc.createThread_epoch] at hid ⊢
    obtain ⟨hle, hcached⟩ := h.cached n p hp hid
    refine ⟨hle, fun _ hepoch => ?_⟩
    obtain ⟨t, ht, htid⟩ := hcached huse hepoch
    obtain ⟨u, hu, huid⟩ := DomainDesc.createThread_of_some hfree ht
    exact ⟨u, hu, huid.trans htid⟩

theorem Inv.terminateThread (h : Inv s) {thread : Address} {t : ThreadDesc}
    (htcb : s.dom.tcb thread = some t) (halive : t.alive) :
    Inv { s with dom := s.dom.terminateThread thread t } := by
  -- the control blocks stay, with their ids
  have hback : ∀ b u, (s.dom.terminateThread thread t).tcb b = some u →
      ∃ v, s.dom.tcb b = some v ∧ v.id = u.id := by
    intro b u hu
    rw [DomainDesc.terminateThread_tcb] at hu
    obtain ⟨v, hv, rfl⟩ := Option.map_eq_some_iff.mp hu
    exact ⟨v, hv, rfl⟩
  have huse : s.dom.inUse := by
    by_contra hgone
    rw [h.gone hgone thread] at htcb
    cases htcb
  refine ⟨fun _ => ?_, ?_, ?_, fun hgone => ?_, fun _ => ?_, h.domains, ?_⟩
  · obtain ⟨l, hl⟩ := h.list huse
    exact hl.terminateThread htcb halive
  · intro a b u v ha hb hid
    obtain ⟨u', ha', hu⟩ := hback a u ha
    obtain ⟨v', hb', hv⟩ := hback b v hb
    exact h.ids a b u' v' ha' hb' (hu.trans (hid.trans hv.symm))
  · intro a u ha
    obtain ⟨u', ha', hu⟩ := hback a u ha
    rw [DomainDesc.terminateThread_currentThreadID, ← hu]
    exact h.below a u' ha'
  · exact absurd huse (by simpa using hgone)
  · simpa using h.slot huse
  · intro n p hp hid
    simp only [DomainDesc.terminateThread_id, DomainDesc.terminateThread_epoch] at hid ⊢
    obtain ⟨hle, hcached⟩ := h.cached n p hp hid
    refine ⟨hle, fun _ hepoch => ?_⟩
    obtain ⟨u, hu, huid⟩ := hcached huse hepoch
    rw [DomainDesc.terminateThread_tcb, hu]
    exact ⟨_, rfl, huid⟩

theorem Inv.collect (h : Inv s) {move : Address ≃. Address} (hkeeps : Keeps s.dom move)
    (huse : s.dom.inUse) (hbelow : Below s) : Inv { s with dom := s.dom.collect move } := by
  refine ⟨fun _ => ?_, ?_, ?_, fun hgone => absurd huse hgone, fun _ => h.slot huse, h.domains, ?_⟩
  · obtain ⟨l, hl⟩ := h.list huse
    exact hl.collect hkeeps
  · intro a b t u ha hb hid
    obtain ⟨a', t', hma, ha', rfl⟩ := DomainDesc.collect_tcb_eq_some ha
    obtain ⟨b', u', hmb, hb', rfl⟩ := DomainDesc.collect_tcb_eq_some hb
    obtain rfl := h.ids a' b' t' u' ha' hb' hid
    exact Option.some.inj (hma.symm.trans hmb)
  · intro a t ha
    obtain ⟨a', t', -, ha', rfl⟩ := DomainDesc.collect_tcb_eq_some ha
    exact h.below a' t' ha'
  · intro n p hp hid
    obtain ⟨hle, -⟩ := h.cached n p hp hid
    have hepoch : (s.dom.epoch + 1).toNat = s.dom.epoch.toNat + 1 := by
      have := hbelow.epoch
      bv_omega
    refine ⟨?_, fun _ heq => ?_⟩
    · change p.gcEpoch.toNat ≤ (s.dom.epoch + 1).toNat
      omega
    · change p.gcEpoch = s.dom.epoch + 1 at heq
      rw [heq] at hle
      omega

/-- A proxy is stored whose pointer and epoch are current. -/
theorem Inv.store (h : Inv s) (n : Nat) {p : ThreadDescForeignProxy}
    (hdomain : p.domainID.toNat < s.currentDomainID.toNat)
    (hcached : p.domainID = s.dom.id → p.gcEpoch.toNat ≤ s.dom.epoch.toNat ∧
      (s.dom.inUse → p.gcEpoch = s.dom.epoch →
        ∃ t, s.dom.tcb p.thread = some t ∧ t.id = p.threadID)) :
    Inv { s with proxies := Function.update s.proxies n (some p) } := by
  refine ⟨h.list, h.ids, h.below, h.gone, h.slot, fun m q hq => ?_, fun m q hq => ?_⟩
  · obtain rfl | hne := eq_or_ne m n
    · obtain rfl : p = q := by simpa using hq
      exact hdomain
    · exact h.domains m q ((Function.update_of_ne hne _ _).symm.trans hq)
  · obtain rfl | hne := eq_or_ne m n
    · obtain rfl : p = q := by simpa using hq
      exact hcached
    · exact h.cached m q ((Function.update_of_ne hne _ _).symm.trans hq)

/-- `findThreadDesc` on a slot whose domain is gone. -/
theorem findInList_of_gone {dom : DomainDesc} {id : Word} {r : Option Address}
    (hgone : ∀ a, dom.tcb a = none)
    (hr : Returns (fun fuel => findInList dom id fuel dom.threads) r) :
    dom.threads = none ∧ r = none := by
  obtain ⟨n, hn⟩ := hr
  have hrun := hn (n + 1) (Nat.le_succ n)
  cases hthreads : dom.threads with
  | none =>
    simp only [hthreads] at hrun
    exact ⟨rfl, (eq_of_pure_eq hrun).symm⟩
  | some a =>
    simp only [hthreads, findInList, hgone a] at hrun
    cases hrun

theorem Inv.find (h : Inv s) {n : Nat} {proxy proxy' : ThreadDescForeignProxy} {r : Option Address}
    (hproxy : s.proxies n = some proxy)
    (hret : Returns (findThreadDesc s.dom proxy) (r, proxy')) :
    Inv { s with proxies := Function.update s.proxies n (some proxy') } := by
  have hkeep : proxy' = proxy → Inv { s with proxies := Function.update s.proxies n (some proxy') } := by
    rintro rfl
    exact h.store n (h.domains n _ hproxy) (h.cached n _ hproxy)
  by_cases hid : s.dom.id = proxy.domainID
  · by_cases hepoch : proxy.gcEpoch = s.dom.epoch
    · exact hkeep (Prod.mk.inj (hret.unique (findThreadDesc_of_cached hid hepoch))).2
    · by_cases huse : s.dom.inUse
      · obtain ⟨l, hl⟩ := h.list huse
        obtain ⟨found, hfound, hspec⟩ := findInList_returns proxy.threadID hl.linked fun a =>
          (hl.mem a).mp
        rw [← hl.threads] at hfound
        obtain ⟨-, hproxy'⟩ := Prod.mk.inj (hret.unique
          ((findThreadDesc_iff_of_epoch hid hepoch).mpr ⟨found, hfound, rfl⟩))
        cases found with
        | none => exact hkeep hproxy'
        | some a =>
          -- the proxy gets the pointer that was found and the current epoch
          obtain ⟨-, t, ht, htid⟩ := hspec a rfl
          have hdomain : proxy.domainID.toNat < s.currentDomainID.toNat := h.domains n proxy hproxy
          rw [hproxy']
          exact h.store n hdomain fun _ => ⟨Nat.le_refl _, fun _ _ => ⟨t, ht, htid⟩⟩
      · obtain ⟨found, hfound, heq⟩ := (findThreadDesc_iff_of_epoch hid hepoch).mp hret
        obtain ⟨-, rfl⟩ := findInList_of_gone (h.gone huse) hfound
        exact hkeep (Prod.mk.inj heq).2
  · exact hkeep (Prod.mk.inj (hret.unique (findThreadDesc_of_gone hid))).2

theorem Inv.step (h : Inv s) {s' : State} (hbelow : Below s) (hstep : Step s s') : Inv s' := by
  have hnext : (s.currentDomainID + 1).toNat = s.currentDomainID.toNat + 1 := by
    have := hbelow.domains
    bv_omega
  cases hstep with
  | createThread thread hfree huse => exact h.createThread hfree huse hbelow
  | terminateThread thread t htcb halive => exact h.terminateThread htcb halive
  | collect move hkeeps huse => exact h.collect hkeeps huse hbelow
  | copy n thread t htcb =>
    have huse : s.dom.inUse := by
      by_contra hgone
      rw [h.gone hgone thread] at htcb
      cases htcb
    exact h.store n (h.slot huse) fun _ => ⟨Nat.le_refl _, fun _ _ => ⟨t, htcb, rfl⟩⟩
  | find n proxy proxy' r hproxy hret => exact h.find hproxy hret
  | terminateDomain huse =>
    refine ⟨fun huse => Bool.noConfusion huse, ?_, ?_, fun _ _ => rfl, fun huse => Bool.noConfusion huse,
      h.domains, fun n p hp hid => ⟨(h.cached n p hp hid).1, fun huse => Bool.noConfusion huse⟩⟩
    · exact fun a b t u ha => by cases ha
    · exact fun a t ha => by cases ha
  | createDomain hgone =>
    refine ⟨fun _ => ⟨[], rfl, trivial, List.nodup_nil, fun a => ?_⟩, ?_, ?_, fun hgone => absurd rfl hgone,
      fun _ => ?_, fun n p hp => ?_, fun n p hp hid => ?_⟩
    · constructor
      · exact fun ha => absurd ha List.not_mem_nil
      · rintro ⟨t, ht, -⟩
        cases ht
    · exact fun a b t u ha => by cases ha
    · exact fun a t ha => by cases ha
    · exact Nat.lt_of_lt_of_eq (Nat.lt_succ_self _) hnext.symm
    · have := h.domains n p hp
      simp only
      omega
    · -- the id is new, so no proxy has it
      have hlt := h.domains n p hp
      change p.domainID = s.currentDomainID at hid
      rw [hid] at hlt
      omega
  | otherDomain =>
    refine ⟨h.list, h.ids, h.below, h.gone, fun huse => ?_, fun n p hp => ?_, h.cached⟩
    · have := h.slot huse
      simp only
      omega
    · have := h.domains n p hp
      simp only
      omega

end Steps

/-! ## Every state of every run -/

section Runs

variable {s : State}

/-- A run in which no counter comes round. -/
def Run (s : State) : Prop := ReflTransGen (fun s s' => Below s ∧ Step s s') State.boot s

theorem Run.inv (h : Run s) : Inv s :=
  invariant_of_run (I := Inv) (fun _ _ hs hstep => hs.step hstep.1 hstep.2) h Inv.boot

theorem Inv.listed (h : Inv s) (huse : s.dom.inUse) : Listed s.dom := by
  obtain ⟨l, hthreads, hlinked, hnodup, hmem⟩ := h.list huse
  exact ⟨⟨l, hthreads, hlinked, hnodup, hmem⟩, fun a b t u ha hb _ _ => h.ids a b t u ha hb⟩

/-- What `findThreadDesc` gives for a proxy, case by case. -/
theorem Inv.finds_iff (h : Inv s) {n : Nat} {proxy : ThreadDescForeignProxy}
    (hproxy : s.proxies n = some proxy) : Finds s.dom proxy ↔ Current s.dom proxy := by
  by_cases hid : s.dom.id = proxy.domainID
  · rw [Current, or_iff_right (not_not.mpr hid)]
    by_cases hepoch : proxy.gcEpoch = s.dom.epoch
    · rw [if_pos hepoch]
      have hcall := findThreadDesc_of_cached hid hepoch
      constructor
      · rintro ⟨r, proxy', hret, hfound⟩
        obtain ⟨rfl, rfl⟩ := Prod.mk.inj (hret.unique hcall)
        obtain ⟨-, ⟨t, ht, halive⟩, u, hu, huid⟩ := hfound proxy'.thread rfl
        obtain rfl := Option.some.inj (ht.symm.trans hu)
        exact ⟨proxy'.thread, t, ht, halive, huid⟩
      · rintro ⟨a, t, ht, halive, htid⟩
        have huse : s.dom.inUse := by
          by_contra hgone
          rw [h.gone hgone a] at ht
          cases ht
        -- the control block at the cached pointer has the id, so it is this thread
        obtain ⟨u, hu, huid⟩ := (h.cached n proxy hproxy hid.symm).2 huse hepoch
        obtain rfl := h.ids a proxy.thread t u ht hu (htid.trans huid.symm)
        refine ⟨_, _, hcall, ?_⟩
        rintro b ⟨⟩
        exact ⟨hid, ⟨t, ht, halive⟩, t, ht, htid⟩
    · rw [if_neg hepoch]
      by_cases huse : s.dom.inUse
      · obtain ⟨l, hl⟩ := h.list huse
        obtain ⟨r, hr, hspec⟩ := findInList_returns proxy.threadID hl.linked fun a => (hl.mem a).mp
        rw [← hl.threads] at hr
        refine ⟨fun _ => .inl huse, fun _ => ?_⟩
        exact ⟨r, _, (findThreadDesc_iff_of_epoch hid hepoch).mpr ⟨r, hr, rfl⟩,
          fun a ha => ⟨hid, hspec a ha⟩⟩
      · rw [or_iff_right huse]
        constructor
        · rintro ⟨r, proxy', hret, -⟩
          obtain ⟨found, hfound, -⟩ := (findThreadDesc_iff_of_epoch hid hepoch).mp hret
          exact (findInList_of_gone (h.gone huse) hfound).1
        · intro hthreads
          have hr : Returns (fun fuel => findInList s.dom proxy.threadID fuel s.dom.threads) none := by
            refine ⟨1, fun fuel hfuel => ?_⟩
            obtain ⟨k, rfl⟩ := Nat.exists_eq_add_of_le' hfuel
            rw [hthreads]
            rfl
          refine ⟨none, _, (findThreadDesc_iff_of_epoch hid hepoch).mpr ⟨none, hr, rfl⟩, ?_⟩
          exact fun a ha => by cases ha
  · refine ⟨fun _ => .inl hid, fun _ => ⟨none, proxy, findThreadDesc_of_gone hid, ?_⟩⟩
    exact fun a ha => by cases ha

/-- **In every run in which no counter comes round, the list has the existing threads, and
`findThreadDesc` is right for a proxy exactly if the thread still exists or the pointer is not used.** -/
theorem threads_sound_of_run (hrun : Run s) :
    (s.dom.inUse → Listed s.dom) ∧
      ∀ n proxy, s.proxies n = some proxy → (Finds s.dom proxy ↔ Current s.dom proxy) :=
  ⟨hrun.inv.listed, fun _ _ => hrun.inv.finds_iff⟩

/-- The first domain with one thread, and another domain with a proxy for it. -/
def oneThread : State :=
  { dom := (DomainDesc.create 0).createThread 8
    currentDomainID := 1
    proxies := Function.update (fun _ => none) 0 (some ⟨0, 1, 8, 0⟩) }

/-- The control block of that thread. -/
def firstThread : ThreadDesc := ⟨1, none, none, true⟩

theorem run_oneThread : Run oneThread := by
  have h₁ : Run _ := ReflTransGen.single ⟨⟨by decide, by decide, by decide⟩,
    Step.createDomain (by decide)⟩
  have h₂ : Run _ := h₁.tail ⟨⟨by decide, by decide, by decide⟩,
    Step.createThread 8 (by decide) (by decide)⟩
  exact h₂.tail ⟨⟨by decide, by decide, by decide⟩, Step.copy 0 8 firstThread (by decide)⟩

/-- The proxy leads to the thread. -/
theorem sound_oneThread : Run oneThread ∧ Listed oneThread.dom ∧ Finds oneThread.dom ⟨0, 1, 8, 0⟩ := by
  obtain ⟨hlisted, hfinds⟩ := threads_sound_of_run run_oneThread
  exact ⟨run_oneThread, hlisted (by decide), (hfinds 0 _ (by decide)).mpr
    (.inr ⟨8, firstThread, by decide, by decide, by decide⟩)⟩

/-- When the thread has ended, the proxy still leads to its control block. -/
theorem not_finds_ended : ∃ s proxy, Run s ∧ s.proxies 0 = some proxy ∧ s.dom.inUse ∧
    ¬ Finds s.dom proxy := by
  have hrun : Run _ := run_oneThread.tail ⟨⟨by decide, by decide, by decide⟩,
    Step.terminateThread 8 firstThread (by decide) (by decide)⟩
  refine ⟨_, ⟨0, 1, 8, 0⟩, hrun, by decide, by decide, fun h => ?_⟩
  obtain hid | ⟨a, t, ht, halive, -⟩ :=
    (@Inv.finds_iff _ hrun.inv 0 _ (by decide)).mp h
  · exact absurd hid (by decide)
  · by_cases ha : a = 8
    · subst ha
      cases ht
      exact absurd halive (by decide)
    · have hnone : (oneThread.dom.terminateThread 8 firstThread).tcb a = none := by
        simp [DomainDesc.terminateThread_tcb, oneThread, DomainDesc.createThread_tcb,
          DomainDesc.create, ha]
      rw [hnone] at ht
      cases ht

end Runs

end JxCore.ThreadTable
