import Mathlib.Data.List.Basic
import Mathlib.Logic.Function.Basic
import JxCore.Basic

/-!
# Services, portals and domains

The service tables of the domains (`portal.c`), the portals that name their entries
(`gc_alloc.c`), the finalisation of dead portals (`gc_new.c`, and `gc_chunked.c` with the same
callback) and the reuse of domain control blocks (`domain.c`).

A domain is named by its control block, a portal and a service descriptor by their numbers: both are
allocated in a heap and moved by its collector, and every pointer to them follows.
-/

namespace JxCore.Service

/-- `MAX_SERVICES` -/
def maxServices : Nat := 1500

/-- `OBJSIZE_PORTAL`, in words. -/
def objsizePortal : Nat := 6

/-- An entry of `domain->services`. -/
inductive Entry where
  /-- `SERVICE_ENTRY_FREE` -/
  | free
  /-- `SERVICE_ENTRY_CHANGING` -/
  | changing
  | dep (k : Nat)
  deriving DecidableEq, Repr

/-- Why a routine does not come back. -/
inductive Fault where
  | stop (s : Stop)
  /-- A marker of the service table is used as the address of a descriptor. -/
  | entry (e : Entry)
  /-- A descriptor is used whose heap has been given back. -/
  | freed (k : Nat)
  /-- No room in the heap. -/
  | noMemory
  deriving DecidableEq, Repr

/-- `DOMAIN_STATE_FREE`, `DOMAIN_STATE_ACTIVE`; the states in between are not seen from outside,
interrupts being disabled. -/
inductive DomainState where
  | free
  | active
  deriving DecidableEq, Repr

structure DomainDesc where
  id : Nat
  state : DomainState
  services : Nat → Entry

structure DEPDesc where
  /-- `dep->domain` -/
  domain : Nat
  obj : Nat
  interface : Nat
  /-- The prototype; a direct portal has none. -/
  proxy : Option Nat
  refcount : Nat
  serviceIndex : Nat
  deriving DecidableEq, Repr

structure Proxy where
  /-- The domain in whose heap the portal lies. -/
  heap : Nat
  /-- `NULL` indicates a direct portal. -/
  targetDomain : Option Nat
  targetDomainID : Nat
  index : Nat
  deriving DecidableEq, Repr

/-- The state of the system. The last three fields are a record of what happened: no routine reads
them. -/
structure Sys where
  currentDomainID : Nat
  domain : Nat → DomainDesc
  /-- The service descriptors, and how many have been allocated. -/
  dep : Nat → DEPDesc
  deps : Nat
  /-- The descriptors that went with the heap of their domain. -/
  freed : Nat → Bool
  /-- The portals, how many have been allocated, and which of them lie in a heap. -/
  proxy : Nat → Proxy
  proxies : Nat
  existing : List Nat
  /-- The calls that are queued or executing: the portal and the service. -/
  calls : List (Nat × Nat)
  /-- The receiver of a service has `STATE_RUNNABLE`, so that it is in a run queue or has been switched
  to. While it executes a call it is taken to be. -/
  runnable : Nat → Bool
  /-- The services whose receiver has been terminated. -/
  terminated : List Nat
  /-- The services for which a thread runs `serviceFinalizer`. -/
  notified : List Nat
  /-- The service for which a portal was created, or of whose portal it is a copy. -/
  origin : Nat → Nat
  /-- The services that have had a portal in another domain. -/
  shared : List Nat

/-- What `portal_auto_promo` asks about classes. -/
structure Classes where
  /-- `implements_interface(obj2ClassDesc(obj), portalInterface)` -/
  promotable : Nat → Bool
  /-- The interfaces of the class of an object, then those of its superclasses. -/
  interfaces : Nat → List Nat
  /-- `implements_interface(c, portalInterface)` -/
  isPortal : Nat → Bool
  checkAssign : Nat → Nat → Bool

namespace Sys

variable (s : Sys)

/-- The descriptor an entry of the service table points to. -/
def deref : Entry → Except Fault Nat
  | .dep k => if s.freed k then throw (.freed k) else pure k
  | e => throw (.entry e)

def setDep (k : Nat) (f : DEPDesc → DEPDesc) : Sys :=
  { s with dep := Function.update s.dep k (f (s.dep k)) }

def setRefcount (k n : Nat) : Sys := s.setDep k fun p => { p with refcount := n }

def setEntry (d i : Nat) (e : Entry) : Sys :=
  { s with
    domain := Function.update s.domain d
      { s.domain d with services := Function.update (s.domain d).services i e } }

/-- The receiver gets `STATE_RUNNABLE`, or blocks. -/
def setRunnable (k : Nat) (b : Bool) : Sys := { s with runnable := Function.update s.runnable k b }

@[simp] theorem setRunnable_dep (k j : Nat) (b : Bool) : (s.setRunnable k b).dep j = s.dep j := rfl

/-- The service is in the table of its domain. -/
def Live (k : Nat) : Prop :=
  k < s.deps ∧ (s.domain (s.dep k).domain).services (s.dep k).serviceIndex = .dep k

instance (k : Nat) : Decidable (s.Live k) := inferInstanceAs (Decidable (_ ∧ _))

end Sys

/-! ## Reference counts -/

def serviceIncRefcount (s : Sys) (e : Entry) : Except Fault Sys := do
  let k ← s.deref e
  pure (s.setRefcount k (u4 ((s.dep k).refcount + 1)))

/-- `terminateThread(p->receiver)`, whose caller must ensure that the thread is in no queue:
`Sched_destroyed` asserts that it is not runnable. -/
def terminateThread (s : Sys) (k : Nat) : Except Fault Sys :=
  if s.runnable k then throw (.stop (.assertion "thread->state != STATE_RUNNABLE"))
  else pure { s with terminated := k :: s.terminated }

/-- "delete service" -/
def deleteService (s : Sys) (domain index k : Nat) : Except Fault Sys := do
  let s ← terminateThread (s.setRefcount k 0) k
  pure (s.setEntry domain index .free)

/-- `found` answers `findMethod(curdom(), svcClass->name, "serviceFinalizer", "()V")` for the class
of a service object. -/
def serviceDecRefcount (s : Sys) (domain index : Nat) (found : Nat → Bool) : Except Fault Sys := do
  let k ← s.deref ((s.domain domain).services index)
  let s := s.setRefcount k (u4 (2 ^ 32 - 1 + (s.dep k).refcount))
  let s ← (if (s.dep k).refcount = 1 then deleteService s domain index k else pure s : Except Fault Sys)
  -- not part of the deletion above
  pure (if found (s.dep k).obj then { s with notified := k :: s.notified } else s)

/-- A portal has six words, and addresses have 32 bits. -/
def roomForProxy (s : Sys) : Bool := s.existing.length < 2 ^ 32 / (4 * objsizePortal)

/-- A new portal in the heap of `p.heap`; `origin` is the service it is for, and goes to the record
only. -/
def Sys.addProxy (s : Sys) (p : Proxy) (origin : Nat) : Sys :=
  { s with
    proxy := Function.update s.proxy s.proxies p
    proxies := s.proxies + 1
    existing := s.proxies :: s.existing
    origin := Function.update s.origin s.proxies origin
    shared := if p.heap = (s.dep origin).domain then s.shared else origin :: s.shared }

def allocProxyInDomain (s : Sys) (domain : Nat) (targetDomain : Option Nat)
    (targetDomainID depIndex origin : Nat) : Except Fault (Nat × Sys) :=
  if !roomForProxy s then throw .noMemory
  else
    let o := s.proxies
    let s := s.addProxy { heap := domain, targetDomain, targetDomainID, index := depIndex } origin
    match targetDomain with
    | none => pure (o, s)
    | some d =>
      if (s.domain d).id = targetDomainID then do
        let s ← serviceIncRefcount s ((s.domain d).services depIndex)
        pure (o, s)
      else pure (o, s)

/-! ## Creation of services -/

/-- The search of `createService`, from index `i` with `n` entries to go. -/
def firstFree (services : Nat → Entry) : Nat → Nat → Option Nat
  | 0, _ => none
  | n + 1, i => if services i = .free then some i else firstFree services n (i + 1)

/-- A new service descriptor in the table. -/
def Sys.addDep (s : Sys) (dep : DEPDesc) : Sys :=
  let s' := { s with dep := Function.update s.dep s.deps dep, deps := s.deps + 1 }
  s'.setEntry dep.domain dep.serviceIndex (.dep s.deps)

/-- The index of the new service is part of its descriptor. -/
def createService (s : Sys) (domain depObj interface : Nat) : Except Fault (Nat × Sys) :=
  match firstFree (s.domain domain).services maxServices 0 with
  | none => throw (.stop (.panic "domain can not create more services"))
  | some index =>
    pure (s.deps, s.addDep
      { domain, obj := depObj, interface, proxy := none, refcount := 0, serviceIndex := index })

/-- The search for a service description of `obj`, from index `i` with `n` entries to go. After the
last entry `d` keeps what it has, be it a service of another object. -/
def findService (s : Sys) (domain obj : Nat) : Nat → Nat → Option Nat → Option Nat
  | 0, _, d => d
  | n + 1, i, _ =>
    match (s.domain domain).services i with
    | .dep k => if (s.dep k).obj = obj then some k else findService s domain obj n (i + 1) (some k)
    | _ => findService s domain obj n (i + 1) none

/-- The portal interface among `interfaces`; of two, the subtype. -/
def findPortalInterface (cls : Classes) : List Nat → Option Nat → Except Fault (Option Nat)
  | [], ifclass => pure ifclass
  | i :: is, ifclass =>
    if cls.isPortal i then
      match ifclass with
      | none => findPortalInterface cls is (some i)
      | some j =>
        if j ≠ i then
          if cls.checkAssign j i then findPortalInterface cls is (some i)
          else if cls.checkAssign i j then findPortalInterface cls is (some j)
          else throw (.stop (.throw .runtimeException
            "Class implements more than one portal interface"))
        else findPortalInterface cls is (some i)
    else findPortalInterface cls is ifclass

/-- The portal of the object's service, which is created if there is none. The receiver of a new service
is created with `STATE_RUNNABLE`. -/
def portalAutoPromo (cls : Classes) (s : Sys) (domain obj : Nat) :
    Except Fault (Option Nat × Sys) :=
  if !cls.promotable obj then throw (.stop (.panic "DOES NOT IMPLEMENT PORTAL INTERFACE"))
  else
    match findService s domain obj maxServices 0 none with
    | some k => pure ((s.dep k).proxy, s)
    | none => do
      match ← findPortalInterface cls (cls.interfaces obj) none with
      | none => throw (.stop (.assertion "ASSERTCLASSDESC(interface)"))
      | some ifclass =>
        let (k, s) ← createService s domain obj ifclass
        let (o, s) ← allocProxyInDomain s domain (some domain) (s.domain domain).id
          (s.dep k).serviceIndex k
        pure (some o, (s.setDep k fun p => { p with proxy := some o }).setRunnable k true)

/-- A direct portal of DomainZero: its `targetDomain` is `NULL`, and its service has no receiver. -/
def initZeroDepWithoutThread (s : Sys) (cd : Nat) : Except Fault (Nat × Sys) := do
  -- the portal object is allocated first; it is the service object too
  let (k, s) ← createService s 0 s.proxies cd
  allocProxyInDomain s 0 none (s.domain 0).id 0 k

/-! ## Use of portals -/

/-- What comes of sending to a portal. -/
inductive Sent where
  /-- The caller gets an exception. -/
  | exception
  /-- The method of the service object is called by the sender. -/
  | shortCircuit (k : Nat)
  /-- The sender waits for the receiver of the service. -/
  | queued (k : Nat)
  deriving DecidableEq, Repr

/-- The portal lies in the heap of the domain that sends. -/
def directSendPortal (s : Sys) (r : Nat) : Except Fault Sent :=
  let proxy := s.proxy r
  match proxy.targetDomain with
  | none => throw (.stop (.assertion "ASSERTDOMAIN(targetDomain)"))
  | some targetDomain =>
    let target := s.domain targetDomain
    if targetDomain = proxy.heap then do
      -- the service object is fetched before the domain is checked
      let k ← s.deref (target.services proxy.index)
      if proxy.targetDomainID ≠ target.id then pure .exception
      else pure (.shortCircuit k)
    else if proxy.targetDomainID ≠ target.id then pure .exception
    else if target.state ≠ .active then pure .exception
    else if target.services proxy.index = .changing then pure .exception
    else do
      let k ← s.deref (target.services proxy.index)
      pure (.queued k)

/-- What a portal becomes in the domain it is copied to. -/
inductive Copied where
  /-- The object of the service, in its own domain. -/
  | object (k : Nat)
  | proxy (o : Nat)
  deriving DecidableEq, Repr

/-- The portal has arrived in its home domain. A direct portal of DomainZero, whose `targetDomain`
is `NULL`, stays what it is. -/
def arrivesHome (s : Sys) (r dst : Nat) : Bool :=
  let obj := s.proxy r
  obj.targetDomainID = (s.domain dst).id ∧
    ¬ (obj.targetDomainID = 0 ∧ obj.targetDomain = none ∧ obj.index = 0)

def copyPortal (s : Sys) (r dst quota : Nat) : Except Fault (Copied × Nat × Sys) :=
  let obj := s.proxy r
  if arrivesHome s r dst then do
    let k ← s.deref ((s.domain dst).services obj.index)
    pure (.object k, quota, s)
  else if quota < objsizePortal then throw (.stop (.panic ""))
  else do
    let (o, s) ← allocProxyInDomain s dst obj.targetDomain obj.targetDomainID obj.index
      (s.origin r)
    pure (.proxy o, quota - objsizePortal, s)

/-! ## Finalisation -/

def finalizePortalsCB (s : Sys) (domain r : Nat) (found : Nat → Bool) : Except Fault Sys :=
  let p := s.proxy r
  match p.targetDomain with
  | none => pure s
  | some d =>
    -- otherwise dummy portal in own domain
    if (s.domain d).id = p.targetDomainID ∧ d ≠ domain then serviceDecRefcount s d p.index found
    else pure s

/-- A portal that was not copied goes with its heap. -/
def finalizePortal (s : Sys) (r : Nat) (found : Nat → Bool) : Except Fault Sys := do
  let s ← finalizePortalsCB s (s.proxy r).heap r found
  pure { s with existing := s.existing.erase r }

/-! ## Domains -/

/-- `specialAllocDomainDesc` clears the control block. -/
def createDomain (s : Sys) (d : Nat) : Sys :=
  { s with
    currentDomainID := u4 (s.currentDomainID + 1)
    domain := Function.update s.domain d
      { id := s.currentDomainID, state := .active,
        services := Function.update (fun _ => .free) 0 .changing } }

/-- The loop that is to deactivate the services: it ends with the first entry in use. -/
def deactivate (services : Nat → Entry) : Nat → Nat → Nat → Entry
  | 0, _ => services
  | n + 1, i =>
    if services i ≠ .free then Function.update services i .changing
    else deactivate services n (i + 1)

/-- The first entry in use is the reserved one, so that the loop deactivates nothing. -/
theorem deactivate_reserved {services : Nat → Entry} (h : services 0 = .changing) :
    deactivate services maxServices 0 = services := by
  unfold deactivate maxServices
  simp only [h, ne_eq, reduceCtorEq, not_false_eq_true, if_true]
  exact h ▸ Function.update_eq_self 0 services

/-- The portals of the domain, in the order of its heap. -/
def portalsOf (s : Sys) (d : Nat) : List Nat := s.existing.filter fun r => (s.proxy r).heap = d

/-- What the text of `terminateDomain` does to portals and services: the portals in the heap are
finalised, and the heap is given back with the descriptors in it. Without `NEW_SCHED` there is a
`sys_panic("")` before that, so the kernel as it is built has fewer runs than this. -/
def terminateDomain (s : Sys) (d : Nat) (found : Nat → Bool) : Except Fault Sys := do
  let s := { s with
    domain := Function.update s.domain d
      { s.domain d with services := deactivate (s.domain d).services maxServices 0 } }
  let s ← (portalsOf s d).foldlM (fun s r => finalizePortal s r found) s
  pure { s with
    domain := Function.update s.domain d { s.domain d with state := .free }
    freed := fun k => s.freed k || decide (k < s.deps ∧ (s.dep k).domain = d)
    calls := s.calls.filter fun c => (s.proxy c.1).heap ≠ d ∧ (s.dep c.2).domain ≠ d }

/-! ## Runs -/

inductive Event where
  | autoPromo (d obj : Nat)
  | direct (cd : Nat)
  | copy (r dst quota : Nat)
  | collect (r : Nat) (found : Nat → Bool)
  | send (r : Nat)
  /-- A call ends, with a reply or with an exception. -/
  | return_ (c : Nat × Nat) (thrown : Bool)
  /-- A receiver finds nobody in its queue, and blocks. -/
  | wait (k : Nat)
  | createDomain (d : Nat)
  | terminateDomain (d : Nat) (found : Nat → Bool)

/-- A dead portal: no call goes through it, for it is on the sender's stack, and it is not the
prototype of a service in the table. -/
def Dead (s : Sys) (r : Nat) : Prop :=
  (∀ c ∈ s.calls, c.1 ≠ r) ∧ ∀ k, s.Live k → (s.dep k).proxy ≠ some r

/-- What the system can be asked for. `direct_send_portal` is in the vtable of a portal only if this
is not a direct one, and `terminateDomain` is called by threads of DomainZero, which asserts that
they do not terminate their own domain. -/
def Enabled (s : Sys) : Event → Prop
  | .autoPromo d _ => (s.domain d).state = .active
  | .direct _ => (s.domain 0).state = .active
  | .copy r dst _ => r ∈ s.existing ∧ (s.domain dst).state = .active
  | .collect r _ => r ∈ s.existing ∧ Dead s r
  | .send r => r ∈ s.existing ∧ (s.proxy r).targetDomain ≠ none
  | .return_ c _ => c ∈ s.calls
  | .wait k => s.runnable k = true ∧ ∀ c ∈ s.calls, c.2 ≠ k
  | .createDomain d => (s.domain d).state = .free
  | .terminateDomain d _ => (s.domain d).state = .active ∧ d ≠ 0

/-- A queued call wakes the receiver. After a reply it waits for the next sender, if there is none
yet; an exception takes it back to the head of its loop. -/
def exec (cls : Classes) (s : Sys) : Event → Except Fault Sys
  | .autoPromo d obj => return (← portalAutoPromo cls s d obj).2
  | .direct cd => return (← initZeroDepWithoutThread s cd).2
  | .copy r dst quota => return (← copyPortal s r dst quota).2.2
  | .collect r found => finalizePortal s r found
  | .send r => do
    match ← directSendPortal s r with
    | .queued k => pure ({ s with calls := (r, k) :: s.calls }.setRunnable k true)
    | _ => pure s
  | .return_ c thrown =>
    let calls := s.calls.erase c
    pure ({ s with calls }.setRunnable c.2 (thrown || calls.any fun b => b.2 == c.2))
  | .wait k => pure (s.setRunnable k false)
  | .createDomain d => pure (createDomain s d)
  | .terminateDomain d found => terminateDomain s d found

/-- The system when no service has been created: domains have their own ids and empty tables. -/
structure Booted (s : Sys) : Prop where
  deps : s.deps = 0
  freed : ∀ k, s.freed k = false
  existing : s.existing = []
  calls : s.calls = []
  terminated : s.terminated = []
  notified : s.notified = []
  shared : s.shared = []
  domainZero : (s.domain 0).id = 0 ∧ (s.domain 0).state = .active
  table : ∀ d i k, (s.domain d).services i ≠ .dep k
  reserved : ∀ d, (s.domain d).state = .active → (s.domain d).services 0 = .changing
  id_lt : ∀ d, (s.domain d).state = .active → (s.domain d).id < s.currentDomainID
  id_inj : ∀ d e, (s.domain d).state = .active → (s.domain e).state = .active →
    (s.domain d).id = (s.domain e).id → d = e

/-! ## A small system -/

/-- DomainZero and another domain, and control blocks that are free. -/
def twoDomains : Sys :=
  { currentDomainID := 2
    domain := fun d =>
      { id := if d < 2 then d else 0, state := if d < 2 then .active else .free,
        services := fun i => if i = 0 then .changing else .free }
    dep := fun _ => ⟨0, 0, 0, none, 0, 0⟩
    deps := 0
    freed := fun _ => false
    proxy := fun _ => ⟨0, none, 0, 0⟩
    proxies := 0
    existing := []
    calls := []
    runnable := fun _ => false
    terminated := []
    notified := []
    origin := fun _ => 0
    shared := [] }

/-- Every object is of a class with one portal interface. -/
def oneInterface : Classes :=
  { promotable := fun _ => true, interfaces := fun _ => [0], isPortal := fun _ => true,
    checkAssign := fun _ _ => false }

theorem twoDomains_booted : Booted twoDomains where
  deps := rfl
  freed _ := rfl
  existing := rfl
  calls := rfl
  terminated := rfl
  notified := rfl
  shared := rfl
  domainZero := ⟨rfl, rfl⟩
  table d i k := by
    show (if i = 0 then Entry.changing else Entry.free) ≠ _
    split <;> nofun
  reserved _ _ := rfl
  id_lt d hd := by
    simp only [twoDomains] at hd ⊢
    split at hd
    · rename_i hlt
      rw [if_pos hlt]
      exact hlt
    · cases hd
  id_inj d e hd he := by
    simp only [twoDomains] at hd he ⊢
    split at hd
    · rename_i hd'
      split at he
      · rename_i he'
        rw [if_pos hd', if_pos he']
        exact id
      · cases he
    · cases hd

/-- The state after an event that does not stop the system. -/
def Sys.after (s : Sys) (e : Event) : Sys :=
  match exec oneInterface s e with
  | .ok t => t
  | .error _ => s

/-- A service of DomainZero with a portal in the other domain. -/
def oneCopied : Sys := (twoDomains.after (.autoPromo 0 7)).after (.copy 0 1 100)

end JxCore.Service
