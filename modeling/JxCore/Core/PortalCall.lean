import JxCore.Core.SenderQueue

/-!
# Portal calls (`core/portal.c`)

A client calls a service of another domain: `direct_send_portal` appends the client to the service's
queue of waiting senders and blocks it, the service's one thread takes senders out of the queue in
`receive_portalcall`, runs the method and hands the result back. Both sides change each other's
states and use the operations of the scheduler, so a state of the protocol contains one of the
scheduler.

Each side runs with interrupts disabled except inside the method, and except where an exception leaves
the method: `throw_exception` copies it and unblocks the sender without disabling them. What is one step
here is what happens between two switches, on that way too; a sender and the receiver may do anything
else that the scheduler offers between their steps. Parameters and results are copied from one heap to
the other on the way. Here only the outcome of copying counts: it may raise an exception, and the copying
of an exception may be cut short by a collection in the caller's domain.

The history fields number the calls in the order in which they are enqueued.
-/

namespace JxCore.Portal

open Lib Exec Runq
open SenderQueue (DEPDesc)

/-- What a call leaves in the sender: `portalReturnType` and `portalReturn`. -/
structure Return where
  type : Nat
  word : Nat
  deriving DecidableEq, Repr

/-- `PORTAL_RETURN_TYPE_EXCEPTION`. -/
def returnTypeException : Nat := 3

/-- What `copy_reference` gives back when a collection has cut it short. -/
def restart : Nat := 0xffffffff

/-- An exception that reaches the entry of the service: `copy` is its copy in the caller's heap,
unless making the copy is `interrupted` by a collection there. -/
structure Fault where
  copy : Nat
  interrupted : Bool
  deriving DecidableEq, Repr

/-- A thread inside `direct_send_portal`: the number of its call, and whether it found no receiver
and waited for one. -/
structure Pending where
  call : Nat
  waited : Bool
  deriving DecidableEq, Repr

/-- The scheduler's configuration and the service. -/
structure Config extends Runq.Config where
  /-- `svc->receiver`. -/
  receiver : Thread
  /-- Whether low memory, read through a `callerDomain` that is still `NULL`, looks like an active
  domain. -/
  nullDomainActive : Bool

/-- The service, with its queue, and its clients. -/
structure State extends DEPDesc where
  sched : Sched
  /-- `mostRecentlyCalledBy` of the receiver. -/
  mostRecentlyCalledBy : Option Thread
  /-- `callerDomain` of the receiver. -/
  callerDomain : Option Domain
  /-- The receiver is inside `callnative_special_portal`; otherwise it is on its way to the head of
  the receive loop. -/
  serving : Bool
  /-- The threads inside `direct_send_portal`. -/
  inCall : Thread → Option Pending
  portalReturn : Thread → Return
  /-- The senders in the order of `portal_add_sender`; call `c` is the `c`-th of them. -/
  enqueued : List Thread
  /-- The calls in the order in which the receiver has taken them up. -/
  served : List Nat
  /-- What the method has returned or thrown, as the caller is to see it. -/
  result : Nat → Option Return
  /-- The calls whose senders have been unblocked, with `portalReturn` at that moment. -/
  woken : List (Nat × Return)

namespace State

/-- The thread has joined the queue, which makes a new call. -/
def enqueue (s : State) (t : Thread) (svc : DEPDesc) : State :=
  { s with toDEPDesc := svc, enqueued := s.enqueued ++ [t] }

/-- `check_domain_not_in_runq(curdom())`. -/
def checkDomainNotInRunq (s : State) (fuel : Nat) : Exec Unit := do
  if ← loop (find s.sched.domainNext s.sched.curdom fuel s.sched.domainRunqueue.first) then
    throw (.panic "current domain in runq")

def withSched (s : State) (sched : Sched) : State := { s with sched }

/-! ## The client -/

/-- `direct_send_portal` of the current thread, up to the switch. -/
def directSendPortal (cfg : Config) (fuel : Nat) (s : State) : Exec State := do
  let t := s.sched.curthr
  let c := s.enqueued.length
  let s := s.enqueue t (← s.portalAddSender fuel t)
  if s.sched.state cfg.receiver ≠ .portalWaitForSnd then
    let s := { s with inCall := Function.update s.inCall t (some ⟨c, true⟩) }
    s.withSched <$> s.sched.block cfg.toConfig fuel .portalWaitForRcv
  else
    s.checkServicequeue fuel
    let s := { s with inCall := Function.update s.inCall t (some ⟨c, false⟩) }
    s.withSched <$> s.sched.portalHandoffToReceiver cfg.toConfig fuel cfg.receiver

/-- `finished:` — a result that is no exception is returned. -/
def leaveCall (s : State) (t : Thread) : State :=
  let r := s.portalReturn t
  { s with
    inCall := Function.update s.inCall t none
    portalReturn := Function.update s.portalReturn t
      (if r.type = returnTypeException then r else { r with type := 0 }) }

/-- The rest of `direct_send_portal`, when the client runs again. -/
def sendReturn (fuel : Nat) (s : State) (t : Thread) (p : Pending) : Exec State :=
  (if p.waited then s.checkNotinServicequeue fuel t else pure ()) >>= fun _ => pure (s.leaveCall t)

/-! ## The receiver -/

def setReturn (s : State) (source : Thread) (r : Return) : State :=
  { s with portalReturn := Function.update s.portalReturn source r }

/-- The end of a call: its sender is unblocked. -/
def wake (s : State) (source : Thread) : State :=
  match s.inCall source with
  | none => s
  | some p => { s with woken := s.woken ++ [(p.call, s.portalReturn source)] }

/-- The outcome of the call of `source`, for the history. -/
def record (s : State) (source : Thread) (r : Return) : State :=
  match s.inCall source with
  | none => s
  | some p => { s with result := Function.update s.result p.call (some r) }

/-- `throw_exception` when it comes to the service entry, and `reinit_service_thread`. A caller whose
domain is gone gets no exception; no domain terminates here, so the test only fails when
`callerDomain` has never been set. -/
def throwException (cfg : Config) (fuel : Nat) (s : State) (source : Thread) (f : Fault) :
    Exec State :=
  let s := s.record source ⟨returnTypeException, f.copy⟩
  let s := if s.callerDomain.isSome ∨ cfg.nullDomainActive then
      s.setReturn source ⟨returnTypeException, if f.interrupted then restart else f.copy⟩
    else s
  let s := { s.wake source with serving := false }
  s.withSched <$> s.sched.portalDestroyHandoffToSender cfg.toConfig fuel source

/-- "There is a waiting sender": it leaves the queue, and the receiver takes up its call. -/
def takeUp (s : State) (source : Thread) : State :=
  { s with
    toDEPDesc := s.portalDequeueSender.2
    sched := s.sched.setState source .portalWaitForParamcopy
    mostRecentlyCalledBy := some source
    served := s.served ++ (s.inCall source).toList.map Pending.call }

/-- The receiver remembers the caller's domain and calls the method. -/
def startExec (s : State) (source : Thread) : State :=
  { s with
    sched := s.sched.setState source .portalWaitForRet
    callerDomain := some (s.sched.domain source)
    serving := true }

/-- A sender has been found: everything up to the call of the method, where copying the parameters
may raise an exception. -/
def serve (cfg : Config) (fuel : Nat) (s : State) (source : Thread) (fault : Option Fault) :
    Exec State := do
  let s := s.takeUp source
  s.checkDomainNotInRunq fuel
  assert (s.sched.state s.sched.curthr = .runnable) "curthr()->state == STATE_RUNNABLE"
  match fault with
  | some f => s.throwException cfg fuel source f
  | none =>
    s.checkServicequeue fuel
    s.checkNotinServicequeue fuel source
    return s.startExec source

/-- The head of the receive loop. -/
def receivePortalcall (cfg : Config) (fuel : Nat) (s : State) (fault : Option Fault) : Exec State :=
  match s.waitingSenders.first with
  | none => ({ s with mostRecentlyCalledBy := none }).withSched <$>
      s.sched.block cfg.toConfig fuel .portalWaitForSnd
  | some source => s.serve cfg fuel source fault

/-- The method has returned, and its result is copied to the caller; interrupted copying starts
again there. -/
def sendReply (cfg : Config) (fuel : Nat) (s : State) (source : Thread) (r : Return) :
    Exec State := do
  s.checkNotinServicequeue fuel s.sched.curthr
  let s := s.record source r
  let s := s.withSched (s.sched.setState source .portalWaitForRetcopy)
  let s := { s.setReturn source r with mostRecentlyCalledBy := none, serving := false }
  let s := s.wake source
  s.withSched <$>
    s.sched.portalHandoffToSender cfg.toConfig fuel source s.waitingSenders.first.isSome

end State

/-! ## Runs -/

inductive Op where
  /-- The current thread calls the service. -/
  | send
  /-- The receiver looks for a sender; `fault` is what copying the parameters raises. -/
  | receive (fault : Option Fault)
  /-- The method returns. -/
  | reply (r : Return)
  /-- The method, or copying its result, raises an exception. -/
  | fail (f : Fault)
  /-- The current thread comes back from its call. -/
  | finish
  /-- Anything else that the scheduler offers. -/
  | other (op : Runq.Op)

/-- One step. -/
def exec (cfg : Config) (op : Op) (s : State) (fuel : Nat) : Exec State :=
  match op with
  | .send => s.directSendPortal cfg fuel
  | .receive fault => s.receivePortalcall cfg fuel fault
  | .reply r =>
    match s.mostRecentlyCalledBy with
    | none => throw (.assertion "ASSERTTHREAD(source)")
    | some source => s.sendReply cfg fuel source r
  | .fail f =>
    match s.mostRecentlyCalledBy with
    | none => throw (.assertion "ASSERTTHREAD(source)")
    | some source => s.throwException cfg fuel source f
  | .finish =>
    match s.inCall s.sched.curthr with
    | none => pure s
    | some p => s.sendReturn fuel s.sched.curthr p
  | .other op => s.withSched <$> Runq.exec cfg.toConfig op s.sched fuel

/-- The thread is inside the routines of the protocol. -/
def Inside (cfg : Config) (s : State) (t : Thread) : Prop :=
  s.inCall t ≠ none ∨ t = cfg.receiver ∧ s.serving = false

/-- What the rest of the kernel leaves alone: a thread inside the protocol neither does anything else
nor is unblocked, and the service's method does not run a receive loop of its own. -/
def Untouched (cfg : Config) (s : State) : Runq.Op → Prop
  | .unblock t => ¬ Inside cfg s t
  | .block st => ¬ Inside cfg s s.sched.curthr ∧
      (s.sched.curthr = cfg.receiver → st ≠ .portalWaitForSnd)
  | .handoffToReceiver t => ¬ Inside cfg s s.sched.curthr ∧ ¬ Inside cfg s t
  | .handoffToSender t _ => ¬ Inside cfg s s.sched.curthr ∧ s.sched.curthr ≠ cfg.receiver ∧
      ¬ Inside cfg s t
  | .destroyHandoffToSender t => ¬ Inside cfg s s.sched.curthr ∧ ¬ Inside cfg s t
  | .deactivateInterrupt _ | .destroyCurrent => ¬ Inside cfg s s.sched.curthr
  | .createThread .. | .start _ | .yield | .blockReturn | .reschedule | .activateInterrupt _ => True

/-- When each step may be taken. A call inside one domain does not go through the protocol. -/
def Permitted (cfg : Config) (s : State) : Op → Prop
  | .send => s.sched.curdom ≠ s.sched.domain cfg.receiver ∧ s.sched.curthr ≠ cfg.idle ∧
      s.inCall s.sched.curthr = none
  | .receive _ => s.sched.curthr = cfg.receiver ∧ s.serving = false
  | .reply _ | .fail _ => s.sched.curthr = cfg.receiver ∧ s.serving = true
  | .finish => s.inCall s.sched.curthr ≠ none
  | .other op => Runq.Permitted cfg.toConfig s.sched op ∧ Untouched cfg s op

/-- The service as it is created, at any time: its thread is runnable and nobody has called. -/
structure Initial (cfg : Config) (s : State) : Prop where
  sched : Runq.Reach cfg.toConfig s.sched
  receiver_ne : cfg.receiver ≠ cfg.idle
  receiver_runnable : s.sched.state cfg.receiver = .runnable
  waitingSenders : s.waitingSenders = ⟨none, none⟩
  serving : s.serving = false
  callerDomain : s.callerDomain = none
  inCall : ∀ t, s.inCall t = none
  enqueued : s.enqueued = []
  served : s.served = []
  woken : s.woken = []

/-- The states that permitted steps lead to, when all of them meet `cond`. -/
inductive Reach (cfg : Config) (cond : State → Op → Prop) : State → Prop where
  | init {s : State} (h : Initial cfg s) : Reach cfg cond s
  | step {s s' : State} {op : Op} (hs : Reach cfg cond s) (hop : Permitted cfg s op)
      (hcond : cond s op) (h : Returns (exec cfg op s) s') : Reach cfg cond s'

end JxCore.Portal
