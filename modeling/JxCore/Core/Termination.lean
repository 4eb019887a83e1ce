import JxCore.Core.PortalCall
import JxCore.Core.Service

/-!
# Termination of domains with portal calls under way (`core/domain.c`, `core/portal.c`)

`terminateDomain` runs with interrupts disabled while other threads are anywhere in the portal
protocol: queued at a service, handed off to its receiver, or served. Here are its two loops, and the
steps of the protocol that it can come between. Behind the loops stands `sys_panic("")`, so nobody
takes a step after a termination. The run queues are not part of the state; a thread that is
unblocked is runnable.
-/

namespace JxCore.Termination

open Lib Exec Runq
open Portal (Return returnTypeException)
open SenderQueue (DEPDesc)
open Service (Entry maxServices deactivate)

/-- `thread->mostRecentlyCalledBy`. -/
inductive Caller where
  /-- `NULL` -/
  | nobody
  /-- `0xffffffff` -/
  | irq
  | thread (t : Thread)
  deriving DecidableEq, Repr

/-- `THROW_DomainTerminatedException`, which is `-14`. -/
def throwDomainTerminatedException : Nat := 2 ^ 32 - 14

/-- Domains, threads and services. A domain and a thread are their control blocks, a service is the
number of its descriptor. The last five fields are a record of what happened. -/
structure Sys where
  currentDomainID : Nat
  /-- `domain->id` -/
  id : Domain → Nat
  /-- `domain->state == DOMAIN_STATE_ACTIVE` -/
  active : Domain → Bool
  /-- The list `domain->threads`, linked through `nextInDomain`. -/
  threads : Domain → List Thread
  services : Domain → Nat → Entry
  /-- `thread->domain` -/
  domain : Thread → Domain
  state : Thread → ThreadState
  nextInDEPQueue : Links Thread
  blockedInDomain : Thread → Option Domain
  blockedInServiceIndex : Thread → Nat
  mostRecentlyCalledBy : Thread → Caller
  callerDomain : Thread → Option Domain
  callerDomainID : Thread → Nat
  /-- `portalReturnType` and `portalReturn` -/
  portalReturn : Thread → Return
  /-- `svc->firstWaitingSender` and `svc->lastWaitingSender` -/
  waiting : Nat → Header Thread
  abortFlag : Nat → Bool
  receiver : Nat → Thread
  /-- The receiver of the service is inside `callnative_special_portal`. -/
  serving : Nat → Bool
  /-- The thread's control block has been given back. -/
  freed : Thread → Bool
  /-- The callers in the order of their calls. -/
  calls : List Thread
  /-- The call a thread is in. -/
  inCall : Thread → Option Nat
  /-- The calls whose callers have been unblocked with a result. -/
  replies : List Nat
  /-- The threads that were written to or unblocked after they or their domains had ended. -/
  wild : List Thread

namespace Sys

/-- The thread has a control block, in an active domain. -/
def here (s : Sys) (t : Thread) : Bool := !s.freed t && s.active (s.domain t)

/-- A thread's control block is written to. -/
def touch (s : Sys) (t : Thread) : Sys :=
  if s.here t then s else { s with wild := t :: s.wild }

def setState (s : Sys) (t : Thread) (st : ThreadState) : Sys :=
  { s with state := Function.update s.state t st }

def setReturn (s : Sys) (t : Thread) (r : Return) : Sys :=
  { s with portalReturn := Function.update s.portalReturn t r }

/-- The queue of the service `k`. -/
def svc (s : Sys) (k : Nat) : DEPDesc := ⟨s.nextInDEPQueue, s.waiting k⟩

/-- Some links of waiting senders change, and the first sender of a service. -/
def setQueue (s : Sys) (k : Nat) (next : Links Thread) (h : Header Thread) : Sys :=
  { s with nextInDEPQueue := next, waiting := Function.update s.waiting k h }

/-- `threadunblock` -/
def threadunblock (s : Sys) (t : Thread) : Sys := (s.touch t).setState t .runnable

end Sys

/-! ## Termination -/

/-- The descriptor of a service. A marker in its place is not one. -/
def deref : Entry → Exec Nat
  | .dep k => pure k
  | _ => throw .wild

/-- `portal_remove_sender`. -/
def portalRemoveSender (s : Sys) (fuel k : Nat) (sender : Thread) : Exec Sys := do
  let svc ← (s.svc k).portalRemoveSender fuel sender
  return s.setQueue k svc.nextInDEPQueue svc.waitingSenders

def portalAbortCurrentCall (s : Sys) (k : Nat) : Sys :=
  { s with abortFlag := Function.update s.abortFlag k true }

/-- "terminate all pending portal calls", for one thread of the domain -/
def endCall (fuel : Nat) (s : Sys) (t : Thread) : Exec Sys :=
  match s.blockedInDomain t with
  | none => pure s
  | some e => do
    let svc := s.services e (s.blockedInServiceIndex t)
    if s.state t = .portalWaitForRcv then
      portalRemoveSender s fuel (← deref svc) t
    else if s.state t = .portalWaitForRet then
      return portalAbortCurrentCall s (← deref svc)
    else throw (.panic "terminate with pending call not yet supported")

/-- "and return from all running service executions with an exception", for one thread -/
def endService (s : Sys) (t : Thread) : Exec Sys :=
  match s.mostRecentlyCalledBy t with
  | .irq => throw (.panic "this should not happen on a uniprocessor")
  | .nobody => pure s
  | .thread source =>
    pure ((s.setReturn source ⟨returnTypeException, throwDomainTerminatedException⟩).threadunblock
      source)

/-- The second loop of `terminateDomain`, over the threads of the domain. -/
def endThreads (fuel : Nat) (s : Sys) : List Thread → Exec Sys
  | [] => pure s
  | t :: l => do
    let s ← endCall fuel s t
    let s ← endService s t
    endThreads fuel s l

/-- The domain is no longer active, and its services are deactivated. -/
def deactivateServices (s : Sys) (d : Domain) : Sys :=
  { s with
    active := Function.update s.active d false
    services := Function.update s.services d (deactivate (s.services d) maxServices 0) }

/-- `terminateDomain` up to the end of its two loops. -/
def terminateLoops (fuel : Nat) (s : Sys) (d : Domain) : Exec Sys :=
  endThreads fuel (deactivateServices s d) (s.threads d)

/-- A routine stops the machine. -/
def Stops (call : Nat → Exec Sys) : Prop := ∃ e n, ∀ fuel ≥ n, call fuel = throw e

theorem Stops.not_returns {call : Nat → Exec Sys} {s : Sys} (h : Stops call) : ¬ Returns call s := by
  rintro ⟨m, hm⟩
  obtain ⟨e, n, hn⟩ := h
  have hboth := (hm (max m n) (Nat.le_max_left m n)).symm.trans (hn (max m n) (Nat.le_max_right m n))
  cases hboth

/-- `terminateDomain`. The scheduler is not told (`Sched_DomainTerminated` stands in a comment), the
machine is stopped instead. Nothing that follows is reached: no control block is given back. -/
def terminateDomain (fuel : Nat) (s : Sys) (d : Domain) : Exec Sys := do
  let _ ← terminateLoops fuel s d
  throw (.panic "")

/-! ## Portal calls -/

/-- The call of a thread is answered. -/
def Sys.record (s : Sys) (t : Thread) : Sys :=
  { s with replies := s.replies ++ (s.inCall t).toList }

/-- `portal_add_sender`, which writes to the last sender of the queue. -/
def portalAddSender (s : Sys) (k : Nat) (t : Thread) : Sys :=
  let s := match (s.waiting k).last with
    | some y => s.touch y
    | none => s
  let svc := (s.svc k).appendSender t
  s.setQueue k svc.nextInDEPQueue svc.waitingSenders

/-- The thread enters a call of the service at index `i` of domain `e`. -/
def Sys.enterCall (s : Sys) (t : Thread) (e : Domain) (i : Nat) : Sys :=
  { s with
    blockedInDomain := Function.update s.blockedInDomain t (some e)
    blockedInServiceIndex := Function.update s.blockedInServiceIndex t i
    inCall := Function.update s.inCall t (some s.calls.length)
    calls := s.calls ++ [t] }

/-- `direct_send_portal` of the thread `t` for the service `k` at index `i` of domain `e`, up to the
switch: it waits for the receiver, or is handed off to it. -/
def directSendPortal (s : Sys) (t : Thread) (e : Domain) (i k : Nat) : Sys :=
  let s := portalAddSender (s.enterCall t e i) k t
  if s.state (s.receiver k) ≠ .portalWaitForSnd then s.setState t .portalWaitForRcv
  else (s.setState t .portalWaitForRet).threadunblock (s.receiver k)

/-- `finished:` of `direct_send_portal`, when the caller runs again. -/
def leaveCall (s : Sys) (t : Thread) : Sys :=
  { s with
    blockedInDomain := Function.update s.blockedInDomain t none
    blockedInServiceIndex := Function.update s.blockedInServiceIndex t 0
    inCall := Function.update s.inCall t none }

/-- The test for a caller whose domain was terminated; `null` says how low memory, read through a
`callerDomain` that is still `NULL`, looks. -/
def callerDisappeared (null : Bool) (s : Sys) (r : Thread) : Bool :=
  match s.callerDomain r with
  | none => null
  | some d => s.callerDomainID r ≠ s.id d || !s.active d

/-- The receiver is at the head of its loop again. -/
def finishedReturnHandling (s : Sys) (k : Nat) : Sys :=
  { s with
    serving := Function.update s.serving k false
    mostRecentlyCalledBy := Function.update s.mostRecentlyCalledBy (s.receiver k) .nobody }

/-- `throw_exception` at the service entry, and `reinit_service_thread`: a caller that disappeared gets
no exception, but is unblocked. `copy` is the copy of the exception in the caller's domain. -/
def throwException (null : Bool) (s : Sys) (k : Nat) (source : Thread) (copy : Nat) : Sys :=
  let s := if callerDisappeared null s (s.receiver k) then s
    else ((s.touch source).setReturn source ⟨returnTypeException, copy⟩).record source
  let s := { s with serving := Function.update s.serving k false }
  (s.setState (s.receiver k) .runnable).threadunblock source

/-- `portal_dequeue_sender`, and the receiver takes up the call. -/
def takeUp (s : Sys) (k : Nat) (source : Thread) : Sys :=
  let svc := (s.svc k).portalDequeueSender.2
  let s := (s.touch source).setQueue k svc.nextInDEPQueue svc.waitingSenders
  let s := s.setState source .portalWaitForParamcopy
  { s with
    mostRecentlyCalledBy := Function.update s.mostRecentlyCalledBy (s.receiver k) (.thread source) }

/-- The receiver remembers the caller's domain and calls the method. -/
def startExec (s : Sys) (k : Nat) (source : Thread) : Sys :=
  let r := s.receiver k
  let s := s.setState source .portalWaitForRet
  { s with
    callerDomain := Function.update s.callerDomain r (some (s.domain source))
    callerDomainID := Function.update s.callerDomainID r (s.id (s.domain source))
    serving := Function.update s.serving k true }

/-- One turn of the receive loop up to the call of the method; copying the parameters may raise an
exception, `fault` being its copy in the caller's domain. -/
def receivePortalcall (null : Bool) (s : Sys) (k : Nat) (fault : Option Nat) : Sys :=
  let r := s.receiver k
  let s := { s with mostRecentlyCalledBy := Function.update s.mostRecentlyCalledBy r .nobody }
  match (s.waiting k).first with
  | none => s.setState r .portalWaitForSnd
  | some source =>
    let s := takeUp s k source
    match fault with
    | some copy => throwException null s k source copy
    | none => startExec s k source

/-- The method has returned. -/
def sendReply (null : Bool) (s : Sys) (k : Nat) (ret : Return) : Exec Sys :=
  let r := s.receiver k
  -- caller disappeared, ignore all return values; the request to abort the call stays
  if callerDisappeared null s r then pure (finishedReturnHandling s k)
  else
    match s.mostRecentlyCalledBy r with
    | .thread source =>
      if s.abortFlag k then
        pure (finishedReturnHandling
          { s with abortFlag := Function.update s.abortFlag k false } k)
      else
        let s := ((s.touch source).setReturn source ret).record source
        let s := finishedReturnHandling s k
        let s := s.setState r (if (s.waiting k).first.isSome then .runnable else .portalWaitForSnd)
        pure (s.threadunblock source)
    | _ => throw (.assertion "ASSERTTHREAD(source)")

/-! ## Runs with one service

The machine goes on until a routine stops it. -/

/-- The service: its place, its number, and what low memory looks like. -/
structure Config where
  server : Domain
  index : Nat
  svc : Nat
  null : Bool

inductive Event where
  | call (t : Thread)
  | receive (fault : Option Nat)
  | reply (ret : Return)
  | throw (copy : Nat)
  | leave (t : Thread)
  | terminate (d : Domain)
  | createDomain (d : Domain)
  | createThread (t : Thread) (d : Domain)

/-- A free domain control block is used for a new domain. -/
def createDomain (s : Sys) (d : Domain) : Sys :=
  { s with
    currentDomainID := u4 (s.currentDomainID + 1)
    id := Function.update s.id d s.currentDomainID
    active := Function.update s.active d true
    threads := Function.update s.threads d []
    services := Function.update s.services d (Function.update (fun _ => .free) 0 .changing) }

def createThread (s : Sys) (t : Thread) (d : Domain) : Sys :=
  { s with
    domain := Function.update s.domain t d
    state := Function.update s.state t .runnable
    threads := Function.update s.threads d (t :: s.threads d)
    blockedInDomain := Function.update s.blockedInDomain t none
    mostRecentlyCalledBy := Function.update s.mostRecentlyCalledBy t .nobody
    inCall := Function.update s.inCall t none }

def exec (cfg : Config) (e : Event) (s : Sys) (fuel : Nat) : Exec Sys :=
  match e with
  | .call t => pure (directSendPortal s t cfg.server cfg.index cfg.svc)
  | .receive fault => pure (receivePortalcall cfg.null s cfg.svc fault)
  | .reply ret => sendReply cfg.null s cfg.svc ret
  | .throw copy =>
    match s.mostRecentlyCalledBy (s.receiver cfg.svc) with
    | .thread source => pure (throwException cfg.null s cfg.svc source copy)
    | _ => throw (.assertion "ASSERTTHREAD(source)")
  | .leave t => pure (leaveCall s t)
  | .terminate d => terminateDomain fuel s d
  | .createDomain d => pure (createDomain s d)
  | .createThread t d => pure (createThread s t d)

/-- A thread that has been created and not been freed. -/
def Sys.Lives (s : Sys) (t : Thread) : Prop := s.freed t = false ∧ s.state t ≠ .unborn

/-- When each step may be taken: a client calls from another domain, and only client domains
terminate. -/
def Enabled (cfg : Config) (s : Sys) : Event → Prop
  | .call t => s.Lives t ∧ s.state t = .runnable ∧ s.inCall t = none ∧ s.domain t ≠ cfg.server
  | .receive _ => s.serving cfg.svc = false ∧ s.state (s.receiver cfg.svc) = .runnable
  | .reply _ | .throw _ => s.serving cfg.svc = true
  | .leave t => s.Lives t ∧ s.state t = .runnable ∧ s.inCall t ≠ none
  | .terminate d => s.active d = true ∧ d ≠ cfg.server
  | .createDomain d => s.active d = false
  | .createThread t d => s.active d = true ∧ s.state t = .unborn

end JxCore.Termination
