import JxCore.Basic
import JxCore.Lib.LinkedQueue

/-!
# The default scheduler (`core/runq.c`, `core/runq_inline.c`)

Two levels of queues: `domain_runqueue` links the runnable domains, and each domain links its own
runnable threads. The current thread is in no queue, and neither is its domain.

The kernel runs these routines with interrupts disabled, so each of them is one step. The exception
is `throw_exception`, which does not disable them: it may call `reinit_service_thread`, and with it
`Sched_portal_destroy_handoff_to_sender`, while they are enabled. The interrupt flag is no part of the
state, and here that call is one step like the others. The build has `DEBUG` switched on, hence the
checks that panic are part of the model; `PORTAL_HANDOFF` is off.
-/

namespace JxCore.Runq

open Lib Exec

/-- The states of a thread, `STATE_*` in `core/thread.h`. -/
inductive ThreadState where
  /-- There is no thread with this identity yet. -/
  | unborn
  | init
  | runnable
  | zombie
  | sleeping
  | waiting
  | portalWaitForRcv
  | portalWaitForSnd
  | portalWaitForRet
  | blockedUser
  | available
  | waitOneshot
  | portalWaitForParamcopy
  | portalWaitForRetcopy
  deriving DecidableEq, Repr

/-- The states in which a thread waits to be unblocked. -/
def ThreadState.isBlocked : ThreadState → Bool
  | .sleeping | .waiting | .portalWaitForRcv | .portalWaitForSnd | .portalWaitForRet
  | .blockedUser | .waitOneshot | .portalWaitForParamcopy | .portalWaitForRetcopy => true
  | .unborn | .init | .runnable | .zombie | .available => false

/-- A `ThreadDesc *`. -/
abbrev Thread := Nat

/-- A `DomainDesc *`. -/
abbrev Domain := Nat

/-- What is fixed at boot: `idle_thread`, `domainZero` and the domains `foreachDomain` visits. -/
structure Config where
  idle : Thread
  domainZero : Domain
  domains : List Domain

/-- The data of the scheduler. -/
structure Sched where
  /-- `thread->domain`. -/
  domain : Thread → Domain
  /-- `thread->state`. -/
  state : Thread → ThreadState
  /-- `thread->nextInRunQueue`. -/
  threadNext : Links Thread
  /-- `domain->firstThreadInRunQueue` and `domain->lastThreadInRunQueue`. -/
  threadQueue : Domain → Header Thread
  /-- `domain->nextInRunQueue`. -/
  domainNext : Links Domain
  /-- `domain_runqueue`. -/
  domainRunqueue : Header Domain
  /-- `curthr()`. -/
  curthr : Thread
  /-- Which interrupt thread interrupted which thread, for the interrupts under way. -/
  interrupted : List (Thread × Thread)

namespace Sched

/-- `curdom()`. -/
def curdom (s : Sched) : Domain := s.domain s.curthr

def setState (s : Sched) (t : Thread) (st : ThreadState) : Sched :=
  { s with state := Function.update s.state t st }

/-! ## Queue operations -/

/-- `threadrunq_append`; true when the domain had no runnable thread before. -/
def threadrunqAppend (s : Sched) (d : Domain) (t : Thread) : Bool × Sched :=
  let (next, h) := append s.threadNext (s.threadQueue d) t
  ((s.threadQueue d).last.isNone,
    { s with threadNext := next, threadQueue := Function.update s.threadQueue d h })

/-- `threadrunq_remove`. -/
def threadrunqRemove (s : Sched) (d : Domain) : Exec (Option Thread × Sched) := do
  match (s.threadQueue d).first with
  | none => return (none, s)
  | some t =>
    assert (s.state t = .runnable) "t->state == STATE_RUNNABLE"
    let (next, h) := removeFirst s.threadNext (s.threadQueue d) t
    return (some t,
      { s with threadNext := next, threadQueue := Function.update s.threadQueue d h })

/-- `domainrunq_append`. -/
def domainrunqAppend (fuel : Nat) (s : Sched) (d : Domain) : Exec Sched := do
  if ← loop (find s.domainNext d fuel s.domainRunqueue.first) then
    throw (.panic "domain already in runqueue")
  if s.domainRunqueue.last = none then
    assert (s.domainRunqueue.first = none) "domain_runqueue.first == NULL"
  let (next, h) := append s.domainNext s.domainRunqueue d
  return { s with domainNext := next, domainRunqueue := h }

/-- The current domain joins the run queue if it contains runnable threads; both
`runqueue_switchdomains` and `runqueue_removeFirstOrNULL` start like this. -/
def appendIfRunnable (fuel : Nat) (s : Sched) (currentDomain : Domain) : Exec Sched :=
  if (s.threadQueue currentDomain).first ≠ none then domainrunqAppend fuel s currentDomain
  else pure s

/-- `domainrunq_remove`. -/
def domainrunqRemove (s : Sched) : Exec (Option Domain × Sched) := do
  match s.domainRunqueue.first with
  | none => return (none, s)
  | some d =>
    if d = s.curdom then throw (.panic "running domain should not be in runq")
    let (next, h) := removeFirst s.domainNext s.domainRunqueue d
    if h.first = none then assert (h.last = none) "domain_runqueue.last == NULL"
    return (some d, { s with domainNext := next, domainRunqueue := h })

/-- The loop of `runqueue_switchdomains` that takes the new current domain out of the run queue. -/
def removeIfRunnable (fuel : Nat) (s : Sched) (target : Domain) : Exec Sched := do
  if (s.threadQueue target).first ≠ none then
    let (next, h) ← (unlink (.assertion "to == domain_runqueue.last") s.domainNext
      s.domainRunqueue target fuel none s.domainRunqueue.first : Exec (Links Domain × Header Domain))
    return { s with domainNext := next, domainRunqueue := h }
  else return s

/-- `runqueue_switchdomains`. -/
def runqueueSwitchdomains (fuel : Nat) (s : Sched) (currentDomain target : Domain) : Exec Sched := do
  assert (s.curdom = currentDomain) "curdom() == currentDomain"
  let s ← s.appendIfRunnable fuel currentDomain
  let s ← s.removeIfRunnable fuel target
  if s.domainRunqueue.first = none then
    assert (s.domainRunqueue.last = none) "domain_runqueue.last == NULL"
  if s.domainRunqueue.last = none then
    assert (s.domainRunqueue.first = none) "domain_runqueue.first == NULL"
  return s

/-! ## Checks of the `DEBUG` build -/

/-- `check_runnable`; its comparison of the state is written as an assignment. -/
def checkRunnable (fuel : Nat) (s : Sched) (d : Domain) : Exec Sched := do
  if d = s.curdom then return s
  match (s.threadQueue d).first with
  | none => return s
  | some t =>
    let s := s.setState t .runnable
    if ← loop (find s.domainNext d fuel s.domainRunqueue.first) then return s
    throw (.panic "domain contains runnable threads but is not in runq and not the current domain")

/-- `check_completerunnable`. -/
def checkCompleterunnable (fuel : Nat) (s : Sched) : List Domain → Exec Sched
  | [] => return s
  | d :: ds => do
    let s ← checkRunnable fuel s d
    checkCompleterunnable fuel s ds

/-- The inner loop of `check_not_in_runq`. -/
def checkNotInQueue (fuel : Nat) (s : Sched) (d : Domain) (t : Thread) : Exec Unit := do
  if ← loop (find s.threadNext t fuel (s.threadQueue d).first) then
    throw (.panic "Thread is in runq and should not be there")

/-- The outer loop of `check_not_in_runq`. -/
def checkNotInDomains (fuel : Nat) (s : Sched) (t : Thread) : Nat → Option Domain → Exec Unit
  | 0, _ => loop none
  | _ + 1, none => return ()
  | n + 1, some d => do
    checkNotInQueue fuel s d t
    checkNotInDomains fuel s t n (s.domainNext d)

/-- `check_not_in_runq`. -/
def checkNotInRunq (fuel : Nat) (s : Sched) (t : Thread) : Exec Unit := do
  checkNotInQueue fuel s s.curdom t
  checkNotInDomains fuel s t fuel s.domainRunqueue.first

/-! ## Choosing the next thread -/

/-- `runqueue_removeFirstOrNULL`. -/
def runqueueRemoveFirstOrNull (cfg : Config) (fuel : Nat) (s : Sched) (currentDomain : Domain) :
    Exec (Option Thread × Sched) := do
  let s ← checkCompleterunnable fuel s cfg.domains
  match ← domainrunqRemove s with
  | (none, s) => threadrunqRemove s currentDomain
  | (some newdom, s) =>
    assert ((s.threadQueue newdom).first ≠ none) "newdom->firstThreadInRunQueue"
    let s ← s.appendIfRunnable fuel currentDomain
    match ← threadrunqRemove s newdom with
    | (none, _) => throw (.assertion "next != NULL")
    | (some next, s) =>
      assert (s.state next = .runnable) "next->state == STATE_RUNNABLE"
      return (some next, s)

/-- `runqueue_removeFirstOrIdle`. -/
def runqueueRemoveFirstOrIdle (cfg : Config) (fuel : Nat) (s : Sched) (currentDomain : Domain) :
    Exec (Thread × Sched) := do
  let (next, s) ← runqueueRemoveFirstOrNull cfg fuel s currentDomain
  return (next.getD cfg.idle, s)

/-- `switch_to` and `destroy_switch_to`, as far as the scheduler sees them. -/
def switchTo (s : Sched) (next : Thread) : Sched := { s with curthr := next }

/-- `Sched_switch_to_nextThread`. -/
def switchToNextThread (cfg : Config) (fuel : Nat) (s : Sched) : Exec Sched := do
  let (next, s) ← runqueueRemoveFirstOrIdle cfg fuel s s.curdom
  checkNotInRunq fuel s next
  return s.switchTo next

/-- `Sched_destroy_switch_to_nextThread`. -/
def destroySwitchToNextThread (cfg : Config) (fuel : Nat) (s : Sched) (currentDomain : Domain) :
    Exec Sched := do
  let (next, s) ← runqueueRemoveFirstOrIdle cfg fuel s currentDomain
  checkNotInRunq fuel s next
  return s.switchTo next

/-! ## The scheduler's interface -/

/-- `SCHED_CREATETHREAD_DEFAULT` and `SCHED_CREATETHREAD_NORUNQ`. -/
inductive CreateParam where
  | default
  | norunq
  deriving DecidableEq, Repr

/-- Queue a thread, and its domain too if that became runnable and is not the one that runs:
`if (threadrunq_append(d, t)) { if (running != d) domainrunq_append(d); }` -/
def enqueue (fuel : Nat) (s : Sched) (t : Thread) (running : Domain) : Exec Sched :=
  let (wasEmpty, s) := s.threadrunqAppend (s.domain t) t
  if wasEmpty ∧ running ≠ s.domain t then domainrunqAppend fuel s (s.domain t) else pure s

/-- `Sched_unblocked`. -/
def unblocked (fuel : Nat) (s : Sched) (t : Thread) : Exec Sched := s.enqueue fuel t s.curdom

/-- `Sched_created`. -/
def created (fuel : Nat) (s : Sched) (t : Thread) : CreateParam → Exec Sched
  | .default => s.enqueue fuel t s.curdom
  | .norunq => pure s

/-- `threadunblock`. -/
def threadunblock (fuel : Nat) (s : Sched) (t : Thread) : Exec Sched :=
  (s.setState t .runnable).unblocked fuel t

/-- The end of `createThread`: the new thread has its state and is announced. -/
def createThread (fuel : Nat) (s : Sched) (t : Thread) (st : ThreadState) (param : CreateParam) :
    Exec Sched :=
  { s.setState t st with threadNext := Function.update s.threadNext t none }.created fuel t param

/-- `cpuManager_start`. -/
def cpuManagerStart (fuel : Nat) (s : Sched) (t : Thread) : Exec Sched :=
  if s.state t ≠ .init then pure s else (s.setState t .runnable).created fuel t .default

/-- `Sched_yielded`. -/
def yielded (cfg : Config) (s : Sched) (t : Thread) : Sched :=
  if t = cfg.idle then s else (s.threadrunqAppend (s.domain s.curthr) s.curthr).2

/-- `threadyield`. -/
def threadyield (cfg : Config) (fuel : Nat) (s : Sched) : Exec Sched :=
  (s.yielded cfg s.curthr).switchToNextThread cfg fuel

/-- `Sched_block`, up to the point where another thread runs. -/
def block (cfg : Config) (fuel : Nat) (s : Sched) (st : ThreadState) : Exec Sched := do
  let s := s.setState s.curthr st
  assert (s.state s.curthr ≠ .runnable) "thread->state != STATE_RUNNABLE"
  s.switchToNextThread cfg fuel

/-- The end of `Sched_block`, when the thread runs again. -/
def blockReturn (s : Sched) : Sched := s.setState s.curthr .runnable

/-- "add current thread to runq" in `Sched_reschedule`. -/
def requeueCurrent (cfg : Config) (fuel : Nat) (s : Sched) (next : Thread) : Exec Sched :=
  if s.curthr ≠ cfg.idle then s.enqueue fuel s.curthr (s.domain next) else pure s

/-- `Sched_reschedule`. -/
def reschedule (cfg : Config) (fuel : Nat) (s : Sched) : Exec Sched := do
  match ← runqueueRemoveFirstOrNull cfg fuel s s.curdom with
  | (none, s) => return s
  | (some next, s) =>
    let s ← s.requeueCurrent cfg fuel next
    assert (s.curthr ≠ next) "curthr() != next"
    checkNotInRunq fuel s next
    return s.switchTo next

/-- `Sched_portal_handoff_to_receiver`, up to the switch. -/
def portalHandoffToReceiver (cfg : Config) (fuel : Nat) (s : Sched) (receiver : Thread) :
    Exec Sched := do
  let s := (s.setState s.curthr .portalWaitForRet).setState receiver .runnable
  let s ← s.threadunblock fuel receiver
  s.switchToNextThread cfg fuel

/-- `Sched_portal_handoff_to_sender`. -/
def portalHandoffToSender (cfg : Config) (fuel : Nat) (s : Sched) (sender : Thread)
    (isRunnable : Bool) : Exec Sched := do
  let s := if isRunnable then
      let s := s.setState s.curthr .runnable
      (s.threadrunqAppend s.curdom s.curthr).2
    else s.setState s.curthr .portalWaitForSnd
  let s ← s.threadunblock fuel sender
  s.switchToNextThread cfg fuel

/-- `Sched_portal_destroy_handoff_to_sender`. -/
def portalDestroyHandoffToSender (cfg : Config) (fuel : Nat) (s : Sched) (sender : Thread) :
    Exec Sched := do
  let s := (s.threadrunqAppend s.curdom s.curthr).2
  let s ← s.threadunblock fuel sender
  s.destroySwitchToNextThread cfg fuel s.curdom

/-- The common body of `Sched_activate_interrupt_thread` and `Sched_deactivate_interrupt_thread`. -/
def switchdomainsFor (fuel : Nat) (s : Sched) (t : Thread) : Exec Sched :=
  if s.curdom ≠ s.domain t then runqueueSwitchdomains fuel s s.curdom (s.domain t) else pure s

/-- `Sched_activate_interrupt_thread` inside `irq_first_level_handler`. -/
def activateInterruptThread (fuel : Nat) (s : Sched) (irqThread : Thread) : Exec Sched := do
  let s ← s.switchdomainsFor fuel irqThread
  assert (s.state irqThread = .available) "ithreads[cpuID][irq]->state == STATE_AVAILABLE"
  return { s.setState irqThread .runnable with
    curthr := irqThread, interrupted := (irqThread, s.curthr) :: s.interrupted }

/-- `Sched_deactivate_interrupt_thread` inside `irq_exit`. -/
def deactivateInterruptThread (fuel : Nat) (s : Sched) (normalThread : Thread) : Exec Sched := do
  let s ← s.switchdomainsFor fuel normalThread
  assert (s.state s.curthr = .runnable) "ithreads[cpuID][inumber[cpuID]]->state == STATE_RUNNABLE"
  return { s.setState s.curthr .available with
    curthr := normalThread, interrupted := s.interrupted.erase (s.curthr, normalThread) }

/-- `destroyCurrentThread`. -/
def destroyCurrentThread (cfg : Config) (fuel : Nat) (s : Sched) : Exec Sched :=
  (s.setState s.curthr .zombie).destroySwitchToNextThread cfg fuel s.curdom

end Sched

/-! ## Runs of the scheduler -/

/-- The calls the rest of the kernel makes. -/
inductive Op where
  | createThread (t : Thread) (st : ThreadState) (param : Sched.CreateParam)
  | start (t : Thread)
  | unblock (t : Thread)
  | yield
  | block (st : ThreadState)
  | blockReturn
  | reschedule
  | handoffToReceiver (receiver : Thread)
  | handoffToSender (sender : Thread) (isRunnable : Bool)
  | destroyHandoffToSender (sender : Thread)
  | activateInterrupt (irqThread : Thread)
  | deactivateInterrupt (normalThread : Thread)
  | destroyCurrent

/-- One call. -/
def exec (cfg : Config) (op : Op) (s : Sched) (fuel : Nat) : Exec Sched :=
  match op with
  | .createThread t st param => s.createThread fuel t st param
  | .start t => s.cpuManagerStart fuel t
  | .unblock t => s.threadunblock fuel t
  | .yield => s.threadyield cfg fuel
  | .block st => s.block cfg fuel st
  | .blockReturn => pure s.blockReturn
  | .reschedule => s.reschedule cfg fuel
  | .handoffToReceiver receiver => s.portalHandoffToReceiver cfg fuel receiver
  | .handoffToSender sender isRunnable => s.portalHandoffToSender cfg fuel sender isRunnable
  | .destroyHandoffToSender sender => s.portalDestroyHandoffToSender cfg fuel sender
  | .activateInterrupt irqThread => s.activateInterruptThread fuel irqThread
  | .deactivateInterrupt normalThread => s.deactivateInterruptThread fuel normalThread
  | .destroyCurrent => s.destroyCurrentThread cfg fuel

/-- What the callers see to: only blocked threads are unblocked, an interrupt thread is available
when it is activated and gives way to the thread it interrupted, a created thread is announced as
runnable exactly when it is, and the idle thread does nothing but yield. -/
def Permitted (cfg : Config) (s : Sched) : Op → Prop
  | .createThread t st param => s.state t = .unborn ∧
      (param = .default ∧ st = .runnable ∨ param = .norunq ∧ (st = .init ∨ st = .available))
  | .start _ => True
  | .unblock t => (s.state t).isBlocked = true
  | .yield => True
  | .block st => st.isBlocked = true ∧ s.curthr ≠ cfg.idle
  | .blockReturn => True
  | .reschedule => True
  | .handoffToReceiver receiver => (s.state receiver).isBlocked = true ∧ s.curthr ≠ cfg.idle
  | .handoffToSender sender _ => (s.state sender).isBlocked = true ∧ s.curthr ≠ cfg.idle
  | .destroyHandoffToSender sender => (s.state sender).isBlocked = true ∧ s.curthr ≠ cfg.idle
  | .activateInterrupt irqThread => s.state irqThread = .available
  | .deactivateInterrupt normalThread => (s.curthr, normalThread) ∈ s.interrupted
  | .destroyCurrent => s.curthr ≠ cfg.idle

/-- The scheduler as `runq_init` leaves it: one thread runs, the idle thread exists, no queue has an
element and no interrupt is under way. -/
structure Initial (cfg : Config) (s : Sched) : Prop where
  runq_empty : s.domainRunqueue = ⟨none, none⟩
  thread_empty : ∀ d, s.threadQueue d = ⟨none, none⟩
  not_interrupted : s.interrupted = []
  idle_domain : s.domain cfg.idle = cfg.domainZero
  runnable : ∀ t, s.state t = .runnable ↔ t = s.curthr ∨ t = cfg.idle

/-- The states that permitted calls lead to. -/
inductive Reach (cfg : Config) : Sched → Prop where
  | init {s : Sched} (h : Initial cfg s) : Reach cfg s
  | step {s s' : Sched} {op : Op} (hs : Reach cfg s) (hop : Permitted cfg s op)
      (h : Returns (exec cfg op s) s') : Reach cfg s'

end JxCore.Runq
