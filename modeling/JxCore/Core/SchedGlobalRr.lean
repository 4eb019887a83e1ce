import JxCore.Core.Runq

/-!
# The round-robin schedulers (`core/sched_global_rr.c`, `core/sched_local_rr.c`)

The global scheduler queues domains, and each domain has a local one that queues its threads. Unlike in
`core/runq.c`, the thread that runs stays `current` in its domain, and a flag next to the link of a
domain says whether it is queued.

`queue_remove` takes the first domain out. Two routines call it with the domain they want to get rid of,
which it does not look at; and `Sched_preempted` appends the running domain without a look at the flag.
`queue_correct` is about the runs in which neither matters.
-/

namespace JxCore.SchedRr

open Lib Exec
open Runq (Thread Domain ThreadState)
open Runq.Sched (CreateParam)

/-- The data of both schedulers. -/
structure Sched where
  /-- `thread->domain`. -/
  domain : Thread → Domain
  /-- `thread->state`. -/
  state : Thread → ThreadState
  /-- `thread->isInterruptHandlerThread`. -/
  isInterruptHandlerThread : Thread → Bool
  /-- `curthr()`. -/
  curthr : Thread
  /-- `idle_thread` and `domainZero`. -/
  idleThread : Thread
  domainZero : Domain
  /-- The interrupt thread under way, and `icurrent`, which it has interrupted. -/
  ithread : Thread
  icurrent : Thread
  /-- `SCHED_RR_MEM(domain).nextInRunQueue` and `SCHED_RR_MEM(domain).queued`. -/
  nextInRunQueue : Links Domain
  queued : Domain → Bool
  /-- `runq`. -/
  runq : Header Domain
  /-- `SCHED_LOCAL_RR_TMEM(thread).next`. -/
  next : Links Thread
  /-- `first` and `last` of `SCHED_LOCAL_RR_MEM(domain)`. -/
  threads : Domain → Header Thread
  /-- `SCHED_LOCAL_RR_MEM(domain).current`. -/
  current : Domain → Option Thread

namespace Sched

def curdom (s : Sched) : Domain := s.domain s.curthr

def setState (s : Sched) (t : Thread) (st : ThreadState) : Sched :=
  { s with state := Function.update s.state t st }

/-! ## The queue of domains -/

/-- `queue_remove`; the first domain is removed, whatever the caller passes. -/
def queueRemove (s : Sched) : Option Domain × Sched :=
  match s.runq.first with
  | none => (none, s)
  | some d =>
    (some d, { s with
      nextInRunQueue := (removeFirst s.nextInRunQueue s.runq d).1
      runq := (removeFirst s.nextInRunQueue s.runq d).2
      queued := Function.update s.queued d false })

/-- `queue_append`. -/
def queueAppend (s : Sched) (d : Domain) : Sched :=
  { s with
    nextInRunQueue := (append s.nextInRunQueue s.runq d).1
    runq := (append s.nextInRunQueue s.runq d).2
    queued := Function.update s.queued d true }

/-- `sched_local_rr_isRunnable`. -/
def isRunnable (s : Sched) (d : Domain) : Bool :=
  (s.current d).isSome || (s.threads d).first.isSome

/-- `Sched_becomesRunnable`. -/
def becomesRunnable (s : Sched) (d : Domain) : Sched :=
  if !s.queued d && s.isRunnable d && (s.curdom != d || s.isInterruptHandlerThread s.curthr) then
    s.queueAppend d
  else s

/-! ## The local scheduler -/

/-- `nextThread`. -/
def nextThread (s : Sched) (d : Domain) : Exec (Option Thread × Sched) := do
  match (s.threads d).first with
  | none => return (none, s)
  | some t =>
    assert (s.state t = .runnable) "t->state == STATE_RUNNABLE"
    if (s.threads d).last = some t then
      assert (s.next t = none) "SCHED_LOCAL_RR_TMEM(t).next == NULL"
      return (some t, { s with
        threads := Function.update s.threads d ⟨none, none⟩, next := Function.update s.next t none })
    else
      return (some t, { s with
        threads := Function.update s.threads d ⟨s.next t, (s.threads d).last⟩
        next := Function.update s.next t none })

/-- `insertThread`, with `rr_check_notin_runq`. In a queue that is not empty `last` is not `NULL`. -/
def insertThread (fuel : Nat) (s : Sched) (d : Domain) (t : Thread) : Exec Sched := do
  assert (s.state t = .runnable) "thread->state == STATE_RUNNABLE"
  if ← loop (find s.next t fuel (s.threads d).first) then throw (.panic "NIR failed")
  let s := { s with next := Function.update s.next t none }
  if (s.threads d).first = none then
    return { s with threads := Function.update s.threads d ⟨some t, some t⟩ }.becomesRunnable d
  else
    let next := match (s.threads d).last with
      | some l => Function.update s.next l (some t)
      | none => s.next
    return { s with
      next := next, threads := Function.update s.threads d ⟨(s.threads d).first, some t⟩ }

end Sched

/-- The loop of `removeThread`. -/
def removeLoop (next : Links Thread) (h : Header Thread) (x : Thread) :
    Nat → Option Thread → Option Thread → Option (Links Thread × Header Thread)
  | 0, _, _ => none
  | _ + 1, _, none => some (next, h)
  | fuel + 1, prev, some t =>
    if t = x then
      let next' := match prev with
        | some p => Function.update next p (next x)
        | none => next
      let first := match prev with
        | some _ => h.first
        | none => next x
      some (Function.update next' x none, ⟨first, if next' x = none then prev else h.last⟩)
    else removeLoop next h x fuel (some t) (next t)

namespace Sched

/-- `removeThread`. -/
def removeThread (fuel : Nat) (s : Sched) (d : Domain) (t : Thread) : Exec Sched := do
  let (next, h) ← loop (removeLoop s.next (s.threads d) t fuel none (s.threads d).first)
  return { s with next := next, threads := Function.update s.threads d h }

/-- `sched_local_rr_destroyed`. -/
def localDestroyed (fuel : Nat) (s : Sched) (d : Domain) (t : Thread) : Exec Sched := do
  if s.current d = some t then
    let (t', s) ← s.nextThread d
    return { s with current := Function.update s.current d t' }
  else s.removeThread fuel d t

/-- `sched_local_rr_blocked`. -/
def localBlocked (s : Sched) (d : Domain) : Exec Sched := do
  assert (s.current d = some s.curthr) "curthr() == SCHED_LOCAL_RR_MEM(domain).current"
  let (t, s) ← s.nextThread d
  return { s with current := Function.update s.current d t }

/-- `sched_local_rr_activated`; `destroy_switch_to` does not return. -/
def localActivated (s : Sched) (d : Domain) : Exec Sched := do
  match s.current d with
  | some t => return { s with curthr := t }
  | none =>
    match ← s.nextThread d with
    | (none, _) => throw (.panic "ACTIVATED DOMAIN IS NOT RUNNABLE")
    | (some t, s) => return { s with current := Function.update s.current d (some t), curthr := t }

/-! ## Choosing a domain -/

/-- `chooseNextDomain`. Its check in the `DEBUG` build is about a variable that has no value. -/
def chooseNextDomain (s : Sched) (addRunq : Bool) : Option Domain × Sched :=
  match s.queueRemove with
  | (none, s) => (none, s)
  | (some nextDomain, s) =>
    if addRunq && !s.queued s.curdom && s.isRunnable s.curdom && nextDomain != s.curdom then
      (some nextDomain, s.queueAppend s.curdom)
    else (some nextDomain, s)

/-- The loop of `activateNext`. -/
def skipLoop : Nat → Sched → Option Domain → Option (Option Domain × Sched)
  | 0, _, _ => none
  | _ + 1, s, none => some (none, s)
  | fuel + 1, s, some d =>
    if s.isRunnable d then some (some d, s) else skipLoop fuel s.queueRemove.2 s.queueRemove.1

/-- `activateNext`. -/
def activateNext (fuel : Nat) (s : Sched) (d : Option Domain) : Exec Sched := do
  let (d, s) := match d with
    | none => s.queueRemove
    | some d => (some d, s)
  match ← loop (skipLoop fuel s d) with
  | (none, s) => return { s with curthr := s.idleThread }
  | (some d, s) => s.localActivated d

/-! ## The interface -/

/-- The end of `Sched_created` and `Sched_unblock`. -/
def appendIfRunnable (s : Sched) (d : Domain) : Sched :=
  if !s.queued d && s.isRunnable d && s.curdom != d then s.queueAppend d else s

/-- `Sched_preempted`. -/
def preempted (fuel : Nat) (s : Sched) : Exec Sched := (s.queueAppend s.curdom).activateNext fuel none

/-- `Sched_created`. -/
def created (fuel : Nat) (s : Sched) (t : Thread) (param : CreateParam) : Exec Sched := do
  let s := { s with next := Function.update s.next t none }
  match param with
  | .default =>
    let s ← s.insertThread fuel (s.domain t) t
    return s.appendIfRunnable (s.domain t)
  | .norunq => return s

/-- `Sched_destroyed`. -/
def destroyed (fuel : Nat) (s : Sched) (t : Thread) : Exec Sched := do
  assert (s.state t ≠ .runnable) "thread->state != STATE_RUNNABLE"
  let s ← s.localDestroyed fuel (s.domain t) t
  if s.queued (s.domain t) && !s.isRunnable (s.domain t) then return s.queueRemove.2 else return s

/-- `Sched_destroyed_current`. -/
def destroyedCurrent (fuel : Nat) (s : Sched) (d : Domain) : Exec Sched := s.activateNext fuel (some d)

/-- `Sched_unblock`. -/
def unblock (fuel : Nat) (s : Sched) (t : Thread) : Exec Sched := do
  let s := s.setState t .runnable
  let s ← s.insertThread fuel (s.domain t) t
  return s.appendIfRunnable (s.domain t)

/-- `Sched_block`. -/
def block (fuel : Nat) (s : Sched) (st : ThreadState) : Exec Sched := do
  let d := s.curdom
  let s ← (s.setState s.curthr st).localBlocked d
  s.activateNext fuel (some d)

/-- `Sched_domainLeave`. -/
def domainLeave (s : Sched) (_ : Domain) : Sched := s.queueRemove.2

/-- `irq_first_level_handler`; `Sched_activate_interrupt_thread` is empty. -/
def irqFirstLevelHandler (s : Sched) (t : Thread) : Exec Sched := do
  assert (s.state t = .available) "ithreads[cpuID][irq]->state == STATE_AVAILABLE"
  return { s.setState t .runnable with curthr := t, ithread := t, icurrent := s.curthr }

/-- `irq_exit`. -/
def irqExit (s : Sched) : Exec Sched := do
  assert (s.state s.ithread = .runnable) "ithreads[cpuID][inumber[cpuID]]->state == STATE_RUNNABLE"
  return { s.setState s.ithread .available with curthr := s.icurrent }

/-- The loop of `idle`, from one look at the queues to the next. -/
def idle (fuel : Nat) (s : Sched) : Exec Sched :=
  if s.runq.first ≠ none ∨ s.isRunnable s.domainZero then s.activateNext fuel none else pure s

end Sched

/-- The calls of the interface. The routines for portals unblock one thread and block another. -/
inductive Call where
  | preempted
  | created (t : Thread) (param : CreateParam)
  | destroyed (t : Thread)
  | destroyedCurrent (d : Domain)
  | yield
  | unblock (t : Thread)
  | block (st : ThreadState)
  | domainLeave (d : Domain)
  | irqFirstLevelHandler (t : Thread)
  | irqExit
  | idle
  deriving DecidableEq

/-- One call; `Sched_yield` does nothing. -/
def Call.exec (fuel : Nat) (s : Sched) : Call → Exec Sched
  | preempted => s.preempted fuel
  | created t param => s.created fuel t param
  | destroyed t => s.destroyed fuel t
  | destroyedCurrent d => s.destroyedCurrent fuel d
  | yield => pure s
  | unblock t => s.unblock fuel t
  | block st => s.block fuel st
  | domainLeave d => pure (s.domainLeave d)
  | irqFirstLevelHandler t => s.irqFirstLevelHandler t
  | irqExit => s.irqExit
  | idle => s.idle fuel

/-- A call that comes back. -/
def Step (s : Sched) (c : Call) (t : Sched) : Prop := ∃ fuel, c.exec fuel s = pure t

/-! ## What the queue represents -/

/-- The queue holds the domains `l`, and these are the ones whose flag is set. -/
structure Rep (s : Sched) (l : List Domain) : Prop where
  queue : IsQueue s.nextInRunQueue s.runq l
  flag : ∀ d, s.queued d = true ↔ d ∈ l

/-- The local schedulers do not touch the queue of domains. -/
structure SameQueue (s t : Sched) : Prop where
  domain : t.domain = s.domain
  next : t.nextInRunQueue = s.nextInRunQueue
  queued : t.queued = s.queued
  runq : t.runq = s.runq

/-- At most the domain `d` is appended, if it is not in the queue. -/
def Grows (s : Sched) (d : Domain) (t : Sched) : Prop :=
  SameQueue s t ∨ s.queued d = false ∧ SameQueue (s.queueAppend d) t

section Queue

variable {s t : Sched} {l : List Domain} {d : Domain}

theorem SameQueue.refl (s : Sched) : SameQueue s s := ⟨rfl, rfl, rfl, rfl⟩

theorem SameQueue.trans {u : Sched} (h : SameQueue s t) (h' : SameQueue t u) : SameQueue s u :=
  ⟨h'.domain.trans h.domain, h'.next.trans h.next, h'.queued.trans h.queued, h'.runq.trans h.runq⟩

theorem Rep.same (hr : Rep s l) (h : SameQueue s t) : Rep t l := by
  obtain ⟨hq, hf⟩ := hr
  refine ⟨?_, ?_⟩
  · rw [h.next, h.runq]
    exact hq
  · rw [h.queued]
    exact hf

theorem SameQueue.queueAppend (h : SameQueue s t) (d : Domain) :
    SameQueue (s.queueAppend d) (t.queueAppend d) := by
  obtain ⟨hd, hn, hf, hr⟩ := h
  refine ⟨hd, ?_, ?_, ?_⟩
  · simp only [Sched.queueAppend, hn, hr]
  · simp only [Sched.queueAppend, hf]
  · simp only [Sched.queueAppend, hn, hr]

theorem Rep.append (hr : Rep s l) (hd : d ∉ l) : Rep (s.queueAppend d) (l ++ [d]) := by
  refine ⟨isQueue_append hr.queue hd, fun x => ?_⟩
  rw [List.mem_append, List.mem_singleton, ← hr.flag x]
  show Function.update s.queued d true x = true ↔ _
  by_cases hx : x = d
  · simp [hx]
  · simp [hx]

/-- The first domain is removed, if there is one. -/
theorem Rep.remove (hr : Rep s l) : s.queueRemove.1 = l.head? ∧ Rep s.queueRemove.2 l.tail := by
  cases l with
  | nil =>
    have hfirst : s.runq.first = none := hr.queue.first_eq_none.mpr rfl
    simp only [Sched.queueRemove, hfirst]
    exact ⟨rfl, hr⟩
  | cons a l =>
    have hfirst : s.runq.first = some a := hr.queue.chain.1
    simp only [Sched.queueRemove, hfirst]
    refine ⟨rfl, isQueue_removeFirst hr.queue, fun x => ?_⟩
    have ha := (List.nodup_cons.mp hr.queue.nodup).1
    show Function.update s.queued a false x = true ↔ x ∈ l
    by_cases hx : x = a
    · subst hx
      simp [ha]
    · rw [Function.update_of_ne hx, hr.flag, List.mem_cons, or_iff_right hx]

theorem Rep.not_mem (hr : Rep s l) (h : s.queued d = false) : d ∉ l := by
  intro hd
  rw [(hr.flag d).mpr hd] at h
  cases h

theorem Rep.grows (hr : Rep s l) (h : Grows s d t) : Rep t l ∨ d ∉ l ∧ Rep t (l ++ [d]) := by
  rcases h with h | ⟨hfree, h⟩
  · exact .inl (hr.same h)
  · have hd := hr.not_mem hfree
    exact .inr ⟨hd, (hr.append hd).same h⟩

theorem Grows.domain (h : Grows s d t) : t.domain = s.domain := by
  rcases h with h | ⟨-, h⟩
  · exact h.domain
  · exact h.domain

/-- What has just been appended is not appended again. -/
theorem Grows.appendIfRunnable (h : Grows s d t) : Grows s d (t.appendIfRunnable d) := by
  unfold Sched.appendIfRunnable
  split
  · next hcond =>
    have hfree : t.queued d = false := by
      simp only [Bool.and_eq_true, Bool.not_eq_true'] at hcond
      exact hcond.1.1
    rcases h with h | ⟨-, h⟩
    · refine .inr ⟨?_, h.queueAppend d⟩
      rw [← h.queued]
      exact hfree
    · have hset : t.queued d = true := by
        rw [h.queued]
        exact Function.update_self _ _ _
      rw [hset] at hfree
      cases hfree
  · exact h

theorem SameQueue.becomesRunnable (h : SameQueue s t) : Grows s d (t.becomesRunnable d) := by
  unfold Sched.becomesRunnable
  split
  · next hcond =>
    simp only [Bool.and_eq_true, Bool.not_eq_true'] at hcond
    refine .inr ⟨?_, h.queueAppend d⟩
    rw [← h.queued]
    exact hcond.1.1
  · exact .inl h

end Queue

/-! ## The routines of the local scheduler -/

section Local

variable {s t : Sched} {d : Domain} {x : Thread} {fuel : Nat}

/-- `nextThread` takes the first thread out. -/
theorem nextThread_eq {r : Option Thread × Sched} (h : s.nextThread d = pure r) :
    r.1 = (s.threads d).first ∧ SameQueue s r.2 ∧ (r.1 = none → r.2 = s) := by
  unfold Sched.nextThread at h
  split at h
  · next hfirst =>
    obtain rfl := eq_of_pure_eq h
    exact ⟨hfirst.symm, .refl s, fun _ => rfl⟩
  · next x hfirst =>
    obtain ⟨_, -, h⟩ := bind_eq_pure h
    split at h
    · obtain ⟨_, -, h⟩ := bind_eq_pure h
      obtain rfl := eq_of_pure_eq h
      exact ⟨hfirst.symm, ⟨rfl, rfl, rfl, rfl⟩, nofun⟩
    · obtain rfl := eq_of_pure_eq h
      exact ⟨hfirst.symm, ⟨rfl, rfl, rfl, rfl⟩, nofun⟩

theorem insertThread_grows (h : s.insertThread fuel d x = pure t) : Grows s d t := by
  unfold Sched.insertThread at h
  obtain ⟨_, -, h⟩ := bind_eq_pure h
  obtain ⟨found, -, h⟩ := bind_eq_pure h
  cases found with
  | true => cases h
  | false =>
    simp only [Bool.false_eq_true, if_false] at h
    split at h
    · obtain rfl := eq_of_pure_eq h
      exact SameQueue.becomesRunnable ⟨rfl, rfl, rfl, rfl⟩
    · obtain rfl := eq_of_pure_eq h
      exact .inl ⟨rfl, rfl, rfl, rfl⟩

/-- What `removeThread` makes of the first pointer. -/
theorem removeLoop_first {next next' : Links Thread} {h h' : Header Thread} {prev p : Option Thread}
    (hloop : removeLoop next h x fuel prev p = some (next', h')) (hprev : prev ≠ none) :
    h'.first = h.first := by
  induction fuel generalizing prev p with
  | zero => cases hloop
  | succ fuel ih =>
    cases p with
    | none =>
      obtain rfl := congrArg Prod.snd (Option.some.inj hloop)
      rfl
    | some y =>
      simp only [removeLoop] at hloop
      split at hloop
      · obtain rfl := congrArg Prod.snd (Option.some.inj hloop)
        obtain ⟨q, rfl⟩ := Option.ne_none_iff_exists'.mp hprev
        rfl
      · exact ih hloop (by simp)

theorem removeThread_eq (h : s.removeThread fuel d x = pure t) : SameQueue s t ∧
    t.current = s.current ∧ (t.threads d).first =
      if (s.threads d).first = some x then s.next x else (s.threads d).first := by
  unfold Sched.removeThread at h
  obtain ⟨⟨next, header⟩, hloop, h⟩ := bind_eq_pure h
  obtain rfl := eq_of_pure_eq h
  refine ⟨⟨rfl, rfl, rfl, rfl⟩, rfl, ?_⟩
  show (Function.update s.threads d header d).first = _
  rw [Function.update_self]
  have hloop' := loop_eq_pure hloop
  cases fuel with
  | zero => cases hloop'
  | succ fuel =>
    cases hfirst : (s.threads d).first with
    | none =>
      rw [hfirst] at hloop'
      obtain rfl := congrArg Prod.snd (Option.some.inj hloop')
      rw [if_neg (by simp)]
      exact hfirst
    | some y =>
      rw [hfirst, removeLoop] at hloop'
      split at hloop'
      · next hy =>
        obtain rfl := congrArg Prod.snd (Option.some.inj hloop')
        exact (if_pos (congrArg some hy)).symm
      · next hy =>
        rw [removeLoop_first hloop' (by simp), if_neg (fun heq => hy (Option.some.inj heq)), hfirst]

/-- The domain of `x` has a thread to run even without `x`: another one is current, or the queue of the
domain does not begin and end with `x`. -/
def StaysRunnable (s : Sched) (x : Thread) : Prop :=
  if s.current (s.domain x) = some x then (s.threads (s.domain x)).first ≠ none
  else s.current (s.domain x) ≠ none ∨
    (if (s.threads (s.domain x)).first = some x then s.next x else (s.threads (s.domain x)).first) ≠ none

theorem isRunnable_iff : s.isRunnable d = true ↔ s.current d ≠ none ∨ (s.threads d).first ≠ none := by
  unfold Sched.isRunnable
  rw [Bool.or_eq_true, Option.isSome_iff_ne_none, Option.isSome_iff_ne_none]

theorem localDestroyed_eq (h : s.localDestroyed fuel (s.domain x) x = pure t) :
    SameQueue s t ∧ (t.isRunnable (s.domain x) = true ↔ StaysRunnable s x) := by
  unfold Sched.localDestroyed at h
  rw [isRunnable_iff, StaysRunnable]
  split at h
  · next hcur =>
    obtain ⟨⟨y, t'⟩, hnext, h⟩ := bind_eq_pure h
    obtain ⟨hy, hsame, hempty⟩ := nextThread_eq hnext
    obtain rfl := eq_of_pure_eq h
    refine ⟨hsame.trans ⟨rfl, rfl, rfl, rfl⟩, ?_⟩
    rw [if_pos hcur]
    show Function.update t'.current (s.domain x) y (s.domain x) ≠ none ∨ _ ↔ _
    rw [Function.update_self, show y = (s.threads (s.domain x)).first from hy]
    refine ⟨fun hor => hor.elim id fun hfirst hnone => hfirst ?_, Or.inl⟩
    rw [show t' = s from hempty (hy.trans hnone)]
    exact hnone
  · next hcur =>
    obtain ⟨hsame, hcurrent, hfirst⟩ := removeThread_eq h
    rw [if_neg hcur, hcurrent, hfirst]
    exact ⟨hsame, Iff.rfl⟩

theorem localBlocked_same (h : s.localBlocked d = pure t) : SameQueue s t := by
  unfold Sched.localBlocked at h
  obtain ⟨_, -, h⟩ := bind_eq_pure h
  obtain ⟨⟨y, t'⟩, hnext, h⟩ := bind_eq_pure h
  obtain rfl := eq_of_pure_eq h
  exact (nextThread_eq hnext).2.1.trans ⟨rfl, rfl, rfl, rfl⟩

theorem localActivated_same (h : s.localActivated d = pure t) : SameQueue s t := by
  unfold Sched.localActivated at h
  split at h
  · obtain rfl := eq_of_pure_eq h
    exact ⟨rfl, rfl, rfl, rfl⟩
  · obtain ⟨⟨y, t'⟩, hnext, h⟩ := bind_eq_pure h
    cases y with
    | none => cases h
    | some y =>
      obtain rfl := eq_of_pure_eq h
      exact (nextThread_eq hnext).2.1.trans ⟨rfl, rfl, rfl, rfl⟩

end Local

/-! ## The calls -/

section Calls

variable {s t : Sched} {l : List Domain} {c : Call} {fuel : Nat}

/-- The loop of `activateNext` takes domains from the front. -/
theorem skipLoop_suffix {d d' : Option Domain} (hr : Rep s l)
    (h : s.skipLoop fuel d = some (d', t)) : ∃ l', Rep t l' ∧ l' <:+ l := by
  induction fuel generalizing s l d with
  | zero => cases h
  | succ fuel ih =>
    cases d with
    | none =>
      obtain rfl := congrArg Prod.snd (Option.some.inj h)
      exact ⟨l, hr, List.suffix_refl l⟩
    | some d =>
      simp only [Sched.skipLoop] at h
      split at h
      · obtain rfl := congrArg Prod.snd (Option.some.inj h)
        exact ⟨l, hr, List.suffix_refl l⟩
      · obtain ⟨l', hr', hsuffix⟩ := ih hr.remove.2 h
        exact ⟨l', hr', hsuffix.trans (List.tail_suffix l)⟩

theorem activateNext_suffix {d : Option Domain} (hr : Rep s l)
    (h : s.activateNext fuel d = pure t) : ∃ l', Rep t l' ∧ l' <:+ l := by
  have hend : ∀ {u : Sched} {m : List Domain} {e : Option Domain}, Rep u m → m <:+ l →
      ((loop (u.skipLoop fuel e) >>= fun
        | (none, s) => pure { s with curthr := s.idleThread }
        | (some d, s) => s.localActivated d) : Exec Sched) = pure t → ∃ l', Rep t l' ∧ l' <:+ l := by
    intro u m e hu hm h
    obtain ⟨⟨e', u'⟩, hloop, h⟩ := bind_eq_pure h
    obtain ⟨l', hr', hsuffix⟩ := skipLoop_suffix hu (loop_eq_pure hloop)
    refine ⟨l', ?_, hsuffix.trans hm⟩
    cases e' with
    | none =>
      obtain rfl := eq_of_pure_eq h
      exact hr'.same ⟨rfl, rfl, rfl, rfl⟩
    | some d => exact hr'.same (localActivated_same h)
  unfold Sched.activateNext at h
  cases d with
  | none => exact hend hr.remove.2 (List.tail_suffix l) h
  | some d => exact hend hr (List.suffix_refl l) h

end Calls

/-! ## Runs -/

/-- Calls that do not reach the two slips: a domain that leaves is the first one of the queue, and the
running domain is not queued when it is preempted. -/
def Proper (s : Sched) : Call → Prop
  | .preempted => s.queued s.curdom = false
  | .destroyed x => s.queued (s.domain x) = true → ¬ StaysRunnable s x →
      s.runq.first = some (s.domain x)
  | .domainLeave d => s.runq.first = none ∨ s.runq.first = some d
  | _ => True

/-- The call is meant to remove `d`: it leaves, or its last thread is destroyed. -/
def Removes (s : Sched) : Call → Domain → Prop
  | .domainLeave d', d => d = d'
  | .destroyed x, d => d = s.domain x ∧ ¬ StaysRunnable s x
  | _, _ => False

/-- The call makes a thread of `d` runnable. -/
def MakesRunnable (s : Sched) : Call → Domain → Prop
  | .created x .default, d => d = s.domain x
  | .unblock x, d => d = s.domain x
  | _, _ => False

/-- The running thread of `d` is preempted. `Sched_preempted` appends its domain even if that has left in
the meantime. -/
def PutsBack (s : Sched) : Call → Domain → Prop
  | .preempted, d => d = s.curdom
  | _, _ => False

/-- What a call does to the list of queued domains. -/
def Effect (s : Sched) (l l' : List Domain) : Call → Prop
  | .preempted => l' <:+ l ++ [s.curdom]
  | .created x param => l' = l ∨ param = .default ∧ l' = l ++ [s.domain x]
  | .unblock x => l' = l ∨ l' = l ++ [s.domain x]
  | .destroyed x => (StaysRunnable s x → l' = l) ∧ (¬ StaysRunnable s x → l' = l.erase (s.domain x))
  | .domainLeave d => l' = l.erase d
  | .destroyedCurrent _ | .block _ | .idle => l' <:+ l
  | .yield | .irqFirstLevelHandler _ | .irqExit => l' = l

section Runs

variable {s t : Sched} {l : List Domain} {c : Call} {d : Domain}

/-- The first domain is removed by a call that is meant to remove it. -/
theorem Rep.remove_erase (hr : Rep s l) (h : s.runq.first = none ∨ s.runq.first = some d) :
    Rep s.queueRemove.2 (l.erase d) := by
  have hrem := hr.remove.2
  cases l with
  | nil => exact hrem
  | cons a l =>
    have hfirst : s.runq.first = some a := hr.queue.chain.1
    rw [hfirst] at h
    obtain rfl : a = d := Option.some.inj (h.resolve_left (by simp))
    rw [List.erase_cons_head]
    exact hrem

/-- A thread joins its domain, and the domain joins the queue. -/
theorem insert_effect {fuel : Nat} {x : Thread} (hr : Rep s l)
    (h : (s.insertThread fuel (s.domain x) x >>= fun s => pure (s.appendIfRunnable (s.domain x))) =
      pure t) : ∃ l', Rep t l' ∧ (l' = l ∨ l' = l ++ [s.domain x]) := by
  obtain ⟨u, hins, h⟩ := bind_eq_pure h
  obtain rfl := eq_of_pure_eq h
  have hgrows := insertThread_grows hins
  rw [hgrows.domain]
  rcases hr.grows hgrows.appendIfRunnable with hr' | ⟨-, hr'⟩
  · exact ⟨l, hr', .inl rfl⟩
  · exact ⟨_, hr', .inr rfl⟩

theorem created_effect {fuel : Nat} {x : Thread} {param : CreateParam} (hr : Rep s l)
    (h : s.created fuel x param = pure t) :
    ∃ l', Rep t l' ∧ Effect s l l' (.created x param) := by
  have hinit : SameQueue s { s with next := Function.update s.next x none } := ⟨rfl, rfl, rfl, rfl⟩
  cases param with
  | norunq =>
    obtain rfl := eq_of_pure_eq h
    exact ⟨l, hr.same hinit, .inl rfl⟩
  | default =>
    obtain ⟨l', hr', hl'⟩ := insert_effect (t := t) (hr.same hinit) h
    exact ⟨l', hr', hl'.imp_right fun h => ⟨rfl, h⟩⟩

theorem unblock_effect {fuel : Nat} {x : Thread} (hr : Rep s l) (h : s.unblock fuel x = pure t) :
    ∃ l', Rep t l' ∧ (l' = l ∨ l' = l ++ [s.domain x]) := by
  have hstate : SameQueue s (s.setState x .runnable) := ⟨rfl, rfl, rfl, rfl⟩
  have hinsert := insert_effect (t := t) (hr.same hstate) h
  exact hinsert

theorem destroyed_effect {fuel : Nat} {x : Thread} (hr : Rep s l) (hc : Proper s (.destroyed x))
    (h : s.destroyed fuel x = pure t) : ∃ l', Rep t l' ∧ Effect s l l' (.destroyed x) := by
  obtain ⟨_, -, h⟩ := bind_eq_pure h
  obtain ⟨u, hloc, h⟩ := bind_eq_pure h
  obtain ⟨hsame, hiff⟩ := localDestroyed_eq hloc
  have hu := hr.same hsame
  rw [hsame.domain] at h
  by_cases hstay : StaysRunnable s x
  · rw [hiff.mpr hstay, Bool.not_true, Bool.and_false, if_neg Bool.false_ne_true] at h
    obtain rfl := eq_of_pure_eq h
    exact ⟨l, hu, fun _ => rfl, fun hn => absurd hstay hn⟩
  · refine ⟨l.erase (s.domain x), ?_, fun hs => absurd hs hstay, fun _ => rfl⟩
    have hnot : u.isRunnable (s.domain x) = false := Bool.eq_false_iff.mpr fun hr => hstay (hiff.mp hr)
    rw [hnot, Bool.not_false, Bool.and_true] at h
    split at h
    · next hqueued =>
      obtain rfl := eq_of_pure_eq h
      rw [hsame.queued] at hqueued
      refine hu.remove_erase (.inr ?_)
      rw [hsame.runq]
      exact hc hqueued hstay
    · next hfree =>
      obtain rfl := eq_of_pure_eq h
      have hd := hu.not_mem (Bool.eq_false_iff.mpr hfree)
      rwa [List.erase_of_not_mem hd]

/-- One call. -/
theorem step_effect (hr : Rep s l) (hc : Proper s c) (h : Step s c t) :
    ∃ l', Rep t l' ∧ Effect s l l' c := by
  obtain ⟨fuel, h⟩ := h
  cases c with
  | preempted =>
    change (s.queueAppend s.curdom).activateNext fuel none = pure t at h
    exact activateNext_suffix (hr.append (hr.not_mem hc)) h
  | created x param => exact created_effect hr h
  | destroyed x => exact destroyed_effect hr hc h
  | destroyedCurrent d =>
    change s.activateNext fuel (some d) = pure t at h
    exact activateNext_suffix hr h
  | yield =>
    obtain rfl := eq_of_pure_eq h
    exact ⟨l, hr, rfl⟩
  | unblock x => exact unblock_effect hr h
  | block st =>
    obtain ⟨u, hloc, h⟩ := bind_eq_pure h
    have hstate : SameQueue s (s.setState s.curthr st) := ⟨rfl, rfl, rfl, rfl⟩
    exact activateNext_suffix (hr.same (hstate.trans (localBlocked_same hloc))) h
  | domainLeave d =>
    obtain rfl := eq_of_pure_eq h
    exact ⟨_, hr.remove_erase hc, rfl⟩
  | irqFirstLevelHandler x =>
    obtain ⟨_, -, h⟩ := bind_eq_pure h
    obtain rfl := eq_of_pure_eq h
    exact ⟨l, hr.same ⟨rfl, rfl, rfl, rfl⟩, rfl⟩
  | irqExit =>
    obtain ⟨_, -, h⟩ := bind_eq_pure h
    obtain rfl := eq_of_pure_eq h
    exact ⟨l, hr.same ⟨rfl, rfl, rfl, rfl⟩, rfl⟩
  | idle =>
    change (if _ then _ else _) = _ at h
    split at h
    · exact activateNext_suffix hr h
    · obtain rfl := eq_of_pure_eq h
      exact ⟨l, hr, List.suffix_refl l⟩

/-- Nothing is queued. -/
structure Initial (s : Sched) : Prop where
  runq : s.runq = ⟨none, none⟩
  queued : ∀ d, s.queued d = false

/-- A run of proper calls. -/
def Run : Sched → Sched → Prop := Relation.ReflTransGen fun s t => ∃ c, Proper s c ∧ Step s c t

/-- A run of proper calls that neither make a thread of `d` runnable nor put `d` back. -/
def RunWithout (d : Domain) : Sched → Sched → Prop :=
  Relation.ReflTransGen fun s t =>
    ∃ c, Proper s c ∧ ¬ MakesRunnable s c d ∧ ¬ PutsBack s c d ∧ Step s c t

theorem Initial.rep (h : Initial s) : Rep s [] := by
  refine ⟨?_, fun d => ?_⟩
  · rw [h.runq]
    exact .nil_intro _
  · simp [h.queued]

/-- A domain comes into the queue only with a thread that can run. -/
theorem Effect.not_mem {l' : List Domain} (h : Effect s l l' c) (hc : ¬ MakesRunnable s c d)
    (hback : ¬ PutsBack s c d) (hd : d ∉ l) : d ∉ l' := by
  cases c with
  | preempted =>
    intro hmem
    rcases List.mem_append.mp (List.IsSuffix.subset h hmem) with hl | hcur
    · exact hd hl
    · exact hback (List.mem_singleton.mp hcur)
  | created x param =>
    rcases h with rfl | ⟨rfl, rfl⟩
    · exact hd
    · intro hmem
      rcases List.mem_append.mp hmem with hl | hx
      · exact hd hl
      · exact hc (List.mem_singleton.mp hx)
  | unblock x =>
    rcases h with rfl | rfl
    · exact hd
    · intro hmem
      rcases List.mem_append.mp hmem with hl | hx
      · exact hd hl
      · exact hc (List.mem_singleton.mp hx)
  | destroyed x =>
    by_cases hstay : StaysRunnable s x
    · rwa [h.1 hstay]
    · rw [h.2 hstay]
      exact fun hmem => hd (List.mem_of_mem_erase hmem)
  | domainLeave d' =>
    rw [show l' = l.erase d' from h]
    exact fun hmem => hd (List.mem_of_mem_erase hmem)
  | destroyedCurrent d' => exact fun hmem => hd (List.IsSuffix.subset h hmem)
  | block st => exact fun hmem => hd (List.IsSuffix.subset h hmem)
  | idle => exact fun hmem => hd (List.IsSuffix.subset h hmem)
  | yield => rwa [show l' = l from h]
  | irqFirstLevelHandler x => rwa [show l' = l from h]
  | irqExit => rwa [show l' = l from h]

theorem Run.rep (hrun : Run s t) (hs : ∃ l, Rep s l) : ∃ l, Rep t l := by
  refine invariant_of_run (I := fun s => ∃ l, Rep s l) ?_ hrun hs
  rintro s t ⟨l, hr⟩ ⟨c, hc, hstep⟩
  obtain ⟨l', hr', -⟩ := step_effect hr hc hstep
  exact ⟨l', hr'⟩

theorem RunWithout.rep (hrun : RunWithout d s t) (hs : ∃ l, Rep s l ∧ d ∉ l) :
    ∃ l, Rep t l ∧ d ∉ l := by
  refine invariant_of_run (I := fun s => ∃ l, Rep s l ∧ d ∉ l) ?_ hrun hs
  rintro s t ⟨l, hr, hd⟩ ⟨c, hc, hnot, hback, hstep⟩
  obtain ⟨l', hr', heffect⟩ := step_effect hr hc hstep
  exact ⟨l', hr', heffect.not_mem hnot hback hd⟩

/-- `chooseNextDomain` takes the first domain of the queue. -/
theorem Rep.chooseNextDomain (hr : Rep s l) (addRunq : Bool) :
    (s.chooseNextDomain addRunq).1 = l.head? := by
  rw [← hr.remove.1]
  unfold Sched.chooseNextDomain
  cases hrem : s.queueRemove with
  | mk first u =>
    cases first with
    | none => rfl
    | some a =>
      show (if _ then _ else _ : Option Domain × Sched).1 = some a
      split <;> rfl

theorem Rep.removes (hr : Rep s l) (hc : Proper s c) (hrem : Removes s c d) (h : Step s c t) :
    Rep t (l.erase d) := by
  obtain ⟨l', hr', heffect⟩ := step_effect hr hc h
  have heq : l' = l.erase d := by
    cases c with
    | domainLeave d' =>
      obtain rfl : d = d' := hrem
      exact heffect
    | destroyed x =>
      obtain ⟨rfl, hstay⟩ := hrem
      exact heffect.2 hstay
    | preempted | created | destroyedCurrent | yield | unblock | block | irqFirstLevelHandler
    | irqExit | idle => exact absurd hrem id
  rwa [← heq]

/-- In every run of proper calls the queue is a list without repetitions, and the flags say which domains
are in it. A call that is meant to remove a domain removes it and nothing else, and the domain is not
chosen again as long as none of its threads becomes runnable and its running thread is not
preempted. -/
theorem queue_correct {s₀ : Sched} (hinit : Initial s₀) (hrun : Run s₀ s) :
    ∃ l, Rep s l ∧ ∀ c t d, Proper s c → Removes s c d → Step s c t →
      Rep t (l.erase d) ∧ ∀ u, RunWithout d t u →
        ∃ l', Rep u l' ∧ d ∉ l' ∧ ∀ addRunq, (u.chooseNextDomain addRunq).1 ≠ some d := by
  obtain ⟨l, hr⟩ := hrun.rep ⟨[], hinit.rep⟩
  refine ⟨l, hr, fun c t d hc hrem hstep => ?_⟩
  have herase := hr.removes hc hrem hstep
  have hgone : d ∉ l.erase d := hr.queue.nodup.not_mem_erase
  refine ⟨herase, fun u hwithout => ?_⟩
  obtain ⟨l', hr', hd⟩ := hwithout.rep ⟨_, herase, hgone⟩
  refine ⟨l', hr', hd, fun addRunq hchosen => ?_⟩
  rw [hr'.chooseNextDomain] at hchosen
  exact hd (List.mem_of_mem_head? hchosen)

end Runs

/-! ## Three domains -/

/-- Thread 0 idles in domain 0. Threads 1 and 2 belong to domains of their own, thread 3 is the interrupt
thread of domain 2, and thread 4 is another one of domain 1. -/
def boot : Sched where
  domain t := if t = 3 then 2 else if t = 4 then 1 else t
  state t := if t = 3 then .available else .runnable
  isInterruptHandlerThread t := t = 3
  curthr := 0
  idleThread := 0
  domainZero := 0
  ithread := 0
  icurrent := 0
  nextInRunQueue _ := none
  queued _ := false
  runq := ⟨none, none⟩
  next _ := none
  threads _ := ⟨none, none⟩
  current _ := none

/-- The state after a call. -/
def after (s : Sched) (c : Call) : Sched :=
  match c.exec 9 s with
  | some (.ok t) => t
  | _ => s

/-- Domains 1 and 2 have a thread each. -/
def twoQueued : Sched := after (after boot (.created 1 .default)) (.created 2 .default)

/-- Domain 1 runs; an interrupt has made another thread of it runnable. -/
def interrupted : Sched :=
  after (after (after (after (after boot (.created 1 .default)) .idle) (.irqFirstLevelHandler 3))
    (.unblock 4)) .irqExit

theorem initial_boot : Initial boot := ⟨rfl, fun _ => rfl⟩

theorem run_twoQueued : Run boot twoQueued :=
  .tail (.tail .refl ⟨.created 1 .default, trivial, 9, rfl⟩) ⟨.created 2 .default, trivial, 9, rfl⟩

theorem run_interrupted : Run boot interrupted :=
  .tail (.tail (.tail (.tail (.tail .refl ⟨.created 1 .default, trivial, 9, rfl⟩)
    ⟨.idle, trivial, 9, rfl⟩) ⟨.irqFirstLevelHandler 3, trivial, 9, rfl⟩) ⟨.unblock 4, trivial, 9, rfl⟩)
    ⟨.irqExit, trivial, 9, rfl⟩

theorem rep_twoQueued : Rep twoQueued [1, 2] := by
  refine ⟨⟨⟨rfl, rfl, rfl⟩, rfl, by decide⟩, fun d => ?_⟩
  show Function.update (Function.update (fun _ => false) 1 true) 2 true d = true ↔ d ∈ [1, 2]
  by_cases h₂ : d = 2
  · simp [h₂]
  · by_cases h₁ : d = 1
    · simp [h₁]
    · simp [h₁, h₂]

/-- The first domain leaves. -/
theorem queue_correct_first : ∃ l, Rep twoQueued l ∧ Rep (after twoQueued (.domainLeave 1)) (l.erase 1) := by
  obtain ⟨l, hr, hrest⟩ := queue_correct initial_boot run_twoQueued
  exact ⟨l, hr, (hrest (.domainLeave 1) _ 1 (.inr rfl) rfl ⟨9, rfl⟩).1⟩

/-- When the second domain leaves, the first one is removed. When the running domain is preempted although
it is queued, the queue is no list any more. -/
theorem not_queue_correct :
    (Run boot twoQueued ∧ Rep twoQueued [1, 2] ∧
      Step twoQueued (.domainLeave 2) (after twoQueued (.domainLeave 2)) ∧
      ¬ Rep (after twoQueued (.domainLeave 2)) ([1, 2].erase 2)) ∧
    (Run boot interrupted ∧ Step interrupted .preempted (after interrupted .preempted) ∧
      ¬ ∃ l, Rep (after interrupted .preempted) l) := by
  refine ⟨⟨run_twoQueued, rep_twoQueued, ⟨9, rfl⟩, fun hr => ?_⟩, run_interrupted, ⟨9, rfl⟩, ?_⟩
  · have hone := (hr.flag 1).mpr (by decide)
    exact absurd hone (by decide)
  · rintro ⟨l, hr⟩
    have hlast : l = [] := hr.queue.last_eq_none.mp rfl
    have hfirst := hr.queue.first_eq_none.mpr hlast
    exact absurd hfirst (by decide)

end JxCore.SchedRr
