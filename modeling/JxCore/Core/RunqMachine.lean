import JxCore.Core.RunqInvariant

/-!
# The default scheduler is a machine on lists

What `core/runq.c` does with its pointers, said without them: a `Machine` holds the run queue as a
list of domains and the queue of each domain as a list of threads. Each call of the rest of the kernel
is one step of it, and over a whole run the pointers represent exactly the lists of the machine
(`machine_of_run`). Order matters here: the invariant only says who is in a queue, the machine says
where.
-/

namespace JxCore.Runq

open Lib Exec

/-! ## The machine -/

/-- The scheduler's data, without links. -/
structure Machine where
  domain : Thread → Domain
  state : Thread → ThreadState
  curthr : Thread
  queues : Queues

/-- A domain with threads in its queue goes to the end of the run queue. -/
def Queues.rotate (q : Queues) (d : Domain) : Queues :=
  if q.thr d = [] then q else { q with runq := q.runq ++ [d] }

/-- The thread that runs next while `cur` is the current domain: the first one of the first other
domain, or else of `cur` itself. -/
def Queues.pop (q : Queues) (cur : Domain) : Option Thread × Queues :=
  match q.runq with
  | [] => ((q.thr cur).head?, { q with thr := Function.update q.thr cur (q.thr cur).tail })
  | d :: ds => ((q.thr d).head?,
      { ({ q with runq := ds }.rotate cur : Queues) with
        thr := Function.update q.thr d (q.thr d).tail })

/-- The processor goes from the domain `cur` to `target` at once: `cur` to the end of the run queue,
`target` out of it. -/
def Queues.cede (q : Queues) (cur target : Domain) : Queues :=
  if cur = target then q else { q with runq := (q.rotate cur).runq.erase target }

namespace Machine

def curdom (m : Machine) : Domain := m.domain m.curthr

def setState (m : Machine) (t : Thread) (st : ThreadState) : Machine :=
  { m with state := Function.update m.state t st }

/-- `t` goes to the end of its domain's queue. -/
def push (m : Machine) (t : Thread) : Machine :=
  { m with queues.thr :=
      Function.update m.queues.thr (m.domain t) (m.queues.thr (m.domain t) ++ [t]) }

/-- `t` is queued, and so is its domain if that was not runnable and is not `running`. -/
def wake (m : Machine) (t : Thread) (running : Domain) : Machine :=
  if m.queues.thr (m.domain t) = [] ∧ running ≠ m.domain t then
    { m.push t with queues.runq := m.queues.runq ++ [m.domain t] }
  else m.push t

/-- The next thread runs, or the idle thread if there is none. -/
def dispatch (cfg : Config) (m : Machine) : Machine :=
  { m with
    curthr := (m.queues.pop m.curdom).1.getD cfg.idle
    queues := (m.queues.pop m.curdom).2 }

/-- The next thread runs and the current one is queued behind the others of its domain; without a
next thread nothing happens. -/
def preempt (cfg : Config) (m : Machine) : Machine :=
  match m.queues.pop m.curdom with
  | (none, q) => { m with queues := q }
  | (some next, q) =>
    let m' : Machine := { m with queues := q }
    { (if m.curthr = cfg.idle then m' else m'.wake m.curthr (m.domain next)) with curthr := next }

/-- `t` runs at once. -/
def resume (m : Machine) (t : Thread) : Machine :=
  { m with
    curthr := t
    queues := m.queues.cede m.curdom (m.domain t) }

/-- One call of the rest of the kernel. -/
def step (cfg : Config) (m : Machine) : Op → Machine
  | .createThread t st .default => (m.setState t st).wake t m.curdom
  | .createThread t st .norunq => m.setState t st
  | .start t => if m.state t = .init then (m.setState t .runnable).wake t m.curdom else m
  | .unblock t => (m.setState t .runnable).wake t m.curdom
  | .yield => (if m.curthr = cfg.idle then m else m.push m.curthr).dispatch cfg
  | .block st => (m.setState m.curthr st).dispatch cfg
  | .blockReturn => m.setState m.curthr .runnable
  | .reschedule => m.preempt cfg
  | .handoffToReceiver receiver =>
    (((m.setState m.curthr .portalWaitForRet).setState receiver .runnable).wake receiver
      m.curdom).dispatch cfg
  | .handoffToSender sender isRunnable =>
    ((((if isRunnable then (m.setState m.curthr .runnable).push m.curthr
      else m.setState m.curthr .portalWaitForSnd)).setState sender .runnable).wake sender
      m.curdom).dispatch cfg
  | .destroyHandoffToSender sender =>
    (((m.push m.curthr).setState sender .runnable).wake sender m.curdom).dispatch cfg
  | .activateInterrupt irqThread => (m.setState irqThread .runnable).resume irqThread
  | .deactivateInterrupt normalThread => (m.setState m.curthr .available).resume normalThread
  | .destroyCurrent => (m.setState m.curthr .zombie).dispatch cfg

end Machine

/-! ## The queues the pointers represent -/

variable {cfg : Config} {s s' : Sched} {q q' : Queues} {m : Machine}

/-- The pointers of a state determine the lists. -/
theorem Rep.unique (h : Rep s q) (h' : Rep s q') : q = q' := by
  ext1
  · exact h.domains.chain.unique h'.domains.chain
  · funext d
    exact (h.threads d).chain.unique (h'.threads d).chain

/-- The state is the machine `m`, with links for its lists. -/
structure Represents (s : Sched) (m : Machine) : Prop where
  domain : s.domain = m.domain
  state : s.state = m.state
  curthr : s.curthr = m.curthr
  rep : Rep s m.queues

theorem Represents.curdom (h : Represents s m) : s.curdom = m.curdom := by
  rw [Sched.curdom, h.domain, h.curthr]
  rfl

/-- The machine a state with the lists `q` is. -/
def Sched.machine (s : Sched) (q : Queues) : Machine := ⟨s.domain, s.state, s.curthr, q⟩

@[simp] theorem Sched.curthr_machine (s : Sched) (q : Queues) :
    (s.machine q).curthr = s.curthr := rfl

@[simp] theorem Sched.state_machine (s : Sched) (q : Queues) : (s.machine q).state = s.state := rfl

@[simp] theorem Sched.curdom_machine (s : Sched) (q : Queues) :
    (s.machine q).curdom = s.curdom := rfl

theorem Rep.represents (h : Rep s q) : Represents s (s.machine q) := ⟨rfl, rfl, rfl, h⟩

/-- Only the queues have changed. -/
theorem SameThreads.represents (h : SameThreads s s') (hrep : Rep s' q) :
    Represents s' (s.machine q) :=
  ⟨h.domain, h.state, h.curthr, hrep⟩

namespace Machine

@[simp] theorem domain_setState (m : Machine) (t : Thread) (st : ThreadState) :
    (m.setState t st).domain = m.domain := rfl

@[simp] theorem curthr_setState (m : Machine) (t : Thread) (st : ThreadState) :
    (m.setState t st).curthr = m.curthr := rfl

@[simp] theorem queues_setState (m : Machine) (t : Thread) (st : ThreadState) :
    (m.setState t st).queues = m.queues := rfl

@[simp] theorem curdom_setState (m : Machine) (t : Thread) (st : ThreadState) :
    (m.setState t st).curdom = m.curdom := rfl

@[simp] theorem domain_push (m : Machine) (t : Thread) : (m.push t).domain = m.domain := rfl

@[simp] theorem curthr_push (m : Machine) (t : Thread) : (m.push t).curthr = m.curthr := rfl

@[simp] theorem curdom_push (m : Machine) (t : Thread) : (m.push t).curdom = m.curdom := rfl

@[simp] theorem state_push (m : Machine) (t : Thread) : (m.push t).state = m.state := rfl

@[simp] theorem domain_wake (m : Machine) (t : Thread) (r : Domain) :
    (m.wake t r).domain = m.domain := by
  rw [wake, apply_ite Machine.domain]
  exact ite_self _

@[simp] theorem curthr_wake (m : Machine) (t : Thread) (r : Domain) :
    (m.wake t r).curthr = m.curthr := by
  rw [wake, apply_ite Machine.curthr]
  exact ite_self _

@[simp] theorem state_wake (m : Machine) (t : Thread) (r : Domain) :
    (m.wake t r).state = m.state := by
  rw [wake, apply_ite Machine.state]
  exact ite_self _

@[simp] theorem curdom_wake (m : Machine) (t : Thread) (r : Domain) :
    (m.wake t r).curdom = m.curdom := by
  rw [curdom, domain_wake, curthr_wake]
  rfl

/-- The queues of the threads do not depend on which domain runs. -/
theorem thr_wake (m : Machine) (t : Thread) (r : Domain) :
    (m.wake t r).queues.thr = (m.push t).queues.thr := by
  rw [wake, apply_ite Machine.queues, apply_ite Queues.thr]
  exact ite_self _

theorem runq_wake (m : Machine) (t : Thread) (r : Domain) :
    (m.wake t r).queues.runq = if m.queues.thr (m.domain t) = [] ∧ r ≠ m.domain t then
      m.queues.runq ++ [m.domain t] else m.queues.runq := by
  rw [wake, apply_ite Machine.queues, apply_ite Queues.runq]
  rfl

end Machine

/-! ## Queue operations -/

/-- `threadrunq_append`. -/
theorem Represents.push (h : Represents s m) {t : Thread} (ht : ∀ d, t ∉ m.queues.thr d)
    {d : Domain} (hd : s.domain t = d) :
    (s.threadrunqAppend d t).1 = decide (m.queues.thr d = []) ∧
      Represents (s.threadrunqAppend d t).2 (m.push t) := by
  obtain ⟨hempty, hsame, hrep⟩ := h.rep.threadrunqAppend ht hd
  refine ⟨hempty, hsame.domain.trans h.domain, hsame.state.trans h.state,
    hsame.curthr.trans h.curthr, ?_⟩
  rw [h.domain] at hd
  rw [Machine.push, hd]
  exact hrep

/-- The two appends of `Sched_unblocked`, `Sched_created` and `Sched_reschedule`. -/
theorem Represents.wake (h : Represents s m) {t : Thread} (ht : ∀ d, t ∉ m.queues.thr d)
    {r : Domain} (hout : m.queues.thr (m.domain t) = [] → r ≠ m.domain t →
      m.domain t ∉ m.queues.runq) :
    ∃ s', (∀ fuel, m.queues.runq.length < fuel → s.enqueue fuel t r = pure s') ∧
      Represents s' (m.wake t r) := by
  have hd : s.domain t = m.domain t := congrFun h.domain t
  obtain ⟨hempty, hpush⟩ := h.push ht hd
  have hd' : (s.threadrunqAppend (m.domain t) t).2.domain t = m.domain t := hd
  simp only [Sched.enqueue, hd, hempty, hd', decide_eq_true_eq]
  by_cases hcond : m.queues.thr (m.domain t) = [] ∧ r ≠ m.domain t
  · rw [Machine.wake, if_pos hcond]
    obtain ⟨s', hcall, hsame, hrep⟩ := hpush.rep.domainrunqAppend (hout hcond.1 hcond.2)
    refine ⟨s', fun fuel hfuel => ?_, hsame.domain.trans hpush.domain,
      hsame.state.trans hpush.state, hsame.curthr.trans hpush.curthr, hrep⟩
    rw [if_pos hcond]
    exact hcall fuel hfuel
  · rw [Machine.wake, if_neg hcond]
    exact ⟨_, fun fuel _ => if_neg hcond, hpush⟩

/-- The current domain joins the run queue if it has runnable threads. -/
theorem Rep.rotate (hr : Rep s q) {d : Domain} (hd : d ∉ q.runq) :
    ∃ s', (∀ fuel, q.runq.length < fuel → s.appendIfRunnable fuel d = pure s') ∧
      SameThreads s s' ∧ Rep s' (q.rotate d) := by
  simp only [Sched.appendIfRunnable, Queues.rotate]
  by_cases hthr : q.thr d = []
  · have hcond := mt (hr.first_ne_none d).mp (not_not.mpr hthr)
    rw [if_pos hthr]
    exact ⟨s, fun _ _ => if_neg hcond, SameThreads.refl s, hr⟩
  · obtain ⟨s', hcall, hsame, hrep⟩ := hr.domainrunqAppend hd
    rw [if_neg hthr]
    refine ⟨s', fun fuel hfuel => ?_, hsame, hrep⟩
    rw [if_pos ((hr.first_ne_none d).mpr hthr)]
    exact hcall fuel hfuel

/-- `runqueue_removeFirstOrNULL` takes out the thread the machine takes out. -/
theorem Queued.pop (hq : Queued cfg s q) :
    ∃ s', (∀ fuel, q.Within fuel → s.runqueueRemoveFirstOrNull cfg fuel s.curdom =
        pure ((q.pop s.curdom).1, s')) ∧ SameThreads s s' ∧ Rep s' (q.pop s.curdom).2 := by
  have hstart : ∀ fuel, q.Within fuel → s.checkCompleterunnable fuel cfg.domains = pure s :=
    fun fuel hfuel => hq.checkCompleterunnable hfuel.runq_lt cfg.domains
  cases hrunq : q.runq with
  | nil =>
    have hcall : ∀ fuel, q.Within fuel → s.runqueueRemoveFirstOrNull cfg fuel s.curdom =
        s.threadrunqRemove s.curdom := by
      intro fuel hfuel
      rw [Sched.runqueueRemoveFirstOrNull, hstart fuel hfuel, pure_bind,
        hq.rep.domainrunqRemove_nil hrunq, pure_bind]
    simp only [Queues.pop, hrunq]
    cases hthr : q.thr s.curdom with
    | nil =>
      refine ⟨s, fun fuel hfuel => ?_, SameThreads.refl s, ?_⟩
      · rw [hcall fuel hfuel, hq.rep.threadrunqRemove_nil hthr]
        rfl
      · have hsame : Function.update q.thr s.curdom [] = q.thr := by
          rw [← hthr, Function.update_eq_self]
        rw [List.tail_nil, hsame, ← hrunq]
        exact hq.rep
    | cons t l =>
      have hstate := hq.runnable s.curdom t (hthr ▸ List.mem_cons_self ..)
      obtain ⟨s', hremove, hsame, hrep⟩ := hq.rep.threadrunqRemove_cons hthr hstate
      refine ⟨s', fun fuel hfuel => (hcall fuel hfuel).trans hremove, hsame, ?_⟩
      rw [List.tail_cons, ← hrunq]
      exact hrep
  | cons newdom rest =>
    have hnew : newdom ≠ s.curdom := fun h => hq.current (h ▸ hrunq ▸ List.mem_cons_self ..)
    have hfull : q.thr newdom ≠ [] := (hq.others newdom hnew).mp (hrunq ▸ List.mem_cons_self ..)
    have hcurrest : s.curdom ∉ rest := fun h =>
      hq.current (hrunq ▸ List.mem_cons_of_mem newdom h)
    have hlen : ∀ fuel, q.Within fuel → rest.length < fuel := by
      intro fuel hfuel
      have hlt := hfuel.runq_lt
      rw [hrunq, List.length_cons] at hlt
      exact Nat.lt_of_succ_lt hlt
    obtain ⟨t, l, hthr⟩ := List.exists_cons_of_ne_nil hfull
    have hstate := hq.runnable newdom t (hthr ▸ List.mem_cons_self ..)
    obtain ⟨s₁, hcall₁, hsame₁, hrep₁⟩ := hq.rep.domainrunqRemove_cons hrunq hnew
    obtain ⟨s₂, hcall₂, hsame₂, hrep₂⟩ := hrep₁.rotate hcurrest
    have hsame₁₂ := hsame₁.trans hsame₂
    have hthr₂ : (Queues.rotate { q with runq := rest } s.curdom).thr newdom = t :: l := by
      rw [Queues.rotate, apply_ite Queues.thr, ite_self]
      exact hthr
    have hstate₂ : s₂.state t = .runnable := by
      rw [hsame₁₂.state]
      exact hstate
    obtain ⟨s₃, hcall₃, hsame₃, hrep₃⟩ := hrep₂.threadrunqRemove_cons hthr₂ hstate₂
    have hsame := hsame₁₂.trans hsame₃
    have hstate₃ : s₃.state t = .runnable := by
      rw [hsame.state]
      exact hstate
    refine ⟨s₃, fun fuel hfuel => ?_, hsame, ?_⟩
    · rw [Sched.runqueueRemoveFirstOrNull, hstart fuel hfuel, pure_bind]
      simp only [hcall₁, pure_bind, assert_pos ((hrep₁.first_ne_none newdom).mpr hfull),
        hcall₂ fuel (hlen fuel hfuel), hcall₃, assert_pos hstate₃, Queues.pop, hrunq, hthr,
        List.head?_cons]
    · simp only [Queues.pop, hrunq, hthr, List.tail_cons]
      have hupdate : Function.update (Queues.rotate { q with runq := rest } s.curdom).thr newdom l =
          Function.update q.thr newdom l := by
        rw [Queues.rotate, apply_ite Queues.thr, ite_self]
      rw [← hupdate]
      exact hrep₃

/-- The thread the machine takes out is one the invariant allows to be chosen. -/
theorem Queued.pop_chosen (hq : Queued cfg s q) {n : Nat} (hn : q.Within n) {next : Thread}
    {s₁ : Sched} (hpop : (q.pop s.curdom).1 = some next)
    (hcall : s.runqueueRemoveFirstOrNull cfg n s.curdom = pure ((q.pop s.curdom).1, s₁))
    (hrep : Rep s₁ (q.pop s.curdom).2) :
    Queued.Chosen cfg s q next s₁ (q.pop s.curdom).2 ∧ (q.pop s.curdom).2.Within n := by
  rw [hpop] at hcall
  rcases hq.removeFirstOrNull with ⟨hnone, -⟩ | ⟨t, s₂, q₂, hsome, hc, hwithin⟩
  · have heq := eq_of_pure_eq (hcall.symm.trans (hnone n hn))
    cases congrArg Prod.fst heq
  · have heq := eq_of_pure_eq (hcall.symm.trans (hsome n hn))
    obtain rfl : next = t := Option.some.inj (congrArg Prod.fst heq)
    obtain rfl : s₁ = s₂ := congrArg Prod.snd heq
    obtain rfl := hrep.unique hc.queued.rep.of_switchTo
    exact ⟨hc, hwithin n hn⟩

/-! ## Giving up the processor -/

theorem Represents.setState (h : Represents s m) (t : Thread) (st : ThreadState) :
    Represents (s.setState t st) (m.setState t st) := by
  refine ⟨h.domain, ?_, h.curthr, ⟨h.rep.domains, h.rep.threads, h.rep.own⟩⟩
  rw [Sched.setState, Machine.setState, h.state]

/-- `Sched_switch_to_nextThread`. -/
theorem Represents.dispatch (h : Represents s m) (hp : Parked cfg s m.queues) :
    ∃ s', (∀ fuel, m.queues.Within fuel → s.switchToNextThread cfg fuel = pure s') ∧
      Represents s' (m.dispatch cfg) := by
  obtain ⟨s₀, q₀, hcall, -, -⟩ := hp.switchToNextThread
  obtain ⟨s₁, hpop, hsame, hrep⟩ := hp.toQueued.pop
  have hcurdom := h.curdom
  refine ⟨s₁.switchTo ((m.queues.pop s.curdom).1.getD cfg.idle), fun fuel hfuel => ?_,
    hsame.domain.trans h.domain, hsame.state.trans h.state, ?_, ?_⟩
  · have hrun := hcall fuel hfuel
    simp only [Sched.switchToNextThread, Sched.runqueueRemoveFirstOrIdle, hpop fuel hfuel,
      pure_bind] at hrun ⊢
    -- that the next thread is in no queue is checked on the way
    obtain ⟨_, hcheck, -⟩ := bind_eq_pure hrun
    rw [hcheck, pure_bind]
  · rw [hcurdom]
    rfl
  · rw [hcurdom] at hrep
    exact hrep.switchTo _

/-- `threadunblock`. -/
theorem Represents.unblock (h : Represents s m) (hq : Queued cfg s m.queues) {t : Thread}
    (ht : ∀ d, t ∉ m.queues.thr d) :
    ∃ s', (∀ fuel, m.queues.runq.length < fuel → s.threadunblock fuel t = pure s') ∧
      Represents s' ((m.setState t .runnable).wake t m.curdom) := by
  have hset := h.setState t .runnable
  have hcurdom : (s.setState t .runnable).curdom = m.curdom := hset.curdom
  simp only [Sched.threadunblock, Sched.unblocked, hcurdom]
  refine hset.wake ht fun hnil hne hmem => ?_
  have hdom : m.domain t ≠ s.curdom := by
    rw [h.curdom]
    exact Ne.symm hne
  exact (hq.others _ hdom).mp hmem hnil

/-- A thread is unblocked while the current one is being given up. -/
theorem Represents.unblock_parked (h : Represents s m) (hp : Parked cfg s m.queues) {n : Nat}
    (hn : m.queues.Within n) {t : Thread} (ht : s.state t ≠ .runnable) :
    ∃ s', (∀ fuel, n ≤ fuel → s.threadunblock fuel t = pure s') ∧
      Represents s' ((m.setState t .runnable).wake t m.curdom) ∧
      Parked cfg s' ((m.setState t .runnable).wake t m.curdom).queues ∧
      ((m.setState t .runnable).wake t m.curdom).queues.Within (n + 1) := by
  have hout : ∀ d, t ∉ m.queues.thr d := fun d hd => ht (hp.runnable d t hd)
  obtain ⟨s₁, q₁, hcall₁, hp₁, hn₁, -⟩ := hp.unblock ht hn
  obtain ⟨s₂, hcall₂, hrep₂⟩ := h.unblock hp.toQueued hout
  obtain rfl : s₁ = s₂ := eq_of_pure_eq
    ((hcall₁ n (Nat.le_refl n)).symm.trans (hcall₂ n hn.runq_lt))
  obtain rfl := hp₁.rep.unique hrep₂.rep
  exact ⟨s₁, hcall₁, hrep₂, hp₁, hn₁⟩

/-- The handoffs end like this. -/
theorem Represents.handoff (h : Represents s m) (hp : Parked cfg s m.queues) {n : Nat}
    (hn : m.queues.Within n) {t : Thread} (ht : s.state t ≠ .runnable) :
    ∃ s', Returns (fun fuel =>
        s.threadunblock fuel t >>= fun s => s.switchToNextThread cfg fuel) s' ∧
      Represents s' (((m.setState t .runnable).wake t m.curdom).dispatch cfg) := by
  obtain ⟨s₁, hcall₁, hrep₁, hp₁, hn₁⟩ := h.unblock_parked hp hn ht
  obtain ⟨s', hcall, hrep⟩ := hrep₁.dispatch hp₁
  refine ⟨s', ⟨n + 1, fun fuel hfuel => ?_⟩, hrep⟩
  simp only [hcall₁ fuel (Nat.le_of_succ_le hfuel), pure_bind]
  exact hcall fuel (hn₁.mono hfuel)

namespace Running

/-- The current thread is queued behind the others of its domain. -/
theorem push (hr : Running cfg s q) (hidle : s.curthr ≠ cfg.idle) {n : Nat} (hn : q.Within n) :
    Represents (s.threadrunqAppend s.curdom s.curthr).2 ((s.machine q).push s.curthr) ∧
      Parked cfg (s.threadrunqAppend s.curdom s.curthr).2 ((s.machine q).push s.curthr).queues ∧
      ((s.machine q).push s.curthr).queues.Within (n + 1) := by
  obtain ⟨q₁, hp, hn₁⟩ := hr.requeue hidle hn
  obtain ⟨-, hpush⟩ := hr.rep.represents.push (d := s.curdom) hr.cur_notMem rfl
  obtain rfl := hp.rep.unique hpush.rep
  exact ⟨hpush, hp, hn₁⟩

/-- The idle thread is never queued, so giving it up forgets nothing. -/
theorem parked_idle (hr : Running cfg s q) (hidle : s.curthr = cfg.idle) : Parked cfg s q := by
  refine ⟨hr.toQueued, fun t ht => ?_⟩
  by_cases htc : t = s.curthr
  · exact Or.inl (htc.trans hidle)
  · exact hr.complete t ht htc

/-- `Sched_reschedule`. -/
theorem preempt (hr : Running cfg s q) :
    ∃ s', Returns (fun fuel => s.reschedule cfg fuel) s' ∧
      Represents s' ((s.machine q).preempt cfg) := by
  obtain ⟨s', _, ⟨n, hret⟩, -, -⟩ := hr.reschedule
  obtain ⟨k, hk⟩ := hr.exists_within
  refine ⟨s', ⟨n, hret⟩, ?_⟩
  have hrun := hret (max n k) (Nat.le_max_left n k)
  have hn : q.Within (max n k) := hk.mono (Nat.le_max_right n k)
  obtain ⟨s₁, hcall, hsame, hrep⟩ := hr.toQueued.pop
  rw [Machine.preempt]
  show Represents s' (match q.pop s.curdom with | (none, q) => _ | (some next, q) => _)
  cases hpop : q.pop s.curdom with
  | mk t q₁ =>
    cases t with
    | none =>
      rw [hpop] at hrep
      simp only [Sched.reschedule, hcall _ hn, hpop, pure_bind] at hrun
      obtain rfl := eq_of_pure_eq hrun
      exact hsame.represents hrep
    | some next =>
      obtain ⟨hc, hn₁⟩ := hr.toQueued.pop_chosen hn (congrArg Prod.fst hpop) (hcall _ hn) hrep
      rw [hpop] at hrep hc hn₁
      simp only [Sched.reschedule, hcall _ hn, hpop, pure_bind] at hrun
      obtain ⟨s₂, hrequeue, hrest⟩ := bind_eq_pure hrun
      obtain ⟨_, -, hrest⟩ := bind_eq_pure hrest
      obtain ⟨_, -, hrest⟩ := bind_eq_pure hrest
      obtain rfl := eq_of_pure_eq hrest
      have hm₁ : Represents s₁ (s.machine q₁) := hsame.represents hrep
      have hcur : s₁.curthr = s.curthr := hsame.curthr
      suffices hm₂ : Represents s₂ (if s.curthr = cfg.idle then s.machine q₁
          else (s.machine q₁).wake s.curthr (s.domain next)) from
        ⟨hm₂.domain, hm₂.state, rfl, hm₂.rep.switchTo next⟩
      by_cases hidle : s.curthr = cfg.idle
      · rw [Sched.requeueCurrent, if_neg (by simp [hcur, hidle])] at hrequeue
        rw [if_pos hidle, ← eq_of_pure_eq hrequeue]
        exact hm₁
      · rw [Sched.requeueCurrent, if_pos (by rw [hcur]; exact hidle), hcur, hsame.domain]
          at hrequeue
        rw [if_neg hidle]
        have hout : ∀ d, s.curthr ∉ q₁.thr d := fun d hd =>
          hr.cur_notMem d ((hc.mem d _).mp hd).1
        have hnotin : q₁.thr (s.domain s.curthr) = [] → s.domain next ≠ s.domain s.curthr →
            s.domain s.curthr ∉ q₁.runq := by
          intro hnil hne hmem
          -- the queues are right for the domain of the next thread already
          have hothers := hc.queued.others (s.domain s.curthr)
          rw [show (s₁.switchTo next).curdom = s.domain next from congrFun hsame.domain next]
            at hothers
          exact (hothers (Ne.symm hne)).mp hmem hnil
        obtain ⟨s₃, hcall₃, hm₃⟩ := hm₁.wake hout hnotin
        rw [hcall₃ _ hn₁.runq_lt] at hrequeue
        rw [← eq_of_pure_eq hrequeue]
        exact hm₃

end Running

/-! ## Interrupts -/

/-- The loop of `runqueue_switchdomains` takes the target out of the run queue. -/
theorem Rep.removeDomain (hr : Rep s q) {d : Domain} (hd : d ∈ q.runq ↔ q.thr d ≠ []) :
    ∃ s', (∀ fuel, q.runq.length < fuel → s.removeIfRunnable fuel d = pure s') ∧
      SameThreads s s' ∧ Rep s' { q with runq := q.runq.erase d } := by
  simp only [Sched.removeIfRunnable]
  by_cases hthr : q.thr d = []
  · have hcond := mt (hr.first_ne_none d).mp (not_not.mpr hthr)
    have hout : d ∉ q.runq := fun h => hd.mp h hthr
    rw [List.erase_of_not_mem hout]
    exact ⟨s, fun _ _ => if_neg hcond, SameThreads.refl s, hr⟩
  · obtain ⟨next, h, hcall, hqueue, -⟩ := unlink_spec
      (Stop.assertion "to == domain_runqueue.last") [] hr.domains hr.domains.chain (hd.mpr hthr)
    refine ⟨{ s with domainNext := next, domainRunqueue := h }, fun fuel hfuel => ?_,
      ⟨rfl, rfl, rfl, rfl⟩, ⟨hqueue, hr.threads, hr.own⟩⟩
    rw [if_pos ((hr.first_ne_none d).mpr hthr)]
    rw [show unlink _ s.domainNext s.domainRunqueue d fuel none _ = _ from hcall fuel hfuel]
    rfl

/-- `runqueue_switchdomains`. -/
theorem Queued.cede (hq : Queued cfg s q) (t : Thread) :
    ∃ s', Returns (fun fuel => s.switchdomainsFor fuel t) s' ∧ SameThreads s s' ∧
      Rep s' (q.cede s.curdom (s.domain t)) := by
  obtain ⟨s₀, _, hcall, hsame, -⟩ := hq.switchdomainsFor t
  refine ⟨s₀, ⟨q.runq.length + 2, hcall⟩, hsame, ?_⟩
  have hrun := hcall (q.runq.length + 2) (Nat.lt_succ_self _)
  rw [Queues.cede]
  by_cases hne : s.curdom = s.domain t
  · rw [Sched.switchdomainsFor, if_neg (not_not.mpr hne)] at hrun
    rw [if_pos hne, ← eq_of_pure_eq hrun]
    exact hq.rep
  · rw [Sched.switchdomainsFor, if_pos hne, Sched.runqueueSwitchdomains, assert_pos rfl,
      pure_bind] at hrun
    obtain ⟨s₁, hcall₁, hsame₁, hrep₁⟩ := hq.rep.rotate hq.current
    have hrotate : ∀ d, d ∈ (q.rotate s.curdom).runq ↔ (q.rotate s.curdom).thr d ≠ [] := by
      intro d
      rw [Queues.rotate]
      by_cases hd : d = s.curdom
      · subst hd
        by_cases hthr : q.thr s.curdom = []
        · simp [hthr, hq.current]
        · simp [hthr]
      · by_cases hthr : q.thr s.curdom = []
        · simp [hthr, hq.others d hd]
        · simp [hthr, hd, hq.others d hd]
    obtain ⟨s₂, hcall₂, hsame₂, hrep₂⟩ := hrep₁.removeDomain (hrotate (s.domain t))
    have hlen : (q.rotate s.curdom).runq.length ≤ q.runq.length + 1 := by
      rw [Queues.rotate]
      split
      · exact Nat.le_succ _
      · simp
    rw [hcall₁ _ (by omega), pure_bind, hcall₂ _ (by omega), pure_bind] at hrun
    rw [if_neg hne]
    have hends : s₂.domainRunqueue.first = none ↔ s₂.domainRunqueue.last = none :=
      hrep₂.domains.first_eq_none.trans hrep₂.domains.last_eq_none.symm
    obtain rfl : s₂ = s₀ := by
      by_cases hend : s₂.domainRunqueue.first = none
      · simp only [hend, hends.mp hend, if_true, assert_pos, pure_bind] at hrun
        exact eq_of_pure_eq hrun
      · simp only [hend, mt hends.mpr hend, if_false] at hrun
        exact eq_of_pure_eq hrun
    have hthr : (q.rotate s.curdom).thr = q.thr := by
      rw [Queues.rotate, apply_ite Queues.thr, ite_self]
    rw [← hthr]
    exact hrep₂

/-- `irq_first_level_handler` and `irq_exit`: the handler, or the thread it interrupted, runs. -/
theorem Queued.resumed (hq : Queued cfg s q) {call : Nat → Exec Sched} {t : Thread}
    {x : Sched → Thread} {st : ThreadState} {check : Sched → Exec Unit}
    {interrupted : Sched → List (Thread × Thread)} (hret : Returns call s')
    (hcall : ∀ fuel, call fuel = (do
      let s ← s.switchdomainsFor fuel t
      check s
      return { s.setState (x s) st with curthr := t, interrupted := interrupted s }))
    (hx : ∀ s₁, SameThreads s s₁ → x s₁ = x s) :
    Represents s' (((s.machine q).setState (x s) st).resume t) := by
  obtain ⟨s₁, hcede, hsame, hrep⟩ := hq.cede t
  obtain rfl := funext hcall
  obtain ⟨n, hn⟩ := (returns_bind_iff hcede).mp hret
  obtain ⟨_, -, hrest⟩ := bind_eq_pure (hn n (Nat.le_refl n))
  obtain rfl := eq_of_pure_eq hrest
  refine ⟨hsame.domain, ?_, rfl, ⟨hrep.domains, hrep.threads, ?_⟩⟩
  · show Function.update s₁.state (x s₁) st = Function.update s.state (x s) st
    rw [hsame.state, hx s₁ hsame]
  · exact hrep.own

/-! ## Every operation, and every run -/

/-- Every permitted call does what the machine does. -/
theorem represents_step (hr : Running cfg s q) {op : Op} (hop : Permitted cfg s op)
    (hret : Returns (exec cfg op s) s') : Represents s' ((s.machine q).step cfg op) := by
  obtain ⟨n, hn⟩ := hr.exists_within
  have hm := hr.rep.represents
  have hblocked : ∀ {t}, (s.state t).isBlocked = true → s.state t ≠ .runnable :=
    ThreadState.ne_runnable_of_isBlocked
  -- a thread that is being given up, with its domain's queue as it will be left
  have hdispatch : ∀ {s₁ m₁ k}, Represents s₁ m₁ → Parked cfg s₁ m₁.queues → m₁.queues.Within k →
      Returns (fun fuel => s₁.switchToNextThread cfg fuel) s' → Represents s' (m₁.dispatch cfg) := by
    intro s₁ m₁ k hm₁ hp₁ hk hret₁
    obtain ⟨s₂, hcall, hm₂⟩ := hm₁.dispatch hp₁
    rwa [hret₁.unique ⟨k, fun fuel hfuel => hcall fuel (hk.mono hfuel)⟩]
  have hhandoff : ∀ {s₁ m₁ k t}, Represents s₁ m₁ → Parked cfg s₁ m₁.queues → m₁.queues.Within k →
      s₁.state t ≠ .runnable → Returns (fun fuel =>
        s₁.threadunblock fuel t >>= fun s => s.switchToNextThread cfg fuel) s' →
      Represents s' (((m₁.setState t .runnable).wake t m₁.curdom).dispatch cfg) := by
    intro s₁ m₁ k t hm₁ hp₁ hk ht hret₁
    obtain ⟨s₂, hcall, hm₂⟩ := hm₁.handoff hp₁ hk ht
    rwa [hret₁.unique hcall]
  have hwake : ∀ {s₁ t}, Running cfg s₁ q → s₁.state t ≠ .runnable →
      Returns (fun fuel => s₁.threadunblock fuel t) s' →
      Represents s' (((s₁.machine q).setState t .runnable).wake t s₁.curdom) := by
    intro s₁ t hr₁ ht hret₁
    obtain ⟨s₂, hcall, hm₂⟩ := hr₁.rep.represents.unblock hr₁.toQueued (hr₁.fresh ht).1
    rwa [hret₁.unique ⟨q.runq.length + 1, hcall⟩]
  cases op with
  | createThread t st param =>
    obtain ⟨hunborn, hparam⟩ := hop
    have ht : s.state t ≠ .runnable := by
      rw [hunborn]
      decide
    have hclear := hr.clearLink (hr.fresh ht).1
    rcases hparam with ⟨rfl, rfl⟩ | ⟨rfl, -⟩
    · exact (hwake hclear ht hret :)
    · rw [hret.unique (.pure _)]
      exact hclear.rep.represents.setState t st
  | start t =>
    by_cases hinit : s.state t = .init
    · have ht : s.state t ≠ .runnable := by
        rw [hinit]
        decide
      have hcall : exec cfg (.start t) s = fun fuel => s.threadunblock fuel t :=
        funext fun _ => if_neg (not_not.mpr hinit)
      rw [hcall] at hret
      rw [Machine.step, Sched.state_machine, if_pos hinit]
      exact hwake hr ht hret
    · rw [Machine.step, Sched.state_machine, if_neg hinit]
      rw [hret.unique ⟨0, fun _ _ => if_pos hinit⟩]
      exact hm
  | unblock t => exact hwake hr (hblocked hop) hret
  | yield =>
    have hcall : exec cfg .yield s =
        fun fuel => (s.yielded cfg s.curthr).switchToNextThread cfg fuel := rfl
    rw [hcall, Sched.yielded] at hret
    rw [Machine.step, Sched.curthr_machine]
    by_cases hidle : s.curthr = cfg.idle
    · rw [if_pos hidle] at hret ⊢
      exact hdispatch hm (hr.parked_idle hidle) hn hret
    · rw [if_neg hidle] at hret ⊢
      obtain ⟨hm₁, hp₁, hn₁⟩ := hr.push hidle hn
      exact hdispatch hm₁ hp₁ hn₁ hret
  | block st =>
    have hst := ThreadState.ne_runnable_of_isBlocked hop.1
    exact hdispatch (hm.setState s.curthr st) (hr.park hop.2 st hst) hn hret.of_bind
  | blockReturn =>
    rw [hret.unique (.pure _)]
    exact hm.setState s.curthr .runnable
  | reschedule =>
    obtain ⟨s₁, hcall, hm₁⟩ := hr.preempt
    rwa [hret.unique hcall]
  | handoffToReceiver receiver =>
    have hp := hr.park hop.2 .portalWaitForRet (by decide)
    have hne : receiver ≠ s.curthr := fun h => hblocked hop.1 (h ▸ hr.cur_runnable)
    have hwait : (s.setState s.curthr .portalWaitForRet).state receiver ≠ .runnable := by
      rw [show (s.setState s.curthr .portalWaitForRet).state receiver = s.state receiver from
        Function.update_of_ne hne _ _]
      exact hblocked hop.1
    refine hhandoff (hm.setState s.curthr .portalWaitForRet) hp hn hwait ?_
    -- the receiver's state is set here and once more by `threadunblock`
    have htwice : exec cfg (.handoffToReceiver receiver) s = fun fuel =>
        (s.setState s.curthr .portalWaitForRet).threadunblock fuel receiver >>=
          fun s => s.switchToNextThread cfg fuel := by
      funext fuel
      show Sched.portalHandoffToReceiver cfg fuel s receiver = _
      rw [Sched.portalHandoffToReceiver, Sched.threadunblock, Sched.threadunblock, Sched.setState,
        Sched.setState, Sched.setState, Function.update_idem]
    rwa [htwice] at hret
  | handoffToSender sender isRunnable =>
    cases isRunnable with
    | true =>
      have hset : s.setState s.curthr .runnable = s := by
        rw [Sched.setState, ← hr.cur_runnable, Function.update_eq_self]
      obtain ⟨hm₁, hp₁, hn₁⟩ := hr.push hop.2 hn
      have hcall : exec cfg (.handoffToSender sender true) s = fun fuel =>
          (s.threadrunqAppend s.curdom s.curthr).2.threadunblock fuel sender >>=
            fun s => s.switchToNextThread cfg fuel := by
        funext fuel
        show Sched.portalHandoffToSender cfg fuel s sender true = _
        simp only [Sched.portalHandoffToSender, if_true, hset]
      rw [hcall] at hret
      have hself : (s.machine q).setState s.curthr .runnable = s.machine q :=
        congrArg (fun s' : Sched => s'.machine q) hset
      simp only [Machine.step, if_true, Sched.curthr_machine, hself]
      exact hhandoff hm₁ hp₁ hn₁ (hblocked hop.1) hret
    | false =>
      have hne : sender ≠ s.curthr := fun h => hblocked hop.1 (h ▸ hr.cur_runnable)
      have hp := hr.park hop.2 .portalWaitForSnd (by decide)
      refine hhandoff (hm.setState s.curthr .portalWaitForSnd) hp hn ?_ hret
      rw [show (s.setState s.curthr .portalWaitForSnd).state sender = s.state sender from
        Function.update_of_ne hne _ _]
      exact hblocked hop.1
  | destroyHandoffToSender sender =>
    obtain ⟨hm₁, hp₁, hn₁⟩ := hr.push hop.2 hn
    exact hhandoff hm₁ hp₁ hn₁ (hblocked hop.1) hret
  | activateInterrupt irqThread =>
    exact hr.toQueued.resumed (x := fun _ => irqThread) hret (fun _ => rfl) fun _ _ => rfl
  | deactivateInterrupt normalThread =>
    exact hr.toQueued.resumed (x := Sched.curthr) hret (fun _ => rfl) fun _ h => h.curthr
  | destroyCurrent =>
    exact hdispatch (hm.setState s.curthr .zombie) (hr.park hop .zombie (by decide)) hn hret

/-- The machine keeps the invariant. -/
theorem Running.step (hr : Running cfg s q) {op : Op} (hop : Permitted cfg s op)
    (hret : Returns (Runq.exec cfg op s) s') :
    Running cfg s' ((s.machine q).step cfg op).queues ∧
      s'.machine ((s.machine q).step cfg op).queues = (s.machine q).step cfg op := by
  have hm := represents_step hr hop hret
  obtain ⟨s'', q', hret', hr', -⟩ := hr.exec hop
  obtain rfl := hret.unique hret'
  obtain rfl := hr'.rep.unique hm.rep
  refine ⟨hr', ?_⟩
  rw [Sched.machine, hm.domain, hm.state, hm.curthr]

/-- Permitted calls that come back, one after the other. -/
inductive Run (cfg : Config) : Sched → List Op → Sched → Prop where
  | nil (s : Sched) : Run cfg s [] s
  | cons {s s₁ s' : Sched} {op : Op} {ops : List Op} (hop : Permitted cfg s op)
      (hret : Returns (exec cfg op s) s₁) (hrun : Run cfg s₁ ops s') : Run cfg s (op :: ops) s'

theorem Running.run {ops : List Op} (hrun : Run cfg s ops s') (hr : Running cfg s q) :
    ∃ q', Running cfg s' q' ∧ s'.machine q' = ops.foldl (Machine.step cfg) (s.machine q) := by
  induction hrun generalizing q with
  | nil s => exact ⟨q, hr, rfl⟩
  | cons hop hret _ ih =>
    obtain ⟨hr₁, hm₁⟩ := hr.step hop hret
    rw [List.foldl_cons, ← hm₁]
    exact ih hr₁

/-- **The pointers of the scheduler implement the machine**: from `runq_init` on, in every run, they
represent the lists the machine has after the same calls. -/
theorem machine_of_run {s₀ : Sched} {ops : List Op} (h : Initial cfg s₀) (hrun : Run cfg s₀ ops s) :
    Represents s (ops.foldl (Machine.step cfg) (s₀.machine ⟨[], fun _ => []⟩)) := by
  obtain ⟨q, hr, hm⟩ := (running_of_initial h).run hrun
  rw [← hm]
  exact hr.rep.represents

/-- Domain zero with the idle thread 0 and thread 1, which runs; all other threads are in domain 7. -/
def bootSched : Sched where
  domain := fun t => if t ≤ 1 then 0 else 7
  state := fun t => if t ≤ 1 then .runnable else .unborn
  threadNext := fun _ => none
  threadQueue := fun _ => ⟨none, none⟩
  domainNext := fun _ => none
  domainRunqueue := ⟨none, none⟩
  curthr := 1
  interrupted := []

def bootConfig : Config := ⟨0, 0, [0, 7]⟩

theorem initial_bootSched : Initial bootConfig bootSched := by
  refine ⟨rfl, fun _ => rfl, rfl, rfl, fun t => ?_⟩
  show (if t ≤ 1 then ThreadState.runnable else .unborn) = .runnable ↔ t = 1 ∨ t = 0
  rw [or_comm, ← Nat.le_one_iff_eq_zero_or_eq_one]
  by_cases ht : t ≤ 1 <;> simp [ht]

/-- A new thread of domain 7 preempts thread 1, which is queued with its domain. -/
theorem machine_of_run_bootSched : ∃ s, ∃ m : Machine,
    Run bootConfig bootSched [.createThread 2 .runnable .default, .reschedule] s ∧
      Represents s m ∧ m.curthr = 2 ∧ m.queues.runq = [0] ∧ m.queues.thr 0 = [1] := by
  have hcreate : Permitted bootConfig bootSched (.createThread 2 .runnable .default) :=
    ⟨rfl, Or.inl ⟨rfl, rfl⟩⟩
  obtain ⟨s₁, _, hret₁, hr₁, -⟩ := (running_of_initial initial_bootSched).exec hcreate
  have hreschedule : Permitted bootConfig s₁ .reschedule := trivial
  obtain ⟨s₂, _, hret₂, -⟩ := hr₁.exec hreschedule
  have hrun := Run.cons hcreate hret₁ (.cons hreschedule hret₂ (.nil s₂))
  exact ⟨s₂, _, hrun, machine_of_run initial_bootSched hrun, rfl, rfl, rfl⟩

end JxCore.Runq
