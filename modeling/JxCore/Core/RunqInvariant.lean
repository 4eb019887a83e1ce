import JxCore.Core.Runq

/-!
# The invariant of the default scheduler

Between two operations the pointers of `Sched` represent a list of domains and one list of threads
per domain (`Queues`). Inside an operation the current thread may already be queued or blocked while
it still runs, so the invariant comes in three strengths:

* `Queued` — the queues are right for the current *domain*, nothing is said about the current thread;
* `Parked` — in addition the current thread is settled: queued, blocked, or the idle thread;
* `Running` — what holds between operations: the current thread is runnable and in no queue.

Operations go from `Running` over `Parked` to the switch, which restores `Running`.
-/

namespace JxCore.Runq

open Lib Exec

/-- The lists the pointers stand for. -/
@[ext] structure Queues where
  runq : List Domain
  thr : Domain → List Thread

/-- The lists are short enough for loops with this much fuel. -/
structure Queues.Within (q : Queues) (fuel : Nat) : Prop where
  runq_lt : q.runq.length < fuel
  thr_lt : ∀ d, (q.thr d).length < fuel

theorem Queues.Within.mono {q : Queues} {n m : Nat} (h : q.Within n) (hnm : n ≤ m) : q.Within m :=
  ⟨Nat.lt_of_lt_of_le h.runq_lt hnm, fun d => Nat.lt_of_lt_of_le (h.thr_lt d) hnm⟩

/-- The pointers of `s` represent `q`, and every thread is in the queue of its own domain. -/
structure Rep (s : Sched) (q : Queues) : Prop where
  domains : IsQueue s.domainNext s.domainRunqueue q.runq
  threads : ∀ d, IsQueue s.threadNext (s.threadQueue d) (q.thr d)
  own : ∀ d, ∀ t ∈ q.thr d, s.domain t = d

/-- `s'` differs from `s` in its queues only. -/
structure SameThreads (s s' : Sched) : Prop where
  domain : s'.domain = s.domain
  state : s'.state = s.state
  curthr : s'.curthr = s.curthr
  interrupted : s'.interrupted = s.interrupted

theorem SameThreads.refl (s : Sched) : SameThreads s s := ⟨rfl, rfl, rfl, rfl⟩

theorem SameThreads.trans {s s' s'' : Sched} (h : SameThreads s s') (h' : SameThreads s' s'') :
    SameThreads s s'' :=
  ⟨h'.1.trans h.1, h'.2.trans h.2, h'.3.trans h.3, h'.4.trans h.4⟩

/-! ## Queue operations on represented lists -/

namespace Rep

variable {s : Sched} {q : Queues} {d : Domain} {t : Thread}

theorem first_ne_none (hr : Rep s q) (d : Domain) :
    (s.threadQueue d).first ≠ none ↔ q.thr d ≠ [] :=
  not_congr (hr.threads d).first_eq_none

/-- A queued thread is in one queue only. -/
theorem notMem_of_ne (hr : Rep s q) {e : Domain} (ht : t ∈ q.thr d) (he : e ≠ d) : t ∉ q.thr e :=
  fun hte => he ((hr.own e t hte).symm.trans (hr.own d t ht))

/-- Replacing one thread queue, with a new link field that agrees on the other queues. -/
theorem update (hr : Rep s q) {next : Links Thread} {h : Header Thread} {l : List Thread}
    (hq : IsQueue next h l) (hown : ∀ t ∈ l, s.domain t = d)
    (hframe : ∀ e ≠ d, ∀ t ∈ q.thr e, next t = s.threadNext t) :
    Rep { s with threadNext := next, threadQueue := Function.update s.threadQueue d h }
      { q with thr := Function.update q.thr d l } := by
  refine ⟨hr.domains, fun e => ?_, fun e t ht => ?_⟩
  · by_cases he : e = d
    · subst he
      simpa using hq
    · simp only [Function.update_of_ne he]
      exact (hr.threads e).congr (hframe e he)
  · by_cases he : e = d
    · subst he
      simp only [Function.update_self] at ht
      exact hown t ht
    · simp only [Function.update_of_ne he] at ht
      exact hr.own e t ht

theorem threadrunqAppend (hr : Rep s q) (ht : ∀ e, t ∉ q.thr e) (hd : s.domain t = d) :
    (s.threadrunqAppend d t).1 = decide (q.thr d = []) ∧
      SameThreads s (s.threadrunqAppend d t).2 ∧
      Rep (s.threadrunqAppend d t).2
        { q with thr := Function.update q.thr d (q.thr d ++ [t]) } := by
  refine ⟨?_, ⟨rfl, rfl, rfl, rfl⟩, ?_⟩
  · have hlast := (hr.threads d).last_eq_none
    show (s.threadQueue d).last.isNone = _
    rw [← Option.isNone_iff_eq_none] at hlast
    exact Bool.eq_iff_iff.mpr (by simp only [decide_eq_true_eq, hlast])
  · refine hr.update (isQueue_append (hr.threads d) (ht d)) ?_ ?_
    · intro x hx
      rcases List.mem_append.mp hx with hx | hx
      · exact hr.own d x hx
      · rw [List.mem_singleton.mp hx, hd]
    · intro e he x hx
      refine append_link (hr.threads d) (hr.notMem_of_ne hx (Ne.symm he)) ?_
      rintro rfl
      exact ht e hx

theorem threadrunqRemove_nil (hr : Rep s q) (hd : q.thr d = []) :
    s.threadrunqRemove d = pure (none, s) := by
  have hfirst := (hr.threads d).first_eq_none.mpr hd
  rw [Sched.threadrunqRemove, hfirst]

theorem threadrunqRemove_cons (hr : Rep s q) {l : List Thread} (hd : q.thr d = t :: l)
    (hstate : s.state t = .runnable) :
    ∃ s', s.threadrunqRemove d = pure (some t, s') ∧ SameThreads s s' ∧
      Rep s' { q with thr := Function.update q.thr d l } := by
  have hq := hr.threads d
  rw [hd] at hq
  refine ⟨_, ?_, ?_, hr.update (isQueue_removeFirst hq) ?_ ?_⟩
  · rw [Sched.threadrunqRemove, hq.chain.1]
    simp only [assert_pos hstate, pure_bind]
  · exact ⟨rfl, rfl, rfl, rfl⟩
  · intro x hx
    exact hr.own d x (hd ▸ List.mem_cons_of_mem t hx)
  · intro e he x hx
    refine removeFirst_link ?_
    rintro rfl
    exact hr.notMem_of_ne hx (Ne.symm he) (hd ▸ List.mem_cons_self ..)

theorem domainrunqAppend (hr : Rep s q) (hd : d ∉ q.runq) :
    ∃ s', (∀ fuel, q.runq.length < fuel → s.domainrunqAppend fuel d = pure s') ∧
      SameThreads s s' ∧ Rep s' { q with runq := q.runq ++ [d] } := by
  refine ⟨{ s with
    domainNext := (append s.domainNext s.domainRunqueue d).1
    domainRunqueue := (append s.domainNext s.domainRunqueue d).2 }, ?_, ⟨rfl, rfl, rfl, rfl⟩,
    isQueue_append hr.domains hd, hr.threads, hr.own⟩
  intro fuel hfuel
  have hfirst : s.domainRunqueue.last = none → s.domainRunqueue.first = none := fun h =>
    hr.domains.first_eq_none.mpr (hr.domains.last_eq_none.mp h)
  rw [Sched.domainrunqAppend, find_eq hr.domains.chain hfuel]
  by_cases hlast : s.domainRunqueue.last = none
  · simp [hd, hlast, assert_pos (hfirst hlast)]
  · simp [hd, hlast]

/-- The current domain is in the run queue afterwards exactly when it has runnable threads. -/
theorem appendIfRunnable (hr : Rep s q) (hd : d ∉ q.runq) :
    ∃ s' runq, (∀ fuel, q.runq.length < fuel → s.appendIfRunnable fuel d = pure s') ∧
      SameThreads s s' ∧ Rep s' { q with runq := runq } ∧
      runq.length ≤ q.runq.length + 1 ∧ (d ∈ runq ↔ q.thr d ≠ []) ∧
      ∀ e, e ≠ d → (e ∈ runq ↔ e ∈ q.runq) := by
  simp only [Sched.appendIfRunnable]
  by_cases hthr : q.thr d = []
  · have hcond := mt (hr.first_ne_none d).mp (not_not.mpr hthr)
    exact ⟨s, q.runq, fun _ _ => if_neg hcond, SameThreads.refl s, hr, Nat.le_succ _, by simp [hd, hthr],
      fun _ _ => Iff.rfl⟩
  · simp only [if_pos ((hr.first_ne_none d).mpr hthr)]
    obtain ⟨s', hcall, hsame, hrep⟩ := hr.domainrunqAppend hd
    refine ⟨s', q.runq ++ [d], hcall, hsame, hrep, by simp, by simp [hthr], fun e he => ?_⟩
    simp [he]

theorem domainrunqRemove_nil (hr : Rep s q) (hq : q.runq = []) :
    s.domainrunqRemove = pure (none, s) := by
  rw [Sched.domainrunqRemove, hr.domains.first_eq_none.mpr hq]

theorem domainrunqRemove_cons (hr : Rep s q) {l : List Domain} (hq : q.runq = d :: l)
    (hcur : d ≠ s.curdom) :
    ∃ s', s.domainrunqRemove = pure (some d, s') ∧ SameThreads s s' ∧ Rep s' { q with runq := l } := by
  have hdq := hr.domains
  rw [hq] at hdq
  have hrest := isQueue_removeFirst hdq
  refine ⟨{ s with
    domainNext := (removeFirst s.domainNext s.domainRunqueue d).1
    domainRunqueue := (removeFirst s.domainNext s.domainRunqueue d).2 }, ?_,
    ⟨rfl, rfl, rfl, rfl⟩, hrest, hr.threads, hr.own⟩
  rw [Sched.domainrunqRemove, hdq.chain.1]
  by_cases hnil : l = []
  · simp [hcur, assert_pos (hrest.last_eq_none.mpr hnil)]
  · simp [hcur, mt hrest.first_eq_none.mp hnil]

theorem checkNotInQueue (hr : Rep s q) {fuel : Nat} (ht : t ∉ q.thr d)
    (hfuel : (q.thr d).length < fuel) : s.checkNotInQueue fuel d t = pure () := by
  rw [Sched.checkNotInQueue, find_eq (hr.threads d).chain hfuel]
  simp [ht]

theorem checkNotInDomains (hr : Rep s q) {fuel n : Nat} {p : Option Domain} {l : List Domain}
    (ht : ∀ e, t ∉ q.thr e) (hfuel : ∀ e, (q.thr e).length < fuel)
    (hc : Chain s.domainNext p l) (hn : l.length < n) :
    s.checkNotInDomains fuel t n p = pure () := by
  induction l generalizing p n with
  | nil =>
    obtain ⟨n, rfl⟩ := Nat.exists_eq_succ_of_ne_zero (Nat.ne_of_gt hn)
    rw [show p = none from hc, Sched.checkNotInDomains]
  | cons d l ih =>
    obtain ⟨n, rfl⟩ := Nat.exists_eq_succ_of_ne_zero (show n ≠ 0 by omega)
    obtain ⟨rfl, hc⟩ := hc
    rw [Sched.checkNotInDomains, hr.checkNotInQueue (ht d) (hfuel d), pure_bind]
    exact ih hc (Nat.lt_of_succ_lt_succ hn)

theorem checkNotInRunq (hr : Rep s q) {fuel : Nat} (ht : ∀ e, t ∉ q.thr e) (hfuel : q.Within fuel) :
    s.checkNotInRunq fuel t = pure () := by
  rw [Sched.checkNotInRunq, hr.checkNotInQueue (ht _) (hfuel.thr_lt _), pure_bind]
  exact hr.checkNotInDomains ht hfuel.thr_lt hr.domains.chain hfuel.runq_lt

end Rep

theorem Rep.switchTo {s : Sched} {q : Queues} (hr : Rep s q) (t : Thread) : Rep (s.switchTo t) q :=
  ⟨hr.domains, hr.threads, hr.own⟩

theorem Rep.of_switchTo {s : Sched} {q : Queues} {t : Thread} (hr : Rep (s.switchTo t) q) : Rep s q :=
  ⟨hr.domains, hr.threads, hr.own⟩

/-! ## The invariant in three strengths -/

variable {cfg : Config} {s : Sched} {q : Queues}

/-- `t` was interrupted and has not been resumed. -/
def Sched.isVictim (s : Sched) (t : Thread) : Prop := ∃ p ∈ s.interrupted, p.2 = t

/-- The queues are right for the current domain. -/
structure Queued (cfg : Config) (s : Sched) (q : Queues) : Prop where
  rep : Rep s q
  runnable : ∀ d, ∀ t ∈ q.thr d, s.state t = .runnable
  current : s.curdom ∉ q.runq
  others : ∀ d, d ≠ s.curdom → (d ∈ q.runq ↔ q.thr d ≠ [])
  idle_domain : s.domain cfg.idle = cfg.domainZero
  idle_runnable : s.state cfg.idle = .runnable
  idle_notMem : ∀ d, cfg.idle ∉ q.thr d
  victim_runnable : ∀ t, s.isVictim t → s.state t = .runnable
  victim_notMem : ∀ t, s.isVictim t → ∀ d, t ∉ q.thr d
  victim_once : s.interrupted.Pairwise fun p p' => p.2 ≠ p'.2 ∨ p.2 = cfg.idle
  handler_ne : ∀ p ∈ s.interrupted, p.1 ≠ cfg.idle

/-- `t` is one of the threads the scheduler knows to be runnable without running them. -/
def Accounted (cfg : Config) (s : Sched) (q : Queues) (t : Thread) : Prop :=
  t = cfg.idle ∨ s.isVictim t ∨ t ∈ q.thr (s.domain t)

theorem Sched.isVictim_congr {s s' : Sched} (h : s'.interrupted = s.interrupted) (t : Thread) :
    s'.isVictim t ↔ s.isVictim t := by
  simp only [Sched.isVictim, h]

/-- Longer queues account for as many threads. -/
theorem Accounted.mono {s' : Sched} {q' : Queues} {t : Thread} (h : Accounted cfg s q t)
    (hdomain : s'.domain = s.domain) (hint : s'.interrupted = s.interrupted)
    (hsub : ∀ d, t ∈ q.thr d → t ∈ q'.thr d) : Accounted cfg s' q' t := by
  rcases h with h | h | h
  · exact Or.inl h
  · exact Or.inr (Or.inl ((Sched.isVictim_congr hint t).mpr h))
  · refine Or.inr (Or.inr (hsub _ ?_))
    rw [hdomain]
    exact h

theorem accounted_of_mem {t : Thread} {d : Domain} (h : t ∈ q.thr d) (hd : d = s.domain t) :
    Accounted cfg s q t :=
  Or.inr (Or.inr (hd ▸ h))

/-- Nothing runnable is forgotten when the current thread is given up. -/
structure Parked (cfg : Config) (s : Sched) (q : Queues) : Prop extends Queued cfg s q where
  complete : ∀ t, s.state t = .runnable → Accounted cfg s q t

/-- **The invariant between two operations.** -/
structure Running (cfg : Config) (s : Sched) (q : Queues) : Prop extends Queued cfg s q where
  complete : ∀ t, s.state t = .runnable → t ≠ s.curthr → Accounted cfg s q t
  cur_runnable : s.state s.curthr = .runnable
  cur_notMem : ∀ d, s.curthr ∉ q.thr d
  cur_victim : s.isVictim s.curthr → s.curthr = cfg.idle

namespace Queued

theorem setState (hq : Queued cfg s q) (t : Thread) (st : ThreadState)
    (h : st = .runnable ∨ (∀ d, t ∉ q.thr d) ∧ t ≠ cfg.idle ∧ ¬ s.isVictim t) :
    Queued cfg (s.setState t st) q := by
  have hkeep : ∀ x, s.state x = .runnable → (x = t → st = .runnable) →
      (s.setState t st).state x = .runnable := by
    intro x hx hst
    show Function.update s.state t st x = .runnable
    by_cases hxt : x = t
    · rw [hxt, Function.update_self]
      exact hst hxt
    · rw [Function.update_of_ne hxt]
      exact hx
  refine ⟨⟨hq.rep.domains, hq.rep.threads, hq.rep.own⟩, ?_, hq.current, hq.others, hq.idle_domain,
    ?_, hq.idle_notMem, ?_, hq.victim_notMem, hq.victim_once, hq.handler_ne⟩
  · intro d x hx
    refine hkeep x (hq.runnable d x hx) ?_
    rintro rfl
    exact h.resolve_right fun h => h.1 d hx
  · refine hkeep _ hq.idle_runnable ?_
    rintro rfl
    exact h.resolve_right fun h => h.2.1 rfl
  · intro x hx
    refine hkeep x (hq.victim_runnable x hx) ?_
    rintro rfl
    exact h.resolve_right fun h => h.2.2 hx

/-- New queues, perhaps for another current thread. -/
theorem of_rep (hq : Queued cfg s q) {s' : Sched} {q' : Queues} (hdomain : s'.domain = s.domain)
    (hstate : s'.state = s.state) (hint : s'.interrupted = s.interrupted) (hrep : Rep s' q')
    (hthr : ∀ d, ∀ t ∈ q'.thr d, s.state t = .runnable ∧ t ≠ cfg.idle ∧ ¬ s.isVictim t)
    (hcur : s'.curdom ∉ q'.runq) (hothers : ∀ d, d ≠ s'.curdom → (d ∈ q'.runq ↔ q'.thr d ≠ [])) :
    Queued cfg s' q' := by
  have hvictim := Sched.isVictim_congr hint
  refine ⟨hrep, ?_, hcur, hothers, ?_, ?_, ?_, ?_, ?_, ?_, ?_⟩
  · intro d t ht
    rw [hstate]
    exact (hthr d t ht).1
  · rw [hdomain]
    exact hq.idle_domain
  · rw [hstate]
    exact hq.idle_runnable
  · intro d hd
    exact (hthr d _ hd).2.1 rfl
  · intro t ht
    rw [hstate]
    exact hq.victim_runnable t ((hvictim t).mp ht)
  · intro t ht d hd
    exact (hthr d t hd).2.2 ((hvictim t).mp ht)
  · rw [hint]
    exact hq.victim_once
  · rw [hint]
    exact hq.handler_ne

theorem member (hq : Queued cfg s q) {d : Domain} {t : Thread} (ht : t ∈ q.thr d) :
    s.state t = .runnable ∧ t ≠ cfg.idle ∧ ¬ s.isVictim t :=
  ⟨hq.runnable d t ht, fun h => hq.idle_notMem d (h ▸ ht), fun h => hq.victim_notMem t h d ht⟩

/-- The checks of the `DEBUG` build pass, and the assignment in `check_runnable` changes nothing. -/
theorem checkCompleterunnable (hq : Queued cfg s q) {fuel : Nat} (hfuel : q.runq.length < fuel)
    (ds : List Domain) : s.checkCompleterunnable fuel ds = pure s := by
  induction ds with
  | nil => rfl
  | cons d ds ih =>
    have hone : s.checkRunnable fuel d = pure s := by
      rw [Sched.checkRunnable]
      by_cases hd : d = s.curdom
      · rw [if_pos hd]
      · rw [if_neg hd]
        cases hfirst : (s.threadQueue d).first with
        | none => rfl
        | some t =>
          have hchain := (hq.rep.threads d).chain
          rw [hfirst] at hchain
          cases hl : q.thr d with
          | nil => exact absurd (hl ▸ hchain) (by simp [Chain])
          | cons t' l =>
            have htt : t = t' := Option.some.inj (hl ▸ hchain).1
            have hset : s.setState t .runnable = s := by
              have hstate := hq.runnable d t (by rw [hl, htt]; exact List.mem_cons_self ..)
              rw [Sched.setState, ← hstate, Function.update_eq_self]
            have hmem : d ∈ q.runq := (hq.others d hd).mpr (by simp [hl])
            simp [hset, find_eq hq.rep.domains.chain hfuel, hmem]
    rw [Sched.checkCompleterunnable, hone, pure_bind]
    exact ih

/-- Queueing a runnable thread, while `r` runs or is about to run. -/
theorem enqueue {r : Thread} (hq : Queued cfg (s.switchTo r) q) {n : Nat} {t : Thread}
    (hstate : s.state t = .runnable) (hidle : t ≠ cfg.idle) (hvictim : ¬ s.isVictim t)
    (ht : ∀ d, t ∉ q.thr d) (hn : q.Within n) :
    ∃ s' q', (∀ fuel, n ≤ fuel → s.enqueue fuel t (s.domain r) = pure s') ∧ SameThreads s s' ∧
      Queued cfg (s'.switchTo r) q' ∧ q'.Within (n + 1) ∧
      ∀ d x, x ∈ q'.thr d ↔ x ∈ q.thr d ∨ x = t ∧ d = s.domain t := by
  obtain ⟨hempty, hsame, hrep⟩ := hq.rep.of_switchTo.threadrunqAppend ht rfl
  have hmem : ∀ d x, x ∈ Function.update q.thr (s.domain t) (q.thr (s.domain t) ++ [t]) d ↔
      x ∈ q.thr d ∨ x = t ∧ d = s.domain t := by
    intro d x
    by_cases hd : d = s.domain t
    · subst hd
      simp
    · simp [hd]
  have hthr : ∀ d, ∀ x ∈ Function.update q.thr (s.domain t) (q.thr (s.domain t) ++ [t]) d,
      s.state x = .runnable ∧ x ≠ cfg.idle ∧ ¬ s.isVictim x := by
    intro d x hx
    rcases (hmem d x).mp hx with hx | ⟨rfl, -⟩
    · exact hq.member hx
    · exact ⟨hstate, hidle, hvictim⟩
  have hlen : ∀ d, (Function.update q.thr (s.domain t) (q.thr (s.domain t) ++ [t]) d).length <
      n + 1 := by
    intro d
    have hlt := hn.thr_lt d
    by_cases hd : d = s.domain t
    · subst hd
      simp only [Function.update_self, List.length_append, List.length_singleton]
      omega
    · rw [Function.update_of_ne hd]
      omega
  have hne : ∀ d, d ≠ s.domain t →
      Function.update q.thr (s.domain t) (q.thr (s.domain t) ++ [t]) d = q.thr d :=
    fun d hd => Function.update_of_ne hd _ _
  have hrunq := hn.runq_lt
  have hothers : ∀ d, d ≠ s.domain r → (d ∈ q.runq ↔ q.thr d ≠ []) := hq.others
  simp only [Sched.enqueue, hempty, hsame.domain]
  by_cases hcond : q.thr (s.domain t) = [] ∧ s.domain r ≠ s.domain t
  · -- the domain becomes runnable
    have hout : s.domain t ∉ q.runq := fun h => (hothers _ (Ne.symm hcond.2)).mp h hcond.1
    obtain ⟨s', hcall, hsame', hrep'⟩ := hrep.domainrunqAppend hout
    have htrans := hsame.trans hsame'
    have hcur : (s'.switchTo r).curdom = s.domain r := by
      show s'.domain r = s.domain r
      rw [htrans.domain]
    refine ⟨s', _, ?_, htrans, hq.of_rep htrans.domain htrans.state htrans.interrupted
      (hrep'.switchTo r) hthr ?_ ?_, ⟨?_, hlen⟩, hmem⟩
    · intro fuel hfuel
      rw [if_pos ⟨decide_eq_true hcond.1, hcond.2⟩]
      exact hcall fuel (Nat.lt_of_lt_of_le hrunq hfuel)
    · simp only [hcur, List.mem_append, List.mem_singleton, not_or]
      exact ⟨hq.current, hcond.2⟩
    · intro d hd
      rw [hcur] at hd
      by_cases hdt : d = s.domain t
      · subst hdt
        simp
      · simp only [hne d hdt, List.mem_append, List.mem_singleton, hdt, or_false]
        exact hothers d hd
    · simp only [List.length_append, List.length_singleton]
      omega
  · refine ⟨_, _, ?_, hsame, hq.of_rep rfl rfl rfl (hrep.switchTo r) hthr hq.current ?_,
      ⟨Nat.lt_succ_of_lt hrunq, hlen⟩, hmem⟩
    · intro fuel _
      rw [if_neg fun h => hcond ⟨of_decide_eq_true h.1, h.2⟩]
    · intro d hd
      have hold := hothers d hd
      by_cases hdt : d = s.domain t
      · subst hdt
        have hfull : q.thr (s.domain t) ≠ [] := fun h => hcond ⟨h, Ne.symm hd⟩
        simp [hold, hfull]
      · simp only [hne d hdt]
        exact hold

/-- `Sched_unblocked` queues a runnable thread, and its domain if that was not queued. -/
theorem unblocked (hq : Queued cfg s q) {n : Nat} {t : Thread} (hstate : s.state t = .runnable)
    (hidle : t ≠ cfg.idle) (hvictim : ¬ s.isVictim t) (ht : ∀ d, t ∉ q.thr d) (hn : q.Within n) :
    ∃ s' q', (∀ fuel, n ≤ fuel → s.unblocked fuel t = pure s') ∧ SameThreads s s' ∧
      Queued cfg s' q' ∧ q'.Within (n + 1) ∧
      ∀ d x, x ∈ q'.thr d ↔ x ∈ q.thr d ∨ x = t ∧ d = s.domain t := by
  obtain ⟨s', q', hcall, hsame, hq', hrest⟩ :=
    enqueue (r := s.curthr) hq hstate hidle hvictim ht hn
  have hcur : s'.switchTo s.curthr = s' := by
    rw [← hsame.curthr]
    rfl
  exact ⟨s', q', hcall, hsame, hcur ▸ hq', hrest⟩

/-- What it means to have taken `t` out of the queues: they are right for the domain of `t`. -/
structure Chosen (cfg : Config) (s : Sched) (q : Queues) (t : Thread) (s' : Sched) (q' : Queues) :
    Prop where
  same : SameThreads s s'
  queued : Queued cfg (s'.switchTo t) q'
  was : t ∈ q.thr (s.domain t)
  mem : ∀ d x, x ∈ q'.thr d ↔ x ∈ q.thr d ∧ x ≠ t

/-- The queues after the head of one thread queue was taken and its domain left the run queue. -/
theorem chosen_of_rep (hq : Queued cfg s q) {s' : Sched} {runq : List Domain} {d : Domain}
    {t : Thread} {l : List Thread} (hsame : SameThreads s s') (hd : q.thr d = t :: l)
    (hrep : Rep s' ⟨runq, Function.update q.thr d l⟩) (hcur : d ∉ runq)
    (hothers : ∀ e, e ≠ d → (e ∈ runq ↔ q.thr e ≠ [])) :
    Chosen cfg s q t s' ⟨runq, Function.update q.thr d l⟩ := by
  have htd : t ∈ q.thr d := hd ▸ List.mem_cons_self ..
  have hdom : s.domain t = d := hq.rep.own d t htd
  have hnodup := (hq.rep.threads d).nodup
  rw [hd] at hnodup
  have hmem : ∀ e x, x ∈ Function.update q.thr d l e ↔ x ∈ q.thr e ∧ x ≠ t := by
    intro e x
    by_cases he : e = d
    · subst he
      rw [Function.update_self, hd]
      constructor
      · intro hx
        exact ⟨List.mem_cons_of_mem t hx, fun h => (List.nodup_cons.mp hnodup).1 (h ▸ hx)⟩
      · rintro ⟨hx, hne⟩
        exact (List.mem_cons.mp hx).resolve_left hne
    · rw [Function.update_of_ne he]
      constructor
      · intro hx
        exact ⟨hx, fun h => hq.rep.notMem_of_ne htd he (h ▸ hx)⟩
      · exact fun h => h.1
  have hswitch : (s'.switchTo t).curdom = d := by
    show s'.domain t = d
    rw [hsame.domain, hdom]
  refine ⟨hsame, hq.of_rep hsame.domain hsame.state hsame.interrupted
    ⟨hrep.domains, hrep.threads, hrep.own⟩ ?_ ?_ ?_, hdom ▸ htd, hmem⟩
  · intro e x hx
    exact hq.member ((hmem e x).mp hx).1
  · rw [hswitch]
    exact hcur
  · intro e he
    rw [hswitch] at he
    simp only [Function.update_of_ne he]
    exact hothers e he

/-- `runqueue_removeFirstOrNULL`: another runnable domain first, then the current one. -/
theorem removeFirstOrNull (hq : Queued cfg s q) :
    ((∀ fuel, q.Within fuel → s.runqueueRemoveFirstOrNull cfg fuel s.curdom = pure (none, s)) ∧
      ∀ d, q.thr d = []) ∨
    ∃ t s' q', (∀ fuel, q.Within fuel →
        s.runqueueRemoveFirstOrNull cfg fuel s.curdom = pure (some t, s')) ∧
      Chosen cfg s q t s' q' ∧ ∀ fuel, q.Within fuel → q'.Within fuel := by
  have htail : ∀ fuel d l, (∃ t, q.thr d = t :: l) → q.Within fuel → ∀ e,
      (Function.update q.thr d l e).length < fuel := by
    rintro fuel d l ⟨t, hd⟩ hfuel e
    by_cases he : e = d
    · have hlt := hfuel.thr_lt d
      rw [hd, List.length_cons] at hlt
      rw [he, Function.update_self]
      omega
    · rw [Function.update_of_ne he]
      exact hfuel.thr_lt e
  have hstart : ∀ fuel, q.Within fuel →
      s.checkCompleterunnable fuel cfg.domains = pure s :=
    fun fuel hfuel => hq.checkCompleterunnable hfuel.runq_lt cfg.domains
  cases hrunq : q.runq with
  | nil =>
    have hcall : ∀ fuel, q.Within fuel → s.runqueueRemoveFirstOrNull cfg fuel s.curdom =
        s.threadrunqRemove s.curdom := by
      intro fuel hfuel
      rw [Sched.runqueueRemoveFirstOrNull, hstart fuel hfuel, pure_bind,
        hq.rep.domainrunqRemove_nil hrunq, pure_bind]
    have hothers : ∀ d, d ≠ s.curdom → q.thr d = [] := by
      intro d hd
      by_contra hne
      have hmem := (hq.others d hd).mpr hne
      rw [hrunq] at hmem
      cases hmem
    cases hthr : q.thr s.curdom with
    | nil =>
      refine Or.inl ⟨fun fuel hfuel => (hcall fuel hfuel).trans (hq.rep.threadrunqRemove_nil hthr),
        fun d => ?_⟩
      by_cases hd : d = s.curdom
      · rw [hd, hthr]
      · exact hothers d hd
    | cons t l =>
      have hstate := hq.runnable s.curdom t (hthr ▸ List.mem_cons_self ..)
      obtain ⟨s', hremove, hsame, hrep⟩ := hq.rep.threadrunqRemove_cons hthr hstate
      exact Or.inr ⟨t, s', _, fun fuel hfuel => (hcall fuel hfuel).trans hremove,
        hq.chosen_of_rep hsame hthr hrep hq.current hq.others,
        fun fuel hfuel => ⟨hfuel.runq_lt, htail fuel _ l ⟨t, hthr⟩ hfuel⟩⟩
  | cons newdom rest =>
    have hnew : newdom ≠ s.curdom := fun h => hq.current (h ▸ hrunq ▸ List.mem_cons_self ..)
    obtain ⟨hnotrest, hnodup⟩ := List.nodup_cons.mp (hrunq ▸ hq.rep.domains.nodup)
    obtain ⟨s₁, hcall₁, hsame₁, hrep₁⟩ := hq.rep.domainrunqRemove_cons hrunq hnew
    have hfull : q.thr newdom ≠ [] := (hq.others newdom hnew).mp (hrunq ▸ List.mem_cons_self ..)
    have hcurrest : s.curdom ∉ rest := fun h =>
      hq.current (hrunq ▸ List.mem_cons_of_mem newdom h)
    have hrestlt : ∀ fuel, q.Within fuel → rest.length + 1 < fuel := by
      intro fuel hfuel
      have hlt := hfuel.runq_lt
      rwa [hrunq, List.length_cons] at hlt
    have hrest : ∀ e, e ≠ newdom → e ≠ s.curdom → (e ∈ rest ↔ q.thr e ≠ []) := by
      intro e he hec
      rw [← hq.others e hec, hrunq, List.mem_cons]
      exact (or_iff_right he).symm
    obtain ⟨t, l, hthr⟩ := List.exists_cons_of_ne_nil hfull
    have hstate := hq.runnable newdom t (hthr ▸ List.mem_cons_self ..)
    obtain ⟨s₂, runq, happend, hsame₂, hrep₂, hlen, hcurin, hothersin⟩ :=
      hrep₁.appendIfRunnable hcurrest
    have hin : ∀ e, e ≠ newdom → (e ∈ runq ↔ q.thr e ≠ []) := by
      intro e he
      by_cases hec : e = s.curdom
      · rw [hec]
        exact hcurin
      · exact (hothersin e hec).trans (hrest e he hec)
    have hout : newdom ∉ runq := fun h => hnotrest ((hothersin newdom hnew).mp h)
    have hsame₁₂ := hsame₁.trans hsame₂
    have hstate₂ : s₂.state t = .runnable := by
      rw [hsame₁₂.state]
      exact hstate
    obtain ⟨s₃, hcall₃, hsame₃, hrep₃⟩ := hrep₂.threadrunqRemove_cons hthr hstate₂
    have hsame := hsame₁₂.trans hsame₃
    refine Or.inr ⟨t, s₃, _, fun fuel hfuel => ?_, hq.chosen_of_rep hsame hthr hrep₃ hout hin,
      fun fuel hfuel => ⟨Nat.lt_of_le_of_lt hlen (hrestlt fuel hfuel),
        htail fuel _ l ⟨t, hthr⟩ hfuel⟩⟩
    have hstate₃ : s₃.state t = .runnable := by
      rw [hsame.state]
      exact hstate
    rw [Sched.runqueueRemoveFirstOrNull, hstart fuel hfuel, pure_bind]
    simp only [hcall₁, pure_bind, assert_pos ((hrep₁.first_ne_none newdom).mpr hfull),
      happend fuel (Nat.lt_of_succ_lt (hrestlt fuel hfuel)), hcall₃, assert_pos hstate₃]

end Queued

/-! ## Giving up the processor -/

/-- The chosen thread runs, and whoever is runnable besides it is accounted for. -/
theorem Queued.Chosen.running {s' : Sched} {q' : Queues} {t : Thread} (hq : Queued cfg s q)
    (hc : Queued.Chosen cfg s q t s' q')
    (hcomplete : ∀ x, s.state x = .runnable → x ≠ t → Accounted cfg s q x) :
    Running cfg (s'.switchTo t) q' := by
  have hvictim : ∀ x, (s'.switchTo t).isVictim x ↔ s.isVictim x :=
    Sched.isVictim_congr hc.same.interrupted
  refine ⟨hc.queued, ?_, ?_, ?_, ?_⟩
  · intro x hx hxt
    have hold : s.state x = .runnable := by
      rw [← hc.same.state]
      exact hx
    exact (hcomplete x hold hxt).mono hc.same.domain hc.same.interrupted
      fun d hd => (hc.mem d x).mpr ⟨hd, hxt⟩
  · rw [show (s'.switchTo t).state = s.state from hc.same.state]
    exact hq.runnable _ t hc.was
  · intro d hd
    exact ((hc.mem d t).mp hd).2 rfl
  · intro hv
    exact absurd ((hvictim t).mp hv) fun h => hq.victim_notMem t h _ hc.was

/-- With every queue empty the idle thread takes over. -/
theorem Queued.idle (hq : Queued cfg s q) (hnone : ∀ d, q.thr d = [])
    (hcomplete : ∀ x, s.state x = .runnable → Accounted cfg s q x) :
    Running cfg (s.switchTo cfg.idle) q := by
  have hrunq : ∀ d, d ∉ q.runq := by
    intro d hd
    by_cases hcur : d = s.curdom
    · exact hq.current (hcur ▸ hd)
    · exact (hq.others d hcur).mp hd (hnone d)
  have hqueued : Queued cfg (s.switchTo cfg.idle) q := by
    refine hq.of_rep rfl rfl rfl (hq.rep.switchTo cfg.idle) ?_ (hrunq _) fun d _ => ?_
    · intro d t ht
      exact hq.member ht
    · simp [hrunq d, hnone d]
  exact ⟨hqueued, fun x hx _ => hcomplete x hx, hq.idle_runnable, hq.idle_notMem, fun _ => rfl⟩

/-- `Sched_switch_to_nextThread` restores the invariant. -/
theorem Parked.switchToNextThread (hp : Parked cfg s q) :
    ∃ s' q', (∀ fuel, q.Within fuel → s.switchToNextThread cfg fuel = pure s') ∧
      Running cfg s' q' ∧ s'.state = s.state := by
  simp only [Sched.switchToNextThread, Sched.runqueueRemoveFirstOrIdle]
  rcases hp.toQueued.removeFirstOrNull with ⟨hcall, hnone⟩ | ⟨t, s', q', hcall, hc, hwithin⟩
  · refine ⟨_, q, fun fuel hfuel => ?_, hp.toQueued.idle hnone hp.complete, rfl⟩
    simp only [hcall fuel hfuel, pure_bind, Option.getD_none,
      hp.rep.checkNotInRunq hp.idle_notMem hfuel]
  · refine ⟨_, q', fun fuel hfuel => ?_, hc.running hp.toQueued fun x hx _ => hp.complete x hx,
      hc.same.state⟩
    have hout : ∀ d, t ∉ q'.thr d := fun d hd => ((hc.mem d t).mp hd).2 rfl
    simp only [hcall fuel hfuel, pure_bind, Option.getD_some,
      hc.queued.rep.of_switchTo.checkNotInRunq hout (hwithin fuel hfuel)]

/-- `runqueue_switchdomains` makes the queues right for the domain of `t`. -/
theorem Queued.switchdomainsFor (hq : Queued cfg s q) (t : Thread) :
    ∃ s' runq, (∀ fuel, q.runq.length + 1 < fuel → s.switchdomainsFor fuel t = pure s') ∧
      SameThreads s s' ∧ Queued cfg (s'.switchTo t) { q with runq := runq } := by
  simp only [Sched.switchdomainsFor]
  by_cases hne : s.curdom = s.domain t
  · refine ⟨s, q.runq, fun _ _ => if_neg (not_not.mpr hne), SameThreads.refl s, ?_⟩
    have hcur : (s.switchTo t).curdom = s.curdom := hne.symm
    refine hq.of_rep rfl rfl rfl (hq.rep.switchTo t) (fun _ _ => hq.member) ?_ ?_
    · rw [hcur]
      exact hq.current
    · rw [hcur]
      exact hq.others
  · simp only [if_pos hne, Sched.runqueueSwitchdomains]
    obtain ⟨s₁, runq₁, hcall₁, hsame₁, hrep₁, hlen₁, hcur₁, hothers₁⟩ :=
      hq.rep.appendIfRunnable hq.current
    have hin₁ : ∀ e, e ∈ runq₁ ↔ q.thr e ≠ [] := by
      intro e
      by_cases he : e = s.curdom
      · rw [he]
        exact hcur₁
      · exact (hothers₁ e he).trans (hq.others e he)
    -- the target is in the run queue exactly when there is something to remove
    obtain ⟨s₂, runq₂, hcall₂, hsame₂, hrep₂, hin₂⟩ :
        ∃ s₂ runq₂, (∀ fuel, q.runq.length + 1 < fuel →
            s₁.removeIfRunnable fuel (s.domain t) = pure s₂) ∧ SameThreads s₁ s₂ ∧
          Rep s₂ { q with runq := runq₂ } ∧ ∀ e, e ∈ runq₂ ↔ e ∈ runq₁ ∧ e ≠ s.domain t := by
      simp only [Sched.removeIfRunnable]
      by_cases hthr : q.thr (s.domain t) = []
      · have hcond := mt (hrep₁.first_ne_none _).mp (not_not.mpr hthr)
        refine ⟨s₁, runq₁, fun _ _ => if_neg hcond, SameThreads.refl s₁, hrep₁,
          fun e => ⟨fun he => ⟨he, ?_⟩, And.left⟩⟩
        rintro rfl
        exact (hin₁ _).mp he hthr
      · simp only [if_pos ((hrep₁.first_ne_none _).mpr hthr)]
        obtain ⟨next, h, hcall, hqueue, -⟩ := unlink_spec
          (Stop.assertion "to == domain_runqueue.last") [] hrep₁.domains hrep₁.domains.chain
          ((hin₁ _).mpr hthr)
        refine ⟨{ s₁ with domainNext := next, domainRunqueue := h }, runq₁.erase (s.domain t), ?_,
          ⟨rfl, rfl, rfl, rfl⟩, ⟨hqueue, hrep₁.threads, hrep₁.own⟩, fun e => ?_⟩
        · intro fuel hfuel
          rw [show unlink _ s₁.domainNext s₁.domainRunqueue (s.domain t) fuel none _ = _ from
            hcall fuel (show runq₁.length < fuel by omega)]
          rfl
        · rw [hrep₁.domains.nodup.mem_erase_iff]
          exact and_comm
    have hsame := hsame₁.trans hsame₂
    have hcurdom : (s₂.switchTo t).curdom = s.domain t := by
      show s₂.domain t = s.domain t
      rw [hsame.domain]
    refine ⟨s₂, runq₂, ?_, hsame, hq.of_rep hsame.domain hsame.state hsame.interrupted
      (hrep₂.switchTo t) (fun _ _ => hq.member) ?_ ?_⟩
    · have hends : s₂.domainRunqueue.first = none ↔ s₂.domainRunqueue.last = none :=
        hrep₂.domains.first_eq_none.trans hrep₂.domains.last_eq_none.symm
      intro fuel hfuel
      rw [assert_pos trivial, pure_bind, hcall₁ fuel (Nat.lt_of_succ_lt hfuel), pure_bind,
        hcall₂ fuel hfuel, pure_bind]
      by_cases hend : s₂.domainRunqueue.first = none
      · simp [hend, hends.mp hend, assert]
      · simp [hend, mt hends.mpr hend]
    · rw [hcurdom]
      exact fun h => ((hin₂ _).mp h).2 rfl
    · intro e he
      rw [hcurdom] at he
      exact (hin₂ e).trans ((and_iff_left he).trans (hin₁ e))

/-! ## One operation -/

theorem ThreadState.ne_runnable_of_isBlocked {st : ThreadState} (h : st.isBlocked = true) :
    st ≠ .runnable := by
  rintro rfl
  cases h

namespace Running

/-- A thread that is not runnable is in no queue, is not interrupted and is not the idle thread. -/
theorem fresh (hr : Running cfg s q) {t : Thread} (ht : s.state t ≠ .runnable) :
    (∀ d, t ∉ q.thr d) ∧ t ≠ cfg.idle ∧ ¬ s.isVictim t := by
  refine ⟨fun d hd => ht (hr.runnable d t hd), ?_, fun hv => ht (hr.victim_runnable t hv)⟩
  rintro rfl
  exact ht hr.idle_runnable

theorem current_fresh (hr : Running cfg s q) (hidle : s.curthr ≠ cfg.idle) :
    (∀ d, s.curthr ∉ q.thr d) ∧ s.curthr ≠ cfg.idle ∧ ¬ s.isVictim s.curthr :=
  ⟨hr.cur_notMem, hidle, fun hv => hidle (hr.cur_victim hv)⟩

/-- Making a new thread runnable and queueing it keeps the invariant. -/
theorem unblock (hr : Running cfg s q) {n : Nat} {t : Thread} (ht : s.state t ≠ .runnable)
    (hn : q.Within n) :
    ∃ s' q', (∀ fuel, n ≤ fuel → s.threadunblock fuel t = pure s') ∧ Running cfg s' q' ∧
      s'.state = Function.update s.state t .runnable := by
  obtain ⟨hout, hidle, hvictim⟩ := hr.fresh ht
  have hset := hr.toQueued.setState t .runnable (Or.inl rfl)
  obtain ⟨s', q', hcall, hsame, hq', -, hmem⟩ :=
    hset.unblocked (Function.update_self ..) hidle hvictim hout hn
  have hne : s.curthr ≠ t := fun h => ht (h ▸ hr.cur_runnable)
  have hv : ∀ x, s'.isVictim x ↔ s.isVictim x := Sched.isVictim_congr hsame.interrupted
  have hcur : s'.curthr = s.curthr := hsame.curthr
  refine ⟨s', q', hcall, ⟨hq', ?_, ?_, ?_, ?_⟩, hsame.state⟩
  · intro x hx hxc
    by_cases hxt : x = t
    · subst hxt
      exact accounted_of_mem ((hmem _ x).mpr (Or.inr ⟨rfl, rfl⟩)) (by rw [hsame.domain])
    · rw [hsame.state, show (s.setState t .runnable).state x = s.state x from
        Function.update_of_ne hxt _ _] at hx
      exact (hr.complete x hx (hcur ▸ hxc)).mono hsame.domain hsame.interrupted
        fun d hd => (hmem d x).mpr (Or.inl hd)
  · rw [hsame.state, hcur, show (s.setState t .runnable).state s.curthr = s.state s.curthr from
      Function.update_of_ne hne _ _]
    exact hr.cur_runnable
  · intro d hd
    rw [hcur] at hd
    rcases (hmem d _).mp hd with h | h
    · exact hr.cur_notMem d h
    · exact hne h.1
  · rw [hcur]
    exact fun h => hr.cur_victim ((hv _).mp h)

/-- The current thread blocks or dies: it is no longer runnable. -/
theorem park (hr : Running cfg s q) (hidle : s.curthr ≠ cfg.idle) (st : ThreadState)
    (hst : st ≠ .runnable) : Parked cfg (s.setState s.curthr st) q := by
  refine ⟨hr.toQueued.setState _ _ (Or.inr (hr.current_fresh hidle)), fun x hx => ?_⟩
  by_cases hxc : x = s.curthr
  · subst hxc
    exact absurd ((Function.update_self ..).symm.trans hx) hst
  · refine hr.complete x ?_ hxc
    rwa [show (s.setState s.curthr st).state x = s.state x from
      Function.update_of_ne hxc _ _] at hx

/-- The current thread joins the end of its domain's queue, its domain staying where it is. -/
theorem requeue (hr : Running cfg s q) (hidle : s.curthr ≠ cfg.idle) {n : Nat} (hn : q.Within n) :
    ∃ q', Parked cfg (s.threadrunqAppend s.curdom s.curthr).2 q' ∧ q'.Within (n + 1) := by
  obtain ⟨hout, -, hvictim⟩ := hr.current_fresh hidle
  obtain ⟨s', q', hcall, hsame, hq', hwithin, hmem⟩ :=
    hr.toQueued.unblocked hr.cur_runnable hidle hvictim hout hn
  -- the domain of the thread is the current one, so `Sched_unblocked` does no more than append
  have heq : s' = (s.threadrunqAppend s.curdom s.curthr).2 := by
    have happend : s.unblocked n s.curthr = pure (s.threadrunqAppend s.curdom s.curthr).2 :=
      if_neg fun h => h.2 rfl
    exact eq_of_pure_eq ((hcall n (Nat.le_refl n)).symm.trans happend)
  refine ⟨q', heq ▸ ⟨hq', fun x hx => ?_⟩, hwithin⟩
  by_cases hxc : x = s.curthr
  · subst hxc
    exact accounted_of_mem ((hmem _ _).mpr (Or.inr ⟨rfl, rfl⟩)) (by rw [hsame.domain])
  · rw [hsame.state] at hx
    exact (hr.complete x hx hxc).mono hsame.domain hsame.interrupted
      fun d hd => (hmem d x).mpr (Or.inl hd)

end Running

/-- A blocked thread is unblocked while the current thread is being given up. -/
theorem Parked.unblock (hp : Parked cfg s q) {n : Nat} {t : Thread} (ht : s.state t ≠ .runnable)
    (hn : q.Within n) :
    ∃ s' q', (∀ fuel, n ≤ fuel → s.threadunblock fuel t = pure s') ∧ Parked cfg s' q' ∧
      q'.Within (n + 1) ∧ s'.state = Function.update s.state t .runnable := by
  have hout : ∀ d, t ∉ q.thr d := fun d hd => ht (hp.runnable d t hd)
  have hidle : t ≠ cfg.idle := fun h => ht (h ▸ hp.idle_runnable)
  have hvictim : ¬ s.isVictim t := fun hv => ht (hp.victim_runnable t hv)
  have hset := hp.toQueued.setState t .runnable (Or.inl rfl)
  obtain ⟨s', q', hcall, hsame, hq', hwithin, hmem⟩ :=
    hset.unblocked (Function.update_self ..) hidle hvictim hout hn
  refine ⟨s', q', hcall, ⟨hq', fun x hx => ?_⟩, hwithin, hsame.state⟩
  by_cases hxt : x = t
  · subst hxt
    exact accounted_of_mem ((hmem _ x).mpr (Or.inr ⟨rfl, rfl⟩)) (by rw [hsame.domain])
  · rw [hsame.state, show (s.setState t .runnable).state x = s.state x from
      Function.update_of_ne hxt _ _] at hx
    exact (hp.complete x hx).mono hsame.domain hsame.interrupted
      fun d hd => (hmem d x).mpr (Or.inl hd)

/-! ## Every operation -/

/-- The call comes back with the threads in the states `st`, and the invariant holds again. -/
def Restores (cfg : Config) (call : Nat → Exec Sched) (st : Thread → ThreadState) : Prop :=
  ∃ s' q', Returns call s' ∧ Running cfg s' q' ∧ s'.state = st

namespace Running

/-- Only the current domain and the queued ones have threads, so there is a longest queue. -/
theorem exists_within (hr : Running cfg s q) : ∃ n, q.Within n := by
  obtain ⟨n, hn⟩ : ∃ n, ∀ d ∈ s.curdom :: q.runq, (q.thr d).length < n := by
    induction s.curdom :: q.runq with
    | nil => exact ⟨0, fun d hd => absurd hd List.not_mem_nil⟩
    | cons e l ih =>
      obtain ⟨n, hn⟩ := ih
      refine ⟨n + (q.thr e).length + 1, fun d hd => ?_⟩
      rcases List.mem_cons.mp hd with rfl | hd
      · omega
      · have hlt := hn d hd
        omega
  refine ⟨n + q.runq.length + 1, by omega, fun d => ?_⟩
  by_cases hd : d ∈ s.curdom :: q.runq
  · have hlt := hn d hd
    omega
  · obtain ⟨hcur, hrunq⟩ := not_or.mp (List.mem_cons.not.mp hd)
    have hnil : q.thr d = [] := not_not.mp (mt (hr.others d hcur).mpr hrunq)
    rw [hnil, List.length_nil]
    omega

theorem yield (hr : Running cfg s q) :
    Restores cfg (fun fuel => s.threadyield cfg fuel) s.state := by
  obtain ⟨n, hn⟩ := hr.exists_within
  by_cases hidle : s.curthr = cfg.idle
  · have hp : Parked cfg s q := by
      refine ⟨hr.toQueued, fun t ht => ?_⟩
      by_cases htc : t = s.curthr
      · exact Or.inl (htc.trans hidle)
      · exact hr.complete t ht htc
    obtain ⟨s', q', hcall, hrun, hstate⟩ := hp.switchToNextThread
    refine ⟨s', q', ⟨n, fun fuel hfuel => ?_⟩, hrun, hstate⟩
    show (s.yielded cfg s.curthr).switchToNextThread cfg fuel = _
    rw [Sched.yielded, if_pos hidle]
    exact hcall fuel (hn.mono hfuel)
  · obtain ⟨q₁, hp, hn₁⟩ := hr.requeue hidle hn
    obtain ⟨s', q', hcall, hrun, hstate⟩ := hp.switchToNextThread
    refine ⟨s', q', ⟨n + 1, fun fuel hfuel => ?_⟩, hrun, hstate⟩
    show (s.yielded cfg s.curthr).switchToNextThread cfg fuel = _
    rw [Sched.yielded, if_neg hidle]
    exact hcall fuel (hn₁.mono hfuel)

theorem block (hr : Running cfg s q) (hidle : s.curthr ≠ cfg.idle) {st : ThreadState}
    (hst : st ≠ .runnable) :
    Restores cfg (fun fuel => s.block cfg fuel st) (Function.update s.state s.curthr st) := by
  obtain ⟨n, hn⟩ := hr.exists_within
  obtain ⟨s', q', hcall, hrun, hsame⟩ := (hr.park hidle st hst).switchToNextThread
  refine ⟨s', q', ⟨n, fun fuel hfuel => ?_⟩, hrun, hsame⟩
  have hstate : (s.setState s.curthr st).state (s.setState s.curthr st).curthr ≠ .runnable := by
    show Function.update s.state s.curthr st s.curthr ≠ .runnable
    rwa [Function.update_self]
  simp only [Sched.block, assert_pos hstate, pure_bind]
  exact hcall fuel (hn.mono hfuel)

theorem destroyCurrent (hr : Running cfg s q) (hidle : s.curthr ≠ cfg.idle) :
    Restores cfg (fun fuel => s.destroyCurrentThread cfg fuel)
      (Function.update s.state s.curthr .zombie) := by
  obtain ⟨n, hn⟩ := hr.exists_within
  obtain ⟨s', q', hcall, hrun⟩ := (hr.park hidle .zombie (by decide)).switchToNextThread
  exact ⟨s', q', ⟨n, fun fuel hfuel => hcall fuel (hn.mono hfuel)⟩, hrun⟩

theorem handoffToReceiver (hr : Running cfg s q) (hidle : s.curthr ≠ cfg.idle) {receiver : Thread}
    (hblocked : s.state receiver ≠ .runnable) :
    Restores cfg (fun fuel => s.portalHandoffToReceiver cfg fuel receiver)
      (Function.update (Function.update s.state s.curthr .portalWaitForRet) receiver .runnable) := by
  obtain ⟨n, hn⟩ := hr.exists_within
  have hp := hr.park hidle .portalWaitForRet (by decide)
  have hne : receiver ≠ s.curthr := fun h => hblocked (h ▸ hr.cur_runnable)
  have hwait : (s.setState s.curthr .portalWaitForRet).state receiver ≠ .runnable := by
    rwa [show (s.setState s.curthr .portalWaitForRet).state receiver = s.state receiver from
      Function.update_of_ne hne _ _]
  obtain ⟨s₁, q₁, hcall₁, hp₁, hn₁, hstate₁⟩ := hp.unblock hwait hn
  obtain ⟨s', q', hcall, hrun, hstate⟩ := hp₁.switchToNextThread
  refine ⟨s', q', ⟨n + 1, fun fuel hfuel => ?_⟩, hrun, hstate.trans hstate₁⟩
  -- the receiver's state is set here and once more by `threadunblock`
  have htwice : ((s.setState s.curthr .portalWaitForRet).setState receiver
      .runnable).threadunblock fuel receiver = pure s₁ := by
    rw [← hcall₁ fuel (Nat.le_of_succ_le hfuel), Sched.threadunblock, Sched.threadunblock,
      Sched.setState, Sched.setState, Function.update_idem]
  simp only [Sched.portalHandoffToReceiver, htwice, pure_bind]
  exact hcall fuel (hn₁.mono hfuel)

/-- A parked thread unblocks its sender and gives up the processor. -/
theorem handoff_of_parked {s : Sched} {q : Queues} (hp : Parked cfg s q) {n : Nat}
    (hn : q.Within n) {sender : Thread} (hblocked : s.state sender ≠ .runnable) :
    Restores cfg (fun fuel =>
      s.threadunblock fuel sender >>= fun s => s.switchToNextThread cfg fuel)
      (Function.update s.state sender .runnable) := by
  obtain ⟨s₁, q₁, hcall₁, hp₁, hn₁, hstate₁⟩ := hp.unblock hblocked hn
  obtain ⟨s', q', hcall, hrun, hstate⟩ := hp₁.switchToNextThread
  refine ⟨s', q', ⟨n + 1, fun fuel hfuel => ?_⟩, hrun, hstate.trans hstate₁⟩
  simp only [hcall₁ fuel (Nat.le_of_succ_le hfuel), pure_bind]
  exact hcall fuel (hn₁.mono hfuel)

theorem handoffToSender (hr : Running cfg s q) (hidle : s.curthr ≠ cfg.idle) {sender : Thread}
    (hblocked : s.state sender ≠ .runnable) (isRunnable : Bool) :
    Restores cfg (fun fuel => s.portalHandoffToSender cfg fuel sender isRunnable)
      (Function.update (Function.update s.state s.curthr
        (if isRunnable then .runnable else .portalWaitForSnd)) sender .runnable) := by
  obtain ⟨n, hn⟩ := hr.exists_within
  cases isRunnable with
  | true =>
    have hset : s.setState s.curthr .runnable = s := by
      rw [Sched.setState, ← hr.cur_runnable, Function.update_eq_self]
    obtain ⟨q₁, hp, hn₁⟩ := hr.requeue hidle hn
    have hself : Function.update s.state s.curthr .runnable = s.state := congrArg Sched.state hset
    simp only [Sched.portalHandoffToSender, if_true, hset, hself]
    exact handoff_of_parked hp hn₁ hblocked
  | false =>
    have hne : sender ≠ s.curthr := fun h => hblocked (h ▸ hr.cur_runnable)
    have hp := hr.park hidle .portalWaitForSnd (by decide)
    refine handoff_of_parked hp hn ?_
    rwa [show (s.setState s.curthr .portalWaitForSnd).state sender = s.state sender from
      Function.update_of_ne hne _ _]

theorem destroyHandoffToSender (hr : Running cfg s q) (hidle : s.curthr ≠ cfg.idle)
    {sender : Thread} (hblocked : s.state sender ≠ .runnable) :
    Restores cfg (fun fuel => s.portalDestroyHandoffToSender cfg fuel sender)
      (Function.update s.state sender .runnable) := by
  obtain ⟨n, hn⟩ := hr.exists_within
  obtain ⟨q₁, hp, hn₁⟩ := hr.requeue hidle hn
  exact handoff_of_parked hp hn₁ hblocked

/-- A thread that is not runnable may change to another such state. -/
theorem setState (hr : Running cfg s q) {t : Thread} {st : ThreadState}
    (ht : s.state t ≠ .runnable) (hst : st ≠ .runnable) : Running cfg (s.setState t st) q := by
  have hne : s.curthr ≠ t := fun h => ht (h ▸ hr.cur_runnable)
  refine ⟨hr.toQueued.setState _ _ (Or.inr (hr.fresh ht)), fun x hx hxc => ?_, ?_, hr.cur_notMem,
    hr.cur_victim⟩
  · by_cases hxt : x = t
    · subst hxt
      exact absurd ((Function.update_self ..).symm.trans hx) hst
    · refine hr.complete x ?_ hxc
      rwa [show (s.setState t st).state x = s.state x from Function.update_of_ne hxt _ _] at hx
  · show Function.update s.state t st s.curthr = .runnable
    rw [Function.update_of_ne hne]
    exact hr.cur_runnable

/-- Clearing the link of a thread outside every queue is invisible. -/
theorem clearLink (hr : Running cfg s q) {t : Thread} (ht : ∀ d, t ∉ q.thr d) :
    Running cfg { s with threadNext := Function.update s.threadNext t none } q := by
  have hrep : Rep { s with threadNext := Function.update s.threadNext t none } q := by
    refine ⟨hr.rep.domains, fun d => (hr.rep.threads d).congr fun x hx => ?_, hr.rep.own⟩
    refine Function.update_of_ne ?_ _ _
    rintro rfl
    exact ht d hx
  exact ⟨hr.toQueued.of_rep rfl rfl rfl hrep (fun _ _ => hr.toQueued.member) hr.current hr.others,
    hr.complete, hr.cur_runnable, hr.cur_notMem, hr.cur_victim⟩

theorem unblock_restores (hr : Running cfg s q) {t : Thread} (ht : s.state t ≠ .runnable) :
    Restores cfg (fun fuel => s.threadunblock fuel t) (Function.update s.state t .runnable) := by
  obtain ⟨n, hn⟩ := hr.exists_within
  obtain ⟨s', q', hcall, hrun⟩ := hr.unblock ht hn
  exact ⟨s', q', ⟨n, hcall⟩, hrun⟩

theorem createThread (hr : Running cfg s q) {t : Thread} {st : ThreadState}
    {param : Sched.CreateParam} (ht : s.state t ≠ .runnable)
    (hparam : param = .default ∧ st = .runnable ∨ param = .norunq ∧ st ≠ .runnable) :
    Restores cfg (fun fuel => s.createThread fuel t st param) (Function.update s.state t st) := by
  have hclear := hr.clearLink (hr.fresh ht).1
  rcases hparam with ⟨rfl, rfl⟩ | ⟨rfl, hst⟩
  · exact hclear.unblock_restores ht
  · exact ⟨_, q, ⟨0, fun fuel _ => rfl⟩, hclear.setState ht hst, rfl⟩

theorem start (hr : Running cfg s q) (t : Thread) :
    Restores cfg (fun fuel => s.cpuManagerStart fuel t)
      (if s.state t = .init then Function.update s.state t .runnable else s.state) := by
  by_cases hinit : s.state t = .init
  · have ht : s.state t ≠ .runnable := by
      rw [hinit]
      decide
    simp only [Sched.cpuManagerStart, hinit, ne_eq, not_true_eq_false, if_false, if_true]
    exact hr.unblock_restores ht
  · exact ⟨s, q, ⟨0, fun fuel _ => if_pos hinit⟩, hr, (if_neg hinit).symm⟩

theorem reschedule (hr : Running cfg s q) :
    Restores cfg (fun fuel => s.reschedule cfg fuel) s.state := by
  obtain ⟨n, hn⟩ := hr.exists_within
  simp only [Sched.reschedule]
  rcases hr.toQueued.removeFirstOrNull with ⟨hcall, -⟩ | ⟨next, s₁, q₁, hcall, hc, hwithin⟩
  · refine ⟨s, q, ⟨n, fun fuel hfuel => ?_⟩, hr, rfl⟩
    simp only [hcall fuel (hn.mono hfuel), pure_bind]
  · have hcur : s₁.curthr = s.curthr := hc.same.curthr
    have hne : s₁.curthr ≠ next := by
      rw [hcur]
      rintro rfl
      exact hr.cur_notMem _ hc.was
    have hout₁ : ∀ d, next ∉ q₁.thr d := fun d hd => ((hc.mem d next).mp hd).2 rfl
    have hstate : s₁.state = s.state := hc.same.state
    by_cases hidle : s.curthr = cfg.idle
    · -- the idle thread is simply left
      refine ⟨_, q₁, ⟨n, fun fuel hfuel => ?_⟩, hc.running hr.toQueued fun x hx _ => ?_, hstate⟩
      · have hsame : s₁.requeueCurrent cfg fuel next = pure s₁ := if_neg (by simp [hcur, hidle])
        simp only [hcall fuel (hn.mono hfuel), pure_bind, hsame, assert_pos hne,
          hc.queued.rep.of_switchTo.checkNotInRunq hout₁ (hwithin fuel (hn.mono hfuel))]
      · by_cases hxc : x = s.curthr
        · exact Or.inl (hxc.trans hidle)
        · exact hr.complete x hx hxc
    · -- any other thread is queued before the switch
      obtain ⟨hout, -, hvictim⟩ := hr.current_fresh hidle
      have hv : ∀ x, s₁.isVictim x ↔ s.isVictim x := Sched.isVictim_congr hc.same.interrupted
      obtain ⟨s₂, q₂, hcall₂, hsame₂, hq₂, hn₂, hmem₂⟩ := Queued.enqueue (t := s₁.curthr) hc.queued
        (by rw [hstate, hcur]; exact hr.cur_runnable) (by rw [hcur]; exact hidle)
        (by rw [hv, hcur]; exact hvictim)
        (fun d hd => hout d (by rw [← hcur]; exact ((hc.mem d _).mp hd).1)) (hwithin n hn)
      have hsame := hc.same.trans hsame₂
      have hout₂ : ∀ d, next ∉ q₂.thr d := by
        intro d hd
        rcases (hmem₂ d next).mp hd with h | h
        · exact hout₁ d h
        · exact hne h.1.symm
      refine ⟨s₂.switchTo next, q₂, ⟨n + 1, fun fuel hfuel => ?_⟩, ⟨hq₂, ?_, ?_, hout₂, ?_⟩,
        hsame.state⟩
      · have hfuel' : n ≤ fuel := Nat.le_of_succ_le hfuel
        have hrequeue : s₁.requeueCurrent cfg fuel next = pure s₂ := by
          rw [Sched.requeueCurrent, if_pos (by rw [hcur]; exact hidle)]
          exact hcall₂ fuel hfuel'
        have hne₂ : s₂.curthr ≠ next := by
          rw [hsame₂.curthr]
          exact hne
        simp only [hcall fuel (hn.mono hfuel'), pure_bind, hrequeue, assert_pos hne₂,
          hq₂.rep.of_switchTo.checkNotInRunq hout₂ (hn₂.mono hfuel)]
      · intro x hx hxn
        have hold : s.state x = .runnable := by
          rw [← hsame.state]
          exact hx
        by_cases hxc : x = s₁.curthr
        · exact accounted_of_mem ((hmem₂ _ x).mpr (Or.inr ⟨hxc, rfl⟩))
            (by rw [hxc]; exact (congrFun hsame₂.domain _).symm)
        · refine (hr.complete x hold (hcur ▸ hxc)).mono hsame.domain hsame.interrupted ?_
          exact fun d hd => (hmem₂ d x).mpr (Or.inl ((hc.mem d x).mpr ⟨hd, hxn⟩))
      · rw [show (s₂.switchTo next).state = s.state from hsame.state]
        exact hr.runnable _ next hc.was
      · intro hvn
        have hold := (Sched.isVictim_congr (s := s) hsame.interrupted next).mp hvn
        exact absurd hc.was (hr.victim_notMem next hold _)

end Running

/-! ## Interrupts -/

/-- One more interrupted thread. -/
theorem Queued.interrupt (hq : Queued cfg s q) {p : Thread × Thread}
    (hstate : s.state p.2 = .runnable) (hout : ∀ d, p.2 ∉ q.thr d)
    (honce : s.isVictim p.2 → p.2 = cfg.idle) (hhandler : p.1 ≠ cfg.idle) :
    Queued cfg { s with interrupted := p :: s.interrupted } q := by
  have hvictim : ∀ x, Sched.isVictim { s with interrupted := p :: s.interrupted } x →
      p.2 = x ∨ s.isVictim x := by
    rintro x ⟨p', hp', hx⟩
    rcases List.mem_cons.mp hp' with rfl | hp'
    · exact Or.inl hx
    · exact Or.inr ⟨p', hp', hx⟩
  refine ⟨⟨hq.rep.domains, hq.rep.threads, hq.rep.own⟩, hq.runnable, hq.current, hq.others,
    hq.idle_domain, hq.idle_runnable, hq.idle_notMem, ?_, ?_, ?_, ?_⟩
  · intro x hx
    rcases hvictim x hx with rfl | h
    · exact hstate
    · exact hq.victim_runnable x h
  · intro x hx
    rcases hvictim x hx with rfl | h
    · exact hout
    · exact hq.victim_notMem x h
  · refine List.Pairwise.cons (fun p' hp' => ?_) hq.victim_once
    by_cases heq : p.2 = p'.2
    · exact Or.inr (honce ⟨p', hp', heq.symm⟩)
    · exact Or.inl heq
  · intro p' hp'
    rcases List.mem_cons.mp hp' with rfl | hp'
    · exact hhandler
    · exact hq.handler_ne p' hp'

/-- One interrupted thread less. -/
theorem Queued.resume (hq : Queued cfg s q) (p : Thread × Thread) :
    Queued cfg { s with interrupted := s.interrupted.erase p } q := by
  have hsub : ∀ p' ∈ s.interrupted.erase p, p' ∈ s.interrupted := fun _ => List.mem_of_mem_erase
  have hvictim : ∀ x, Sched.isVictim { s with interrupted := s.interrupted.erase p } x →
      s.isVictim x := by
    rintro x ⟨p', hp', hx⟩
    exact ⟨p', hsub p' hp', hx⟩
  exact ⟨⟨hq.rep.domains, hq.rep.threads, hq.rep.own⟩, hq.runnable, hq.current, hq.others,
    hq.idle_domain, hq.idle_runnable, hq.idle_notMem,
    fun x hx => hq.victim_runnable x (hvictim x hx),
    fun x hx => hq.victim_notMem x (hvictim x hx),
    hq.victim_once.sublist List.erase_sublist,
    fun p' hp' => hq.handler_ne p' (hsub p' hp')⟩

namespace Running

theorem activateInterrupt (hr : Running cfg s q) {irqThread : Thread}
    (hirq : s.state irqThread = .available) :
    Restores cfg (fun fuel => s.activateInterruptThread fuel irqThread)
      (Function.update s.state irqThread .runnable) := by
  have hnot : s.state irqThread ≠ .runnable := by
    rw [hirq]
    decide
  have hne : s.curthr ≠ irqThread := fun h => hnot (h ▸ hr.cur_runnable)
  obtain ⟨hout, hidle, hvictim⟩ := hr.fresh hnot
  obtain ⟨s₁, runq, hcall, hsame, hq₁⟩ := hr.toQueued.switchdomainsFor irqThread
  have hv : ∀ x, (s₁.switchTo irqThread).isVictim x ↔ s.isVictim x :=
    Sched.isVictim_congr hsame.interrupted
  have hset : ∀ x, x ≠ irqThread →
      ((s₁.switchTo irqThread).setState irqThread .runnable).state x = s.state x := by
    intro x hx
    rw [← hsame.state]
    exact Function.update_of_ne hx _ _
  have hq₂ : Queued cfg { (s₁.switchTo irqThread).setState irqThread .runnable with
      interrupted := (irqThread, s₁.curthr) :: s₁.interrupted } { q with runq := runq } := by
    refine (hq₁.setState _ _ (Or.inl rfl)).interrupt ?_ ?_ ?_ hidle
    · rw [show (irqThread, s₁.curthr).2 = s.curthr from hsame.curthr, hset _ hne]
      exact hr.cur_runnable
    · rw [show (irqThread, s₁.curthr).2 = s.curthr from hsame.curthr]
      exact hr.cur_notMem
    · rw [show (irqThread, s₁.curthr).2 = s.curthr from hsame.curthr]
      exact fun h => hr.cur_victim ((hv _).mp h)
  refine ⟨_, _, ⟨q.runq.length + 2, fun fuel hfuel => ?_⟩, ⟨hq₂, ?_, ?_, hout, ?_⟩, ?_⟩
  · have havail : s₁.state irqThread = .available := by
      rw [hsame.state]
      exact hirq
    simp only [Sched.activateInterruptThread, hcall fuel hfuel, pure_bind, assert_pos havail]
    rfl
  · intro x hx hxc
    have hxi : x ≠ irqThread := hxc
    have hold : s.state x = .runnable := (hset x hxi).symm.trans hx
    by_cases hxcur : x = s.curthr
    · refine Or.inr (Or.inl ⟨(irqThread, s₁.curthr), List.mem_cons_self .., ?_⟩)
      rw [hxcur]
      exact hsame.curthr
    · rcases hr.complete x hold hxcur with h | ⟨p, hp, h⟩ | h
      · exact Or.inl h
      · exact Or.inr (Or.inl ⟨p, List.mem_cons_of_mem _ (hsame.interrupted ▸ hp), h⟩)
      · exact accounted_of_mem h (congrFun hsame.domain x).symm
  · exact Function.update_self ..
  · rintro ⟨p, hp, h⟩
    rcases List.mem_cons.mp hp with rfl | hp
    · exact absurd (hsame.curthr.symm.trans h) hne
    · exact absurd ⟨p, hsame.interrupted ▸ hp, h⟩ hvictim
  · show Function.update s₁.state irqThread .runnable = _
    rw [hsame.state]

theorem deactivateInterrupt (hr : Running cfg s q) {normalThread : Thread}
    (hpair : (s.curthr, normalThread) ∈ s.interrupted) :
    Restores cfg (fun fuel => s.deactivateInterruptThread fuel normalThread)
      (Function.update s.state s.curthr .available) := by
  have hvictim : s.isVictim normalThread := ⟨_, hpair, rfl⟩
  have hidle : s.curthr ≠ cfg.idle := hr.handler_ne _ hpair
  obtain ⟨hout, -, hcurvictim⟩ := hr.current_fresh hidle
  have hne : normalThread ≠ s.curthr := fun h => hcurvictim (h ▸ hvictim)
  obtain ⟨s₁, runq, hcall, hsame, hq₁⟩ := hr.toQueued.switchdomainsFor normalThread
  have hcur : s₁.curthr = s.curthr := hsame.curthr
  have hv : ∀ x, (s₁.switchTo normalThread).isVictim x ↔ s.isVictim x :=
    Sched.isVictim_congr hsame.interrupted
  have hset : ∀ x, x ≠ s.curthr →
      ((s₁.switchTo normalThread).setState s₁.curthr .available).state x = s.state x := by
    intro x hx
    rw [← hsame.state]
    exact Function.update_of_ne (hcur ▸ hx) _ _
  have hq₂ := (hq₁.setState s₁.curthr .available (Or.inr ⟨hcur ▸ hout, hcur ▸ hidle,
    fun h => hcurvictim ((hv _).mp (hcur ▸ h))⟩)).resume (s₁.curthr, normalThread)
  have hint : s₁.interrupted.erase (s₁.curthr, normalThread) =
      s.interrupted.erase (s.curthr, normalThread) := by
    rw [hcur, hsame.interrupted]
  refine ⟨_, _, ⟨q.runq.length + 2, fun fuel hfuel => ?_⟩, ⟨hq₂, ?_, ?_, ?_, ?_⟩, ?_⟩
  · have hrun : s₁.state s₁.curthr = .runnable := by
      rw [hcur, hsame.state]
      exact hr.cur_runnable
    simp only [Sched.deactivateInterruptThread, hcall fuel hfuel, pure_bind, assert_pos hrun]
    rfl
  · intro x hx hxn
    have hxn' : x ≠ normalThread := hxn
    have hxc : x ≠ s.curthr := by
      rintro rfl
      rw [← hcur] at hx
      exact absurd ((Function.update_self ..).symm.trans hx) (by decide)
    have hold : s.state x = .runnable := (hset x hxc).symm.trans hx
    rcases hr.complete x hold hxc with h | ⟨p, hp, h⟩ | h
    · exact Or.inl h
    · refine Or.inr (Or.inl ⟨p, ?_, h⟩)
      have hpne : p ≠ (s.curthr, normalThread) := by
        rintro rfl
        exact hxn' h.symm
      show p ∈ s₁.interrupted.erase (s₁.curthr, normalThread)
      rw [hint]
      exact (List.mem_erase_of_ne hpne).mpr hp
    · exact accounted_of_mem h (congrFun hsame.domain x).symm
  · exact (hset normalThread hne).trans (hr.victim_runnable normalThread hvictim)
  · exact hr.victim_notMem normalThread hvictim
  · -- the pairs that remain were interrupted threads different from this one
    rintro ⟨p, hp, h⟩
    have hp' : p ∈ s.interrupted.erase (s.curthr, normalThread) := hint ▸ hp
    have hsymm : ∀ {p p' : Thread × Thread}, (p.2 ≠ p'.2 ∨ p.2 = cfg.idle) →
        (p'.2 ≠ p.2 ∨ p'.2 = cfg.idle) := by
      rintro p p' (h | h)
      · exact Or.inl (Ne.symm h)
      · by_cases heq : p'.2 = p.2
        · exact Or.inr (heq.trans h)
        · exact Or.inl heq
    have hsplit := ((List.perm_cons_erase hpair).pairwise_iff hsymm).mp hr.victim_once
    exact (List.rel_of_pairwise_cons hsplit hp').resolve_left fun hne => hne h.symm
  · show Function.update s₁.state s₁.curthr .available = _
    rw [hsame.state, hcur]

end Running

/-! ## Every run -/

theorem running_of_initial (h : Initial cfg s) : Running cfg s ⟨[], fun _ => []⟩ := by
  have hvictim : ∀ t, ¬ s.isVictim t := by
    rintro t ⟨p, hp, -⟩
    rw [h.not_interrupted] at hp
    cases hp
  have hrep : Rep s ⟨[], fun _ => []⟩ := by
    refine ⟨h.runq_empty ▸ IsQueue.nil_intro _, fun d => ?_, by simp⟩
    rw [h.thread_empty d]
    exact IsQueue.nil_intro _
  refine ⟨⟨hrep, by simp, by simp, by simp, h.idle_domain, (h.runnable _).mpr (Or.inr rfl), by simp,
    fun t ht => absurd ht (hvictim t), fun t ht => absurd ht (hvictim t), ?_, ?_⟩, ?_,
    (h.runnable _).mpr (Or.inl rfl), by simp, fun hv => absurd hv (hvictim _)⟩
  · rw [h.not_interrupted]
    exact List.Pairwise.nil
  · rw [h.not_interrupted]
    simp
  · intro t ht htc
    exact Or.inl (((h.runnable t).mp ht).resolve_left htc)

/-- What a call does to the states of the threads. -/
def stateAfter (s : Sched) : Op → Thread → ThreadState
  | .createThread t st _ => Function.update s.state t st
  | .start t => if s.state t = .init then Function.update s.state t .runnable else s.state
  | .unblock t => Function.update s.state t .runnable
  | .yield | .blockReturn | .reschedule => s.state
  | .block st => Function.update s.state s.curthr st
  | .handoffToReceiver receiver =>
    Function.update (Function.update s.state s.curthr .portalWaitForRet) receiver .runnable
  | .handoffToSender sender isRunnable =>
    Function.update (Function.update s.state s.curthr
      (if isRunnable then .runnable else .portalWaitForSnd)) sender .runnable
  | .destroyHandoffToSender sender => Function.update s.state sender .runnable
  | .activateInterrupt irqThread => Function.update s.state irqThread .runnable
  | .deactivateInterrupt _ => Function.update s.state s.curthr .available
  | .destroyCurrent => Function.update s.state s.curthr .zombie

/-- Every permitted call comes back, without a panic or a failed assertion, and restores the
invariant. -/
theorem Running.exec (hr : Running cfg s q) {op : Op} (hop : Permitted cfg s op) :
    Restores cfg (exec cfg op s) (stateAfter s op) := by
  have hblocked : ∀ {t}, (s.state t).isBlocked = true → s.state t ≠ .runnable :=
    ThreadState.ne_runnable_of_isBlocked
  cases op with
  | createThread t st param =>
    obtain ⟨hunborn, hparam⟩ := hop
    refine hr.createThread (by rw [hunborn]; decide) ?_
    rcases hparam with h | ⟨h, rfl | rfl⟩
    · exact Or.inl h
    · exact Or.inr ⟨h, by decide⟩
    · exact Or.inr ⟨h, by decide⟩
  | start t => exact hr.start t
  | unblock t => exact hr.unblock_restores (hblocked hop)
  | yield => exact hr.yield
  | block st => exact hr.block hop.2 (ThreadState.ne_runnable_of_isBlocked hop.1)
  | blockReturn =>
    have hset : s.blockReturn = s := by
      rw [Sched.blockReturn, Sched.setState, ← hr.cur_runnable, Function.update_eq_self]
    exact ⟨s, q, ⟨0, fun _ _ => congrArg pure hset⟩, hr, rfl⟩
  | reschedule => exact hr.reschedule
  | handoffToReceiver receiver => exact hr.handoffToReceiver hop.2 (hblocked hop.1)
  | handoffToSender sender isRunnable =>
    exact hr.handoffToSender hop.2 (hblocked hop.1) isRunnable
  | destroyHandoffToSender sender => exact hr.destroyHandoffToSender hop.2 (hblocked hop.1)
  | activateInterrupt irqThread => exact hr.activateInterrupt hop
  | deactivateInterrupt normalThread => exact hr.deactivateInterrupt hop
  | destroyCurrent => exact hr.destroyCurrent hop

theorem Reach.running (h : Reach cfg s) : ∃ q, Running cfg s q := by
  induction h with
  | init h => exact ⟨_, running_of_initial h⟩
  | step _ hop hret ih =>
    obtain ⟨q, hr⟩ := ih
    obtain ⟨s'', q', hret', hr', -⟩ := hr.exec hop
    rw [hret.unique hret']
    exact ⟨q', hr'⟩

/-- **The scheduler invariant**, in terms of the pointers and the lists they stand for. -/
structure Consistent (cfg : Config) (s : Sched) (q : Queues) : Prop where
  /-- `domain_runqueue` is a well-formed list and `last` its last element. -/
  domains : IsQueue s.domainNext s.domainRunqueue q.runq
  domains_last : s.domainRunqueue.last = none ↔ q.runq = []
  /-- So is the run queue of each domain. -/
  threads : ∀ d, IsQueue s.threadNext (s.threadQueue d) (q.thr d)
  threads_last : ∀ d, (s.threadQueue d).last = none ↔ q.thr d = []
  /-- The current domain is not queued, any other exactly when it has runnable threads. -/
  current : s.curdom ∉ q.runq
  others : ∀ d, d ≠ s.curdom → q.runq.count d = if q.thr d = [] then 0 else 1
  /-- A thread is queued at most once, in its own domain's queue, and not while it runs. -/
  own : ∀ d, ∀ t ∈ q.thr d, s.domain t = d ∧ (q.thr d).count t = 1
  not_running : ∀ d, s.curthr ∉ q.thr d
  idle_notMem : ∀ d, cfg.idle ∉ q.thr d
  /-- Only the current thread, interrupted ones and the idle thread are runnable and not queued. -/
  complete : ∀ t, s.state t = .runnable → t ≠ s.curthr → ¬ s.isVictim t → t ≠ cfg.idle →
    t ∈ q.thr (s.domain t)

theorem Running.consistent (hr : Running cfg s q) : Consistent cfg s q where
  domains := hr.rep.domains
  domains_last := hr.rep.domains.last_eq_none
  threads := hr.rep.threads
  threads_last := fun d => (hr.rep.threads d).last_eq_none
  current := hr.current
  others := by
    intro d hd
    have hiff := hr.others d hd
    by_cases hthr : q.thr d = []
    · rw [if_pos hthr]
      exact List.count_eq_zero.mpr fun h => hiff.mp h hthr
    · rw [if_neg hthr]
      exact List.count_eq_one_of_mem hr.rep.domains.nodup (hiff.mpr hthr)
  own := fun d t ht =>
    ⟨hr.rep.own d t ht, List.count_eq_one_of_mem (hr.rep.threads d).nodup ht⟩
  not_running := hr.cur_notMem
  idle_notMem := hr.idle_notMem
  complete := by
    intro t ht hcur hvictim hidle
    rcases hr.complete t ht hcur with h | h | h
    · exact absurd h hidle
    · exact absurd h hvictim
    · exact h

/-- After every operation of every run the queues are consistent, and the next permitted operation
comes back without a panic. -/
theorem consistent_of_reach (h : Reach cfg s) : (∃ q, Consistent cfg s q) ∧
    ∀ op, Permitted cfg s op → ∃ s', Returns (exec cfg op s) s' := by
  obtain ⟨q, hr⟩ := h.running
  refine ⟨⟨q, hr.consistent⟩, fun op hop => ?_⟩
  obtain ⟨s', _, hret, -⟩ := hr.exec hop
  exact ⟨s', hret⟩

/-- Thread 1 of domain zero creates thread 2 in another domain and is preempted by it. -/
theorem consistent_after_preemption : ∃ s : Sched, Reach ⟨0, 0, [0, 7]⟩ s ∧ s.curthr = 2 ∧
    s.domainRunqueue = ⟨some 0, some 0⟩ ∧ s.threadQueue 0 = ⟨some 1, some 1⟩ ∧
    ∃ q, Consistent ⟨0, 0, [0, 7]⟩ s q := by
  have h₀ : Reach ⟨0, 0, [0, 7]⟩
      { domain := fun t => if t = 2 then 7 else 0
        state := fun t => if t ≤ 1 then .runnable else .unborn
        threadNext := fun _ => none
        threadQueue := fun _ => ⟨none, none⟩
        domainNext := fun _ => none
        domainRunqueue := ⟨none, none⟩
        curthr := 1
        interrupted := [] } := by
    refine Reach.init ⟨rfl, fun _ => rfl, rfl, rfl, fun t => ?_⟩
    show (if t ≤ 1 then ThreadState.runnable else .unborn) = .runnable ↔ t = 1 ∨ t = 0
    rw [or_comm, ← Nat.le_one_iff_eq_zero_or_eq_one]
    by_cases ht : t ≤ 1 <;> simp [ht]
  have h₁ := h₀.step
    (show Permitted _ _ (.createThread 2 .runnable .default) from ⟨rfl, Or.inl ⟨rfl, rfl⟩⟩)
    ⟨2, fun fuel hfuel => by
      obtain ⟨k, rfl⟩ := Nat.exists_eq_add_of_le' hfuel
      rfl⟩
  have h₂ := h₁.step (show Permitted _ _ .reschedule from trivial)
    ⟨4, fun fuel hfuel => by
      obtain ⟨k, rfl⟩ := Nat.exists_eq_add_of_le' hfuel
      rfl⟩
  exact ⟨_, h₂, rfl, rfl, rfl, (consistent_of_reach h₂).1⟩

end JxCore.Runq
