import JxCore.Core.RunqMachine

/-!
# No runnable thread waits for long

A queued thread waits for the threads before it in its own domain, and for each of them the domain
waits for its turn among the other domains. `Machine.rank` counts that: every call that picks a next
thread lowers it, and the only calls that can raise it are interrupts in the thread's own domain,
after which that domain goes to the end of the run queue although it did not use its turn.

The whole argument is about the machine on lists; `processor_granted` carries it over to the pointers.
-/

namespace JxCore.Runq

open Lib Exec

/-- The calls that choose who runs next. -/
def Op.switches : Op → Bool
  | .yield | .block _ | .reschedule | .handoffToReceiver _ | .handoffToSender _ _
  | .destroyHandoffToSender _ | .destroyCurrent => true
  | .createThread _ _ _ | .start _ | .unblock _ | .blockReturn | .activateInterrupt _
  | .deactivateInterrupt _ => false

/-- An interrupt thread of the domain `d` is activated, or an interrupt gives the processor back to a
thread of `d`. -/
def Op.entersByInterrupt (domain : Thread → Domain) (d : Domain) : Op → Bool
  | .activateInterrupt t | .deactivateInterrupt t => domain t == d
  | _ => false

namespace Machine

/-! ## What holds of the lists at all times -/

/-- The lists belong together: a domain other than the current one is queued exactly when it has
threads, and threads are in the queue of their own domain. -/
structure Valid (m : Machine) : Prop where
  nodup : m.queues.runq.Nodup
  own : ∀ d, ∀ t ∈ m.queues.thr d, m.domain t = d
  current : m.curdom ∉ m.queues.runq
  others : ∀ d, d ≠ m.curdom → (d ∈ m.queues.runq ↔ m.queues.thr d ≠ [])

variable {m : Machine} {t x : Thread} {d : Domain} {n : Nat} {cfg : Config}

theorem Valid.setState (h : m.Valid) (x : Thread) (st : ThreadState) : (m.setState x st).Valid :=
  ⟨h.nodup, h.own, h.current, h.others⟩

theorem mem_thr_push : t ∈ (m.push x).queues.thr d ↔
    t ∈ m.queues.thr d ∨ t = x ∧ d = m.domain x := by
  rw [push]
  by_cases hd : d = m.domain x
  · subst hd
    simp
  · simp [hd]

theorem thr_push_ne_nil : (m.push x).queues.thr d ≠ [] ↔
    m.queues.thr d ≠ [] ∨ d = m.domain x := by
  rw [push]
  by_cases hd : d = m.domain x
  · subst hd
    simp
  · simp [hd]

theorem own_push (h : m.Valid) : ∀ t ∈ (m.push x).queues.thr d, m.domain t = d := by
  intro t ht
  rcases mem_thr_push.mp ht with ht | ⟨rfl, rfl⟩
  · exact h.own d t ht
  · rfl

/-- Queueing a thread of the current domain leaves the run queue as it is. -/
theorem Valid.push (h : m.Valid) (hx : m.domain x = m.curdom) : (m.push x).Valid := by
  refine ⟨h.nodup, fun d => own_push h, h.current, fun d hd => ?_⟩
  have hne : d ≠ m.domain x := hx ▸ hd
  exact (h.others d hd).trans (thr_push_ne_nil.trans (or_iff_left hne)).symm

theorem Valid.wake (h : m.Valid) (x : Thread) : (m.wake x m.curdom).Valid := by
  have hthr : (m.wake x m.curdom).queues.thr = (m.push x).queues.thr := thr_wake m x m.curdom
  have hmem : ∀ d, d ∈ (m.wake x m.curdom).queues.runq ↔ d ∈ m.queues.runq ∨
      m.queues.thr (m.domain x) = [] ∧ m.curdom ≠ m.domain x ∧ d = m.domain x := by
    intro d
    rw [runq_wake]
    by_cases hcond : m.queues.thr (m.domain x) = [] ∧ m.curdom ≠ m.domain x
    · simp [hcond]
    · rw [if_neg hcond]
      constructor
      · exact Or.inl
      · rintro (hd | ⟨hnil, hne, -⟩)
        · exact hd
        · exact absurd ⟨hnil, hne⟩ hcond
  refine ⟨?_, ?_, ?_, ?_⟩
  · rw [runq_wake]
    split
    · next hcond =>
      have hout : m.domain x ∉ m.queues.runq := fun hd =>
        (h.others _ (Ne.symm hcond.2)).mp hd hcond.1
      exact List.nodup_append'.mpr ⟨h.nodup, List.nodup_singleton _, by simpa using hout⟩
    · exact h.nodup
  · rw [hthr, domain_wake]
    exact fun d => own_push h
  · rw [curdom_wake, hmem]
    rintro (hd | ⟨-, hne, heq⟩)
    · exact h.current hd
    · exact hne heq
  · intro d hd
    rw [curdom_wake] at hd
    rw [hmem, hthr, thr_push_ne_nil, h.others d hd]
    by_cases hdx : d = m.domain x
    · subst hdx
      by_cases hnil : m.queues.thr (m.domain x) = []
      · simp [hnil, Ne.symm hd]
      · simp [hnil]
    · simp [hdx]

/-- `t` is queued, and its domain runs or is queued too. -/
structure Waits (m : Machine) (t : Thread) : Prop where
  queued : t ∈ m.queues.thr (m.domain t)
  domain : m.curdom = m.domain t ∨ m.domain t ∈ m.queues.runq

theorem Waits.domain_queued (ht : m.Waits t) (hne : m.curdom ≠ m.domain t) :
    m.domain t ∈ m.queues.runq :=
  ht.domain.resolve_left hne

theorem Valid.waits (h : m.Valid) (ht : t ∈ m.queues.thr (m.domain t)) : m.Waits t := by
  refine ⟨ht, ?_⟩
  by_cases hcur : m.curdom = m.domain t
  · exact Or.inl hcur
  · exact Or.inr ((h.others _ (Ne.symm hcur)).mpr (List.ne_nil_of_mem ht))

/-- The current domain is not queued, so at least one domain is missing in the run queue. -/
theorem Valid.length_lt (h : m.Valid) {domains : List Domain} (hdom : ∀ x, m.domain x ∈ domains) :
    m.queues.runq.length < domains.length := by
  have hsub : m.curdom :: m.queues.runq ⊆ domains := by
    intro d hd
    rcases List.mem_cons.mp hd with rfl | hd
    · exact hdom m.curthr
    · have hne : d ≠ m.curdom := fun heq => h.current (heq ▸ hd)
      obtain ⟨x, hx⟩ := List.exists_mem_of_ne_nil _ ((h.others d hne).mp hd)
      exact h.own d x hx ▸ hdom x
  have hle := (List.nodup_cons.mpr ⟨h.current, h.nodup⟩).length_le_of_subset hsub
  exact hle

/-! ## How long a thread waits at most -/

/-- With at most `n` domains, `t` is chosen by one of the next `rank` calls that choose a thread. -/
def rank (n : Nat) (m : Machine) (t : Thread) : Nat :=
  n * (m.queues.thr (m.domain t)).idxOf t +
    if m.curdom = m.domain t then n else m.queues.runq.idxOf (m.domain t) + 1

theorem rank_of_eq (hcur : m.curdom = m.domain t) :
    m.rank n t = n * (m.queues.thr (m.domain t)).idxOf t + n := by
  rw [rank, if_pos hcur]

theorem rank_of_ne (hcur : m.curdom ≠ m.domain t) : m.rank n t =
    n * (m.queues.thr (m.domain t)).idxOf t + (m.queues.runq.idxOf (m.domain t) + 1) := by
  rw [rank, if_neg hcur]

theorem idxOf_thr_push (ht : m.Waits t) :
    ((m.push x).queues.thr (m.domain t)).idxOf t = (m.queues.thr (m.domain t)).idxOf t := by
  rw [push]
  by_cases hd : m.domain t = m.domain x
  · rw [← hd]
    simp only [Function.update_self]
    exact List.idxOf_append_of_mem ht.queued
  · simp only [Function.update_of_ne hd]

theorem Waits.push (ht : m.Waits t) : (m.push x).Waits t :=
  ⟨mem_thr_push.mpr (Or.inl ht.queued), ht.domain⟩

theorem Waits.rank_push (ht : m.Waits t) : (m.push x).rank n t = m.rank n t := by
  rw [rank, domain_push, idxOf_thr_push ht]
  rfl

theorem Waits.wake (ht : m.Waits t) (r : Domain) : (m.wake x r).Waits t := by
  refine ⟨?_, ?_⟩
  · rw [thr_wake, domain_wake]
    exact ht.push.queued
  · rw [curdom_wake, domain_wake, runq_wake]
    apply ht.domain.imp_right
    intro hmem
    split
    · exact List.mem_append_left _ hmem
    · exact hmem

/-- Threads and domains that become runnable queue up behind those that wait. -/
theorem Waits.rank_wake (ht : m.Waits t) (r : Domain) :
    (m.wake x r).rank n t = m.rank n t := by
  rw [rank, rank, domain_wake, thr_wake, idxOf_thr_push ht, curdom_wake, runq_wake]
  by_cases hcur : m.curdom = m.domain t
  · rw [if_pos hcur, if_pos hcur]
  · rw [if_neg hcur, if_neg hcur]
    have hmem := ht.domain_queued hcur
    split
    · rw [List.idxOf_append_of_mem hmem]
    · rfl

/-- Whoever waits is not overlooked: there is a next thread. -/
theorem Valid.pop_isSome (h : m.Valid) (ht : m.Waits t) :
    ∃ next, (m.queues.pop m.curdom).1 = some next := by
  rw [Queues.pop]
  cases hrunq : m.queues.runq with
  | nil =>
    have hcur : m.curdom = m.domain t := by
      by_contra hne
      have hmem := ht.domain_queued hne
      rw [hrunq] at hmem
      cases hmem
    obtain ⟨a, l, hthr⟩ := List.exists_cons_of_ne_nil (List.ne_nil_of_mem ht.queued)
    rw [← hcur] at hthr
    exact ⟨a, congrArg List.head? hthr⟩
  | cons d ds =>
    have hne : d ≠ m.curdom := fun heq => h.current (heq ▸ hrunq ▸ List.mem_cons_self ..)
    have hfull := (h.others d hne).mp (hrunq ▸ List.mem_cons_self ..)
    obtain ⟨a, l, hthr⟩ := List.exists_cons_of_ne_nil hfull
    exact ⟨a, congrArg List.head? hthr⟩

/-- The queue of `t` after the first thread of some domain was taken: `t` is one place nearer if it was
its own domain, and where it was otherwise. -/
theorem idxOf_update_tail {q : Queues} {c d : Domain} {a : Thread} {l : List Thread}
    (hthr : q.thr d = a :: l) (ht : t ∈ q.thr c) (hne : a ≠ t) :
    t ∈ Function.update q.thr d l c ∧ (q.thr c).idxOf t =
      (Function.update q.thr d l c).idxOf t + if c = d then 1 else 0 := by
  by_cases hcd : c = d
  · subst hcd
    rw [hthr] at ht ⊢
    rw [Function.update_self, if_pos rfl, List.idxOf_cons_ne l hne]
    exact ⟨(List.mem_cons.mp ht).resolve_left (Ne.symm hne), rfl⟩
  · rw [Function.update_of_ne hcd, if_neg hcd]
    exact ⟨ht, rfl⟩

/-- **Choosing another thread brings `t` nearer.** -/
theorem Valid.rank_dispatch (h : m.Valid) (hn : m.queues.runq.length < n) (ht : m.Waits t)
    (hne : (m.dispatch cfg).curthr ≠ t) :
    (m.dispatch cfg).Waits t ∧ (m.dispatch cfg).rank n t < m.rank n t := by
  cases hrunq : m.queues.runq with
  | nil =>
    have hcur : m.curdom = m.domain t := by
      by_contra hcur
      have hmem := ht.domain_queued hcur
      rw [hrunq] at hmem
      cases hmem
    obtain ⟨a, l, hthr⟩ := List.exists_cons_of_ne_nil (List.ne_nil_of_mem ht.queued)
    have hdispatch : m.dispatch cfg = { m with
        curthr := a
        queues.thr := Function.update m.queues.thr (m.domain t) l } := by
      simp only [dispatch, Queues.pop, hrunq, hcur, hthr, List.head?_cons, List.tail_cons,
        Option.getD_some]
    rw [hdispatch] at hne ⊢
    have hown : m.domain a = m.domain t := h.own _ a (hthr ▸ List.mem_cons_self ..)
    obtain ⟨hmem, hidx⟩ := idxOf_update_tail hthr ht.queued hne
    refine ⟨⟨hmem, Or.inl hown⟩, ?_⟩
    rw [if_pos rfl] at hidx
    rw [rank_of_eq hcur, hidx, Nat.mul_add]
    refine Nat.lt_of_le_of_lt (Nat.le_of_eq (rank_of_eq hown)) ?_
    show n * (Function.update m.queues.thr (m.domain t) l (m.domain t)).idxOf t + n < _
    omega
  | cons d ds =>
    have hd : d ≠ m.curdom := fun heq => h.current (heq ▸ hrunq ▸ List.mem_cons_self ..)
    have hfull := (h.others d hd).mp (hrunq ▸ List.mem_cons_self ..)
    obtain ⟨a, l, hthr⟩ := List.exists_cons_of_ne_nil hfull
    have hdispatch : m.dispatch cfg = { m with
        curthr := a
        queues.runq := (Queues.rotate { m.queues with runq := ds } m.curdom).runq
        queues.thr := Function.update m.queues.thr d l } := by
      simp only [dispatch, Queues.pop, hrunq, hthr, List.head?_cons, List.tail_cons,
        Option.getD_some]
    rw [hdispatch] at hne ⊢
    have hown : m.domain a = d := h.own _ a (hthr ▸ List.mem_cons_self ..)
    obtain ⟨hmem, hidx⟩ := idxOf_update_tail hthr ht.queued hne
    rw [hrunq, List.length_cons] at hn
    by_cases hdt : m.domain t = d
    · -- it is the turn of the domain of `t`
      have hcur : m.curdom ≠ m.domain t := hdt ▸ Ne.symm hd
      refine ⟨⟨hmem, Or.inl (hown.trans hdt.symm)⟩, ?_⟩
      rw [if_pos hdt] at hidx
      rw [rank_of_ne hcur, hidx, Nat.mul_add]
      refine Nat.lt_of_le_of_lt (Nat.le_of_eq (rank_of_eq (hown.trans hdt.symm))) ?_
      show n * (Function.update m.queues.thr d l (m.domain t)).idxOf t + n < _
      omega
    · have hother : m.domain a ≠ m.domain t := fun heq => hdt (heq.symm.trans hown)
      rw [if_neg hdt, Nat.add_zero] at hidx
      suffices hplace : m.domain t ∈ (Queues.rotate { m.queues with runq := ds } m.curdom).runq ∧
          n * (m.queues.thr (m.domain t)).idxOf t +
            ((Queues.rotate { m.queues with runq := ds } m.curdom).runq.idxOf (m.domain t) + 1) <
              m.rank n t by
        refine ⟨⟨hmem, Or.inr hplace.1⟩, ?_⟩
        rw [hidx] at hplace
        exact Nat.lt_of_le_of_lt (Nat.le_of_eq (rank_of_ne hother)) hplace.2
      by_cases hcur : m.curdom = m.domain t
      · -- the domain of `t` has just had its turn and goes to the end
        have hlast : (Queues.rotate { m.queues with runq := ds } m.curdom).runq =
            ds ++ [m.domain t] := by
          rw [Queues.rotate, hcur]
          exact congrArg Queues.runq (if_neg (List.ne_nil_of_mem ht.queued))
        have hin : m.domain t ∈ ds ++ [m.domain t] :=
          List.mem_append_right ds (List.mem_singleton_self _)
        have hlt := List.idxOf_lt_length_of_mem hin
        rw [List.length_append, List.length_singleton] at hlt
        rw [rank_of_eq hcur, hlast]
        exact ⟨hin, by omega⟩
      · have hmemrunq := ht.domain_queued hcur
        rw [hrunq] at hmemrunq
        have hds : m.domain t ∈ ds := (List.mem_cons.mp hmemrunq).resolve_left hdt
        rw [rank_of_ne hcur, hrunq, List.idxOf_cons_ne ds (Ne.symm hdt), Queues.rotate]
        split
        · exact ⟨hds, by show _ + (ds.idxOf (m.domain t) + 1) < _; omega⟩
        · refine ⟨List.mem_append_left _ hds, ?_⟩
          show _ + ((ds ++ [m.curdom]).idxOf (m.domain t) + 1) < _
          rw [List.idxOf_append_of_mem hds]
          omega

/-- Queueing a thread does not depend on which thread runs. -/
theorem wake_curthr (m : Machine) (x : Thread) (r : Domain) (next : Thread) :
    { m.wake x r with curthr := next } = ({ m with curthr := next } : Machine).wake x r := by
  by_cases hcond : m.queues.thr (m.domain x) = [] ∧ r ≠ m.domain x
  · rw [wake, if_pos hcond]
    exact (if_pos hcond).symm
  · rw [wake, if_neg hcond]
    exact (if_neg hcond).symm

/-- `Sched_reschedule` is a dispatch after which the thread that ran is queued. -/
theorem preempt_of_some {next : Thread} (hpop : (m.queues.pop m.curdom).1 = some next) :
    m.preempt cfg = if m.curthr = cfg.idle then m.dispatch cfg
      else (m.dispatch cfg).wake m.curthr (m.dispatch cfg).curdom := by
  obtain ⟨q, hq⟩ : ∃ q, m.queues.pop m.curdom = (some next, q) := ⟨_, Prod.ext hpop rfl⟩
  have hdispatch : m.dispatch cfg = { m with curthr := next, queues := q } := by
    simp only [dispatch, hq, Option.getD_some]
  rw [hdispatch, preempt, hq]
  by_cases hidle : m.curthr = cfg.idle
  · simp only [if_pos hidle]
  · rw [if_neg hidle]
    simp only [if_neg hidle]
    exact wake_curthr { m with queues := q } m.curthr (m.domain next) next

theorem Valid.rank_preempt (h : m.Valid) (hn : m.queues.runq.length < n) (ht : m.Waits t)
    (hne : (m.preempt cfg).curthr ≠ t) :
    (m.preempt cfg).Waits t ∧ (m.preempt cfg).rank n t < m.rank n t := by
  obtain ⟨next, hpop⟩ := h.pop_isSome ht
  rw [preempt_of_some hpop] at hne ⊢
  by_cases hidle : m.curthr = cfg.idle
  · rw [if_pos hidle] at hne ⊢
    exact h.rank_dispatch hn ht hne
  · rw [if_neg hidle] at hne ⊢
    rw [curthr_wake] at hne
    obtain ⟨hwaits, hlt⟩ := h.rank_dispatch hn ht hne
    refine ⟨hwaits.wake _, ?_⟩
    rw [hwaits.rank_wake]
    exact hlt

/-! ## Interrupts -/

theorem idxOf_erase_le {l : List Domain} {c d : Domain} (hne : c ≠ d) :
    (l.erase d).idxOf c ≤ l.idxOf c := by
  induction l with
  | nil => exact Nat.le_refl _
  | cons e l ih =>
    by_cases he : e = d
    · subst he
      rw [List.erase_cons_head, List.idxOf_cons_ne l (Ne.symm hne)]
      exact Nat.le_succ _
    · rw [List.erase_cons_tail (by simpa using he)]
      by_cases hec : e = c
      · subst hec
        simp
      · rw [List.idxOf_cons_ne _ hec, List.idxOf_cons_ne _ hec]
        exact Nat.succ_le_succ ih

/-- An interrupt that runs in another domain does not hurt `t`. One in the domain of `t` takes it out
of the run queue, so that it starts from the end of it afterwards. -/
theorem Waits.rank_resume (ht : m.Waits t) (hn : m.queues.runq.length < n) :
    (m.resume x).Waits t ∧ (m.resume x).rank n t ≤
      m.rank n t + if m.domain x = m.domain t then n - 1 else 0 := by
  by_cases hcx : m.curdom = m.domain x
  · -- the processor stays in its domain
    have hresume : m.resume x = { m with curthr := x } := by
      rw [resume, Queues.cede, if_pos hcx]
    rw [hresume]
    have hcurdom : ({ m with curthr := x } : Machine).curdom = m.curdom := hcx.symm
    refine ⟨⟨ht.queued, ?_⟩, Nat.le_add_right_of_le ?_⟩
    · rw [hcurdom]
      exact ht.domain
    · exact Nat.le_of_eq (by rw [rank, rank, hcurdom])
  · have hresume : m.resume x = { m with
        curthr := x
        queues.runq := (m.queues.rotate m.curdom).runq.erase (m.domain x) } := by
      rw [resume, Queues.cede, if_neg hcx]
    rw [hresume]
    by_cases hxt : m.domain x = m.domain t
    · refine ⟨⟨ht.queued, Or.inl hxt⟩, ?_⟩
      have hcur : m.curdom ≠ m.domain t := hxt ▸ hcx
      refine Nat.le_trans (Nat.le_of_eq (rank_of_eq hxt)) ?_
      rw [if_pos hxt, rank_of_ne hcur]
      show n * (m.queues.thr (m.domain t)).idxOf t + n ≤ _
      omega
    · rw [if_neg hxt, Nat.add_zero]
      suffices hplace : m.domain t ∈ (m.queues.rotate m.curdom).runq.erase (m.domain x) ∧
          n * (m.queues.thr (m.domain t)).idxOf t +
            (((m.queues.rotate m.curdom).runq.erase (m.domain x)).idxOf (m.domain t) + 1) ≤
              m.rank n t from
        ⟨⟨ht.queued, Or.inr hplace.1⟩, Nat.le_trans (Nat.le_of_eq (rank_of_ne hxt)) hplace.2⟩
      have hle := idxOf_erase_le (l := (m.queues.rotate m.curdom).runq) (Ne.symm hxt)
      rw [List.mem_erase_of_ne (Ne.symm hxt)]
      by_cases hcur : m.curdom = m.domain t
      · -- the domain of `t` is interrupted and queued at the end
        have hlast : (m.queues.rotate m.curdom).runq = m.queues.runq ++ [m.domain t] := by
          rw [Queues.rotate, hcur]
          exact congrArg Queues.runq (if_neg (List.ne_nil_of_mem ht.queued))
        have hin : m.domain t ∈ m.queues.runq ++ [m.domain t] :=
          List.mem_append_right _ (List.mem_singleton_self _)
        have hlt := List.idxOf_lt_length_of_mem hin
        rw [List.length_append, List.length_singleton] at hlt
        rw [hlast] at hle ⊢
        rw [rank_of_eq hcur]
        exact ⟨hin, by omega⟩
      · have hmem := ht.domain_queued hcur
        have hsame : m.domain t ∈ (m.queues.rotate m.curdom).runq ∧
            (m.queues.rotate m.curdom).runq.idxOf (m.domain t) =
              m.queues.runq.idxOf (m.domain t) := by
          rw [Queues.rotate]
          split
          · exact ⟨hmem, rfl⟩
          · exact ⟨List.mem_append_left _ hmem, List.idxOf_append_of_mem hmem⟩
        rw [rank_of_ne hcur, ← hsame.2]
        exact ⟨hsame.1, by omega⟩

/-! ## Every call -/

/-- One call: what `t` gains by a choice, and what it may lose to an interrupt. -/
theorem Valid.rank_step (h : m.Valid) {domains : List Domain} (hdom : ∀ x, m.domain x ∈ domains)
    {op : Op} (ht : m.Waits t) (hne : (m.step cfg op).curthr ≠ t) :
    (m.step cfg op).Waits t ∧ (m.step cfg op).rank domains.length t + op.switches.toNat ≤
      m.rank domains.length t +
        (domains.length - 1) * (op.entersByInterrupt m.domain (m.domain t)).toNat := by
  have hset : ∀ x st, (m.setState x st).Waits t := fun _ _ => ⟨ht.queued, ht.domain⟩
  -- a call that leaves the current thread alone
  have hkeep : ∀ {m' : Machine} (k : Nat), m'.Waits t →
      m'.rank domains.length t = m.rank domains.length t →
      m'.Waits t ∧ m'.rank domains.length t + 0 ≤ m.rank domains.length t + k :=
    fun k hw hr => ⟨hw, hr ▸ Nat.le_add_right _ k⟩
  -- a call that ends with the choice of another thread
  have hgive : ∀ {m' : Machine} (k : Nat), m'.Valid → m'.domain = m.domain → m'.Waits t →
      m'.rank domains.length t = m.rank domains.length t → (m'.dispatch cfg).curthr ≠ t →
      (m'.dispatch cfg).Waits t ∧
        (m'.dispatch cfg).rank domains.length t + 1 ≤ m.rank domains.length t + k := by
    intro m' k hv hd hw hr hne'
    obtain ⟨hw', hlt⟩ := hv.rank_dispatch (hv.length_lt (hd ▸ hdom)) hw hne'
    exact ⟨hw', Nat.le_trans hlt (hr ▸ Nat.le_add_right _ k)⟩
  have hlen := h.length_lt hdom
  have hinterrupt : ∀ x, (m.rank domains.length t +
      if m.domain x = m.domain t then domains.length - 1 else 0) ≤ m.rank domains.length t +
        (domains.length - 1) * (m.domain x == m.domain t).toNat := by
    intro x
    by_cases hx : m.domain x = m.domain t <;> simp [hx]
  cases op with
  | createThread x st param =>
    cases param with
    | default => exact hkeep _ ((hset x st).wake _) ((hset x st).rank_wake _)
    | norunq => exact hkeep _ (hset x st) rfl
  | start x =>
    rw [step]
    split
    · exact hkeep _ ((hset x .runnable).wake _) ((hset x .runnable).rank_wake _)
    · exact hkeep _ ht rfl
  | unblock x => exact hkeep _ ((hset x .runnable).wake _) ((hset x .runnable).rank_wake _)
  | yield =>
    rw [step] at hne ⊢
    by_cases hidle : m.curthr = cfg.idle
    · rw [if_pos hidle] at hne ⊢
      exact hgive _ h rfl ht rfl hne
    · rw [if_neg hidle] at hne ⊢
      exact hgive _ (h.push rfl) rfl ht.push ht.rank_push hne
  | block st => exact hgive _ (h.setState m.curthr st) rfl (hset m.curthr st) rfl hne
  | blockReturn => exact hkeep _ (hset m.curthr .runnable) rfl
  | reschedule =>
    obtain ⟨hw, hlt⟩ := h.rank_preempt hlen ht hne
    exact ⟨hw, hlt⟩
  | handoffToReceiver receiver =>
    have hw : ((m.setState m.curthr .portalWaitForRet).setState receiver .runnable).Waits t :=
      ⟨ht.queued, ht.domain⟩
    have hv := (h.setState m.curthr .portalWaitForRet).setState receiver .runnable
    exact hgive _ (hv.wake receiver) (domain_wake _ _ _) (hw.wake _) (hw.rank_wake _) hne
  | handoffToSender sender isRunnable =>
    cases isRunnable with
    | true =>
      have hw := (hset m.curthr .runnable).push (x := m.curthr)
      have hv := (h.setState m.curthr .runnable).push (x := m.curthr) rfl
      have hw' : (((m.setState m.curthr .runnable).push m.curthr).setState sender
          .runnable).Waits t := ⟨hw.queued, hw.domain⟩
      exact hgive _ ((hv.setState sender .runnable).wake sender) (domain_wake _ _ _) (hw'.wake _)
        ((hw'.rank_wake _).trans (hset m.curthr .runnable).rank_push) hne
    | false =>
      have hw : ((m.setState m.curthr .portalWaitForSnd).setState sender .runnable).Waits t :=
        ⟨ht.queued, ht.domain⟩
      have hv := (h.setState m.curthr .portalWaitForSnd).setState sender .runnable
      exact hgive _ (hv.wake sender) (domain_wake _ _ _) (hw.wake _) (hw.rank_wake _) hne
  | destroyHandoffToSender sender =>
    have hw : ((m.push m.curthr).setState sender .runnable).Waits t :=
      ⟨ht.push.queued, ht.push.domain⟩
    have hv := (h.push (x := m.curthr) rfl).setState sender .runnable
    exact hgive _ (hv.wake sender) (domain_wake _ _ _) (hw.wake _)
      ((hw.rank_wake _).trans ht.rank_push) hne
  | activateInterrupt irqThread =>
    obtain ⟨hw, hle⟩ := (hset irqThread .runnable).rank_resume (x := irqThread) hlen
    exact ⟨hw, Nat.le_trans hle (hinterrupt irqThread)⟩
  | deactivateInterrupt normalThread =>
    obtain ⟨hw, hle⟩ := (hset m.curthr .available).rank_resume (x := normalThread) hlen
    exact ⟨hw, Nat.le_trans hle (hinterrupt normalThread)⟩
  | destroyCurrent =>
    exact hgive _ (h.setState m.curthr .zombie) rfl (hset m.curthr .zombie) rfl hne

theorem domain_preempt (m : Machine) : (m.preempt cfg).domain = m.domain := by
  rw [preempt]
  cases m.queues.pop m.curdom with
  | mk next q =>
    cases next with
    | none => rfl
    | some next =>
      show (if m.curthr = cfg.idle then _ else Machine.wake _ _ _).domain = m.domain
      rw [apply_ite Machine.domain, domain_wake]
      exact ite_self _

/-- Threads stay in their domain. -/
theorem domain_step (m : Machine) (op : Op) : (m.step cfg op).domain = m.domain := by
  cases op with
  | createThread x st param => cases param <;> simp [step]
  | start x =>
    rw [step]
    split
    · simp
    · rfl
  | yield =>
    rw [step]
    show (if m.curthr = cfg.idle then m else m.push m.curthr).domain = m.domain
    split <;> rfl
  | reschedule => exact m.domain_preempt
  | handoffToSender sender isRunnable => cases isRunnable <;> exact domain_wake _ _ _
  | handoffToReceiver _ | destroyHandoffToSender _ => exact domain_wake _ _ _
  | unblock _ => exact domain_wake _ _ _
  | block _ | blockReturn | activateInterrupt _ | deactivateInterrupt _ | destroyCurrent => rfl

/-- At worst the domain of `t` has just had its turn, for each of the threads before `t` and for `t`
itself. -/
theorem Waits.rank_le (ht : m.Waits t) (hn : m.queues.runq.length < n) :
    m.rank n t ≤ n * ((m.queues.thr (m.domain t)).idxOf t + 1) := by
  rw [Nat.mul_succ]
  by_cases hcur : m.curdom = m.domain t
  · exact Nat.le_of_eq (rank_of_eq hcur)
  · have hlt := List.idxOf_lt_length_of_mem (ht.domain_queued hcur)
    rw [rank_of_ne hcur]
    omega

end Machine

/-! ## Every run -/

variable {cfg : Config} {s s' : Sched} {q : Queues} {t : Thread} {ops : List Op}

theorem Queued.valid (hq : Queued cfg s q) : (s.machine q).Valid :=
  ⟨hq.rep.domains.nodup, hq.rep.own, hq.current, hq.others⟩

/-- While `t` does not run, every choice is paid for by its rank or by an interrupt. -/
theorem Running.countP_switches_le (hrun : Run cfg s ops s') (hr : Running cfg s q)
    (hdom : ∀ x, s.domain x ∈ cfg.domains) (ht : (s.machine q).Waits t)
    (hnever : ∀ pre, pre <+: ops → ∀ s₁, Run cfg s pre s₁ → s₁.curthr ≠ t) :
    ops.countP Op.switches ≤ (s.machine q).rank cfg.domains.length t +
      (cfg.domains.length - 1) * ops.countP (Op.entersByInterrupt s.domain (s.domain t)) := by
  induction hrun generalizing q with
  | nil s => exact Nat.zero_le _
  | @cons s s₁ s' op ops hop hret hrun ih =>
    obtain ⟨hr₁, hm₁⟩ := hr.step hop hret
    have hne : ((s.machine q).step cfg op).curthr ≠ t := by
      rw [← hm₁]
      exact hnever [op] (List.prefix_append [op] ops) s₁ (.cons hop hret (.nil s₁))
    obtain ⟨hw, hle⟩ := hr.valid.rank_step hdom ht hne
    have hdomain : s₁.domain = s.domain :=
      (congrArg Machine.domain hm₁).trans ((s.machine q).domain_step op)
    have hrest := ih hr₁ (hdomain ▸ hdom) (hm₁ ▸ hw) fun pre hpre s₂ hrun₂ =>
      hnever (op :: pre) (List.cons_prefix_cons.mpr ⟨rfl, hpre⟩) s₂ (.cons hop hret hrun₂)
    rw [hm₁, hdomain] at hrest
    have hswitches : (op :: ops).countP Op.switches =
        ops.countP Op.switches + op.switches.toNat := by
      rw [List.countP_cons]
      cases op.switches <;> rfl
    have henters : (op :: ops).countP (Op.entersByInterrupt s.domain (s.domain t)) =
        ops.countP (Op.entersByInterrupt s.domain (s.domain t)) +
          (op.entersByInterrupt s.domain (s.domain t)).toNat := by
      rw [List.countP_cons]
      cases op.entersByInterrupt s.domain (s.domain t) <;> rfl
    rw [hswitches, henters, Nat.mul_add]
    have hstep : ((s.machine q).step cfg op).rank cfg.domains.length t + op.switches.toNat ≤
        (s.machine q).rank cfg.domains.length t + (cfg.domains.length - 1) *
          (op.entersByInterrupt s.domain (s.domain t)).toNat := hle
    omega

/-- **A queued thread gets the processor.** With `n` domains, a thread with `k` threads before it in
its domain's queue runs at the latest after `n * (k + 1)` choices of a next thread, whatever the other
threads do; each interrupt in its own domain may cost it `n - 1` more. -/
theorem processor_granted (h : Reach cfg s) (hdom : ∀ x, s.domain x ∈ cfg.domains)
    (hq : Consistent cfg s q) (ht : t ∈ q.thr (s.domain t)) (hrun : Run cfg s ops s')
    (hlong : cfg.domains.length * ((q.thr (s.domain t)).idxOf t + 1) + (cfg.domains.length - 1) *
      ops.countP (Op.entersByInterrupt s.domain (s.domain t)) < ops.countP Op.switches) :
    ∃ pre s₁, pre <+: ops ∧ Run cfg s pre s₁ ∧ s₁.curthr = t := by
  by_contra hnone
  have hrep : Rep s q := ⟨hq.domains, hq.threads, fun d x hx => (hq.own d x hx).1⟩
  obtain ⟨q', hr⟩ := h.running
  obtain rfl := hrep.unique hr.rep
  have hw : (s.machine q).Waits t := hr.valid.waits ht
  have hle := hr.countP_switches_le hrun hdom hw fun pre hpre s₁ hrun₁ heq =>
    hnone ⟨pre, s₁, hpre, hrun₁, heq⟩
  have hrank : (s.machine q).rank cfg.domains.length t ≤
      cfg.domains.length * ((q.thr (s.domain t)).idxOf t + 1) :=
    hw.rank_le (hr.valid.length_lt hdom)
  omega

/-- Calls that are always permitted make a run. -/
theorem Running.exists_run (hr : Running cfg s q) (ops : List Op)
    (h : ∀ op ∈ ops, ∀ s, Permitted cfg s op) : ∃ s', Run cfg s ops s' := by
  induction ops generalizing s q with
  | nil => exact ⟨s, .nil s⟩
  | cons op ops ih =>
    obtain ⟨hop, hrest⟩ := List.forall_mem_cons.mp h
    obtain ⟨s₁, q₁, hret, hr₁, -⟩ := hr.exec (hop s)
    obtain ⟨s', hrun⟩ := ih hr₁ hrest
    exact ⟨s', .cons (hop s) hret hrun⟩

/-- Thread 2 of domain 7 has been created, and three choices later at most it has run. -/
theorem processor_granted_bootSched : ∃ s, Reach bootConfig s ∧ s.curthr = 1 ∧
    ∃ pre s₁, pre <+: [.reschedule, .yield, .reschedule] ∧ Run bootConfig s pre s₁ ∧
      s₁.curthr = 2 := by
  have hcreate : Permitted bootConfig bootSched (.createThread 2 .runnable .default) :=
    ⟨rfl, Or.inl ⟨rfl, rfl⟩⟩
  have hr := running_of_initial initial_bootSched
  obtain ⟨s₁, _, hret₁, -⟩ := hr.exec hcreate
  obtain ⟨hr₁, hm₁⟩ := hr.step hcreate hret₁
  have hdomain : s₁.domain = bootSched.domain := congrArg Machine.domain hm₁
  have hreach : Reach bootConfig s₁ := (Reach.init initial_bootSched).step hcreate hret₁
  obtain ⟨s₂, hrun⟩ := hr₁.exists_run [.reschedule, .yield, .reschedule] (by
    simp [Permitted])
  refine ⟨s₁, hreach, congrArg Machine.curthr hm₁, processor_granted hreach ?_ hr₁.consistent ?_
    hrun ?_⟩
  · intro x
    rw [hdomain]
    show (if x ≤ 1 then 0 else 7) ∈ [0, 7]
    split <;> simp
  · rw [hdomain]
    exact List.mem_singleton_self 2
  · rw [hdomain]
    decide

end JxCore.Runq
