import JxCore.Core.RunqInvariant

/-!
# Blocking and unblocking by hand (`Interface/zero_CPUManager.c`)

A thread that waits for something clears a flag, tests its condition and blocks unless it was
unblocked in the meantime. Whoever makes the condition true unblocks the thread: this wakes it if it
has blocked already, and sets the flag if it has not. All this runs with interrupts disabled, so each
routine is one step.
-/

namespace JxCore.CpuManager

open Lib Runq Exec

/-- A `CPUStateProxy *`, and what `cpuState2thread` makes of it. -/
inductive CpuState where
  | null
  | thread (t : Thread)
  /-- A foreign proxy whose thread is not found any more. -/
  | gone
  deriving DecidableEq, Repr

structure State where
  sched : Sched
  /-- `thread->unblockedWithoutBeingBlocked`. -/
  unblockedWithoutBeingBlocked : Thread → Bool

/-- `cpuManager_unblock`. -/
def unblock (s : State) (cpuState : CpuState) (fuel : Nat) : Exec (Bool × State) :=
  match cpuState with
  | .null => throw (.throw .runtimeException "")
  | .gone => return (false, s)
  | .thread t =>
    if s.sched.state t ≠ .blockedUser then
      return (false, { s with
        unblockedWithoutBeingBlocked := Function.update s.unblockedWithoutBeingBlocked t true })
    else do
      let sched ← s.sched.threadunblock fuel t
      return (true, { s with sched := sched })

/-- `cpuManager_blockIfNotUnblocked`, up to the point where another thread runs. -/
def blockIfNotUnblocked (cfg : Config) (s : State) (fuel : Nat) : Exec State := do
  if s.unblockedWithoutBeingBlocked s.sched.curthr = false then
    let sched ← s.sched.block cfg fuel .blockedUser
    return { s with sched := sched }
  return s

/-- `cpuManager_clearUnblockFlag`. -/
def clearUnblockFlag (s : State) : State :=
  { s with unblockedWithoutBeingBlocked :=
      Function.update s.unblockedWithoutBeingBlocked s.sched.curthr false }

/-! ## One thread waits in rounds, the others unblock it -/

/-- Where the waiting thread is in its round. -/
inductive Phase where
  /-- Between two rounds. -/
  | outside
  /-- The flag is cleared, and the thread looks at its condition. -/
  | testing
  /-- Inside `Sched_block`. -/
  | blocked
  deriving DecidableEq, Repr

structure Round where
  sys : State
  phase : Phase
  /-- A record of the past: the thread has been unblocked since the flag was last cleared. -/
  unblocked : Bool

/-- The interleavings. The waiting thread `me` clears, tests and blocks, any thread unblocks any
other, and the scheduler does whatever it is asked to; but `me` blocks by hand only at the end of its
round, and inside `Sched_block` it can only be preempted or interrupted. -/
inductive Step (cfg : Config) (me : Thread) : Round → Round → Prop where
  | clear {r : Round} (hcur : r.sys.sched.curthr = me) (hphase : r.phase ≠ .blocked) :
      Step cfg me r ⟨clearUnblockFlag r.sys, .testing, false⟩
  | block {r : Round} {s : State} (hcur : r.sys.sched.curthr = me) (hphase : r.phase = .testing)
      (hret : Returns (blockIfNotUnblocked cfg r.sys) s) :
      Step cfg me r { r with
        sys := s
        phase := if r.sys.unblockedWithoutBeingBlocked me = true then .outside else .blocked }
  | blockReturn {r : Round} (hcur : r.sys.sched.curthr = me) (hphase : r.phase = .blocked) :
      Step cfg me r { r with
        sys := { r.sys with sched := r.sys.sched.blockReturn }
        phase := .outside }
  | unblock {r : Round} {cpuState : CpuState} {ret : Bool} {s : State}
      (hret : Returns (unblock r.sys cpuState) (ret, s)) :
      Step cfg me r { r with
        sys := s
        unblocked := r.unblocked || decide (cpuState = .thread me) }
  | sched {r : Round} {op : Op} {s : Sched} (hop : Permitted cfg r.sys.sched op)
      (hblock : r.sys.sched.curthr = me → op ≠ .block .blockedUser)
      (hinside : r.sys.sched.curthr = me → r.phase = .blocked →
        op = .reschedule ∨ ∃ irqThread, op = .activateInterrupt irqThread)
      (hret : Returns (exec cfg op r.sys.sched) s) :
      Step cfg me r { r with sys := { r.sys with sched := s } }

/-- Before the first round. -/
structure Start (cfg : Config) (me : Thread) (r : Round) : Prop where
  initial : Initial cfg r.sys.sched
  not_idle : me ≠ cfg.idle
  outside : r.phase = .outside
  not_unblocked : r.unblocked = false

/-- **No unblock is lost.** -/
structure NoLostUnblock (cfg : Config) (me : Thread) (r : Round) : Prop where
  /-- Once unblocked, the thread does not stay blocked. -/
  awake : r.unblocked = true → r.sys.sched.state me ≠ .blockedUser
  /-- Unblocked before it blocks, the thread does not give up the processor. -/
  before : r.phase = .testing → r.unblocked = true → r.sys.sched.curthr = me →
    Returns (blockIfNotUnblocked cfg r.sys) r.sys
  /-- An unblock of the blocked thread comes back and makes it runnable. -/
  after : r.sys.sched.state me = .blockedUser → ∃ s, Returns (unblock r.sys (.thread me)) (true, s) ∧
    s.sched.state me = .runnable
  /-- Unblocked after it has blocked, the thread runs, or is interrupted or queued to run. -/
  woken : r.phase = .blocked → r.unblocked = true → r.sys.sched.state me = .runnable ∧
    (me = r.sys.sched.curthr ∨ r.sys.sched.isVictim me ∨
      ∃ q, Consistent cfg r.sys.sched q ∧ me ∈ q.thr (r.sys.sched.domain me))
  /-- No thread is in the run queues twice. -/
  once : ∃ q, Consistent cfg r.sys.sched q

/-! ## What each routine does -/

section Specs

variable {cfg : Config} {s : State} {q : Queues}

/-- A thread enters the blocked-user state only by blocking itself. -/
theorem blockedUser_of_stateAfter {s : Sched} {op : Op} {t : Thread} (hop : Permitted cfg s op)
    (h : stateAfter s op t = .blockedUser) :
    s.state t = .blockedUser ∨ t = s.curthr ∧ op = .block .blockedUser := by
  cases op with
  | createThread t' st param =>
    simp only [stateAfter, Function.update_apply] at h
    obtain ⟨-, ⟨-, rfl⟩ | ⟨-, rfl | rfl⟩⟩ := hop <;> grind
  | start t' =>
    simp only [stateAfter, Function.update_apply, ite_apply] at h
    grind
  | _ =>
    simp only [stateAfter, Function.update_apply] at h
    grind

/-- A blocked thread is either left alone or made runnable. -/
theorem stateAfter_of_blockedUser {s : Sched} {op : Op} {t : Thread} (hop : Permitted cfg s op)
    (hcur : s.state s.curthr = .runnable) (ht : s.state t = .blockedUser) :
    stateAfter s op t = .blockedUser ∨ stateAfter s op t = .runnable := by
  have hne : t ≠ s.curthr := by
    rintro rfl
    cases ht.symm.trans hcur
  cases op with
  | createThread t' st param =>
    have hunborn := hop.1
    simp only [stateAfter, Function.update_apply]
    grind
  | start t' =>
    simp only [stateAfter, Function.update_apply, ite_apply]
    grind
  | _ =>
    simp only [stateAfter, Function.update_apply]
    grind

/-- Nobody but the current thread stops being runnable. -/
theorem runnable_stateAfter {s : Sched} {op : Op} {t : Thread} (hop : Permitted cfg s op)
    (hne : t ≠ s.curthr) (ht : s.state t = .runnable) : stateAfter s op t = .runnable := by
  cases op with
  | createThread t' st param =>
    have hunborn := hop.1
    simp only [stateAfter, Function.update_apply]
    grind
  | start t' =>
    simp only [stateAfter, Function.update_apply, ite_apply]
    grind
  | _ =>
    simp only [stateAfter, Function.update_apply]
    grind

/-- `cpuManager_unblock` wakes a thread that has blocked itself. -/
theorem unblock_blocked (hr : Running cfg s.sched q) {t : Thread}
    (ht : s.sched.state t = .blockedUser) :
    ∃ s' q', Returns (unblock s (.thread t)) (true, s') ∧ Running cfg s'.sched q' ∧
      s'.sched.state = Function.update s.sched.state t .runnable ∧
      s'.unblockedWithoutBeingBlocked = s.unblockedWithoutBeingBlocked := by
  have hne : s.sched.state t ≠ .runnable := by
    rw [ht]
    decide
  obtain ⟨sched, q', hret, hr', hstate⟩ := hr.unblock_restores hne
  refine ⟨{ s with sched := sched }, q', ?_, hr', hstate, rfl⟩
  have hcall : unblock s (.thread t) = fun fuel =>
      s.sched.threadunblock fuel t >>= fun sched => pure (true, { s with sched := sched }) := by
    funext fuel
    exact if_neg (not_not.mpr ht)
  rw [hcall]
  exact hret.bind (Returns.pure _)

/-- `cpuManager_unblock` leaves word for a thread that has not blocked. -/
theorem unblock_unblocked {t : Thread} (ht : s.sched.state t ≠ .blockedUser) :
    Returns (unblock s (.thread t)) (false, { s with
      unblockedWithoutBeingBlocked := Function.update s.unblockedWithoutBeingBlocked t true }) :=
  ⟨0, fun _ _ => if_pos ht⟩

/-- What `cpuManager_unblock` leaves behind. -/
theorem unblock_effect (hr : Running cfg s.sched q) {cpuState : CpuState} {ret : Bool} {s' : State}
    (h : Returns (unblock s cpuState) (ret, s')) :
    (∃ t, cpuState = .thread t ∧ s.sched.state t = .blockedUser ∧
      s'.sched.state = Function.update s.sched.state t .runnable ∧
      s'.unblockedWithoutBeingBlocked = s.unblockedWithoutBeingBlocked ∧
      ∃ q', Running cfg s'.sched q') ∨
    (∃ t, cpuState = .thread t ∧ s.sched.state t ≠ .blockedUser ∧ s'.sched = s.sched ∧
      s'.unblockedWithoutBeingBlocked =
        Function.update s.unblockedWithoutBeingBlocked t true) ∨
    cpuState = .gone ∧ s' = s := by
  match cpuState with
  | .null =>
    obtain ⟨n, hn⟩ := h
    cases hn n (Nat.le_refl n)
  | .gone =>
    have heq := h.unique (Returns.pure (false, s))
    exact Or.inr (Or.inr ⟨rfl, congrArg Prod.snd heq⟩)
  | .thread t =>
    by_cases ht : s.sched.state t = .blockedUser
    · obtain ⟨s₁, q', hret, hr', hstate, hflag⟩ := unblock_blocked hr ht
      obtain ⟨-, rfl⟩ := Prod.mk.inj (h.unique hret)
      exact Or.inl ⟨t, rfl, ht, hstate, hflag, q', hr'⟩
    · obtain ⟨-, rfl⟩ := Prod.mk.inj (h.unique (unblock_unblocked ht))
      exact Or.inr (Or.inl ⟨t, rfl, ht, rfl, rfl⟩)

/-- With the flag set, `cpuManager_blockIfNotUnblocked` comes back at once. -/
theorem blockIfNotUnblocked_set (h : s.unblockedWithoutBeingBlocked s.sched.curthr = true) :
    Returns (blockIfNotUnblocked cfg s) s := by
  refine ⟨0, fun fuel _ => ?_⟩
  unfold blockIfNotUnblocked
  rw [h]
  rfl

/-- Without it, the thread blocks. -/
theorem blockIfNotUnblocked_clear (hr : Running cfg s.sched q) (hidle : s.sched.curthr ≠ cfg.idle)
    (h : s.unblockedWithoutBeingBlocked s.sched.curthr = false) :
    ∃ s' q', Returns (blockIfNotUnblocked cfg s) s' ∧ Running cfg s'.sched q' ∧
      s'.sched.state = Function.update s.sched.state s.sched.curthr .blockedUser := by
  obtain ⟨sched, q', hret, hr', hstate⟩ :=
    hr.block hidle (show ThreadState.blockedUser ≠ .runnable by decide)
  refine ⟨{ s with sched := sched }, q', ?_, hr', hstate⟩
  have hcall : blockIfNotUnblocked cfg s = fun fuel =>
      s.sched.block cfg fuel .blockedUser >>= fun sched => pure { s with sched := sched } := by
    funext fuel
    unfold blockIfNotUnblocked
    rw [if_pos h]
  rw [hcall]
  exact hret.bind (Returns.pure _)

end Specs

/-! ## Every interleaving -/

section Runs

variable {cfg : Config} {me : Thread}

/-- The invariant: in the middle of a round an unblock is found either in the flag or in the state. -/
structure Inv (cfg : Config) (me : Thread) (r : Round) : Prop where
  running : ∃ q, Running cfg r.sys.sched q
  not_idle : me ≠ cfg.idle
  awake : r.unblocked = true → r.sys.sched.state me ≠ .blockedUser
  testing : r.phase = .testing → r.sys.sched.state me ≠ .blockedUser
  flagged : r.phase = .testing → r.unblocked = true →
    r.sys.unblockedWithoutBeingBlocked me = true
  blocked : r.phase = .blocked →
    r.sys.sched.state me = .blockedUser ∨ r.sys.sched.state me = .runnable

theorem Start.inv {r : Round} (h : Start cfg me r) : Inv cfg me r where
  running := ⟨_, running_of_initial h.initial⟩
  not_idle := h.not_idle
  awake := fun hun => by cases h.not_unblocked.symm.trans hun
  testing := fun hphase => by cases h.outside.symm.trans hphase
  flagged := fun hphase => by cases h.outside.symm.trans hphase
  blocked := fun hphase => by cases h.outside.symm.trans hphase

theorem Inv.unblock {r : Round} (hi : Inv cfg me r) {cpuState : CpuState} {ret : Bool} {s : State}
    (hret : Returns (unblock r.sys cpuState) (ret, s)) :
    Inv cfg me { r with
      sys := s
      unblocked := r.unblocked || decide (cpuState = .thread me) } := by
  obtain ⟨q, hr⟩ := hi.running
  obtain ⟨t, rfl, ht, hstate, hflag, hr'⟩ | ⟨t, rfl, ht, hsched, hflag⟩ | ⟨rfl, rfl⟩ :=
    unblock_effect hr hret
  · -- the thread had blocked and is runnable now
    have hkeep : ∀ st, st ≠ .runnable → s.sched.state me = st → r.sys.sched.state me = st := by
      intro st hst h
      rw [hstate] at h
      grind
    refine ⟨hr', hi.not_idle, fun hun h => ?_, fun hphase h => ?_, fun hphase hun => ?_,
      fun hphase => ?_⟩
    · rw [hstate] at h
      have := hi.awake
      grind
    · exact hi.testing hphase (hkeep _ (by decide) h)
    · have hne : t ≠ me := by
        rintro rfl
        exact hi.testing hphase ht
      rw [hflag]
      refine hi.flagged hphase ?_
      simpa [hne] using hun
    · rw [hstate]
      have := hi.blocked hphase
      grind
  · -- the thread had not blocked, so the flag keeps the unblock
    refine ⟨⟨q, hsched ▸ hr⟩, hi.not_idle, fun hun => ?_, fun hphase => ?_, fun hphase hun => ?_,
      fun hphase => ?_⟩
    · rw [hsched]
      have := hi.awake
      grind
    · rw [hsched]
      exact hi.testing hphase
    · have hold := hi.flagged hphase
      show s.unblockedWithoutBeingBlocked me = true
      rw [hflag, Function.update_apply]
      grind
    · rw [hsched]
      exact hi.blocked hphase
  · have hsame : (r.unblocked || decide (CpuState.gone = .thread me)) = r.unblocked := by simp
    rw [hsame]
    exact hi

theorem Inv.sched {r : Round} (hi : Inv cfg me r) {op : Op} {s : Sched}
    (hop : Permitted cfg r.sys.sched op)
    (hblock : r.sys.sched.curthr = me → op ≠ .block .blockedUser)
    (hinside : r.sys.sched.curthr = me → r.phase = .blocked →
      op = .reschedule ∨ ∃ irqThread, op = .activateInterrupt irqThread)
    (hret : Returns (exec cfg op r.sys.sched) s) :
    Inv cfg me { r with sys := { r.sys with sched := s } } := by
  obtain ⟨q, hr⟩ := hi.running
  obtain ⟨s', q', hret', hr', hstate⟩ := hr.exec hop
  obtain rfl := hret.unique hret'
  have hnew : s.state me = .blockedUser → r.sys.sched.state me = .blockedUser := by
    intro h
    rw [hstate] at h
    obtain h | ⟨rfl, rfl⟩ := blockedUser_of_stateAfter hop h
    · exact h
    · exact absurd rfl (hblock rfl)
  refine ⟨⟨q', hr'⟩, hi.not_idle, fun hun h => hi.awake hun (hnew h),
    fun hphase h => hi.testing hphase (hnew h), hi.flagged, fun hphase => ?_⟩
  show s.state me = .blockedUser ∨ s.state me = .runnable
  rw [hstate]
  obtain h | h := hi.blocked hphase
  · exact stateAfter_of_blockedUser hop hr.cur_runnable h
  · -- a thread that is about to leave `Sched_block` is only preempted or interrupted
    by_cases hcur : r.sys.sched.curthr = me
    · obtain rfl | ⟨irqThread, rfl⟩ := hinside hcur hphase
      · exact Or.inr h
      · right
        simp only [stateAfter]
        grind
    · right
      exact runnable_stateAfter hop (Ne.symm hcur) h

theorem Inv.block {r : Round} (hi : Inv cfg me r) {s : State} (hcur : r.sys.sched.curthr = me)
    (hphase : r.phase = .testing) (hret : Returns (blockIfNotUnblocked cfg r.sys) s) :
    Inv cfg me { r with
      sys := s
      phase := if r.sys.unblockedWithoutBeingBlocked me = true then .outside else .blocked } := by
  obtain ⟨q, hr⟩ := hi.running
  by_cases hset : r.sys.unblockedWithoutBeingBlocked me = true
  · obtain rfl := hret.unique (blockIfNotUnblocked_set (hcur ▸ hset))
    rw [if_pos hset]
    exact ⟨hi.running, hi.not_idle, hi.awake, nofun, nofun, nofun⟩
  · have hnot : r.unblocked ≠ true := mt (hi.flagged hphase) hset
    have hclear : r.sys.unblockedWithoutBeingBlocked r.sys.sched.curthr = false := by
      rw [hcur]
      simpa using hset
    obtain ⟨s', q', hret', hr', hstate⟩ :=
      blockIfNotUnblocked_clear hr (hcur ▸ hi.not_idle) hclear
    obtain rfl := hret.unique hret'
    rw [if_neg hset]
    refine ⟨⟨q', hr'⟩, hi.not_idle, fun hun => absurd hun hnot, nofun, nofun, fun _ => Or.inl ?_⟩
    show s.sched.state me = .blockedUser
    rw [hstate, hcur, Function.update_self]

theorem Inv.clear {r : Round} (hi : Inv cfg me r) (hcur : r.sys.sched.curthr = me) :
    Inv cfg me ⟨clearUnblockFlag r.sys, .testing, false⟩ := by
  obtain ⟨q, hr⟩ := hi.running
  refine ⟨hi.running, hi.not_idle, nofun, fun _ => ?_, fun _ => nofun, nofun⟩
  show r.sys.sched.state me ≠ .blockedUser
  rw [← hcur, hr.cur_runnable]
  decide

theorem Inv.blockReturn {r : Round} (hi : Inv cfg me r) :
    Inv cfg me { r with
      sys := { r.sys with sched := r.sys.sched.blockReturn }
      phase := .outside } := by
  obtain ⟨q, hr⟩ := hi.running
  have hset : r.sys.sched.blockReturn = r.sys.sched := by
    rw [Sched.blockReturn, Sched.setState, ← hr.cur_runnable, Function.update_eq_self]
  rw [hset]
  refine ⟨hi.running, hi.not_idle, hi.awake, ?_, ?_, ?_⟩
  all_goals
    intro hphase
    cases hphase

theorem Inv.step {r r' : Round} (hi : Inv cfg me r) (h : Step cfg me r r') : Inv cfg me r' := by
  cases h with
  | clear hcur _ => exact hi.clear hcur
  | block hcur hphase hret => exact hi.block hcur hphase hret
  | blockReturn _ _ => exact hi.blockReturn
  | unblock hret => exact hi.unblock hret
  | sched hop hblock hinside hret => exact hi.sched hop hblock hinside hret

theorem Inv.noLostUnblock {r : Round} (hi : Inv cfg me r) : NoLostUnblock cfg me r := by
  obtain ⟨q, hr⟩ := hi.running
  refine ⟨hi.awake, ?_, ?_, ?_, q, hr.consistent⟩
  · intro hphase hun hcur
    exact blockIfNotUnblocked_set (hcur ▸ hi.flagged hphase hun)
  · intro hblocked
    obtain ⟨s, _, hret, -, hstate, -⟩ := unblock_blocked hr hblocked
    refine ⟨s, hret, ?_⟩
    rw [hstate, Function.update_self]
  · intro hphase hun
    have hstate := (hi.blocked hphase).resolve_left (hi.awake hun)
    refine ⟨hstate, ?_⟩
    by_cases hcur : me = r.sys.sched.curthr
    · exact Or.inl hcur
    · obtain h | h | h := hr.complete me hstate hcur
      · exact absurd h hi.not_idle
      · exact Or.inr (Or.inl h)
      · exact Or.inr (Or.inr ⟨q, hr.consistent, h⟩)

/-- **In every interleaving, no unblock is lost.** -/
theorem noLostUnblock_of_run {r₀ r : Round} (hstart : Start cfg me r₀)
    (hrun : Relation.ReflTransGen (Step cfg me) r₀ r) : NoLostUnblock cfg me r :=
  (invariant_of_run (fun _ _ hi h => Inv.step hi h) hrun hstart.inv).noLostUnblock

/-- Thread 1 blocks in its round, and thread 2 unblocks it. -/
theorem noLostUnblock_woken : ∃ r₀ r : Round, Start ⟨0, 0, [0]⟩ 1 r₀ ∧
    Relation.ReflTransGen (Step ⟨0, 0, [0]⟩ 1) r₀ r ∧ r.phase = .blocked ∧ r.unblocked = true ∧
    r.sys.sched.curthr = 2 ∧ NoLostUnblock ⟨0, 0, [0]⟩ 1 r := by
  let r₀ : Round :=
    { sys :=
        { sched :=
            { domain := fun _ => 0
              state := fun t => if t ≤ 1 then .runnable else .unborn
              threadNext := fun _ => none
              threadQueue := fun _ => ⟨none, none⟩
              domainNext := fun _ => none
              domainRunqueue := ⟨none, none⟩
              curthr := 1
              interrupted := [] }
          unblockedWithoutBeingBlocked := fun _ => true }
      phase := .outside
      unblocked := false }
  have hstart : Start ⟨0, 0, [0]⟩ 1 r₀ := by
    refine ⟨⟨rfl, fun _ => rfl, rfl, rfl, fun t => ?_⟩, by decide, rfl, rfl⟩
    show (if t ≤ 1 then ThreadState.runnable else .unborn) = .runnable ↔ t = 1 ∨ t = 0
    rw [or_comm, ← Nat.le_one_iff_eq_zero_or_eq_one]
    by_cases ht : t ≤ 1 <;> simp [ht]
  have h₀ : Relation.ReflTransGen (Step ⟨0, 0, [0]⟩ 1) r₀ r₀ := .refl
  have h₁ := h₀.tail (Step.sched
    (show Permitted _ _ (.createThread 2 .runnable .default) from ⟨rfl, Or.inl ⟨rfl, rfl⟩⟩)
    (fun _ => nofun) (fun _ => nofun) ⟨0, fun _ _ => rfl⟩)
  have h₂ := h₁.tail (Step.clear rfl nofun)
  have h₃ := h₂.tail (Step.block rfl rfl ⟨3, fun fuel hfuel => by
    obtain ⟨k, rfl⟩ := Nat.exists_eq_add_of_le' hfuel
    rfl⟩)
  have h₄ := h₃.tail (Step.unblock (show Returns (unblock _ (.thread 1)) _ from
    ⟨3, fun fuel hfuel => by
      obtain ⟨k, rfl⟩ := Nat.exists_eq_add_of_le' hfuel
      rfl⟩))
  exact ⟨r₀, _, hstart, h₄, rfl, rfl, rfl, noLostUnblock_of_run hstart h₄⟩

end Runs

end JxCore.CpuManager
