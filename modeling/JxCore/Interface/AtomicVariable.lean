import JxCore.Interface.CpuManager

/-!
# Atomic variables (`Interface/zero_AtomicVariable.c`)

A thread blocks on a variable as long as its value is, or is not, a given one; whoever changes the
value unblocks the thread in the same step. In list mode any number of threads may be blocked on one
variable, linked through `thread->next`; otherwise there is at most one.

A thread that is blocked on a variable can also be unblocked through the CPU manager. It is then
runnable while the variable still refers to it.
-/

namespace JxCore.AtomicVariable

open Lib Runq Exec CpuManager

/-- An `AtomicVariableProxy *`. -/
abbrev Var := Nat

/-- An `AtomicVariableProxy`. -/
structure AtomicVariableProxy where
  /-- The address of an object. -/
  value : Nat
  blockedThread : Option Thread
  listMode : Bool

structure State extends CpuManager.State where
  /-- `thread->next`. -/
  next : Links Thread
  var : Var → AtomicVariableProxy
  /-- A record of the past: the variable on which a thread has blocked and not been unblocked. -/
  waitsFor : Thread → Option Var
  /-- A record of the past: the threads that were unblocked, with the state each was in. -/
  appended : List (Thread × ThreadState)

/-- `self->value = value`. -/
def State.setValue (s : State) (self : Var) (value : Nat) : State :=
  { s with var := Function.update s.var self { s.var self with value := value } }

/-- `self->blockedThread = thread`. -/
def State.setBlocked (s : State) (self : Var) (thread : Option Thread) : State :=
  { s with var := Function.update s.var self { s.var self with blockedThread := thread } }

/-- `threadunblock`. -/
def threadunblock (fuel : Nat) (s : State) (t : Thread) : Exec State := do
  let sched ← s.sched.threadunblock fuel t
  return { s with
    sched := sched
    waitsFor := Function.update s.waitsFor t none
    appended := (t, s.sched.state t) :: s.appended }

/-- The loop of `atomicvariable_atomicUpdateUnblock`. -/
def unblockAll (fuel : Nat) : Nat → State → Option Thread → Exec State
  | 0, _, _ => loop none
  | _ + 1, s, none => return s
  | n + 1, s, some t => do
    let s ← threadunblock fuel s t
    unblockAll fuel n s (s.next t)

/-- `atomicvariable_atomicUpdateUnblock`. -/
def atomicUpdateUnblock (s : State) (self : Var) (value : Nat) (cpuStateProxy : CpuState)
    (fuel : Nat) : Exec State :=
  let s := s.setValue self value
  if (s.var self).listMode then do
    let s ← unblockAll fuel fuel s (s.var self).blockedThread
    return s.setBlocked self none
  else
    match cpuStateProxy, (s.var self).blockedThread with
    | .null, _ | _, none => return s
    | .gone, some _ => throw (.assertion "cpuState->magic==MAGIC_THREAD")
    | .thread cpuState, some blockedThread => do
      assert (blockedThread = cpuState) "self->blockedThread == cpuState"
      if s.sched.state cpuState = .blockedUser then
        threadunblock fuel (s.setBlocked self none) cpuState
      else return s

/-- The body of `atomicvariable_blockIfEqual` and `atomicvariable_blockIfNotEqual`: the current thread
becomes one that is blocked on the variable, up to the point where another thread runs. -/
def block (cfg : Config) (s : State) (self : Var) (fuel : Nat) : Exec State := do
  let thread := s.sched.curthr
  let s ← if (s.var self).listMode then
      pure { s with next := Function.update s.next thread (s.var self).blockedThread }
    else do
      assert ((s.var self).blockedThread = none ∨ (s.var self).blockedThread = some thread)
        "self->blockedThread == NULL || self->blockedThread == thread"
      pure s
  let s := s.setBlocked self (some thread)
  let sched ← s.sched.block cfg fuel .blockedUser
  return { s with
    sched := sched
    waitsFor := Function.update s.waitsFor thread (some self) }

/-- `atomicvariable_blockIfEqual`. -/
def blockIfEqual (cfg : Config) (s : State) (self : Var) (test fuel : Nat) : Exec State :=
  if (s.var self).value = test then block cfg s self fuel else return s

/-- `atomicvariable_blockIfNotEqual`. -/
def blockIfNotEqual (cfg : Config) (s : State) (self : Var) (test fuel : Nat) : Exec State :=
  if (s.var self).value ≠ test then block cfg s self fuel else return s

/-- `atomicvariable_activateListMode`. -/
def activateListMode (s : State) (self : Var) : State :=
  { s with var := Function.update s.var self { s.var self with listMode := true } }

/-- `cpuManager_unblock`; the records tell of the thread it wakes. -/
def unblock (s : State) (cpuState : CpuState) (fuel : Nat) : Exec State := do
  let (woken, m) ← CpuManager.unblock s.toState cpuState fuel
  match woken, cpuState with
  | true, .thread t =>
    return { s with
      toState := m
      waitsFor := Function.update s.waitsFor t none
      appended := (t, s.sched.state t) :: s.appended }
  | _, _ => return { s with toState := m }

/-! ## Interleavings -/

inductive Call where
  | set (self : Var) (value : Nat)
  | atomicUpdateUnblock (self : Var) (value : Nat) (cpuStateProxy : CpuState)
  | blockIfEqual (self : Var) (test : Nat)
  | blockIfNotEqual (self : Var) (test : Nat)
  | activateListMode (self : Var)
  | unblock (cpuState : CpuState)
  /-- What else happens in the scheduler. -/
  | sched (op : Op)

/-- The current thread makes a call; each is one step. -/
def exec (cfg : Config) (s : State) (call : Call) (fuel : Nat) : Exec State :=
  match call with
  | .set self value => return s.setValue self value
  | .atomicUpdateUnblock self value cpuStateProxy =>
    atomicUpdateUnblock s self value cpuStateProxy fuel
  | .blockIfEqual self test => blockIfEqual cfg s self test fuel
  | .blockIfNotEqual self test => blockIfNotEqual cfg s self test fuel
  | .activateListMode self => return activateListMode s self
  | .unblock cpuState => unblock s cpuState fuel
  | .sched op => do
    let sched ← Runq.exec cfg op s.sched fuel
    return { s with sched := sched }

/-- What else happens in the scheduler does not unblock the threads that block themselves, and the idle
thread makes no calls of its own. -/
def Possible (cfg : Config) (s : State) : Call → Prop
  | .sched op => Permitted cfg s.sched op ∧
      ∀ t, s.sched.state t = .blockedUser → stateAfter s.sched op t = .blockedUser
  | .blockIfEqual _ _ | .blockIfNotEqual _ _ => s.sched.curthr ≠ cfg.idle
  | _ => True

/-- One step of an interleaving, in which every call meets `allowed`. -/
def Step (cfg : Config) (allowed : State → Call → Prop) (s s' : State) : Prop :=
  ∃ call, Possible cfg s call ∧ allowed s call ∧ Returns (exec cfg s call) s'

/-- The threads that are blocked on a variable, as far as the variable knows. -/
def Members (s : State) (v : Var) (l : List Thread) : Prop :=
  if (s.var v).listMode = true then Chain s.next (s.var v).blockedThread l
  else l = (s.var v).blockedThread.toList

/-- The condition: the CPU manager does not unblock a thread that a variable refers to, and list mode
is not activated while the variable refers to a thread with a link left over from earlier. -/
def Unshared (s : State) : Call → Prop
  | .unblock (.thread t) => ∀ v l, Members s v l → t ∉ l
  | .activateListMode v =>
    (s.var v).listMode = true ∨ ∀ t, (s.var v).blockedThread = some t → s.next t = none
  | _ => True

/-- Before the first call nobody is blocked on a variable. -/
structure Start (cfg : Config) (s : State) : Prop where
  initial : Initial cfg s.sched
  none_blocked : ∀ v, (s.var v).blockedThread = none
  none_waits : ∀ t, s.waitsFor t = none
  none_appended : s.appended = []

/-- **Blocking on atomic variables is sound.** -/
structure Sound (cfg : Config) (s : State) : Prop where
  /-- A thread that has blocked is unblocked by the next update that names it, or in list mode by the
  next update at all. -/
  wakes : ∀ v t, s.waitsFor t = some v → ∀ value cpuState,
    (s.var v).listMode = true ∨ cpuState = .thread t →
    ∃ s' q, Returns (atomicUpdateUnblock s v value cpuState) s' ∧ s'.sched.state t = .runnable ∧
      Consistent cfg s'.sched q ∧ t ∈ q.thr (s'.sched.domain t)
  /-- The threads blocked on a variable are finitely many and distinct, and all of them blocked. -/
  members : ∀ v, ∃ l, Members s v l ∧ l.Nodup ∧ ∀ t ∈ l, s.sched.state t = .blockedUser
  /-- No thread was put into a run queue while it was runnable. -/
  appended : ∀ p ∈ s.appended, p.2 ≠ .runnable

/-! ## Unblocking -/

section Unblocking

variable {cfg : Config} {s : State} {q : Queues}

/-- Queueing a thread changes nothing but the queues. -/
theorem sameThreads_of_enqueue {s s' : Sched} {fuel : Nat} {t : Thread} {d : Domain}
    (h : s.enqueue fuel t d = pure s') : SameThreads s s' := by
  unfold Sched.enqueue at h
  simp only at h
  split at h
  · -- the domain is queued as well
    obtain ⟨found, -, h⟩ := bind_eq_pure h
    cases found with
    | true => cases h
    | false =>
      simp only [Bool.false_eq_true, if_false] at h
      split at h
      · obtain ⟨_, -, h⟩ := bind_eq_pure h
        cases h
        exact ⟨rfl, rfl, rfl, rfl⟩
      · cases h
        exact ⟨rfl, rfl, rfl, rfl⟩
  · cases h
    exact ⟨rfl, rfl, rfl, rfl⟩

/-- The threads in `l` were unblocked, and nothing else has changed. -/
structure Wakes (s : State) (l : List Thread) (s' : State) : Prop where
  state : ∀ t, s'.sched.state t = if t ∈ l then .runnable else s.sched.state t
  domain : s'.sched.domain = s.sched.domain
  curthr : s'.sched.curthr = s.sched.curthr
  interrupted : s'.sched.interrupted = s.sched.interrupted
  next : s'.next = s.next
  var : s'.var = s.var
  waitsFor : ∀ t, s'.waitsFor t = if t ∈ l then none else s.waitsFor t
  appended : ∀ p ∈ s'.appended, p ∈ s.appended ∨ p.2 ≠ .runnable

theorem Wakes.nil (s : State) : Wakes s [] s :=
  ⟨by simp, rfl, rfl, rfl, rfl, rfl, by simp, fun _ => Or.inl⟩

theorem Wakes.cons {s s' s'' : State} {t : Thread} {l : List Thread} (h : Wakes s [t] s')
    (h' : Wakes s' l s'') : Wakes s (t :: l) s'' := by
  refine ⟨fun x => ?_, h'.domain.trans h.domain, h'.curthr.trans h.curthr,
    h'.interrupted.trans h.interrupted, h'.next.trans h.next, h'.var.trans h.var, fun x => ?_,
    fun p hp => ?_⟩
  · have hx := h.state x
    rw [h'.state x]
    grind
  · have hx := h.waitsFor x
    rw [h'.waitsFor x]
    grind
  · exact (h'.appended p hp).elim (h.appended p) Or.inr

/-- Unblocking one thread that is not runnable. -/
theorem threadunblock_wakes (hr : Running cfg s.sched q) {t : Thread}
    (ht : s.sched.state t ≠ .runnable) :
    ∃ s' q', Returns (fun fuel => threadunblock fuel s t) s' ∧ Running cfg s'.sched q' ∧
      Wakes s [t] s' := by
  obtain ⟨sched, q', ⟨n, hn⟩, hr', hstate⟩ := hr.unblock_restores ht
  have hsame := sameThreads_of_enqueue (hn n (Nat.le_refl n))
  refine ⟨{ s with
    sched := sched
    waitsFor := Function.update s.waitsFor t none
    appended := (t, s.sched.state t) :: s.appended }, q', ⟨n, fun fuel hfuel => ?_⟩, hr', ?_⟩
  · simp only [threadunblock, hn fuel hfuel, pure_bind]
  · refine ⟨fun x => ?_, hsame.domain, hsame.curthr, hsame.interrupted, rfl, rfl, fun x => ?_,
      fun p hp => ?_⟩
    · rw [hstate, Function.update_apply]
      simp
    · show Function.update s.waitsFor t none x = _
      rw [Function.update_apply]
      simp
    · rcases List.mem_cons.mp hp with rfl | hp
      · exact Or.inr ht
      · exact Or.inl hp

/-- The loop of an update unblocks the chain of blocked threads, each of them once. -/
theorem unblockAll_wakes (hr : Running cfg s.sched q) {p : Option Thread} {l : List Thread}
    (hchain : Chain s.next p l) (hnodup : l.Nodup)
    (hblocked : ∀ t ∈ l, s.sched.state t ≠ .runnable) :
    ∃ s' q' n, (∀ fuel ≥ n, ∀ k > l.length, unblockAll fuel k s p = pure s') ∧
      Running cfg s'.sched q' ∧ Wakes s l s' := by
  induction l generalizing s q p with
  | nil =>
    refine ⟨s, q, 0, fun fuel _ k hk => ?_, hr, Wakes.nil s⟩
    obtain ⟨k, rfl⟩ := Nat.exists_eq_succ_of_ne_zero (Nat.ne_of_gt hk)
    rw [show p = none from hchain, unblockAll]
  | cons t l ih =>
    obtain ⟨rfl, hchain⟩ := hchain
    obtain ⟨hout, hnodup⟩ := List.nodup_cons.mp hnodup
    obtain ⟨s₁, q₁, ⟨n, hcall⟩, hr₁, hw⟩ := threadunblock_wakes hr (hblocked t List.mem_cons_self)
    have hchain₁ : Chain s₁.next (s₁.next t) l := by
      rw [hw.next]
      exact hchain
    have hblocked₁ : ∀ x ∈ l, s₁.sched.state x ≠ .runnable := by
      intro x hx
      have hxt : x ∉ [t] := by
        rw [List.mem_singleton]
        rintro rfl
        exact hout hx
      rw [hw.state, if_neg hxt]
      exact hblocked x (List.mem_cons_of_mem t hx)
    obtain ⟨s', q', m, hloop, hr', hw'⟩ := ih hr₁ hchain₁ hnodup hblocked₁
    refine ⟨s', q', max n m, fun fuel hfuel k hk => ?_, hr', hw.cons hw'⟩
    obtain ⟨k, rfl⟩ := Nat.exists_eq_succ_of_ne_zero (Nat.ne_of_gt (Nat.zero_lt_of_lt hk))
    have hone : threadunblock fuel s t = pure s₁ :=
      hcall fuel (Nat.le_trans (Nat.le_max_left n m) hfuel)
    rw [unblockAll, hone, pure_bind]
    exact hloop fuel (Nat.le_trans (Nat.le_max_right n m) hfuel) k (Nat.lt_of_succ_lt_succ hk)

end Unblocking

/-! ## The invariant -/

section Invariant

variable {cfg : Config} {s : State} {lists : Var → List Thread}

/-- Every blocked thread is in the list of exactly the variable it waits for. -/
structure Inv (cfg : Config) (s : State) (lists : Var → List Thread) : Prop where
  running : ∃ q, Running cfg s.sched q
  members : ∀ v, Members s v (lists v)
  nodup : ∀ v, (lists v).Nodup
  blocked : ∀ v, ∀ t ∈ lists v, s.sched.state t = .blockedUser
  waits : ∀ v t, s.waitsFor t = some v ↔ t ∈ lists v
  appended : ∀ p ∈ s.appended, p.2 ≠ .runnable

theorem Start.inv (h : Start cfg s) : Inv cfg s fun _ => [] where
  running := ⟨_, running_of_initial h.initial⟩
  members := by
    intro v
    unfold Members
    rw [h.none_blocked v]
    split
    · rfl
    · rfl
  nodup := fun _ => List.nodup_nil
  blocked := by simp
  waits := by simp [h.none_waits]
  appended := by simp [h.none_appended]

theorem Inv.disjoint (hi : Inv cfg s lists) {v w : Var} {t : Thread} (hv : t ∈ lists v)
    (hw : t ∈ lists w) : v = w :=
  Option.some.inj (((hi.waits v t).mpr hv).symm.trans ((hi.waits w t).mpr hw))

/-- The value of a variable is of no concern. -/
theorem Inv.setValue (hi : Inv cfg s lists) (v : Var) (value : Nat) :
    Inv cfg (s.setValue v value) lists := by
  refine ⟨hi.running, fun w => ?_, hi.nodup, hi.blocked, hi.waits, hi.appended⟩
  have hw := hi.members w
  unfold Members State.setValue at *
  grind

/-- Once all threads blocked on a variable are unblocked, the variable refers to none. -/
theorem Inv.wakeAll (hi : Inv cfg s lists) {v : Var} {s' : State} {q : Queues}
    (hw : Wakes s (lists v) s') (hr : Running cfg s'.sched q) :
    Inv cfg (s'.setBlocked v none) (Function.update lists v []) := by
  have hother : ∀ w, w ≠ v → ∀ t ∈ lists w, t ∉ lists v := fun w hwv t ht htv =>
    hwv (hi.disjoint ht htv)
  refine ⟨⟨q, hr⟩, fun w => ?_, fun w => ?_, fun w t ht => ?_, fun w t => ?_, fun p hp => ?_⟩
  · by_cases hwv : w = v
    · subst hwv
      simp only [Function.update_self]
      unfold Members State.setBlocked
      simp [Chain]
    · have hm := hi.members w
      rw [Function.update_of_ne hwv]
      unfold Members State.setBlocked at *
      simp only [Function.update_of_ne hwv, hw.var, hw.next]
      exact hm
  · by_cases hwv : w = v
    · simp [hwv]
    · rw [Function.update_of_ne hwv]
      exact hi.nodup w
  · by_cases hwv : w = v
    · simp [hwv] at ht
    · rw [Function.update_of_ne hwv] at ht
      show s'.sched.state t = _
      rw [hw.state, if_neg (hother w hwv t ht)]
      exact hi.blocked w t ht
  · show s'.waitsFor t = some w ↔ _
    rw [hw.waitsFor, Function.update_apply]
    have := hi.waits w t
    have := hi.waits v t
    grind
  · exact (hw.appended p hp).elim (hi.appended p) id

/-! ## The calls -/

theorem Inv.members_of_not_listMode (hi : Inv cfg s lists) {v : Var}
    (hmode : (s.var v).listMode ≠ true) : lists v = (s.var v).blockedThread.toList := by
  have hm := hi.members v
  unfold Members at hm
  rwa [if_neg hmode] at hm

/-- An update in list mode, or one that names the blocked thread, unblocks all there are. -/
theorem Inv.update_wakes (hi : Inv cfg s lists) {v : Var} (value : Nat) {cpuState : CpuState}
    (h : (s.var v).listMode = true ∨ ∃ t, cpuState = .thread t ∧ t ∈ lists v) :
    ∃ s' q, Returns (atomicUpdateUnblock s v value cpuState) (s'.setBlocked v none) ∧
      Running cfg s'.sched q ∧ Wakes (s.setValue v value) (lists v) s' := by
  have hi₁ := hi.setValue v value
  obtain ⟨q, hr⟩ := hi₁.running
  have hnot : ∀ t ∈ lists v, (s.setValue v value).sched.state t ≠ .runnable := by
    intro t ht
    rw [hi₁.blocked v t ht]
    decide
  have hmode : ((s.setValue v value).var v).listMode = (s.var v).listMode := by
    simp [State.setValue]
  have hthread : ((s.setValue v value).var v).blockedThread = (s.var v).blockedThread := by
    simp [State.setValue]
  by_cases hlist : (s.var v).listMode = true
  · have hchain := hi₁.members v
    unfold Members at hchain
    rw [hmode, if_pos hlist] at hchain
    obtain ⟨s', q', n, hcall, hr', hw⟩ := unblockAll_wakes hr hchain (hi.nodup v) hnot
    refine ⟨s', q', ⟨n + (lists v).length + 1, fun fuel hfuel => ?_⟩, hr', hw⟩
    simp only [atomicUpdateUnblock, hmode, hlist, if_true]
    rw [hcall fuel (by omega) fuel (by omega)]
    rfl
  · obtain ⟨t, rfl, ht⟩ := h.resolve_left hlist
    have hsome : (s.var v).blockedThread = some t := by
      rw [hi.members_of_not_listMode hlist, Option.mem_toList] at ht
      exact ht
    have hone : lists v = [t] := by
      rw [hi.members_of_not_listMode hlist, hsome]
      rfl
    obtain ⟨s', q', hret, hr', hw⟩ := threadunblock_wakes hr (hnot t ht)
    refine ⟨s', q', ?_, hr', hone ▸ hw⟩
    have hcall : atomicUpdateUnblock s v value (.thread t) = fun fuel =>
        threadunblock fuel (s.setValue v value) t >>= fun s => pure (s.setBlocked v none) := by
      funext fuel
      simp only [atomicUpdateUnblock, hmode, hlist, hthread, hsome, assert_pos, pure_bind,
        Bool.false_eq_true, if_false, hi₁.blocked v t ht, if_true]
      simp only [threadunblock, bind_assoc, pure_bind]
      rfl
    rw [hcall]
    exact hret.bind (Returns.pure _)

theorem Inv.update (hi : Inv cfg s lists) {v : Var} {value : Nat} {cpuState : CpuState} {s' : State}
    (hret : Returns (atomicUpdateUnblock s v value cpuState) s') :
    ∃ lists', Inv cfg s' lists' := by
  by_cases hwake : (s.var v).listMode = true ∨ ∃ t, cpuState = .thread t ∧ t ∈ lists v
  · obtain ⟨s₁, q, hret₁, hr, hw⟩ := hi.update_wakes value hwake
    rw [hret.unique hret₁]
    exact ⟨_, (hi.setValue v value).wakeAll hw hr⟩
  · -- otherwise the update finds nobody to unblock, or it does not come back
    obtain ⟨hmode, hnamed⟩ := not_or.mp hwake
    suffices hsame : s' = s.setValue v value from ⟨lists, hsame ▸ hi.setValue v value⟩
    obtain ⟨n, hn⟩ := hret
    have hcall := hn n (Nat.le_refl n)
    have hthread : ((s.setValue v value).var v).blockedThread = (s.var v).blockedThread := by
      simp [State.setValue]
    have hmode₁ : ((s.setValue v value).var v).listMode = false := by
      simpa [State.setValue] using hmode
    simp only [atomicUpdateUnblock, hmode₁, hthread, Bool.false_eq_true, if_false] at hcall
    cases hb : (s.var v).blockedThread with
    | none =>
      rw [hb] at hcall
      cases cpuState <;> (cases hcall; rfl)
    | some b =>
      rw [hb] at hcall
      match cpuState with
      | .null =>
        cases hcall
        rfl
      | .gone => cases hcall
      | .thread t =>
        have hne : b ≠ t := by
          rintro rfl
          refine hnamed ⟨b, rfl, ?_⟩
          rw [hi.members_of_not_listMode hmode, hb]
          exact List.mem_singleton_self b
        simp only [assert, if_neg hne] at hcall
        cases hcall

/-- The current thread blocks on a variable. -/
theorem Inv.block (hi : Inv cfg s lists) {v : Var} {s' : State} (hidle : s.sched.curthr ≠ cfg.idle)
    (hret : Returns (block cfg s v) s') : ∃ lists', Inv cfg s' lists' := by
  obtain ⟨q, hr⟩ := hi.running
  have hout : ∀ w, s.sched.curthr ∉ lists w := by
    intro w hw
    cases (hi.blocked w _ hw).symm.trans hr.cur_runnable
  obtain ⟨sched, q', hsched, hr', hstate⟩ :=
    hr.block hidle (show ThreadState.blockedUser ≠ .runnable by decide)
  -- the state just before the thread gives up the processor
  obtain ⟨next, hnext, hlink, hs'⟩ : ∃ next, (∀ t, t ≠ s.sched.curthr → next t = s.next t) ∧
      ((s.var v).listMode = true ∧ next s.sched.curthr = (s.var v).blockedThread ∨
        (s.var v).listMode ≠ true ∧ (s.var v).blockedThread = none) ∧
      s' = { s.setBlocked v (some s.sched.curthr) with
        next := next
        sched := sched
        waitsFor := Function.update s.waitsFor s.sched.curthr (some v) } := by
    by_cases hmode : (s.var v).listMode = true
    · refine ⟨Function.update s.next s.sched.curthr (s.var v).blockedThread,
        fun t ht => Function.update_of_ne ht _ _, Or.inl ⟨hmode, Function.update_self ..⟩, ?_⟩
      refine hret.unique ?_
      have hcall : AtomicVariable.block cfg s v = fun fuel =>
          s.sched.block cfg fuel .blockedUser >>= fun sched => pure
            { s.setBlocked v (some s.sched.curthr) with
              next := Function.update s.next s.sched.curthr (s.var v).blockedThread
              sched := sched
              waitsFor := Function.update s.waitsFor s.sched.curthr (some v) } := by
        funext fuel
        simp only [AtomicVariable.block, hmode, if_true, pure_bind]
        rfl
      rw [hcall]
      exact hsched.bind (Returns.pure _)
    · have hsome : (s.var v).blockedThread ≠ some s.sched.curthr := by
        intro h
        refine hout v ?_
        rw [hi.members_of_not_listMode hmode, h]
        exact List.mem_singleton_self _
      have hnone : (s.var v).blockedThread = none := by
        by_contra hne
        obtain ⟨n, hn⟩ := hret
        have hcall := hn n (Nat.le_refl n)
        simp only [AtomicVariable.block, hmode, assert, hne, hsome, or_self, if_false,
          Bool.false_eq_true] at hcall
        cases hcall
      refine ⟨s.next, fun _ _ => rfl, Or.inr ⟨hmode, hnone⟩, hret.unique ?_⟩
      have hcall : AtomicVariable.block cfg s v = fun fuel =>
          s.sched.block cfg fuel .blockedUser >>= fun sched => pure
            { s.setBlocked v (some s.sched.curthr) with
              sched := sched
              waitsFor := Function.update s.waitsFor s.sched.curthr (some v) } := by
        funext fuel
        simp only [AtomicVariable.block, hmode, assert_pos (Or.inl hnone), if_false, pure_bind,
          Bool.false_eq_true]
        rfl
      rw [hcall]
      exact hsched.bind (Returns.pure _)
  have hmem : ∀ w t, t ∈ Function.update lists v (s.sched.curthr :: lists v) w ↔
      t ∈ lists w ∨ w = v ∧ t = s.sched.curthr := by
    intro w t
    rw [Function.update_apply]
    grind
  subst hs'
  refine ⟨Function.update lists v (s.sched.curthr :: lists v), ⟨q', hr'⟩, fun w => ?_, fun w => ?_,
    fun w t ht => ?_, fun w t => ?_, hi.appended⟩
  · have hm := hi.members w
    unfold Members State.setBlocked at *
    by_cases hwv : w = v
    · subst hwv
      simp only [Function.update_self]
      obtain ⟨hmode, hlink⟩ | ⟨hmode, hnone⟩ := hlink
      · rw [if_pos hmode] at hm ⊢
        refine ⟨rfl, ?_⟩
        rw [hlink]
        exact hm.congr fun t ht => hnext t fun h => hout w (h ▸ ht)
      · rw [if_neg hmode] at hm ⊢
        rw [hm, hnone]
        rfl
    · simp only [Function.update_of_ne hwv]
      split
      · rename_i hmode
        rw [if_pos hmode] at hm
        exact hm.congr fun t ht => hnext t fun h => hout w (h ▸ ht)
      · rename_i hmode
        rwa [if_neg hmode] at hm
  · rw [Function.update_apply]
    split
    · exact List.nodup_cons.mpr ⟨hout v, hi.nodup v⟩
    · exact hi.nodup w
  · show sched.state t = .blockedUser
    rw [hstate, Function.update_apply]
    have := hi.blocked w t
    have := (hmem w t).mp ht
    grind
  · show Function.update s.waitsFor s.sched.curthr (some v) t = some w ↔ _
    rw [hmem, Function.update_apply]
    have := hi.waits w t
    have := hout w
    grind

/-- The CPU manager unblocks a thread that no variable refers to. -/
theorem Inv.unblock (hi : Inv cfg s lists) {cpuState : CpuState} {s' : State}
    (hfree : Unshared s (.unblock cpuState)) (hret : Returns (unblock s cpuState) s') :
    Inv cfg s' lists := by
  obtain ⟨q, hr⟩ := hi.running
  match cpuState with
  | .null =>
    obtain ⟨n, hn⟩ := hret
    cases hn n (Nat.le_refl n)
  | .gone =>
    obtain rfl := hret.unique ⟨0, fun _ _ => rfl⟩
    exact hi
  | .thread t =>
    have hout : ∀ v, t ∉ lists v := fun v => hfree v (lists v) (hi.members v)
    by_cases ht : s.sched.state t = .blockedUser
    · obtain ⟨m, q', hcall, hr', hstate, -⟩ := unblock_blocked hr ht
      obtain rfl := hret.unique (hcall.bind (Returns.pure _))
      refine ⟨⟨q', hr'⟩, hi.members, hi.nodup, fun v x hx => ?_, fun v x => ?_, fun p hp => ?_⟩
      · have hne : x ≠ t := fun h => hout v (h ▸ hx)
        show m.sched.state x = .blockedUser
        rw [hstate, Function.update_of_ne hne]
        exact hi.blocked v x hx
      · have hx := hi.waits v x
        have := hout v
        show Function.update s.waitsFor t none x = some v ↔ _
        rw [Function.update_apply]
        grind
      · rcases List.mem_cons.mp hp with rfl | hp
        · show s.sched.state t ≠ .runnable
          rw [ht]
          decide
        · exact hi.appended p hp
    · obtain rfl := hret.unique ((unblock_unblocked ht).bind (Returns.pure _))
      exact ⟨⟨q, hr⟩, hi.members, hi.nodup, hi.blocked, hi.waits, hi.appended⟩

/-- A single thread without a link is a list, too. -/
theorem Inv.activateListMode (hi : Inv cfg s lists) {v : Var}
    (hlink : Unshared s (.activateListMode v)) : Inv cfg (activateListMode s v) lists := by
  refine ⟨hi.running, fun w => ?_, hi.nodup, hi.blocked, hi.waits, hi.appended⟩
  have hm := hi.members w
  unfold Members AtomicVariable.activateListMode at *
  by_cases hwv : w = v
  · subst hwv
    simp only [Function.update_self, if_true]
    obtain hmode | hnone := hlink
    · rwa [if_pos hmode] at hm
    · by_cases hmode : (s.var w).listMode = true
      · rwa [if_pos hmode] at hm
      · rw [if_neg hmode] at hm
        rw [hm]
        cases hb : (s.var w).blockedThread with
        | none => rfl
        | some t => exact ⟨rfl, hnone t hb⟩
  · simpa only [Function.update_of_ne hwv] using hm

theorem Inv.sched (hi : Inv cfg s lists) {op : Op} {s' : State}
    (hop : Possible cfg s (.sched op)) (hret : Returns (exec cfg s (.sched op)) s') :
    Inv cfg s' lists := by
  obtain ⟨q, hr⟩ := hi.running
  obtain ⟨sched, q', hcall, hr', hstate⟩ := hr.exec hop.1
  obtain rfl := hret.unique (hcall.bind (Returns.pure _))
  refine ⟨⟨q', hr'⟩, hi.members, hi.nodup, fun v t ht => ?_, hi.waits, hi.appended⟩
  show sched.state t = .blockedUser
  rw [hstate]
  exact hop.2 t (hi.blocked v t ht)

/-- A thread that finds its condition false goes on, otherwise it blocks. -/
theorem Inv.blockIf (hi : Inv cfg s lists) {v : Var} {cond : Prop} [Decidable cond] {s' : State}
    (hidle : s.sched.curthr ≠ cfg.idle)
    (hret : Returns (fun fuel => if cond then AtomicVariable.block cfg s v fuel else pure s) s') :
    ∃ lists', Inv cfg s' lists' := by
  by_cases hc : cond
  · simp only [if_pos hc] at hret
    exact hi.block hidle hret
  · simp only [if_neg hc] at hret
    rw [hret.unique (Returns.pure s)]
    exact ⟨lists, hi⟩

theorem Inv.step (hi : Inv cfg s lists) {s' : State} (h : Step cfg Unshared s s') :
    ∃ lists', Inv cfg s' lists' := by
  obtain ⟨call, hpos, hfree, hret⟩ := h
  cases call with
  | set self value =>
    rw [hret.unique (Returns.pure _)]
    exact ⟨lists, hi.setValue self value⟩
  | atomicUpdateUnblock self value cpuStateProxy => exact hi.update hret
  | blockIfEqual self test => exact hi.blockIf hpos hret
  | blockIfNotEqual self test => exact hi.blockIf hpos hret
  | activateListMode self =>
    rw [hret.unique (Returns.pure _)]
    exact ⟨lists, hi.activateListMode hfree⟩
  | unblock cpuState => exact ⟨lists, hi.unblock hfree hret⟩
  | sched op => exact ⟨lists, hi.sched hpos hret⟩

theorem Inv.sound (hi : Inv cfg s lists) : Sound cfg s := by
  refine ⟨fun v t ht value cpuState hnamed => ?_, fun v => ⟨lists v, hi.members v, hi.nodup v,
    hi.blocked v⟩, hi.appended⟩
  obtain ⟨q, hr⟩ := hi.running
  have hmem := (hi.waits v t).mp ht
  have hblocked := hi.blocked v t hmem
  have hne : s.sched.state t ≠ .runnable := by
    rw [hblocked]
    decide
  have hwake : (s.var v).listMode = true ∨ ∃ t, cpuState = .thread t ∧ t ∈ lists v := by
    obtain h | rfl := hnamed
    · exact Or.inl h
    · exact Or.inr ⟨t, rfl, hmem⟩
  obtain ⟨s', q', hret, hr', hw⟩ := hi.update_wakes value hwake
  have hrunnable : s'.sched.state t = .runnable := by
    rw [hw.state, if_pos hmem]
  refine ⟨_, q', hret, hrunnable, hr'.consistent, ?_⟩
  -- the thread was not runnable before, so it is neither running nor interrupted
  obtain ⟨-, hidle, hvictim⟩ := hr.fresh hne
  have hcur : t ≠ s'.sched.curthr := by
    rw [hw.curthr]
    rintro rfl
    exact hne hr.cur_runnable
  obtain h | h | h := hr'.complete t hrunnable hcur
  · exact absurd h hidle
  · exact absurd ((Sched.isVictim_congr hw.interrupted t).mp h) hvictim
  · exact h

/-- **In every interleaving in which the CPU manager leaves the threads of the variables alone,
blocking on atomic variables is sound.** -/
theorem sound_of_unshared {s₀ : State} (hstart : Start cfg s₀)
    (hrun : Relation.ReflTransGen (Step cfg Unshared) s₀ s) : Sound cfg s := by
  have hinv : ∃ lists, Inv cfg s lists := by
    refine invariant_of_run (I := fun s => ∃ lists, Inv cfg s lists) ?_ hrun ⟨_, hstart.inv⟩
    rintro s s' ⟨lists, hi⟩ h
    exact hi.step h
  obtain ⟨lists, hi⟩ := hinv
  exact hi.sound

/-- Thread 1 runs, and variable 0 has a value for which it may wait. -/
def initialState : State where
  sched :=
    { domain := fun _ => 0
      state := fun t => if t ≤ 1 then .runnable else .unborn
      threadNext := fun _ => none
      threadQueue := fun _ => ⟨none, none⟩
      domainNext := fun _ => none
      domainRunqueue := ⟨none, none⟩
      curthr := 1
      interrupted := [] }
  unblockedWithoutBeingBlocked := fun _ => false
  next := fun _ => none
  var := fun _ => ⟨7, none, false⟩
  waitsFor := fun _ => none
  appended := []

theorem initialState_start : Start ⟨0, 0, [0]⟩ initialState := by
  refine ⟨⟨rfl, fun _ => rfl, rfl, rfl, fun t => ?_⟩, fun _ => rfl, fun _ => rfl, rfl⟩
  show (if t ≤ 1 then ThreadState.runnable else .unborn) = .runnable ↔ t = 1 ∨ t = 0
  rw [or_comm, ← Nat.le_one_iff_eq_zero_or_eq_one]
  by_cases ht : t ≤ 1 <;> simp [ht]

/-- Thread 1 creates thread 2 and blocks on variable 0, which is in list mode; the next update is to
unblock it. -/
theorem sound_blocked : ∃ s, Relation.ReflTransGen (Step ⟨0, 0, [0]⟩ Unshared) initialState s ∧
    s.sched.curthr = 2 ∧ s.waitsFor 1 = some 0 ∧ (s.var 0).listMode = true ∧
    Sound ⟨0, 0, [0]⟩ s := by
  have h₀ : Relation.ReflTransGen (Step ⟨0, 0, [0]⟩ Unshared) initialState initialState := .refl
  have h₁ := h₀.tail ⟨.activateListMode 0, trivial, Or.inr nofun, 0, fun _ _ => rfl⟩
  have h₂ := h₁.tail ⟨.sched (.createThread 2 .runnable .default),
    ⟨⟨rfl, Or.inl ⟨rfl, rfl⟩⟩, fun t ht => by
      unfold activateListMode initialState at ht
      grind⟩, trivial, 0, fun _ _ => rfl⟩
  have h₃ := h₂.tail ⟨.blockIfEqual 0 7, nofun, trivial, 3, fun fuel hfuel => by
    obtain ⟨k, rfl⟩ := Nat.exists_eq_add_of_le' hfuel
    rfl⟩
  exact ⟨_, h₃, rfl, rfl, rfl, sound_of_unshared initialState_start h₃⟩

/-- If thread 2 unblocks it through the CPU manager first, the update puts thread 1 into the run queue
while it is in there already. -/
theorem not_sound_unblocked : ∃ s, Start ⟨0, 0, [0]⟩ initialState ∧
    Relation.ReflTransGen (Step ⟨0, 0, [0]⟩ fun _ _ => True) initialState s ∧
    ¬ Sound ⟨0, 0, [0]⟩ s := by
  have h₀ : Relation.ReflTransGen (Step ⟨0, 0, [0]⟩ fun _ _ => True) initialState initialState :=
    .refl
  have h₁ := h₀.tail ⟨.activateListMode 0, trivial, trivial, 0, fun _ _ => rfl⟩
  have h₂ := h₁.tail ⟨.sched (.createThread 2 .runnable .default),
    ⟨⟨rfl, Or.inl ⟨rfl, rfl⟩⟩, fun t ht => by
      unfold activateListMode initialState at ht
      grind⟩, trivial, 0, fun _ _ => rfl⟩
  have h₃ := h₂.tail ⟨.blockIfEqual 0 7, nofun, trivial, 3, fun fuel hfuel => by
    obtain ⟨k, rfl⟩ := Nat.exists_eq_add_of_le' hfuel
    rfl⟩
  have h₄ := h₃.tail ⟨.unblock (.thread 1), trivial, trivial, 3, fun fuel hfuel => by
    obtain ⟨k, rfl⟩ := Nat.exists_eq_add_of_le' hfuel
    rfl⟩
  have h₅ := h₄.tail ⟨.atomicUpdateUnblock 0 8 (.thread 1), trivial, trivial, 3, fun fuel hfuel => by
    obtain ⟨k, rfl⟩ := Nat.exists_eq_add_of_le' hfuel
    rfl⟩
  refine ⟨_, initialState_start, h₅, fun hsound => ?_⟩
  exact hsound.appended (1, .runnable) (List.mem_cons_self ..) rfl

end Invariant

end JxCore.AtomicVariable
