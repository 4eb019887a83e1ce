import JxCore.Core.Runq
import Mathlib.Logic.Relation

/-!
# Oneshot threads (`core/oneshot.c`)

A thread starts another one that is available, and waits until it has run one piece of code. A garbage
collection is run this way, and it may start another one: a finaliser that allocates in a second domain
starts the collector of that domain. The thread to go back to is kept in one variable.
-/

namespace JxCore.Oneshot

open Runq

/-- `thread->context`: the registers that a start and a return write. -/
structure Context where
  eax : Nat
  eip : Nat
  ebp : Nat
  /-- The interrupt flag in `PCB_EFLAGS`. -/
  irq : Bool

/-- An activation that has not returned: who started it, and whether it has started one itself. -/
structure Frame where
  starter : Thread
  nested : Bool

structure Sys where
  curthr : Thread
  switchBackTo : Option Thread
  state : Thread → ThreadState
  context : Thread → Context
  /-- What is on the stack of a thread, the last word pushed first. -/
  stack : Thread → List Nat
  isInterruptHandlerThread : Thread → Bool
  /-- A record of the activations, the innermost first. -/
  frames : List Frame

/-- The address of `returnfrom_oneshot`, to which the code of a oneshot thread returns. -/
def returnfromOneshotEntry : Nat := 0x100000

/-- `prepare_thread_using_code1`. -/
def prepareThreadUsingCode1 (obj : Nat) (thread : Thread) (c param : Nat) (s : Sys) :
    Except Stop Sys :=
  if s.state thread ≠ .available then .error (.panic "thread already prepared (sys_panic?)\n")
  else .ok { s with
    stack := Function.update s.stack thread [returnfromOneshotEntry, obj, param]
    context := Function.update s.context thread
      { s.context thread with ebp := 0, eip := c, irq := false }
    state := Function.update s.state thread .runnable }

/-- The innermost activation has started another one. -/
def markNested : List Frame → List Frame
  | [] => []
  | f :: l => { f with nested := true } :: l

/-- `start_thread_using_code1`, up to the switch. -/
def startThreadUsingCode1 (obj : Nat) (thread : Thread) (c param : Nat) (s : Sys) :
    Except Stop Sys := do
  let s ← prepareThreadUsingCode1 obj thread c param s
  if s.isInterruptHandlerThread s.curthr then
    .error (.panic "IRQ thread is not allowed to start other thread")
  else .ok { s with
    switchBackTo := some s.curthr
    state := Function.update s.state s.curthr .waitOneshot
    curthr := thread
    frames := ⟨s.curthr, false⟩ :: markNested s.frames }

/-- `returnfrom_oneshot`, with the result of the code in `eax`. -/
def returnfromOneshot (eax : Nat) (s : Sys) : Except Stop Sys :=
  let s := { s with state := Function.update s.state s.curthr .available }
  match s.switchBackTo with
  | none => .error (.assertion "switchBackTo->state == STATE_WAIT_ONESHOT")
  | some back =>
    if s.state back ≠ .waitOneshot then
      .error (.assertion "switchBackTo->state == STATE_WAIT_ONESHOT")
    else .ok { s with
      state := Function.update s.state back .runnable
      context := Function.update s.context back { s.context back with eax }
      curthr := back
      frames := s.frames.tail }

/-! ## Runs -/

/-- A start, or a return of the innermost activation. -/
inductive Step (s t : Sys) : Prop where
  | start (obj : Nat) (thread : Thread) (c param : Nat)
      (h : startThreadUsingCode1 obj thread c param s = .ok t)
  | ret (eax : Nat) (hframes : s.frames ≠ []) (h : returnfromOneshot eax s = .ok t)

/-- Some thread runs that is no oneshot thread. -/
structure Initial (s : Sys) : Prop where
  frames : s.frames = []
  runnable : s.state s.curthr = .runnable

/-- The return of the innermost activation: its starter waits for it, goes on with the result, and the
thread that has finished is available again. -/
def ReturnsToStarter (eax : Nat) (s : Sys) : Prop :=
  ∃ f l t, s.frames = f :: l ∧ s.state f.starter = .waitOneshot ∧
    returnfromOneshot eax s = .ok t ∧ t.curthr = f.starter ∧ t.state f.starter = .runnable ∧
    (t.context f.starter).eax = eax ∧ t.state s.curthr = .available

/-! ## What the steps keep true -/

/-- The starters wait, each in one activation; the thread to go back to is the starter of the innermost
activation, as long as that has not started another one, and then it is the current thread itself. -/
structure Invariant (s : Sys) : Prop where
  running : s.state s.curthr = .runnable
  waiting : ∀ f ∈ s.frames, s.state f.starter = .waitOneshot
  nodup : (s.frames.map Frame.starter).Nodup
  back : ∀ f l, s.frames = f :: l →
    s.switchBackTo = some (if f.nested then s.curthr else f.starter)
  nested : ∀ f ∈ s.frames.tail, f.nested = true

section Steps

variable {s t : Sys}

theorem Initial.invariant (h : Initial s) : Invariant s where
  running := h.runnable
  waiting := by simp [h.frames]
  nodup := by simp [h.frames]
  back := by simp [h.frames]
  nested := by simp [h.frames]

theorem map_starter_markNested (l : List Frame) :
    (markNested l).map Frame.starter = l.map Frame.starter := by
  cases l <;> rfl

theorem exists_starter_of_mem_markNested {l : List Frame} {f : Frame} (hf : f ∈ markNested l) :
    ∃ g ∈ l, g.starter = f.starter := by
  have hmem : f.starter ∈ (markNested l).map Frame.starter := List.mem_map_of_mem hf
  rw [map_starter_markNested] at hmem
  exact List.mem_map.mp hmem

theorem nested_markNested {l : List Frame} (h : ∀ f ∈ l.tail, f.nested = true) :
    ∀ f ∈ markNested l, f.nested = true := by
  cases l with
  | nil => nofun
  | cons g l => exact List.forall_mem_cons.mpr ⟨rfl, h⟩

/-- The current thread waits for nobody. -/
theorem Invariant.starter_ne (h : Invariant s) {f : Frame} (hf : f ∈ s.frames) :
    f.starter ≠ s.curthr := by
  intro heq
  have hwait := h.waiting f hf
  rw [heq, h.running] at hwait
  cases hwait

/-- The state after a start. -/
theorem startThreadUsingCode1_ok {obj c param : Nat} {thread : Thread}
    (h : startThreadUsingCode1 obj thread c param s = .ok t) :
    s.state thread = .available ∧ t.curthr = thread ∧ t.switchBackTo = some s.curthr ∧
      t.frames = ⟨s.curthr, false⟩ :: markNested s.frames ∧
      t.state = Function.update (Function.update s.state thread .runnable) s.curthr .waitOneshot := by
  unfold startThreadUsingCode1 prepareThreadUsingCode1 at h
  obtain ⟨u, hu, h⟩ := bind_eq_ok.mp h
  split at hu
  · cases hu
  · next havail =>
    obtain rfl := Except.ok.inj hu
    split at h
    · cases h
    · obtain rfl := Except.ok.inj h
      exact ⟨not_not.mp havail, rfl, rfl, rfl, rfl⟩

theorem Invariant.start {obj c param : Nat} {thread : Thread} (h : Invariant s)
    (hstart : startThreadUsingCode1 obj thread c param s = .ok t) : Invariant t := by
  obtain ⟨havail, hcur, hback, hframes, hstate⟩ := startThreadUsingCode1_ok hstart
  have hne : thread ≠ s.curthr := by
    intro heq
    rw [heq, h.running] at havail
    cases havail
  constructor
  · rw [hstate, hcur, Function.update_of_ne hne, Function.update_self]
  · intro f hf
    rw [hframes] at hf
    rw [hstate]
    rcases List.mem_cons.mp hf with rfl | hf
    · rw [Function.update_self]
    · obtain ⟨g, hg, heq⟩ := exists_starter_of_mem_markNested hf
      have hwait := h.waiting g hg
      have hgt : g.starter ≠ thread := by
        intro hgt
        rw [hgt, havail] at hwait
        cases hwait
      rw [← heq, Function.update_of_ne (h.starter_ne hg), Function.update_of_ne hgt]
      exact hwait
  · rw [hframes, List.map_cons, map_starter_markNested]
    refine List.nodup_cons.mpr ⟨fun hmem => ?_, h.nodup⟩
    obtain ⟨f, hf, heq⟩ := List.mem_map.mp hmem
    exact h.starter_ne hf heq
  · intro f l hfl
    obtain rfl : ⟨s.curthr, false⟩ = f := (List.cons.inj (hframes.symm.trans hfl)).1
    exact hback
  · rw [hframes]
    exact nested_markNested h.nested

/-- The state after a return to `back`. -/
def returned (s : Sys) (back : Thread) (eax : Nat) : Sys :=
  { s with
    state := Function.update (Function.update s.state s.curthr .available) back .runnable
    context := Function.update s.context back { s.context back with eax }
    curthr := back
    frames := s.frames.tail }

/-- The thread that returns is the one to go back to if it has started another one, and then the
assertion fails. -/
theorem Invariant.returnfromOneshot_eq {f : Frame} {l : List Frame} (h : Invariant s) (eax : Nat)
    (hframes : s.frames = f :: l) : returnfromOneshot eax s =
      if f.nested then .error (.assertion "switchBackTo->state == STATE_WAIT_ONESHOT")
      else .ok (returned s f.starter eax) := by
  have hmem : f ∈ s.frames := by simp [hframes]
  have hback := h.back f l hframes
  unfold returnfromOneshot
  cases hnested : f.nested with
  | true =>
    rw [hnested, if_pos rfl] at hback
    simp [hback]
  | false =>
    rw [hnested, if_neg Bool.false_ne_true] at hback
    have hwait : Function.update s.state s.curthr .available f.starter = .waitOneshot :=
      (Function.update_of_ne (h.starter_ne hmem) _ _).trans (h.waiting f hmem)
    simp [hback, hwait, returned]

theorem Invariant.returns_iff {eax : Nat} {f : Frame} {l : List Frame} (h : Invariant s)
    (hframes : s.frames = f :: l) : ReturnsToStarter eax s ↔ f.nested = false := by
  have hmem : f ∈ s.frames := by simp [hframes]
  have hret := h.returnfromOneshot_eq eax hframes
  cases hnested : f.nested with
  | true =>
    rw [hnested, if_pos rfl] at hret
    refine iff_of_false ?_ nofun
    rintro ⟨_, _, t, -, -, hok, -⟩
    exact nomatch hret.symm.trans hok
  | false =>
    rw [hnested] at hret
    refine iff_of_true ⟨f, l, _, hframes, h.waiting f hmem, hret, rfl, ?_, ?_, ?_⟩ rfl
    · exact Function.update_self ..
    · simp [returned]
    · exact (Function.update_of_ne (h.starter_ne hmem).symm _ _).trans (Function.update_self ..)

theorem Invariant.ret {eax : Nat} (h : Invariant s) (hframes : s.frames ≠ [])
    (hret : returnfromOneshot eax s = .ok t) : Invariant t := by
  obtain ⟨f, l, hfl⟩ := List.exists_cons_of_ne_nil hframes
  have hback := h.back f l hfl
  rw [h.returnfromOneshot_eq _ hfl] at hret
  cases hnested : f.nested with
  | true =>
    rw [hnested, if_pos rfl] at hret
    cases hret
  | false =>
    rw [hnested, if_neg Bool.false_ne_true] at hret hback
    obtain rfl := Except.ok.inj hret
    have hnodup := h.nodup
    have hinner := h.nested
    rw [hfl] at hnodup hinner
    have htail : (returned s f.starter eax).frames = l := congrArg List.tail hfl
    constructor
    · exact Function.update_self ..
    · rw [htail]
      intro g hg
      have hmem : g ∈ s.frames := by simp [hfl, hg]
      have hne : g.starter ≠ f.starter := by
        intro heq
        exact (List.nodup_cons.mp hnodup).1 (heq ▸ List.mem_map_of_mem hg)
      exact (Function.update_of_ne hne _ _).trans
        ((Function.update_of_ne (h.starter_ne hmem) _ _).trans (h.waiting g hmem))
    · rw [htail]
      exact (List.nodup_cons.mp hnodup).2
    · intro g l' hgl
      rw [htail] at hgl
      subst hgl
      rw [hinner g List.mem_cons_self]
      exact hback
    · rw [htail]
      exact fun g hg => hinner g (List.mem_of_mem_tail hg)

theorem Invariant.step (h : Invariant s) (hstep : Step s t) : Invariant t := by
  cases hstep with
  | start obj thread c param hstart => exact h.start hstart
  | ret eax hframes hret => exact h.ret hframes hret

/-- In every state of every nested sequence of starts and returns, the return of the innermost
activation goes back to its starter exactly if the activation has not started another one. -/
theorem returnsToStarter_iff {eax : Nat} {f : Frame} {l : List Frame} (hinit : Initial s)
    (hrun : Relation.ReflTransGen Step s t) (hframes : t.frames = f :: l) :
    ReturnsToStarter eax t ↔ f.nested = false := by
  have hinv : Invariant t :=
    invariant_of_run (fun _ _ h hstep => h.step hstep) hrun hinit.invariant
  exact hinv.returns_iff hframes

end Steps

/-! ## A collection inside a collection -/

section Nested

/-- Thread 1 runs, and threads 2 and 3 are the collectors of two domains. -/
def beforeGc : Sys where
  curthr := 1
  switchBackTo := none
  state t := if t = 1 then .runnable else .available
  context _ := ⟨0, 0, 0, true⟩
  stack _ := []
  isInterruptHandlerThread _ := false
  frames := []

theorem beforeGc_initial : Initial beforeGc := ⟨rfl, rfl⟩

/-- The collector of the first domain is running. -/
def inGc : Sys where
  curthr := 2
  switchBackTo := some 1
  state := Function.update (Function.update beforeGc.state 2 .runnable) 1 .waitOneshot
  context := Function.update beforeGc.context 2 ⟨0, 0x2000, 0, false⟩
  stack := Function.update beforeGc.stack 2 [returnfromOneshotEntry, 0, 7]
  isInterruptHandlerThread _ := false
  frames := [⟨1, false⟩]

theorem inGc_run : Relation.ReflTransGen Step beforeGc inGc := .single (.start 0 2 0x2000 7 rfl)

/-- A collection that starts no other one goes back to the thread that needed it. -/
theorem returnsToStarter_inGc : ReturnsToStarter 0 inGc :=
  (returnsToStarter_iff beforeGc_initial inGc_run rfl).mpr rfl

/-- The collector of the second domain has been started by a finaliser and has returned. -/
theorem not_returnsToStarter_nested : ∃ s, Initial beforeGc ∧ Relation.ReflTransGen Step beforeGc s ∧
    s.curthr = 2 ∧ s.frames.map Frame.starter = [1] ∧ s.state 1 = .waitOneshot ∧
    returnfromOneshot 0 s = .error (.assertion "switchBackTo->state == STATE_WAIT_ONESHOT") ∧
    ¬ ReturnsToStarter 0 s := by
  refine ⟨_, beforeGc_initial, (inGc_run.tail (.start 0 3 0x2000 8 rfl)).tail (.ret 0 nofun rfl), rfl,
    rfl, rfl, rfl, ?_⟩
  rintro ⟨f, l, t, -, -, hret, -⟩
  cases hret

end Nested

end JxCore.Oneshot
