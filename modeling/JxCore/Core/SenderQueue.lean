import JxCore.Core.Runq
import Mathlib.Data.List.Induction
import Mathlib.Tactic.Ring

/-!
# The queue of waiting senders (`core/portal.c`)

Threads that call a service wait in a queue of its descriptor. They join it at the end, the service
takes the first one out, and the termination of a domain takes a sender out of any place. The last of
these, `portal_remove_sender`, never writes `lastWaitingSender`. So the queue is sound for as long as
no removal hits its last sender; after one that does, the next sender is hung behind a thread that has
left, and the service never finds it.
-/

namespace JxCore.SenderQueue

open Lib Exec Runq

/-- The queue of a `DEPDesc`: `firstWaitingSender` and `lastWaitingSender`, with the links of all
threads. -/
structure DEPDesc where
  nextInDEPQueue : Links Thread
  waitingSenders : Header Thread

/-- The inner loop of `check_servicequeue`, which counts its turns in `i`. -/
def checkRest (next : Links Thread) (t : Thread) : (fuel : Nat) → Option Thread → Nat → Exec Nat
  | 0, _, _ => loop none
  | _ + 1, none, i => pure i
  | fuel + 1, some s, i =>
    if s = t then throw (.panic "Thread multiple times in depqueue")
    else if i + 1 = 1000000 then throw (.panic "endless loop in portal waitqueue")
    else checkRest next t fuel (next s) (i + 1)

/-- `check_servicequeue`, from the sender `p` on. -/
def checkServicequeueFrom (next : Links Thread) : (fuel : Nat) → Option Thread → Nat → Exec Unit
  | 0, _, _ => loop none
  | _ + 1, none, _ => pure ()
  | fuel + 1, some t, i =>
    checkRest next t fuel (next t) i >>= checkServicequeueFrom next fuel (next t)

namespace DEPDesc

def checkServicequeue (dep : DEPDesc) (fuel : Nat) : Exec Unit :=
  checkServicequeueFrom dep.nextInDEPQueue fuel dep.waitingSenders.first 0

def checkNotinServicequeue (dep : DEPDesc) (fuel : Nat) (thread : Thread) : Exec Unit := do
  if ← loop (find dep.nextInDEPQueue thread fuel dep.waitingSenders.first) then
    throw (.panic "Thread already in depqueue")

/-- What `portal_add_sender` writes. -/
def appendSender (dep : DEPDesc) (thread : Thread) : DEPDesc :=
  let (next, h) := append dep.nextInDEPQueue dep.waitingSenders thread
  ⟨next, h⟩

def portalAddSender (dep : DEPDesc) (fuel : Nat) (thread : Thread) : Exec DEPDesc := do
  dep.checkServicequeue fuel
  dep.checkNotinServicequeue fuel thread
  (dep.appendSender thread).checkServicequeue fuel
  return dep.appendSender thread

def portalDequeueSender (dep : DEPDesc) : Option Thread × DEPDesc :=
  match dep.waitingSenders.first with
  | none => (none, dep)
  | some ret =>
    let first := dep.nextInDEPQueue ret
    let last := if first = none then none else dep.waitingSenders.last
    (some ret, ⟨Function.update dep.nextInDEPQueue ret none, ⟨first, last⟩⟩)

def portalRemoveSender (dep : DEPDesc) (fuel : Nat) (sender : Thread) : Exec DEPDesc := do
  let first := dep.waitingSenders.first
  match ← loop (takeOut dep.nextInDEPQueue first sender fuel none first) with
  | none => throw (.panic "SENDER NOT IN QUEUE")
  | some (next, first) => pure ⟨next, ⟨first, dep.waitingSenders.last⟩⟩

end DEPDesc

/-! ## Runs -/

/-- What happens to the queue. -/
inductive Op where
  | add (thread : Thread)
  | dequeue
  | remove (sender : Thread)
  deriving DecidableEq, Repr

def exec (dep : DEPDesc) : Op → (fuel : Nat) → Exec DEPDesc
  | .add thread, fuel => dep.portalAddSender fuel thread
  | .dequeue, _ => pure dep.portalDequeueSender.2
  | .remove sender, fuel => dep.portalRemoveSender fuel sender

/-- A new descriptor. -/
def DEPDesc.empty : DEPDesc := ⟨fun _ => none, ⟨none, none⟩⟩

/-- The operations `ops` have come back one after the other, the last of them in the state `dep`. -/
inductive Run : List Op → DEPDesc → Prop where
  | nil : Run [] .empty
  | snoc {ops : List Op} {dep dep' : DEPDesc} (op : Op) : Run ops dep →
      Returns (exec dep op) dep' → Run (ops ++ [op]) dep'

/-- What an operation does to the senders that wait. -/
def Op.apply (l : List Thread) : Op → List Thread
  | .add thread => l ++ [thread]
  | .dequeue => l.tail
  | .remove sender => l.erase sender

/-- The senders that have been added and have not left, in the order in which they came. -/
def fifo (ops : List Op) : List Thread := ops.foldl Op.apply []

theorem fifo_snoc (ops : List Op) (op : Op) : fifo (ops ++ [op]) = op.apply (fifo ops) := by
  simp [fifo]

/-- The queue is the list `l`, from either end. -/
abbrev DEPDesc.Holds (dep : DEPDesc) (l : List Thread) : Prop :=
  IsQueue dep.nextInDEPQueue dep.waitingSenders l

/-- The operation does not remove the last of the senders `l` from its place. -/
def Op.KeepsLast (l : List Thread) (op : Op) : Prop := ∀ t, op = .remove t → l.getLast? ≠ some t

/-! ## The checks -/

section Checks

variable {next : Links Thread} {p : Option Thread} {l : List Thread} {t : Thread} {fuel i : Nat}

theorem checkRest_eq (hc : Chain next p l) (ht : t ∉ l) (hi : i + l.length < 1000000)
    (hfuel : l.length < fuel) : checkRest next t fuel p i = pure (i + l.length) := by
  induction l generalizing p fuel i with
  | nil =>
    obtain ⟨fuel, rfl⟩ := Nat.exists_eq_succ_of_ne_zero (Nat.ne_of_gt hfuel)
    rw [show p = none from hc]
    rfl
  | cons a l ih =>
    obtain ⟨fuel, rfl⟩ := Nat.exists_eq_succ_of_ne_zero (Nat.ne_zero_of_lt hfuel)
    obtain ⟨rfl, hc⟩ := hc
    obtain ⟨hta, htl⟩ := not_or.mp (List.mem_cons.not.mp ht)
    simp only [List.length_cons] at hi hfuel
    have hrest : checkRest next t fuel (next a) (i + 1) = pure (i + 1 + l.length) :=
      ih hc htl (by omega) (by omega)
    rw [checkRest, if_neg (Ne.symm hta), if_neg (by omega), hrest, List.length_cons,
      Nat.add_assoc, Nat.add_comm 1]

/-- The check counts every pair of senders; it passes while there are fewer than a million. -/
theorem checkServicequeueFrom_eq (hc : Chain next p l) (hnodup : l.Nodup)
    (hi : 2 * i + l.length * (l.length - 1) < 2000000) (hfuel : l.length < fuel) :
    checkServicequeueFrom next fuel p i = pure () := by
  induction l generalizing p fuel i with
  | nil =>
    obtain ⟨fuel, rfl⟩ := Nat.exists_eq_succ_of_ne_zero (Nat.ne_of_gt hfuel)
    rw [show p = none from hc]
    rfl
  | cons a l ih =>
    obtain ⟨fuel, rfl⟩ := Nat.exists_eq_succ_of_ne_zero (Nat.ne_zero_of_lt hfuel)
    obtain ⟨rfl, hc⟩ := hc
    obtain ⟨ha, hnodup⟩ := List.nodup_cons.mp hnodup
    simp only [List.length_cons, Nat.add_sub_cancel] at hi hfuel
    have hpairs : (l.length + 1) * l.length = l.length * (l.length - 1) + 2 * l.length := by
      cases l.length with
      | zero => rfl
      | succ n =>
        rw [Nat.add_sub_cancel]
        ring
    rw [checkServicequeueFrom, checkRest_eq hc ha (by omega) (by omega)]
    exact ih hc hnodup (by omega) (by omega)

end Checks

/-! ## What each operation does -/

section Steps

variable {dep dep' : DEPDesc} {l : List Thread} {t : Thread}

theorem returns_checkServicequeue (h : dep.Holds l) (hl : l.length * (l.length - 1) < 2000000) :
    Returns (fun fuel => dep.checkServicequeue fuel) () := by
  refine ⟨l.length + 1, fun fuel hfuel => ?_⟩
  exact checkServicequeueFrom_eq h.chain h.nodup (by omega) hfuel

theorem checkNotin_eq {fuel : Nat} (h : dep.Holds l) (hfuel : l.length < fuel) :
    dep.checkNotinServicequeue fuel t =
      if t ∈ l then throw (.panic "Thread already in depqueue") else pure () := by
  simp only [DEPDesc.checkNotinServicequeue, find_eq h.chain hfuel, loop_some, pure_bind,
    decide_eq_true_eq]

theorem DEPDesc.Holds.append (h : dep.Holds l) (ht : t ∉ l) : DEPDesc.Holds (dep.appendSender t) (l ++ [t]) :=
  isQueue_append h ht

/-- A new sender joins while fewer than 1414 wait; from then on the check takes the queue for an
endless loop. -/
theorem returns_add (h : dep.Holds l) (ht : t ∉ l) (hl : l.length < 1414) :
    Returns (exec dep (.add t)) (dep.appendSender t) := by
  have hsquare : (l.length + 1) * l.length ≤ 1414 * 1413 := Nat.mul_le_mul hl (by omega)
  have hfewer : l.length * (l.length - 1) ≤ (l.length + 1) * l.length :=
    Nat.mul_le_mul (by omega) (by omega)
  have hbefore := returns_checkServicequeue h (by omega)
  have hafter := returns_checkServicequeue (DEPDesc.Holds.append h ht) (by
    rw [List.length_append, List.length_singleton, Nat.add_sub_cancel]
    omega)
  have hnew : Returns (fun fuel => dep.checkNotinServicequeue fuel t) () := by
    refine ⟨l.length + 1, fun fuel hfuel => ?_⟩
    simp only [checkNotin_eq h hfuel, if_neg ht]
  exact hbefore.bind (hnew.bind (hafter.bind (.pure _)))

/-- A sender that is added and comes back was new to the queue. -/
theorem eq_of_add (h : dep.Holds l) (hret : Returns (exec dep (.add t)) dep') :
    t ∉ l ∧ dep' = dep.appendSender t := by
  obtain ⟨n, hn⟩ := hret
  have hfuel : l.length < max n (l.length + 1) := by omega
  have hcall := hn (max n (l.length + 1)) (Nat.le_max_left ..)
  simp only [exec, DEPDesc.portalAddSender, checkNotin_eq h hfuel] at hcall
  obtain ⟨_, -, hcall⟩ := bind_eq_pure hcall
  obtain ⟨_, hnew, hcall⟩ := bind_eq_pure hcall
  obtain ⟨_, -, hcall⟩ := bind_eq_pure hcall
  refine ⟨fun ht => ?_, (eq_of_pure_eq hcall).symm⟩
  rw [if_pos ht] at hnew
  cases hnew

/-- The service takes the first sender. -/
theorem portalDequeueSender_eq (h : dep.Holds l) :
    dep.portalDequeueSender.1 = l.head? ∧ dep.portalDequeueSender.2.Holds l.tail := by
  unfold DEPDesc.portalDequeueSender
  cases l with
  | nil =>
    rw [h.first_eq_none.mpr rfl]
    exact ⟨rfl, h⟩
  | cons a l =>
    rw [h.chain.1]
    exact ⟨rfl, h.tail⟩

/-- The sender is taken out, from whatever place, and `lastWaitingSender` stays. -/
theorem returns_remove (h : dep.Holds l) (ht : t ∈ l) :
    ∃ next first, Returns (exec dep (.remove t)) ⟨next, ⟨first, dep.waitingSenders.last⟩⟩ ∧
      Chain next first (l.erase t) := by
  obtain ⟨next, first, hcall, hchain, -⟩ := takeOut_spec [] h.chain h.nodup h.chain ht
  refine ⟨next, first, ⟨l.length + 1, fun fuel hfuel => ?_⟩, hchain⟩
  have hfound : takeOut dep.nextInDEPQueue dep.waitingSenders.first t fuel none
      dep.waitingSenders.first = some (some (next, first)) := hcall fuel hfuel
  simp only [exec, DEPDesc.portalRemoveSender, hfound]
  rfl

/-- A thread that does not wait cannot be taken out. -/
theorem mem_of_remove (h : dep.Holds l) (hret : Returns (exec dep (.remove t)) dep') : t ∈ l := by
  by_contra ht
  obtain ⟨n, hn⟩ := hret
  have hcall := hn (max n (l.length + 1)) (Nat.le_max_left ..)
  have hfuel : l.length < max n (l.length + 1) := by omega
  simp only [exec, DEPDesc.portalRemoveSender, takeOut_of_notMem h.chain ht hfuel, loop_some,
    pure_bind] at hcall
  cases hcall

/-- An operation on a sound queue leaves a sound one, unless it removes the last sender. -/
theorem holds_iff_of_step {op : Op} (h : dep.Holds l) (hret : Returns (exec dep op) dep') :
    dep'.Holds (op.apply l) ↔ op.KeepsLast l := by
  cases op with
  | add t =>
    obtain ⟨hnew, rfl⟩ := eq_of_add h hret
    refine iff_of_true (DEPDesc.Holds.append h hnew) fun u hu => ?_
    cases hu
  | dequeue =>
    obtain rfl : dep' = dep.portalDequeueSender.2 := hret.unique (.pure _)
    refine iff_of_true (portalDequeueSender_eq h).2 fun u hu => ?_
    cases hu
  | remove t =>
    have ht := mem_of_remove h hret
    obtain ⟨next, first, hcall, hchain⟩ := returns_remove h ht
    obtain rfl := hret.unique hcall
    apply (IsQueue.takeOut_iff h ht hchain).trans
    constructor
    · rintro hlast u ⟨⟩
      exact hlast
    · intro hkeep
      exact hkeep t rfl

end Steps

/-! ## Whole runs -/

theorem run_snoc {ops : List Op} {op : Op} {dep' : DEPDesc} (hrun : Run (ops ++ [op]) dep') :
    ∃ dep, Run ops dep ∧ Returns (exec dep op) dep' := by
  generalize hops : ops ++ [op] = all at hrun
  cases hrun with
  | nil => simp at hops
  | snoc op' hrun' hret =>
    obtain ⟨rfl, hop⟩ := List.append_inj' hops rfl
    obtain rfl : op = op' := List.singleton_inj.mp hop
    exact ⟨_, hrun', hret⟩

/-- Every operation of a run has been made on a queue whose last sender it does not remove. -/
def KeepsLast (ops : List Op) : Prop :=
  ∀ before op, before ++ [op] <+: ops → op.KeepsLast (fifo before)

theorem KeepsLast.of_snoc {ops : List Op} {op : Op} (h : KeepsLast (ops ++ [op])) : KeepsLast ops :=
  fun before op' hpre => h before op' (hpre.trans (List.prefix_append ops [op]))

theorem holds_of_run {ops : List Op} {dep : DEPDesc} (hrun : Run ops dep) (hkeep : KeepsLast ops) :
    dep.Holds (fifo ops) := by
  induction hrun with
  | nil => exact .nil_intro _
  | snoc op _ hret ih =>
    rw [fifo_snoc]
    exact (holds_iff_of_step (ih hkeep.of_snoc) hret).mpr (hkeep _ op (List.prefix_refl _))

/-- Each beginning of a run is a run. -/
theorem exists_run_of_prefix {ops before : List Op} {dep : DEPDesc} (hrun : Run ops dep)
    (hpre : before <+: ops) : ∃ dep', Run before dep' := by
  obtain ⟨rest, rfl⟩ := hpre
  induction rest using List.reverseRecOn generalizing dep with
  | nil => exact ⟨dep, by simpa using hrun⟩
  | append_singleton rest op ih =>
    rw [← List.append_assoc] at hrun
    obtain ⟨dep', hrun', -⟩ := run_snoc hrun
    exact ih hrun'

/-- In every state of a run the queue is the list of the senders that have been added and have not
left, and `lastWaitingSender` is the last of them, exactly when no step of the run has removed the
last sender of the queue. -/
theorem holds_iff_of_run {ops : List Op} {dep : DEPDesc} (hrun : Run ops dep) :
    (∀ before dep', before <+: ops → Run before dep' → dep'.Holds (fifo before)) ↔
      ∀ before t, before ++ [.remove t] <+: ops → (fifo before).getLast? ≠ some t := by
  constructor
  · intro h before t hpre
    obtain ⟨dep', hrun'⟩ := exists_run_of_prefix hrun hpre
    obtain ⟨dep₀, hrun₀, hret⟩ := run_snoc hrun'
    have hbefore : before <+: ops := (List.prefix_append before _).trans hpre
    have hafter := h _ dep' hpre hrun'
    rw [fifo_snoc] at hafter
    exact (holds_iff_of_step (h before dep₀ hbefore hrun₀) hret).mp hafter t rfl
  · intro h before dep' hpre hrun'
    refine holds_of_run hrun' fun before' op hpre' => ?_
    rintro t rfl
    exact h before' t (hpre'.trans hpre)

/-- Two senders come, and the first one is removed. -/
theorem holds_removed_first :
    ∃ dep, Run [.add 1, .add 2, .remove 1] dep ∧ dep.Holds [2] := by
  have hempty : DEPDesc.empty.Holds [] := .nil_intro _
  have hone : 1 ∉ ([] : List Thread) := by decide
  have htwo : 2 ∉ ([] ++ [1] : List Thread) := by decide
  have hqueue := (hempty.append hone).append htwo
  obtain ⟨next, first, hremove, -⟩ := returns_remove hqueue (show 1 ∈ [] ++ [1] ++ [2] by decide)
  have hrun : Run [.add 1, .add 2, .remove 1] _ :=
    .snoc _ (.snoc _ (.snoc _ .nil (returns_add hempty hone (by decide)))
      (returns_add (hempty.append hone) htwo (by decide))) hremove
  refine ⟨_, hrun, (holds_iff_of_run hrun).mpr ?_ _ _ (List.prefix_refl _) hrun⟩
  intro before t hpre
  rcases before with _ | ⟨a, _ | ⟨b, _ | ⟨c, rest⟩⟩⟩
  · simp [List.cons_prefix_cons] at hpre
  · simp [List.cons_prefix_cons] at hpre
  · simp only [List.cons_append, List.nil_append, List.cons_prefix_cons] at hpre
    obtain ⟨rfl, rfl, ht, -⟩ := hpre
    obtain rfl : t = 1 := Op.remove.inj ht
    decide
  · simp [List.cons_prefix_cons] at hpre

/-! ## A stale last sender -/

/-- With an empty queue and a `lastWaitingSender` that has left, a new sender is hung behind the one
that has left, and no chain leads to it. -/
theorem returns_add_stale {dep : DEPDesc} {t : Thread} (hfirst : dep.waitingSenders.first = none)
    (hlast : dep.waitingSenders.last ≠ none) :
    Returns (exec dep (.add t)) (dep.appendSender t) ∧
      (dep.appendSender t).waitingSenders.first = none := by
  obtain ⟨y, hy⟩ := Option.ne_none_iff_exists'.mp hlast
  have hafter : (dep.appendSender t).waitingSenders.first = none := by
    simp only [DEPDesc.appendSender, append, hy, hfirst]
  refine ⟨⟨1, fun fuel hfuel => ?_⟩, hafter⟩
  obtain ⟨fuel, rfl⟩ := Nat.exists_eq_succ_of_ne_zero (Nat.ne_zero_of_lt hfuel)
  simp only [exec, DEPDesc.portalAddSender, DEPDesc.checkServicequeue, DEPDesc.checkNotinServicequeue,
    hfirst, hafter, checkServicequeueFrom, find, loop_some, pure_bind, Bool.false_eq_true, if_false]

/-- The only waiting sender is removed, and the next one is lost. -/
theorem not_holds_removed_last : ¬ ∀ ops dep, Run ops dep → dep.Holds (fifo ops) := by
  intro h
  have hempty : DEPDesc.empty.Holds [] := .nil_intro _
  have hzero : 0 ∉ ([] : List Thread) := by decide
  obtain ⟨next, first, hremove, hchain⟩ :=
    returns_remove (hempty.append hzero) (show 0 ∈ [] ++ [0] by decide)
  obtain ⟨hadd, hlost⟩ := @returns_add_stale ⟨next, ⟨first, some 0⟩⟩ 1 hchain (Option.some_ne_none 0)
  have hrun : Run [.add 0, .remove 0, .add 1] _ :=
    .snoc _ (.snoc _ (.snoc _ .nil (returns_add hempty hzero (by decide))) hremove) hadd
  have hnil : fifo [.add 0, .remove 0, .add 1] = [] := (h _ _ hrun).first_eq_none.mp hlost
  cases hnil

end JxCore.SenderQueue
