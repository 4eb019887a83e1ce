import JxCore.Core.Termination

/-!
# Failures of portal calls (`core/portal.c`, `core/exception_handler.c`)

What has become of a call is left in two fields of the calling thread, `portalReturnType` and
`portalReturn`. They keep their values between calls. When `direct_send_portal` comes to
`finished:`, it hands `portalReturn` to `exceptionHandler` if the type says so: a small negative
number stands for an exception that is still to be made, everything else for an object.

Here is one calling thread with all its calls. The other parties of a call appear with what they do
to the two fields. A history field says which call has stored the value.
-/

namespace JxCore.PortalFailure

open Portal (Return returnTypeException restart)
open Service (Entry)
open Termination (throwDomainTerminatedException)

/-! ## Exceptions by number -/

/-- The classes that `createExceptionInDomain` is asked for. -/
inductive ExceptionClass where
  | runtimeException
  | nullPointerException
  | outOfMemoryError
  | indexOutOfBoundsException
  | stackOverflowError
  | arithmeticException
  | memoryExhaustedException
  | domainTerminatedException
  deriving DecidableEq, Repr

/-- What `throw_exception` gets. -/
inductive Raised where
  /-- A new object of the class, with these details. -/
  | created (cls : ExceptionClass) (details : Option String)
  /-- What is said to be an object. -/
  | object (p : Nat)
  deriving DecidableEq, Repr

/-- What a call leads to in the calling thread; `of` is the number of the call that has stored the
word, or the number the exception is made from. -/
inductive Outcome where
  | returns (word : Nat) (of : Nat)
  | raises (e : Raised) (of : Nat)
  /-- `uncaught_exception(NULL)`, which is `thread_exit`. -/
  | exits
  /-- Nobody unblocks the thread. -/
  | waits
  | stops (reason : Stop)
  deriving DecidableEq, Repr

/-- The domain of the calling thread. -/
structure Env where
  /-- `gcThread != NULL && gcThread->state != STATE_AVAILABLE` -/
  collecting : Bool
  /-- There is the class, and memory for one more object. -/
  creatable : ExceptionClass → Bool

/-- `(jint*)-n` -/
def minus (n : Nat) : Nat := 2 ^ 32 - n

def throwRuntimeException : Nat := minus 1
def throwNullPointerException : Nat := minus 2
def throwOutOfMemoryError : Nat := minus 3
def throwMemoryIndexOutOfBounds : Nat := minus 4
def throwStackOverflowError : Nat := minus 5
def throwArithmeticException : Nat := minus 6
def throwMagicNumber : Nat := minus 7
def throwParanoidCheck : Nat := minus 8
def throwStackJam : Nat := minus 9
def throwArrayIndexOutOfBounds : Nat := minus 10
def throwUnsupportedByteCode : Nat := minus 11
def throwInvalidMemory : Nat := minus 12
def throwMemoryExhaustedException : Nat := minus 13

/-- `createExceptionInDomain` and then `throw_exception`. -/
def Env.create (env : Env) (of : Nat) (cls : ExceptionClass) (details : Option String) : Outcome :=
  if env.creatable cls then .raises (.created cls details) of else .exits

def exceptionHandlerMsg (env : Env) (of : Nat) (p : Nat) (msg : String) : Outcome :=
  if env.collecting then .stops (.panic "exception during GC")
  else if p = throwRuntimeException then env.create of .runtimeException (some msg)
  else if p = throwNullPointerException then env.create of .nullPointerException none
  else if p = throwOutOfMemoryError then env.create of .outOfMemoryError none
  else if p = throwMemoryIndexOutOfBounds then
    env.create of .indexOutOfBoundsException (some "memory access out of range")
  else if p = throwStackOverflowError then env.create of .stackOverflowError none
  else if p = throwArithmeticException then
    env.create of .arithmeticException (some "divied by zero")
  else if p = throwMagicNumber then .stops (.panic "wrong magicnumber")
  else if p = throwParanoidCheck then .exits
  else if p = throwStackJam then .exits
  else if p = throwArrayIndexOutOfBounds then
    env.create of .indexOutOfBoundsException (some "array index out of bounds")
  else if p = throwUnsupportedByteCode then
    env.create of .runtimeException (some "unsupported bytecode (long/double/float)")
  else if p = throwInvalidMemory then
    env.create of .runtimeException (some "memory invalid (revoked)")
  else if p = throwMemoryExhaustedException then env.create of .memoryExhaustedException none
  -- The same comparison once more.
  else if p = throwMemoryExhaustedException then env.create of .domainTerminatedException none
  else if p ≠ 0 then .raises (.object p) of
  else .exits

def exceptionHandler (env : Env) (of : Nat) (p : Nat) : Outcome :=
  exceptionHandlerMsg env of p "unknown"

/-! ## The two fields -/

/-- The address of an object, in the range that `direct_send_portal` asserts for its proxy. -/
structure Ref where
  addr : Nat
  lower : 10000 < addr
  upper : addr < 0xfffff000

/-- The calling thread. The last two fields count the calls, and say in which call `portalReturn`
has been stored. -/
structure Sender where
  /-- `portalReturnType` and `portalReturn` -/
  portalReturn : Return
  calls : Nat
  writer : Nat
  writer_le : writer ≤ calls

/-- How the other side ends a call that waits at a service. -/
inductive Answer where
  /-- The method has returned, a reference or a number. -/
  | returned (reference : Bool) (word : Nat)
  /-- The method, or the copying of its parameters, has thrown. Making the copy in the caller's
  domain may be interrupted by a collection there; and the receiver may take the caller's domain for
  terminated, because `callerDomain` is still that of the call before. -/
  | threw (copy : Ref) (interrupted disappeared : Bool)
  /-- The domain of the service is terminated, while the call is served or while it is queued. -/
  | terminated (served : Bool)

namespace Sender

/-- A thread before its first call. -/
def start (r : Return) : Sender := ⟨r, 0, 0, Nat.le_refl 0⟩

def enter (s : Sender) : Sender :=
  { s with calls := s.calls + 1, writer_le := Nat.le_succ_of_le s.writer_le }

/-- `PORTAL_RETURN_SET_EXCEPTION(curthr()->portalReturnType)` -/
def setException (s : Sender) : Sender :=
  { s with portalReturn := { s.portalReturn with type := returnTypeException } }

/-- The other side stores the type and the value. -/
def store (s : Sender) (r : Return) : Sender :=
  { s with portalReturn := r, writer := s.calls, writer_le := Nat.le_refl _ }

/-- The thread is blocked until it is unblocked again. -/
def await (s : Sender) : Answer → Option Sender
  | .returned reference word => some (s.store ⟨if reference then 1 else 0, word⟩)
  | .threw copy interrupted disappeared =>
    some (if disappeared then s
      else s.store ⟨returnTypeException, if interrupted then restart else copy.addr⟩)
  | .terminated served =>
    if served then some (s.store ⟨returnTypeException, throwDomainTerminatedException⟩) else none

/-- From `finished:` on. -/
def finished (s : Sender) (env : Env) : Outcome × Sender :=
  if s.portalReturn.type = returnTypeException then
    (exceptionHandler env s.writer s.portalReturn.word, s)
  else
    (.returns s.portalReturn.word s.writer,
      { s with portalReturn := { s.portalReturn with type := 0 } })

end Sender

/-! ## Calls -/

/-- How a method ends that is called inside one domain. -/
inductive Ended where
  | value (word : Nat)
  | exception (e : Ref)

/-- Where a call goes: what is found there, and what happens then. -/
inductive Target where
  /-- `targetDomain == curdom()` -/
  | here (ended : Ended)
  /-- Another domain. If the thread has waited for the receiver, the service table is looked at
  afterwards once more, with entry `after`. -/
  | there (active : Bool) (answer : Answer) (waited : Bool) (after : Entry)

structure Call where
  /-- `proxy->targetDomainID` -/
  targetDomainID : Nat
  /-- `targetDomain->id` -/
  id : Nat
  /-- `targetDomain->services[proxy->index]` -/
  entry : Entry
  target : Target
  env : Env

/-- There is a service. -/
def IsDep : Entry → Prop
  | .dep _ => True
  | _ => False

instance : DecidablePred IsDep := fun e =>
  match e with
  | .dep _ => isTrue trivial
  | .free => isFalse id
  | .changing => isFalse id

/-- The short circuit inside one domain. -/
def shortCircuit (s : Sender) (c : Call) (ended : Ended) : Outcome :=
  if ¬ IsDep c.entry then .stops .wild
  else if c.targetDomainID ≠ c.id then exceptionHandler c.env s.calls throwRuntimeException
  else
    match ended with
    | .value word => .returns word s.calls
    | .exception e => .raises (.object e.addr) s.calls

/-- The call of a service that has been found. -/
def callService (s : Sender) (env : Env) (answer : Answer) (waited : Bool) (after : Entry) :
    Outcome × Sender :=
  match s.await answer with
  | none => (.waits, s)
  | some s =>
    if waited = true ∧ ¬ IsDep after then (.stops (.assertion "ASSERTDEP(svc0)"), s)
    else s.finished env

/-- `direct_send_portal`. -/
def directSendPortal (s : Sender) (c : Call) : Outcome × Sender :=
  let s := s.enter
  match c.target with
  | .here ended => (shortCircuit s c ended, s)
  | .there active answer waited after =>
    if c.targetDomainID ≠ c.id then s.setException.finished c.env
    else if active = false then s.setException.finished c.env
    else if c.entry = .changing then s.setException.finished c.env
    else if ¬ IsDep c.entry then (.stops (.assertion "ASSERTDEP(svc)"), s)
    else callService s c.env answer waited after

/-- The thread after some calls. -/
def after (s : Sender) (history : List Call) : Sender :=
  history.foldl (fun s c => (directSendPortal s c).2) s

/-! ## What is asked for -/

/-- What becomes of a call. -/
inductive Fate where
  /-- The domain is gone, or goes while the call waits. -/
  | vanished
  | noService
  /-- The service throws, which arrives in the caller's domain as this object. -/
  | thrown (e : Ref)
  | value (word : Nat)

def Ended.fate : Ended → Fate
  | .value word => .value word
  | .exception e => .thrown e

def Answer.fate : Answer → Fate
  | .returned _ word => .value word
  | .threw copy _ _ => .thrown copy
  | .terminated _ => .vanished

def Call.fate (c : Call) : Fate :=
  if c.targetDomainID ≠ c.id then .vanished
  else
    match c.target with
    | .here ended => if ¬ IsDep c.entry then .noService else ended.fate
    | .there active answer _ _ =>
      if active = false then .vanished
      else if ¬ IsDep c.entry then .noService
      else answer.fate

/-- The outcome that call `n` is to have: an exception of its own, or its result. -/
def Fate.Met (n : Nat) (o : Outcome) : Fate → Prop
  | .vanished => ∃ details, o = .raises (.created .domainTerminatedException details) n
  | .noService => ∃ cls details, o = .raises (.created cls details) n
  | .thrown e => o = .raises (.object e.addr) n
  | .value word => o = .returns word n

/-- The call has its own outcome. -/
def Own (s : Sender) (c : Call) : Prop := c.fate.Met (s.calls + 1) (directSendPortal s c).1

/-! ## When it is met -/

/-- The service answers with a result, or with an exception whose copy is made at once, that is not
held back, and that does not arrive during a collection. -/
def Answer.Arrives (env : Env) : Answer → Prop
  | .returned _ _ => True
  | .threw _ interrupted disappeared =>
    interrupted = false ∧ disappeared = false ∧ env.collecting = false
  | .terminated _ => False

/-- The call finds its service, and the service answers. -/
def Call.Delivered (c : Call) : Prop :=
  c.targetDomainID = c.id ∧ IsDep c.entry ∧
    match c.target with
    | .here _ => True
    | .there active answer waited after =>
      active = true ∧ answer.Arrives c.env ∧ (waited = true → IsDep after)

/-! ## Exceptions -/

section Handler

variable {env : Env} {of p n : Nat} {cls : ExceptionClass} {details : Option String} {e : Raised}

/-- What is raised is made from the number, but never because a domain was terminated; or the number
is taken for an object. -/
structure MadeFrom (of p : Nat) (o : Outcome) : Prop where
  raises : ∀ e n, o = .raises e n → n = of ∧
    ((∃ cls details, e = .created cls details ∧ cls ≠ .domainTerminatedException) ∨
      e = .object p ∧ p ≠ throwRuntimeException)
  returns : ∀ word n, o ≠ .returns word n

theorem MadeFrom.ite {cond : Prop} [Decidable cond] {o o' : Outcome} (h : cond → MadeFrom of p o)
    (h' : ¬ cond → MadeFrom of p o') : MadeFrom of p (if cond then o else o') := by
  split
  · apply h
    assumption
  · apply h'
    assumption

theorem MadeFrom.exits : MadeFrom of p .exits :=
  ⟨by rintro e n ⟨⟩, by rintro word n ⟨⟩⟩

theorem MadeFrom.stops {reason : Stop} : MadeFrom of p (.stops reason) :=
  ⟨by rintro e n ⟨⟩, by rintro word n ⟨⟩⟩

theorem MadeFrom.create (hcls : cls ≠ .domainTerminatedException) :
    MadeFrom of p (env.create of cls details) := by
  refine .ite (fun _ => ⟨?_, by rintro word n ⟨⟩⟩) fun _ => .exits
  rintro e n ⟨⟩
  exact ⟨rfl, .inl ⟨cls, details, rfl, hcls⟩⟩

theorem madeFrom_exceptionHandler : MadeFrom of p (exceptionHandler env of p) := by
  unfold exceptionHandler exceptionHandlerMsg
  refine .ite (fun _ => .stops) fun _ => ?_
  refine .ite (fun _ => .create (by decide)) fun hne => ?_
  refine .ite (fun _ => .create (by decide)) fun _ => ?_
  refine .ite (fun _ => .create (by decide)) fun _ => ?_
  refine .ite (fun _ => .create (by decide)) fun _ => ?_
  refine .ite (fun _ => .create (by decide)) fun _ => ?_
  refine .ite (fun _ => .create (by decide)) fun _ => ?_
  refine .ite (fun _ => .stops) fun _ => ?_
  refine .ite (fun _ => .exits) fun _ => ?_
  refine .ite (fun _ => .exits) fun _ => ?_
  refine .ite (fun _ => .create (by decide)) fun _ => ?_
  refine .ite (fun _ => .create (by decide)) fun _ => ?_
  refine .ite (fun _ => .create (by decide)) fun _ => ?_
  refine .ite (fun _ => .create (by decide)) fun hexhausted => ?_
  -- The branch of `DomainTerminatedException` is never taken.
  refine .ite (fun h => absurd h hexhausted) fun _ => ?_
  refine .ite (fun _ => ⟨?_, by rintro word n ⟨⟩⟩) fun _ => .exits
  rintro e n ⟨⟩
  exact ⟨rfl, .inr ⟨rfl, hne⟩⟩

/-- The address of an object is none of the numbers. -/
theorem exceptionHandler_ref (r : Ref) : exceptionHandler env of r.addr =
    if env.collecting then .stops (.panic "exception during GC")
    else .raises (.object r.addr) of := by
  have hlower := r.lower
  have hupper := r.upper
  have hcode : ∀ k, k ≤ 13 → ¬ r.addr = minus k := by
    intro k hk
    unfold minus
    omega
  have hne : r.addr ≠ 0 := by omega
  simp only [exceptionHandler, exceptionHandlerMsg, throwRuntimeException,
    throwNullPointerException, throwOutOfMemoryError, throwMemoryIndexOutOfBounds,
    throwStackOverflowError, throwArithmeticException, throwMagicNumber, throwParanoidCheck,
    throwStackJam, throwArrayIndexOutOfBounds, throwUnsupportedByteCode, throwInvalidMemory,
    throwMemoryExhaustedException, hcode 1 (by decide), hcode 2 (by decide), hcode 3 (by decide),
    hcode 4 (by decide), hcode 5 (by decide), hcode 6 (by decide), hcode 7 (by decide),
    hcode 8 (by decide), hcode 9 (by decide), hcode 10 (by decide), hcode 11 (by decide),
    hcode 12 (by decide), hcode 13 (by decide), if_false, if_pos hne]

end Handler

/-! ## Calls with an outcome of their own -/

section Calls

variable {s : Sender} {env : Env} {n : Nat} {c : Call} {o : Outcome}

/-- A vanished domain is never reported as such. -/
theorem MadeFrom.not_vanished {of p : Nat} (h : MadeFrom of p o) : ¬ Fate.vanished.Met n o := by
  rintro ⟨details, rfl⟩
  obtain ⟨-, ⟨cls, details', heq, hcls⟩ | ⟨heq, -⟩⟩ := h.raises _ _ rfl
  · cases heq
    exact hcls rfl
  · cases heq

/-- What is left of an earlier call is not the outcome of this one. -/
theorem not_met_setException {f : Fate} (hf : f = .vanished ∨ f = .noService) :
    ¬ f.Met (s.calls + 1) (s.enter.setException.finished env).1 := by
  have hmade : MadeFrom s.writer s.portalReturn.word (s.enter.setException.finished env).1 :=
    madeFrom_exceptionHandler
  have hwriter := s.writer_le
  rcases hf with rfl | rfl
  · exact hmade.not_vanished
  · rintro ⟨cls, details, heq⟩
    have := (hmade.raises _ _ heq).1
    omega

theorem met_shortCircuit_iff {ended : Ended} (htarget : c.target = .here ended) :
    Own s c ↔ c.Delivered := by
  unfold Own directSendPortal Call.fate Call.Delivered
  simp only [htarget, and_true]
  unfold shortCircuit
  by_cases hdep : IsDep c.entry
  · by_cases hid : c.targetDomainID = c.id
    · simp only [hid, hdep, ne_eq, not_true_eq_false, if_false, and_self, iff_true]
      cases ended with
      | value word => rfl
      | exception e => rfl
    · simp only [hid, hdep, ne_eq, not_true_eq_false, not_false_eq_true, if_false, if_true,
        and_true, iff_false]
      exact madeFrom_exceptionHandler.not_vanished
  · simp only [hdep, and_false, iff_false, not_false_eq_true, if_true]
    split
    · rintro ⟨details, heq⟩
      cases heq
    · rintro ⟨cls, details, heq⟩
      cases heq

/-- A stored exception is handed to the handler. -/
theorem finished_store_exception {word : Nat} :
    ((s.store ⟨returnTypeException, word⟩).finished env).1 = exceptionHandler env s.calls word :=
  rfl

/-- An exception that has not been stored is not raised. -/
theorem not_met_of_not_stored {e : Ref} (hwriter : s.writer < s.calls) :
    ¬ (Fate.thrown e).Met s.calls (s.finished env).1 := by
  intro heq
  unfold Sender.finished at heq
  split at heq
  · have := (madeFrom_exceptionHandler.raises _ _ heq).1
    omega
  · cases heq

/-- The end of a call that the service has answered. -/
theorem met_await_iff {answer : Answer} (hwriter : s.writer < s.calls) :
    (∃ s', s.await answer = some s' ∧ answer.fate.Met s.calls (s'.finished env).1) ↔
      answer.Arrives env := by
  cases answer with
  | returned reference word =>
    refine iff_of_true ⟨_, rfl, ?_⟩ trivial
    cases reference with
    | false => rfl
    | true => rfl
  | threw copy interrupted disappeared =>
    simp only [Sender.await, Option.some.injEq, exists_eq_left', Answer.fate, Answer.Arrives]
    cases disappeared with
    | true =>
      refine iff_of_false ?_ fun h => nomatch h.2.1
      exact not_met_of_not_stored hwriter
    | false =>
      rw [if_neg Bool.false_ne_true, finished_store_exception]
      cases interrupted with
      | true =>
        refine iff_of_false ?_ fun h => nomatch h.1
        intro heq
        -- The marker for an interrupted copy is the number of `RuntimeException`.
        obtain ⟨-, ⟨cls, details, hcreated, -⟩ | ⟨-, hne⟩⟩ :=
          madeFrom_exceptionHandler.raises _ _ heq
        · cases hcreated
        · exact hne rfl
      | false =>
        rw [if_neg Bool.false_ne_true, exceptionHandler_ref]
        cases env.collecting with
        | true =>
          refine iff_of_false ?_ fun h => nomatch h.2.2
          intro heq
          cases heq
        | false => exact iff_of_true rfl ⟨rfl, rfl, rfl⟩
  | terminated served =>
    refine iff_of_false ?_ id
    rintro ⟨s', hs', hmet⟩
    cases served with
    | false => cases hs'
    | true =>
      cases hs'
      exact madeFrom_exceptionHandler.not_vanished hmet

theorem met_callService_iff {answer : Answer} {waited : Bool} {entry : Entry}
    (hwriter : s.writer < s.calls) :
    answer.fate.Met s.calls (callService s env answer waited entry).1 ↔
      answer.Arrives env ∧ (waited = true → IsDep entry) := by
  have hstops : ∀ reason, ¬ answer.fate.Met s.calls (.stops reason) := by
    intro reason
    cases answer with
    | returned reference word => rintro ⟨⟩
    | threw copy interrupted disappeared => rintro ⟨⟩
    | terminated served => rintro ⟨details, ⟨⟩⟩
  rw [← met_await_iff hwriter]
  unfold callService
  cases hawait : s.await answer with
  | none =>
    refine iff_of_false ?_ ?_
    · cases answer with
      | returned reference word => cases hawait
      | threw copy interrupted disappeared => cases hawait
      | terminated served => rintro ⟨details, ⟨⟩⟩
    · rintro ⟨⟨s', hs', -⟩, -⟩
      cases hs'
  | some s' =>
    simp only [Option.some.injEq, exists_eq_left']
    by_cases hgone : waited = true ∧ ¬ IsDep entry
    · rw [if_pos hgone]
      exact iff_of_false (hstops _) fun h => hgone.2 (h.2 hgone.1)
    · rw [if_neg hgone]
      have hentry : waited = true → IsDep entry := by
        intro hwaited
        by_contra hdep
        exact hgone ⟨hwaited, hdep⟩
      exact ⟨fun h => ⟨h, hentry⟩, fun h => h.1⟩

theorem met_there_iff {active : Bool} {answer : Answer} {waited : Bool} {entry : Entry}
    (htarget : c.target = .there active answer waited entry) : Own s c ↔ c.Delivered := by
  unfold Own directSendPortal Call.fate Call.Delivered
  simp only [htarget]
  by_cases hid : c.targetDomainID = c.id
  · simp only [hid, ne_eq, not_true_eq_false, if_false, true_and]
    cases active with
    | false =>
      simp only [if_true, Bool.false_eq_true, false_and, and_false, iff_false]
      exact not_met_setException (.inl rfl)
    | true =>
      simp only [Bool.true_eq_false, if_false, true_and]
      by_cases hdep : IsDep c.entry
      · have hchanging : c.entry ≠ .changing := by
          intro heq
          rw [heq] at hdep
          exact hdep
        simp only [hdep, hchanging, not_true_eq_false, if_false, true_and]
        exact met_callService_iff (Nat.lt_succ_of_le s.writer_le)
      · simp only [hdep, not_false_eq_true, if_true, false_and, iff_false]
        split
        · exact not_met_setException (.inr rfl)
        · rintro ⟨cls, details, heq⟩
          cases heq
  · simp only [hid, ne_eq, not_false_eq_true, if_true, false_and, iff_false]
    exact not_met_setException (.inl rfl)

/-- **A call has an outcome of its own exactly if it finds its service and the service answers**,
whatever calls the thread has made before. -/
theorem own_iff_delivered (r : Return) (history : List Call) (c : Call) :
    Own (after (Sender.start r) history) c ↔ c.Delivered := by
  cases htarget : c.target with
  | here ended => exact met_shortCircuit_iff htarget
  | there active answer waited entry => exact met_there_iff htarget

end Calls

/-! ## An exception that is copied during a collection -/

def plainEnv : Env := ⟨false, fun _ => true⟩

/-- The service throws, and making the copy at 0x200000 is interrupted. -/
def throwingCall : Call where
  targetDomainID := 3
  id := 3
  entry := .dep 1
  target := .there true (.threw ⟨0x200000, by decide, by decide⟩ true false) false (.dep 1)
  env := plainEnv

/-- The marker for the interruption is taken for the number of `RuntimeException`. -/
theorem not_own_interrupted :
    (directSendPortal (Sender.start ⟨0, 0⟩) throwingCall).1 =
      .raises (.created .runtimeException (some "unknown")) 1 ∧
    ¬ Own (after (Sender.start ⟨0, 0⟩) []) throwingCall := by
  have hraised : (directSendPortal (Sender.start ⟨0, 0⟩) throwingCall).1 =
      .raises (.created .runtimeException (some "unknown")) 1 := by decide
  refine ⟨hraised, fun hown => ?_⟩
  have hthrown := hraised.symm.trans hown
  cases hthrown

end JxCore.PortalFailure
