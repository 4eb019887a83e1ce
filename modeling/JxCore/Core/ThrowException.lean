import JxCore.Core.MethodLookup
import JxCore.Core.PortalCopyGraph
import JxCore.Core.TerminationLoops
import Mathlib.Data.Nat.Find

/-!
# Exceptions (`core/exception_handler.c`)

`throw_exception` goes up the stack to a frame whose method has a handler. At the entry of a service
the exception leaves the domain and is raised again in the caller, which gets a copy. If there is
neither, the thread ends.

A frame on the stack is a frame pointer and the return address above it. Both belong to the same
method, since the walk starts at what the routine that throws has saved. Whether an entry of an
exception table has the address in its range is said twice here: `ExceptionDesc.Contains` compares
integers, as the table means it, and `ExceptionDesc.Compares` the words that the loop compares.
-/

namespace JxCore.ThrowException

open Exec
open MethodLookup (LibDesc IsMethod Loaded findByteCodePosition findMethodAtAddrInDomain)
open Portal (returnTypeException)
open PortalCopy (copyReference restartMark)
open Runq (Thread Domain)

/-! ## State -/

/-- The word of an integer. -/
def toU4 (i : Int) : Nat := (i % 2 ^ 32).toNat

structure ExceptionDesc where
  start : Int
  stop : Int
  /-- The class that is caught, and `none` for `NULL`. -/
  type : Option Nat
  addr : Nat

/-- The part of a method descriptor that is there for exceptions. -/
structure Handlers where
  sizeLocalVars : Int
  exceptionTable : List ExceptionDesc

/-- What stays the same while an exception is thrown. -/
structure Env where
  /-- `curdom()` and its libraries -/
  domain : Domain
  libs : List LibDesc
  /-- The methods by the numbers of library, class and method. -/
  handlers : (lib cls method : Nat) → Handlers
  classes : Assign.Classes
  /-- What `check_assign` finds of the stack. -/
  frame : Assign.Frames
  room : Nat
  /-- `obj2ClassDesc`, and `none` for `NULL`. -/
  classOf : Nat → Option Nat
  /-- `thread->stack` and `thread->stackTop` -/
  stack : Nat
  stackTop : Nat
  /-- `receive_portalcall` and `FKTSIZE_receive_portalcall` -/
  receivePortalcall : Nat
  sizePortalcall : Nat
  /-- `curthr()->processingDEP` -/
  svc : Nat
  /-- What low memory looks like to the test for a caller that disappeared. -/
  null : Bool
  copying : PortalCopy.Env

structure State where
  /-- The words of the stack, by address. -/
  mem : Nat → Nat
  heap : PortalCopy.Sys
  sys : Termination.Sys

/-- Where the thread goes on. -/
inductive Control where
  /-- `callnative_handler`, for the entry with this number. -/
  | handler (entry ebp esp eip : Nat)
  /-- `receive_portal_init`, after `reinit_service_thread`. -/
  | receivePortal
  /-- `thread_exit`, after `uncaught_exception`. -/
  | exit
  deriving DecidableEq

/-! ## The routine -/

/-- `in_portalcall`. -/
def Env.inPortalcall (env : Env) (eip : Nat) : Bool :=
  env.receivePortalcall ≤ eip ∧ eip ≤ env.receivePortalcall + env.sizePortalcall

/-- `RECEIVE_PORTAL_QUOTA`. -/
def receivePortalQuota : Nat := 100000

/-- `copy_reference` for the exception, from whatever is in the table. -/
def copyException (env : Env) (heap : PortalCopy.Sys) (dst : Domain) (exception fuel : Nat) :
    Exec (Nat × PortalCopy.Sys) :=
  copyReference env.copying env.domain dst fuel exception { heap with quota := receivePortalQuota }

/-- "catch all exceptions that reach a service entry point" -/
def catchAtPortal (env : Env) (s : State) (exception fuel : Nat) : Exec State :=
  match s.sys.mostRecentlyCalledBy (s.sys.receiver env.svc) with
  | .thread source =>
    if Termination.callerDisappeared env.null s.sys (s.sys.receiver env.svc) then
      pure { s with sys := Termination.throwException env.null s.sys env.svc source 0 }
    else do
      let (copy, heap) ← copyException env s.heap (s.sys.domain source) exception fuel
      pure { s with heap, sys := Termination.throwException env.null s.sys env.svc source copy }
  | _ => throw (.assertion "ASSERTTHREAD(source)")

/-- What the loop compares: `bytecodePos` is a `u4_t`. -/
def ExceptionDesc.Compares (e : ExceptionDesc) (bytecodePos : Int) : Prop :=
  toU4 bytecodePos ≥ toU4 e.start ∧ toU4 bytecodePos < toU4 e.stop

instance (e : ExceptionDesc) (bytecodePos : Int) : Decidable (e.Compares bytecodePos) :=
  inferInstanceAs (Decidable (_ ∧ _))

/-- The two tests for an entry. -/
def catches (env : Env) (exclass : Nat) (bytecodePos : Int) (e : ExceptionDesc) (fuel : Nat) :
    Exec Bool :=
  if e.Compares bytecodePos then
    match e.type with
    | none => pure true
    | some type => env.classes.checkAssign env.frame fuel env.room type exclass
  else
    pure false

/-- "lookup exception handler", from entry `i` on -/
def lookup (env : Env) (exclass : Nat) (bytecodePos : Int) (fuel : Nat) :
    (i : Nat) → List ExceptionDesc → Exec (Option (Nat × ExceptionDesc))
  | _, [] => pure none
  | i, e :: es => do
    if ← catches env exclass bytecodePos e fuel then pure (some (i, e))
    else lookup env exclass bytecodePos fuel (i + 1) es

/-- `method->code`. -/
def codeOf (libs : List LibDesc) (lib cls method : Nat) : Nat :=
  (((libs[lib]?.bind fun l => l.allClasses[cls]?).bind fun c => c.methods[method]?).map
    MethodLookup.MethodDesc.code).getD 0

/-- The exception is pushed on an empty operand stack, and the handler of the entry is next. -/
def enterHandler (s : State) (exception ebp : Nat) (sizeLocalVars : Int) (code i : Nat)
    (e : ExceptionDesc) : Control × State :=
  let sp := toU4 (ebp - 4 * sizeLocalVars)
  let sp := toU4 (sp - 4)
  (.handler i ebp sp (u4 (e.addr + code)), { s with mem := Function.update s.mem sp exception })

/-- The handler that has been found is entered; if there is none, the method's frame is left. -/
def enterOr (enter : Nat → ExceptionDesc → Control × State) (leave : Exec (Control × State)) :
    Option (Nat × ExceptionDesc) → Exec (Control × State)
  | some (i, e) => pure (enter i e)
  | none => leave

/-- "scan stack" -/
def scanStack (env : Env) (s : State) (exception exclass : Nat) :
    (fuel sp : Nat) → Exec (Control × State)
  | 0, _ => loop none
  | fuel + 1, sp =>
    if sp > env.stack ∧ sp < env.stackTop then
      let ebp := s.mem sp
      let eip := s.mem (sp + 4)
      -- `reinit_service_thread` does not come back, whether the caller was there or not
      if env.inPortalcall eip then do
        let s ← catchAtPortal env s exception fuel
        pure (.receivePortal, s)
      else
        match findMethodAtAddrInDomain eip env.libs with
        | none => scanStack env s exception exclass fuel ebp
        | some f => do
          let m := env.handlers f.lib f.cls f.method
          let code := codeOf env.libs f.lib f.cls f.method
          let handler ← lookup env exclass f.bytecodePos fuel 0 m.exceptionTable
          enterOr (enterHandler s exception ebp m.sizeLocalVars code)
            (scanStack env s exception exclass fuel ebp) handler
    else
      pure (.exit, s)

/-- `throw_exception`. -/
def throwException (env : Env) (s : State) (exception sp fuel : Nat) : Exec (Control × State) :=
  match env.classOf exception with
  | none => pure (.exit, s)
  | some exclass => scanStack env s exception exclass fuel sp

/-! ## What is asked for -/

structure Frame where
  ebp : Nat
  eip : Nat

/-- The frames of a stack, the innermost first. The local variables of a method lie below its frame
pointer and above what the routine that it calls has saved. -/
inductive IsStack (env : Env) (mem : Nat → Nat) : Nat → List Frame → Prop
  | nil {sp : Nat} (h : ¬ (sp > env.stack ∧ sp < env.stackTop)) : IsStack env mem sp []
  | cons {sp : Nat} {fs : List Frame} (h : sp > env.stack ∧ sp < env.stackTop)
      (hroom : ∀ h i j m, IsMethod env.libs h i j m → m.Covers (mem (sp + 4)) →
        (env.handlers h i j).sizeLocalVars ≥ 0 ∧
          sp + 8 + 4 * (env.handlers h i j).sizeLocalVars ≤ mem sp ∧ mem sp < 2 ^ 32)
      (hrest : IsStack env mem (mem sp) fs) : IsStack env mem sp (⟨mem sp, mem (sp + 4)⟩ :: fs)

/-- The range of the entry contains the position, which is -1 if it is not known. -/
def ExceptionDesc.Contains (e : ExceptionDesc) (bytecodePos : Int) : Prop :=
  bytecodePos ≠ -1 ∧ e.start ≤ bytecodePos ∧ bytecodePos < e.stop

/-- The frame is one of this method. -/
def Env.Runs (env : Env) (f : Frame) (h i j : Nat) (m : MethodLookup.MethodDesc) : Prop :=
  IsMethod env.libs h i j m ∧ m.Covers f.eip

/-- Entry `n` of the method's table is for the exception, as far as `InRange` says so. -/
def Env.Takes (env : Env) (InRange : ExceptionDesc → Int → Prop) (exclass : Nat) (f : Frame)
    (n : Nat) : Prop :=
  ∃ h i j m e, env.Runs f h i j m ∧ (env.handlers h i j).exceptionTable[n]? = some e ∧
    InRange e (findByteCodePosition m f.eip) ∧
    ∀ type, e.type = some type → env.classes.Assignable type exclass

/-- Where an exception ends up. -/
inductive Verdict where
  /-- At entry `n` for the first of these frames. -/
  | caught (n : Nat) (frames : List Frame)
  | portal
  | uncaught

open Classical in
/-- The first entry of the innermost frame that has one, below the nearest service entry. -/
noncomputable def Env.verdict (env : Env) (InRange : ExceptionDesc → Int → Prop) (exclass : Nat) :
    List Frame → Verdict
  | [] => .uncaught
  | f :: fs =>
    if env.inPortalcall f.eip then .portal
    else if h : ∃ n, env.Takes InRange exclass f n then .caught (Nat.find h) (f :: fs)
    else env.verdict InRange exclass fs

/-- What it looks like when it has ended up there; `Delivered` is for a service entry. -/
inductive Env.Leads (env : Env) (s : State) (exception : Nat) (Delivered : State → Prop) :
    Verdict → Control × State → Prop
  | caught {n : Nat} {f : Frame} {fs : List Frame} {h i j : Nat} {m : MethodLookup.MethodDesc}
      {e : ExceptionDesc} {esp : Nat} (hruns : env.Runs f h i j m)
      (hentry : (env.handlers h i j).exceptionTable[n]? = some e)
      (hesp : (esp : Int) = f.ebp - 4 * (env.handlers h i j).sizeLocalVars - 4) :
      Leads env s exception Delivered (.caught n (f :: fs))
        (.handler n f.ebp esp (u4 (e.addr + m.code)),
          { s with mem := Function.update s.mem esp exception })
  | portal {t : State} (h : Delivered t) :
      Leads env s exception Delivered .portal (.receivePortal, t)
  | uncaught : Leads env s exception Delivered .uncaught (.exit, s)

/-- `copy` is a copy of the exception for `dst`: it is not the mark of a copy that has been broken
off, and not something that has been copied for another purpose. -/
def Env.IsCopy (env : Env) (heap : PortalCopy.Sys) (dst : Domain) (exception copy : Nat) : Prop :=
  copy ≠ restartMark ∧ (env.domain = dst ∨ heap.copied.lookup exception = none)

/-- The caller has been given a copy of the exception, and its call has been answered once. -/
structure Env.Delivered (env : Env) (s : State) (exception : Nat) (source : Thread) (t : State) :
    Prop where
  returned : ∃ copy, env.IsCopy s.heap (s.sys.domain source) exception copy ∧
    Returns (copyException env s.heap (s.sys.domain source) exception) (copy, t.heap) ∧
    t.sys.portalReturn source = ⟨returnTypeException, copy⟩
  once : t.sys.replies = s.sys.replies ++ (s.sys.inCall source).toList

/-- The receiver works on a call of this thread. -/
def Env.Serves (env : Env) (s : State) (source : Thread) : Prop :=
  s.sys.mostRecentlyCalledBy (s.sys.receiver env.svc) = .thread source ∧
    s.sys.inCall source ≠ none

/-- The exception ends up where it should. A caller that is no longer there does not get it. -/
def Env.Dispatches (env : Env) (s : State) (exception exclass sp : Nat) (frames : List Frame)
    (source : Thread) : Prop :=
  ∃ r, Returns (throwException env s exception sp) r ∧
    env.Leads s exception
      (fun t => s.sys.freed source = false → env.Delivered s exception source t)
      (env.verdict ExceptionDesc.Contains exclass frames) r

/-! ## When it does -/

/-- The readings of the ranges differ for no entry up to the first that takes the exception, unless
its class is not the right one. -/
def Env.AgreesAt (env : Env) (exclass : Nat) (f : Frame) : Prop :=
  ∀ n, (∀ k < n, ¬ env.Takes ExceptionDesc.Contains exclass f k ∧
      ¬ env.Takes ExceptionDesc.Compares exclass f k) →
    (env.Takes ExceptionDesc.Contains exclass f n ↔ env.Takes ExceptionDesc.Compares exclass f n)

/-- The same for all frames up to that entry, or to the nearest service entry. -/
def Env.Agrees (env : Env) (exclass : Nat) : List Frame → Prop
  | [] => True
  | f :: fs => env.inPortalcall f.eip = true ∨ env.AgreesAt exclass f ∧
      ((∃ n, env.Takes ExceptionDesc.Contains exclass f n) ∨ env.Agrees exclass fs)

/-- `check_assign`, if the entry needs it, has enough of the stack to come back. -/
def Env.Settled (env : Env) (exclass : Nat) (bytecodePos : Int) (e : ExceptionDesc) : Prop :=
  e.Compares bytecodePos → ∀ type, e.type = some type →
    ∃ b, Returns (fun fuel => env.classes.checkAssign env.frame fuel env.room type exclass) b

/-- This is so for all entries up to the first that takes the exception. -/
def Env.SettledAt (env : Env) (exclass : Nat) (f : Frame) : Prop :=
  ∀ h i j m n e, env.Runs f h i j m → (env.handlers h i j).exceptionTable[n]? = some e →
    (∀ k < n, ¬ env.Takes ExceptionDesc.Compares exclass f k) →
      env.Settled exclass (findByteCodePosition m f.eip) e

/-- And in all frames up to that entry, or to the nearest service entry. -/
def Env.AllSettled (env : Env) (exclass : Nat) : List Frame → Prop
  | [] => True
  | f :: fs => env.inPortalcall f.eip = true ∨ env.SettledAt exclass f ∧
      ((∃ n, env.Takes ExceptionDesc.Compares exclass f n) ∨ env.AllSettled exclass fs)

/-- The caller that is there has not disappeared for the receiver, and if it has not, copying the
exception comes back, with a copy for a caller that is there. -/
def Env.Deliverable (env : Env) (s : State) (exception : Nat) (source : Thread) : Prop :=
  let gone := Termination.callerDisappeared env.null s.sys (s.sys.receiver env.svc)
  (s.sys.freed source = false → gone = false) ∧
    (gone = false → ∃ copy heap,
      Returns (copyException env s.heap (s.sys.domain source) exception) (copy, heap) ∧
        (s.sys.freed source = false → env.IsCopy s.heap (s.sys.domain source) exception copy))

/-! ## The table of a method -/

section Table

variable {env : Env} {exclass : Nat} {pos : Int} {e : ExceptionDesc}

/-- The entry is for the exception, as the loop reads it. -/
def Env.Fits (env : Env) (exclass : Nat) (pos : Int) (e : ExceptionDesc) : Prop :=
  e.Compares pos ∧ ∀ type, e.type = some type → env.classes.Assignable type exclass

theorem decides_catches (hclasses : env.classes.Hierarchy) (exclass : Nat) (pos : Int)
    (e : ExceptionDesc) :
    Assign.Decides (env.Settled exclass pos e) (catches env exclass pos e)
      (env.Fits exclass pos e) := by
  unfold catches Env.Fits
  by_cases hrange : e.Compares pos
  · simp only [hrange, if_true, true_and]
    cases htype : e.type with
    | none => exact Assign.decides_true (by simp)
    | some type =>
      obtain ⟨_, hdecides⟩ :=
        Assign.Classes.decides_checkAssign_any hclasses env.frame type exclass env.room
      refine (hdecides.settled.mono fun hsettled => hsettled hrange type htype).congr ?_
      simp
  · simp only [hrange, if_false, false_and]
    exact Assign.decides_false id

theorem settled_of_returns {b : Bool} (h : Returns (catches env exclass pos e) b) :
    env.Settled exclass pos e := by
  intro hrange type htype
  unfold catches at h
  simp only [hrange, htype, if_true] at h
  exact ⟨b, h⟩

/-- The loop finds the first entry that fits, unless the stack is too small for an entry before it. -/
theorem lookup_cases (hclasses : env.classes.Hierarchy) (exclass : Nat) (pos : Int)
    (table : List ExceptionDesc) (i : Nat) :
    (∃ (n : Nat) (e : ExceptionDesc), table[n]? = some e ∧ env.Fits exclass pos e ∧
        (∀ k < n, ∀ e', table[k]? = some e' → ¬ env.Fits exclass pos e') ∧
        (∀ k ≤ n, ∀ e', table[k]? = some e' → env.Settled exclass pos e') ∧
        Returns (fun fuel => lookup env exclass pos fuel i table) (some (i + n, e))) ∨
      (∀ e ∈ table, ¬ env.Fits exclass pos e ∧ env.Settled exclass pos e) ∧
        Returns (fun fuel => lookup env exclass pos fuel i table) none ∨
      ∃ (n : Nat) (e : ExceptionDesc), table[n]? = some e ∧ ¬ env.Settled exclass pos e ∧
        (∀ k < n, ∀ e', table[k]? = some e' → ¬ env.Fits exclass pos e') ∧
        Stops (fun fuel => lookup env exclass pos fuel i table) (.panic "") := by
  induction table generalizing i with
  | nil => exact .inr (.inl ⟨by simp, .pure none⟩)
  | cons e es ih =>
    let next := fun (b : Bool) fuel => if b then pure (some (i, e))
      else lookup env exclass pos fuel (i + 1) es
    by_cases hsettled : env.Settled exclass pos e
    · obtain ⟨b, hb, hiff⟩ := (decides_catches hclasses exclass pos e).returns hsettled
      have hstep : ∀ x, Returns (fun fuel => lookup env exclass pos fuel i (e :: es)) x ↔
          Returns (next b) x := fun x => returns_bind_iff hb
      cases b with
      | true =>
        left
        refine ⟨0, e, rfl, hiff.mp rfl, by simp, fun k hk e' he' => ?_, (hstep _).mpr (.pure _)⟩
        obtain rfl := Nat.le_zero.mp hk
        cases he'
        exact hsettled
      | false =>
        have hnot : ¬ env.Fits exclass pos e := fun h => Bool.noConfusion (hiff.mpr h)
        rcases ih (i + 1) with ⟨n, e', hentry, hfits, hfirst, hall, hret⟩ | ⟨hnone, hret⟩ |
          ⟨n, e', hentry, hunsettled, hfirst, hstops⟩
        · left
          refine ⟨n + 1, e', hentry, hfits, fun k hk e'' he'' => ?_, fun k hk e'' he'' => ?_, ?_⟩
          · cases k with
            | zero =>
              cases he''
              exact hnot
            | succ k => exact hfirst k (by omega) e'' he''
          · cases k with
            | zero =>
              cases he''
              exact hsettled
            | succ k => exact hall k (by omega) e'' he''
          · rw [hstep, show i + (n + 1) = i + 1 + n by omega]
            exact hret
        · right; left
          refine ⟨fun e' he' => ?_, (hstep _).mpr hret⟩
          rcases List.mem_cons.mp he' with rfl | he'
          · exact ⟨hnot, hsettled⟩
          · exact hnone e' he'
        · right; right
          refine ⟨n + 1, e', hentry, hunsettled, fun k hk e'' he'' => ?_, ?_⟩
          · cases k with
            | zero =>
              cases he''
              exact hnot
            | succ k => exact hfirst k (by omega) e'' he''
          · exact (stops_bind_iff (k := next) hb).mpr hstops
    · right; right
      refine ⟨0, e, rfl, hsettled, by simp, ?_⟩
      rcases decides_catches hclasses exclass pos e with ⟨b, hb, -⟩ | ⟨-, hstops⟩
      · exact absurd (settled_of_returns hb) hsettled
      · exact hstops.bind (k := next)

end Table

/-! ## One frame -/

section Frames

variable {env : Env} {s : State} {exception exclass sp n h i j : Nat} {f : Frame} {fs : List Frame}
  {m : MethodLookup.MethodDesc} {e : ExceptionDesc} {InRange : ExceptionDesc → Int → Prop}
  {D : State → Prop} {r : Control × State}

theorem toU4_eq {i : Int} (hlow : 0 ≤ i) (hhigh : i < 2 ^ 32) : (toU4 i : Int) = i := by
  unfold toU4
  omega

theorem codeOf_eq {libs : List LibDesc} (hm : IsMethod libs h i j m) :
    codeOf libs h i j = m.code := by
  obtain ⟨lib, c, hlib, hc, hm⟩ := hm
  simp only [codeOf, hlib, hc, hm, Option.bind_some, Option.map_some, Option.getD_some]

/-- The method of a frame is the only one that counts. -/
theorem takes_iff (hl : Loaded env.libs) (hruns : env.Runs f h i j m) :
    env.Takes InRange exclass f n ↔ ∃ e, (env.handlers h i j).exceptionTable[n]? = some e ∧
      InRange e (findByteCodePosition m f.eip) ∧
      ∀ type, e.type = some type → env.classes.Assignable type exclass := by
  constructor
  · rintro ⟨h', i', j', m', e, hruns', hentry, hrange, htype⟩
    obtain ⟨rfl, rfl, rfl⟩ := hruns'.1.unique hl hruns.1 hruns'.2 hruns.2
    obtain rfl := hruns'.1.eq hruns.1
    exact ⟨e, hentry, hrange, htype⟩
  · rintro ⟨e, hentry, hrange, htype⟩
    exact ⟨h, i, j, m, e, hruns, hentry, hrange, htype⟩

theorem not_takes (hnone : ∀ h i j m, ¬ env.Runs f h i j m) : ¬ env.Takes InRange exclass f n := by
  rintro ⟨h, i, j, m, e, hruns, -⟩
  exact hnone h i j m hruns

/-- The registers for the handler, and what is pushed. -/
theorem leads_enterHandler {ebp eip : Nat} (hruns : env.Runs ⟨ebp, eip⟩ h i j m)
    (hentry : (env.handlers h i j).exceptionTable[n]? = some e)
    (hroom : (env.handlers h i j).sizeLocalVars ≥ 0 ∧
      sp + 8 + 4 * (env.handlers h i j).sizeLocalVars ≤ ebp ∧ ebp < 2 ^ 32) :
    env.Leads s exception D (.caught n (⟨ebp, eip⟩ :: fs))
      (enterHandler s exception ebp (env.handlers h i j).sizeLocalVars (codeOf env.libs h i j) n
        e) := by
  obtain ⟨hsize, hbelow, hword⟩ := hroom
  have htop := toU4_eq (i := ebp - 4 * (env.handlers h i j).sizeLocalVars) (by omega) (by omega)
  unfold enterHandler
  rw [codeOf_eq hruns.1]
  refine .caught hruns hentry ?_
  rw [toU4_eq (by omega) (by omega), htop]

/-- There is only one way to enter the handler. -/
theorem leads_caught_unique {D' : State → Prop} {frames : List Frame} {r' : Control × State}
    (hl : Loaded env.libs) (hr : env.Leads s exception D (.caught n frames) r)
    (hr' : env.Leads s exception D' (.caught n frames) r') : r = r' := by
  cases hr with
  | @caught _ f fs h i j m e esp hruns hentry hesp =>
    cases hr' with
    | @caught _ _ _ h' i' j' m' e' esp' hruns' hentry' hesp' =>
      obtain ⟨rfl, rfl, rfl⟩ := hruns'.1.unique hl hruns.1 hruns'.2 hruns.2
      obtain rfl := hruns'.1.eq hruns.1
      obtain rfl := Option.some.inj (hentry.symm.trans hentry')
      obtain rfl : esp = esp' := by omega
      rfl

/-! ## The stack -/

theorem leads_uncaught_iff : env.Leads s exception D .uncaught r ↔ r = (.exit, s) := by
  constructor
  · rintro ⟨⟩
    rfl
  · rintro rfl
    exact .uncaught

theorem leads_portal_iff :
    env.Leads s exception D .portal r ↔ ∃ t, D t ∧ r = (.receivePortal, t) := by
  constructor
  · rintro ⟨⟩
    exact ⟨_, ‹_›, rfl⟩
  · rintro ⟨t, ht, rfl⟩
    exact .portal ht

theorem verdict_portal (hportal : env.inPortalcall f.eip = true) :
    env.verdict InRange exclass (f :: fs) = .portal := by
  unfold Env.verdict
  rw [if_pos hportal]

theorem verdict_skip (hportal : env.inPortalcall f.eip = false)
    (hnone : ∀ n, ¬ env.Takes InRange exclass f n) :
    env.verdict InRange exclass (f :: fs) = env.verdict InRange exclass fs := by
  rw [Env.verdict, if_neg (by simp [hportal]), dif_neg (by simpa using hnone)]

open Classical in
theorem verdict_caught (hportal : env.inPortalcall f.eip = false)
    (htakes : env.Takes InRange exclass f n) (hfirst : ∀ k < n, ¬ env.Takes InRange exclass f k) :
    env.verdict InRange exclass (f :: fs) = .caught n (f :: fs) := by
  have hex : ∃ n, env.Takes InRange exclass f n := ⟨n, htakes⟩
  rw [Env.verdict, if_neg (by simp [hportal]), dif_pos hex,
    (Nat.find_eq_iff hex).mpr ⟨htakes, hfirst⟩]

/-- Here too the method of a frame is the only one that counts. -/
theorem settledAt_iff (hl : Loaded env.libs) (hruns : env.Runs f h i j m) :
    env.SettledAt exclass f ↔ ∀ n e, (env.handlers h i j).exceptionTable[n]? = some e →
      (∀ k < n, ¬ env.Takes ExceptionDesc.Compares exclass f k) →
        env.Settled exclass (findByteCodePosition m f.eip) e := by
  constructor
  · exact fun hall n e => hall h i j m n e hruns
  · intro hall h' i' j' m' n e hruns'
    obtain ⟨rfl, rfl, rfl⟩ := hruns'.1.unique hl hruns.1 hruns'.2 hruns.2
    obtain rfl := hruns'.1.eq hruns.1
    exact hall n e

theorem allSettled_iff (hportal : env.inPortalcall f.eip = false) :
    env.AllSettled exclass (f :: fs) ↔ env.SettledAt exclass f ∧
      ((∃ n, env.Takes ExceptionDesc.Compares exclass f n) ∨ env.AllSettled exclass fs) := by
  rw [Env.AllSettled, hportal]
  exact or_iff_right Bool.false_ne_true

/-- A frame of a method: its handler is entered, or the frame is left. -/
theorem returns_scanStack_method (hclasses : env.classes.Hierarchy) (hl : Loaded env.libs)
    (hin : sp > env.stack ∧ sp < env.stackTop) (hportal : env.inPortalcall (s.mem (sp + 4)) = false)
    (hruns : env.Runs ⟨s.mem sp, s.mem (sp + 4)⟩ h i j m)
    (hroom : (env.handlers h i j).sizeLocalVars ≥ 0 ∧
      sp + 8 + 4 * (env.handlers h i j).sizeLocalVars ≤ s.mem sp ∧ s.mem sp < 2 ^ 32)
    (hnext : Returns (fun fuel => scanStack env s exception exclass fuel (s.mem sp)) r ↔
      env.AllSettled exclass fs ∧
        env.Leads s exception D (env.verdict ExceptionDesc.Compares exclass fs) r) :
    Returns (fun fuel => scanStack env s exception exclass fuel sp) r ↔
      env.AllSettled exclass (⟨s.mem sp, s.mem (sp + 4)⟩ :: fs) ∧ env.Leads s exception D
        (env.verdict ExceptionDesc.Compares exclass (⟨s.mem sp, s.mem (sp + 4)⟩ :: fs)) r := by
  let enter := fun x fuel => enterOr (enterHandler s exception (s.mem sp)
    (env.handlers h i j).sizeLocalVars (codeOf env.libs h i j))
      (scanStack env s exception exclass fuel (s.mem sp)) x
  have hstep : ∀ fuel, scanStack env s exception exclass (fuel + 1) sp =
      lookup env exclass (findByteCodePosition m (s.mem (sp + 4))) fuel 0
          (env.handlers h i j).exceptionTable >>= fun x => enter x fuel := by
    intro fuel
    simp only [scanStack, hin, and_self, if_true, hportal, MethodLookup.report,
      MethodLookup.findMethodAtAddrInDomain_eq hl hruns.1 hruns.2, Bool.false_eq_true, if_false]
    rfl
  have hfits : ∀ n, env.Takes ExceptionDesc.Compares exclass ⟨s.mem sp, s.mem (sp + 4)⟩ n ↔
      ∃ e, (env.handlers h i j).exceptionTable[n]? = some e ∧
        env.Fits exclass (findByteCodePosition m (s.mem (sp + 4))) e := fun n => takes_iff hl hruns
  rw [returns_succ_iff hstep, allSettled_iff hportal, settledAt_iff hl hruns]
  rcases lookup_cases hclasses exclass (findByteCodePosition m (s.mem (sp + 4)))
    (env.handlers h i j).exceptionTable 0 with
    ⟨n, e, hentry, hfit, hfirst, hall, hret⟩ | ⟨hnone, hret⟩ | ⟨n, e, hentry, hnot, hfirst, hstops⟩
  · have htakes := (hfits n).mpr ⟨e, hentry, hfit⟩
    have hearlier : ∀ k < n, ¬ env.Takes ExceptionDesc.Compares exclass
        ⟨s.mem sp, s.mem (sp + 4)⟩ k := by
      intro k hk hk'
      obtain ⟨e', he', hfit'⟩ := (hfits k).mp hk'
      exact hfirst k hk e' he' hfit'
    have hsettled : ∀ k e', (env.handlers h i j).exceptionTable[k]? = some e' →
        (∀ k' < k, ¬ env.Takes ExceptionDesc.Compares exclass ⟨s.mem sp, s.mem (sp + 4)⟩ k') →
          env.Settled exclass (findByteCodePosition m (s.mem (sp + 4))) e' := by
      intro k e' he' hbefore
      refine hall k (Nat.le_of_not_lt fun hlt => hbefore n hlt htakes) e' he'
    have hleads : env.Leads s exception D (.caught n (⟨s.mem sp, s.mem (sp + 4)⟩ :: fs)) _ :=
      leads_enterHandler hruns hentry hroom
    rw [Nat.zero_add] at hret
    rw [verdict_caught hportal htakes hearlier, and_iff_right ⟨hsettled, .inl ⟨n, htakes⟩⟩]
    refine (returns_bind_iff (k := enter) hret).trans ?_
    refine returns_pure_iff.trans ⟨?_, fun hr => leads_caught_unique hl hr hleads⟩
    rintro rfl
    exact hleads
  · have hskip : ∀ n, ¬ env.Takes ExceptionDesc.Compares exclass
        ⟨s.mem sp, s.mem (sp + 4)⟩ n := by
      intro n hn
      obtain ⟨e, he, hfit⟩ := (hfits n).mp hn
      exact (hnone e (List.mem_of_getElem? he)).1 hfit
    have hsettled : ∀ k e', (env.handlers h i j).exceptionTable[k]? = some e' →
        (∀ k' < k, ¬ env.Takes ExceptionDesc.Compares exclass ⟨s.mem sp, s.mem (sp + 4)⟩ k') →
          env.Settled exclass (findByteCodePosition m (s.mem (sp + 4))) e' :=
      fun k e' he' _ => (hnone e' (List.mem_of_getElem? he')).2
    rw [verdict_skip hportal hskip, and_iff_right hsettled,
      or_iff_right (not_exists.mpr hskip), ← hnext]
    exact returns_bind_iff (k := enter) hret
  · -- the stack is too small for an entry that is looked at
    refine iff_of_false (fun hr => (hstops.bind (k := enter)).not_returns hr) ?_
    rintro ⟨⟨hsettled, -⟩, -⟩
    refine hnot (hsettled n e hentry fun k hk hk' => ?_)
    obtain ⟨e', he', hfit'⟩ := (hfits k).mp hk'
    exact hfirst k hk e' he' hfit'

/-- The walk ends where the loop's reading of the tables says, by induction along the stack, unless the
stack is too small for it. -/
theorem returns_scanStack_iff {frames : List Frame} (hclasses : env.classes.Hierarchy)
    (hl : Loaded env.libs) (hstack : IsStack env s.mem sp frames) :
    Returns (fun fuel => scanStack env s exception exclass fuel sp) r ↔
      env.AllSettled exclass frames ∧
        env.Leads s exception (fun t => Returns (catchAtPortal env s exception) t)
          (env.verdict ExceptionDesc.Compares exclass frames) r := by
  induction hstack with
  | @nil sp hend =>
    have hstep : ∀ fuel, scanStack env s exception exclass (fuel + 1) sp = pure (.exit, s) := by
      intro fuel
      simp only [scanStack, hend, if_false]
    rw [returns_succ_iff hstep, returns_pure_iff]
    exact leads_uncaught_iff.symm.trans (and_iff_right trivial).symm
  | @cons sp fs hin hroom hrest ih =>
    cases hportal : env.inPortalcall (s.mem (sp + 4)) with
    | true =>
      have hstep : ∀ fuel, scanStack env s exception exclass (fuel + 1) sp =
          catchAtPortal env s exception fuel >>= fun t => pure (.receivePortal, t) := by
        intro fuel
        simp only [scanStack, hin, and_self, if_true, hportal]
      rw [returns_succ_iff hstep, returns_map_iff fun _ _ h => congrArg Prod.snd h,
        verdict_portal hportal, leads_portal_iff]
      exact (and_iff_right (.inl hportal)).symm
    | false =>
      cases hfound : findMethodAtAddrInDomain (s.mem (sp + 4)) env.libs with
      | none =>
        -- a native frame: nothing in it can take the exception
        have hnone : ∀ h i j m, ¬ env.Runs ⟨s.mem sp, s.mem (sp + 4)⟩ h i j m := by
          rintro h i j m ⟨hm, hcov⟩
          rw [MethodLookup.findMethodAtAddrInDomain_eq hl hm hcov] at hfound
          cases hfound
        have hstep : ∀ fuel, scanStack env s exception exclass (fuel + 1) sp =
            scanStack env s exception exclass fuel (s.mem sp) := by
          intro fuel
          simp [scanStack, hin, hportal, hfound]
        have hsettled : env.SettledAt exclass ⟨s.mem sp, s.mem (sp + 4)⟩ :=
          fun h i j m _ _ hruns => absurd hruns (hnone h i j m)
        rw [returns_succ_iff hstep, verdict_skip hportal fun n => not_takes hnone,
          allSettled_iff hportal, and_iff_right hsettled,
          or_iff_right (not_exists.mpr fun n => not_takes hnone)]
        exact ih
      | some found =>
        obtain ⟨h, i, j, m, hm, hcov, rfl⟩ := MethodLookup.findMethodAtAddrInDomain_some hfound
        exact returns_scanStack_method hclasses hl hin hportal ⟨hm, hcov⟩ (hroom h i j m hm hcov) ih

end Frames

/-! ## Two readings -/

section Readings

variable {env : Env} {exclass n : Nat} {f : Frame} {fs frames : List Frame}
  {InRange : ExceptionDesc → Int → Prop}

/-- Entry `n` is the first that takes the exception. -/
def Env.First (env : Env) (InRange : ExceptionDesc → Int → Prop) (exclass : Nat) (f : Frame)
    (n : Nat) : Prop :=
  env.Takes InRange exclass f n ∧ ∀ k < n, ¬ env.Takes InRange exclass f k

open Classical in
theorem exists_first (h : ∃ n, env.Takes InRange exclass f n) :
    ∃ n, env.First InRange exclass f n :=
  ⟨Nat.find h, Nat.find_spec h, fun _ hk => Nat.find_min h hk⟩

/-- Who catches the exception is on the stack. -/
theorem takes_of_verdict_eq (h : env.verdict InRange exclass frames = .caught n fs) :
    fs <:+ frames ∧ ∃ f gs, fs = f :: gs ∧ env.Takes InRange exclass f n := by
  induction frames with
  | nil => cases h
  | cons g gs ih =>
    cases hportal : env.inPortalcall g.eip with
    | true =>
      rw [verdict_portal hportal] at h
      cases h
    | false =>
      by_cases htakes : ∃ n, env.Takes InRange exclass g n
      · obtain ⟨k, hk, hfirst⟩ := exists_first htakes
        rw [verdict_caught hportal hk hfirst] at h
        cases h
        exact ⟨List.suffix_rfl, g, gs, rfl, hk⟩
      · rw [verdict_skip hportal (by simpa using htakes)] at h
        exact ⟨(ih h).1.trans (List.suffix_cons g gs), (ih h).2⟩

/-- And there is a service entry on the stack if the exception comes to one. -/
theorem portal_of_verdict_eq (h : env.verdict InRange exclass frames = .portal) :
    ∃ f ∈ frames, env.inPortalcall f.eip = true := by
  induction frames with
  | nil => cases h
  | cons g gs ih =>
    cases hportal : env.inPortalcall g.eip with
    | true => exact ⟨g, List.mem_cons_self, hportal⟩
    | false =>
      by_cases htakes : ∃ n, env.Takes InRange exclass g n
      · obtain ⟨k, hk, hfirst⟩ := exists_first htakes
        rw [verdict_caught hportal hk hfirst] at h
        cases h
      · rw [verdict_skip hportal (by simpa using htakes)] at h
        obtain ⟨f, hf, hfportal⟩ := ih h
        exact ⟨f, List.mem_cons_of_mem _ hf, hfportal⟩

/-- Frames further out are looked at when there is nothing in this one. -/
theorem verdict_ne_caught : env.verdict InRange exclass fs ≠ .caught n (f :: fs) := by
  intro h
  have hlen := (takes_of_verdict_eq h).1.length_le
  simp at hlen

theorem verdict_eq_caught_iff (hportal : env.inPortalcall f.eip = false) :
    env.verdict InRange exclass (f :: fs) = .caught n (f :: fs) ↔
      env.First InRange exclass f n := by
  constructor
  · intro h
    by_cases htakes : ∃ n, env.Takes InRange exclass f n
    · obtain ⟨k, hk⟩ := exists_first htakes
      rw [verdict_caught hportal hk.1 hk.2] at h
      cases h
      exact hk
    · rw [verdict_skip hportal (by simpa using htakes)] at h
      exact (verdict_ne_caught h).elim
  · exact fun h => verdict_caught hportal h.1 h.2

/-- If one reading finds an entry in the frame, they agree in it when the other finds the same. -/
theorem agreesAt_iff_of_first (h : env.First ExceptionDesc.Contains exclass f n) :
    env.AgreesAt exclass f ↔ env.First ExceptionDesc.Compares exclass f n := by
  constructor
  · intro hagree
    -- By induction on the entries before `n`: each is looked at by both readings.
    have hnone : ∀ k < n, ¬ env.Takes ExceptionDesc.Compares exclass f k := by
      intro k
      induction k using Nat.strong_induction_on with
      | _ k ih =>
        intro hk
        rw [← hagree k fun j hj => ⟨h.2 j (by omega), ih j hj (by omega)⟩]
        exact h.2 k hk
    exact ⟨(hagree n fun k hk => ⟨h.2 k hk, hnone k hk⟩).mp h.1, hnone⟩
  · intro hfirst k hk
    rcases Nat.lt_trichotomy k n with hlt | rfl | hlt
    · exact iff_of_false (h.2 k hlt) (hfirst.2 k hlt)
    · exact iff_of_true h.1 hfirst.1
    · exact ((hk n hlt).1 h.1).elim

theorem agreesAt_iff_of_none (h : ∀ n, ¬ env.Takes ExceptionDesc.Contains exclass f n) :
    env.AgreesAt exclass f ↔ ∀ n, ¬ env.Takes ExceptionDesc.Compares exclass f n := by
  constructor
  · intro hagree n
    induction n using Nat.strong_induction_on with
    | _ n ih =>
      rw [← hagree n fun k hk => ⟨h k, ih k hk⟩]
      exact h n
  · intro hnone n _
    exact iff_of_false (h n) (hnone n)

/-- The readings agree on what is looked at exactly if they say the same about the whole stack. -/
theorem searchesAgree_iff : env.Agrees exclass frames ↔
    env.verdict ExceptionDesc.Contains exclass frames =
      env.verdict ExceptionDesc.Compares exclass frames := by
  induction frames with
  | nil => exact iff_of_true trivial rfl
  | cons f fs ih =>
    unfold Env.Agrees
    cases hportal : env.inPortalcall f.eip with
    | true =>
      rw [verdict_portal hportal, verdict_portal hportal]
      exact iff_of_true (.inl rfl) rfl
    | false =>
      by_cases htakes : ∃ n, env.Takes ExceptionDesc.Contains exclass f n
      · obtain ⟨n, hn⟩ := exists_first htakes
        rw [verdict_caught hportal hn.1 hn.2, @eq_comm Verdict, verdict_eq_caught_iff hportal,
          agreesAt_iff_of_first hn]
        simp [htakes]
      · have hnone : ∀ n, ¬ env.Takes ExceptionDesc.Contains exclass f n := by simpa using htakes
        rw [agreesAt_iff_of_none hnone, verdict_skip hportal hnone]
        by_cases hcompares : ∃ n, env.Takes ExceptionDesc.Compares exclass f n
        · obtain ⟨n, hn⟩ := exists_first hcompares
          rw [verdict_caught hportal hn.1 hn.2]
          refine iff_of_false ?_ verdict_ne_caught
          rintro (hfalse | ⟨hall, -⟩)
          · cases hfalse
          · exact hall n hn.1
        · have hall : ∀ n, ¬ env.Takes ExceptionDesc.Compares exclass f n := by
            simpa using hcompares
          rw [verdict_skip hportal hall, ← ih]
          simp [htakes, hall]

end Readings

/-! ## Service entries -/

section Portals

variable {null : Bool} {sys : Termination.Sys} {k copy : Nat} {source : Thread}

theorem touch_record (sys : Termination.Sys) (t : Thread) :
    (sys.touch t).portalReturn = sys.portalReturn ∧ (sys.touch t).replies = sys.replies ∧
      (sys.touch t).inCall = sys.inCall := by
  unfold Termination.Sys.touch
  split <;> exact ⟨rfl, rfl, rfl⟩

/-- A caller that has not disappeared is answered once, with the copy. -/
theorem throwException_answers
    (h : Termination.callerDisappeared null sys (sys.receiver k) = false) :
    (Termination.throwException null sys k source copy).portalReturn source =
        ⟨returnTypeException, copy⟩ ∧
      (Termination.throwException null sys k source copy).replies =
        sys.replies ++ (sys.inCall source).toList := by
  have htouch := touch_record
  simp [Termination.throwException, h, Termination.Sys.threadunblock, Termination.Sys.setState,
    Termination.Sys.record, Termination.Sys.setReturn, htouch]

/-- A caller that has disappeared is not. -/
theorem throwException_disappeared
    (h : Termination.callerDisappeared null sys (sys.receiver k) = true) :
    (Termination.throwException null sys k source copy).replies = sys.replies := by
  have htouch := touch_record
  simp [Termination.throwException, h, Termination.Sys.threadunblock, Termination.Sys.setState,
    htouch]

variable {env : Env} {s : State} {exception : Nat}

/-- The state after a copy has been given to the caller. -/
def answered (env : Env) (s : State) (source : Thread) (x : Nat × PortalCopy.Sys) : State :=
  { s with heap := x.2, sys := Termination.throwException env.null s.sys env.svc source x.1 }

/-- What happens at a service entry is right exactly if the exception can be delivered. -/
theorem deliverable_iff (hserves : env.Serves s source) :
    env.Deliverable s exception source ↔ ∃ t, Returns (catchAtPortal env s exception) t ∧
      (s.sys.freed source = false → env.Delivered s exception source t) := by
  obtain ⟨hcaller, hcall⟩ := hserves
  unfold Env.Deliverable
  cases hgone : Termination.callerDisappeared env.null s.sys (s.sys.receiver env.svc) with
  | true =>
    have hrun : catchAtPortal env s exception =
        fun _ => pure (answered env s source (0, s.heap)) := by
      funext fuel
      simp only [catchAtPortal, hcaller, hgone, if_true, answered]
    -- An exception that is not delivered does not answer the call either.
    have hnot : ∀ t, t = answered env s source (0, s.heap) →
        ¬ env.Delivered s exception source t := by
      rintro t rfl hdelivered
      have honce := hdelivered.once
      rw [answered, throwException_disappeared hgone] at honce
      simp at honce
      exact hcall honce
    simp only [hrun, returns_pure_iff]
    constructor
    · rintro ⟨halive, -⟩
      exact ⟨_, rfl, fun hfreed => Bool.noConfusion (halive hfreed)⟩
    · rintro ⟨t, ht, hdelivered⟩
      refine ⟨fun hfreed => (hnot t ht (hdelivered hfreed)).elim, fun hfalse => ?_⟩
      cases hfalse
  | false =>
    have hanswers : ∀ copy heap, (answered env s source (copy, heap)).sys.portalReturn source =
          ⟨returnTypeException, copy⟩ ∧ (answered env s source (copy, heap)).sys.replies =
            s.sys.replies ++ (s.sys.inCall source).toList :=
      fun _ _ => throwException_answers hgone
    -- The copy can be read off the caller's state afterwards.
    have hinjective : ∀ x y, answered env s source x = answered env s source y → x = y := by
      rintro ⟨copy, heap⟩ ⟨copy', heap'⟩ heq
      obtain rfl : heap = heap' := congrArg State.heap heq
      have hreturn := congrArg (fun t : State => t.sys.portalReturn source) heq
      simp only [(hanswers _ _).1] at hreturn
      cases hreturn
      rfl
    have hrun : catchAtPortal env s exception = fun fuel =>
        copyException env s.heap (s.sys.domain source) exception fuel >>= fun x =>
          pure (answered env s source x) := by
      funext fuel
      simp only [catchAtPortal, hcaller, hgone, Bool.false_eq_true, if_false]
      rfl
    simp only [hrun, returns_map_iff hinjective]
    constructor
    · rintro ⟨-, hcopies⟩
      obtain ⟨copy, heap, hcopy, hiscopy⟩ := hcopies trivial
      refine ⟨_, ⟨(copy, heap), hcopy, rfl⟩, fun hfreed => ⟨?_, (hanswers copy heap).2⟩⟩
      exact ⟨copy, hiscopy hfreed, hcopy, (hanswers copy heap).1⟩
    · rintro ⟨_, ⟨⟨copy, heap⟩, hcopy, rfl⟩, hdelivered⟩
      refine ⟨fun _ => trivial, fun _ => ⟨copy, heap, hcopy, fun hfreed => ?_⟩⟩
      obtain ⟨copy', hiscopy, -, hreturn⟩ := (hdelivered hfreed).returned
      have heq := (hanswers copy heap).1.symm.trans hreturn
      cases heq
      exact hiscopy

end Portals

/-! ## The whole stack -/

section Stacks

variable {env : Env} {mem : Nat → Nat} {s : State} {exception exclass sp n : Nat} {f : Frame}
  {fs gs frames : List Frame} {D D' : State → Prop} {v v' : Verdict} {r : Control × State}

theorem IsStack.unique (hfs : IsStack env mem sp fs) (hgs : IsStack env mem sp gs) : fs = gs := by
  induction hfs generalizing gs with
  | nil hend =>
    cases hgs with
    | nil => rfl
    | cons hin => exact (hend hin).elim
  | cons hin _ _ ih =>
    cases hgs with
    | nil hend => exact (hend hin).elim
    | cons _ _ hrest => rw [ih hrest]

theorem IsStack.suffix (h : IsStack env mem sp frames) (hsuffix : fs <:+ frames) :
    ∃ sp', IsStack env mem sp' fs := by
  induction h with
  | nil hend =>
    rw [List.suffix_nil.mp hsuffix]
    exact ⟨_, .nil hend⟩
  | @cons sp gs hin hroom hrest ih =>
    rcases List.suffix_cons_iff.mp hsuffix with rfl | hsuffix
    · exact ⟨sp, .cons hin hroom hrest⟩
    · exact ih hsuffix

/-- Two frames with the same frame pointer are the same frame. -/
theorem IsStack.eq_of_ebp {g : Frame} (h : IsStack env mem sp frames) (hf : f :: fs <:+ frames)
    (hg : g :: gs <:+ frames) (hebp : f.ebp = g.ebp) : f :: fs = g :: gs := by
  obtain ⟨sp₁, h₁⟩ := h.suffix hf
  obtain ⟨sp₂, h₂⟩ := h.suffix hg
  -- What is further out is found through the frame pointer alone.
  have hrest : fs = gs := by
    cases h₁ with
    | cons _ _ hfs =>
      cases h₂ with
      | cons _ _ hgs =>
        have heq : mem sp₁ = mem sp₂ := hebp
        rw [heq] at hfs
        exact hfs.unique hgs
  have hlen : (f :: fs).length = (g :: gs).length := by
    rw [List.length_cons, List.length_cons, hrest]
  exact (List.suffix_of_suffix_length_le hf hg (Nat.le_of_eq hlen)).eq_of_length hlen

/-- Where the exception has ended up shows what was found. -/
theorem Env.Leads.verdict_unique (h : IsStack env mem sp frames)
    (hr : env.Leads s exception D v r) (hr' : env.Leads s exception D' v' r)
    (hv : ∀ n fs, v = .caught n fs → fs <:+ frames)
    (hv' : ∀ n fs, v' = .caught n fs → fs <:+ frames) : v = v' := by
  cases hr with
  | uncaught =>
    cases hr'
    rfl
  | portal ht =>
    cases hr'
    rfl
  | caught hruns hentry hesp =>
    generalize hgen : (Control.handler _ _ _ _, _) = r at hr'
    cases hr' with
    | uncaught => cases hgen
    | portal ht => cases hgen
    | caught hruns' hentry' hesp' =>
      have hcontrol := congrArg Prod.fst hgen
      injection hcontrol with hn hebp _ _
      rw [hn, h.eq_of_ebp (hv _ _ rfl) (hv' _ _ rfl) hebp]

/-- There is room for the exception where it is caught. -/
theorem exists_leads (h : IsStack env s.mem sp frames)
    (hv : env.verdict ExceptionDesc.Contains exclass frames = .caught n fs) (exception : Nat) :
    ∃ r, ∀ D, env.Leads s exception D (.caught n fs) r := by
  obtain ⟨hsuffix, f, gs, rfl, h', i, j, m, e, hruns, hentry, -⟩ := takes_of_verdict_eq hv
  obtain ⟨sp', hstack⟩ := h.suffix hsuffix
  cases hstack with
  | cons _ hroom _ =>
    exact ⟨_, fun D => leads_enterHandler hruns hentry (hroom h' i j m hruns.1 hruns.2)⟩

/-- The exception ends up where it should exactly if both readings lead to the same place, there is
enough of the stack on the way and, where that is a service entry, it can be delivered. -/
theorem dispatches_iff_verdict {source : Thread} (hclasses : env.classes.Hierarchy)
    (hl : Loaded env.libs) (hclass : env.classOf exception = some exclass)
    (hstack : IsStack env s.mem sp frames)
    (hserves : (∃ f ∈ frames, env.inPortalcall f.eip = true) → env.Serves s source) :
    env.Dispatches s exception exclass sp frames source ↔
      (env.verdict ExceptionDesc.Contains exclass frames =
          env.verdict ExceptionDesc.Compares exclass frames ∧ env.AllSettled exclass frames) ∧
        (env.verdict ExceptionDesc.Contains exclass frames = .portal →
          env.Deliverable s exception source) := by
  have hrun : ∀ r, Returns (throwException env s exception sp) r ↔
      env.AllSettled exclass frames ∧
        env.Leads s exception (fun t => Returns (catchAtPortal env s exception) t)
          (env.verdict ExceptionDesc.Compares exclass frames) r := by
    intro r
    rw [← returns_scanStack_iff hclasses hl hstack]
    unfold throwException
    rw [hclass]
  have hportal : env.verdict ExceptionDesc.Contains exclass frames = .portal →
      env.Serves s source := fun h => hserves (portal_of_verdict_eq h)
  unfold Env.Dispatches
  simp only [hrun]
  constructor
  · rintro ⟨r, ⟨hsettled, hcode⟩, hspec⟩
    have hsame := hspec.verdict_unique hstack hcode (fun _ _ h => (takes_of_verdict_eq h).1)
      fun _ _ h => (takes_of_verdict_eq h).1
    refine ⟨⟨hsame, hsettled⟩, fun h => ?_⟩
    rw [← hsame, h, leads_portal_iff] at hcode
    rw [h, leads_portal_iff] at hspec
    obtain ⟨t, ht, rfl⟩ := hcode
    obtain ⟨t', ht', heq⟩ := hspec
    cases heq
    exact (deliverable_iff (hportal h)).mpr ⟨t, ht, ht'⟩
  · rintro ⟨⟨hsame, hsettled⟩, hdeliver⟩
    rw [← hsame]
    cases hv : env.verdict ExceptionDesc.Contains exclass frames with
    | uncaught => exact ⟨_, ⟨hsettled, .uncaught⟩, .uncaught⟩
    | portal =>
      obtain ⟨t, ht, ht'⟩ := (deliverable_iff (hportal hv)).mp (hdeliver hv)
      exact ⟨_, ⟨hsettled, .portal ht⟩, .portal ht'⟩
    | caught n fs =>
      obtain ⟨r, hr⟩ := exists_leads hstack hv exception
      exact ⟨r, ⟨hsettled, hr _⟩, hr _⟩

/-- `throw_exception` does what it should exactly if the ranges that it looks at mean the same to it
as they do to the table, the stack is large enough for `check_assign` and, where nothing below the
nearest service entry is for the exception, it can be delivered. -/
theorem dispatches_iff {source : Thread} (hclasses : env.classes.Hierarchy) (hl : Loaded env.libs)
    (hclass : env.classOf exception = some exclass) (hstack : IsStack env s.mem sp frames)
    (hserves : (∃ f ∈ frames, env.inPortalcall f.eip = true) → env.Serves s source) :
    env.Dispatches s exception exclass sp frames source ↔
      (env.Agrees exclass frames ∧ env.AllSettled exclass frames) ∧
        (env.verdict ExceptionDesc.Contains exclass frames = .portal →
          env.Deliverable s exception source) := by
  rw [dispatches_iff_verdict hclasses hl hclass hstack hserves, searchesAgree_iff]

/-- The stack is large enough if it is for the height of the exception's class. -/
theorem allSettled_of_room {rank : Nat → Nat} {size : Nat} (hclasses : env.classes.Hierarchy)
    (hrank : env.classes.Ranked rank) (hframe : ∀ a b, env.frame a b ≤ size)
    (hroom : Assign.assignRoom size (rank exclass) ≤ env.room) (frames : List Frame) :
    env.AllSettled exclass frames := by
  induction frames with
  | nil => trivial
  | cons f fs ih =>
    refine .inr ⟨fun _ _ _ _ _ _ _ _ _ _ type _ => ?_, .inr ih⟩
    obtain ⟨b, hb, -⟩ := (Assign.Classes.decides_checkAssign hclasses hrank hframe type exclass
      env.room).returns hroom
    exact ⟨b, hb⟩

end Stacks

/-! ## Tables as a compiler writes them -/

section Sane

variable {env : Env} {exclass : Nat} {pos : Int} {e : ExceptionDesc}

/-- A `jint` that is not negative. -/
def Natural (i : Int) : Prop := 0 ≤ i ∧ i < 2 ^ 31

/-- An unknown position is the largest word, which no range contains. -/
theorem compares_iff_contains (hstart : Natural e.start) (hstop : Natural e.stop)
    (hpos : pos = -1 ∨ Natural pos) : e.Compares pos ↔ e.Contains pos := by
  unfold Natural at hstart hstop hpos
  unfold ExceptionDesc.Compares ExceptionDesc.Contains toU4
  omega

theorem findByteCodePosition_natural {m : MethodLookup.MethodDesc} (addr : Nat)
    (h : ∀ b ∈ m.bytecodeTable, Natural b.bytecodePos) :
    findByteCodePosition m addr = -1 ∨ Natural (findByteCodePosition m addr) := by
  unfold findByteCodePosition
  cases hfind : m.bytecodeTable.find? fun b =>
      decide (b.start ≤ (addr : Int) - m.code ∧ b.stop ≥ (addr : Int) - m.code) with
  | none =>
    left
    simp only [hfind, Option.map_none, Option.getD_none]
  | some b =>
    right
    simp only [hfind, Option.map_some, Option.getD_some]
    exact h b (List.mem_of_find?_eq_some hfind)

/-- No entry of a table and no position is negative. -/
def Env.Sane (env : Env) : Prop :=
  ∀ h i j m, IsMethod env.libs h i j m → (∀ b ∈ m.bytecodeTable, Natural b.bytecodePos) ∧
    ∀ e ∈ (env.handlers h i j).exceptionTable, Natural e.start ∧ Natural e.stop

/-- Then both readings are the same. -/
theorem Env.Sane.agrees (hsane : env.Sane) (exclass : Nat) (frames : List Frame) :
    env.Agrees exclass frames := by
  have htakes : ∀ f n, env.Takes ExceptionDesc.Contains exclass f n ↔
      env.Takes ExceptionDesc.Compares exclass f n := by
    intro f n
    unfold Env.Takes
    refine exists_congr fun h => exists_congr fun i => exists_congr fun j => exists_congr fun m =>
      exists_congr fun e => and_congr_right fun hruns => and_congr_right fun hentry =>
        and_congr_left fun _ => ?_
    obtain ⟨hpos, htable⟩ := hsane h i j m hruns.1
    obtain ⟨hstart, hstop⟩ := htable e (List.mem_of_getElem? hentry)
    exact (compares_iff_contains hstart hstop (findByteCodePosition_natural f.eip hpos)).symm
  induction frames with
  | nil => trivial
  | cons f fs ih => exact .inr ⟨fun n _ => htakes f n, .inr ih⟩

end Sane

/-! ## A method without a handler, called through a portal -/

section Rethrown

/-- Its only entry is for the positions 0 to 2. An allocation in the caller's heap may start a
collection. -/
def rethrownEnv (collects : Bool) : Env where
  domain := 2
  libs := MethodLookup.twoLinesLibs
  handlers _ _ _ := ⟨2, [⟨0, 3, none, 4⟩]⟩
  classes := Assign.Classes.exampleClasses
  frame _ _ := 64
  room := 4096
  classOf e := if e = 0x2000 then some 3 else none
  stack := 0x800
  stackTop := 0x880
  receivePortalcall := 0x400
  sizePortalcall := 0x100
  svc := 0
  null := false
  copying :=
    { frames := ⟨64, 64, 64, 64⟩
      room := 4096
      classDesc _ := ⟨0, [], false, none⟩
      arrayName _ := []
      heapOf a :=
        if 0x1000 ≤ a ∧ a < 0x2000 then some 1
        else if 0x2000 ≤ a ∧ a < 0x3000 then some 2 else none
      domainId d := d
      loaded _ _ := false
      place d _ n := some ⟨0x1000 * d + 0x200 + 8 * n, collects⟩
      collect _ s := s }

/-- The method of the service has thrown the exception at `0x2000`, at position 3. -/
def rethrown : State where
  mem a := if a = 0x810 then 0x840 else if a = 0x814 then 107 else if a = 0x840 then 0x880
    else if a = 0x844 then 0x420 else 0
  heap :=
    { objs a := if a = 0x2000 then some (.object 3 []) else none
      services _ _ := .free
      copied := []
      maxCopied := 100
      quota := 1000
      allocs := 0 }
  sys := Termination.receivePortalcall false Termination.twoSenders 0 none

def rethrownFrames : List Frame := [⟨0x840, 107⟩, ⟨0x880, 0x420⟩]

variable {collects : Bool}

theorem rethrown_stack : IsStack (rethrownEnv collects) rethrown.mem 0x810 rethrownFrames := by
  have hend : IsStack (rethrownEnv collects) rethrown.mem 0x880 [] :=
    .nil (by cases collects <;> decide)
  have hportal : IsStack (rethrownEnv collects) rethrown.mem 0x840 [⟨0x880, 0x420⟩] := by
    refine .cons (by cases collects <;> decide) ?_ hend
    intro _ _ _ m hm hcov
    rw [MethodLookup.isMethod_twoLines hm] at hcov
    exact absurd hcov (by decide)
  refine .cons (by cases collects <;> decide) ?_ hportal
  intro _ _ _ _ _ _
  exact (by decide : (2 : Int) ≥ 0 ∧ 0x810 + 8 + 4 * (2 : Int) ≤ (0x840 : Nat) ∧ 0x840 < 2 ^ 32)

theorem rethrown_serves : (rethrownEnv collects).Serves rethrown 5 := ⟨rfl, by decide⟩

theorem rethrown_sane : (rethrownEnv collects).Sane := by
  intro h i j m hm
  rw [MethodLookup.isMethod_twoLines hm]
  unfold Natural
  refine ⟨by decide, fun e he => ?_⟩
  rw [List.mem_singleton.mp he]
  decide

/-- The exception comes to the service entry. -/
theorem rethrown_verdict :
    (rethrownEnv collects).verdict ExceptionDesc.Contains 3 rethrownFrames = .portal := by
  have hruns : (rethrownEnv collects).Runs ⟨0x840, 107⟩ 0 0 0 MethodLookup.twoLines :=
    ⟨⟨_, _, rfl, rfl, rfl⟩, by decide⟩
  have hnone : ∀ n, ¬ (rethrownEnv collects).Takes ExceptionDesc.Contains 3 ⟨0x840, 107⟩ n := by
    intro n hn
    obtain ⟨e, hentry, hrange, -⟩ := (takes_iff MethodLookup.loaded_twoLines hruns).mp hn
    rw [List.mem_singleton.mp (List.mem_of_getElem? hentry)] at hrange
    exact absurd hrange.2.2 (by decide)
  unfold rethrownFrames
  rw [verdict_skip (by cases collects <;> decide) hnone,
    verdict_portal (by cases collects <;> decide)]

theorem returns_rethrown (collects : Bool) : ∃ heap, Returns
    (copyException (rethrownEnv collects) rethrown.heap (rethrown.sys.domain 5) 0x2000)
    (if collects then restartMark else 0x1200, heap) := by
  cases collects <;> exact ⟨_, 1, fun fuel hfuel => by
    obtain ⟨n, rfl⟩ := Nat.exists_eq_add_of_le' hfuel
    rfl⟩

theorem rethrown_settled : (rethrownEnv collects).AllSettled 3 rethrownFrames := by
  have hframe : ∀ a b, (rethrownEnv collects).frame a b ≤ 64 := fun _ _ => le_rfl
  have hroom : Assign.assignRoom 64 3 ≤ 4096 := by decide
  exact allSettled_of_room Assign.Classes.exampleClasses_hierarchy
    Assign.Classes.exampleClasses_ranked hframe hroom _

/-- If nothing is collected, the caller gets a copy. -/
theorem dispatches_rethrown :
    (rethrownEnv false).Dispatches rethrown 0x2000 3 0x810 rethrownFrames 5 := by
  refine (dispatches_iff Assign.Classes.exampleClasses_hierarchy MethodLookup.loaded_twoLines rfl
    rethrown_stack fun _ => rethrown_serves).mpr
      ⟨⟨rethrown_sane.agrees 3 _, rethrown_settled⟩, fun _ => ?_⟩
  obtain ⟨heap, hcopy⟩ := returns_rethrown false
  exact ⟨fun _ => by decide, fun _ => ⟨0x1200, heap, hcopy, fun _ => ⟨by decide, .inr rfl⟩⟩⟩

/-- If the copy is broken off, the caller gets the mark instead of an exception. -/
theorem not_dispatches_collected :
    (rethrownEnv true).classes.Hierarchy ∧ Loaded (rethrownEnv true).libs ∧
      (rethrownEnv true).classOf 0x2000 = some 3 ∧
      IsStack (rethrownEnv true) rethrown.mem 0x810 rethrownFrames ∧
      (rethrownEnv true).Serves rethrown 5 ∧
      ¬ (rethrownEnv true).Dispatches rethrown 0x2000 3 0x810 rethrownFrames 5 := by
  refine ⟨Assign.Classes.exampleClasses_hierarchy, MethodLookup.loaded_twoLines, rfl, rethrown_stack,
    rethrown_serves, fun hdispatches => ?_⟩
  obtain ⟨-, hdeliver⟩ := (dispatches_iff_verdict Assign.Classes.exampleClasses_hierarchy
    MethodLookup.loaded_twoLines rfl rethrown_stack fun _ => rethrown_serves).mp hdispatches
  obtain ⟨-, hcopies⟩ := hdeliver rethrown_verdict
  obtain ⟨copy, heap, hcopy, hiscopy⟩ := hcopies (by decide)
  obtain ⟨heap', hmark⟩ := returns_rethrown true
  exact (hiscopy (by decide)).1 (congrArg Prod.fst (hcopy.unique hmark))

end Rethrown

end JxCore.ThrowException
