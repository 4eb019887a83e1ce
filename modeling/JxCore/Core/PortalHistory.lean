import JxCore.Core.PortalTable

/-!
# The table of a thread from one copy to the next (`core/portal.c`)

It is for the callers of `copy_reference` to empty the table of the thread. A parameter, a return
value, `naming_lookup` and `installInitialNaming` begin with an empty table. `throw_exception` and
`naming_registerPortal` begin with what the copy before has left, and so do the names and arguments
that `domainManager_createDomain` copies one after the other once `installInitialNaming` is through.

`historyFree_of_clearRun` compares the thread with one that always begins with an empty table. They do
the same as long as no object to be copied has an address that is left over, and there is room for the
new entries behind the old ones.
-/

namespace JxCore.PortalCopy

open Exec

/-! ## Callers -/

/-- Who calls `copy_reference`: `receive_portalcall` for the parameters and the return value,
`throw_exception`, and the portals of domain zero. -/
inductive Caller where
  | implicitParameter
  | parameter
  | returnValue
  | exception
  | namingLookup
  | namingRegisterPortal
  | installInitialNaming
  /-- `startClassName`, `dcodeName`, `libNames`, `argv` or `initialPortals`. -/
  | createDomain
  deriving DecidableEq, Repr

/-- The caller begins with `curthr()->n_copied = 0`, or with `thread_prepare_to_copy()`, which does
the same and takes the `scratchMem` of the domain once more. -/
def Caller.resets : Caller → Bool
  | .implicitParameter | .parameter | .returnValue | .namingLookup | .installInitialNaming => true
  | .exception | .namingRegisterPortal | .createDomain => false

/-- A call of `copy_reference`, and the kernel at that time. -/
structure Copying where
  caller : Caller
  env : TableEnv
  src : Nat
  dst : Nat
  ref : Nat

/-- What happens besides, which may overwrite the table, since it is in the `scratchMem` of the
domain, but not change `n_copied`. -/
structure Change where
  apply : Sys → Sys
  blind : ∀ s, (apply s.clearCopied).clearCopied = (apply s).clearCopied
  entries : ∀ s, (apply s).copied.length = s.copied.length

/-- What a thread does and what happens to it. -/
inductive Event where
  /-- `receive_portalcall` takes the next sender. -/
  | receive
  | copy (c : Copying)
  | meanwhile (change : Change)

/-- `empties` says who begins with an empty table. -/
def Copying.run (c : Copying) (empties : Caller → Bool) (fuel : Nat) (s : Sys) : Exec (Nat × Sys) :=
  copyReference c.env.toEnv c.src c.dst fuel c.ref
    (if empties c.caller = true then s.clearCopied else s)

/-- The thread, and the objects that its copies return. -/
def serve (empties : Caller → Bool) (fuel : Nat) : List Event → Sys → Exec (List Nat × Sys)
  | [], s => pure ([], s)
  | .receive :: es, s => serve empties fuel es s.clearCopied
  | .meanwhile change :: es, s => serve empties fuel es (change.apply s)
  | .copy c :: es, s => do
    let (r, s) ← c.run empties fuel s
    let (rs, s) ← serve empties fuel es s
    pure (r :: rs, s)

/-- A result without the table. -/
def forget {α : Type} (x : Exec (α × Sys)) : Exec (α × Sys) :=
  x >>= fun y => pure (y.1, y.2.clearCopied)

/-- The thread does the same as if each copy began with an empty table. -/
def HistoryFree (fuel : Nat) (es : List Event) (s : Sys) : Prop :=
  forget (serve Caller.resets fuel es s) = forget (serve (fun _ => true) fuel es s)

/-- Nothing to be copied has an address that is left over in the table, the new entries have room
behind the old ones, and no promotion starts a collection of the objects to be copied. -/
structure Copying.Undisturbed (c : Copying) (s : Sys) : Prop where
  keys : ∀ p ∈ s.copied, ¬ Met c.env.toEnv s.clearCopied c.ref p.1
  room : ∃ all : Finset Nat, (∀ a, Met c.env.toEnv s.clearCopied c.ref a → a ∈ all) ∧
    s.copied.length + (∑ a ∈ all, entriesAt c.env.toEnv c.dst s.objs a +
      (servesAt c.env.toEnv s.objs c.ref).toNat) ≤ s.maxCopied
  calm : (∃ a, Met c.env.toEnv s.clearCopied c.ref a ∧ servesAt c.env.toEnv s.objs a = true) →
    ∀ k p, s.allocs ≤ k → c.env.place c.src false k = some p → p.collects = false

/-- The caller empties the table, or there is nothing left over that matters. -/
def Copying.Clear (c : Copying) (s : Sys) : Prop :=
  c.caller.resets = true ∨ s.copied = [] ∨ c.ref = 0 ∨ c.src = c.dst ∨ c.Undisturbed s

/-- Each copy of the thread is clear. -/
def ClearRun (fuel : Nat) : List Event → Sys → Prop
  | [], _ => True
  | .receive :: es, s => ClearRun fuel es s.clearCopied
  | .meanwhile change :: es, s => ClearRun fuel es (change.apply s)
  | .copy c :: es, s =>
    c.Clear s ∧ ∀ r t, c.run Caller.resets fuel s = pure (r, t) → ClearRun fuel es t

section Runs

variable {α : Type} {fuel : Nat} {s s' : Sys}

/-- Copies that are undisturbed are on their course from the beginning. -/
theorem Copying.Undisturbed.same {c : Copying} (h : c.Undisturbed s) (hne : c.src ≠ c.dst) :
    forget (copyReference c.env.toEnv c.src c.dst fuel c.ref s) =
      forget (copyReference c.env.toEnv c.src c.dst fuel c.ref s.clearCopied) := by
  obtain ⟨hkeys, ⟨all, hall, hroom⟩, hcalm⟩ := h
  let course : Course :=
    { env := c.env, src := c.src, dst := c.dst, left := s.copied, objs := s.objs
      met := Met c.env.toEnv s.clearCopied c.ref, all := all, apart := hne
      closed := fun _ _ _ ha ho hk hzero => .word ha rfl ho hk hzero
      inside := hall, fresh := hkeys }
  have hfollows := course.copyReference_follows fuel c.ref s.clearCopied fun hzero => .root hzero
  have hon : course.On s.clearCopied ((servesAt c.env.toEnv s.objs c.ref).toNat + 0) := by
    refine ⟨fun _ _ _ => .inl rfl, hcalm, ?_⟩
    have hdue : due c.env.toEnv c.dst s.objs all [] = ∑ a ∈ all, entriesAt c.env.toEnv c.dst s.objs a := by
      unfold due
      congr 1
      exact Finset.filter_true_of_mem fun _ _ => rfl
    show s.copied.length + (0 + due c.env.toEnv c.dst s.objs all [] + _) ≤ s.maxCopied
    rw [hdue, Nat.zero_add, Nat.add_zero]
    exact hroom
  have hself : s.clearCopied.behind s.copied = s := by
    show ({ s with copied := s.copied ++ [] } : Sys) = s
    rw [List.append_nil]
  have hsame := (hfollows 0 hon).1
  have hleft : course.left = s.copied := rfl
  rw [hleft, hself] at hsame
  unfold forget
  rw [hsame, bind_assoc]
  rfl

theorem copyReferenceInternal_self (env : Env) {src dst ref : Nat} (h : ref = 0 ∨ src = dst)
    (room fuel : Nat) (s : Sys) :
    forget (copyReferenceInternal env src dst fuel room ref s) =
      forget (copyReferenceInternal env src dst fuel room ref s.clearCopied) := by
  cases fuel with
  | zero => rfl
  | succ fuel =>
    by_cases hzero : ref = 0
    · simp only [copyReferenceInternal, if_pos hzero]
      rfl
    · simp only [copyReferenceInternal, if_neg hzero, if_pos (h.resolve_left hzero), forget, bind_assoc]
      rfl

/-- Nothing is copied. -/
theorem copyReference_self {env : Env} {src dst ref : Nat} (h : ref = 0 ∨ src = dst) :
    forget (copyReference env src dst fuel ref s) =
      forget (copyReference env src dst fuel ref s.clearCopied) := by
  have hinternal := copyReferenceInternal_self env h (env.room - env.frames.reference) fuel s
  unfold forget at hinternal ⊢
  unfold copyReference
  simp only [bind_assoc, hinternal]

/-- A copy that is clear does the same as with an empty table. -/
theorem Copying.Clear.same {c : Copying} (h : c.Clear s) :
    forget (c.run Caller.resets fuel s) = forget (c.run (fun _ => true) fuel s) := by
  unfold Copying.run
  rw [if_pos (rfl : true = true)]
  by_cases hresets : c.caller.resets = true
  · rw [if_pos hresets]
  · rw [if_neg hresets]
    by_cases hself : c.ref = 0 ∨ c.src = c.dst
    · exact copyReference_self hself
    · rw [not_or] at hself
      rcases h.resolve_left hresets with hempty | hzero | hsame | hundisturbed
      · have hclear : s.clearCopied = s := by
          unfold Sys.clearCopied
          rw [← hempty]
        rw [hclear]
      · exact absurd hzero hself.1
      · exact absurd hsame hself.2
      · exact hundisturbed.same hself.2

/-- Two routines that differ in the table only, one after the other. -/
theorem forget_bind {β : Type} {x y : Exec (α × Sys)} (g g' : α → Sys → Exec (β × Sys))
    (h : forget x = forget y) (hg : ∀ a t t', x = pure (a, t) → t'.clearCopied = t.clearCopied →
      forget (g a t) = forget (g' a t')) :
    forget (x >>= fun z => g z.1 z.2) = forget (y >>= fun z => g' z.1 z.2) := by
  match x, y with
  | none, none => rfl
  | none, some (.error _) => cases h
  | none, some (.ok _) => cases h
  | some (.error _), none => cases h
  | some (.error e), some (.error e') =>
    obtain rfl : e = e' := Except.error.inj (Option.some.inj h)
    rfl
  | some (.error _), some (.ok _) => cases h
  | some (.ok _), none => cases h
  | some (.ok _), some (.error _) => cases h
  | some (.ok (a, t)), some (.ok (a', t')) =>
    have hboth : (a, t.clearCopied) = (a', t'.clearCopied) := eq_of_pure_eq h
    obtain ⟨rfl, hclear⟩ := Prod.mk.inj hboth
    exact hg a t t' rfl hclear.symm

/-- A thread and one with an empty table at each copy. -/
theorem serve_same {es : List Event} (hclear : ClearRun fuel es s)
    (hsame : s'.clearCopied = s.clearCopied) :
    forget (serve Caller.resets fuel es s) = forget (serve (fun _ => true) fuel es s') := by
  induction es generalizing s s' with
  | nil =>
    show (pure ([], s.clearCopied) : Exec (List Nat × Sys)) = pure ([], s'.clearCopied)
    rw [hsame]
  | cons event es ih =>
    cases event with
    | receive => exact ih hclear (congrArg Sys.clearCopied hsame)
    | meanwhile change =>
      refine ih hclear ?_
      rw [← change.blind s', hsame, change.blind s]
    | copy c =>
      obtain ⟨hc, hrest⟩ := hclear
      have hfirst : forget (c.run Caller.resets fuel s) = forget (c.run (fun _ => true) fuel s') := by
        rw [hc.same]
        show forget (copyReference _ _ _ _ _ s.clearCopied) =
          forget (copyReference _ _ _ _ _ s'.clearCopied)
        rw [hsame]
      refine forget_bind
        (fun r s => serve Caller.resets fuel es s >>= fun x => pure (r :: x.1, x.2))
        (fun r s => serve (fun _ => true) fuel es s >>= fun x => pure (r :: x.1, x.2))
        hfirst fun r t t' hrun ht => ?_
      refine forget_bind (fun rs s => pure (r :: rs, s)) (fun rs s => pure (r :: rs, s))
        (ih (hrest r t hrun) ht) fun rs u u' _ hu => ?_
      show (pure (r :: rs, u.clearCopied) : Exec (List Nat × Sys)) = pure (r :: rs, u'.clearCopied)
      rw [hu]

/-- A thread whose copies are clear does the same as if each began with an empty table. -/
theorem historyFree_of_clearRun {es : List Event} (h : ClearRun fuel es s) :
    HistoryFree fuel es s :=
  serve_same h rfl

end Runs

/-! ## An exception -/

/-- The example, without collections. -/
def tableEnv (heapOf : Nat → Option Nat) : TableEnv where
  toEnv := { exampleEnv with heapOf }
  blind _ _ _ := rfl
  maxCopied _ _ := rfl
  allocs _ _ := rfl
  frame _ _ _ _ := rfl

/-- An object without fields is made at `a`. -/
def makeException (a : Nat) : Change where
  apply s := { s with objs := Function.update s.objs a (some (.object 0 [])) }
  blind _ := rfl
  entries _ := rfl

/-- The service gets an array and throws an exception, which is in its own heap at `a`. -/
def throwing (heapOf : Nat → Option Nat) (a : Nat) : List Event :=
  [.receive, .copy ⟨.parameter, tableEnv exampleEnv.heapOf, 1, 2, 0x1000⟩,
    .meanwhile (makeException a), .copy ⟨.exception, tableEnv heapOf, 2, 1, a⟩]

/-- Nothing is met from an object without fields. -/
theorem met_exception {a x : Nat} {heapOf : Nat → Option Nat} {s : Sys}
    (ho : s.objs a = some (.object 0 [])) (h : Met (tableEnv heapOf).toEnv s a x) : x = a := by
  induction h with
  | root => rfl
  | word _ _ ho' hk _ ih =>
    subst ih
    rw [ho] at ho'
    cases ho'
    cases hk

/-- The entry of the array is left over and does not matter. -/
theorem historyFree_throwing :
    HistoryFree 2 (throwing exampleEnv.heapOf 0x2100) (exampleSys 2 [7]) := by
  refine historyFree_of_clearRun ⟨.inl rfl, fun r t h => ?_⟩
  cases h
  refine ⟨.inr (.inr (.inr (.inr ⟨?_, ⟨{0x2100}, ?_, ?_⟩, ?_⟩))), fun _ _ _ => trivial⟩
  · intro p hp hmet
    obtain rfl : p = (0x1000, 0x2200) := List.mem_singleton.mp hp
    exact absurd (met_exception rfl hmet) (by decide)
  · intro a ha
    exact Finset.mem_singleton.mpr (met_exception rfl ha)
  · rw [Finset.sum_singleton]
    decide
  · rintro ⟨a, ha, hserves⟩
    obtain rfl := met_exception rfl ha
    cases hserves

/-- After a collection the address of the array may be one in the heap of the service. -/
def reusedHeap (a : Nat) : Option Nat := if a = 0x1000 then some 2 else exampleEnv.heapOf a

/-- The exception gets the copy of the array, where an empty table would have given it one of its
own. -/
theorem not_historyFree_reused :
    (∃ t, forget (serve Caller.resets 2 (throwing reusedHeap 0x1000) (exampleSys 2 [7])) =
      pure ([0x2200, 0x2200], t)) ∧
    (∃ t, forget (serve (fun _ => true) 2 (throwing reusedHeap 0x1000) (exampleSys 2 [7])) =
      pure ([0x2200, 0x1208], t)) ∧
    ¬ HistoryFree 2 (throwing reusedHeap 0x1000) (exampleSys 2 [7]) := by
  have hcode : ∃ t, forget (serve Caller.resets 2 (throwing reusedHeap 0x1000) (exampleSys 2 [7])) =
    pure ([0x2200, 0x2200], t) := ⟨_, rfl⟩
  have hempty : ∃ t, forget (serve (fun _ => true) 2 (throwing reusedHeap 0x1000)
    (exampleSys 2 [7])) = pure ([0x2200, 0x1208], t) := ⟨_, rfl⟩
  refine ⟨hcode, hempty, fun hfree => ?_⟩
  obtain ⟨t, ht⟩ := hcode
  obtain ⟨u, hu⟩ := hempty
  rw [HistoryFree, ht, hu] at hfree
  have hresults := (Prod.mk.inj (eq_of_pure_eq hfree)).1
  exact absurd hresults (by decide)

end JxCore.PortalCopy
