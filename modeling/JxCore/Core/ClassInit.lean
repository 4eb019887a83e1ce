import JxCore.Basic
import JxCore.Lib.RunOnce

/-!
# Class constructors (`core/load.c`, `core/vmsupport.c`)

The compiler puts a call of `vm_test_cinit` in front of what needs a class to be initialised, so that
one constructor starts others while it runs. `callClassConstructor` marks a class before it calls its
constructor, and therefore ends whatever the constructors ask each other for; the price is that on a
cycle a constructor can go on with a class whose own constructor has not come to its end.

What the constructors do besides is not in the source. It is a `Script` on some data here: after
finitely many steps it comes back, it raises nothing, and no other thread runs in between. A second
thread that comes while a constructor waits would find its class ready already.
-/

namespace JxCore.ClassInit

open Exec Lib.RunOnce

/-! ## The routines -/

structure MethodDesc (ι σ : Type) where
  name : List Char
  code : Script ι σ

/-- The part of a class that is looked at. -/
structure ClassDesc (ι σ : Type) where
  methods : List (MethodDesc ι σ)

/-- The libraries of a domain, by number. -/
structure Libs (ι σ : Type) where
  classDesc : ι → ClassDesc ι σ
  allClasses : Nat → List ι
  neededLibs : Nat → List Nat

/-- `CLASS_READY`. -/
def classReady : Nat := 1

/-- `state` of the classes, `initialized` of the libraries, and what the constructors work on. The log
says which constructors have been called. -/
structure State (ι σ : Type) where
  state : ι → Nat
  initialized : Nat → Nat
  data : σ
  log : List (Event ι)

variable {ι σ : Type}

def State.push (s : State ι σ) (e : Event ι) : State ι σ := { s with log := s.log ++ [e] }

/-- A constructor; `test` is `vm_test_cinit`. -/
def run (test : ι → State ι σ → Exec (State ι σ)) : Script ι σ → State ι σ → Exec (State ι σ)
  | .done, s => pure s
  | .act f next, s => run test next { s with data := f s.data }
  | .branch next, s => run test (next s.data) s
  | .need c next, s => test c s >>= fun s => run test next (s.push (.passed c))

/-- `vm_test_cinit`, for the class that `classDesc2Class` finds. -/
def vmTestCinit (call : ι → State ι σ → Exec (State ι σ)) (cl : ι) (s : State ι σ) :
    Exec (State ι σ) :=
  if s.state cl ≠ classReady then call cl s else pure s

/-- The name of class constructors. -/
def clinitName : List Char := "<clinit>".toList

/-- The loop of `callClassConstructor`, which stops at the first method that is called `<clinit>`. -/
def clinitLoop (call : Script ι σ → State ι σ → Exec (State ι σ)) :
    List (MethodDesc ι σ) → State ι σ → Exec (State ι σ)
  | [], s => pure s
  | m :: ms, s => if clinitName = m.name then call m.code s else clinitLoop call ms s

section

variable [DecidableEq ι]

/-- `callClassConstructor`. -/
def callClassConstructor (libs : Libs ι σ) : (depth : Nat) → ι → State ι σ → Exec (State ι σ)
  | 0, _, _ => loop none
  | depth + 1, cl, s =>
    if s.state cl = classReady then
      pure s
    else
      let s := { s with state := Function.update s.state cl classReady }
      clinitLoop (fun c s => do
          let s ← run (vmTestCinit (callClassConstructor libs depth)) c (s.push (.enter cl))
          pure (s.push (.leave cl)))
        (libs.classDesc cl).methods s

/-- `callClassConstructors`. -/
def callClassConstructors (libs : Libs ι σ) (depth domain curdom lib : Nat) (s : State ι σ) :
    Exec (State ι σ) :=
  if domain ≠ curdom then
    throw (.panic "WRONG DOMAIN called in class constructor")
  else if s.initialized lib = 1 then
    pure s
  else
    (libs.allClasses lib).foldlM (fun s cl => callClassConstructor libs depth cl s) s >>= fun s =>
      pure { s with initialized := Function.update s.initialized lib 1 }

/-- `cpuManager_executeClassConstructors`. -/
def executeClassConstructors (libs : Libs ι σ) (depth curdom lib : Nat) (s : State ι σ) :
    Exec (State ι σ) :=
  (libs.neededLibs lib).foldlM (fun s l =>
      if s.initialized l = 0 then callClassConstructors libs depth curdom curdom l s else pure s) s >>=
    callClassConstructors libs depth curdom curdom lib

/-- The end of `start_initial_thread`: the constructors of all libraries that the domain has. -/
def startDomain (libs : Libs ι σ) (depth curdom : Nat) (ls : List Nat) (s : State ι σ) :
    Exec (State ι σ) :=
  ls.foldlM (fun s l => callClassConstructors libs depth curdom curdom l s) s

end

/-! ## The constructors as initialisers -/

/-- The constructor of a class. -/
def clinit (libs : Libs ι σ) (cl : ι) : Option (Script ι σ) :=
  ((libs.classDesc cl).methods.find? fun m => clinitName = m.name).map MethodDesc.code

/-- The state without the libraries. -/
def State.abs [Fintype ι] (s : State ι σ) : Lib.RunOnce.State ι σ :=
  ⟨{cl | s.state cl = classReady}, s.data, s.log⟩

@[simp] theorem mem_abs [Fintype ι] {s : State ι σ} {cl : ι} : cl ∈ s.abs.ready ↔ s.state cl = classReady := by
  simp [State.abs]

/-- Routines that do the same, one after the other. -/
theorem map_bind_eq_loop {α β : Type} {f : α → β} {x : Exec α} {o : Option β} {g : α → Exec α}
    {h : β → Option β} (hx : f <$> x = loop o) (hg : ∀ a, f <$> g a = loop (h (f a))) :
    f <$> (x >>= g) = loop (o.bind h) := by
  rcases x with _ | e | a
  · cases o with
    | none => rfl
    | some b => cases hx
  · cases o <;> cases hx
  · cases o with
    | none => cases hx
    | some b =>
      cases hx
      exact hg a

theorem run_eq [Fintype ι] [DecidableEq ι] {test : ι → State ι σ → Exec (State ι σ)}
    {call : ι → Lib.RunOnce.State ι σ → Option (Lib.RunOnce.State ι σ)}
    (htest : ∀ c s, State.abs <$> test c s =
      loop (if c ∈ s.abs.ready then some s.abs else call c s.abs)) (script : Script ι σ)
    (s : State ι σ) : State.abs <$> run test script s = loop (exec call script s.abs) := by
  induction script generalizing s with
  | done => rfl
  | act f next ih => exact ih { s with data := f s.data }
  | branch next ih => exact ih s.data s
  | need c next ih =>
    rw [run, exec]
    exact map_bind_eq_loop (htest c s) fun t => ih (t.push (.passed c))

theorem clinitLoop_eq (call : Script ι σ → State ι σ → Exec (State ι σ)) (ms : List (MethodDesc ι σ))
    (s : State ι σ) :
    clinitLoop call ms s =
      (((ms.find? fun m => clinitName = m.name).map MethodDesc.code).map (call · s)).getD (pure s) := by
  induction ms with
  | nil => rfl
  | cons m ms ih =>
    rw [clinitLoop, List.find?_cons]
    by_cases h : clinitName = m.name
    · rw [if_pos h, decide_eq_true h]
      rfl
    · rw [if_neg h, decide_eq_false h]
      exact ih

/-- `callClassConstructor` without its loop. -/
theorem callClassConstructor_succ [DecidableEq ι] (libs : Libs ι σ) (depth : Nat) (cl : ι)
    (s : State ι σ) (hready : s.state cl ≠ classReady) :
    callClassConstructor libs (depth + 1) cl s =
      let t := { s with state := Function.update s.state cl classReady }
      match clinit libs cl with
      | none => pure t
      | some c => run (vmTestCinit (callClassConstructor libs depth)) c (t.push (.enter cl)) >>= fun t =>
        pure (t.push (.leave cl)) := by
  rw [callClassConstructor, if_neg hready]
  simp only [clinitLoop_eq, clinit]
  cases (libs.classDesc cl).methods.find? fun m => clinitName = m.name with
  | none => rfl
  | some m => rfl

/-- A class constructor is an initialiser that runs once. -/
theorem callClassConstructor_eq [Fintype ι] [DecidableEq ι] (libs : Libs ι σ) (depth : Nat) (cl : ι)
    (s : State ι σ) :
    State.abs <$> callClassConstructor libs depth cl s = loop (init (clinit libs) depth cl s.abs) := by
  induction depth generalizing cl s with
  | zero => rfl
  | succ depth ih =>
    by_cases hready : s.state cl = classReady
    · rw [callClassConstructor, init, if_pos hready, if_pos (mem_abs.mpr hready)]
      rfl
    · have habs : ({ s with state := Function.update s.state cl classReady } : State ι σ).abs =
          { s.abs with ready := insert cl s.abs.ready } := by
        simp only [State.abs]
        congr 1
        ext c
        by_cases hc : c = cl
        · simp [hc]
        · simp [hc]
      rw [callClassConstructor_succ libs depth cl s hready, init, if_neg (mt mem_abs.mp hready)]
      simp only [← habs]
      cases clinit libs cl with
      | none => rfl
      | some script =>
        simp only [Option.map_eq_bind]
        have htest : ∀ c t, State.abs <$> vmTestCinit (callClassConstructor libs depth) c t =
            loop (if c ∈ t.abs.ready then some t.abs else init (clinit libs) depth c t.abs) := fun c t => by
          unfold vmTestCinit
          by_cases h : t.state c = classReady
          · rw [if_neg (not_not.mpr h), if_pos (mem_abs.mpr h)]
            rfl
          · rw [if_pos h, if_neg (mt mem_abs.mp h)]
            exact ih c t
        exact map_bind_eq_loop (run_eq htest script _) fun _ => rfl

/-! ## One call -/

/-- A library that is marked has only classes that are ready. -/
def Consistent (libs : Libs ι σ) (s : State ι σ) : Prop :=
  ∀ l, s.initialized l = 0 ∨
    s.initialized l = 1 ∧ ∀ cl ∈ libs.allClasses l, s.state cl = classReady

/-- From `s` to `s'` some constructors have been called, each once, and what is said about the
libraries is still true. -/
structure Called [Fintype ι] (libs : Libs ι σ) (s s' : State ι σ) : Prop where
  ran : Ran (clinit libs) s.abs s'.abs
  initialized : ∀ l, s.initialized l = 1 → s'.initialized l = 1
  consistent : Consistent libs s → Consistent libs s'
  settled : (∀ cl, ¬ Relation.TransGen (Needs (clinit libs)) cl cl) →
    Settled (clinit libs) (fun _ => False) s.abs → Settled (clinit libs) (fun _ => False) s'.abs

section

variable {libs : Libs ι σ} {s s' s'' : State ι σ} {depth curdom lib l : Nat} {cl : ι} {ls : List Nat}

/-- The libraries are not touched by the constructors of classes. -/
theorem run_initialized {test : ι → State ι σ → Exec (State ι σ)}
    (htest : ∀ c s s', test c s = pure s' → s'.initialized = s.initialized) (script : Script ι σ)
    (hrun : run test script s = pure s') : s'.initialized = s.initialized := by
  induction script generalizing s with
  | done => rw [eq_of_pure_eq hrun]
  | act f next ih => exact ih (s := { s with data := f s.data }) hrun
  | branch next ih => exact ih s.data hrun
  | need c next ih =>
    obtain ⟨t, ht, hrest⟩ := bind_eq_pure hrun
    exact (ih hrest).trans (htest c s t ht)

theorem callClassConstructor_initialized [DecidableEq ι]
    (hcall : callClassConstructor libs depth cl s = pure s') :
    s'.initialized = s.initialized := by
  induction depth generalizing cl s s' with
  | zero => cases hcall
  | succ depth ih =>
    by_cases hready : s.state cl = classReady
    · rw [callClassConstructor, if_pos hready] at hcall
      rw [eq_of_pure_eq hcall]
    · rw [callClassConstructor_succ libs depth cl s hready] at hcall
      cases hcode : clinit libs cl with
      | none =>
        rw [hcode] at hcall
        rw [← eq_of_pure_eq hcall]
      | some script =>
        rw [hcode] at hcall
        obtain ⟨t, hrun, hleave⟩ := bind_eq_pure hcall
        have htest : ∀ c u u', vmTestCinit (callClassConstructor libs depth) c u = pure u' →
            u'.initialized = u.initialized := fun c u u' hu => by
          unfold vmTestCinit at hu
          split at hu
          · exact ih hu
          · rw [eq_of_pure_eq hu]
        have hsame := run_initialized htest script hrun
        rw [← eq_of_pure_eq hleave]
        exact hsame

variable [Fintype ι]

theorem Called.refl (libs : Libs ι σ) (s : State ι σ) : Called libs s s :=
  ⟨.refl _ _, fun _ h => h, fun h => h, fun _ h => h⟩

theorem Called.trans (h : Called libs s s') (h' : Called libs s' s'') : Called libs s s'' :=
  ⟨h.ran.trans h'.ran, fun l hl => h'.initialized l (h.initialized l hl),
    fun hc => h'.consistent (h.consistent hc), fun ha hs => h'.settled ha (h.settled ha hs)⟩

theorem Called.ready (h : Called libs s s') (hcl : s.state cl = classReady) : s'.state cl = classReady :=
  mem_abs.mp (h.ran.subset (mem_abs.mpr hcl))

theorem map_eq_pure {t : Lib.RunOnce.State ι σ} {x : Exec (State ι σ)} (h : State.abs <$> x = pure t) :
    ∃ s', x = pure s' ∧ s'.abs = t := by
  rw [map_eq_pure_bind] at h
  obtain ⟨s', hx, hs'⟩ := bind_eq_pure h
  exact ⟨s', hx, eq_of_pure_eq hs'⟩

variable [DecidableEq ι]

theorem Called.pending_lt (h : Called libs s s') (hs : s.abs.pending < depth) :
    s'.abs.pending < depth := Nat.lt_of_le_of_lt (State.pending_mono h.ran.subset) hs

/-- A constructor ends. -/
theorem callClassConstructor_called (libs : Libs ι σ) (cl : ι) (s : State ι σ)
    (hs : s.abs.pending < depth) :
    ∃ s', callClassConstructor libs depth cl s = pure s' ∧ Called libs s s' ∧
      s'.state cl = classReady := by
  obtain ⟨t, hinit, hran, hcl⟩ := init_ran (clinit libs) depth cl s.abs hs
  have heq := callClassConstructor_eq libs depth cl s
  rw [hinit] at heq
  obtain ⟨s', hcall, rfl⟩ := map_eq_pure heq
  have hsame := callClassConstructor_initialized hcall
  refine ⟨s', hcall, ⟨hran, fun l hl => hsame ▸ hl, fun hc l => ?_, fun hacyclic hsettled => ?_⟩,
    mem_abs.mp hcl⟩
  · rw [hsame]
    exact (hc l).imp_right fun ⟨hl, hready⟩ =>
      ⟨hl, fun c hc => mem_abs.mp (hran.subset (mem_abs.mpr (hready c hc)))⟩
  · exact (init_settled hacyclic hsettled (fun _ h => h.elim) hinit).1

theorem foldlM_called {α : Type} {f : State ι σ → α → Exec (State ι σ)} {P : α → State ι σ → Prop}
    (hmono : ∀ a s s', Called libs s s' → P a s → P a s')
    (hf : ∀ a s, s.abs.pending < depth → ∃ s', f s a = pure s' ∧ Called libs s s' ∧ P a s')
    (as : List α) (s : State ι σ) (hs : s.abs.pending < depth) :
    ∃ s', as.foldlM f s = pure s' ∧ Called libs s s' ∧ ∀ a ∈ as, P a s' := by
  induction as generalizing s with
  | nil => exact ⟨s, rfl, .refl _ _, nofun⟩
  | cons a as ih =>
    obtain ⟨t, hfirst, hcalled, ha⟩ := hf a s hs
    obtain ⟨s', hrest, hcalled', has⟩ := ih t (hcalled.pending_lt hs)
    refine ⟨s', ?_, hcalled.trans hcalled', ?_⟩
    · rw [List.foldlM_cons, hfirst, pure_bind, hrest]
    · simp only [List.forall_mem_cons]
      exact ⟨hmono a t s' hcalled' ha, has⟩

theorem callClassConstructors_called (libs : Libs ι σ) (curdom lib : Nat) (s : State ι σ)
    (hs : s.abs.pending < depth) :
    ∃ s', callClassConstructors libs depth curdom curdom lib s = pure s' ∧ Called libs s s' ∧
      s'.initialized lib = 1 := by
  unfold callClassConstructors
  rw [if_neg (not_not.mpr rfl)]
  split
  · next h => exact ⟨s, rfl, .refl _ _, h⟩
  · obtain ⟨t, hfold, hcalled, hready⟩ := foldlM_called (P := fun cl s => s.state cl = classReady)
      (fun _ _ _ h => h.ready) (fun cl s hs => callClassConstructor_called libs cl s hs)
      (libs.allClasses lib) s hs
    rw [hfold, pure_bind]
    refine ⟨_, rfl, ⟨hcalled.ran, fun l hl => ?_, fun hc l => ?_, hcalled.settled⟩,
      Function.update_self ..⟩
    · by_cases h : l = lib
      · rw [h]
        exact Function.update_self ..
      · exact (Function.update_of_ne h ..).trans (hcalled.initialized l hl)
    · by_cases h : l = lib
      · subst h
        exact .inr ⟨Function.update_self .., hready⟩
      · change Function.update t.initialized lib 1 l = 0 ∨ Function.update t.initialized lib 1 l = 1 ∧ _
        rw [Function.update_of_ne h]
        exact hcalled.consistent hc l

theorem startDomain_called (libs : Libs ι σ) (curdom : Nat) (ls : List Nat) (s : State ι σ)
    (hs : s.abs.pending < depth) :
    ∃ s', startDomain libs depth curdom ls s = pure s' ∧ Called libs s s' ∧
      ∀ l ∈ ls, s'.initialized l = 1 :=
  foldlM_called (P := fun l s => s.initialized l = 1) (fun l _ _ h hl => h.initialized l hl)
    (fun l s hs => callClassConstructors_called libs curdom l s hs) ls s hs

theorem executeClassConstructors_called (libs : Libs ι σ) (curdom lib : Nat) (s : State ι σ)
    (hs : s.abs.pending < depth) :
    ∃ s', executeClassConstructors libs depth curdom lib s = pure s' ∧ Called libs s s' ∧
      s'.initialized lib = 1 := by
  obtain ⟨t, hneeded, hcalled, -⟩ := foldlM_called (P := fun _ _ => True) (fun _ _ _ _ _ => trivial)
    (f := fun s l => if s.initialized l = 0 then
      callClassConstructors libs depth curdom curdom l s else pure s)
    (fun l s hs => by
      split
      · obtain ⟨s', hcall, hcalled, -⟩ := callClassConstructors_called libs curdom l s hs
        exact ⟨s', hcall, hcalled, trivial⟩
      · exact ⟨s, rfl, .refl _ _, trivial⟩) (libs.neededLibs lib) s hs
  obtain ⟨s', hcall, hcalled', hlib⟩ :=
    callClassConstructors_called libs curdom lib t (hcalled.pending_lt hs)
  refine ⟨s', ?_, hcalled.trans hcalled', hlib⟩
  rw [executeClassConstructors, hneeded, pure_bind, hcall]

end

/-! ## Depth -/

/-- Where the first routine comes back, the second does, too, and with the same. -/
def Below {α : Type} (x y : Exec α) : Prop := ∀ a, x = pure a → y = pure a

theorem Below.refl {α : Type} (x : Exec α) : Below x x := fun _ h => h

theorem Below.bind {α β : Type} {x y : Exec α} {f g : α → Exec β} (hx : Below x y)
    (hf : ∀ a, Below (f a) (g a)) : Below (x >>= f) (y >>= g) := by
  intro b hb
  obtain ⟨a, ha, hrest⟩ := bind_eq_pure hb
  rw [hx a ha, pure_bind]
  exact hf a b hrest

theorem Below.foldlM {α : Type} {f g : State ι σ → α → Exec (State ι σ)}
    (hf : ∀ s a, Below (f s a) (g s a)) (as : List α) (s : State ι σ) :
    Below (as.foldlM f s) (as.foldlM g s) := by
  induction as generalizing s with
  | nil => exact .refl _
  | cons a as ih =>
    rw [List.foldlM_cons, List.foldlM_cons]
    exact (hf s a).bind ih

theorem run_below {test test' : ι → State ι σ → Exec (State ι σ)}
    (htest : ∀ c s, Below (test c s) (test' c s)) (script : Script ι σ) (s : State ι σ) :
    Below (run test script s) (run test' script s) := by
  induction script generalizing s with
  | done => exact .refl _
  | act f next ih => exact ih _
  | branch next ih => exact ih s.data s
  | need c next ih => exact (htest c s).bind fun t => ih _

theorem vmTestCinit_below {call call' : ι → State ι σ → Exec (State ι σ)}
    (hcall : ∀ c s, Below (call c s) (call' c s)) (cl : ι) (s : State ι σ) :
    Below (vmTestCinit call cl s) (vmTestCinit call' cl s) := by
  unfold vmTestCinit
  split
  · exact hcall cl s
  · exact .refl _

/-- A call that comes back at each depth that is enough comes back. -/
theorem returns_of_below {call : Nat → Exec (State ι σ)} {n : Nat} {P : State ι σ → Prop}
    (hbelow : ∀ depth, Below (call depth) (call (depth + 1))) (hcall : ∃ s', call n = pure s' ∧ P s') :
    ∃ s', Returns call s' ∧ P s' := by
  obtain ⟨s', hs', hP⟩ := hcall
  refine ⟨s', ⟨n, fun depth hdepth => ?_⟩, hP⟩
  obtain ⟨k, rfl⟩ := Nat.exists_eq_add_of_le hdepth
  induction k with
  | zero => exact hs'
  | succ k ih => exact hbelow (n + k) s' (ih (Nat.le_add_right n k))

section

variable [DecidableEq ι]

theorem callClassConstructor_below (libs : Libs ι σ) (depth : Nat) (cl : ι) (s : State ι σ) :
    Below (callClassConstructor libs depth cl s) (callClassConstructor libs (depth + 1) cl s) := by
  induction depth generalizing cl s with
  | zero => exact fun a h => by cases h
  | succ depth ih =>
    by_cases hready : s.state cl = classReady
    · rw [callClassConstructor, callClassConstructor, if_pos hready, if_pos hready]
      exact .refl _
    · rw [callClassConstructor_succ libs depth cl s hready,
        callClassConstructor_succ libs (depth + 1) cl s hready]
      cases clinit libs cl with
      | none => exact .refl _
      | some script => exact (run_below (vmTestCinit_below ih) script _).bind fun _ => .refl _

theorem callClassConstructors_below (libs : Libs ι σ) (curdom depth lib : Nat) (s : State ι σ) :
    Below (callClassConstructors libs depth curdom curdom lib s)
      (callClassConstructors libs (depth + 1) curdom curdom lib s) := by
  unfold callClassConstructors
  split
  · exact .refl _
  · split
    · exact .refl _
    · exact (Below.foldlM (fun s cl => callClassConstructor_below libs depth cl s) _ s).bind
        fun _ => .refl _

end

/-! ## Runs -/

/-- A domain at work, when no constructor is running. -/
inductive Step [DecidableEq ι] (libs : Libs ι σ) (curdom : Nat) : State ι σ → State ι σ → Prop
  /-- Compiled code comes to a class for the first time, or again. -/
  | test {cl : ι} {s s' : State ι σ}
      (hret : Returns (fun depth => vmTestCinit (callClassConstructor libs depth) cl s) s') :
      Step libs curdom s s'
  | start {ls : List Nat} {s s' : State ι σ}
      (hret : Returns (fun depth => startDomain libs depth curdom ls s) s') : Step libs curdom s s'
  | execute {lib : Nat} {s s' : State ι σ}
      (hret : Returns (fun depth => executeClassConstructors libs depth curdom lib s) s') :
      Step libs curdom s s'
  | compute {s : State ι σ} {data : σ} : Step libs curdom s { s with data := data }

/-- A domain that has just been created. -/
structure Fresh (s : State ι σ) : Prop where
  state : ∀ cl, s.state cl ≠ classReady
  initialized : ∀ l, s.initialized l = 0
  log : s.log = []

/-- The three calls come back. -/
structure Ends [DecidableEq ι] (libs : Libs ι σ) (curdom : Nat) (s : State ι σ) : Prop where
  test : ∀ cl, ∃ s', Returns (fun depth => vmTestCinit (callClassConstructor libs depth) cl s) s' ∧
    s'.state cl = classReady
  start : ∀ ls, ∃ s', Returns (fun depth => startDomain libs depth curdom ls s) s' ∧
    ∀ l ∈ ls, s'.initialized l = 1
  execute : ∀ lib, ∃ s', Returns (fun depth => executeClassConstructors libs depth curdom lib s) s' ∧
    s'.initialized lib = 1

section

variable [Fintype ι] {libs : Libs ι σ} {s s' : State ι σ} {curdom depth : Nat} {cl : ι}

/-- The log of a run: calls that have come to their end, one for each class that is ready and has a
constructor. -/
structure Once (libs : Libs ι σ) (s : State ι σ) : Prop where
  nested : Nested s.log
  nodup : (entered s.log).Nodup
  mem_iff : ∀ cl, cl ∈ entered s.log ↔ s.state cl = classReady ∧ (clinit libs cl).isSome

theorem Once.called {data : σ} (h : Once libs s) (hcalled : Called libs { s with data := data } s') :
    Once libs s' := by
  obtain ⟨w, hw, hn, hd, he⟩ := hcalled.ran.log
  change s'.log = s.log ++ w at hw
  simp only [mem_abs] at he
  refine ⟨hw ▸ h.nested.append hn, ?_, fun cl => ?_⟩
  · rw [hw, entered_append, List.nodup_append]
    refine ⟨h.nodup, hd, fun cl hcl c hc heq => ?_⟩
    exact ((he c).mp hc).2.1 (heq ▸ ((h.mem_iff cl).mp hcl).1)
  · have hready := fun hcl : s.state cl = classReady => hcalled.ready hcl
    rw [hw, entered_append, List.mem_append, h.mem_iff, he]
    tauto

variable [DecidableEq ι]

theorem vmTestCinit_called (libs : Libs ι σ) (cl : ι) (s : State ι σ) (hs : s.abs.pending < depth) :
    ∃ s', vmTestCinit (callClassConstructor libs depth) cl s = pure s' ∧ Called libs s s' ∧
      s'.state cl = classReady := by
  unfold vmTestCinit
  split
  · exact callClassConstructor_called libs cl s hs
  · next h => exact ⟨s, rfl, .refl _ _, not_not.mp h⟩

theorem test_returns (libs : Libs ι σ) (cl : ι) (s : State ι σ) :
    ∃ s', Returns (fun depth => vmTestCinit (callClassConstructor libs depth) cl s) s' ∧
      Called libs s s' ∧ s'.state cl = classReady :=
  returns_of_below (fun depth => vmTestCinit_below (callClassConstructor_below libs depth) cl s)
    (vmTestCinit_called libs cl s (Nat.lt_succ_self _))

theorem start_returns (libs : Libs ι σ) (curdom : Nat) (ls : List Nat) (s : State ι σ) :
    ∃ s', Returns (fun depth => startDomain libs depth curdom ls s) s' ∧
      Called libs s s' ∧ ∀ l ∈ ls, s'.initialized l = 1 :=
  returns_of_below
    (fun depth => Below.foldlM (fun s l => callClassConstructors_below libs curdom depth l s) ls s)
    (startDomain_called libs curdom ls s (Nat.lt_succ_self _))

theorem execute_returns (libs : Libs ι σ) (curdom lib : Nat) (s : State ι σ) :
    ∃ s', Returns (fun depth => executeClassConstructors libs depth curdom lib s) s' ∧
      Called libs s s' ∧ s'.initialized lib = 1 := by
  refine returns_of_below (fun depth => ?_)
    (executeClassConstructors_called libs curdom lib s (Nat.lt_succ_self _))
  refine (Below.foldlM (fun s l => ?_) _ s).bind fun s =>
    callClassConstructors_below libs curdom depth lib s
  split
  · exact callClassConstructors_below libs curdom depth l s
  · exact .refl _

/-- Between two states of a run nothing happens but calls and computation. -/
theorem Step.called (h : Step libs curdom s s') :
    ∃ data, Called libs { s with data := data } s' := by
  cases h with
  | @test cl _ _ hret =>
    obtain ⟨t, ht, hcalled, -⟩ := test_returns libs cl s
    exact ⟨s.data, hret.unique ht ▸ hcalled⟩
  | @start ls _ _ hret =>
    obtain ⟨t, ht, hcalled, -⟩ := start_returns libs curdom ls s
    exact ⟨s.data, hret.unique ht ▸ hcalled⟩
  | @execute lib _ _ hret =>
    obtain ⟨t, ht, hcalled, -⟩ := execute_returns libs curdom lib s
    exact ⟨s.data, hret.unique ht ▸ hcalled⟩
  | @compute _ data => exact ⟨data, .refl _ _⟩

end

/-- Each class constructor is called once at most, whatever the constructors ask each other for and in
whatever order the program comes to the classes. What is ready has been constructed, a library that is
marked is ready, and every further call comes back. -/
theorem classConstructors_once [Fintype ι] [DecidableEq ι] {libs : Libs ι σ} {curdom : Nat}
    {s₀ s : State ι σ} (hfresh : Fresh s₀) (hrun : Relation.ReflTransGen (Step libs curdom) s₀ s) :
    Once libs s ∧ Consistent libs s ∧ Ends libs curdom s := by
  have hstart : Once libs s₀ ∧ Consistent libs s₀ := by
    refine ⟨⟨?_, ?_, fun cl => ?_⟩, fun l => .inl (hfresh.initialized l)⟩
    · rw [hfresh.log]
      exact .nil
    · rw [hfresh.log]
      exact List.nodup_nil
    · simp [hfresh.log, hfresh.state cl]
  have hinv : Once libs s ∧ Consistent libs s :=
    invariant_of_run (I := fun s => Once libs s ∧ Consistent libs s) (fun t t' ht hstep => by
      obtain ⟨data, hcalled⟩ := hstep.called
      exact ⟨ht.1.called hcalled, hcalled.consistent ht.2⟩) hrun hstart
  refine ⟨hinv.1, hinv.2, ⟨fun cl => ?_, fun ls => ?_, fun lib => ?_⟩⟩
  · obtain ⟨s', hret, -, hcl⟩ := test_returns libs cl s
    exact ⟨s', hret, hcl⟩
  · obtain ⟨s', hret, -, hls⟩ := start_returns libs curdom ls s
    exact ⟨s', hret, hls⟩
  · obtain ⟨s', hret, -, hlib⟩ := execute_returns libs curdom lib s
    exact ⟨s', hret, hlib⟩

/-- When no class needs itself, a constructor never goes on with a class whose own constructor has not
come to its end, and between the calls of the thread every ready class has its constructor behind it. -/
theorem constructed_before_use [Fintype ι] [DecidableEq ι] {libs : Libs ι σ} {curdom : Nat}
    {s₀ s : State ι σ} (hacyclic : ∀ cl, ¬ Relation.TransGen (Needs (clinit libs)) cl cl)
    (hfresh : Fresh s₀) (hrun : Relation.ReflTransGen (Step libs curdom) s₀ s) :
    Ordered (clinit libs) s.log ∧ ∀ cl, s.state cl = classReady → Done (clinit libs) s.log cl := by
  have hstart : Settled (clinit libs) (fun _ => False) s₀.abs := by
    refine ⟨fun pre cl post hsplit => ?_, fun cl hcl => absurd (mem_abs.mp hcl) (hfresh.state cl)⟩
    change s₀.log = _ at hsplit
    rw [hfresh.log] at hsplit
    exact absurd hsplit (by simp)
  have hsettled : Settled (clinit libs) (fun _ => False) s.abs :=
    invariant_of_run (I := fun s : State ι σ => Settled (clinit libs) (fun _ => False) s.abs)
      (fun t t' ht hstep => by
        obtain ⟨data, hcalled⟩ := hstep.called
        exact hcalled.settled hacyclic ⟨ht.ordered, ht.ready⟩) hrun hstart
  exact ⟨hsettled.ordered, fun cl hcl => (hsettled.ready cl (mem_abs.mpr hcl)).resolve_right id⟩

/-- Three classes with constructors. The first needs the second, which needs what `needs` says. -/
def exampleLibs (needs : Script (Fin 3) Nat) : Libs (Fin 3) Nat where
  classDesc cl :=
    ⟨[⟨"main".toList, .done⟩, ⟨clinitName,
      if cl = 0 then .need 1 (.act (· + 1) .done) else if cl = 1 then needs else .act (· + 10) .done⟩]⟩
  allClasses := fun _ => [0, 1, 2]
  neededLibs := fun _ => []

def exampleState : State (Fin 3) Nat := ⟨fun _ => 0, fun _ => 0, 0, []⟩

theorem fresh_exampleState : Fresh exampleState := ⟨fun _ => nofun, fun _ => rfl, rfl⟩

/-- The second class needs the first and the third. -/
theorem once_exampleState :
    ∃ s, Relation.ReflTransGen (Step (exampleLibs (.need 0 (.need 2 .done))) 1) exampleState s ∧
      s.log = [.enter 0, .enter 1, .passed 0, .enter 2, .leave 2, .passed 2, .leave 1, .passed 1,
        .leave 0] ∧
      Once (exampleLibs (.need 0 (.need 2 .done))) s ∧
      Consistent (exampleLibs (.need 0 (.need 2 .done))) s ∧
      Ends (exampleLibs (.need 0 (.need 2 .done))) 1 s := by
  obtain ⟨s, hret, hlog⟩ : ∃ s, Returns (fun depth => vmTestCinit
      (callClassConstructor (exampleLibs (.need 0 (.need 2 .done))) depth) 0 exampleState) s ∧
      s.log = [.enter 0, .enter 1, .passed 0, .enter 2, .leave 2, .passed 2, .leave 1, .passed 1,
        .leave 0] :=
    returns_of_below (n := 4)
      (fun depth => vmTestCinit_below (callClassConstructor_below _ depth) 0 exampleState) ⟨_, rfl, rfl⟩
  have hstep : Step (exampleLibs (.need 0 (.need 2 .done))) 1 exampleState s := .test hret
  exact ⟨s, .single hstep, hlog, classConstructors_once fresh_exampleState (.single hstep)⟩

/-- The second class needs the third only. -/
theorem before_exampleState :
    ∃ s, Relation.ReflTransGen (Step (exampleLibs (.need 2 .done)) 1) exampleState s ∧
      s.data = 11 ∧ Ordered (clinit (exampleLibs (.need 2 .done))) s.log ∧
      ∀ cl, s.state cl = classReady → Done (clinit (exampleLibs (.need 2 .done))) s.log cl := by
  have hneeds : ∀ c d, Needs (clinit (exampleLibs (.need 2 .done))) c d → c < d := by
    rintro c d ⟨script, hcode, hasks⟩
    have hcases : ∀ c : Fin 3, c = 0 ∨ c = 1 ∨ c = 2 := by decide
    rcases hcases c with rfl | rfl | rfl <;> obtain rfl := Option.some.inj hcode
    · obtain rfl : 1 = d := hasks.resolve_right id
      decide
    · obtain rfl : 2 = d := hasks.resolve_right id
      decide
    · exact absurd hasks id
  have hacyclic : ∀ cl, ¬ Relation.TransGen (Needs (clinit (exampleLibs (.need 2 .done)))) cl cl := by
    intro cl hcycle
    have hlt : ∀ d, Relation.TransGen (Needs (clinit (exampleLibs (.need 2 .done)))) cl d → cl < d := by
      intro d hd
      induction hd with
      | single h => exact hneeds _ _ h
      | tail _ h ih => exact lt_trans ih (hneeds _ _ h)
    exact lt_irrefl cl (hlt cl hcycle)
  obtain ⟨s, hret, hdata⟩ : ∃ s, Returns (fun depth => vmTestCinit
      (callClassConstructor (exampleLibs (.need 2 .done)) depth) 0 exampleState) s ∧ s.data = 11 :=
    returns_of_below (n := 4)
      (fun depth => vmTestCinit_below (callClassConstructor_below _ depth) 0 exampleState) ⟨_, rfl, rfl⟩
  have hstep : Step (exampleLibs (.need 2 .done)) 1 exampleState s := .test hret
  exact ⟨s, .single hstep, hdata, constructed_before_use hacyclic fresh_exampleState (.single hstep)⟩

end JxCore.ClassInit
