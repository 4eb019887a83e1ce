import Mathlib.Algebra.Group.Nat.Defs
import Mathlib.Logic.Relation

/-!
# Vocabulary of the kernel model

The kernel is 32-bit C. A `u4_t` is a `Nat` that is brought back below `2 ^ 32` by `u4` wherever the
source lets it wrap, and a routine that may stop the machine returns in `Except Stop`.
-/

namespace JxCore

/-- What `exceptionHandler` is asked to raise. -/
inductive Throw where
  | runtimeException
  | nullPointerException
  | memoryIndexOutOfBounds
  | arrayIndexOutOfBounds
  | invalidMemory
  deriving DecidableEq, Repr

/-- Why a kernel routine did not return to its caller. -/
inductive Stop where
  /-- `sys_panic`. -/
  | panic (msg : String)
  /-- `exceptionHandler` and `exceptionHandlerMsg`. -/
  | throw (e : Throw) (msg : String)
  /-- A failed `ASSERT`, which traps into the monitor. -/
  | assertion (cond : String)
  /-- The processor's divide error, for `%` by zero. -/
  | divideError
  /-- A pointer that leads nowhere is followed, or an array is left. C leaves open what comes next. -/
  | wild
  deriving DecidableEq, Repr

/-- The value of an expression of type `u4_t`. -/
def u4 (n : Nat) : Nat := n % 2 ^ 32

theorem u4_of_lt {n : Nat} (h : n < 2 ^ 32) : u4 n = n := Nat.mod_eq_of_lt h

/-- `n--` on a positive count. -/
theorem u4_pred {n : Nat} (hpos : 0 < n) (h : n ≤ 2 ^ 32) : u4 (2 ^ 32 - 1 + n) = n - 1 := by
  simp only [u4]
  omega

/-! ## Routines that may stop -/

section Inversion

variable {ε α β : Type}

/-- A routine comes back only if each of its parts does. -/
theorem bind_eq_ok {x : Except ε α} {f : α → Except ε β} {b : β} :
    x >>= f = .ok b ↔ ∃ a, x = .ok a ∧ f a = .ok b := by
  cases x with
  | error e => simp [bind, Except.bind]
  | ok a => simp [bind, Except.bind]

theorem pure_eq_ok {a b : α} : (pure a : Except ε α) = .ok b ↔ a = b := by
  simp [pure, Except.pure]

theorem throw_ne_ok {e : ε} {b : α} : (throw e : Except ε α) ≠ .ok b := nofun

end Inversion

/-! ## Routines with loops

A loop takes fuel, and `none` says that it is still running when the fuel is used up. -/

/-- What a routine gives back: nothing yet, a reason to stop, or a value. -/
abbrev Exec := ExceptT Stop Option

namespace Exec

/-- The result of a loop inside a routine. -/
def loop {α : Type} (x : Option α) : Exec α := ExceptT.lift x

/-- `ASSERT(cond)`. -/
def assert (cond : Prop) [Decidable cond] (text : String) : Exec Unit :=
  if cond then pure () else throw (.assertion text)

@[simp] theorem loop_some {α : Type} (a : α) : loop (some a) = pure a := rfl

theorem assert_pos {cond : Prop} [Decidable cond] (h : cond) (text : String) :
    assert cond text = pure () := if_pos h

/-- `CHECK_STACK_SIZE(arg, words)`, where `room` says how many bytes above the lower end of the stack
the first argument of the routine lies. `throw_StackOverflowError` is to let the stack grow, which as
it is built (without `STACK_ALLOW_GROW`) is a panic. -/
def checkStackSize (room words : Nat) : Exec Unit :=
  if room < 4 * words then throw (.panic "") else pure ()

theorem checkStackSize_pos {room words : Nat} (h : 4 * words ≤ room) :
    checkStackSize room words = pure () := if_neg (Nat.not_lt.mpr h)

theorem checkStackSize_neg {room words : Nat} (h : room < 4 * words) :
    checkStackSize room words = throw (.panic "") := if_pos h

theorem eq_of_pure_eq {α : Type} {a b : α} (h : (pure a : Exec α) = pure b) : a = b :=
  Except.ok.inj (Option.some.inj h)

theorem loop_eq_pure {α : Type} {r : Option α} {a : α} (h : loop r = pure a) : r = some a := by
  cases r with
  | none => cases h
  | some b => rw [eq_of_pure_eq h]

/-- Only a routine that comes back goes on to the next one. -/
theorem bind_eq_pure {α β : Type} {x : Exec α} {g : α → Exec β} {b : β} (h : x >>= g = pure b) :
    ∃ a, x = pure a ∧ g a = pure b := by
  match x with
  | none => cases h
  | some (.error _) => cases h
  | some (.ok a) => exact ⟨a, rfl, h⟩

/-- A routine that stops does so in one of its parts. -/
theorem bind_eq_throw {α β : Type} {x : Exec α} {g : α → Exec β} {e : Stop}
    (h : x >>= g = throw e) : x = throw e ∨ ∃ a, x = pure a ∧ g a = throw e := by
  match x with
  | none => cases h
  | some (.error e') =>
    obtain rfl : e' = e := Except.error.inj (Option.some.inj h)
    exact Or.inl rfl
  | some (.ok a) => exact Or.inr ⟨a, rfl, h⟩

/-- The call comes back with `a`: some amount of fuel is enough, and more does not change that. -/
def Returns {α : Type} (call : Nat → Exec α) (a : α) : Prop := ∃ n, ∀ fuel ≥ n, call fuel = pure a

theorem Returns.unique {α : Type} {call : Nat → Exec α} {a b : α} (ha : Returns call a)
    (hb : Returns call b) : a = b := by
  obtain ⟨n, hn⟩ := ha
  obtain ⟨m, hm⟩ := hb
  apply eq_of_pure_eq
  exact (hn (max n m) (Nat.le_max_left n m)).symm.trans (hm (max n m) (Nat.le_max_right n m))

theorem Returns.pure {α : Type} (a : α) : Returns (fun _ => Pure.pure a) a := ⟨0, fun _ _ => rfl⟩

/-- Two routines come back one after the other. -/
theorem Returns.bind {α β : Type} {call : Nat → Exec α} {k : α → Nat → Exec β} {a : α} {b : β}
    (ha : Returns call a) (hb : Returns (k a) b) :
    Returns (fun fuel => call fuel >>= fun x => k x fuel) b := by
  obtain ⟨n, hn⟩ := ha
  obtain ⟨m, hm⟩ := hb
  refine ⟨max n m, fun fuel hfuel => ?_⟩
  simp only [hn fuel (Nat.le_trans (Nat.le_max_left n m) hfuel), pure_bind]
  exact hm fuel (Nat.le_trans (Nat.le_max_right n m) hfuel)

/-- A check that comes first has passed, and the rest comes back. -/
theorem Returns.of_bind {α : Type} {check : Nat → Exec Unit} {call : Nat → Exec α} {a : α}
    (h : Returns (fun fuel => check fuel >>= fun _ => call fuel) a) : Returns call a := by
  obtain ⟨n, hn⟩ := h
  refine ⟨n, fun fuel hfuel => ?_⟩
  obtain ⟨_, -, hrest⟩ := bind_eq_pure (hn fuel hfuel)
  exact hrest

/-- The call stops the machine with `e`. -/
def Stops {α : Type} (call : Nat → Exec α) (e : Stop) : Prop := ∃ n, ∀ fuel ≥ n, call fuel = throw e

theorem Stops.not_returns {α : Type} {call : Nat → Exec α} {e : Stop} {a : α} (h : Stops call e)
    (ha : Returns call a) : False := by
  obtain ⟨n, hn⟩ := h
  obtain ⟨m, hm⟩ := ha
  have heq := (hn (max n m) (Nat.le_max_left n m)).symm.trans (hm (max n m) (Nat.le_max_right n m))
  cases heq

theorem Stops.throw {α : Type} (e : Stop) : Stops (fun _ => (MonadExcept.throw e : Exec α)) e :=
  ⟨0, fun _ _ => rfl⟩

section Steps

variable {α β : Type} {call : Nat → Exec α} {k : α → Nat → Exec β} {a : α} {b : β}

/-- Only the second of two routines is left when the first has come back. -/
theorem returns_bind_iff (ha : Returns call a) :
    Returns (fun fuel => call fuel >>= fun x => k x fuel) b ↔ Returns (k a) b := by
  refine ⟨fun h => ?_, fun h => ha.bind h⟩
  obtain ⟨n, hn⟩ := ha
  obtain ⟨m, hm⟩ := h
  refine ⟨max n m, fun fuel hfuel => ?_⟩
  have hrun := hm fuel (Nat.le_trans (Nat.le_max_right n m) hfuel)
  simp only [hn fuel (Nat.le_trans (Nat.le_max_left n m) hfuel), pure_bind] at hrun
  exact hrun

/-- One step of a recursion. -/
theorem returns_succ_iff {call k : Nat → Exec α} (h : ∀ fuel, call (fuel + 1) = k fuel) :
    Returns call a ↔ Returns k a := by
  constructor
  · rintro ⟨n, hn⟩
    refine ⟨n, fun fuel hfuel => ?_⟩
    rw [← h]
    exact hn (fuel + 1) (Nat.le_succ_of_le hfuel)
  · rintro ⟨n, hn⟩
    refine ⟨n + 1, fun fuel hfuel => ?_⟩
    obtain ⟨fuel, rfl⟩ := Nat.exists_eq_succ_of_ne_zero (Nat.ne_zero_of_lt hfuel)
    rw [h]
    exact hn fuel (Nat.le_of_succ_le_succ hfuel)

theorem stops_succ_iff {call k : Nat → Exec α} {e : Stop}
    (h : ∀ fuel, call (fuel + 1) = k fuel) : Stops call e ↔ Stops k e := by
  constructor
  · rintro ⟨n, hn⟩
    refine ⟨n, fun fuel hfuel => ?_⟩
    rw [← h]
    exact hn (fuel + 1) (Nat.le_succ_of_le hfuel)
  · rintro ⟨n, hn⟩
    refine ⟨n + 1, fun fuel hfuel => ?_⟩
    obtain ⟨fuel, rfl⟩ := Nat.exists_eq_succ_of_ne_zero (Nat.ne_zero_of_lt hfuel)
    rw [h]
    exact hn fuel (Nat.le_of_succ_le_succ hfuel)

/-- What stops in its first part does not come to the second one. -/
theorem Stops.bind {e : Stop} (h : Stops call e) :
    Stops (fun fuel => call fuel >>= fun x => k x fuel) e := by
  obtain ⟨n, hn⟩ := h
  refine ⟨n, fun fuel hfuel => ?_⟩
  simp only [hn fuel hfuel]
  rfl

theorem stops_bind_iff {e : Stop} (ha : Returns call a) :
    Stops (fun fuel => call fuel >>= fun x => k x fuel) e ↔ Stops (k a) e := by
  obtain ⟨n, hn⟩ := ha
  constructor
  · rintro ⟨m, hm⟩
    refine ⟨max n m, fun fuel hfuel => ?_⟩
    have hrun := hm fuel (Nat.le_trans (Nat.le_max_right n m) hfuel)
    simp only [hn fuel (Nat.le_trans (Nat.le_max_left n m) hfuel), pure_bind] at hrun
    exact hrun
  · rintro ⟨m, hm⟩
    refine ⟨max n m, fun fuel hfuel => ?_⟩
    simp only [hn fuel (Nat.le_trans (Nat.le_max_left n m) hfuel), pure_bind]
    exact hm fuel (Nat.le_trans (Nat.le_max_right n m) hfuel)

theorem returns_pure_iff {a b : α} : Returns (fun _ => Pure.pure a) b ↔ b = a :=
  ⟨fun h => h.unique (.pure a), fun h => h ▸ .pure a⟩

/-- What is done with the result does not matter as long as it shows the result. -/
theorem returns_map_iff {g : α → β} (hg : ∀ x y, g x = g y → x = y) :
    Returns (fun fuel => call fuel >>= fun x => Pure.pure (g x)) b ↔
      ∃ x, Returns call x ∧ b = g x := by
  constructor
  · rintro ⟨n, hn⟩
    obtain ⟨x, -, hx⟩ := bind_eq_pure (hn n (Nat.le_refl n))
    obtain rfl : g x = b := eq_of_pure_eq hx
    refine ⟨x, ⟨n, fun fuel hfuel => ?_⟩, rfl⟩
    obtain ⟨y, hy, heq⟩ := bind_eq_pure (hn fuel hfuel)
    rw [hy, hg y x (eq_of_pure_eq heq)]
  · rintro ⟨x, hx, rfl⟩
    exact hx.bind (.pure (g x))

end Steps

/-! ### Routines that end -/

theorem pure_ne_none {α : Type} {a : α} : (pure a : Exec α) ≠ none := by
  intro h
  cases h

theorem throw_ne_none {α : Type} {e : Stop} : (throw e : Exec α) ≠ none := by
  intro h
  cases h

/-- Two routines end one after the other; the second only counts if the first comes back. -/
theorem bind_ne_none {α β : Type} {x : Exec α} {f : α → Exec β} (hx : x ≠ none)
    (hf : ∀ a, x = pure a → f a ≠ none) : (x >>= f) ≠ none := by
  cases x with
  | none => exact absurd rfl hx
  | some r =>
    cases r with
    | error e => exact throw_ne_none (e := e)
    | ok a => exact hf a rfl

theorem Returns.map_eq {α β : Type} {call : Nat → Exec α} {f : α → β} {a : α} {b : β}
    (ha : Returns call a) (h : Returns (fun fuel => f <$> call fuel) b) : b = f a := by
  refine h.unique ?_
  obtain ⟨n, hn⟩ := ha
  refine ⟨n, fun fuel hfuel => ?_⟩
  simp only [hn fuel hfuel, map_pure]

end Exec

/-! ## Runs

Every state machine of the kernel is a step relation; a run is its reflexive transitive closure. -/

/-- What holds initially and is kept by each step holds in every state of every run. -/
theorem invariant_of_run {σ : Type*} {step : σ → σ → Prop} {I : σ → Prop}
    (hstep : ∀ s t, I s → step s t → I t) {s t : σ} (hrun : Relation.ReflTransGen step s t)
    (hs : I s) : I t := by
  induction hrun with
  | refl => exact hs
  | tail _ hst ih => exact hstep _ _ ih hst

end JxCore
