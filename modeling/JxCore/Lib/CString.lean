import Mathlib.Data.List.Basic

/-!
# C strings in a local array

A local array lies on the stack, and what is written behind its end goes into the frames of the
callers. `Frame` keeps the stack from the start of the array on and the offsets that were written;
the functions of `string.h` write character by character, and `Inside` says that they stayed in the
array. A string is given by its characters before the terminating zero.
-/

namespace JxCore.Lib

/-- A local array of `n` characters: the stack from its start on, and the offsets written so far. -/
structure Frame (α : Type) (n : Nat) where
  stack : List α
  fits : n ≤ stack.length
  writes : List Nat

namespace Frame

variable {α : Type} {n : Nat}

/-- The array as the stack was left there. -/
def fresh (stack : List α) (h : n ≤ stack.length) : Frame α n := ⟨stack, h, []⟩

def write (f : Frame α n) (i : Nat) (c : α) : Frame α n where
  stack := f.stack.set i c
  fits := by
    rw [List.length_set]
    exact f.fits
  writes := i :: f.writes

def Inside (f : Frame α n) : Prop := ∀ i ∈ f.writes, i < n

instance (f : Frame α n) : Decidable f.Inside := inferInstanceAs (Decidable (∀ i ∈ f.writes, i < n))

/-- Characters one after the other. -/
def puts : Frame α n → Nat → List α → Frame α n
  | f, _, [] => f
  | f, i, c :: w => puts (f.write i c) (i + 1) w

@[simp] theorem writes_fresh (stack : List α) (h : n ≤ stack.length) :
    (fresh stack h).writes = [] := rfl

@[simp] theorem puts_nil (f : Frame α n) (i : Nat) : f.puts i [] = f := rfl

@[simp] theorem puts_cons (f : Frame α n) (i : Nat) (c : α) (w : List α) :
    f.puts i (c :: w) = (f.write i c).puts (i + 1) w := rfl

theorem puts_append (f : Frame α n) (i : Nat) (v w : List α) :
    f.puts i (v ++ w) = (f.puts i v).puts (i + v.length) w := by
  induction v generalizing f i with
  | nil => rfl
  | cons c v ih =>
    have harith : i + (c :: v).length = i + 1 + v.length := by
      rw [List.length_cons]
      omega
    rw [List.cons_append, puts_cons, puts_cons, ih, harith]

theorem inside_write {f : Frame α n} {i : Nat} {c : α} :
    (f.write i c).Inside ↔ i < n ∧ f.Inside := List.forall_mem_cons

/-- Only the last character decides. -/
theorem inside_puts {f : Frame α n} {i : Nat} {w : List α} (hw : w ≠ []) :
    (f.puts i w).Inside ↔ f.Inside ∧ i + w.length ≤ n := by
  induction w generalizing f i with
  | nil => exact absurd rfl hw
  | cons c w ih =>
    rw [puts_cons, List.length_cons]
    by_cases hnil : w = []
    · subst hnil
      rw [puts_nil, inside_write]
      exact and_comm
    · have hpos := List.length_pos_iff.mpr hnil
      rw [ih hnil, inside_write]
      constructor
      · rintro ⟨⟨-, hf⟩, hle⟩
        exact ⟨hf, by omega⟩
      · rintro ⟨hf, hle⟩
        exact ⟨⟨by omega, hf⟩, by omega⟩

theorem stack_puts {f : Frame α n} {i : Nat} {w : List α} (h : i + w.length ≤ f.stack.length) :
    (f.puts i w).stack = f.stack.take i ++ w ++ f.stack.drop (i + w.length) := by
  induction w generalizing f i with
  | nil => simp
  | cons c w ih =>
    rw [List.length_cons] at h
    have hi : i < f.stack.length := by omega
    have hstack : (f.write i c).stack = f.stack.take i ++ c :: f.stack.drop (i + 1) := by
      simp only [write]
      rw [List.set_eq_take_append_cons_drop, if_pos hi]
    have hlen : (f.write i c).stack.length = f.stack.length := List.length_set
    have htake : (f.stack.take i).length = i := List.length_take_of_le (Nat.le_of_lt hi)
    rw [puts_cons, ih (by rw [hlen]; omega), hstack]
    have hhead : (f.stack.take i ++ c :: f.stack.drop (i + 1)).take (i + 1) =
        f.stack.take i ++ [c] := by
      rw [List.take_append, htake, List.take_of_length_le (by omega)]
      simp
    have htail : (f.stack.take i ++ c :: f.stack.drop (i + 1)).drop (i + 1 + w.length) =
        f.stack.drop (i + (c :: w).length) := by
      rw [List.drop_append, htake, List.drop_eq_nil_of_le (by omega)]
      have hsub : i + 1 + w.length - i = w.length + 1 := by omega
      rw [hsub, List.drop_succ_cons, List.drop_drop, List.nil_append, List.length_cons]
      congr 1
      omega
    rw [hhead, htail]
    simp

section Strings

variable (nul : α)

/-- The array holds `w` and its terminating zero. -/
def Spells (f : Frame α n) (w : List α) : Prop := nul ∉ w ∧ ∃ rest, f.stack = w ++ nul :: rest

/-- `strcpy(array + i, from)`. -/
def strcpy : Frame α n → Nat → List α → Frame α n
  | f, i, [] => f.write i nul
  | f, i, c :: from' => strcpy (f.write i c) (i + 1) from'

/-- `strncpy(array + i, from, count)`; behind the end of `from` it goes on with zeros. -/
def strncpy : Frame α n → Nat → List α → Nat → Frame α n
  | f, _, _, 0 => f
  | f, i, [], count + 1 => strncpy (f.write i nul) (i + 1) [] count
  | f, i, c :: from', count + 1 => strncpy (f.write i c) (i + 1) from' count

variable {nul} {f : Frame α n} {v w : List α}

theorem strcpy_eq (i : Nat) : strcpy nul f i w = f.puts i (w ++ [nul]) := by
  induction w generalizing f i with
  | nil => rfl
  | cons c w ih => exact ih (i + 1)

/-- A count that is not beyond the string. -/
theorem strncpy_eq (i : Nat) {count : Nat} (h : count ≤ w.length) :
    strncpy nul f i w count = f.puts i (w.take count) := by
  induction count generalizing f i w with
  | zero => rw [strncpy, List.take_zero, puts_nil]
  | succ count ih =>
    cases w with
    | nil => exact absurd h (Nat.not_succ_le_zero count)
    | cons c w => exact ih (i + 1) (Nat.le_of_succ_le_succ h)

theorem inside_strcpy (i : Nat) :
    (strcpy nul f i w).Inside ↔ f.Inside ∧ i + w.length < n := by
  have hne : w ++ [nul] ≠ [] := List.append_ne_nil_of_right_ne_nil w (List.cons_ne_nil nul [])
  rw [strcpy_eq, inside_puts hne, List.length_append]
  exact and_congr_right fun _ => Iff.rfl

theorem spells_puts (hw : nul ∉ w) (h : w.length < n) : (f.puts 0 (w ++ [nul])).Spells nul w := by
  refine ⟨hw, f.stack.drop (0 + (w ++ [nul]).length), ?_⟩
  have hlen : 0 + (w ++ [nul]).length ≤ f.stack.length := by
    have hfits := f.fits
    rw [List.length_append, List.length_singleton]
    omega
  rw [stack_puts hlen]
  simp

variable (nul) in
/-- A string was put together in the array: the array holds it if there was room, and otherwise it was
left. -/
structure Builds (f : Frame α n) (w : List α) : Prop where
  inside_iff : f.Inside ↔ w.length < n
  spells : w.length < n → f.Spells nul w

theorem builds_puts (hf : f.writes = []) (hw : nul ∉ w) : (f.puts 0 (w ++ [nul])).Builds nul w where
  inside_iff := by
    have hne : w ++ [nul] ≠ [] := List.append_ne_nil_of_right_ne_nil w (List.cons_ne_nil nul [])
    have hinside : f.Inside := by
      rw [Inside, hf]
      exact List.forall_mem_nil _
    rw [inside_puts hne, and_iff_right hinside, Nat.zero_add, List.length_append]
    exact Iff.rfl
  spells := spells_puts hw

variable [DecidableEq α]

/-- The string that starts at the array. -/
def string (nul : α) (f : Frame α n) : List α := f.stack.takeWhile (· ≠ nul)

/-- `strcat(array, add)`. -/
def strcat (nul : α) (f : Frame α n) (add : List α) : Frame α n :=
  strcpy nul f (f.string nul).length add

theorem Spells.string (h : f.Spells nul w) : f.string nul = w := by
  obtain ⟨hw, rest, hstack⟩ := h
  have hne : ∀ c ∈ w, decide (c ≠ nul) = true := by
    intro c hc
    exact decide_eq_true fun heq => hw (heq ▸ hc)
  rw [Frame.string, hstack, List.takeWhile_append_of_pos hne, List.takeWhile_cons_of_neg (by simp)]
  exact List.append_nil w

theorem inside_strcat (hf : f.Spells nul v) :
    (strcat nul f w).Inside ↔ f.Inside ∧ v.length + w.length < n := by
  rw [strcat, hf.string]
  exact inside_strcpy v.length

theorem Spells.strcat (hf : f.Spells nul v) (hw : nul ∉ w) (h : v.length + w.length < n) :
    (strcat nul f w).Spells nul (v ++ w) := by
  have hvw : nul ∉ v ++ w := fun hmem => (List.mem_append.mp hmem).elim hf.1 hw
  refine ⟨hvw, f.stack.drop (v.length + (w ++ [nul]).length), ?_⟩
  have hlen : v.length + (w ++ [nul]).length ≤ f.stack.length := by
    have hfits := f.fits
    rw [List.length_append, List.length_singleton]
    omega
  have htake : f.stack.take v.length = v := by
    obtain ⟨-, rest, hstack⟩ := hf
    rw [hstack]
    exact List.take_left
  rw [Frame.strcat, hf.string, strcpy_eq, stack_puts hlen, htake]
  simp

theorem Builds.strcat (hf : f.Builds nul v) (hw : nul ∉ w) :
    (Frame.strcat nul f w).Builds nul (v ++ w) := by
  by_cases hv : v.length < n
  · have hspells := hf.spells hv
    refine ⟨?_, fun hlen => hspells.strcat hw ?_⟩
    · rw [inside_strcat hspells, and_iff_right (hf.inside_iff.mpr hv), List.length_append]
    · rw [List.length_append] at hlen
      exact hlen
  · -- the array was left before, and stays so
    have hlen : ¬ (v ++ w).length < n := by
      rw [List.length_append]
      omega
    refine ⟨iff_of_false (fun hinside => hv ?_) hlen, fun h => absurd h hlen⟩
    rw [Frame.strcat, inside_strcpy] at hinside
    exact hf.inside_iff.mp hinside.1

theorem Builds.string (hf : f.Builds nul w) (h : f.Inside) : f.string nul = w :=
  (hf.spells (hf.inside_iff.mp h)).string

end Strings

end Frame

end JxCore.Lib
