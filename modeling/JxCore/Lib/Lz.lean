import Mathlib.Data.List.Basic

/-!
# Copies from what has been written

The decoders of the Lempel-Ziv family repeat what is `off` places back. The copy may be longer than
`off`, and then it takes up what it has written itself; as long as `off` is not smaller than a block,
it can also be made block by block.
-/

namespace JxCore.Lib.Lz

variable {α : Type}

/-- `n` elements from `off` places back. -/
def copyBack (off : Nat) : Nat → List α → List α
  | 0, out => out
  | n + 1, out => copyBack off n (out ++ out[out.length - off]?.toList)

/-- A block of `n` elements from `off` places back, all of which have been there before. -/
def copyBlock (off n : Nat) (out : List α) : List α := out ++ (out.drop (out.length - off)).take n

section

variable {off m n : Nat} {out : List α}

theorem copyBack_add (off m n : Nat) (out : List α) :
    copyBack off (m + n) out = copyBack off n (copyBack off m out) := by
  induction m generalizing out with
  | zero => rw [Nat.zero_add, copyBack]
  | succ m ih => rw [Nat.succ_add, copyBack, ih, copyBack]

theorem length_copyBack (hpos : 0 < off) (hle : off ≤ out.length) :
    (copyBack off n out).length = out.length + n := by
  induction n generalizing out with
  | zero => rfl
  | succ n ih =>
    have hlast : out.length - off < out.length := by omega
    rw [copyBack, List.getElem?_eq_getElem hlast, Option.toList_some, ih]
    · rw [List.length_append, List.length_singleton]
      omega
    · rw [List.length_append]
      omega

/-- What stands further in front is not looked at. -/
theorem copyBack_append (pre : List α) (hle : off ≤ out.length) :
    copyBack off n (pre ++ out) = pre ++ copyBack off n out := by
  induction n generalizing out with
  | zero => rfl
  | succ n ih =>
    have hplace : (pre ++ out)[(pre ++ out).length - off]? = out[out.length - off]? := by
      rw [List.length_append, Nat.add_sub_assoc hle, List.getElem?_append_right (Nat.le_add_right _ _),
        Nat.add_sub_cancel_left]
    rw [copyBack, copyBack, hplace, List.append_assoc, ih]
    rw [List.length_append]
    exact Nat.le_add_right_of_le hle

theorem copyBlock_eq (hn : n ≤ off) (hle : off ≤ out.length) :
    copyBlock off n out = copyBack off n out := by
  induction n generalizing out with
  | zero => rw [copyBlock, List.take_zero, List.append_nil, copyBack]
  | succ n ih =>
    have hlast : out.length - off < out.length := by omega
    have hlength : (out ++ [out[out.length - off]]).length = out.length + 1 := by
      rw [List.length_append, List.length_singleton]
    rw [copyBack, List.getElem?_eq_getElem hlast, Option.toList_some, ← ih (by omega) (by omega),
      copyBlock, copyBlock, List.drop_eq_getElem_cons hlast, List.take_succ_cons, hlength,
      List.drop_append_of_le_length (by omega), Nat.sub_add_comm hle, List.append_assoc,
      List.singleton_append]
    -- the rest of the block has been there before
    rw [List.take_append_of_le_length]
    rw [List.length_drop]
    omega

/-- What has been compared is what the copy repeats. -/
theorem copyBack_take {input : List α} {pos : Nat} (hpos : 0 < off) (hoff : off ≤ pos)
    (hle : pos + n ≤ input.length)
    (heq : ∀ k < n, input[pos + k - off]? = input[pos + k]?) :
    copyBack off n (input.take pos) = input.take (pos + n) := by
  induction n generalizing pos with
  | zero => rfl
  | succ n ih =>
    have hlength : (input.take pos).length = pos := by
      rw [List.length_take]
      omega
    have hfirst : (input.take pos)[pos - off]? = input[pos]? := by
      rw [List.getElem?_take_of_lt (by omega)]
      exact heq 0 (Nat.succ_pos n)
    rw [copyBack, hlength, hfirst, ← List.take_add_one, ih (by omega) (by omega), Nat.add_right_comm]
    · rfl
    · intro k hk
      have hnext := heq (k + 1) (by omega)
      rwa [← Nat.add_assoc, Nat.add_right_comm] at hnext

end

end JxCore.Lib.Lz
