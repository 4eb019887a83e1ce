import JxCore.Lib.ByteMove
import Mathlib.Tactic.SplitIfs

/-!
# Filling bytes

`Filled` says what a store of a pattern leaves: byte `i` of the run has the value that the pattern
gives to `i`, and everything else is as it was. Two stores that follow each other make one, and so
`stosb`, `stosw` and `rep stosl` can be put together like the bytes they write.
-/

namespace JxCore.Lib.Access

variable {ε : Type}

/-- Byte `i` of the `n` bytes from `dst` on is `f i`, and all other bytes are the same. -/
structure Filled (dst : Address) (n : Nat) (f : Nat → BitVec 8) (old new : Address → BitVec 8) :
    Prop where
  target : ∀ i < n, new (dst + BitVec.ofNat 32 i) = f i
  other : ∀ x, ¬ Run dst n x → new x = old x

section Filled

variable {dst : Address} {n k : Nat} {f g : Nat → BitVec 8} {old mid new : Address → BitVec 8}

theorem filled_zero (dst : Address) (f : Nat → BitVec 8) (old : Address → BitVec 8) :
    Filled dst 0 f old old :=
  ⟨fun _ h => absurd h (Nat.not_lt_zero _), fun _ _ => rfl⟩

theorem Filled.congr (h : Filled dst n f old new) (hfg : ∀ i < n, f i = g i) :
    Filled dst n g old new where
  target := fun i hi => (h.target i hi).trans (hfg i hi)
  other := h.other

/-- A second store right behind the first one. -/
theorem Filled.append (h : Filled dst n f old mid)
    (h' : Filled (dst + BitVec.ofNat 32 n) k (fun i => f (n + i)) mid new) (hlen : n + k ≤ 2 ^ 32) :
    Filled dst (n + k) f old new where
  target := by
    intro i hi
    by_cases hin : i < n
    · rw [h'.other _ (not_run_of_run hlen ⟨i, hin, rfl⟩), h.target i hin]
    · obtain ⟨j, rfl⟩ : ∃ j, i = n + j := ⟨i - n, by omega⟩
      rw [BitVec.ofNat_add, ← BitVec.add_assoc, h'.target j (by omega)]
  other := by
    intro x hx
    rw [run_add, not_or] at hx
    rw [h'.other x hx.2, h.other x hx.1]

/-- A second store into the first bytes of what was filled before. -/
theorem Filled.overlay (h : Filled dst n f old mid) (h' : Filled dst k g mid new) (hk : k ≤ n)
    (hn : n ≤ 2 ^ 32) : Filled dst n (fun i => if i < k then g i else f i) old new where
  target := by
    intro i hi
    by_cases hin : i < k
    · rw [if_pos hin, h'.target i hin]
    · have hout : ¬ Run dst k (dst + BitVec.ofNat 32 i) := by
        rintro ⟨j, hj, heq⟩
        exact hin (ofNat_inj (by omega) (by omega) heq ▸ hj)
      rw [if_neg hin, h'.other _ hout, h.target i hi]
  other := by
    intro x hx
    have hout : ¬ Run dst k x := fun ⟨i, hi, heq⟩ => hx ⟨i, by omega, heq⟩
    rw [h'.other x hout, h.other x hx]

end Filled

/-! ## Instructions -/

/-- Byte `i` of a value that is stored with the low byte first. -/
def byteOf {w : Nat} (v : BitVec w) (i : Nat) : BitVec 8 := v.extractLsb' (8 * i) 8

/-- The word of four bytes that were stored from it. -/
theorem wordAt_of_bytes {new : Address → BitVec 8} {a : Address} {v : BitVec 32}
    (h : ∀ k < 4, new (a + BitVec.ofNat 32 k) = byteOf v k) : wordAt new a = v := by
  have hzero : new a = byteOf v 0 := by
    have hbyte := h 0 (by decide)
    rwa [BitVec.add_zero] at hbyte
  have hone : new (a + 1) = byteOf v 1 := h 1 (by decide)
  have htwo : new (a + 2) = byteOf v 2 := h 2 (by decide)
  have hthree : new (a + 3) = byteOf v 3 := h 3 (by decide)
  unfold wordAt
  rw [hzero, hone, htwo, hthree]
  unfold byteOf
  ext i hi
  simp only [BitVec.getElem_append, BitVec.getElem_extractLsb']
  split_ifs <;> (rw [BitVec.getLsbD_eq_getElem (by omega)]; congr 1; omega)

/-- A word of a list of words that was stored. -/
theorem Filled.wordAt {dst : Address} {n : Nat} {l : List (BitVec 32)} {old new : Address → BitVec 8}
    (h : Filled dst n (fun i => byteOf (l.getD (i / 4) 0) (i % 4)) old new) {k : Nat}
    (hk : 4 * k + 4 ≤ n) : Access.wordAt new (dst + BitVec.ofNat 32 (4 * k)) = l.getD k 0 := by
  refine wordAt_of_bytes fun i hi => ?_
  rw [BitVec.add_assoc, ← BitVec.ofNat_add, h.target (4 * k + i) (by omega)]
  have hword : (4 * k + i) / 4 = k := by omega
  have hbyte : (4 * k + i) % 4 = i := by omega
  rw [hword, hbyte]

theorem byteOf_low (v : BitVec 32) {i : Nat} (hi : i < 2) :
    byteOf (v.extractLsb' 0 16) i = byteOf v i := by
  unfold byteOf
  exact BitVec.extractLsb'_extractLsb'_of_le (by omega)

theorem byteOf_high (v : BitVec 32) {i : Nat} (hi : i < 2) :
    byteOf (v.extractLsb' 16 16) i = byteOf v (2 + i) := by
  unfold byteOf
  ext k hk
  rw [BitVec.getElem_extractLsb', BitVec.getElem_extractLsb', BitVec.getLsbD_extractLsb',
    decide_eq_true (by omega : 8 * i + k < 16), Bool.true_and, Nat.mul_add, Nat.add_assoc]

theorem does_write8 (dst : Address) (v : BitVec 8) :
    Does (write8 dst v : Access ε Unit) () (Filled dst 1 fun _ => v) := by
  intro m
  refine ⟨_, rfl, ?_, ?_⟩
  · intro i hi
    obtain rfl : i = 0 := by omega
    simp
  · intro x hx
    rw [run_one] at hx
    exact Function.update_of_ne hx _ _

theorem does_write16 (dst : Address) (v : BitVec 16) :
    Does (write16 dst v : Access ε Unit) () (Filled dst 2 (byteOf v)) := by
  refine (does_write8 dst _).bind (does_write8 (dst + 1) _) fun old mid new hlow hhigh => ?_
  refine Filled.append (n := 1) (k := 1) (hlow.congr ?_) (hhigh.congr ?_) (by omega)
  · intro i hi
    obtain rfl : i = 0 := by omega
    rfl
  · intro i hi
    obtain rfl : i = 0 := by omega
    rfl

theorem does_write32 (dst : Address) (v : BitVec 32) :
    Does (write32 dst v : Access ε Unit) () (Filled dst 4 (byteOf v)) := by
  refine (does_write16 dst _).bind (does_write16 (dst + 2) _) fun old mid new hlow hhigh => ?_
  exact Filled.append (n := 2) (k := 2) (hlow.congr fun i hi => byteOf_low v hi)
    (hhigh.congr fun i hi => byteOf_high v hi) (by omega)

theorem does_repStosl (v : BitVec 32) {n : Nat} {dst : Address} (hlen : 4 * n ≤ 2 ^ 32) :
    Does (repStosl v n dst : Access ε Unit) () (Filled dst (4 * n) fun i => byteOf v (i % 4)) := by
  induction n generalizing dst with
  | zero => exact fun m => ⟨m, rfl, filled_zero ..⟩
  | succ n ih =>
    rw [show 4 * (n + 1) = 4 + 4 * n by omega] at hlen ⊢
    refine (does_write32 dst v).bind (ih (by omega)) fun old mid new hfirst hrest => ?_
    refine Filled.append (hfirst.congr ?_) (hrest.congr ?_) hlen
    · intro i hi
      rw [Nat.mod_eq_of_lt hi]
    · intro i hi
      rw [Nat.add_mod_left]

end JxCore.Lib.Access
