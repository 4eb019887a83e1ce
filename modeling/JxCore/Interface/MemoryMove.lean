import JxCore.Interface.MemorySandbox
import JxCore.Lib.ByteMove

/-!
# Moving inside a memory

`memory_move` goes up or down, according to which of the two addresses is the lower one. Either way
an odd byte, an odd half-word and the words are three copies that follow each other, and the direction
is the one in which none of them overwrites what the next one reads.
-/

namespace JxCore.Memory

open Lib Access

/-! ## The odd byte and the odd half-word -/

section Odd

variable {src dst src' dst' : Address} (n : Nat)

theorem does_odd_byte (hsrc : n % 2 = 1 → src' = src) (hdst : n % 2 = 1 → dst' = dst)
    {α : Type} {v v' w : α} (hpos : n % 2 = 1 → v = w) (hneg : ¬ n % 2 = 1 → v' = w) :
    Does (optionally (n % 2 = 1) (movsb src' dst') v v') w (Copied src dst (n % 2)) := by
  refine Does.optional (fun h => ?_) (fun h b => ?_) hpos hneg
  · rw [hsrc h, hdst h, h]
    exact does_movsb src dst
  · rw [Nat.mod_two_ne_one.mp h]
    exact copied_zero src dst b

theorem does_odd_half (hsrc : n % 2 = 1 → src' = src) (hdst : n % 2 = 1 → dst' = dst)
    {α : Type} {v v' w : α} (hpos : n % 2 = 1 → v = w) (hneg : ¬ n % 2 = 1 → v' = w) :
    Does (optionally (n % 2 = 1) (movsw src' dst') v v') w (Copied src dst (2 * (n % 2))) := by
  refine Does.optional (fun h => ?_) (fun h b => ?_) hpos hneg
  · rw [hsrc h, hdst h, h]
    exact does_movsw src dst
  · rw [Nat.mod_two_ne_one.mp h]
    exact copied_zero src dst b

end Odd

/-! ## The two branches -/

/-- An odd byte, an odd half-word, and the words. -/
theorem count_eq (n : Nat) : n = n % 2 + (2 * (n / 2 % 2) + 4 * (n / 4)) := by omega

theorem does_moveUp {src dst : Address} {count : Jint} (h : Upward src dst count.toNat) :
    Does (moveUp src dst count) () (Copied src dst count.toNat) := by
  have hlt := count.isLt
  rw [count_eq count.toNat] at h ⊢
  have hbyte : Does (optionally (count.toNat % 2 = 1) (movsb src dst : Acc Unit)
      (src + 1, dst + 1) (src, dst))
      (src + BitVec.ofNat 32 (count.toNat % 2), dst + BitVec.ofNat 32 (count.toNat % 2)) _ :=
    does_odd_byte count.toNat (fun _ => rfl) (fun _ => rfl) (fun h => by simp [h])
      (fun h => by simp [Nat.mod_two_ne_one.mp h])
  have hhalf : ∀ a b : Address, Does (optionally (count.toNat / 2 % 2 = 1)
      (movsw a b : Acc Unit) (a + 2, b + 2) (a, b))
      (a + BitVec.ofNat 32 (2 * (count.toNat / 2 % 2)),
        b + BitVec.ofNat 32 (2 * (count.toNat / 2 % 2))) _ :=
    fun a b => does_odd_half (count.toNat / 2) (fun _ => rfl) (fun _ => rfl) (fun h => by simp [h])
      (fun h => by simp [Nat.mod_two_ne_one.mp h])
  refine hbyte.bind (Q := Copied _ _ (2 * (count.toNat / 2 % 2) + 4 * (count.toNat / 4))) ?_
    fun old mid new hfirst hrest => hfirst.append_up hrest (by omega) h.apart
  exact (hhalf _ _).bind (does_repMovsl (by omega) h.shift.shift)
    fun old mid new hfirst hrest => hfirst.append_up hrest (by omega) h.shift.apart

/-- The downward branch starts four bytes before the end and goes back over a byte, a half-word and
the words. -/
theorem down_at {count words half byte : Address} (h : count = words + half + byte) (a : Address) :
    (byte = 1 → count - 4 + a + 3 = a + (words + half)) ∧
      (half = 2 → count - 4 + a - byte + 2 = a + words) ∧
        count - 4 + a - byte - half + 4 = a + words := by
  rw [h]
  refine ⟨?_, ?_, by ring⟩
  · rintro rfl
    ring
  · rintro rfl
    ring

theorem does_moveDown {src dst : Address} {count : Jint} (h : Downward src dst count.toNat) :
    Does (moveDown src dst count) () (Copied src dst count.toNat) := by
  have hlt := count.isLt
  have hn : count.toNat = 4 * (count.toNat / 4) + 2 * (count.toNat / 2 % 2) + count.toNat % 2 := by
    omega
  have hcount : count = BitVec.ofNat 32 (4 * (count.toNat / 4)) +
      BitVec.ofNat 32 (2 * (count.toNat / 2 % 2)) + BitVec.ofNat 32 (count.toNat % 2) := by
    rw [← BitVec.ofNat_add, ← BitVec.ofNat_add, ← hn, BitVec.ofNat_toNat, BitVec.setWidth_eq]
  have hat := down_at hcount
  have hone : count.toNat % 2 = 1 → BitVec.ofNat 32 (count.toNat % 2) = (1 : Address) :=
    fun hodd => by rw [hodd]; rfl
  have htwo : count.toNat / 2 % 2 = 1 →
      BitVec.ofNat 32 (2 * (count.toNat / 2 % 2)) = (2 : Address) :=
    fun hodd => by rw [hodd]; rfl
  rw [← BitVec.ofNat_add] at hat
  have hbyte : ∀ a b : Address, Does (optionally (count.toNat % 2 = 1)
      (movsb (count - 4 + a + 3) (count - 4 + b + 3) : Acc Unit)
      (count - 4 + a - 1, count - 4 + b - 1) (count - 4 + a, count - 4 + b))
      (count - 4 + a - BitVec.ofNat 32 (count.toNat % 2),
        count - 4 + b - BitVec.ofNat 32 (count.toNat % 2)) _ :=
    fun a b => does_odd_byte count.toNat (fun hodd => (hat a).1 (hone hodd))
      (fun hodd => (hat b).1 (hone hodd)) (fun h => by simp [h])
      (fun h => by simp [Nat.mod_two_ne_one.mp h])
  have hhalf : ∀ a b : Address, Does (optionally (count.toNat / 2 % 2 = 1)
      (movsw (count - 4 + a - BitVec.ofNat 32 (count.toNat % 2) + 2)
        (count - 4 + b - BitVec.ofNat 32 (count.toNat % 2) + 2) : Acc Unit)
      (count - 4 + a - BitVec.ofNat 32 (count.toNat % 2) - 2,
        count - 4 + b - BitVec.ofNat 32 (count.toNat % 2) - 2)
      (count - 4 + a - BitVec.ofNat 32 (count.toNat % 2),
        count - 4 + b - BitVec.ofNat 32 (count.toNat % 2)))
      (count - 4 + a - BitVec.ofNat 32 (count.toNat % 2) -
          BitVec.ofNat 32 (2 * (count.toNat / 2 % 2)),
        count - 4 + b - BitVec.ofNat 32 (count.toNat % 2) -
          BitVec.ofNat 32 (2 * (count.toNat / 2 % 2))) _ :=
    fun a b => does_odd_half (count.toNat / 2) (fun hodd => (hat a).2.1 (htwo hodd))
      (fun hodd => (hat b).2.1 (htwo hodd)) (fun h => by simp [h])
      (fun h => by simp [Nat.mod_two_ne_one.mp h])
  rw [hn] at h ⊢
  have hrest : Downward src dst (4 * (count.toNat / 4) + 2 * (count.toNat / 2 % 2)) :=
    h.mono (by omega)
  refine (hbyte src dst).bind
    (Q := Copied src dst (4 * (count.toNat / 4) + 2 * (count.toNat / 2 % 2))) ?_
    fun old mid new hfirst hlast => hfirst.append_down hlast (by omega) h.apart
  exact (hhalf src dst).bind (does_repMovslDown (by omega) (hrest.mono (by omega))
    (hat src).2.2 (hat dst).2.2)
    fun old mid new hfirst hlast => hfirst.append_down hlast (by omega) hrest.apart

/-! ## Overlapping moves -/

section Move

variable {p : MemoryProxy} {dst src count : Jint}

/-- Two bytes of a memory have the same address only if they have the same offset. -/
theorem address_inj (hmem : p.mem.toNat + p.size.toNat ≤ 2 ^ 32) {off off' : Jint} {i j : Nat}
    (hi : off.toNat + i < p.size.toNat) (hj : off'.toNat + j < p.size.toNat)
    (h : p.mem + off + BitVec.ofNat 32 i = p.mem + off' + BitVec.ofNat 32 j) :
    off.toNat + i = off'.toNat + j := by
  have heq := congrArg BitVec.toNat h
  simp only [BitVec.toNat_add, BitVec.toNat_ofNat] at heq
  omega

/-- `memory_move` is an overlapping move: after it the bytes at `dst` are the old ones at `src`, and
every other byte of the memory, and of the rest of the machine, is as it was. -/
theorem move_copied (hmem : p.mem.toNat + p.size.toNat ≤ 2 ^ 32) (hdst : 0 ≤ dst.toInt)
    (hsrc : 0 ≤ src.toInt) (hcount : 0 ≤ count.toInt)
    (htarget : dst.toInt + count.toInt ≤ p.size.toInt)
    (hsource : src.toInt + count.toInt ≤ p.size.toInt) :
    Does (move p dst src count) () (Copied (p.mem + src) (p.mem + dst) count.toNat) := by
  have hs := toInt_cases p.size
  have hd := toInt_cases dst
  have hr := toInt_cases src
  have hc := toInt_cases count
  have hpass : ∀ {off : Jint}, 0 ≤ off.toInt → off.toInt + count.toInt ≤ p.size.toInt →
      p.size.slt (off + count) = false := by
    intro off ho hle
    have hsum := toInt_cases (off + count)
    have hadd := BitVec.toNat_add off count
    have ho' := toInt_cases off
    rw [BitVec.slt, decide_eq_false_iff_not]
    omega
  rw [move, hpass hdst htarget, hpass hsrc hsource, Bool.or_self, if_neg Bool.false_ne_true]
  have hlow := BitVec.toNat_add p.mem dst
  have hlow' := BitVec.toNat_add p.mem src
  have hmlt := p.mem.isLt
  split
  · next hup =>
    rw [BitVec.ult, decide_eq_true_eq] at hup
    refine does_moveUp fun i j hij hj heq => ?_
    have := address_inj hmem (by omega) (by omega) heq
    omega
  · next hdown =>
    rw [BitVec.ult, decide_eq_true_eq] at hdown
    refine does_moveDown fun i j hij hj heq => ?_
    have := address_inj hmem (by omega) (by omega) heq
    omega

/-- Seven bytes, one further up: the target covers all but the first byte of the source. -/
theorem move_copied_overlap :
    Does (move ⟨16, 0x1000, true⟩ 1 0 7) () (Copied (0x1000 + 0) (0x1000 + 1) 7) :=
  @move_copied ⟨16, 0x1000, true⟩ 1 0 7 (by decide) (by decide) (by decide) (by decide) (by decide)
    (by decide)

end Move

end JxCore.Memory
