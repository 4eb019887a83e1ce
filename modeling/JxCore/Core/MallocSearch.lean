import JxCore.Core.Malloc
import JxCore.Lib.RingScan

/-!
# The search for free blocks

`jxmalloc_internal` scans the ring of blocks from `current_block` on. Two things can go wrong. A free run
whose address is not aligned is tried for ever, because `nextFree` stays where it is when the block there
is free. And a scan that finds nothing ends only if it comes back to exactly the block where it started,
which it may jump over.
-/

namespace JxCore.Malloc

open Lib

namespace Allocator

/-- The ring the search for `sizeBlk` blocks goes round. -/
def ring (s : Allocator) (sizeBlk : Nat) : Ring :=
  ⟨s.nBlocks, s.bitmap.getBit, s.currentBlock, sizeBlk⟩

/-- The allocator while the search is at block `p`. -/
def atBlock (s : Allocator) (p : Nat) : Allocator := { s with currentBlock := p }

@[simp] theorem atBlock_currentBlock (s : Allocator) (p : Nat) : (s.atBlock p).currentBlock = p := rfl

/-- `GETADDR(b)` is a multiple of `align`. -/
def Aligned (s : Allocator) (align b : Nat) : Prop := s.getAddr b % align = 0

instance (s : Allocator) (align b : Nat) : Decidable (s.Aligned align b) :=
  inferInstanceAs (Decidable (_ = _))

/-- What the search should come to: the address of an aligned free run, or a panic if there is none. -/
def GoodOutcome (s : Allocator) (sizeBlk align : Nat) : Except Stop (Nat × Allocator) → Prop
  | .ok (addr, _) => ∃ b, (s.ring sizeBlk).FreeRun b ∧ s.Aligned align b ∧ addr = s.getAddr b
  | .error e => e = .panic "Out of memory" ∧ ∀ b, (s.ring sizeBlk).FreeRun b → ¬ s.Aligned align b

/-- The search ends, and as it should. -/
def SearchCorrect (s : Allocator) (sizeBlk align : Nat) : Prop :=
  ∃ r, s.GoodOutcome sizeBlk align r ∧
    ∃ n, ∀ fuel ≥ n, s.jxmallocInternal fuel sizeBlk align = some r

/-- The first free run from `current_block` on is aligned; if there is no free run, the scan comes back to
`current_block`. -/
def Searchable (s : Allocator) (sizeBlk align : Nat) : Prop :=
  (∀ b, (s.ring sizeBlk).FreeRun b → (s.ring sizeBlk).First b → s.Aligned align b) ∧
    ((∀ b, ¬ (s.ring sizeBlk).FreeRun b) → (s.ring sizeBlk).ComesBack)

/-! ## The helpers as moves on the ring -/

section Helpers

variable {s : Allocator} {n p p' q : Nat}

theorem moveTo_eq (hpos : 0 < s.nBlocks) {c : Nat} (hc : c < 2 ^ 32) :
    (s.atBlock p).moveTo c = .ok (s.atBlock (c % s.nBlocks)) := by
  unfold moveTo atBlock
  rw [if_neg (Nat.ne_of_gt hpos), u4_of_lt hc]

theorem isFree_of_freeRun (hwrap : p + n < 2 ^ 32)
    (h : (s.ring n).FreeRun p) : (s.atBlock p).isFree n = .ok (true, s.atBlock p) := by
  have hfits : p + n ≤ s.nBlocks := h.1
  have hnone : (s.atBlock p).firstUsed n = none := by
    unfold firstUsed
    rw [List.find?_range_eq_none]
    intro i hi
    have hbit : s.bitmap.getBit (p + i) = false := h.2 i hi
    show (!s.bitmap.getBit (u4 (p + i))) = true
    rw [u4_of_lt (by omega), hbit]
    rfl
  have hsmall : ¬ (s.atBlock p).nBlocks < p + n := Nat.not_lt.mpr hfits
  unfold isFree
  rw [atBlock_currentBlock, u4_of_lt (by omega), if_neg hsmall, hnone]

theorem isFree_of_fails (hp : p < s.nBlocks) (hwrap : p + n < 2 ^ 32)
    (h : (s.ring n).Fails p p') : (s.atBlock p).isFree n = .ok (false, s.atBlock p') := by
  unfold isFree
  rw [atBlock_currentBlock, u4_of_lt (by omega)]
  cases h with
  | reset hne hlt =>
    have hlarge : (s.atBlock p).nBlocks < p + n := hlt
    rw [if_pos hlarge, if_neg hne]
    rfl
  | @blocked i hfits hi hused hfree =>
    change p + n ≤ s.nBlocks at hfits
    change i < n at hi
    have hsome : (s.atBlock p).firstUsed n = some i := by
      unfold firstUsed
      rw [List.find?_range_eq_some]
      refine ⟨?_, List.mem_range.mpr hi, fun j hj => ?_⟩
      · show s.bitmap.getBit (u4 (p + i)) = true
        rw [u4_of_lt (by omega)]
        exact hused
      · have hbit : s.bitmap.getBit (p + j) = false := hfree j hj
        show (!s.bitmap.getBit (u4 (p + j))) = true
        rw [u4_of_lt (by omega), hbit]
        rfl
    have hsmall : ¬ (s.atBlock p).nBlocks < p + n := Nat.not_lt.mpr hfits
    rw [if_neg hsmall, hsome]
    show ((s.atBlock p).moveTo (p + i + 1) >>= fun s' => pure (false, s')) = _
    rw [moveTo_eq (by omega) (by omega)]
    rfl

theorem isFree_of_large (h : s.nBlocks < n) (hlt : n < 2 ^ 32) :
    (s.atBlock 0).isFree n = .error (.panic "Out of memory") := by
  unfold isFree
  have hlarge : (s.atBlock 0).nBlocks < n := h
  rw [atBlock_currentBlock, Nat.zero_add, u4_of_lt hlt, if_pos hlarge,
    if_pos rfl]

/-! ### `nextFree` -/

theorem nextFree_free {d fuel : Nat} (h : s.bitmap.getBit p = false) :
    nextFree d (fuel + 1) (s.atBlock p) = some (.ok (s.atBlock p)) := by
  rw [nextFree, show (s.atBlock p).bitmap.getBit (s.atBlock p).currentBlock = false from h,
    if_neg Bool.false_ne_true]

theorem nextFree_used {d fuel : Nat} (hp : p < s.nBlocks) (hsmall : s.nBlocks < 2 ^ 32)
    (h : s.bitmap.getBit p = true) : nextFree d (fuel + 1) (s.atBlock p) =
      if (p + 1) % s.nBlocks = d then some (.error (.panic "Out of memory"))
      else nextFree d fuel (s.atBlock ((p + 1) % s.nBlocks)) := by
  have hmove := @moveTo_eq s p (by omega) (p + 1) (by omega)
  rw [nextFree, show (s.atBlock p).bitmap.getBit (s.atBlock p).currentBlock = true from h, if_pos rfl,
    atBlock_currentBlock, hmove]
  rfl

/-- Used blocks are skipped up to a free one. -/
theorem nextFree_up {d : Nat} (hsmall : s.nBlocks < 2 ^ 32) (hle : p ≤ q) (hq : q < s.nBlocks)
    (hfree : s.bitmap.getBit q = false) (hused : ∀ b, p ≤ b → b < q → s.bitmap.getBit b = true)
    (hd : d ≤ p ∨ q < d) {fuel : Nat} (hfuel : q - p < fuel) :
    nextFree d fuel (s.atBlock p) = some (.ok (s.atBlock q)) := by
  induction fuel generalizing p with
  | zero => omega
  | succ fuel ih =>
    by_cases heq : p = q
    · rw [heq]
      exact nextFree_free hfree
    · have hlt : p < q := by omega
      rw [nextFree_used (by omega) hsmall (hused p (Nat.le_refl p) hlt), Nat.mod_eq_of_lt (by omega),
        if_neg (by omega)]
      exact ih (by omega) (fun b hb => hused b (by omega)) (by omega) (by omega)

/-- Behind the last block comes block 0. -/
theorem nextFree_over {d : Nat} (hsmall : s.nBlocks < 2 ^ 32) (hp : p < s.nBlocks)
    (hused : ∀ b, p ≤ b → b < s.nBlocks → s.bitmap.getBit b = true) (hd : d ≤ p) {fuel : Nat}
    (hfuel : s.nBlocks - p ≤ fuel) : nextFree d fuel (s.atBlock p) =
      if d = 0 then some (.error (.panic "Out of memory"))
      else nextFree d (fuel - (s.nBlocks - p)) (s.atBlock 0) := by
  induction fuel generalizing p with
  | zero => omega
  | succ fuel ih =>
    rw [nextFree_used hp hsmall (hused p (Nat.le_refl p) hp)]
    by_cases hend : p + 1 = s.nBlocks
    · rw [hend, Nat.mod_self]
      rw [show fuel + 1 - (s.nBlocks - p) = fuel by omega]
      simp only [eq_comm]
    · rw [Nat.mod_eq_of_lt (by omega), if_neg (by omega),
        ih (by omega) (fun b hb => hused b (by omega)) (by omega) (by omega),
        show fuel - (s.nBlocks - (p + 1)) = fuel + 1 - (s.nBlocks - p) by omega]

/-- If all blocks are used, the block that must not be crossed is reached. -/
theorem nextFree_panic {d : Nat} (hsmall : s.nBlocks < 2 ^ 32) (hd : d < s.nBlocks)
    (hused : ∀ b < s.nBlocks, s.bitmap.getBit b = true) (hlt : p < d) {fuel : Nat}
    (hfuel : d - p ≤ fuel) : nextFree d fuel (s.atBlock p) = some (.error (.panic "Out of memory")) := by
  induction fuel generalizing p with
  | zero => omega
  | succ fuel ih =>
    rw [nextFree_used (by omega) hsmall (hused p (by omega)), Nat.mod_eq_of_lt (by omega)]
    split
    · rfl
    · exact ih (by omega) (by omega)

theorem nextFree_of_lands {sizeBlk fuel : Nat} (hsmall : s.nBlocks < 2 ^ 32)
    (h : (s.ring sizeBlk).Lands p q) (hfuel : 2 * s.nBlocks ≤ fuel) :
    nextFree p fuel (s.atBlock p) = some (.ok (s.atBlock q)) := by
  cases h with
  | up hle hlt hfree hused =>
    change q < s.nBlocks at hlt
    exact nextFree_up hsmall hle hlt hfree hused (.inl (Nat.le_refl p)) (by omega)
  | wrap hlt hp hfree hused hbelow =>
    change p < s.nBlocks at hp
    rw [nextFree_over hsmall hp hused (Nat.le_refl p) (by omega), if_neg (by omega)]
    exact nextFree_up hsmall (Nat.zero_le q) (by omega) hfree (fun b _ => hbelow b) (.inr hlt) (by omega)

theorem nextFree_of_allUsed {sizeBlk fuel : Nat} (hsmall : s.nBlocks < 2 ^ 32) (hp : p < s.nBlocks)
    (h : (s.ring sizeBlk).AllUsed) (hfuel : 2 * s.nBlocks ≤ fuel) :
    nextFree p fuel (s.atBlock p) = some (.error (.panic "Out of memory")) := by
  have hused : ∀ b < s.nBlocks, s.bitmap.getBit b = true := h
  rw [nextFree_over hsmall hp (fun b _ => hused b) (Nat.le_refl p) (by omega)]
  split
  · rfl
  · exact nextFree_panic hsmall hp hused (by omega) (by omega)

/-- More fuel does not change the outcome. -/
theorem nextFree_mono {d fuel k : Nat} {t : Allocator} {r : Except Stop Allocator}
    (h : nextFree d fuel t = some r) (hle : fuel ≤ k) : nextFree d k t = some r := by
  induction fuel generalizing t k with
  | zero => cases h
  | succ fuel ih =>
    obtain ⟨k, rfl⟩ := Nat.exists_eq_succ_of_ne_zero (show k ≠ 0 by omega)
    rw [nextFree] at h ⊢
    split
    · next hbit =>
      rw [if_pos hbit] at h
      split
      · next e hmove =>
        rw [hmove] at h
        exact h
      · next t' hmove =>
        rw [hmove] at h
        simp only at h
        split
        · next hd => rwa [if_pos hd] at h
        · next hd =>
          rw [if_neg hd] at h
          exact ih h (by omega)
    · next hbit =>
      rw [if_neg hbit] at h
      exact h

end Helpers

/-! ## The search as a scan of the ring -/

section Search

variable {s : Allocator} {n align p q : Nat}

/-- The test `((u4_t) GETADDR(current_block) & alignmask) == 0`. -/
theorem and_alignmask {k : Nat} (hk : k < 32) (addr : Nat) :
    addr &&& u4 (2 ^ 32 - 1 + 2 ^ k) = addr % 2 ^ k := by
  have hpos : 0 < 2 ^ k := Nat.two_pow_pos k
  have hle : 2 ^ k < 2 ^ 32 := Nat.pow_lt_pow_right (by omega) hk
  have hmask : u4 (2 ^ 32 - 1 + 2 ^ k) = 2 ^ k - 1 := u4_pred hpos (by omega)
  rw [hmask, Nat.and_two_pow_sub_one_eq_mod]

theorem markUsed_ok (hpos : 0 < s.nBlocks) (m : Nat) : ∃ t, markUsed m s = .ok t := by
  induction m generalizing s with
  | zero => exact ⟨s, rfl⟩
  | succ m ih =>
    rw [markUsed, moveTo, if_neg (show ¬ s.markCurrentUsed.nBlocks = 0 from Nat.ne_of_gt hpos)]
    exact ih hpos

/-- An aligned free run ends the search. -/
theorem search_found (hp : p < s.nBlocks) (hwrap : p + n < 2 ^ 32) {k : Nat} (hk : k < 32)
    (hrun : (s.ring n).FreeRun p) (haligned : s.Aligned (2 ^ k) p) :
    ∃ t, ∀ fuel, search s.currentBlock n (2 ^ k) (fuel + 1) (s.atBlock p) =
      some (.ok (s.getAddr p, t)) := by
  obtain ⟨t, ht⟩ := @markUsed_ok (s.atBlock p) (show 0 < s.nBlocks by omega) n
  refine ⟨t, fun fuel => ?_⟩
  have htest : (s.atBlock p).getAddr (s.atBlock p).currentBlock &&& u4 (2 ^ 32 - 1 + 2 ^ k) = 0 := by
    rw [and_alignmask hk]
    exact haligned
  simp only [search, isFree_of_freeRun hwrap hrun, htest, and_self, if_true, ht]
  rfl

/-- A free run that is not aligned is tried again and again. -/
theorem search_stuck (hneed : 0 < n) (hwrap : p + n < 2 ^ 32) {k : Nat} (hk : k < 32)
    (hrun : (s.ring n).FreeRun p) (hmis : ¬ s.Aligned (2 ^ k) p) (fuel : Nat) :
    search s.currentBlock n (2 ^ k) fuel (s.atBlock p) = none := by
  induction fuel with
  | zero => rfl
  | succ fuel ih =>
    have htest : ¬ (s.atBlock p).getAddr (s.atBlock p).currentBlock &&& u4 (2 ^ 32 - 1 + 2 ^ k) = 0 := by
      rw [and_alignmask hk]
      exact hmis
    have hfree : s.bitmap.getBit p = false := hrun.2 0 hneed
    simp only [search, isFree_of_freeRun hwrap hrun, htest, and_false, if_false, not_true,
      false_and]
    cases fuel with
    | zero => rfl
    | succ fuel =>
      rw [atBlock_currentBlock, nextFree_free hfree]
      exact ih

/-- What the search does with a run that is not free. -/
theorem search_fails {p' : Nat} (hp : p < s.nBlocks) (hwrap : p + n < 2 ^ 32)
    (hfails : (s.ring n).Fails p p') (fuel : Nat) :
    search s.currentBlock n align (fuel + 1) (s.atBlock p) =
      if p' = s.currentBlock then some (.error (.panic "Out of memory"))
      else match nextFree p' fuel (s.atBlock p') with
        | none => none
        | some (.error e) => some (.error e)
        | some (.ok t) => search s.currentBlock n align fuel t := by
  have hfree := isFree_of_fails hp hwrap hfails
  by_cases hback : p' = s.currentBlock
  · simp only [search, hfree, hback, Bool.false_eq_true, false_and, if_false, not_false_eq_true,
      true_and, atBlock_currentBlock, if_true]
  · rw [if_neg hback]
    rcases hnext : nextFree p' fuel (s.atBlock p') with _ | (e | t)
    all_goals
      simp only [search, hfree, hback, hnext, Bool.false_eq_true, false_and, if_false,
        not_false_eq_true, true_and, atBlock_currentBlock]

/-- The search gives up. -/
theorem search_out (hsmall : s.nBlocks < 2 ^ 32) (hp : p < s.nBlocks) (hwrap : p + n < 2 ^ 32)
    (hout : (s.ring n).Out p) {fuel : Nat} (hfuel : 2 * s.nBlocks ≤ fuel) :
    search s.currentBlock n align (fuel + 1) (s.atBlock p) = some (.error (.panic "Out of memory")) := by
  rcases hout with ⟨rfl, hlarge⟩ | ⟨p', hfails, hback⟩
  · change s.nBlocks < n at hlarge
    simp only [search, isFree_of_large hlarge (by omega)]
  · rw [search_fails hp hwrap hfails]
    by_cases hstart : p' = s.currentBlock
    · rw [if_pos hstart]
    · have hall := hback.resolve_left hstart
      rw [if_neg hstart, nextFree_of_allUsed hsmall (hfails.lt hp) hall hfuel]

/-- One round of the search. -/
theorem search_round (hsmall : s.nBlocks < 2 ^ 32) (hp : p < s.nBlocks) (hwrap : p + n < 2 ^ 32)
    (hround : (s.ring n).Round p q) {fuel : Nat} (hfuel : 2 * s.nBlocks ≤ fuel) :
    search s.currentBlock n align (fuel + 1) (s.atBlock p) =
      search s.currentBlock n align fuel (s.atBlock q) := by
  obtain ⟨p', hfails, hne, hlands⟩ := hround
  change p' ≠ s.currentBlock at hne
  rw [search_fails hp hwrap hfails, if_neg hne, nextFree_of_lands hsmall hlands hfuel]

/-- With less fuel, the round may not come to its end. -/
theorem search_round_or (hsmall : s.nBlocks < 2 ^ 32) (hp : p < s.nBlocks) (hwrap : p + n < 2 ^ 32)
    (hround : (s.ring n).Round p q) (fuel : Nat) :
    search s.currentBlock n align (fuel + 1) (s.atBlock p) = none ∨
      search s.currentBlock n align (fuel + 1) (s.atBlock p) =
        search s.currentBlock n align fuel (s.atBlock q) := by
  obtain ⟨p', hfails, hne, hlands⟩ := hround
  change p' ≠ s.currentBlock at hne
  rw [search_fails hp hwrap hfails, if_neg hne]
  cases hnext : nextFree p' fuel (s.atBlock p') with
  | none => exact .inl rfl
  | some r =>
    have hmore := nextFree_mono hnext (Nat.le_max_left fuel (2 * s.nBlocks))
    rw [nextFree_of_lands hsmall hlands (Nat.le_max_right _ _)] at hmore
    obtain rfl := Option.some.inj hmore
    exact .inr rfl

end Search

/-! ## When the search is correct -/

section Correct

variable {s : Allocator} {n align k p q : Nat} (hstart : s.currentBlock < s.nBlocks)
  (hsmall : s.nBlocks < 2 ^ 32) (hneed : 0 < n)
  (hwrap : ∀ p, (s.ring n).Visited p → p + n < 2 ^ 32)
include hstart hsmall hneed hwrap

/-- The search comes to where the scan comes to. -/
theorem search_visited (h : (s.ring n).Visited q) {r : Except Stop (Nat × Allocator)} {k : Nat}
    (hr : ∀ fuel ≥ k, search s.currentBlock n align fuel (s.atBlock q) = some r) :
    ∃ k', ∀ fuel ≥ k', s.jxmallocInternal fuel n align = some r := by
  induction h generalizing k with
  | refl => exact ⟨k, hr⟩
  | @tail p q hvisited hround ih =>
    have hp := (Ring.Visited.first hstart hneed hvisited).1
    refine @ih (max k (2 * s.nBlocks) + 1) fun fuel hfuel => ?_
    obtain ⟨fuel, rfl⟩ := Nat.exists_eq_succ_of_ne_zero (show fuel ≠ 0 by omega)
    rw [search_round hsmall hp (hwrap p hvisited) hround (by omega)]
    exact hr fuel (by omega)

/-- If the search does not end where the scan comes to, it does not end. -/
theorem search_visited_none (h : (s.ring n).Visited q)
    (hr : ∀ fuel, search s.currentBlock n align fuel (s.atBlock q) = none) (fuel : Nat) :
    s.jxmallocInternal fuel n align = none := by
  induction h generalizing fuel with
  | refl => exact hr fuel
  | @tail p q hvisited hround ih =>
    have hp := (Ring.Visited.first hstart hneed hvisited).1
    refine ih (fun fuel => ?_) fuel
    cases fuel with
    | zero => rfl
    | succ fuel =>
      rcases search_round_or hsmall hp (hwrap p hvisited) hround fuel with hnone | heq
      · exact hnone
      · rw [heq]
        exact hr fuel

/-- If the scan goes on for ever, so does the search. -/
theorem search_endless (hgo : ∀ p, (s.ring n).Visited p → ∃ q, (s.ring n).Round p q) (fuel : Nat)
    (h : (s.ring n).Visited p) : search s.currentBlock n align fuel (s.atBlock p) = none := by
  induction fuel generalizing p with
  | zero => rfl
  | succ fuel ih =>
    obtain ⟨q, hround⟩ := hgo p h
    have hp := (Ring.Visited.first hstart hneed h).1
    rcases search_round_or hsmall hp (hwrap p h) hround fuel with hnone | heq
    · exact hnone
    · rw [heq]
      exact ih (h.tail hround)

omit hstart hsmall hneed hwrap in
theorem not_searchCorrect_of_none (h : ∀ fuel, s.jxmallocInternal fuel n align = none) :
    ¬ s.SearchCorrect n align := by
  rintro ⟨r, -, m, hm⟩
  have hsome := hm m (Nat.le_refl m)
  rw [h m] at hsome
  cases hsome

/-- With a free run, the first one decides. -/
theorem searchCorrect_iff_aligned (hk : k < 32) (h : (s.ring n).Visited p)
    (hrun : (s.ring n).FreeRun p) : s.SearchCorrect n (2 ^ k) ↔ s.Aligned (2 ^ k) p := by
  have hp := (Ring.Visited.first hstart hneed h).1
  constructor
  · intro hcorrect
    by_contra hmis
    have hstuck := search_stuck hneed (hwrap p h) hk hrun hmis
    exact not_searchCorrect_of_none
      (search_visited_none hstart hsmall hneed hwrap h hstuck) hcorrect
  · intro haligned
    obtain ⟨t, ht⟩ := search_found hp (hwrap p h) hk hrun haligned
    refine ⟨.ok (s.getAddr p, t), ⟨p, hrun, haligned, rfl⟩, ?_⟩
    refine search_visited (k := 1) hstart hsmall hneed hwrap h fun fuel hfuel => ?_
    obtain ⟨fuel, rfl⟩ := Nat.exists_eq_succ_of_ne_zero (show fuel ≠ 0 by omega)
    exact ht fuel

/-- Without one, the search must come back to its start. -/
theorem searchCorrect_iff_comesBack (hnone : ∀ b, ¬ (s.ring n).FreeRun b) :
    s.SearchCorrect n (2 ^ k) ↔ (s.ring n).ComesBack := by
  rw [← Ring.exists_out_iff hstart hneed hnone]
  constructor
  · intro hcorrect
    by_contra hout
    refine not_searchCorrect_of_none (fun fuel => ?_) hcorrect
    refine search_endless hstart hsmall hneed hwrap (fun p hp => ?_) fuel .refl
    rcases Ring.total (Ring.Visited.first hstart hneed hp).1 with hrun | hend | hround
    · exact absurd hrun (hnone p)
    · exact absurd ⟨p, hp, hend⟩ hout
    · exact hround
  · rintro ⟨p, hp, hout⟩
    refine ⟨.error (.panic "Out of memory"), ⟨rfl, fun b hrun => absurd hrun (hnone b)⟩, ?_⟩
    refine search_visited (k := 2 * s.nBlocks + 1) hstart hsmall hneed hwrap hp fun fuel hfuel => ?_
    obtain ⟨fuel, rfl⟩ := Nat.exists_eq_succ_of_ne_zero (show fuel ≠ 0 by omega)
    exact search_out hsmall (Ring.Visited.first hstart hneed hp).1 (hwrap p hp) hout (by omega)

/-- `jxmalloc_internal` terminates, with an aligned free run if there is one and with a panic otherwise, if
and only if the first free run from `current_block` on is aligned, or there is no free run and the scan
comes back to `current_block`. -/
theorem searchCorrect_iff_searchable (hk : k < 32) :
    s.SearchCorrect n (2 ^ k) ↔ s.Searchable n (2 ^ k) := by
  by_cases hsome : ∃ b, (s.ring n).FreeRun b
  · obtain ⟨b, hb⟩ := hsome
    obtain ⟨p, hvisited, hrun⟩ := Ring.exists_visited_run hstart hneed hb
    have hfirst := (Ring.Visited.first hstart hneed hvisited).2
    rw [searchCorrect_iff_aligned hstart hsmall hneed hwrap hk hvisited hrun]
    constructor
    · intro haligned
      refine ⟨fun b' hb' hfirst' => ?_, fun hnone => absurd hb (hnone b)⟩
      rwa [← hfirst.unique hfirst' hrun hb']
    · intro hsearch
      exact hsearch.1 p hrun hfirst
  · have hnone : ∀ b, ¬ (s.ring n).FreeRun b := fun b hb => hsome ⟨b, hb⟩
    rw [searchCorrect_iff_comesBack hstart hsmall hneed hwrap hnone]
    constructor
    · intro hback
      exact ⟨fun b hb => absurd hb (hnone b), fun _ => hback⟩
    · intro hsearch
      exact hsearch.2 hnone

end Correct

end Allocator

/-! ## Sixteen blocks -/

/-- What `jxmalloc_init` makes of sixteen blocks at one megabyte: the bitmap takes the first of them. -/
def sixteen : Allocator where
  jxmemStart := 0x100000
  nBlocks := 16
  nFree := 15
  currentBlock := 1
  bitmap := Bytes.setBit (Bytes.zero (fun _ => 0) 2) 0
  bitmapSize := 2
  bitmapSizeBlocks := 1

theorem reach_sixteen : Reach 0x100000 (16 * 1024) (fun _ => 0) (Fits 0x100000 16) ⟨sixteen, []⟩ := .init rfl

theorem sixteen_wrap {n : Nat} (hn : n ≤ 16) (hneed : 0 < n) (p : Nat)
    (h : (sixteen.ring n).Visited p) : p + n < 2 ^ 32 := by
  have hstart : sixteen.currentBlock < sixteen.nBlocks := by decide
  have hp : p < 16 := (Ring.Visited.first hstart hneed h).1
  omega

/-- Four blocks, anywhere. -/
theorem searchCorrect_sixteen : sixteen.SearchCorrect 4 (2 ^ 0) := by
  have hrun : (sixteen.ring 4).FreeRun 1 := ⟨by decide, by decide⟩
  refine (Allocator.searchCorrect_iff_searchable (by decide) (by decide) (by decide)
    (sixteen_wrap (by decide) (by decide)) (by decide)).mpr ⟨fun b _ _ => ?_, fun hnone => ?_⟩
  · exact Nat.mod_one _
  · exact absurd hrun (hnone 1)

/-- The next block has an odd number, and so the search for one block at an even number does not end, nor
does the search for more than is there. -/
theorem not_searchCorrect_sixteen : Reach 0x100000 (16 * 1024) (fun _ => 0) (Fits 0x100000 16) ⟨sixteen, []⟩ ∧
    ((sixteen.ring 1).FreeRun 2 ∧ sixteen.Aligned 2048 2 ∧ ¬ sixteen.SearchCorrect 1 2048) ∧
    ¬ sixteen.SearchCorrect 16 1 := by
  refine ⟨reach_sixteen, ⟨⟨by decide, by decide⟩, by decide, ?_⟩, ?_⟩
  · have hrun : (sixteen.ring 1).FreeRun 1 := ⟨by decide, by decide⟩
    exact Allocator.not_searchCorrect_of_none
      (Allocator.search_stuck (s := sixteen) (k := 11) (by decide) (by decide) (by decide) hrun (by decide))
  · have hnone : ∀ b, ¬ (sixteen.ring 16).FreeRun b := by
      intro b hrun
      obtain rfl : b = 0 := by
        have : b + 16 ≤ 16 := hrun.1
        omega
      exact absurd (hrun.2 0 (by decide)) (by decide)
    rw [show (1 : Nat) = 2 ^ 0 from rfl, Allocator.searchCorrect_iff_comesBack (by decide) (by decide)
      (by decide) (sixteen_wrap (by decide) (by decide)) hnone]
    rintro (hall | ⟨hlarge, -⟩ | ⟨-, ⟨a, e, he, hlt, -⟩ | ⟨hzero, -⟩⟩)
    · exact absurd (hall 1 (by decide)) (by decide)
    · exact absurd hlarge (by decide)
    · have hstart : (sixteen.ring 16).start = 1 := rfl
      omega
    · exact absurd hzero (by decide)

end JxCore.Malloc
