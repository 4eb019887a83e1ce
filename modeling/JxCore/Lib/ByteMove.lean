import JxCore.Lib.Footprint

/-!
# Moving bytes

`Copied` says what a copy of a run of bytes leaves: the target has the old contents of the source, and
everything else is as it was. Source and target may overlap. Two copies that follow each other make one
copy if the first does not overwrite what the second reads; for the string instructions this comes to
`Upward` or `Downward`, according to the direction flag.
-/

namespace JxCore.Lib.Access

variable {ε α β : Type}

/-- The action succeeds with `v`, and `P` relates the contents before and after. -/
def Does (act : Access ε α) (v : α) (P : (Address → BitVec 8) → (Address → BitVec 8) → Prop) : Prop :=
  ∀ m : Machine, ∃ m', act.run m = (.ok v, m') ∧ P m.byte m'.byte

theorem Does.bind {act : Access ε α} {k : α → Access ε β} {v : α} {w : β}
    {P Q R : (Address → BitVec 8) → (Address → BitVec 8) → Prop} (h : Does act v P)
    (hk : Does (k v) w Q) (hR : ∀ old mid new, P old mid → Q mid new → R old new) :
    Does (act >>= k) w R := by
  intro m
  obtain ⟨m₁, hrun, hP⟩ := h m
  obtain ⟨m₂, hrun', hQ⟩ := hk m₁
  refine ⟨m₂, ?_, hR _ _ _ hP hQ⟩
  have hstep : (act >>= k).run m = (k v).run m₁ := by
    show (ExceptT.bindCont k (act.run m).1).run (act.run m).2 = _
    rw [hrun]
    rfl
  rw [hstep, hrun']

/-- A step that is taken or left out; either way the result is `w`. -/
theorem Does.optional {u : Access ε Unit} {c : Prop} [Decidable c] {v v' w : α}
    {P : (Address → BitVec 8) → (Address → BitVec 8) → Prop} (h : c → Does u () P)
    (hskip : ¬ c → ∀ b, P b b) (hpos : c → v = w) (hneg : ¬ c → v' = w) :
    Does (if c then u >>= fun _ => pure v else pure v') w P := by
  by_cases hc : c
  · rw [if_pos hc, hpos hc]
    refine (h hc).bind (Q := fun old new => new = old) (fun m => ⟨m, rfl, rfl⟩) ?_
    rintro old mid new hP rfl
    exact hP
  · rw [if_neg hc, hneg hc]
    exact fun m => ⟨m, rfl, hskip hc _⟩

/-! ## Copies -/

/-- The `n` bytes from `dst` on are those from `src` on, and all other bytes are the same. -/
structure Copied (src dst : Address) (n : Nat) (old new : Address → BitVec 8) : Prop where
  target : ∀ i < n, new (dst + BitVec.ofNat 32 i) = old (src + BitVec.ofNat 32 i)
  other : ∀ x, ¬ Run dst n x → new x = old x

theorem copied_zero (src dst : Address) (old : Address → BitVec 8) : Copied src dst 0 old old :=
  ⟨fun _ h => absurd h (Nat.not_lt_zero _), fun _ _ => rfl⟩

theorem ofNat_inj {i j : Nat} (hi : i < 2 ^ 32) (hj : j < 2 ^ 32) {a : Address}
    (h : a + BitVec.ofNat 32 i = a + BitVec.ofNat 32 j) : i = j := by
  have heq := congrArg BitVec.toNat ((BitVec.add_right_inj a).mp h)
  rwa [BitVec.toNat_ofNat, BitVec.toNat_ofNat, Nat.mod_eq_of_lt hi, Nat.mod_eq_of_lt hj] at heq

section Append

variable {src dst : Address} {n k : Nat} {old mid new : Address → BitVec 8}

/-- Two runs that follow each other have no byte in common. -/
theorem not_run_of_run (hlen : n + k ≤ 2 ^ 32) {x : Address} (h : Run dst n x) :
    ¬ Run (dst + BitVec.ofNat 32 n) k x := by
  obtain ⟨i, hi, rfl⟩ := h
  rintro ⟨j, hj, heq⟩
  rw [BitVec.add_assoc, ← BitVec.ofNat_add] at heq
  have := ofNat_inj (by omega) (by omega) heq
  omega

/-- The bytes in front are copied first. -/
theorem Copied.append_up (h : Copied src dst n old mid)
    (h' : Copied (src + BitVec.ofNat 32 n) (dst + BitVec.ofNat 32 n) k mid new)
    (hlen : n + k ≤ 2 ^ 32)
    (hapart : ∀ j < k, ¬ Run dst n (src + BitVec.ofNat 32 n + BitVec.ofNat 32 j)) :
    Copied src dst (n + k) old new where
  target := by
    intro i hi
    by_cases hin : i < n
    · rw [h'.other _ (not_run_of_run hlen ⟨i, hin, rfl⟩), h.target i hin]
    · obtain ⟨j, rfl⟩ : ∃ j, i = n + j := ⟨i - n, by omega⟩
      have hj : j < k := by omega
      rw [BitVec.ofNat_add, ← BitVec.add_assoc, ← BitVec.add_assoc, h'.target j hj,
        h.other _ (hapart j hj)]
  other := by
    intro x hx
    rw [run_add, not_or] at hx
    rw [h'.other x hx.2, h.other x hx.1]

/-- The bytes behind are copied first. -/
theorem Copied.append_down
    (h : Copied (src + BitVec.ofNat 32 n) (dst + BitVec.ofNat 32 n) k old mid)
    (h' : Copied src dst n mid new) (hlen : n + k ≤ 2 ^ 32)
    (hapart : ∀ j < n, ¬ Run (dst + BitVec.ofNat 32 n) k (src + BitVec.ofNat 32 j)) :
    Copied src dst (n + k) old new where
  target := by
    intro i hi
    by_cases hin : i < n
    · rw [h'.target i hin, h.other _ (hapart i hin)]
    · obtain ⟨j, rfl⟩ : ∃ j, i = n + j := ⟨i - n, by omega⟩
      have hj : j < k := by omega
      have hout : ¬ Run dst n (dst + BitVec.ofNat 32 n + BitVec.ofNat 32 j) :=
        fun hrun => not_run_of_run hlen hrun ⟨j, hj, rfl⟩
      rw [BitVec.ofNat_add, ← BitVec.add_assoc, ← BitVec.add_assoc, h'.other _ hout, h.target j hj]
  other := by
    intro x hx
    rw [run_add, not_or] at hx
    rw [h'.other x hx.1, h.other x hx.2]

end Append

/-- The word at an address, low byte first. -/
def wordAt (byte : Address → BitVec 8) (a : Address) : BitVec 32 :=
  (byte (a + 3) ++ byte (a + 2)) ++ (byte (a + 1) ++ byte a)

theorem Copied.wordAt_target {src dst : Address} {n : Nat} {old new : Address → BitVec 8}
    (h : Copied src dst n old new) {i : Nat} (hi : i + 4 ≤ n) :
    wordAt new (dst + BitVec.ofNat 32 i) = wordAt old (src + BitVec.ofNat 32 i) := by
  have hbyte : ∀ k < 4, new (dst + BitVec.ofNat 32 i + BitVec.ofNat 32 k) =
      old (src + BitVec.ofNat 32 i + BitVec.ofNat 32 k) := by
    intro k hk
    rw [BitVec.add_assoc, BitVec.add_assoc, ← BitVec.ofNat_add]
    exact h.target (i + k) (by omega)
  have h₀ : new (dst + BitVec.ofNat 32 i) = old (src + BitVec.ofNat 32 i) := h.target i (by omega)
  unfold wordAt
  rw [h₀]
  exact congrArg₂ _ (congrArg₂ _ (hbyte 3 (by omega)) (hbyte 2 (by omega)))
    (congrArg₂ _ (hbyte 1 (by omega)) rfl)

theorem Copied.wordAt_other {src dst x : Address} {n : Nat} {old new : Address → BitVec 8}
    (h : Copied src dst n old new) (hx : ∀ k < 4, ¬ Run dst n (x + BitVec.ofNat 32 k)) :
    wordAt new x = wordAt old x := by
  have h₀ : new x = old x := by
    have := h.other _ (hx 0 (by omega))
    rwa [BitVec.add_zero] at this
  unfold wordAt
  rw [h₀]
  exact congrArg₂ _ (congrArg₂ _ (h.other _ (hx 3 (by omega))) (h.other _ (hx 2 (by omega))))
    (congrArg₂ _ (h.other _ (hx 1 (by omega))) rfl)

/-! ## Directions -/

/-- A copy that goes up does not overwrite what it still has to read. -/
def Upward (src dst : Address) (n : Nat) : Prop :=
  ∀ i j, i < j → j < n → src + BitVec.ofNat 32 j ≠ dst + BitVec.ofNat 32 i

/-- A copy that goes down does not. -/
def Downward (src dst : Address) (n : Nat) : Prop :=
  ∀ i j, j < i → i < n → src + BitVec.ofNat 32 j ≠ dst + BitVec.ofNat 32 i

section Directions

variable {src dst : Address} {n k : Nat}

theorem Upward.apart (h : Upward src dst (n + k)) :
    ∀ j < k, ¬ Run dst n (src + BitVec.ofNat 32 n + BitVec.ofNat 32 j) := by
  rintro j hj ⟨i, hi, heq⟩
  refine h i (n + j) (by omega) (by omega) ?_
  rw [BitVec.ofNat_add, ← BitVec.add_assoc, heq]

theorem Upward.shift (h : Upward src dst (n + k)) :
    Upward (src + BitVec.ofNat 32 n) (dst + BitVec.ofNat 32 n) k := by
  intro i j hij hj heq
  refine h (n + i) (n + j) (by omega) (by omega) ?_
  rw [BitVec.ofNat_add, BitVec.ofNat_add, ← BitVec.add_assoc, ← BitVec.add_assoc, heq]

theorem Downward.apart (h : Downward src dst (n + k)) :
    ∀ j < n, ¬ Run (dst + BitVec.ofNat 32 n) k (src + BitVec.ofNat 32 j) := by
  rintro j hj ⟨i, hi, heq⟩
  refine h (n + i) j (by omega) (by omega) ?_
  rw [BitVec.ofNat_add, ← BitVec.add_assoc, heq]

theorem Downward.mono (h : Downward src dst n) (hle : k ≤ n) : Downward src dst k :=
  fun i j hij hi => h i j hij (hi.trans_le hle)

end Directions

/-! ## Instructions -/

section Instructions

variable (src dst : Address)

theorem does_movsb : Does (movsb src dst : Access ε Unit) () (Copied src dst 1) := by
  intro m
  refine ⟨_, rfl, ?_, ?_⟩
  · intro i hi
    obtain rfl : i = 0 := by omega
    simp
  · intro x hx
    rw [run_one] at hx
    exact Function.update_of_ne hx _ _

theorem extract_low {v w : Nat} (hi : BitVec v) (lo : BitVec w) :
    (hi ++ lo).extractLsb' 0 w = lo := by
  rw [BitVec.extractLsb'_append_eq_of_add_le (by omega), BitVec.extractLsb'_eq_self]

theorem extract_high {v w : Nat} (hi : BitVec v) (lo : BitVec w) :
    (hi ++ lo).extractLsb' w v = hi := by
  rw [BitVec.extractLsb'_append_eq_of_le (Nat.le_refl w), Nat.sub_self, BitVec.extractLsb'_eq_self]

/-- A half-word is read before it is written. -/
theorem movsw_byte (m : Machine) : ∃ m', (movsw src dst : Access ε Unit).run m = (.ok (), m') ∧
    m'.byte = Function.update (Function.update m.byte dst (m.byte src)) (dst + 1)
      (m.byte (src + 1)) := by
  refine ⟨_, rfl, ?_⟩
  change Function.update (Function.update m.byte dst
    ((m.byte (src + 1) ++ m.byte src).extractLsb' 0 8)) (dst + 1)
    ((m.byte (src + 1) ++ m.byte src).extractLsb' 8 8) = _
  rw [extract_low, extract_high]

/-- So is a word. -/
theorem movsl_byte (m : Machine) : ∃ m', (movsl src dst : Access ε Unit).run m = (.ok (), m') ∧
    m'.byte = Function.update (Function.update (Function.update (Function.update m.byte dst
      (m.byte src)) (dst + 1) (m.byte (src + 1))) (dst + 2) (m.byte (src + 2))) (dst + 2 + 1)
      (m.byte (src + 2 + 1)) := by
  refine ⟨_, rfl, ?_⟩
  change Function.update (Function.update (Function.update (Function.update m.byte dst
    ((((m.byte (src + 2 + 1) ++ m.byte (src + 2)) ++ (m.byte (src + 1) ++ m.byte src)).extractLsb'
      0 16).extractLsb' 0 8)) (dst + 1)
    ((((m.byte (src + 2 + 1) ++ m.byte (src + 2)) ++ (m.byte (src + 1) ++ m.byte src)).extractLsb'
      0 16).extractLsb' 8 8)) (dst + 2)
    ((((m.byte (src + 2 + 1) ++ m.byte (src + 2)) ++ (m.byte (src + 1) ++ m.byte src)).extractLsb'
      16 16).extractLsb' 0 8)) (dst + 2 + 1)
    ((((m.byte (src + 2 + 1) ++ m.byte (src + 2)) ++ (m.byte (src + 1) ++ m.byte src)).extractLsb'
      16 16).extractLsb' 8 8) = _
  rw [extract_low, extract_high, extract_low, extract_high, extract_low, extract_high]

theorem does_movsw : Does (movsw src dst : Access ε Unit) () (Copied src dst 2) := by
  intro m
  obtain ⟨m', hrun, hbyte⟩ := movsw_byte (ε := ε) src dst m
  refine ⟨m', hrun, ?_, ?_⟩
  · intro i hi
    rw [hbyte]
    have hcases : i = 0 ∨ i = 1 := by omega
    rcases hcases with rfl | rfl
    · rw [Function.update_of_ne (by simp), BitVec.add_zero, Function.update_self, BitVec.add_zero]
    · exact Function.update_self _ _ _
  · intro x hx
    have hne : ∀ i < 2, x ≠ dst + BitVec.ofNat 32 i := fun i hi heq => hx ⟨i, hi, heq⟩
    have h₀ : x ≠ dst := by simpa using hne 0 (by omega)
    have h₁ : x ≠ dst + 1 := hne 1 (by omega)
    rw [hbyte, Function.update_of_ne h₁, Function.update_of_ne h₀]

theorem does_movsl : Does (movsl src dst : Access ε Unit) () (Copied src dst 4) := by
  intro m
  obtain ⟨m', hrun, hbyte⟩ := movsl_byte (ε := ε) src dst m
  -- the instruction goes by half-words, the copy by the number of the byte
  have h₃ : ∀ a : Address, a + 2 + 1 = a + BitVec.ofNat 32 3 := by
    intro a
    rw [BitVec.add_assoc]
    rfl
  have h₂ : ∀ a : Address, a + 2 = a + BitVec.ofNat 32 2 := fun _ => rfl
  have h₁ : ∀ a : Address, a + 1 = a + BitVec.ofNat 32 1 := fun _ => rfl
  rw [h₃, h₃, h₂, h₂, h₁, h₁] at hbyte
  have hapart : ∀ i j : Nat, i < 4 → j < 4 → i ≠ j →
      dst + BitVec.ofNat 32 i ≠ dst + BitVec.ofNat 32 j :=
    fun i j hi hj hij heq => hij (ofNat_inj (by omega) (by omega) heq)
  refine ⟨m', hrun, ?_, ?_⟩
  · intro i hi
    rw [hbyte]
    have hcases : i = 0 ∨ i = 1 ∨ i = 2 ∨ i = 3 := by omega
    rcases hcases with rfl | rfl | rfl | rfl
    · rw [Function.update_of_ne (hapart 0 3 (by omega) (by omega) (by omega)),
        Function.update_of_ne (hapart 0 2 (by omega) (by omega) (by omega)),
        Function.update_of_ne (hapart 0 1 (by omega) (by omega) (by omega)), BitVec.add_zero,
        Function.update_self, BitVec.add_zero]
    · rw [Function.update_of_ne (hapart 1 3 (by omega) (by omega) (by omega)),
        Function.update_of_ne (hapart 1 2 (by omega) (by omega) (by omega)), Function.update_self]
    · rw [Function.update_of_ne (hapart 2 3 (by omega) (by omega) (by omega)),
        Function.update_self]
    · rw [Function.update_self]
  · intro x hx
    have hne : ∀ i < 4, x ≠ dst + BitVec.ofNat 32 i := fun i hi heq => hx ⟨i, hi, heq⟩
    have h₀ : x ≠ dst := by simpa using hne 0 (by omega)
    rw [hbyte, Function.update_of_ne (hne 3 (by omega)), Function.update_of_ne (hne 2 (by omega)),
      Function.update_of_ne (hne 1 (by omega)), Function.update_of_ne h₀]

variable {src dst}

theorem does_repMovsl {n : Nat} (hlen : 4 * n ≤ 2 ^ 32) (h : Upward src dst (4 * n)) :
    Does (repMovsl n src dst : Access ε Unit) () (Copied src dst (4 * n)) := by
  induction n generalizing src dst with
  | zero => exact fun m => ⟨m, rfl, copied_zero ..⟩
  | succ n ih =>
    rw [show 4 * (n + 1) = 4 + 4 * n by omega] at h hlen ⊢
    refine (does_movsl src dst).bind (ih (by omega) h.shift) fun old mid new hfirst hrest => ?_
    exact hfirst.append_up hrest hlen h.apart

/-- Going down, the run ends where the first word was. -/
theorem does_repMovslDown {n : Nat} (hlen : 4 * n ≤ 2 ^ 32) {s d : Address}
    (h : Downward s d (4 * n)) (hs : src + 4 = s + BitVec.ofNat 32 (4 * n))
    (hd : dst + 4 = d + BitVec.ofNat 32 (4 * n)) :
    Does (repMovslDown n src dst : Access ε Unit) () (Copied s d (4 * n)) := by
  induction n generalizing src dst with
  | zero => exact fun m => ⟨m, rfl, copied_zero ..⟩
  | succ n ih =>
    have hback : ∀ {a b : Address}, a + 4 = b + BitVec.ofNat 32 (4 * (n + 1)) →
        a = b + BitVec.ofNat 32 (4 * n) := by
      intro a b hab
      rw [show 4 * (n + 1) = 4 * n + 4 by omega, BitVec.ofNat_add, ← BitVec.add_assoc] at hab
      exact (BitVec.add_left_inj 4).mp hab
    rw [show 4 * (n + 1) = 4 * n + 4 by omega] at h hlen ⊢
    have hfirst := does_movsl (ε := ε) src dst
    rw [hback hs, hback hd] at hfirst
    rw [hback hs, hback hd]
    refine hfirst.bind (ih (by omega) (h.mono (by omega)) ?_ ?_) fun old mid new hlast hrest => ?_
    · rw [BitVec.sub_add_cancel]
    · rw [BitVec.sub_add_cancel]
    · exact hlast.append_down hrest hlen h.apart

end Instructions

end JxCore.Lib.Access
