import JxCore.Core.LzoDecompress

/-!
# What the safe decompressor does with any input (`core/minilzo.c`)

`lzo1x_decompress_safe` does not look at the second byte of a match before it reads it, nor, after
that, at the literals that follow the match. So it may read up to six bytes behind its input, and it
reads no others and writes no others than those it has been given, as long as the counter of a run
does not wrap and the input is not empty.
-/

namespace JxCore.Lzo

open Lib.Lz

/-- The routine stays within the buffers, and what it goes on with satisfies `P`. -/
def Within {α : Type} (c : Config) (P : α → Prop) : Except Exit α → Prop
  | .ok a => P a
  | .error (.returned _ op) => op.length ≤ c.outLen
  | .error .outside => False

/-- What the caller of the safe decompressor gives it. -/
structure Config.Fits (c : Config) : Prop where
  safe : c.safe = true
  nonempty : 0 < c.inLen
  /-- Six bytes behind the input can be read. -/
  mem : c.inLen + 6 ≤ c.mem.length
  /-- A run has no more than 255 for each byte of the input. -/
  small : c.inLen ≤ 2 ^ 24
  out : c.outLen < 2 ^ 32
  room : c.outLen ≤ c.room

section Within

variable {α β : Type} {c : Config} {P : α → Prop} {Q : β → Prop} {s : St}

theorem Within.bind {x : Except Exit α} {g : α → Except Exit β} (hx : Within c P x)
    (hg : ∀ a, P a → Within c Q (g a)) : Within c Q (x >>= g) := by
  cases x with
  | ok a => exact hg a hx
  | error e => cases e <;> exact hx

theorem Within.mono {P' : α → Prop} {x : Except Exit α} (h : Within c P x) (hsub : ∀ a, P a → P' a) :
    Within c P' x := by
  cases x with
  | ok a => exact hsub a h
  | error e => cases e <;> exact h

theorem Within.pure {a : α} (h : P a) : Within c P (pure a) := h

/-! ## Tests -/

theorem u4sub_of_le {a b : Nat} (h : b ≤ a) (ha : a < 2 ^ 32) : u4sub a b = a - b := by
  unfold u4sub u4
  omega

theorem needIp_within {x : Nat} (h : c.Fits) (hop : s.op.length ≤ c.outLen) (hx : x < 2 ^ 32) :
    Within c (fun _ => s.ip ≤ c.inLen → s.ip + x ≤ c.inLen) (c.needIp x s) := by
  unfold Config.needIp
  split
  · exact hop
  · next hroom =>
    rw [h.safe, u4_of_lt hx] at hroom
    have hsmall := h.small
    intro hle
    rw [u4sub_of_le hle (by omega)] at hroom
    have hge : ¬ c.inLen - s.ip < x := fun hlt => hroom ⟨rfl, hlt⟩
    omega

theorem needOp_within {x : Nat} (h : c.Fits) (hop : s.op.length ≤ c.outLen) (hx : x < 2 ^ 32) :
    Within c (fun _ => s.op.length + x ≤ c.outLen) (c.needOp x s) := by
  unfold Config.needOp
  split
  · exact hop
  · next hroom =>
    rw [h.safe, u4_of_lt hx, u4sub_of_le hop h.out] at hroom
    have hge : ¬ c.outLen - s.op.length < x := fun hlt => hroom ⟨rfl, hlt⟩
    show _ ≤ _
    omega

theorem read_within {ip : Nat} (hip : ip < c.mem.length) : Within c (· < 256) (c.read ip) := by
  unfold Config.read
  rw [List.getElem?_eq_getElem hip]
  exact (c.mem[ip]).isLt

theorem positive_within {t : Nat} (ht : 0 < t) : Within c (fun _ => True) (Config.positive t) := by
  unfold Config.positive
  rw [if_pos ht]
  trivial

theorem put_within {op : List (BitVec 8)} (h : c.Fits) (hop : op.length ≤ c.outLen) :
    Within c (· = op) (c.put op) := by
  unfold Config.put
  rw [if_pos (Nat.le_trans hop h.room)]
  exact rfl

/-! ## Copies -/

theorem copyLiterals_within {n : Nat} (h : c.Fits) (hip : s.ip + n ≤ c.mem.length)
    (hop : s.op.length + n ≤ c.outLen) :
    Within c (fun s' => s'.ip = s.ip + n ∧ s'.op.length ≤ c.outLen) (c.copyLiterals n s) := by
  have hlength : (s.op ++ (c.mem.drop s.ip).take n).length = s.op.length + n := by
    rw [List.length_append, List.length_take, List.length_drop]
    omega
  unfold Config.copyLiterals
  rw [if_pos hip]
  refine (put_within h (hlength ▸ hop)).bind fun op heq => ?_
  refine .pure ⟨rfl, ?_⟩
  rw [heq, hlength]
  exact hop

theorem copyWords_eq {dist t : Nat} {op : List (BitVec 8)} (h4 : 4 ≤ dist) (hle : dist ≤ op.length) :
    Config.copyWords dist t op = copyBack dist t op := by
  fun_induction Config.copyWords dist t op with
  | case1 t op ih =>
    have hlength := length_copyBack (n := 4) (by omega : 0 < dist) hle
    rw [copyBlock_eq h4 hle] at ih ⊢
    rw [ih (by omega), ← copyBack_add, Nat.add_comm]
  | case2 => rfl

/-- The words are as good as the bytes. -/
theorem copyLong_eq {dist t : Nat} {op : List (BitVec 8)} (hpos : 0 < dist) (hle : dist ≤ op.length) :
    Config.copyLong dist t op = copyBack dist (t + 2) op := by
  unfold Config.copyLong
  split
  · next hlong =>
    have hlength := length_copyBack (n := 4) hpos hle
    rw [copyBlock_eq hlong.2 hle, copyWords_eq hlong.2 (by omega), ← copyBack_add]
    congr 1
    omega
  · rfl

/-- The loops of a match, whatever they are, repeat `n` bytes from `dist` places back. -/
def Repeats (dist n : Nat) (copy : List (BitVec 8) → List (BitVec 8)) : Prop :=
  ∀ out, dist ≤ out.length → copy out = copyBack dist n out

theorem repeats_copyBack {dist n : Nat} : Repeats dist n (copyBack dist n) := fun _ _ => rfl

theorem repeats_copyLong {dist t : Nat} (hpos : 0 < dist) :
    Repeats dist (t + 2) (Config.copyLong dist t) := fun _ hle => copyLong_eq hpos hle

/-- A match within the output is the same whatever stands in front of it. -/
theorem Repeats.drop {dist n : Nat} {copy : List (BitVec 8) → List (BitVec 8)}
    (h : Repeats dist n copy) {before op : List (BitVec 8)} (hle : dist ≤ op.length) :
    (copy (before ++ op)).drop before.length = copyBack dist n op := by
  have hfar : dist ≤ (before ++ op).length := by
    rw [List.length_append]
    exact Nat.le_add_left_of_le hle
  rw [h _ hfar, copyBack_append before hle, List.drop_left]

theorem copyMatch_within {dist n t : Nat} {copy : List (BitVec 8) → List (BitVec 8)} (h : c.Fits)
    (hop : s.op.length ≤ c.outLen) (hn : n < 2 ^ 32) (ht : 0 < t) (hpos : 0 < dist)
    (hcopy : Repeats dist n copy) :
    Within c (fun y => y.1 = .matchDone ∧ y.2.ip = s.ip ∧ y.2.op.length ≤ c.outLen)
      (c.copyMatch dist n t copy s) := by
  unfold Config.copyMatch Config.testLookbehind
  by_cases hfar : s.op.length < dist
  · rw [if_pos ⟨h.safe, hfar⟩]
    exact hop
  have hnear := Nat.not_lt.mp hfar
  rw [if_neg fun hsafe => hfar hsafe.2, if_neg (by omega)]
  refine (needOp_within h hop hn).bind fun _ hroom => ?_
  refine (positive_within ht).bind fun _ _ => ?_
  rw [hcopy.drop hnear]
  have hlength := length_copyBack (n := n) hpos hnear
  refine (put_within h (hlength ▸ hroom)).bind fun op heq => ?_
  refine .pure ⟨rfl, rfl, ?_⟩
  show op.length ≤ _
  rw [heq, hlength]
  exact hroom

/-! ## Runs -/

/-- The counter grows by no more than 255 with each byte. -/
theorem zeroRun_within {base t : Nat} (h : c.Fits) (hbase : base ≤ 31) (hpos : 0 < base)
    (hop : s.op.length ≤ c.outLen) (hip : s.ip < c.inLen) (ht : t ≤ 255 * s.ip) :
    Within c (fun y => 0 < y.1 ∧ y.1 < 2 ^ 32 - 8 ∧ s.ip < y.2.ip ∧ y.2.ip ≤ c.inLen ∧ y.2.op = s.op)
      (c.zeroRun base (c.mem.drop s.ip) t s) := by
  generalize hrest : c.mem.drop s.ip = rest
  induction rest generalizing s t with
  | nil =>
    have hle := List.drop_eq_nil_iff.mp hrest
    have hmem := h.mem
    omega
  | cons b rest ih =>
    have hsmall := h.small
    unfold Config.zeroRun
    split
    · refine (needIp_within (s := ⟨s.ip + 1, s.op⟩) h hop (by decide)).bind fun _ hnext => ?_
      have hlt : s.ip + 1 < c.inLen := hnext hip
      have hdrop : c.mem.drop (s.ip + 1) = rest := by
        rw [← List.drop_drop, hrest, List.drop_succ_cons, List.drop_zero]
      have hcount : u4 (t + 255) = t + 255 := u4_of_lt (by omega)
      have hnext : u4 (t + 255) ≤ 255 * (s.ip + 1) := by rw [hcount]; omega
      have hrun := @ih ⟨s.ip + 1, s.op⟩ (u4 (t + 255)) hop hlt hnext hdrop
      refine hrun.mono fun y hy => ⟨hy.1, hy.2.1, ?_, hy.2.2.2⟩
      exact Nat.lt_of_succ_lt hy.2.2.1
    · have hb : b.toNat < 256 := b.isLt
      have hcount : u4 (t + (base + b.toNat)) = t + (base + b.toNat) := u4_of_lt (by omega)
      refine .pure ⟨?_, ?_, Nat.lt_succ_self _, hip, rfl⟩
      · rw [hcount]
        omega
      · rw [hcount]
        omega

/-- A length takes no more than the input has. -/
theorem runLength_within {base t : Nat} (h : c.Fits) (hbase : base ≤ 31) (hpos : 0 < base)
    (hop : s.op.length ≤ c.outLen) (hip : s.ip ≤ c.inLen) (ht : t < 32) :
    Within c (fun y => 0 < y.1 ∧ y.1 < 2 ^ 32 - 8 ∧ s.ip ≤ y.2.ip ∧ y.2.ip ≤ c.inLen ∧ y.2.op = s.op)
      (c.runLength base t s) := by
  unfold Config.runLength
  split
  · refine (needIp_within (x := 1) h hop (by omega)).bind fun _ hnext => ?_
    refine (zeroRun_within h hbase hpos hop (hnext hip) (by omega)).mono fun y hy => ?_
    exact ⟨hy.1, hy.2.1, Nat.le_of_lt hy.2.2.1, hy.2.2.2⟩
  · exact .pure ⟨by omega, by omega, Nat.le_refl _, hip, rfl⟩

/-! ## Steps -/

/-- Where the decompressor is at a label. -/
def Config.At (c : Config) : Label → St → Prop
  | .literal, s => s.ip ≤ c.inLen + 6 ∧ s.op.length ≤ c.outLen
  | .firstLiteralRun, s => s.ip < c.inLen ∧ s.op.length ≤ c.outLen
  | .code t, s => t < 256 ∧ 0 < s.ip ∧ s.ip ≤ c.inLen ∧ s.op.length ≤ c.outLen
  | .matchDone, s => 2 ≤ s.ip ∧ s.ip ≤ c.inLen + 2 ∧ s.op.length ≤ c.outLen
  | .matchNext t, s => 0 < t ∧ t < 4 ∧ s.ip ≤ c.inLen + 2 ∧ s.op.length ≤ c.outLen

/-- What is left to read; the end of a match reads nothing. -/
def Config.rest (c : Config) (x : Label × St) : Nat :=
  2 * (c.inLen + 7 - x.2.ip) + if x.1 = .matchDone then 1 else 0

/-- A step leads to another label, and less is left to read. -/
def Config.Goes (c : Config) (x y : Label × St) : Prop := c.At y.1 y.2 ∧ c.rest y < c.rest x

theorem matched_within {dist n t : Nat} {copy : List (BitVec 8) → List (BitVec 8)} {x : Label × St}
    (h : c.Fits) (hx : x.1 ≠ .matchDone) (hip : x.2.ip < s.ip) (hle : s.ip ≤ c.inLen + 2)
    (htwo : 2 ≤ s.ip) (hop : s.op.length ≤ c.outLen) (hn : n < 2 ^ 32) (ht : 0 < t) (hpos : 0 < dist)
    (hcopy : Repeats dist n copy) :
    Within c (c.Goes x) (c.copyMatch dist n t copy s) := by
  refine (copyMatch_within h hop hn ht hpos hcopy).mono fun y hy => ?_
  obtain ⟨hlabel, hsame, hlength⟩ := hy
  obtain ⟨l, s'⟩ := y
  subst hlabel
  refine ⟨⟨?_, ?_, hlength⟩, ?_⟩
  · rw [hsame]
    exact htwo
  · rw [hsame]
    exact hle
  · unfold Config.rest
    rw [if_pos rfl, if_neg hx, hsame]
    omega

theorem stepCode_within {t : Nat} (h : c.Fits) (hat : c.At (.code t) s) :
    Within c (c.Goes (.code t, s)) (c.stepCode t s) := by
  obtain ⟨ht, hpos, hip, hop⟩ := hat
  have hmem := h.mem
  have hsmall := h.small
  have hcode : (Label.code t, s).1 ≠ .matchDone := nofun
  unfold Config.stepCode
  split
  · -- the length and the low bits of the offset are in the code
    next hm2 =>
    have hcount : 0 < (t >>> 5) - 1 ∧ (t >>> 5) - 1 < 8 := by
      rw [Nat.shiftRight_eq_div_pow]
      omega
    refine (read_within (by omega)).bind fun b _ => ?_
    refine matched_within (s := ⟨s.ip + 1, s.op⟩) h hcode (Nat.lt_succ_self _) ?_ ?_ hop (by omega)
      hcount.1 (by omega) repeats_copyBack
    · exact Nat.le_succ_of_le (Nat.succ_le_succ hip)
    · exact Nat.succ_le_succ hpos
  split
  · -- the offset is in the two bytes that follow the length
    next hm3 =>
    refine (runLength_within h (by decide) (by decide) hop hip ?_).bind fun y hy => ?_
    · rw [Nat.and_two_pow_sub_one_eq_mod t 5]
      exact Nat.mod_lt _ (by decide)
    obtain ⟨t', s'⟩ := y
    obtain ⟨ht', hlt, hge, hle, hsame⟩ := hy
    simp only at ht' hlt hge hle hsame ⊢
    refine (read_within (by omega)).bind fun b₀ _ => ?_
    refine (read_within (by omega)).bind fun b₁ _ => ?_
    refine matched_within (s := ⟨s'.ip + 2, s'.op⟩) h hcode ?_ ?_ ?_ ?_ ?_ ht' (by omega)
      (repeats_copyLong (by omega))
    · exact Nat.lt_succ_of_le (Nat.le_succ_of_le hge)
    · exact Nat.add_le_add_right hle 2
    · exact Nat.le_add_left 2 _
    · exact hsame ▸ hop
    · omega
  split
  · next hm4 =>
    refine (runLength_within h (by decide) (by decide) hop hip ?_).bind fun y hy => ?_
    · rw [Nat.and_two_pow_sub_one_eq_mod t 3]
      exact Nat.lt_of_lt_of_le (Nat.mod_lt t (by decide)) (by decide)
    obtain ⟨t', s'⟩ := y
    obtain ⟨ht', hlt, hge, hle, hsame⟩ := hy
    simp only at ht' hlt hge hle hsame ⊢
    refine (read_within (by omega)).bind fun b₀ _ => ?_
    refine (read_within (by omega)).bind fun b₁ _ => ?_
    split
    · show s'.op.length ≤ c.outLen
      exact hsame ▸ hop
    refine matched_within (s := ⟨s'.ip + 2, s'.op⟩) h hcode ?_ ?_ ?_ ?_ ?_ ht' (by omega)
      (repeats_copyLong (by omega))
    · exact Nat.lt_succ_of_le (Nat.le_succ_of_le hge)
    · exact Nat.add_le_add_right hle 2
    · exact Nat.le_add_left 2 _
    · exact hsame ▸ hop
    · omega
  · -- two bytes that are near
    refine (read_within (by omega)).bind fun b _ => ?_
    refine matched_within (s := ⟨s.ip + 1, s.op⟩) h hcode (Nat.lt_succ_self _) ?_ ?_ hop (by decide)
      (by decide) (by omega) repeats_copyBack
    · exact Nat.le_succ_of_le (Nat.succ_le_succ hip)
    · exact Nat.succ_le_succ hpos

theorem step_within {l : Label} (h : c.Fits) (hat : c.At l s) :
    Within c (c.Goes (l, s)) (c.step l s) := by
  have hmem := h.mem
  have hsmall := h.small
  cases l with
  | literal =>
    obtain ⟨hip, hop⟩ := hat
    rw [Config.step]
    split
    · exact hop
    next htest =>
    have hlt : s.ip < c.inLen := by
      by_contra hge
      exact htest ⟨h.safe, hge⟩
    refine (read_within (by omega)).bind fun t ht => ?_
    simp only
    split
    · exact .pure ⟨⟨ht, Nat.succ_pos _, hlt, hop⟩, by simp [Config.rest]; omega⟩
    next hrun =>
    refine (runLength_within (s := ⟨s.ip + 1, s.op⟩) h (by decide) (by decide) hop hlt
      (by omega)).bind fun y hy => ?_
    obtain ⟨t', s'⟩ := y
    obtain ⟨ht', hbig, hge, hle, hsame⟩ := hy
    simp only at ht' hbig hge hle hsame ⊢
    have hop' : s'.op.length ≤ c.outLen := hsame ▸ hop
    refine (needOp_within h hop' (by omega)).bind fun _ hroom => ?_
    refine (needIp_within h hop' (by omega)).bind fun _ hinput => ?_
    refine (positive_within ht').bind fun _ _ => ?_
    have hend := hinput hle
    refine (copyLiterals_within h (by omega) hroom).bind fun s'' hs'' => ?_
    obtain ⟨hip'', hop''⟩ := hs''
    refine .pure ⟨⟨?_, hop''⟩, ?_⟩
    · show s''.ip < c.inLen
      omega
    · simp only [Config.rest]
      rw [if_neg nofun, if_neg nofun]
      show 2 * (c.inLen + 7 - s''.ip) + 0 < 2 * (c.inLen + 7 - s.ip) + 0
      omega
  | firstLiteralRun =>
    obtain ⟨hip, hop⟩ := hat
    rw [Config.step]
    refine (read_within (by omega)).bind fun t ht => ?_
    simp only
    split
    · exact .pure ⟨⟨ht, Nat.succ_pos _, hip, hop⟩, by simp [Config.rest]; omega⟩
    · refine (read_within (by omega)).bind fun b _ => ?_
      refine matched_within (s := ⟨s.ip + 2, s.op⟩) h nofun ?_ ?_ (Nat.le_add_left 2 _) hop (by decide)
        (by decide) (by omega) repeats_copyBack
      · exact Nat.lt_succ_of_le (Nat.le_succ _)
      · exact Nat.add_le_add_right (Nat.le_of_lt hip) 2
  | code t => exact stepCode_within h hat
  | matchDone =>
    obtain ⟨htwo, hip, hop⟩ := hat
    rw [Config.step]
    refine (read_within (by omega)).bind fun b _ => ?_
    have hlow : b &&& 3 = b % 4 := Nat.and_two_pow_sub_one_eq_mod b 2
    split
    · refine .pure ⟨⟨by simp only; omega, hop⟩, ?_⟩
      simp [Config.rest]
    · refine .pure ⟨⟨by omega, by omega, hip, hop⟩, ?_⟩
      simp [Config.rest]
  | matchNext t =>
    obtain ⟨hpos, hlt, hip, hop⟩ := hat
    rw [Config.step]
    refine (needOp_within h hop (by omega)).bind fun _ hroom => ?_
    refine (needIp_within h hop (by omega)).bind fun _ _ => ?_
    refine (positive_within hpos).bind fun _ _ => ?_
    refine (copyLiterals_within h (by omega) hroom).bind fun s' hs' => ?_
    obtain ⟨hip', hop'⟩ := hs'
    refine (read_within (by omega)).bind fun t' ht' => ?_
    simp only
    split
    · refine .pure ⟨⟨by simp only; omega, hop'⟩, ?_⟩
      simp [Config.rest]
      omega
    · next htest =>
      have hin : s'.ip + 1 < c.inLen := by
        by_contra hge
        exact htest ⟨h.safe, hge⟩
      refine .pure ⟨⟨ht', Nat.succ_pos _, Nat.le_of_lt hin, hop'⟩, ?_⟩
      simp [Config.rest]
      omega

/-! ## Runs of the machine -/

theorem run_within {x : Label × St} {fuel : Nat} (h : c.Fits) (hat : c.At x.1 x.2)
    (hfuel : c.rest x < fuel) :
    ∃ code op, c.run fuel x = some (.returned code op) ∧ op.length ≤ c.outLen := by
  induction fuel generalizing x with
  | zero => exact absurd hfuel (Nat.not_lt_zero _)
  | succ fuel ih =>
    have hstep := step_within h hat
    rw [Config.run]
    cases hnext : c.step x.1 x.2 with
    | ok y =>
      rw [hnext] at hstep
      exact ih hstep.1 (Nat.lt_of_lt_of_le hstep.2 (Nat.le_of_lt_succ hfuel))
    | error e =>
      rw [hnext] at hstep
      cases e with
      | returned code op => exact ⟨code, op, rfl, hstep⟩
      | outside => exact hstep.elim

theorem start_within (h : c.Fits) : Within c (fun x => c.At x.1 x.2) c.start := by
  have hmem := h.mem
  have hsmall := h.small
  have hop : (⟨1, []⟩ : St).op.length ≤ c.outLen := Nat.zero_le _
  unfold Config.start
  refine (read_within (by omega)).bind fun t ht => ?_
  split
  · split
    · exact .pure ⟨by omega, by omega, by simp only; omega, hop⟩
    · refine (needOp_within h hop (by omega)).bind fun _ hroom => ?_
      refine (needIp_within h hop (by omega)).bind fun _ hinput => ?_
      have hend : 1 + (t - 17 + 1) ≤ c.inLen := hinput h.nonempty
      refine (positive_within (by omega)).bind fun _ _ => ?_
      refine (copyLiterals_within (s := ⟨1, []⟩) h (by simp only; omega) hroom).bind fun s' hs' => ?_
      obtain ⟨hip', hop'⟩ := hs'
      simp only at hip'
      exact .pure ⟨show s'.ip < c.inLen by omega, hop'⟩
  · exact .pure ⟨Nat.zero_le _, Nat.zero_le _⟩

/-- For any input, the safe decompressor comes back, and it accesses nothing but its buffers and six
bytes behind the input. -/
theorem decompress_safe (h : c.Fits) {fuel : Nat} (hfuel : 2 * c.inLen + 16 ≤ fuel) :
    ∃ code op, c.decompress fuel = some (.returned code op) ∧ op.length ≤ c.outLen := by
  have hstart := start_within h
  unfold Config.decompress
  cases hfirst : c.start with
  | ok x =>
    rw [hfirst] at hstart
    refine run_within h hstart (Nat.lt_of_lt_of_le ?_ hfuel)
    unfold Config.rest
    split <;> omega
  | error e =>
    rw [hfirst] at hstart
    cases e with
    | returned code op => exact ⟨code, op, rfl, hstart⟩
    | outside => exact hstart.elim

/-- The input ends within a match, of which the second byte stands behind the input. -/
theorem decompress_safe_truncated : ∃ code op,
    (⟨true, [0x12, 0x41, 0x40, 0, 0, 0, 0, 0, 0], 3, 8, [], 8⟩ : Config).decompress 22 =
      some (.returned code op) ∧ op.length ≤ 8 :=
  decompress_safe (c := ⟨true, [0x12, 0x41, 0x40, 0, 0, 0, 0, 0, 0], 3, 8, [], 8⟩)
    ⟨rfl, by decide, by decide, by decide, by decide, by decide⟩ (by decide)

end Within

end JxCore.Lzo
