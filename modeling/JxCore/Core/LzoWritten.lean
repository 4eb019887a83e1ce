import JxCore.Core.LzoMatches

/-!
# How far the decompressor comes with what has been written (`core/minilzo.c`)

It comes to the end of the last match (`Matched`), from there to the head of its loop (`Ready`), and to
the code that is written next (`Arrives`). What the compressor writes takes it from one to the other.
-/

namespace JxCore.Lzo

open Lib.Lz

/-! ## How far the decompressor comes -/

/-- The decompressor gets from `x` to `y`. -/
def Config.Leads (c : Config) (x y : Label × St) : Prop := ∃ n, ∀ fuel, c.run (fuel + n) x = c.run fuel y

/-- The decompressor gets to `y`. -/
def Config.Comes (c : Config) (y : Label × St) : Prop := ∃ x, c.start = pure x ∧ c.Leads x y

section Comes

variable {c : Config} {x y : Label × St}

theorem Config.Comes.start (h : c.start = pure x) : c.Comes x := ⟨x, h, 0, fun _ => rfl⟩

theorem Config.Comes.step (h : c.Comes x) (hstep : c.step x.1 x.2 = pure y) : c.Comes y := by
  obtain ⟨z, hz, n, hrun⟩ := h
  refine ⟨z, hz, n + 1, fun fuel => ?_⟩
  rw [Nat.add_comm n, ← Nat.add_assoc, hrun, Config.run, hstep]
  rfl

/-- From where the decompressor comes, it ends with what the next step ends with. -/
theorem Config.Comes.returns {e : Exit} (h : c.Comes x) (hstep : c.step x.1 x.2 = throw e) :
    ∃ enough, ∀ fuel, enough ≤ fuel → c.decompress fuel = some e := by
  obtain ⟨z, hz, n, hrun⟩ := h
  refine ⟨n + 1, fun fuel hfuel => ?_⟩
  obtain ⟨more, rfl⟩ := Nat.exists_eq_add_of_le hfuel
  have hsum : n + 1 + more = more + 1 + n := by omega
  unfold Config.decompress
  rw [hz, hsum]
  show c.run (more + 1 + n) z = some e
  rw [hrun, Config.run, hstep]
  rfl

end Comes

/-! ## Literals -/

section Literals

variable {c : Config} {inp op : List (BitVec 8)} {i k ip : Nat} {first second : BitVec 8}

theorem length_literals (hle : i + k ≤ inp.length) : ((inp.drop i).take k).length = k := by
  rw [List.length_take, List.length_drop]
  omega

theorem copyLiterals_literals (hholds : c.Holds inp.length) (hle : i + k ≤ inp.length)
    (h : c.Has ip ((inp.drop i).take k ++ [first])) :
    c.copyLiterals k ⟨ip, inp.take i⟩ = pure ⟨ip + k, inp.take (i + k)⟩ := by
  have hroom := Nat.le_trans hle (Nat.le_trans hholds.outLen hholds.room)
  have hlength := length_literals hle
  have hcopy := copyLiterals_has (s := ⟨ip, inp.take i⟩) h (by
    rw [hlength]
    simp only [List.length_take]
    omega)
  rwa [hlength, ← List.take_add] at hcopy

theorem needOp_literals (hholds : c.Holds inp.length) (hle : i + k ≤ inp.length) :
    c.needOp k ⟨ip, inp.take i⟩ = pure () := by
  have hroom := Nat.le_trans hle hholds.outLen
  refine needOp_ok hholds.sized ?_
  simp only [List.length_take]
  omega

theorem needIp_literals (hholds : c.Holds inp.length) (hle : i + k ≤ inp.length)
    (h : c.Has ip ((inp.drop i).take k ++ [first])) : c.needIp (k + 1) ⟨ip, inp.take i⟩ = pure () := by
  have hlt := h.right.lt
  refine needIp_ok hholds.sized ?_
  rw [length_literals hle, List.length_nil] at hlt
  rw [hholds.inLen]
  exact hlt

/-- After the literals of a run comes a code. -/
theorem Config.Comes.code (h : c.Comes (.firstLiteralRun, ⟨ip, op⟩)) (hhas : c.Has ip [first])
    (hcode : 16 ≤ first.toNat) : c.Comes (.code first.toNat, ⟨ip + 1, op⟩) := by
  refine h.step ?_
  rw [Config.step, hhas.read, pure_bind]
  simp only
  rw [if_pos hcode]

/-- After up to three literals comes a code. -/
theorem Config.Comes.few (h : c.Comes (.matchNext k, ⟨ip, inp.take i⟩)) (hholds : c.Holds inp.length)
    (hk : 0 < k) (hle : i + k ≤ inp.length) (hhas : c.Has ip ((inp.drop i).take k ++ [first, second])) :
    c.Comes (.code first.toNat, ⟨ip + k + 1, inp.take (i + k)⟩) := by
  have hsplit : (inp.drop i).take k ++ [first, second] = (inp.drop i).take k ++ [first] ++ [second] := by
    rw [List.append_assoc, List.singleton_append]
  have hfirst : c.Has ip ((inp.drop i).take k ++ [first]) := by
    rw [hsplit] at hhas
    exact hhas.left
  have hlast := hhas.right
  rw [length_literals hle] at hlast
  refine h.step ?_
  rw [Config.step, needOp_literals hholds hle, pure_bind, needIp_literals hholds hle hfirst, pure_bind,
    Config.positive, if_pos hk, pure_bind, copyLiterals_literals hholds hle hfirst, pure_bind]
  simp only
  rw [hlast.read, pure_bind, if_neg]
  -- one more byte is there
  rintro ⟨-, hend⟩
  rw [hholds.inLen] at hend
  exact hend hlast.tail.lt

end Literals

/-! ## What has been written -/

/-- After `op`, whose last match is open for literals, the decompressor has the first `i` bytes. -/
def Matched (inp op : List (BitVec 8)) (i : Nat) : Prop :=
  ∃ pre b₀ b₁, op = pre ++ [b₀, b₁] ∧ b₀.toNat % 4 = 0 ∧
    ∀ (c : Config) (t : Nat), c.Holds inp.length → t < 4 → c.Has 0 (pre ++ [b₀ ||| lzoByte t, b₁]) →
      c.Comes (.matchDone, ⟨pre.length + 2, inp.take i⟩)

/-- After `op`, the decompressor is at the head of its loop and has the first `i` bytes. -/
def Ready (inp op : List (BitVec 8)) (i : Nat) : Prop :=
  ∀ (c : Config) (b : BitVec 8), c.Holds inp.length → c.Has 0 (op ++ [b]) → (op = [] → b.toNat ≤ 17) →
    c.Comes (.literal, ⟨op.length, inp.take i⟩)

/-- If a code comes after `op`, then the decompressor gets to it and has the first `i` bytes. -/
def Arrives (inp op : List (BitVec 8)) (i : Nat) : Prop :=
  ∀ (c : Config) (first second : BitVec 8), c.Holds inp.length → c.Has 0 (op ++ [first, second]) →
    16 ≤ first.toNat → (op = [] → first.toNat ≤ 17) →
    c.Comes (.code first.toNat, ⟨op.length + 1, inp.take i⟩)

section Written

variable {inp op : List (BitVec 8)} {i k : Nat}

theorem ready_nil : Ready inp [] 0 := by
  intro c b hholds hhas hsmall
  refine .start ?_
  unfold Config.start
  rw [hhas.read, pure_bind, if_neg (Nat.not_lt.mpr (hsmall rfl))]
  rfl

theorem Matched.ready (h : Matched inp op i) : Ready inp op i := by
  obtain ⟨pre, b₀, b₁, rfl, hlow, hcomes⟩ := h
  intro c b hholds hhas _
  have hpre : c.Has 0 (pre ++ [b₀ ||| lzoByte 0, b₁]) := by
    rw [or_lzoByte_zero]
    exact hhas.left
  have hread : c.read pre.length = pure b₀.toNat := by
    have hb₀ := hhas.left.right.read
    rwa [Nat.zero_add] at hb₀
  have hzero : b₀.toNat &&& 3 = 0 := by
    rw [Nat.and_two_pow_sub_one_eq_mod _ 2]
    exact hlow
  have hlength : (pre ++ [b₀, b₁]).length = pre.length + 2 := List.length_append
  refine (hcomes c 0 hholds (by decide) hpre).step ?_
  rw [Config.step]
  simp only
  rw [Nat.add_sub_cancel, hread, pure_bind, if_pos hzero, hlength]

theorem Ready.arrives (h : Ready inp op i) : Arrives inp op i := by
  intro c first second hholds hhas hcode hsmall
  have hsplit : op ++ [first, second] = op ++ [first] ++ [second] := by
    rw [List.append_assoc, List.singleton_append]
  have hfirst := hhas.right
  rw [Nat.zero_add] at hfirst
  rw [hsplit] at hhas
  refine (h c first hholds hhas.left hsmall).step ?_
  rw [Config.step, if_neg]
  · rw [hfirst.read, pure_bind]
    simp only
    rw [if_pos hcode]
  · rintro ⟨-, hend⟩
    rw [hholds.inLen] at hend
    exact hend (Nat.lt_of_le_of_lt (Nat.le_add_right _ _) hfirst.lt)

/-- A run of at least four literals. -/
theorem Ready.literals {l : Nat} {lens : List (BitVec 8)} (h : Ready inp op i)
    (hcounted : Counted 15 l lens (k - 3)) (hl : l < 16) (hk : 4 ≤ k) (hle : i + k ≤ inp.length) :
    Arrives inp (op ++ (lzoByte l :: lens) ++ (inp.drop i).take k) (i + k) := by
  intro c first second hholds hhas hcode _
  have hlength := length_literals hle
  have hsized := hholds.sized.output
  have hout := hholds.outLen
  have hbyte : (lzoByte l).toNat = l := toNat_lzoByte_of_lt (by omega)
  -- the parts of the input, one after the other
  rw [List.append_assoc, List.append_assoc, List.cons_append] at hhas
  have hrun := hhas.right
  rw [Nat.zero_add] at hrun
  have hlens := hrun.tail
  have hlits := hlens.right
  have hfirst : c.Has (op.length + 1 + lens.length) ((inp.drop i).take k ++ [first]) := by
    have hsplit : (inp.drop i).take k ++ [first, second] = (inp.drop i).take k ++ [first] ++ [second] := by
      rw [List.append_assoc, List.singleton_append]
    rw [hsplit] at hlits
    exact hlits.left
  have hlast := hfirst.right
  rw [hlength] at hlast
  have hready : c.Comes (.literal, ⟨op.length, inp.take i⟩) := by
    refine h c (lzoByte l) hholds ?_ fun _ => by omega
    have hsplit : ∀ rest : List (BitVec 8), op ++ lzoByte l :: rest = op ++ [lzoByte l] ++ rest := by
      intro rest
      rw [List.append_assoc, List.singleton_append]
    rw [hsplit] at hhas
    exact hhas.left
  have hthree : k - 3 + 3 = k := by omega
  have hfour : k - 3 + 4 = k + 1 := by omega
  have hruns : c.Comes (.firstLiteralRun, ⟨op.length + 1 + lens.length + k, inp.take (i + k)⟩) := by
    refine hready.step ?_
    rw [Config.step, if_neg]
    · rw [hrun.read, pure_bind, hbyte]
      simp only
      rw [if_neg (by omega), runLength_counted (s := ⟨op.length + 1, inp.take i⟩) hholds hcounted
        (by omega) hlens.left, pure_bind]
      simp only
      rw [hthree, hfour, needOp_literals hholds hle, pure_bind, needIp_literals hholds hle hfirst,
        pure_bind, Config.positive, if_pos (by omega), pure_bind, copyLiterals_literals hholds hle hfirst,
        pure_bind]
    · rintro ⟨-, hend⟩
      rw [hholds.inLen] at hend
      exact hend (Nat.lt_of_le_of_lt (Nat.le_add_right _ _) hrun.lt)
  have hcomes := hruns.code hlast hcode
  have hsum : (op ++ lzoByte l :: (lens ++ (inp.drop i).take k)).length = op.length + 1 + lens.length + k := by
    rw [List.length_append, List.length_cons, List.length_append, hlength]
    omega
  rwa [List.append_assoc, List.cons_append, hsum]

/-- Up to three literals are counted in the match before them. -/
theorem Matched.few (h : Matched inp op i) (hk : 0 < k) (hfew : k ≤ 3) (hle : i + k ≤ inp.length) :
    ∃ op', orBack k op = some op' ∧ op'.length = op.length ∧
      Arrives inp (op' ++ (inp.drop i).take k) (i + k) := by
  obtain ⟨pre, b₀, b₁, rfl, hlow, hcomes⟩ := h
  refine ⟨_, orBack_eq pre, by simp, ?_⟩
  intro c first second hholds hhas _ _
  rw [List.append_assoc] at hhas
  have hlits := hhas.right
  have hread := hhas.left.right.read
  have htwo : (pre ++ [b₀ ||| lzoByte k, b₁]).length = pre.length + 2 := List.length_append
  rw [Nat.zero_add, htwo] at hlits
  rw [Nat.zero_add, toNat_or_lzoByte hlow (by omega)] at hread
  have hcount : b₀.toNat + k &&& 3 = k := by
    rw [Nat.and_two_pow_sub_one_eq_mod _ 2]
    omega
  have hnext : c.Comes (.matchNext k, ⟨pre.length + 2, inp.take i⟩) := by
    refine (hcomes c k hholds (by omega) hhas.left).step ?_
    rw [Config.step]
    simp only
    rw [Nat.add_sub_cancel, hread, pure_bind, hcount, if_neg (by omega)]
  have hcode := hnext.few hholds hk hle hlits
  rwa [List.length_append, htwo, length_literals hle]

/-- Up to 238 literals at the start. -/
theorem arrives_start (hk : 0 < k) (hsmall : k ≤ 238) (hle : k ≤ inp.length) :
    Arrives inp ([lzoByte (17 + k)] ++ inp.take k) k := by
  intro c first second hholds hhas hcode _
  have hbyte : (lzoByte (17 + k)).toNat = 17 + k := toNat_lzoByte_of_lt (by omega)
  have hstart : 0 + k ≤ inp.length := by omega
  have hlength := length_literals hstart
  have hsub : 17 + k - 17 = k := Nat.add_sub_cancel_left _ _
  rw [List.append_assoc] at hhas
  have hlits : c.Has 1 ((inp.drop 0).take k ++ [first, second]) := hhas.right
  have hsum : ([lzoByte (17 + k)] ++ (inp.drop 0).take k).length = 1 + k := by
    rw [List.length_append, hlength, List.length_singleton]
  have hgoal : c.Comes (.code first.toNat, ⟨1 + k + 1, inp.take (0 + k)⟩) := by
    by_cases hfew : k < 4
    · have hnext : c.Comes (.matchNext k, ⟨1, inp.take 0⟩) := by
        refine .start ?_
        unfold Config.start
        rw [hhas.read, pure_bind, hbyte, if_pos (by omega), hsub, if_pos hfew]
        rfl
      exact hnext.few hholds hk hstart hlits
    · have hsplit : (inp.drop 0).take k ++ [first, second] = (inp.drop 0).take k ++ [first] ++ [second] := by
        rw [List.append_assoc, List.singleton_append]
      rw [hsplit] at hlits
      have hlast := hlits.left.right
      rw [hlength] at hlast
      have hrun : c.Comes (.firstLiteralRun, ⟨1 + k, inp.take (0 + k)⟩) := by
        have hop : c.needOp k ⟨1, inp.take 0⟩ = pure () := needOp_literals hholds hstart
        have hip := needIp_literals hholds hstart hlits.left
        have hcopy := copyLiterals_literals hholds hstart hlits.left
        rw [List.take_zero] at hop hip hcopy
        refine .start ?_
        unfold Config.start Config.positive
        rw [hhas.read, pure_bind, hbyte, if_pos (by omega), hsub, if_neg hfew, hop, pure_bind, hip,
          pure_bind, if_pos hk, pure_bind, hcopy, pure_bind]
      exact hrun.code hlast hcode
  rw [List.drop_zero] at hsum
  rw [Nat.zero_add] at hgoal
  rwa [hsum]

/-- A match whose bytes have been compared. -/
theorem Arrives.matched {pre : List (BitVec 8)} {b₀ b₁ : BitVec 8} {off len : Nat} (h : Arrives inp op i)
    (hne : op ≠ []) (hencodes : Encodes pre b₀ b₁ off len) (hpos : 0 < off) (hoff : off ≤ i)
    (hle : i + len ≤ inp.length) (heq : ∀ k < len, inp[i + k - off]? = inp[i + k]?) :
    Matched inp (op ++ (pre ++ [b₀, b₁])) (i + len) := by
  refine ⟨op ++ pre, b₀, b₁, (List.append_assoc _ _ _).symm, hencodes.low, fun c t hholds ht hhas => ?_⟩
  have hlength : (inp.take i).length = i := by
    rw [List.length_take]
    omega
  rw [List.append_assoc] at hhas
  have hcode := hhas.right
  rw [Nat.zero_add] at hcode
  obtain ⟨first, second, rest, hcons, hfirst, hstep⟩ :=
    hencodes.decodes c inp.length t ⟨op.length, inp.take i⟩ hholds ht hcode (by simp only; omega)
      (by simp only; omega)
  have hnext : c.Has 0 (op ++ [first, second]) := by
    rw [hcons, ← List.singleton_append, ← List.singleton_append (l := rest), ← List.append_assoc,
      ← List.append_assoc] at hhas
    rw [← List.singleton_append, ← List.append_assoc]
    exact hhas.left
  have hcomes := h c first second hholds hnext hfirst fun hnil => absurd hnil hne
  have hsum : (op ++ pre).length = op.length + pre.length := List.length_append
  refine hcomes.step ?_
  rw [Config.step, hstep, copyBack_take hpos hoff hle heq, hsum]

end Written

end JxCore.Lzo
