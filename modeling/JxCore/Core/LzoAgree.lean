import JxCore.Core.LzoSafety
import Mathlib.Data.Nat.Basic
import Mathlib.Order.Basic

/-!
# The two decompressors (`core/minilzo.c`)

The tests of `lzo1x_decompress_safe` do not change what is decompressed. What it accepts is accepted by
`lzo1x_decompress`, with the same result, and whatever stands in front of the output. The other way round
it is so for an output that fits into the buffer and never goes back to what stands in front of it:
whoever accepts has read no further than to the end of the input and has not written more than the
result, and so the tests have passed.
-/

namespace JxCore.Lzo

open Lib.Lz

/-- The same call of the other decompressor, with other memory around its output. -/
def Config.with (c : Config) (safe : Bool) (before : List (BitVec 8)) (room : Nat) : Config :=
  { c with safe, before, room }

/-- The buffers are in the address space. -/
structure Config.Sized (c : Config) : Prop where
  input : c.inLen < 2 ^ 32
  output : c.outLen < 2 ^ 32

/-- The call does not go back to what stands in front of the output. -/
def Config.Strict (c : Config) : Prop := c.safe = true ∨ c.before = []

/-- An output of `limit` bytes has its place, and the buffer is as large if it is looked at. -/
structure Admits (c : Config) (safe : Bool) (room limit : Nat) : Prop where
  room : limit ≤ room
  tested : safe = true → limit ≤ c.outLen

/-- If `x` goes on and has come no further than to the end of the input and to `limit` bytes of output, or
if it accepts with so many, then `x'` does the same; `x` begins at `n`, and `pos` is where it has come
to. -/
structure Agrees {α : Type} (c : Config) (limit : Nat) (n : Nat × Nat) (pos : α → Nat × Nat)
    (x x' : Except Exit α) : Prop where
  goes : ∀ a, x = .ok a → n ≤ pos a ∧ (pos a ≤ (c.inLen, limit) → x' = .ok a)
  accepts : ∀ op, x = .error (.returned .ok op) →
    n ≤ (c.inLen, op.length) ∧ (op.length ≤ limit → x' = .error (.returned .ok op))

/-- Where a state is in the input and in the output. -/
def St.at (s : St) : Nat × Nat := (s.ip, s.op.length)

section Agree

variable {α β : Type} {c : Config} {safe : Bool} {before : List (BitVec 8)} {room limit : Nat} {s : St}
  {m t base dist : Nat} {n k : Nat × Nat} {pos : β → Nat × Nat} {g g' : α → Except Exit β}
  {y y' : Except Exit β}

theorem bind_eq_error {x : Except Exit α} {e : Exit} (h : x >>= g = .error e) :
    x = .error e ∨ ∃ a, x = .ok a ∧ g a = .error e := by
  cases x with
  | error e' =>
    obtain rfl := Except.error.inj h
    exact .inl rfl
  | ok a => exact .inr ⟨a, rfl, h⟩

theorem Agrees.pure {b : β} (h : n ≤ pos b) : Agrees c limit n pos (pure b) (pure b) where
  goes := by
    rintro b' hb'
    cases hb'
    exact ⟨h, fun _ => rfl⟩
  accepts := nofun

theorem Agrees.mono (hle : n ≤ k) (h : Agrees c limit k pos y y') : Agrees c limit n pos y y' where
  goes b hb := ⟨le_trans hle (h.goes b hb).1, (h.goes b hb).2⟩
  accepts op hop := ⟨le_trans hle (h.accepts op hop).1, (h.accepts op hop).2⟩

/-- What is to come may be counted in. -/
theorem Agrees.later {pos' : β → Nat × Nat} (h : Agrees c limit n pos y y')
    (hle : ∀ b, pos b ≤ pos' b) : Agrees c limit n pos' y y' where
  goes b hb := by
    obtain ⟨hn, hsame⟩ := h.goes b hb
    exact ⟨le_trans hn (hle b), fun hin => hsame (le_trans (hle b) hin)⟩
  accepts := h.accepts

theorem Agrees.bind {x x' : Except Exit α} {pos' : α → Nat × Nat} (hx : Agrees c limit n pos' x x')
    (hg : ∀ a, x = .ok a → Agrees c limit (pos' a) pos (g a) (g' a)) :
    Agrees c limit n pos (x >>= g) (x' >>= g') where
  goes b hb := by
    obtain ⟨a, ha, hb⟩ := bind_eq_ok.mp hb
    obtain ⟨hle, hsame⟩ := hx.goes a ha
    obtain ⟨hle', hsame'⟩ := (hg a ha).goes b hb
    refine ⟨le_trans hle hle', fun hin => ?_⟩
    rw [hsame (le_trans hle' hin)]
    exact hsame' hin
  accepts op hop := by
    rcases bind_eq_error hop with hstop | ⟨a, ha, hstop⟩
    · obtain ⟨hle, hsame⟩ := hx.accepts op hstop
      refine ⟨hle, fun hfits => ?_⟩
      rw [hsame hfits]
      rfl
    · obtain ⟨hle, hsame⟩ := hx.goes a ha
      obtain ⟨hle', hsame'⟩ := (hg a ha).accepts op hstop
      refine ⟨le_trans hle hle', fun hfits => ?_⟩
      rw [hsame (le_trans hle' (Prod.mk_le_mk.mpr ⟨le_refl _, hfits⟩))]
      exact hsame' hfits

/-- What stops without accepting says nothing about the other call. -/
theorem Agrees.stops {e : Exit} (he : ∀ op, e ≠ .returned .ok op) :
    Agrees c limit n pos (.error e) y' where
  goes := nofun
  accepts op h := absurd (Except.error.inj h) (he op)

/-- A part that is the same in both, and does not accept. -/
theorem Agrees.after {x : Except Exit α} (hx : ∀ op, x ≠ .error (.returned .ok op))
    (hg : ∀ a, x = .ok a → Agrees c limit n pos (g a) (g' a)) :
    Agrees c limit n pos (x >>= g) (x >>= g') where
  goes b hb := by
    obtain ⟨a, ha, hb⟩ := bind_eq_ok.mp hb
    obtain ⟨hle, hsame⟩ := (hg a ha).goes b hb
    refine ⟨hle, fun hin => ?_⟩
    rw [ha]
    exact hsame hin
  accepts op hop := by
    rcases bind_eq_error hop with hstop | ⟨a, ha, hstop⟩
    · exact absurd hstop (hx op)
    · rw [ha]
      exact (hg a ha).accepts op hstop

/-- A test that does not accept, and that passes in the other call too if what comes after it ends within
the limits. -/
theorem Agrees.test {x x' : Except Exit Unit} (hx : ∀ op, x ≠ .error (.returned .ok op))
    (hpass : k ≤ (c.inLen, limit) → x' = .ok ()) (hn : n ≤ k) (hg : Agrees c limit k pos y y') :
    Agrees c limit n pos (x >>= fun _ => y) (x' >>= fun _ => y') where
  goes b hb := by
    obtain ⟨_, -, hb⟩ := bind_eq_ok.mp hb
    obtain ⟨hle, hsame⟩ := hg.goes b hb
    refine ⟨le_trans hn hle, fun hin => ?_⟩
    rw [hpass (le_trans hle hin)]
    exact hsame hin
  accepts op hop := by
    rcases bind_eq_error hop with hstop | ⟨_, -, hstop⟩
    · exact absurd hstop (hx op)
    · obtain ⟨hle, hsame⟩ := hg.accepts op hstop
      refine ⟨le_trans hn hle, fun hfits => ?_⟩
      rw [hpass (le_trans hle (Prod.mk_le_mk.mpr ⟨le_refl _, hfits⟩))]
      exact hsame hfits

/-! ## Tests that pass -/

theorem needIp_ok (h : c.Sized) (hle : s.ip + m ≤ c.inLen) : c.needIp m s = Pure.pure () := by
  have hin := h.input
  unfold Config.needIp
  rw [if_neg]
  rintro ⟨-, hlt⟩
  have hm : u4 m = m := u4_of_lt (by omega)
  rw [u4sub_of_le (by omega) hin, hm] at hlt
  omega

theorem needOp_ok (h : c.Sized) (hle : c.safe = true → s.op.length + m ≤ c.outLen) :
    c.needOp m s = Pure.pure () := by
  have hout := h.output
  unfold Config.needOp
  rw [if_neg]
  rintro ⟨hsafe, hlt⟩
  have hroom := hle hsafe
  have hm : u4 m = m := u4_of_lt (by omega)
  rw [u4sub_of_le (by omega) hout, hm] at hlt
  omega

theorem needIp_refuses (op : List (BitVec 8)) : c.needIp m s ≠ .error (.returned .ok op) := by
  unfold Config.needIp
  split
  · nofun
  · nofun

theorem needOp_refuses (op : List (BitVec 8)) : c.needOp m s ≠ .error (.returned .ok op) := by
  unfold Config.needOp
  split
  · nofun
  · nofun

theorem read_refuses {ip : Nat} (op : List (BitVec 8)) : c.read ip ≠ .error (.returned .ok op) := by
  unfold Config.read
  split
  · nofun
  · nofun

theorem positive_refuses (op : List (BitVec 8)) : Config.positive t ≠ .error (.returned .ok op) := by
  unfold Config.positive
  split
  · nofun
  · nofun

/-- What comes after the test reads what the test asks for. -/
theorem Agrees.needIp (hsized : c.Sized) (hn : n ≤ (s.ip + m, k.2))
    (hg : Agrees c limit (s.ip + m, k.2) pos y y') :
    Agrees c limit n pos (c.needIp m s >>= fun _ => y)
      ((c.with safe before room).needIp m s >>= fun _ => y') := by
  refine .test needIp_refuses (fun hle => ?_) hn hg
  exact needIp_ok (c := c.with safe before room) ⟨hsized.input, hsized.output⟩ hle.1

/-- What comes after the test writes what the test asks for. -/
theorem Agrees.needOp (hsized : c.Sized) (hadmits : Admits c safe room limit)
    (hn : n ≤ (k.1, s.op.length + m)) (hg : Agrees c limit (k.1, s.op.length + m) pos y y') :
    Agrees c limit n pos (c.needOp m s >>= fun _ => y)
      ((c.with safe before room).needOp m s >>= fun _ => y') := by
  refine .test needOp_refuses (fun hle => ?_) hn hg
  exact needOp_ok (c := c.with safe before room) ⟨hsized.input, hsized.output⟩
    fun hsafe => le_trans hle.2 (hadmits.tested hsafe)

/-! ## Copies -/

/-- The place for what has been written. -/
theorem put_agrees (hadmits : Admits c safe room limit) {op : List (BitVec 8)} {ip : Nat} :
    Agrees c limit (ip, op.length) (fun op => (ip, op.length)) (c.put op)
      ((c.with safe before room).put op) where
  goes op' hop := by
    unfold Config.put at hop ⊢
    split at hop
    · cases hop
      exact ⟨le_refl _, fun hle => if_pos (le_trans hle.2 hadmits.room)⟩
    · cases hop
  accepts op' hop := by
    unfold Config.put at hop
    split at hop <;> cases hop

/-- Literals, and a byte that comes after them. -/
theorem copyLiterals_agrees (hadmits : Admits c safe room limit) :
    Agrees c limit (s.ip + (m + 1), s.op.length + m) (fun s' => (s'.ip + 1, s'.op.length))
      (c.copyLiterals m s) ((c.with safe before room).copyLiterals m s) := by
  have hsame : (c.with safe before room).copyLiterals m s =
      if s.ip + m ≤ c.mem.length then do
        let op ← (c.with safe before room).put (s.op ++ (c.mem.drop s.ip).take m)
        Pure.pure ⟨s.ip + m, op⟩
      else throw .outside := rfl
  rw [hsame]
  unfold Config.copyLiterals
  split
  · next hip =>
    have hlength : (s.op ++ (c.mem.drop s.ip).take m).length = s.op.length + m := by
      rw [List.length_append, List.length_take, List.length_drop]
      omega
    rw [← hlength]
    exact (put_agrees hadmits).bind fun op _ => .pure (le_refl _)
  · exact .stops nofun

/-- A match that the one call makes within its output is made by the other one too. -/
theorem copyMatch_agrees (hsized : c.Sized) (hstrict : c.Strict) (hadmits : Admits c safe room limit)
    {copy : List (BitVec 8) → List (BitVec 8)} (hpos : 0 < dist) (hcopy : Repeats dist m copy) :
    Agrees c limit s.at (fun z : Label × St => z.2.at) (c.copyMatch dist m t copy s)
      ((c.with safe before room).copyMatch dist m t copy s) := by
  by_cases hfar : s.op.length < dist
  · -- the one call stops here
    have hstop : ∃ e, c.testLookbehind dist s = .error e ∧ ∀ op, e ≠ .returned .ok op := by
      unfold Config.testLookbehind
      rcases hstrict with hsafe | hbefore
      · rw [if_pos ⟨hsafe, hfar⟩]
        exact ⟨_, rfl, nofun⟩
      · split
        · exact ⟨_, rfl, nofun⟩
        · rw [if_pos (by rw [hbefore, List.length_nil, Nat.zero_add]; exact hfar)]
          exact ⟨_, rfl, nofun⟩
    obtain ⟨e, hlook, he⟩ := hstop
    unfold Config.copyMatch
    rw [hlook]
    exact .stops he
  · have hnear := Nat.not_lt.mp hfar
    have hlook (c' : Config) : c'.testLookbehind dist s = Pure.pure () := by
      unfold Config.testLookbehind
      rw [if_neg fun h => absurd h.2 hfar, if_neg (by omega)]
    have hlength := length_copyBack (n := m) hpos hnear
    unfold Config.copyMatch
    rw [hlook, hlook, pure_bind, pure_bind, hcopy.drop hnear, hcopy.drop hnear]
    refine .needOp (k := s.at) hsized hadmits ⟨le_refl _, Nat.le_add_right _ _⟩ ?_
    refine .after positive_refuses fun _ _ => ?_
    rw [← hlength]
    exact (put_agrees hadmits).bind fun op _ => .pure (le_refl _)

/-! ## Runs -/

theorem zeroRun_agrees (hsized : c.Sized) {rest : List (BitVec 8)} :
    Agrees c limit (s.ip + 1, s.op.length) (fun z : Nat × St => z.2.at) (c.zeroRun base rest t s)
      ((c.with safe before room).zeroRun base rest t s) := by
  induction rest generalizing t s with
  | nil => exact .stops nofun
  | cons b rest ih =>
    unfold Config.zeroRun
    split
    · exact .needIp (s := ⟨s.ip + 1, s.op⟩) (k := s.at) hsized ⟨Nat.le_succ _, le_refl _⟩ ih
    · exact .pure (le_refl _)

/-- A byte comes after the length. -/
theorem runLength_agrees (hsized : c.Sized) :
    Agrees c limit (s.ip + 1, s.op.length) (fun z : Nat × St => (z.2.ip + 1, z.2.op.length))
      (c.runLength base t s) ((c.with safe before room).runLength base t s) := by
  unfold Config.runLength
  split
  · exact .needIp (k := s.at) hsized (le_refl _)
      ((zeroRun_agrees hsized).later fun _ => ⟨Nat.le_succ _, le_refl _⟩)
  · exact .pure (le_refl _)

/-! ## Steps -/

/-- Where a label is, and the byte that is read there. -/
def ahead (z : Label × St) : Nat × Nat := (z.2.ip + 1, z.2.op.length)

theorem at_le_ahead (z : Label × St) : z.2.at ≤ ahead z := ⟨Nat.le_succ _, le_refl _⟩

theorem stepCode_agrees (hsized : c.Sized) (hstrict : c.Strict) (hadmits : Admits c safe room limit) :
    Agrees c limit (s.ip + 1, s.op.length) ahead (c.stepCode t s)
      ((c.with safe before room).stepCode t s) := by
  unfold Config.stepCode
  split
  · refine .after read_refuses fun b _ => ?_
    exact (copyMatch_agrees (s := ⟨s.ip + 1, s.op⟩) hsized hstrict hadmits (by omega)
      repeats_copyBack).later at_le_ahead
  split
  · refine (runLength_agrees hsized).bind fun z _ => ?_
    refine .after read_refuses fun b₀ _ => .after read_refuses fun b₁ _ => ?_
    refine ((copyMatch_agrees (s := ⟨z.2.ip + 2, z.2.op⟩) hsized hstrict hadmits (by omega)
      (repeats_copyLong (by omega))).later at_le_ahead).mono ?_
    exact ⟨Nat.le_succ _, le_refl _⟩
  split
  · refine (runLength_agrees hsized).bind fun z _ => ?_
    refine .after read_refuses fun b₀ _ => .after read_refuses fun b₁ _ => ?_
    simp only
    split
    · refine ⟨fun _ h => (by cases h), fun op h => ?_⟩
      -- the input is accepted if its end has been reached
      have hcode := Except.error.inj h
      split at hcode
      · next hend =>
        obtain rfl : z.2.op = op := (Exit.returned.inj hcode).2
        exact ⟨⟨by show z.2.ip + 1 ≤ c.inLen; omega, le_refl _⟩, fun _ => h⟩
      · split at hcode
        · cases hcode
        · cases hcode
    · refine ((copyMatch_agrees (s := ⟨z.2.ip + 2, z.2.op⟩) hsized hstrict hadmits (by omega)
        (repeats_copyLong (by omega))).later at_le_ahead).mono ?_
      exact ⟨Nat.le_succ _, le_refl _⟩
  · refine .after read_refuses fun b _ => ?_
    exact (copyMatch_agrees (s := ⟨s.ip + 1, s.op⟩) hsized hstrict hadmits (by omega)
      repeats_copyBack).later at_le_ahead

/-- The test of the outer loop. -/
theorem Agrees.testIp {y y' : Except Exit (Label × St)} {pos : Label × St → Nat × Nat}
    (hg : Agrees c limit (s.ip + 1, s.op.length) pos y y') :
    Agrees c limit (s.ip + 1, s.op.length) pos
      (if c.safe ∧ ¬ s.ip < c.inLen then throw (.returned .eofNotFound s.op) else y)
      (if safe ∧ ¬ s.ip < c.inLen then throw (.returned .eofNotFound s.op) else y') := by
  have hpass {k : Nat} (hle : (s.ip + 1, s.op.length) ≤ (c.inLen, k)) :
      ¬ (safe = true ∧ ¬ s.ip < c.inLen) := fun h => h.2 hle.1
  split
  · exact .stops nofun
  constructor
  · intro b hb
    obtain ⟨hn, hsame⟩ := hg.goes b hb
    refine ⟨hn, fun hin => ?_⟩
    rw [if_neg (hpass (le_trans hn hin))]
    exact hsame hin
  · intro op hop
    obtain ⟨hn, hsame⟩ := hg.accepts op hop
    refine ⟨hn, fun hfits => ?_⟩
    rw [if_neg (hpass hn)]
    exact hsame hfits

/-- Literals that are copied after the tests, and a byte that comes after them. -/
theorem Agrees.literals {g g' : St → Except Exit (Label × St)} {pos : Label × St → Nat × Nat}
    (hsized : c.Sized) (hadmits : Admits c safe room limit)
    (hn : n ≤ (s.ip + (m + 1), s.op.length + m))
    (hg : ∀ s', Agrees c limit (s'.ip + 1, s'.op.length) pos (g s') (g' s')) :
    Agrees c limit n pos
      (do c.needOp m s; c.needIp (m + 1) s; Config.positive t; let s ← c.copyLiterals m s; g s)
      (do (c.with safe before room).needOp m s; (c.with safe before room).needIp (m + 1) s
          Config.positive t
          let s ← (c.with safe before room).copyLiterals m s; g' s) := by
  refine .needOp (k := (s.ip + (m + 1), 0)) hsized hadmits hn ?_
  refine .needIp (k := (0, s.op.length + m)) hsized (le_refl _) ?_
  exact .after positive_refuses fun _ _ => (copyLiterals_agrees hadmits).bind fun s' _ => hg s'

theorem step_agrees (hsized : c.Sized) (hstrict : c.Strict) (hadmits : Admits c safe room limit)
    (l : Label) : Agrees c limit (s.ip + 1, s.op.length) ahead (c.step l s)
      ((c.with safe before room).step l s) := by
  cases l with
  | literal =>
    rw [Config.step, Config.step]
    refine .testIp (.after read_refuses fun t _ => ?_)
    simp only
    split
    · exact .pure ⟨Nat.le_succ _, le_refl _⟩
    · refine .mono (k := (s.ip + 2, s.op.length)) ⟨Nat.le_succ _, le_refl _⟩
        ((runLength_agrees (s := ⟨s.ip + 1, s.op⟩) hsized).bind fun z _ => ?_)
      refine .literals hsized hadmits (Prod.mk_le_mk.mpr ⟨by omega, by omega⟩) fun s' => ?_
      exact .pure (le_refl _)
  | firstLiteralRun =>
    rw [Config.step, Config.step]
    refine .after read_refuses fun t _ => ?_
    simp only
    split
    · exact .pure ⟨Nat.le_succ _, le_refl _⟩
    · refine .after read_refuses fun b _ => ?_
      refine ((copyMatch_agrees (s := ⟨s.ip + 2, s.op⟩) hsized hstrict hadmits (by omega)
        repeats_copyBack).later at_le_ahead).mono ?_
      exact ⟨Nat.le_succ _, le_refl _⟩
  | code t => exact stepCode_agrees hsized hstrict hadmits
  | matchDone =>
    rw [Config.step, Config.step]
    refine .after read_refuses fun b _ => ?_
    split
    · exact .pure (le_refl _)
    · exact .pure (le_refl _)
  | matchNext t =>
    rw [Config.step, Config.step]
    refine .literals hsized hadmits (Prod.mk_le_mk.mpr ⟨by omega, by omega⟩) fun s' => ?_
    refine .after read_refuses fun t' _ => ?_
    simp only
    refine ⟨fun z hz => ?_, fun op h => ?_⟩
    · split at hz
      · next htest =>
        cases hz
        exact ⟨⟨Nat.le_succ _, le_refl _⟩, fun hin => absurd hin.1 htest.2⟩
      · cases hz
        refine ⟨⟨Nat.le_succ _, le_refl _⟩, fun hin => ?_⟩
        -- with one more byte to read, neither leaves the inner loop
        exact if_neg fun htest => htest.2 hin.1
    · split at h <;> cases h

theorem start_agrees (hsized : c.Sized) (hadmits : Admits c safe room limit) :
    Agrees c limit (0, 0) ahead c.start (c.with safe before room).start := by
  unfold Config.start
  refine .after read_refuses fun t _ => ?_
  split
  · split
    · exact .pure ⟨Nat.zero_le _, Nat.zero_le _⟩
    · refine .literals (s := ⟨1, []⟩) hsized hadmits ⟨Nat.zero_le _, Nat.zero_le _⟩ fun s' => ?_
      exact .pure (le_refl _)
  · exact .pure ⟨Nat.zero_le _, Nat.zero_le _⟩

/-! ## Runs of the machine -/

theorem run_agrees (hsized : c.Sized) (hstrict : c.Strict) (hadmits : Admits c safe room limit)
    {x : Label × St} {fuel : Nat} {op : List (BitVec 8)} (hfits : op.length ≤ limit)
    (h : c.run fuel x = some (.returned .ok op)) :
    ahead x ≤ (c.inLen, op.length) ∧
      (c.with safe before room).run fuel x = some (.returned .ok op) := by
  induction fuel generalizing x with
  | zero => cases h
  | succ fuel ih =>
    have hstep : Agrees c limit (ahead x) ahead (c.step x.1 x.2)
        ((c.with safe before room).step x.1 x.2) := step_agrees hsized hstrict hadmits x.1
    rw [Config.run] at h ⊢
    cases hnext : c.step x.1 x.2 with
    | ok y =>
      rw [hnext] at h
      obtain ⟨hin, hsame⟩ := ih h
      obtain ⟨hle, hstep⟩ := hstep.goes y hnext
      rw [hstep (le_trans hin (Prod.mk_le_mk.mpr ⟨le_refl _, hfits⟩))]
      exact ⟨le_trans hle hin, hsame⟩
    | error e =>
      rw [hnext] at h
      obtain rfl := Option.some.inj h
      obtain ⟨hle, hstep⟩ := hstep.accepts op hnext
      rw [hstep hfits]
      exact ⟨hle, rfl⟩

/-- What one decompressor accepts without going back to what stands in front of its output, the other one
accepts too, and the results are the same. -/
theorem decompress_with (hsized : c.Sized) (hstrict : c.Strict) (hadmits : Admits c safe room limit)
    {fuel : Nat} {op : List (BitVec 8)} (hfits : op.length ≤ limit)
    (h : c.decompress fuel = some (.returned .ok op)) :
    (c.with safe before room).decompress fuel = some (.returned .ok op) := by
  have hstart : Agrees c limit (0, 0) ahead c.start (c.with safe before room).start :=
    start_agrees hsized hadmits
  unfold Config.decompress at h ⊢
  cases hfirst : c.start with
  | ok x =>
    rw [hfirst] at h
    obtain ⟨hin, hsame⟩ : ahead x ≤ (c.inLen, op.length) ∧
        (c.with safe before room).run fuel x = some (.returned .ok op) :=
      run_agrees hsized hstrict hadmits hfits h
    rw [(hstart.goes x hfirst).2 (le_trans hin (Prod.mk_le_mk.mpr ⟨le_refl _, hfits⟩))]
    exact hsame
  | error e =>
    rw [hfirst] at h
    obtain rfl := Option.some.inj h
    rw [(hstart.accepts op hfirst).2 hfits]

/-- What the safe decompressor accepts, the unsafe one accepts with the same result, whatever stands in
front of its output. What the unsafe one accepts with nothing in front to go back to, and with no more
output than the buffer has room for, the safe one accepts too. -/
theorem decompress_agree {mem : List (BitVec 8)} {inLen outLen fuel : Nat} {op : List (BitVec 8)}
    (hin : inLen < 2 ^ 32) (hout : outLen < 2 ^ 32) :
    (∀ before room before' room', op.length ≤ room' →
      (⟨true, mem, inLen, outLen, before, room⟩ : Config).decompress fuel =
        some (.returned .ok op) →
      (⟨false, mem, inLen, outLen, before', room'⟩ : Config).decompress fuel =
        some (.returned .ok op)) ∧
    ∀ room before' room', op.length ≤ outLen → op.length ≤ room' →
      (⟨false, mem, inLen, outLen, [], room⟩ : Config).decompress fuel = some (.returned .ok op) →
      (⟨true, mem, inLen, outLen, before', room'⟩ : Config).decompress fuel =
        some (.returned .ok op) := by
  constructor
  · intro before room before' room' hroom h
    exact @decompress_with ⟨true, mem, inLen, outLen, before, room⟩ false before' room' op.length
      ⟨hin, hout⟩ (.inl rfl) ⟨hroom, nofun⟩ fuel op (le_refl _) h
  · intro room before' room' hfits hroom h
    exact @decompress_with ⟨false, mem, inLen, outLen, [], room⟩ true before' room' op.length
      ⟨hin, hout⟩ (.inr rfl) ⟨hroom, fun _ => hfits⟩ fuel op (le_refl _) h

/-- One literal. -/
theorem decompress_agree_literal :
    (⟨false, [0x12, 0x41, 0x11, 0, 0], 5, 8, [0x20, 0x21], 9⟩ : Config).decompress 20 =
      some (.returned .ok [0x41]) :=
  (decompress_agree (by decide) (by decide)).1 [] 8 _ _ (by decide) rfl

/-- A match that goes back to what stands in front of the output: only the safe decompressor looks. -/
example :
    (⟨false, [0x12, 0x41, 0x40, 0x01, 0x11, 0, 0], 7, 8, [1, 2, 3, 4, 5, 6, 7, 8], 8⟩ : Config).decompress
      20 = some (.returned .ok [0x41, 1, 2, 3]) ∧
    (⟨true, [0x12, 0x41, 0x40, 0x01, 0x11, 0, 0], 7, 8, [1, 2, 3, 4, 5, 6, 7, 8], 8⟩ : Config).decompress
      20 = some (.returned .lookbehindOverrun [0x41]) := by
  decide

end Agree

end JxCore.Lzo
