import JxCore.Interface.Memory

/-!
# The sandbox of the memory accessors

Every accessor is a test followed by an action that touches one run of bytes per memory. So each
case of `confined_iff_inRange` comes down to the same question: given that the test let the call
pass, does the run lie inside? `run_inside_iff` turns that into an inequality between numbers, and
the lemmas on `exceeds` say what a passed test means for it.
-/

namespace JxCore.Memory

open Lib Access

/-! ## Footprints of the routines -/

theorem footprint_discard {α : Type} {act : Acc α} {R W : Address → Prop}
    (h : Footprint act R W) : Footprint (discard act) R W :=
  (h.bind fun _ => Footprint.pure ()).congr (fun x => by simp) (fun x => by simp)

/-- An odd byte in front: the run of `n % 2` bytes. -/
theorem run_mod_two (a : Address) (n : Nat) (x : Address) :
    n % 2 = 1 ∧ Run a 1 x ↔ Run a (n % 2) x := by
  rcases Nat.mod_two_eq_zero_or_one n with h | h
  · simp [h, run_zero]
  · simp [h]

/-- An odd half-word in front: the run of `2 * (n % 2)` bytes. -/
theorem run_two_mod_two (a : Address) (n : Nat) (x : Address) :
    n % 2 = 1 ∧ Run a 2 x ↔ Run a (2 * (n % 2)) x := by
  rcases Nat.mod_two_eq_zero_or_one n with h | h
  · simp [h, run_zero]
  · simp [h]

/-- The parts of a run: an odd byte, an odd half-word, and words. -/
theorem run_split (a : Address) (n : Nat) (x : Address) :
    Run a n x ↔ Run a (n % 2) x ∨ Run (a + BitVec.ofNat 32 (n % 2)) (2 * (n / 2 % 2)) x ∨
      Run (a + BitVec.ofNat 32 (n % 2) + BitVec.ofNat 32 (2 * (n / 2 % 2))) (4 * (n / 4)) x := by
  have hn : n = n % 2 + (2 * (n / 2 % 2) + 4 * (n / 4)) := by omega
  conv_lhs => rw [hn]
  rw [run_add, run_add]

/-- The same parts from the other end. -/
theorem run_split_down (a : Address) (n : Nat) (x : Address) :
    Run a n x ↔ Run (a + BitVec.ofNat 32 (4 * (n / 4)) + BitVec.ofNat 32 (2 * (n / 2 % 2))) (n % 2) x ∨
      Run (a + BitVec.ofNat 32 (4 * (n / 4))) (2 * (n / 2 % 2)) x ∨ Run a (4 * (n / 4)) x := by
  have hn : n = 4 * (n / 4) + (2 * (n / 2 % 2) + n % 2) := by omega
  conv_lhs => rw [hn]
  rw [run_add, run_add]
  tauto

theorem footprint_jxwmemset (dst : Address) (value : BitVec 16) (nbytes : Jint) :
    Footprint (jxwmemset dst value nbytes) (fun _ => False) (Run dst nbytes.toNat) := by
  have hbyte : FootprintTo (optionally (nbytes.toNat % 2 = 1)
      (write8 dst (value.extractLsb' 0 8)) (dst + 1) dst) (dst + BitVec.ofNat 32 (nbytes.toNat % 2))
      _ _ :=
    (Footprint.write8 dst _).optional (fun h => by simp [h])
      (fun h => by simp [Nat.mod_two_ne_one.mp h])
  have hhalf : ∀ a : Address, FootprintTo (optionally (nbytes.toNat / 2 % 2 = 1) (write16 a value)
      (a + 2) a) (a + BitVec.ofNat 32 (2 * (nbytes.toNat / 2 % 2))) _ _ :=
    fun a => (Footprint.write16 a _).optional (fun h => by simp [h])
      (fun h => by simp [Nat.mod_two_ne_one.mp h])
  refine (Footprint.bindTo hbyte (Footprint.bindTo (hhalf _) (Footprint.repStosl _ _ _))).congr
    (fun x => by simp) fun x => ?_
  rw [run_split dst nbytes.toNat, run_mod_two, run_two_mod_two]

theorem footprint_moveUp (src dst : Address) (count : Jint) :
    Footprint (moveUp src dst count) (Run src count.toNat) (Run dst count.toNat) := by
  have hbyte : FootprintTo (optionally (count.toNat % 2 = 1) (movsb src dst : Acc Unit)
      (src + 1, dst + 1) (src, dst))
      (src + BitVec.ofNat 32 (count.toNat % 2), dst + BitVec.ofNat 32 (count.toNat % 2)) _ _ :=
    (Footprint.movsb src dst).optional (fun h => by simp [h])
      (fun h => by simp [Nat.mod_two_ne_one.mp h])
  have hhalf : ∀ a b : Address, FootprintTo (optionally (count.toNat / 2 % 2 = 1)
      (movsw a b : Acc Unit) (a + 2, b + 2) (a, b))
      (a + BitVec.ofNat 32 (2 * (count.toNat / 2 % 2)),
        b + BitVec.ofNat 32 (2 * (count.toNat / 2 % 2))) _ _ :=
    fun a b => (Footprint.movsw a b).optional (fun h => by simp [h])
      (fun h => by simp [Nat.mod_two_ne_one.mp h])
  refine (Footprint.bindTo hbyte (Footprint.bindTo (hhalf _ _) (Footprint.repMovsl _ _ _))).congr
    (fun x => ?_) (fun x => ?_)
  · rw [run_split src count.toNat, run_mod_two, run_two_mod_two]
  · rw [run_split dst count.toNat, run_mod_two, run_two_mod_two]

/-- The parts the downward branch touches make up the run from `a` on. -/
theorem run_down (a count x : Address) :
    (count.toNat % 2 = 1 ∧ Run (count - 4 + a + 3) 1 x) ∨
      (count.toNat / 2 % 2 = 1 ∧
        Run (count - 4 + a - BitVec.ofNat 32 (count.toNat % 2) + 2) 2 x) ∨
      Run (count - 4 + a - BitVec.ofNat 32 (count.toNat % 2) -
        BitVec.ofNat 32 (2 * (count.toNat / 2 % 2)) + 4 - BitVec.ofNat 32 (4 * (count.toNat / 4)))
        (4 * (count.toNat / 4)) x ↔ Run a count.toNat x := by
  have hcount : count = BitVec.ofNat 32 (4 * (count.toNat / 4)) +
      BitVec.ofNat 32 (2 * (count.toNat / 2 % 2)) + BitVec.ofNat 32 (count.toNat % 2) := by
    rw [← BitVec.ofNat_add, ← BitVec.ofNat_add,
      show 4 * (count.toNat / 4) + 2 * (count.toNat / 2 % 2) + count.toNat % 2 = count.toNat by omega,
      BitVec.ofNat_toNat, BitVec.setWidth_eq]
  rw [run_split_down a count.toNat]
  have hbit : count.toNat % 2 = 0 ∨ count.toNat % 2 = 1 := Nat.mod_two_eq_zero_or_one _
  have hhalf : count.toNat / 2 % 2 = 0 ∨ count.toNat / 2 % 2 = 1 := Nat.mod_two_eq_zero_or_one _
  generalize count.toNat / 4 = q, count.toNat / 2 % 2 = h, count.toNat % 2 = b at *
  refine or_congr ?_ (or_congr ?_ ?_)
  · rcases hbit with rfl | rfl
    · simp [run_zero]
    · rw [hcount, show BitVec.ofNat 32 1 = (1 : Address) from rfl, and_iff_right rfl]
      ring_nf
  · rcases hhalf with rfl | rfl
    · simp [run_zero]
    · rw [hcount, show BitVec.ofNat 32 (2 * 1) = (2 : Address) from rfl, and_iff_right rfl]
      ring_nf
  · rw [hcount]
    ring_nf

theorem footprint_moveDown (src dst : Address) (count : Jint) :
    Footprint (moveDown src dst count) (Run src count.toNat) (Run dst count.toNat) := by
  have hbyte : ∀ a b : Address, FootprintTo (optionally (count.toNat % 2 = 1)
      (movsb (a + 3) (b + 3) : Acc Unit) (a - 1, b - 1) (a, b))
      (a - BitVec.ofNat 32 (count.toNat % 2), b - BitVec.ofNat 32 (count.toNat % 2)) _ _ :=
    fun a b => (Footprint.movsb _ _).optional (fun h => by simp [h])
      (fun h => by simp [Nat.mod_two_ne_one.mp h])
  have hhalf : ∀ a b : Address, FootprintTo (optionally (count.toNat / 2 % 2 = 1)
      (movsw (a + 2) (b + 2) : Acc Unit) (a - 2, b - 2) (a, b))
      (a - BitVec.ofNat 32 (2 * (count.toNat / 2 % 2)),
        b - BitVec.ofNat 32 (2 * (count.toNat / 2 % 2))) _ _ :=
    fun a b => (Footprint.movsw _ _).optional (fun h => by simp [h])
      (fun h => by simp [Nat.mod_two_ne_one.mp h])
  exact (Footprint.bindTo (hbyte _ _) (Footprint.bindTo (hhalf _ _)
    (Footprint.repMovslDown _ _ _))).congr (fun x => run_down src count x)
    (fun x => run_down dst count x)

theorem footprint_widenLoop (n : Nat) (src dst : Address) :
    Footprint (widenLoop n src dst) (Run src n) (Run dst (4 * n)) := by
  induction n generalizing src dst with
  | zero =>
    exact (Footprint.pure ()).congr (fun x => by simp [run_zero]) (fun x => by simp [run_zero])
  | succ n ih =>
    refine ((Footprint.read8 src).bind fun _ => (Footprint.write32 dst _).bind fun _ =>
      ih (src + 1) (dst + 4)).congr (fun x => ?_) (fun x => ?_)
    · rw [Nat.add_comm n 1, run_add, false_or]
      exact Iff.rfl
    · rw [Nat.mul_succ, Nat.add_comm, run_add, false_or]
      exact Iff.rfl

theorem footprint_narrowLoop (n : Nat) (src dst : Address) :
    Footprint (narrowLoop n src dst) (Run src (4 * n)) (Run dst n) := by
  induction n generalizing src dst with
  | zero =>
    exact (Footprint.pure ()).congr (fun x => by simp [run_zero]) (fun x => by simp [run_zero])
  | succ n ih =>
    refine ((Footprint.read32 src).bind fun _ => (Footprint.write8 dst _).bind fun _ =>
      ih (src + 4) (dst + 1)).congr (fun x => ?_) (fun x => ?_)
    · rw [Nat.mul_succ, Nat.add_comm, run_add, false_or]
      exact Iff.rfl
    · rw [Nat.add_comm n 1, run_add, false_or]
      exact Iff.rfl

/-! ## Numbers -/

theorem toNat_zero_iff (x : Jint) : x = 0 ↔ x.toNat = 0 := by
  rw [← BitVec.toNat_inj]
  rfl

/-- How many bytes `wordOrByteCpy` copies. -/
def cpyBytes (smem mem : Address) (len : Jint) : Nat :=
  if (smem ||| mem ||| len) &&& 3 = 0 then 4 * (len.sshiftRight 2).toNat else len.toNat

theorem footprint_wordOrByteCpy (smem mem : Address) (len : Jint) :
    Footprint (wordOrByteCpy smem mem len) (Run smem (cpyBytes smem mem len))
      (Run mem (cpyBytes smem mem len)) := by
  rw [wordOrByteCpy, cpyBytes]
  split
  · exact Footprint.repMovsl _ _ _
  · exact Footprint.repMovsb _ _ _

/-- A length is copied as it is if it is non-negative; a negative one counts as a huge one. -/
theorem cpyBytes_eq (smem mem : Address) (len : Jint) :
    cpyBytes smem mem len = len.toNat ∨ len.toInt < 0 ∧ 2 ^ 31 ≤ cpyBytes smem mem len := by
  rw [cpyBytes]
  split
  · next halign =>
    have hlow : len &&& 3 = 0 := by
      have hbits : ((smem ||| mem ||| len) &&& 3) &&& len = 0 := by
        rw [halign]
        simp
      have habsorb : ((smem ||| mem ||| len) &&& 3) &&& len = len &&& 3 := by
        ext i
        simp only [BitVec.getElem_and, BitVec.getElem_or]
        cases len[i] <;> simp
      rw [← habsorb, hbits]
    have hmod : len.toNat % 4 = 0 := by
      have h := congrArg BitVec.toNat hlow
      rw [BitVec.toNat_and] at h
      exact (Nat.and_two_pow_sub_one_eq_mod len.toNat 2).symm.trans h
    have hshift : (len.sshiftRight 2).toInt = len.toInt / 4 := by
      rw [BitVec.toInt_sshiftRight, Int.shiftRight_eq_div_pow]
      rfl
    have h1 := toInt_cases len
    have h2 := toInt_cases (len.sshiftRight 2)
    omega
  · exact Or.inl rfl

/-! ## Confinement of a guarded action -/

variable {act : Acc Unit} {R R' W W' : Address → Prop}

theorem confined_throw (e : Stop) : Confined (throw e) R W := fun _ => rfl

theorem confined_iff_of_footprint (h : Footprint act R W) :
    Confined act R' W' ↔ (∀ x, R x → R' x) ∧ ∀ x, W x → W' x := by
  have hrun : ∀ byte, ∃ m', act.run ⟨byte, [], []⟩ = (.ok (), m') ∧
      (∀ x, x ∈ m'.reads ↔ R x) ∧ ∀ x, x ∈ m'.writes ↔ W x := by
    intro byte
    obtain ⟨v, m', heq, hr, hw⟩ := h ⟨byte, [], []⟩
    refine ⟨m', heq, fun x => ?_, fun x => ?_⟩
    · rw [hr]
      simp
    · rw [hw]
      simp
  constructor
  · intro hc
    obtain ⟨m', heq, hr, hw⟩ := hrun fun _ => 0
    have hin := hc fun _ => 0
    rw [heq] at hin
    exact ⟨fun x hx => hin.1 x ((hr x).mpr hx), fun x hx => hin.2 x ((hw x).mpr hx)⟩
  · rintro ⟨hR, hW⟩ byte
    obtain ⟨m', heq, hr, hw⟩ := hrun byte
    rw [heq]
    exact ⟨fun x hx => hR x ((hr x).mp hx), fun x hx => hW x ((hw x).mp hx)⟩

/-- A test in front of the action. -/
theorem confined_guard_iff {c : Prop} [Decidable c] (e : Stop) (h : Footprint act R W) :
    Confined (if c then throw e else act) R' W' ↔
      c ∨ (∀ x, R x → R' x) ∧ ∀ x, W x → W' x := by
  by_cases hc : c
  · rw [if_pos hc]
    exact ⟨fun _ => Or.inl hc, fun _ => confined_throw e⟩
  · rw [if_neg hc, confined_iff_of_footprint h]
    simp [hc]

theorem confined_discard_guard_iff {α : Type} {get : Acc α} {c : Prop} [Decidable c] (e : Stop)
    (h : Footprint get R W) :
    Confined (discard (if c then throw e else get)) R' W' ↔
      c ∨ (∀ x, R x → R' x) ∧ ∀ x, W x → W' x := by
  rw [apply_ite discard]
  exact confined_guard_iff e (footprint_discard h)

/-- Reading and converting touches what reading touches. -/
theorem footprint_map {α β : Type} {get : Acc α} (f : α → β) (h : Footprint get R W) :
    Footprint (get >>= fun v => pure (f v)) R W :=
  (h.bind fun _ => Footprint.pure _).congr (fun x => by simp) (fun x => by simp)

theorem checkValid_bind {α : Type} {p : MemoryProxy} (hp : p.Wf) (k : Unit → Acc α) :
    (checkValid p >>= k) = k () := by
  rw [checkValid, if_pos hp.valid, pure_bind]

theorem MemoryProxy.Wf.run_inside_iff {p : MemoryProxy} (hp : p.Wf) {off : Address} {c : Nat} :
    (∀ x, Run (p.mem + off) c x → p.Inside x) ↔ c = 0 ∨ off.toNat + c ≤ p.size.toNat :=
  Access.run_inside_iff (Nat.lt_trans hp.size_lt (by decide))

theorem ByteArray.Wf.run_inside_iff {b : ByteArray} (hb : b.Wf) {off : Address} {c : Nat} :
    (∀ x, Run (b.data + off) c x → b.Inside x) ↔ c = 0 ∨ off.toNat + c ≤ 4 * b.size.toNat :=
  Access.run_inside_iff hb

/-- What a passed test `off + len > size` is worth: for a positive length, the range is inside
exactly when offset and length are plain. -/
theorem inside_iff_plain {size off len : Jint} (hsize : size.toNat < 2 ^ 31)
    (hpass : exceeds size off len = false) (hlen : 0 < len.toNat) :
    off.toNat + len.toNat ≤ size.toNat ↔ Plain off len := by
  have hs := toInt_cases size
  have ho := toInt_cases off
  have hl := toInt_cases len
  have hsum := toInt_cases (off + len)
  have hadd := BitVec.toNat_add off len
  rw [exceeds, BitVec.slt, decide_eq_false_iff_not] at hpass
  rw [Plain]
  omega

/-! ## The accessors -/

section Accessors

variable {p : MemoryProxy} (hp : p.Wf)
include hp

theorem confined_set8 (pos : Jint) (what : BitVec 8) :
    Confined (set8 p pos what) p.Inside p.Inside ↔ 0 ≤ pos.toInt := by
  have hs := toInt_cases p.size
  have ho := toInt_cases pos
  have hlt := hp.size_lt
  rw [set8, checkValid_bind hp, outOfBounds, confined_guard_iff _ (Footprint.write8 _ _),
    hp.run_inside_iff, BitVec.sle, decide_eq_true_eq]
  simp only [false_imp_iff, implies_true, true_and]
  omega

theorem confined_get8 (pos : Jint) : Confined (discard (get8 p pos)) p.Inside p.Inside := by
  have hs := toInt_cases p.size
  have ho := toInt_cases pos
  have hlt := hp.size_lt
  have hzero : (0 : Jint).toInt = 0 := rfl
  rw [get8, checkValid_bind hp, outOfBounds,
    confined_discard_guard_iff _ (footprint_map _ (Footprint.read8 _)), hp.run_inside_iff,
    BitVec.sle, BitVec.slt, Bool.or_eq_true, decide_eq_true_eq, decide_eq_true_eq]
  simp only [false_imp_iff, implies_true, and_true]
  omega

theorem confined_set16 (pos : Jint) (what : BitVec 16) :
    Confined (set16 p pos what) p.Inside p.Inside := by
  have hpos := pos.isLt
  have hlt := hp.size_lt
  have hhalf : (p.size / 2).toNat = p.size.toNat / 2 := BitVec.toNat_udiv
  have hoff : (2 * pos).toNat = 2 * pos.toNat % 2 ^ 32 := BitVec.toNat_mul 2 pos
  rw [set16, checkValid_bind hp, outOfBounds, confined_guard_iff _ (Footprint.write16 _ _),
    hp.run_inside_iff, BitVec.ule, decide_eq_true_eq]
  simp only [false_imp_iff, implies_true, true_and]
  omega

theorem confined_get16 (pos : Jint) : Confined (discard (get16 p pos)) p.Inside p.Inside := by
  have hpos := pos.isLt
  have hlt := hp.size_lt
  have hhalf : (p.size / 2).toNat = p.size.toNat / 2 := BitVec.toNat_udiv
  have hoff : (2 * pos).toNat = 2 * pos.toNat % 2 ^ 32 := BitVec.toNat_mul 2 pos
  rw [get16, checkValid_bind hp, outOfBounds,
    confined_discard_guard_iff _ (footprint_map _ (Footprint.read16 _)), hp.run_inside_iff,
    BitVec.ule, decide_eq_true_eq]
  simp only [false_imp_iff, implies_true, and_true]
  omega

theorem confined_set32 (pos what : Jint) : Confined (set32 p pos what) p.Inside p.Inside ↔
    0 ≤ pos.toInt ∨ (4 * pos).toNat + 4 ≤ p.size.toNat := by
  have hs := toInt_cases p.size
  have ho := toInt_cases pos
  have hlt := hp.size_lt
  have hshift : (p.size.sshiftRight 2).toInt = p.size.toInt / 4 := by
    rw [BitVec.toInt_sshiftRight, Int.shiftRight_eq_div_pow]
    rfl
  have hoff : (4 * pos).toNat = 4 * pos.toNat % 2 ^ 32 := BitVec.toNat_mul 4 pos
  rw [set32, checkValid_bind hp, confined_guard_iff _ (Footprint.write32 _ _), hp.run_inside_iff,
    BitVec.sle, decide_eq_true_eq]
  simp only [false_imp_iff, implies_true, true_and]
  omega

theorem confined_get32 (pos : Jint) : Confined (discard (get32 p pos)) p.Inside p.Inside := by
  have hpos := pos.isLt
  have hlt := hp.size_lt
  have hquarter : (p.size / 4).toNat = p.size.toNat / 4 := BitVec.toNat_udiv
  have hoff : (4 * pos).toNat = 4 * pos.toNat % 2 ^ 32 := BitVec.toNat_mul 4 pos
  rw [get32, checkValid_bind hp, confined_discard_guard_iff _ (Footprint.read32 _),
    hp.run_inside_iff, BitVec.ule, decide_eq_true_eq]
  simp only [false_imp_iff, implies_true, and_true]
  omega

theorem confined_fill16 (what : BitVec 16) (pos length : Jint) :
    Confined (fill16 p what pos length) p.Inside p.Inside ↔
      (p.size / 2).ult (pos + length) ∨ (length * 2).toNat = 0 ∨
        (2 * pos).toNat + (length * 2).toNat < 2 ^ 32 := by
  have hpos := pos.isLt
  have hlen := length.isLt
  have hlt := hp.size_lt
  have hhalf : (p.size / 2).toNat = p.size.toNat / 2 := BitVec.toNat_udiv
  have hsum := BitVec.toNat_add pos length
  have hoff : (2 * pos).toNat = 2 * pos.toNat % 2 ^ 32 := BitVec.toNat_mul 2 pos
  have hbytes : (length * 2).toNat = length.toNat * 2 % 2 ^ 32 := BitVec.toNat_mul length 2
  rw [fill16, checkValid_bind hp, outOfBounds, confined_guard_iff _ (footprint_jxwmemset _ _ _),
    hp.run_inside_iff, BitVec.ult, decide_eq_true_eq]
  simp only [false_imp_iff, implies_true, true_and]
  omega

theorem confined_fill32 (what pos length : Jint) :
    Confined (fill32 p what pos length) p.Inside p.Inside ↔
      (p.size / 4).ult (pos + length) ∨ length.toInt ≤ 0 ∨ 0 ≤ pos.toInt := by
  have ho := toInt_cases pos
  have hl := toInt_cases length
  have hlt := hp.size_lt
  have hquarter : (p.size / 4).toNat = p.size.toNat / 4 := BitVec.toNat_udiv
  have hsum := BitVec.toNat_add pos length
  have hoff : (4 * pos).toNat = 4 * pos.toNat % 2 ^ 32 := BitVec.toNat_mul 4 pos
  rw [fill32, checkValid_bind hp, outOfBounds, confined_guard_iff _ (Footprint.repStosl _ _ _),
    hp.run_inside_iff, BitVec.ult, decide_eq_true_eq]
  simp only [false_imp_iff, implies_true, true_and]
  omega

omit hp in
/-- Two runs of the same length, both behind a passed test. -/
theorem two_runs_iff {q q' : MemoryProxy} (hq : q.Wf) (hq' : q'.Wf) {off off' len : Jint} {c : Nat}
    (hpass : exceeds q.size off len = false) (hpass' : exceeds q'.size off' len = false)
    (hc : c = len.toNat ∨ len.toInt < 0 ∧ 2 ^ 31 ≤ c) :
    ((∀ x, Run (q.mem + off) c x → q.Inside x) ∧ ∀ x, Run (q'.mem + off') c x → q'.Inside x) ↔
      len = 0 ∨ Plain off len ∧ Plain off' len := by
  have hlt := hq.size_lt
  rw [hq.run_inside_iff, hq'.run_inside_iff, toNat_zero_iff]
  rcases hc with rfl | ⟨hneg, hbig⟩
  · by_cases hzero : len.toNat = 0
    · simp [hzero]
    · rw [inside_iff_plain hq.size_lt hpass (by omega),
        inside_iff_plain hq'.size_lt hpass' (by omega)]
      simp [hzero]
  · -- a negative length is copied as a huge one
    have hl := toInt_cases len
    have hplain : ¬ Plain off len := fun h => absurd h.2.1 (by omega)
    simp only [hplain, false_and, or_false]
    omega

theorem confined_move (dst src count : Jint) : Confined (move p dst src count) p.Inside p.Inside ↔
    exceeds p.size dst count ∨ exceeds p.size src count ∨
      count = 0 ∨ Plain dst count ∧ Plain src count := by
  have hact : Footprint (if (p.mem + dst).ult (p.mem + src) then
      moveUp (p.mem + src) (p.mem + dst) count else moveDown (p.mem + src) (p.mem + dst) count)
      (Run (p.mem + src) count.toNat) (Run (p.mem + dst) count.toNat) := by
    split
    · exact footprint_moveUp _ _ _
    · exact footprint_moveDown _ _ _
  rw [move, outOfBounds, confined_guard_iff _ hact, ← exceeds, ← exceeds, Bool.or_eq_true, or_assoc]
  by_cases hd : exceeds p.size dst count = true
  · simp [hd]
  · by_cases hs : exceeds p.size src count = true
    · simp [hs]
    · rw [and_comm, two_runs_iff hp hp (by simpa using hd) (by simpa using hs) (Or.inl rfl)]

theorem confined_copy (source target len : Jint) :
    Confined (copy p source target len) p.Inside p.Inside ↔
      exceeds p.size target len ∨ exceeds p.size source len ∨ len.toInt ≤ 0 ∨
        Plain target len ∧ Plain source len := by
  rw [copy, checkValid_bind hp, ← exceeds, ← exceeds]
  by_cases ht : exceeds p.size target len = true
  · simp [ht, confined_throw]
  · rw [if_neg ht, confined_guard_iff _ (Footprint.repMovsb _ _ _)]
    by_cases hs : exceeds p.size source len = true
    · simp [hs]
    · rw [or_iff_right hs, or_iff_right ht, or_iff_right hs]
      have hl := toInt_cases len
      by_cases hpos : len.toInt ≤ 0
      · rw [hp.run_inside_iff, hp.run_inside_iff, show len.toInt.toNat = 0 by omega]
        simp [hpos]
      · have hne : len ≠ 0 := by
          rw [Ne, toNat_zero_iff]
          omega
        rw [and_comm, two_runs_iff hp hp (by simpa using ht) (by simpa using hs)
          (Or.inl (show len.toInt.toNat = len.toNat by omega))]
        rw [or_iff_right hne, or_iff_right hpos]

omit hp in
/-- A run through a memory and the words of an array, both behind a passed test. -/
theorem run_and_words_iff {q : MemoryProxy} (hq : q.Wf) {b : ByteArray} (hb : b.Wf)
    {memOffset arrayOffset len : Jint} (hpass : exceeds q.size memOffset len = false) :
    ((∀ x, Run (q.mem + memOffset) len.toInt.toNat x → q.Inside x) ∧
      ∀ x, Run (b.data + 4 * arrayOffset) (4 * len.toInt.toNat) x → b.Inside x) ↔
      len.toInt ≤ 0 ∨ Plain memOffset len ∧
        arrayOffset.toNat % 2 ^ 30 + len.toNat ≤ b.size.toNat := by
  have hl := toInt_cases len
  have hoff : (4 * arrayOffset).toNat = 4 * arrayOffset.toNat % 2 ^ 32 :=
    BitVec.toNat_mul 4 arrayOffset
  rw [hq.run_inside_iff, hb.run_inside_iff]
  by_cases hpos : len.toInt ≤ 0
  · rw [show len.toInt.toNat = 0 by omega]
    simp [hpos]
  · rw [show len.toInt.toNat = len.toNat by omega,
      inside_iff_plain hq.size_lt hpass (by omega)]
    simp only [hpos, false_or]
    refine and_congr (or_iff_right (by omega)) ?_
    omega

theorem confined_copyToByteArray {b : ByteArray} (hb : b.Wf) (arrayOffset memOffset len : Jint) :
    Confined (copyToByteArray p (some b) arrayOffset memOffset len) p.Inside b.Inside ↔
      exceeds p.size memOffset len ∨ exceeds b.size arrayOffset len ∨ len.toInt ≤ 0 ∨
        Plain memOffset len ∧ arrayOffset.toNat % 2 ^ 30 + len.toNat ≤ b.size.toNat := by
  rw [copyToByteArray, checkNullPtr, pure_bind, checkValid_bind hp, ← exceeds, ← exceeds]
  by_cases hm : exceeds p.size memOffset len = true
  · simp [hm, outOfBounds, confined_throw]
  · rw [if_neg hm, outOfBounds, confined_guard_iff _ (footprint_widenLoop _ _ _),
      run_and_words_iff hp hb (by simpa using hm)]
    simp [hm]

theorem confined_copyFromByteArray {b : ByteArray} (hb : b.Wf) (arrayOffset memOffset len : Jint) :
    Confined (copyFromByteArray p (some b) arrayOffset memOffset len) b.Inside p.Inside ↔
      exceeds p.size memOffset len ∨ exceeds b.size arrayOffset len ∨ len.toInt ≤ 0 ∨
        Plain memOffset len ∧ arrayOffset.toNat % 2 ^ 30 + len.toNat ≤ b.size.toNat := by
  rw [copyFromByteArray, checkNullPtr, pure_bind, checkValid_bind hp, ← exceeds, ← exceeds]
  by_cases hm : exceeds p.size memOffset len = true
  · simp [hm, outOfBounds, confined_throw]
  · rw [if_neg hm, outOfBounds, confined_guard_iff _ (footprint_narrowLoop _ _ _), and_comm,
      run_and_words_iff hp hb (by simpa using hm)]
    simp [hm]

theorem confined_copyToMemory {q : MemoryProxy} (hq : q.Wf) (srcOffset dstOffset len : Jint) :
    Confined (copyToMemory p (some q) srcOffset dstOffset len) p.Inside q.Inside ↔
      exceeds q.size dstOffset len ∨ exceeds p.size srcOffset len ∨ len = 0 ∨
        Plain dstOffset len ∧ Plain srcOffset len := by
  rw [copyToMemory, checkNullPtr, pure_bind, checkValid_bind hp, outOfBounds,
    confined_guard_iff _ (footprint_wordOrByteCpy _ _ _), ← exceeds, ← exceeds, Bool.or_eq_true,
    or_assoc]
  by_cases hd : exceeds q.size dstOffset len = true
  · simp [hd]
  · by_cases hs : exceeds p.size srcOffset len = true
    · simp [hs]
    · rw [and_comm, two_runs_iff hq hp (by simpa using hd) (by simpa using hs)
        (cpyBytes_eq _ _ len)]

theorem confined_copyFromMemory {q : MemoryProxy} (hq : q.Wf) (srcOffset dstOffset len : Jint) :
    Confined (copyFromMemory p (some q) srcOffset dstOffset len) q.Inside p.Inside ↔
      exceeds p.size dstOffset len ∨ exceeds q.size srcOffset len ∨ len = 0 ∨
        Plain dstOffset len ∧ Plain srcOffset len := by
  rw [copyFromMemory, checkNullPtr, pure_bind, checkValid_bind hp, checkValid_bind hq, outOfBounds,
    confined_guard_iff _ (footprint_wordOrByteCpy _ _ _), ← exceeds, ← exceeds, Bool.or_eq_true,
    or_assoc]
  by_cases hd : exceeds p.size dstOffset len = true
  · simp [hd]
  · by_cases hs : exceeds q.size srcOffset len = true
    · simp [hs]
    · rw [and_comm, two_runs_iff hp hq (by simpa using hd) (by simpa using hs)
        (cpyBytes_eq _ _ len)]

/-- The endian accessors: one run of `width` bytes behind the test `offset + width > size`. -/
theorem confined_atOffset_set (offset width : Jint) {set : Address → Acc Unit}
    (hwidth : 0 < width.toNat)
    (h : ∀ a, Footprint (set a) (fun _ => False) (Run a width.toNat)) :
    Confined (atOffset p offset width set) p.Inside p.Inside ↔
      exceeds p.size offset width ∨ Plain offset width := by
  rw [atOffset, checkValid_bind hp, outOfBounds, confined_guard_iff _ (h _), hp.run_inside_iff,
    ← exceeds]
  by_cases ht : exceeds p.size offset width = true
  · simp [ht]
  · rw [inside_iff_plain hp.size_lt (by simpa using ht) hwidth]
    simp [ht, Nat.ne_of_gt hwidth]

theorem confined_atOffset_get {α : Type} (offset width : Jint) {get : Address → Acc α}
    (hwidth : 0 < width.toNat)
    (h : ∀ a, Footprint (get a) (Run a width.toNat) (fun _ => False)) :
    Confined (discard (atOffset p offset width get)) p.Inside p.Inside ↔
      exceeds p.size offset width ∨ Plain offset width := by
  rw [atOffset, checkValid_bind hp, outOfBounds, confined_discard_guard_iff _ (h _),
    hp.run_inside_iff, ← exceeds]
  by_cases ht : exceeds p.size offset width = true
  · simp [ht]
  · rw [inside_iff_plain hp.size_lt (by simpa using ht) hwidth]
    simp [ht, Nat.ne_of_gt hwidth]

end Accessors

/-- **The sandbox, exactly.** A call on valid memories stays inside them if and only if its
arguments are in range; the tests of the source do not enforce that for the rest. -/
theorem confined_iff_inRange (bswap : Jint → Jint) (call : Call) (hwf : call.Wf) :
    Confined (call.run bswap) call.Readable call.Writable ↔ call.InRange := by
  cases call with
  | set8 p pos what => exact confined_set8 hwf pos what
  | get8 p pos => exact iff_of_true (confined_get8 hwf pos) trivial
  | set16 p pos what => exact iff_of_true (confined_set16 hwf pos what) trivial
  | get16 p pos => exact iff_of_true (confined_get16 hwf pos) trivial
  | set32 p pos what => exact confined_set32 hwf pos what
  | get32 p pos => exact iff_of_true (confined_get32 hwf pos) trivial
  | fill16 p what pos length => exact confined_fill16 hwf what pos length
  | fill32 p what pos length => exact confined_fill32 hwf what pos length
  | move p dst src count => exact confined_move hwf dst src count
  | copy p source target len => exact confined_copy hwf source target len
  | copyToByteArray p bytes arrayOffset memOffset len =>
    cases bytes with
    | none => exact iff_of_true (confined_throw _) (by simp [Call.InRange])
    | some b =>
      exact (confined_copyToByteArray hwf.1 (hwf.2 b rfl) arrayOffset memOffset len).trans
        (by simp [Call.InRange])
  | copyFromByteArray p bytes arrayOffset memOffset len =>
    cases bytes with
    | none => exact iff_of_true (confined_throw _) (by simp [Call.InRange])
    | some b =>
      exact (confined_copyFromByteArray hwf.1 (hwf.2 b rfl) arrayOffset memOffset len).trans
        (by simp [Call.InRange])
  | copyToMemory p other srcOffset dstOffset len =>
    cases other with
    | none => exact iff_of_true (confined_throw _) (by simp [Call.InRange])
    | some q =>
      exact (confined_copyToMemory hwf.1 (hwf.2 q rfl) srcOffset dstOffset len).trans
        (by simp [Call.InRange])
  | copyFromMemory p other srcOffset dstOffset len =>
    cases other with
    | none => exact iff_of_true (confined_throw _) (by simp [Call.InRange])
    | some q =>
      exact (confined_copyFromMemory hwf.1 (hwf.2 q rfl) srcOffset dstOffset len).trans
        (by simp [Call.InRange])
  | getLittleEndian32 p offset =>
    exact confined_atOffset_get hwf offset 4 (by decide) fun a => Footprint.read32 a
  | setLittleEndian32 p offset value =>
    have hset := confined_atOffset_set hwf offset 4 (by decide) fun a => Footprint.write32 a value
    exact hset
  | getLittleEndian16 p offset =>
    exact confined_atOffset_get hwf offset 2 (by decide) fun a => footprint_map _ (Footprint.read16 a)
  | setLittleEndian16 p offset value =>
    have hset := confined_atOffset_set hwf offset 2 (by decide) fun a => Footprint.write16 a value
    exact hset
  | getBigEndian32 p offset =>
    exact confined_atOffset_get hwf offset 4 (by decide) fun a => footprint_map _ (Footprint.read32 a)
  | setBigEndian32 p offset value =>
    have hset := confined_atOffset_set hwf offset 4 (by decide) fun a =>
      Footprint.write32 a (bswap value)
    exact hset
  | getBigEndian16 p offset =>
    exact confined_atOffset_get hwf offset 2 (by decide) fun a => footprint_map _ (Footprint.read16 a)
  | setBigEndian16 p offset value =>
    have hset := confined_atOffset_set hwf offset 2 (by decide) fun a =>
      Footprint.write16 a ((swap16 (value.signExtend 32)).truncate 16)
    exact hset

/-- A word at offset 12 of a memory of sixteen bytes. -/
theorem confined_last_word : (Call.getLittleEndian32 ⟨16, 0x100000, true⟩ 12).Wf ∧
    Confined ((Call.getLittleEndian32 ⟨16, 0x100000, true⟩ 12).run id)
      (Call.getLittleEndian32 ⟨16, 0x100000, true⟩ 12).Readable
      (Call.getLittleEndian32 ⟨16, 0x100000, true⟩ 12).Writable := by
  have hwf : (Call.getLittleEndian32 ⟨16, 0x100000, true⟩ 12).Wf := ⟨rfl, by decide⟩
  refine ⟨hwf, (confined_iff_inRange id _ hwf).mpr (Or.inr ?_)⟩
  rw [Plain]
  decide

/-- `memory_set8` with offset `-1` writes the byte in front of the memory. -/
theorem not_confined_set8_negative : (Call.set8 ⟨16, 0x100000, true⟩ (-1) 0).Wf ∧
    ¬ Confined ((Call.set8 ⟨16, 0x100000, true⟩ (-1) 0).run id)
      (Call.set8 ⟨16, 0x100000, true⟩ (-1) 0).Readable
      (Call.set8 ⟨16, 0x100000, true⟩ (-1) 0).Writable := by
  refine ⟨⟨rfl, by decide⟩, fun h => ?_⟩
  have hin : MemoryProxy.Inside ⟨16, 0x100000, true⟩ 0x0fffff :=
    (h fun _ => 0).2 0x0fffff (List.mem_cons_self ..)
  rw [MemoryProxy.Inside] at hin
  exact absurd hin (by decide)

end JxCore.Memory
