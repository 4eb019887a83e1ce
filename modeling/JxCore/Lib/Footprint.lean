import Mathlib.Data.BitVec
import Mathlib.Tactic.Ring

/-!
# Byte-addressed memory with a footprint

A 32-bit processor: addresses are `BitVec 32`, so address arithmetic wraps by itself. `Machine`
keeps, next to the contents, the addresses that were read and written, and an action that raises an
exception keeps what it did before.

* `Run` — a run of consecutive bytes;
* `Footprint` — an action succeeds and touches exactly these bytes; rules for the primitives, for
  sequencing and for the string instructions `rep movs` and `rep stos`;
* `run_inside_iff` — when a run stays inside a region.
-/

namespace JxCore.Lib

/-- A 32-bit address. -/
abbrev Address := BitVec 32

/-- A word as a signed and as an unsigned number. -/
theorem toInt_cases (x : BitVec 32) : x.toNat < 2 ^ 31 ∧ x.toInt = x.toNat ∨
    2 ^ 31 ≤ x.toNat ∧ x.toNat < 2 ^ 32 ∧ x.toInt = x.toNat - 2 ^ 32 := by
  have hlt := x.isLt
  rw [BitVec.toInt_eq_toNat_cond]
  by_cases h : 2 * x.toNat < 2 ^ 32
  · exact Or.inl ⟨by omega, if_pos h⟩
  · refine Or.inr ⟨by omega, hlt, ?_⟩
    rw [if_neg h]
    rfl

/-- Memory contents, and which bytes have been read and written. -/
structure Machine where
  byte : Address → BitVec 8
  reads : List Address
  writes : List Address

/-- An action on the memory that may raise an `ε`. -/
abbrev Access (ε α : Type) := ExceptT ε (StateM Machine) α

namespace Access

variable {ε α β : Type}

def read8 (a : Address) : Access ε (BitVec 8) := do
  modify fun m => { m with reads := a :: m.reads }
  return (← get).byte a

def write8 (a : Address) (v : BitVec 8) : Access ε Unit :=
  modify fun m => { m with byte := Function.update m.byte a v, writes := a :: m.writes }

/-- Half-words and words are stored with the low byte first. -/
def read16 (a : Address) : Access ε (BitVec 16) := do
  let lo ← read8 a
  let hi ← read8 (a + 1)
  return hi ++ lo

def write16 (a : Address) (v : BitVec 16) : Access ε Unit := do
  write8 a (v.extractLsb' 0 8)
  write8 (a + 1) (v.extractLsb' 8 8)

def read32 (a : Address) : Access ε (BitVec 32) := do
  let lo ← read16 a
  let hi ← read16 (a + 2)
  return hi ++ lo

def write32 (a : Address) (v : BitVec 32) : Access ε Unit := do
  write16 a (v.extractLsb' 0 16)
  write16 (a + 2) (v.extractLsb' 16 16)

/-- `movsb`, `movsw`, `movsl`: one element from `src` to `dst`. -/
def movsb (src dst : Address) : Access ε Unit := do write8 dst (← read8 src)

def movsw (src dst : Address) : Access ε Unit := do write16 dst (← read16 src)

def movsl (src dst : Address) : Access ε Unit := do write32 dst (← read32 src)

/-- `cld; rep movsb`. -/
def repMovsb : Nat → Address → Address → Access ε Unit
  | 0, _, _ => return ()
  | n + 1, src, dst => do
    movsb src dst
    repMovsb n (src + 1) (dst + 1)

/-- `cld; rep movsl`. -/
def repMovsl : Nat → Address → Address → Access ε Unit
  | 0, _, _ => return ()
  | n + 1, src, dst => do
    movsl src dst
    repMovsl n (src + 4) (dst + 4)

/-- `std; rep movsl`. -/
def repMovslDown : Nat → Address → Address → Access ε Unit
  | 0, _, _ => return ()
  | n + 1, src, dst => do
    movsl src dst
    repMovslDown n (src - 4) (dst - 4)

/-- `cld; rep stosl`. -/
def repStosl (v : BitVec 32) : Nat → Address → Access ε Unit
  | 0, _ => return ()
  | n + 1, dst => do
    write32 dst v
    repStosl v n (dst + 4)

/-! ## Runs of bytes -/

/-- `x` is one of the `n` bytes from `a` on. -/
def Run (a : Address) (n : Nat) (x : Address) : Prop := ∃ i < n, x = a + BitVec.ofNat 32 i

theorem run_zero (a x : Address) : ¬ Run a 0 x := by
  rintro ⟨i, hi, -⟩
  exact absurd hi (Nat.not_lt_zero i)

theorem run_add (a : Address) (n m : Nat) (x : Address) :
    Run a (n + m) x ↔ Run a n x ∨ Run (a + BitVec.ofNat 32 n) m x := by
  constructor
  · rintro ⟨i, hi, rfl⟩
    by_cases hn : i < n
    · exact Or.inl ⟨i, hn, rfl⟩
    · refine Or.inr ⟨i - n, by omega, ?_⟩
      rw [BitVec.add_assoc, ← BitVec.ofNat_add, Nat.add_sub_cancel' (by omega)]
  · rintro (⟨i, hi, rfl⟩ | ⟨i, hi, rfl⟩)
    · exact ⟨i, by omega, rfl⟩
    · exact ⟨n + i, by omega, by rw [BitVec.add_assoc, BitVec.ofNat_add]⟩

theorem run_one (a x : Address) : Run a 1 x ↔ x = a := by
  constructor
  · rintro ⟨i, hi, rfl⟩
    obtain rfl : i = 0 := by omega
    simp
  · rintro rfl
    exact ⟨0, by omega, by simp⟩

theorem offset_toNat {a : Address} {n : Nat} (hn : n ≤ 2 ^ 32) {i : Nat} (hi : i < n) :
    (a + BitVec.ofNat 32 i - a).toNat = i := by
  rw [BitVec.add_comm, BitVec.add_sub_cancel, BitVec.toNat_ofNat, Nat.mod_eq_of_lt (by omega)]

theorem run_of_offset {a : Address} {n : Nat} (x : Address) (h : (x - a).toNat < n) : Run a n x :=
  ⟨(x - a).toNat, h, by rw [BitVec.ofNat_toNat, BitVec.setWidth_eq, BitVec.add_comm,
    BitVec.sub_add_cancel]⟩

theorem run_iff_offset {a : Address} {n : Nat} (hn : n ≤ 2 ^ 32) (x : Address) :
    Run a n x ↔ (x - a).toNat < n := by
  refine ⟨?_, run_of_offset x⟩
  rintro ⟨i, hi, rfl⟩
  rw [offset_toNat hn hi]
  exact hi

/-- A run that starts at offset `off` of a region of `n` bytes stays inside exactly when it is empty
or ends before `n`: wrapping around the address space would leave the region. -/
theorem run_inside_iff {base off : Address} {c n : Nat} (hn : n < 2 ^ 32) :
    (∀ x, Run (base + off) c x → (x - base).toNat < n) ↔ c = 0 ∨ off.toNat + c ≤ n := by
  have hoff : ∀ i, (base + off + BitVec.ofNat 32 i - base).toNat = (off.toNat + i) % 2 ^ 32 := by
    intro i
    have hcancel : base + off + BitVec.ofNat 32 i - base = off + BitVec.ofNat 32 i := by
      rw [BitVec.add_assoc, BitVec.add_comm, BitVec.add_sub_cancel]
    rw [hcancel, BitVec.toNat_add, BitVec.toNat_ofNat, Nat.add_mod_mod]
  constructor
  · intro h
    by_contra hcon
    obtain ⟨hc, hlen⟩ := not_or.mp hcon
    -- the first byte if it is outside already, else the byte just behind the region
    have hin := h (base + off + BitVec.ofNat 32 (n - off.toNat)) ⟨n - off.toNat, by omega, rfl⟩
    rw [hoff] at hin
    have hlt := off.isLt
    by_cases hstart : off.toNat < n
    · rw [Nat.add_sub_cancel' (by omega), Nat.mod_eq_of_lt hn] at hin
      omega
    · rw [Nat.sub_eq_zero_of_le (by omega), Nat.add_zero, Nat.mod_eq_of_lt hlt] at hin
      omega
  · rintro h x ⟨i, hi, rfl⟩
    rw [hoff, Nat.mod_eq_of_lt (by omega)]
    omega

/-- Of two runs from the same byte on, the longer one contains the other. -/
theorem run_subset_iff {a : Address} {n k : Nat} (hk : k < 2 ^ 32) :
    (∀ x, Run a n x → Run a k x) ↔ n ≤ k := by
  have h := @run_inside_iff a 0#32 n k hk
  rw [BitVec.add_zero, BitVec.toNat_ofNat] at h
  simp only [run_iff_offset hk.le] at h ⊢
  rw [h]
  omega

/-! ## Footprints -/

/-- The action succeeds, reads exactly the bytes `R` and writes exactly the bytes `W`. -/
def Footprint (act : Access ε α) (R W : Address → Prop) : Prop :=
  ∀ m : Machine, ∃ v m', act.run m = (.ok v, m') ∧
    (∀ x, x ∈ m'.reads ↔ R x ∨ x ∈ m.reads) ∧ (∀ x, x ∈ m'.writes ↔ W x ∨ x ∈ m.writes)

/-- In addition the action always gives back `v`. -/
def FootprintTo (act : Access ε α) (v : α) (R W : Address → Prop) : Prop :=
  ∀ m : Machine, ∃ m', act.run m = (.ok v, m') ∧
    (∀ x, x ∈ m'.reads ↔ R x ∨ x ∈ m.reads) ∧ (∀ x, x ∈ m'.writes ↔ W x ∨ x ∈ m.writes)

namespace Footprint

variable {act : Access ε α} {R R' W W' : Address → Prop}

theorem congr (h : Footprint act R W) (hR : ∀ x, R x ↔ R' x) (hW : ∀ x, W x ↔ W' x) :
    Footprint act R' W' := by
  intro m
  obtain ⟨v, m', hrun, hr, hw⟩ := h m
  exact ⟨v, m', hrun, fun x => (hr x).trans (or_congr_left (hR x)),
    fun x => (hw x).trans (or_congr_left (hW x))⟩

theorem pure (v : α) : Footprint (Pure.pure v : Access ε α) (fun _ => False) (fun _ => False) :=
  fun m => ⟨v, m, rfl, fun _ => by simp, fun _ => by simp⟩

theorem bind {k : α → Access ε β} (h : Footprint act R W) (hk : ∀ v, Footprint (k v) R' W') :
    Footprint (act >>= k) (fun x => R x ∨ R' x) (fun x => W x ∨ W' x) := by
  intro m
  obtain ⟨v, m₁, hrun, hr, hw⟩ := h m
  obtain ⟨v', m₂, hrun', hr', hw'⟩ := hk v m₁
  refine ⟨v', m₂, ?_, fun x => ?_, fun x => ?_⟩
  · have hstep : (act >>= k).run m = (k v).run m₁ := by
      show (ExceptT.bindCont k (act.run m).1).run (act.run m).2 = _
      rw [hrun]
      rfl
    rw [hstep, hrun']
  · rw [hr', hr]
    tauto
  · rw [hw', hw]
    tauto

/-- Sequencing when the value of the first action is known. -/
theorem bindTo {k : α → Access ε β} {v : α} (h : FootprintTo act v R W)
    (hk : Footprint (k v) R' W') :
    Footprint (act >>= k) (fun x => R x ∨ R' x) (fun x => W x ∨ W' x) := by
  intro m
  obtain ⟨m₁, hrun, hr, hw⟩ := h m
  obtain ⟨v', m₂, hrun', hr', hw'⟩ := hk m₁
  refine ⟨v', m₂, ?_, fun x => ?_, fun x => ?_⟩
  · have hstep : (act >>= k).run m = (k v).run m₁ := by
      show (ExceptT.bindCont k (act.run m).1).run (act.run m).2 = _
      rw [hrun]
      rfl
    rw [hstep, hrun']
  · rw [hr', hr]
    tauto
  · rw [hw', hw]
    tauto

/-- A step that is taken or left out; either way the result is `w`. -/
theorem optional {u : Access ε Unit} {c : Prop} [Decidable c] {v v' w : α} (h : Footprint u R W)
    (hpos : c → v = w) (hneg : ¬ c → v' = w) :
    FootprintTo (if c then u >>= fun _ => Pure.pure v else Pure.pure v') w
      (fun x => c ∧ R x) (fun x => c ∧ W x) := by
  intro m
  by_cases hc : c
  · obtain ⟨_, m', hrun, hr, hw⟩ := h m
    refine ⟨m', ?_, fun x => by rw [hr]; simp [hc], fun x => by rw [hw]; simp [hc]⟩
    rw [if_pos hc, hpos hc]
    show (ExceptT.bindCont (fun _ => Pure.pure w) (u.run m).1 : StateM Machine _) (u.run m).2 = _
    rw [hrun]
    rfl
  · refine ⟨m, ?_, fun x => by simp [hc], fun x => by simp [hc]⟩
    rw [if_neg hc, hneg hc]
    rfl

theorem read8 (a : Address) :
    Footprint (read8 a : Access ε (BitVec 8)) (Run a 1) (fun _ => False) := by
  intro m
  refine ⟨_, { m with reads := a :: m.reads }, rfl, fun x => ?_, fun x => by simp⟩
  rw [List.mem_cons, run_one]

theorem write8 (a : Address) (v : BitVec 8) :
    Footprint (write8 a v : Access ε Unit) (fun _ => False) (Run a 1) := by
  intro m
  refine ⟨_, { m with byte := Function.update m.byte a v, writes := a :: m.writes }, rfl,
    fun x => by simp, fun x => ?_⟩
  rw [List.mem_cons, run_one]

theorem read16 (a : Address) :
    Footprint (read16 a : Access ε (BitVec 16)) (Run a 2) (fun _ => False) :=
  ((read8 a).bind fun _ => (read8 (a + 1)).bind fun _ => pure _).congr
    (fun x => by simpa using (run_add a 1 1 x).symm) (fun x => by simp)

theorem write16 (a : Address) (v : BitVec 16) :
    Footprint (write16 a v : Access ε Unit) (fun _ => False) (Run a 2) :=
  ((write8 a _).bind fun _ => write8 (a + 1) _).congr
    (fun x => by simp) (fun x => (run_add a 1 1 x).symm)

theorem read32 (a : Address) :
    Footprint (read32 a : Access ε (BitVec 32)) (Run a 4) (fun _ => False) :=
  ((read16 a).bind fun _ => (read16 (a + 2)).bind fun _ => pure _).congr
    (fun x => by simpa using (run_add a 2 2 x).symm) (fun x => by simp)

theorem write32 (a : Address) (v : BitVec 32) :
    Footprint (write32 a v : Access ε Unit) (fun _ => False) (Run a 4) :=
  ((write16 a _).bind fun _ => write16 (a + 2) _).congr
    (fun x => by simp) (fun x => (run_add a 2 2 x).symm)

theorem movsb (src dst : Address) :
    Footprint (movsb src dst : Access ε Unit) (Run src 1) (Run dst 1) :=
  ((read8 src).bind fun v => write8 dst v).congr (fun x => by simp) (fun x => by simp)

theorem movsw (src dst : Address) :
    Footprint (movsw src dst : Access ε Unit) (Run src 2) (Run dst 2) :=
  ((read16 src).bind fun v => write16 dst v).congr (fun x => by simp) (fun x => by simp)

theorem movsl (src dst : Address) :
    Footprint (movsl src dst : Access ε Unit) (Run src 4) (Run dst 4) :=
  ((read32 src).bind fun v => write32 dst v).congr (fun x => by simp) (fun x => by simp)

theorem repMovsb (n : Nat) (src dst : Address) :
    Footprint (repMovsb n src dst : Access ε Unit) (Run src n) (Run dst n) := by
  induction n generalizing src dst with
  | zero => exact (pure ()).congr (fun x => by simp [run_zero]) (fun x => by simp [run_zero])
  | succ n ih =>
    refine ((movsb src dst).bind fun _ => ih (src + 1) (dst + 1)).congr (fun x => ?_) (fun x => ?_)
    · rw [Nat.add_comm n 1]
      exact (run_add src 1 n x).symm
    · rw [Nat.add_comm n 1]
      exact (run_add dst 1 n x).symm

theorem repMovsl (n : Nat) (src dst : Address) :
    Footprint (repMovsl n src dst : Access ε Unit) (Run src (4 * n)) (Run dst (4 * n)) := by
  induction n generalizing src dst with
  | zero => exact (pure ()).congr (fun x => by simp [run_zero]) (fun x => by simp [run_zero])
  | succ n ih =>
    refine ((movsl src dst).bind fun _ => ih (src + 4) (dst + 4)).congr (fun x => ?_) (fun x => ?_)
    · rw [Nat.mul_succ, Nat.add_comm]
      exact (run_add src 4 (4 * n) x).symm
    · rw [Nat.mul_succ, Nat.add_comm]
      exact (run_add dst 4 (4 * n) x).symm

/-- Moving down, the run ends where the first element was. -/
theorem repMovslDown (n : Nat) (src dst : Address) :
    Footprint (repMovslDown n src dst : Access ε Unit)
      (Run (src + 4 - BitVec.ofNat 32 (4 * n)) (4 * n))
      (Run (dst + 4 - BitVec.ofNat 32 (4 * n)) (4 * n)) := by
  have hsplit : ∀ (a x : Address) (n : Nat), Run a 4 x ∨
      Run (a - 4 + 4 - BitVec.ofNat 32 (4 * n)) (4 * n) x ↔
      Run (a + 4 - BitVec.ofNat 32 (4 * (n + 1))) (4 * (n + 1)) x := by
    intro a x n
    have hstart : a - 4 + 4 - BitVec.ofNat 32 (4 * n) =
        a + 4 - BitVec.ofNat 32 (4 * (n + 1)) := by
      rw [Nat.mul_succ, BitVec.ofNat_add, show BitVec.ofNat 32 4 = (4 : Address) from rfl]
      ring
    have hback : a + 4 - BitVec.ofNat 32 (4 * (n + 1)) + BitVec.ofNat 32 (4 * n) = a := by
      rw [Nat.mul_succ, BitVec.ofNat_add, show BitVec.ofNat 32 4 = (4 : Address) from rfl]
      ring
    rw [hstart, Nat.mul_succ, run_add, ← Nat.mul_succ, hback, or_comm]
  induction n generalizing src dst with
  | zero => exact (pure ()).congr (fun x => by simp [run_zero]) (fun x => by simp [run_zero])
  | succ n ih =>
    exact ((movsl src dst).bind fun _ => ih (src - 4) (dst - 4)).congr
      (fun x => hsplit src x n) (fun x => hsplit dst x n)

theorem repStosl (v : BitVec 32) (n : Nat) (dst : Address) :
    Footprint (repStosl v n dst : Access ε Unit) (fun _ => False) (Run dst (4 * n)) := by
  induction n generalizing dst with
  | zero => exact (pure ()).congr (fun x => by simp) (fun x => by simp [run_zero])
  | succ n ih =>
    refine ((write32 dst v).bind fun _ => ih (dst + 4)).congr (fun x => by simp) (fun x => ?_)
    rw [Nat.mul_succ, Nat.add_comm]
    exact (run_add dst 4 (4 * n) x).symm

end Footprint

/-! ## Runs on one memory

What is read may decide how an action goes on, so that only its run on a given memory has a footprint. -/

/-- The word at an address. -/
def word32 (m : Machine) (a : Address) : BitVec 32 :=
  (m.byte (a + 2 + 1) ++ m.byte (a + 2) : BitVec 16) ++ (m.byte (a + 1) ++ m.byte a : BitVec 16)

/-- On the memory `m` the action ends with `r`, reads exactly the bytes `R` and writes exactly the
bytes `W`. -/
def Outcome (act : Access ε α) (m : Machine) (r : Except ε α) (R W : Address → Prop) : Prop :=
  ∃ m', act.run m = (r, m') ∧
    (∀ x, x ∈ m'.reads ↔ R x ∨ x ∈ m.reads) ∧ (∀ x, x ∈ m'.writes ↔ W x ∨ x ∈ m.writes)

namespace Outcome

variable {act : Access ε α} {m : Machine} {R R' W W' : Address → Prop}

theorem pure (v : α) (m : Machine) :
    Outcome (Pure.pure v : Access ε α) m (.ok v) (fun _ => False) (fun _ => False) :=
  ⟨m, rfl, fun _ => by simp, fun _ => by simp⟩

theorem throw (e : ε) (m : Machine) :
    Outcome (throw e : Access ε α) m (.error e) (fun _ => False) (fun _ => False) :=
  ⟨m, rfl, fun _ => by simp, fun _ => by simp⟩

theorem bind {k : α → Access ε β} {v : α} {r : Except ε β} (h : Outcome act m (.ok v) R W)
    (hk : ∀ m', Outcome (k v) m' r R' W') :
    Outcome (act >>= k) m r (fun x => R x ∨ R' x) (fun x => W x ∨ W' x) := by
  obtain ⟨m₁, hrun, hr, hw⟩ := h
  obtain ⟨m₂, hrun', hr', hw'⟩ := hk m₁
  refine ⟨m₂, ?_, fun x => ?_, fun x => ?_⟩
  · have hstep : (act >>= k).run m = (k v).run m₁ := by
      show (ExceptT.bindCont k (act.run m).1).run (act.run m).2 = _
      rw [hrun]
      rfl
    rw [hstep, hrun']
  · rw [hr', hr]
    tauto
  · rw [hw', hw]
    tauto

theorem congr {r : Except ε α} (h : Outcome act m r R W) (hR : ∀ x, R x ↔ R' x)
    (hW : ∀ x, W x ↔ W' x) : Outcome act m r R' W' := by
  obtain ⟨m', hrun, hr, hw⟩ := h
  exact ⟨m', hrun, fun x => (hr x).trans (or_congr_left (hR x)),
    fun x => (hw x).trans (or_congr_left (hW x))⟩

/-- Computing a result from what was read. -/
theorem map {v : α} (h : Outcome act m (.ok v) R W) (f : α → β) :
    Outcome (act >>= fun v => Pure.pure (f v)) m (.ok (f v)) R W :=
  (h.bind fun m' => pure (f v) m').congr (fun x => by simp) (fun x => by simp)

/-- An action followed by a result that does not depend on it. -/
theorem of_footprint (h : Footprint act R W) (v : β) (m : Machine) :
    Outcome (act >>= fun _ => (Pure.pure v : Access ε β)) m (.ok v) R W := by
  obtain ⟨u, m', hrun, hr, hw⟩ := h m
  refine ⟨m', ?_, hr, hw⟩
  show (ExceptT.bindCont (fun _ => Pure.pure v) (act.run m).1 : StateM Machine _) (act.run m).2 = _
  rw [hrun]
  rfl

theorem read8 (a : Address) (m : Machine) :
    Outcome (read8 a : Access ε (BitVec 8)) m (.ok (m.byte a)) (Run a 1) (fun _ => False) :=
  ⟨{ m with reads := a :: m.reads }, rfl, fun x => by rw [List.mem_cons, run_one],
    fun x => by simp⟩

theorem read32 (a : Address) (m : Machine) :
    Outcome (read32 a : Access ε (BitVec 32)) m (.ok (word32 m a)) (Run a 4) (fun _ => False) := by
  obtain ⟨v, m', hrun, hr, hw⟩ := (Footprint.read32 a : Footprint (Access.read32 a : Access ε _) _ _) m
  have hv : v = word32 m a := (Except.ok.inj (congrArg Prod.fst hrun)).symm
  exact ⟨m', hv ▸ hrun, hr, hw⟩

/-- The machine is deterministic. -/
theorem unique {r r' : Except ε α} (h : Outcome act m r R W) {m' : Machine}
    (hrun : act.run m = (r', m')) :
    r' = r ∧ (∀ x, x ∈ m'.reads ↔ R x ∨ x ∈ m.reads) ∧
      ∀ x, x ∈ m'.writes ↔ W x ∨ x ∈ m.writes := by
  obtain ⟨m₁, hrun₁, hr, hw⟩ := h
  rw [hrun₁] at hrun
  obtain ⟨rfl, rfl⟩ := Prod.mk.inj hrun
  exact ⟨rfl, hr, hw⟩

end Outcome

end Access

end JxCore.Lib
