import Mathlib.Logic.Relation
import Mathlib.Order.Interval.Finset.Nat

/-!
# Scanning a ring for a free run

A ring of `size` blocks, some of them used, is scanned for `need` free blocks that follow each other and
do not run over the end. A round tries the run at one place. If a used block is in the way, the scan goes
on behind it, and if the run does not fit in front of the end, it goes on at 0; then it skips used blocks.
It gives up when it comes back to the place where it started.

The scan finds the first free run from the start on (`Visited.first`), and if there is a free run it does
find one (`exists_visited_run`). If there is none, it may jump over its start and go round for ever;
`exists_out_iff` says when it does not.
-/

namespace JxCore.Lib

/-- A ring with a place to start at and a length to look for. -/
structure Ring where
  size : Nat
  used : Nat → Bool
  start : Nat
  need : Nat

namespace Ring

variable (r : Ring)

/-- A run of free blocks in front of the end. -/
def FreeRun (b : Nat) : Prop := b + r.need ≤ r.size ∧ ∀ i < r.need, r.used (b + i) = false

def AllUsed : Prop := ∀ b < r.size, r.used b = true

/-- The run at `p` is not free, and the scan goes on at `p'`. -/
inductive Fails : Nat → Nat → Prop
  | reset {p : Nat} (hp : p ≠ 0) (h : r.size < p + r.need) : Fails p 0
  | blocked {p i : Nat} (h : p + r.need ≤ r.size) (hi : i < r.need) (hused : r.used (p + i) = true)
      (hfree : ∀ j < i, r.used (p + j) = false) : Fails p ((p + i + 1) % r.size)

/-- The first free block from `p` on is `q`. -/
inductive Lands : Nat → Nat → Prop
  | up {p q : Nat} (hle : p ≤ q) (hlt : q < r.size) (hfree : r.used q = false)
      (hused : ∀ b, p ≤ b → b < q → r.used b = true) : Lands p q
  | wrap {p q : Nat} (hlt : q < p) (hp : p < r.size) (hfree : r.used q = false)
      (hused : ∀ b, p ≤ b → b < r.size → r.used b = true) (hbelow : ∀ b < q, r.used b = true) :
      Lands p q

/-- One round. -/
def Round (p q : Nat) : Prop := ∃ p', r.Fails p p' ∧ p' ≠ r.start ∧ r.Lands p' q

/-- The scan comes to try the run at `p`. -/
def Visited : Nat → Prop := Relation.ReflTransGen r.Round r.start

/-- The scan gives up at `p`. -/
def Out (p : Nat) : Prop :=
  p = 0 ∧ r.size < r.need ∨ ∃ p', r.Fails p p' ∧ (p' = r.start ∨ r.AllUsed)

/-- No free run comes before `b` when one starts at `start`. -/
def First (b : Nat) : Prop :=
  r.start ≤ b ∧ (∀ b', r.start ≤ b' → b' < b → ¬ r.FreeRun b') ∨
    (∀ b', r.start ≤ b' → ¬ r.FreeRun b') ∧ ∀ b' < b, ¬ r.FreeRun b'

/-- A scan that finds nothing ends: all blocks are used; or the length exceeds the ring, and the scan
comes to block 0; or the used block in front of the start ends a free stretch that is tried; or, with a
start at 0, a free stretch begins where the length does not fit. -/
def ComesBack : Prop :=
  r.AllUsed ∨ r.size < r.need ∧ (r.start = 0 ∨ r.used 0 = false) ∨
    r.need ≤ r.size ∧ ((∃ a e, (e = r.start ∨ r.start = 0 ∧ e = r.size) ∧ a + 2 ≤ e ∧
      a + r.need ≤ r.size ∧ (∀ b, a ≤ b → b + 1 < e → r.used b = false) ∧ r.used (e - 1) = true) ∨
    r.start = 0 ∧ ∃ a, 0 < a ∧ a < r.size ∧ r.size < a + r.need ∧ r.used (a - 1) = true ∧
      r.used a = false)

variable {r}

/-! ## Rounds -/

section Rounds

variable {p p' q b : Nat}

/-- A used block in the way. -/
theorem not_freeRun {u : Nat} (hle : b ≤ u) (hlt : u < b + r.need) (hused : r.used u = true) :
    ¬ r.FreeRun b := by
  intro h
  have hfree := h.2 (u - b) (by omega)
  rw [Nat.add_sub_cancel' hle, hused] at hfree
  cases hfree

theorem not_freeRun_of_used (hneed : 0 < r.need) (hused : r.used b = true) : ¬ r.FreeRun b :=
  not_freeRun (Nat.le_refl b) (by omega) hused

/-- A run that is not free is left behind. -/
theorem Fails.advance (h : r.Fails p p') (hp : p < r.size) :
    p' = 0 ∧ (∀ b, p ≤ b → ¬ r.FreeRun b) ∨
      p < p' ∧ p' < r.size ∧ r.used (p' - 1) = true ∧ ∀ b, p ≤ b → b < p' → ¬ r.FreeRun b := by
  cases h with
  | reset hne hlt =>
    refine .inl ⟨rfl, fun b hb hrun => ?_⟩
    have := hrun.1
    omega
  | @blocked i hle hi hused hfree =>
    have hbehind : ∀ b, p ≤ b → b < p + i + 1 → ¬ r.FreeRun b :=
      fun b hb hlt => not_freeRun (by omega) (by omega) hused
    by_cases hend : p + i + 1 = r.size
    · refine .inl ⟨by rw [hend, Nat.mod_self], fun b hb hrun => ?_⟩
      have := hrun.1
      exact hbehind b hb (by omega) hrun
    · rw [Nat.mod_eq_of_lt (by omega)]
      exact .inr ⟨by omega, by omega, hused, hbehind⟩

theorem Lands.lt (h : r.Lands p q) : q < r.size := by
  cases h with
  | up _ hlt _ _ => exact hlt
  | wrap hlt hp _ _ _ => omega

theorem Lands.free (h : r.Lands p q) : r.used q = false := by
  cases h with
  | up _ _ hfree _ => exact hfree
  | wrap _ _ hfree _ _ => exact hfree

/-- Either the scan goes up, or it goes over the end; what it passes is no free run. -/
theorem Round.advance (h : r.Round p q) (hp : p < r.size) (hneed : 0 < r.need) :
    p < q ∧ (∀ b, p ≤ b → b < q → ¬ r.FreeRun b) ∨
      (∀ b, p ≤ b → ¬ r.FreeRun b) ∧ ∀ b < q, ¬ r.FreeRun b := by
  obtain ⟨p', hfails, -, hlands⟩ := h
  rcases hfails.advance hp with ⟨rfl, hnone⟩ | ⟨hlt, hlt', -, hnone⟩
  · cases hlands with
    | up _ _ _ hused =>
      exact .inr ⟨hnone, fun b hb => not_freeRun_of_used hneed (hused b (Nat.zero_le b) hb)⟩
    | wrap hlt _ _ _ _ => exact absurd hlt (Nat.not_lt_zero q)
  · cases hlands with
    | up hle _ _ hused =>
      refine .inl ⟨by omega, fun b hb hbq => ?_⟩
      by_cases hbp : b < p'
      · exact hnone b hb hbp
      · exact not_freeRun_of_used hneed (hused b (by omega) hbq)
    | wrap _ _ _ hused hbelow =>
      refine .inr ⟨fun b hb hrun => ?_, fun b hb => not_freeRun_of_used hneed (hbelow b hb)⟩
      by_cases hbp : b < p'
      · exact hnone b hb hbp hrun
      · have := hrun.1
        exact not_freeRun_of_used hneed (hused b (by omega) (by omega)) hrun

theorem Round.lt (h : r.Round p q) : q < r.size := by
  obtain ⟨_, -, -, hlands⟩ := h
  exact hlands.lt

/-- A round ends at the beginning of a free stretch. -/
theorem Round.begins (h : r.Round p q) (hp : p < r.size) :
    r.used q = false ∧ (0 < q → r.used (q - 1) = true) := by
  obtain ⟨p', hfails, -, hlands⟩ := h
  refine ⟨hlands.free, fun hq => ?_⟩
  cases hlands with
  | up hle _ _ hused =>
    by_cases heq : p' = q
    · subst heq
      rcases hfails.advance hp with ⟨rfl, -⟩ | ⟨-, -, hlast, -⟩
      · omega
      · exact hlast
    · exact hused (q - 1) (by omega) (by omega)
  | wrap _ _ _ _ hbelow => exact hbelow (q - 1) (by omega)

end Rounds

/-! ## What the scan finds -/

section Finds

variable {p q b : Nat}

theorem First.round (h : r.First p) (hround : r.Round p q) (hp : p < r.size) (hneed : 0 < r.need) :
    r.First q := by
  rcases hround.advance hp hneed with ⟨hlt, hnone⟩ | ⟨hnone, hbelow⟩
  · rcases h with ⟨hle, hpassed⟩ | ⟨habove, hpassed⟩
    · refine .inl ⟨by omega, fun b hb hbq => ?_⟩
      by_cases hbp : b < p
      · exact hpassed b hb hbp
      · exact hnone b (by omega) hbq
    · refine .inr ⟨habove, fun b hbq => ?_⟩
      by_cases hbp : b < p
      · exact hpassed b hbp
      · exact hnone b (by omega) hbq
  · refine .inr ⟨fun b hb => ?_, hbelow⟩
    rcases h with ⟨hle, hpassed⟩ | ⟨habove, -⟩
    · by_cases hbp : b < p
      · exact hpassed b hb hbp
      · exact hnone b (by omega)
    · exact habove b hb

/-- A place that is tried comes first. -/
theorem Visited.first (hstart : r.start < r.size) (hneed : 0 < r.need) (h : r.Visited p) :
    p < r.size ∧ r.First p := by
  induction h with
  | refl => exact ⟨hstart, .inl ⟨Nat.le_refl _, fun b hb hlt => absurd hlt (by omega)⟩⟩
  | tail _ hround ih => exact ⟨hround.lt, ih.2.round hround ih.1 hneed⟩

/-- There is only one first run. -/
theorem First.unique (hp : r.First p) (hq : r.First q) (hprun : r.FreeRun p) (hqrun : r.FreeRun q) :
    p = q := by
  by_contra hne
  rcases hp with ⟨hple, hp⟩ | ⟨habove, hp⟩ <;> rcases hq with ⟨hqle, hq⟩ | ⟨habove', hq⟩
  · rcases Nat.lt_or_gt_of_ne hne with hlt | hlt
    · exact hq p hple hlt hprun
    · exact hp q hqle hlt hqrun
  · exact habove' p hple hprun
  · exact habove q hqle hqrun
  · rcases Nat.lt_or_gt_of_ne hne with hlt | hlt
    · exact hq p hlt hprun
    · exact hp q hlt hqrun

/-- The scan gives up only if there is no free run. -/
theorem First.not_freeRun_of_out (h : r.First p) (hp : p < r.size) (hneed : 0 < r.need)
    (hout : r.Out p) (b : Nat) : ¬ r.FreeRun b := by
  intro hrun
  have hfits := hrun.1
  rcases hout with ⟨-, hlarge⟩ | ⟨p', hfails, rfl | hall⟩
  · omega
  · rcases hfails.advance hp with ⟨hzero, hnone⟩ | ⟨hlt, -, -, hnone⟩
    · rcases h with ⟨-, hpassed⟩ | ⟨habove, -⟩
      · by_cases hbp : b < p
        · exact hpassed b (by omega) hbp hrun
        · exact hnone b (by omega) hrun
      · exact habove b (by omega) hrun
    · rcases h with ⟨hle, -⟩ | ⟨habove, hpassed⟩
      · omega
      · by_cases hbp : b < p
        · exact hpassed b hbp hrun
        · by_cases hbs : b < r.start
          · exact hnone b (by omega) hbs hrun
          · exact habove b (by omega) hrun
  · exact not_freeRun_of_used hneed (hall b (by omega)) hrun

/-- The first block in a range with a property. -/
theorem exists_least {P : Nat → Prop} (h : ∃ b, P b) : ∃ b, P b ∧ ∀ b' < b, ¬ P b' := by
  classical
  exact ⟨Nat.find h, Nat.find_spec h, fun b' hb' => Nat.find_min h hb'⟩

theorem exists_lands (hp : p < r.size) (h : ¬ r.AllUsed) : ∃ q, r.Lands p q := by
  have hsome : ∃ b, b < r.size ∧ r.used b = false := by
    unfold AllUsed at h
    push Not at h
    obtain ⟨b, hb, hfree⟩ := h
    exact ⟨b, hb, Bool.eq_false_iff.mpr hfree⟩
  by_cases habove : ∃ b, p ≤ b ∧ b < r.size ∧ r.used b = false
  · obtain ⟨q, ⟨hle, hlt, hfree⟩, hmin⟩ := exists_least habove
    refine ⟨q, .up hle hlt hfree fun b hb hbq => ?_⟩
    by_contra hused
    exact hmin b hbq ⟨hb, by omega, Bool.eq_false_iff.mpr hused⟩
  · obtain ⟨q, ⟨hlt, hfree⟩, hmin⟩ := exists_least hsome
    have hqp : q < p := by
      by_contra hcon
      exact habove ⟨q, by omega, hlt, hfree⟩
    refine ⟨q, .wrap hqp hp hfree (fun b hb hbs => ?_) fun b hb => ?_⟩
    · by_contra hused
      exact habove ⟨b, hb, hbs, Bool.eq_false_iff.mpr hused⟩
    · by_contra hused
      exact hmin b hb ⟨by omega, Bool.eq_false_iff.mpr hused⟩

theorem Fails.lt {p' : Nat} (h : r.Fails p p') (hp : p < r.size) : p' < r.size := by
  cases h with
  | reset => omega
  | blocked => exact Nat.mod_lt _ (by omega)

/-- Each place has a free run, or ends the scan, or has a next place. -/
theorem total (hp : p < r.size) : r.FreeRun p ∨ r.Out p ∨ ∃ q, r.Round p q := by
  have hgo : ∀ p', r.Fails p p' → r.Out p ∨ ∃ q, r.Round p q := by
    intro p' hfails
    by_cases hback : p' = r.start ∨ r.AllUsed
    · exact .inl (.inr ⟨p', hfails, hback⟩)
    · obtain ⟨hne, hsome⟩ := not_or.mp hback
      obtain ⟨q, hlands⟩ := exists_lands (hfails.lt hp) hsome
      exact .inr ⟨q, p', hfails, hne, hlands⟩
  by_cases hfits : p + r.need ≤ r.size
  · by_cases hfree : ∀ i < r.need, r.used (p + i) = false
    · exact .inl ⟨hfits, hfree⟩
    · push Not at hfree
      obtain ⟨i, ⟨hi, hused⟩, hmin⟩ := exists_least hfree
      refine .inr (hgo _ (.blocked hfits hi (Bool.eq_true_of_not_eq_false hused) fun j hj => ?_))
      by_contra hj'
      exact hmin j hj ⟨by omega, hj'⟩
  · by_cases hzero : p = 0
    · exact .inr (.inl (.inl ⟨hzero, by omega⟩))
    · exact .inr (hgo 0 (.reset hzero (by omega)))

/-- A free run further up is found. -/
theorem Visited.exists_run_above (hstart : r.start < r.size) (hneed : 0 < r.need) (h : r.Visited p)
    (hb : p ≤ b) (hrun : r.FreeRun b) : ∃ q, r.Visited q ∧ r.FreeRun q := by
  obtain ⟨hp, hfirst⟩ := h.first hstart hneed
  induction hk : r.size - p using Nat.strong_induction_on generalizing p with
  | _ k ih =>
    rcases total hp with hfree | hout | ⟨q, hround⟩
    · exact ⟨p, h, hfree⟩
    · exact absurd hrun (hfirst.not_freeRun_of_out hp hneed hout b)
    · rcases hround.advance hp hneed with ⟨hlt, hnone⟩ | ⟨hnone, -⟩
      · have hbq : q ≤ b := Nat.le_of_not_lt fun hlt => hnone b hb hlt hrun
        have hq := hround.lt
        exact ih (r.size - q) (by omega) (h.tail hround) hbq hq (hfirst.round hround hp hneed) rfl
      · exact absurd hrun (hnone b hb)

/-- If there is a free run, one is found. -/
theorem exists_visited_run (hstart : r.start < r.size) (hneed : 0 < r.need) (hrun : r.FreeRun b) :
    ∃ q, r.Visited q ∧ r.FreeRun q := by
  suffices hfrom : ∀ k p, r.Visited p → r.size - p = k → ∃ q, r.Visited q ∧ r.FreeRun q from
    hfrom _ r.start .refl rfl
  intro k
  induction k using Nat.strong_induction_on with
  | _ k ih =>
    intro p h hk
    obtain ⟨hp, hfirst⟩ := h.first hstart hneed
    rcases total hp with hfree | hout | ⟨q, hround⟩
    · exact ⟨p, h, hfree⟩
    · exact absurd hrun (hfirst.not_freeRun_of_out hp hneed hout b)
    · rcases hround.advance hp hneed with ⟨hlt, -⟩ | ⟨-, hbelow⟩
      · exact ih (r.size - q) (by omega) q (h.tail hround) rfl
      · -- over the end: the run is still ahead
        have hbq : q ≤ b := Nat.le_of_not_lt fun hlt => hbelow b hlt hrun
        exact Visited.exists_run_above hstart hneed (h.tail hround) hbq hrun

end Finds

/-! ## When a scan ends that finds nothing -/

section Ends

variable {p p' q a : Nat}

/-- The scan does not pass a free block. -/
theorem Lands.le_of_free (h : r.Lands p' q) (ha : a < r.size) (hfree : r.used a = false)
    (hle : p' ≤ a) : p' ≤ q ∧ q ≤ a := by
  cases h with
  | up hpq _ _ hused =>
    refine ⟨hpq, Nat.le_of_not_lt fun hlt => ?_⟩
    rw [hused a hle hlt] at hfree
    cases hfree
  | wrap _ _ _ hused _ =>
    rw [hused a hle ha] at hfree
    cases hfree

/-- A round that does not go up comes to the first free block. -/
theorem Round.up_or_below (h : r.Round p q) (hp : p < r.size) :
    p < q ∨ ∀ b < q, r.used b = true := by
  obtain ⟨p', hfails, -, hlands⟩ := h
  cases hlands with
  | up hle _ _ hused =>
    rcases hfails.advance hp with ⟨rfl, -⟩ | ⟨hlt, -⟩
    · exact .inr fun b hb => hused b (Nat.zero_le b) hb
    · exact .inl (by omega)
  | wrap _ _ _ _ hbelow => exact .inr hbelow

/-- Each free block is reached from below, unless the scan ends before. -/
theorem exists_visited_le (hstart : r.start < r.size) (hneed : 0 < r.need)
    (hnone : ∀ b, ¬ r.FreeRun b) (hfree : r.used a = false) :
    ∃ q, r.Visited q ∧ (r.Out q ∨ q ≤ a) := by
  suffices hfrom : ∀ k p, r.Visited p → r.size - p = k → ∃ q, r.Visited q ∧ (r.Out q ∨ q ≤ a) from
    hfrom _ r.start .refl rfl
  intro k
  induction k using Nat.strong_induction_on with
  | _ k ih =>
    intro p h hk
    have hp := (h.first hstart hneed).1
    rcases total hp with hrun | hout | ⟨q, hround⟩
    · exact absurd hrun (hnone p)
    · exact ⟨p, h, .inl hout⟩
    · rcases hround.up_or_below hp with hlt | hbelow
      · exact ih (r.size - q) (by omega) q (h.tail hround) rfl
      · refine ⟨q, h.tail hround, .inr (Nat.le_of_not_lt fun hlt => ?_)⟩
        rw [hbelow a hlt] at hfree
        cases hfree

/-- From below a free block `a` the scan goes up to `a` if what stops it there is below `a`, and ends if it
does not go on from there. -/
theorem exists_out_of_le (hstart : r.start < r.size) (hneed : 0 < r.need)
    (hnone : ∀ b, ¬ r.FreeRun b) (ha : a < r.size) (hfree : r.used a = false)
    (hstop : ∀ p p', p ≤ a → r.Fails p p' → p' = r.start ∨ p < p' ∧ p' ≤ a)
    (h : r.Visited p) (hle : p ≤ a) : ∃ q, r.Visited q ∧ r.Out q := by
  induction hk : a - p using Nat.strong_induction_on generalizing p with
  | _ k ih =>
    have hp := (h.first hstart hneed).1
    rcases total hp with hrun | hout | ⟨q, hround⟩
    · exact absurd hrun (hnone p)
    · exact ⟨p, h, hout⟩
    · obtain ⟨p', hfails, hne, hlands⟩ := hround
      obtain ⟨hlt, hpa⟩ := (hstop p p' hle hfails).resolve_left hne
      obtain ⟨hpq, hqa⟩ := hlands.le_of_free ha hfree hpa
      exact ih (a - q) (by omega) (h.tail ⟨p', hfails, hne, hlands⟩) hqa rfl

/-- The used block in front of the start is what stops the scan in the end. -/
theorem fails_before_start {e : Nat} (he : e = r.start ∨ r.start = 0 ∧ e = r.size)
    (hstart : r.start < r.size) (hlt : a + 2 ≤ e) (hfits : a + r.need ≤ r.size)
    (hstretch : ∀ b, a ≤ b → b + 1 < e → r.used b = false) (hused : r.used (e - 1) = true)
    (hle : p ≤ a) (h : r.Fails p p') : p' = r.start ∨ p < p' ∧ p' ≤ a := by
  cases h with
  | reset _ hlarge => omega
  | @blocked i _ hi hblock hbefore =>
    by_cases hi' : p + i < a
    · refine .inr ?_
      rw [Nat.mod_eq_of_lt (by omega)]
      omega
    · refine .inl ?_
      have hge : e ≤ p + i + 1 := by
        by_contra hcon
        rw [hstretch (p + i) (by omega) (by omega)] at hblock
        cases hblock
      have hend : p + i + 1 = e := by
        by_contra hcon
        have hfree := hbefore (e - 1 - p) (by omega)
        rw [show p + (e - 1 - p) = e - 1 by omega, hused] at hfree
        cases hfree
      rcases he with rfl | ⟨hzero, rfl⟩
      · rw [hend, Nat.mod_eq_of_lt hstart]
      · rw [hend, Nat.mod_self, hzero]

/-- A free stretch that begins too late makes the scan start again at 0. -/
theorem fails_before_late (hzero : r.start = 0) (hpos : 0 < a) (ha : a < r.size)
    (hlate : r.size < a + r.need) (hused : r.used (a - 1) = true) (hle : p ≤ a) (h : r.Fails p p') :
    p' = r.start ∨ p < p' ∧ p' ≤ a := by
  cases h with
  | reset => exact .inl hzero.symm
  | @blocked i hfits hi hblock hbefore =>
    refine .inr ?_
    have hend : p + i < a := by
      by_contra hcon
      have hfree := hbefore (a - 1 - p) (by omega)
      rw [show p + (a - 1 - p) = a - 1 by omega, hused] at hfree
      cases hfree
    rw [Nat.mod_eq_of_lt (by omega)]
    omega

/-- A place that is tried is the start, or a free stretch begins there. -/
theorem Visited.begins (hstart : r.start < r.size) (hneed : 0 < r.need) (h : r.Visited p) :
    p = r.start ∨ r.used p = false ∧ (0 < p → r.used (p - 1) = true) := by
  rcases Relation.ReflTransGen.cases_tail h with heq | ⟨q, hq, hround⟩
  · exact .inl heq
  · exact .inr (hround.begins (Visited.first hstart hneed hq).1)

theorem comesBack_of_out (hstart : r.start < r.size) (hneed : 0 < r.need) (h : r.Visited p)
    (hout : r.Out p) : r.ComesBack := by
  by_cases hall : r.AllUsed
  · exact .inl hall
  have hp := (h.first hstart hneed).1
  have hbegins := h.begins hstart hneed
  rcases hout with ⟨rfl, hlarge⟩ | ⟨p', hfails, hback⟩
  · exact .inr (.inl ⟨hlarge, hbegins.imp Eq.symm And.left⟩)
  · have hback : p' = r.start := hback.resolve_right hall
    cases hfails with
    | reset hne hlt =>
      have hfree := hbegins.resolve_left (by omega)
      by_cases hlarge : r.size < r.need
      · exact .inr (.inl ⟨hlarge, .inl hback.symm⟩)
      · exact .inr (.inr ⟨by omega, .inr ⟨hback.symm, p, by omega, hp, hlt, hfree.2 (by omega),
          hfree.1⟩⟩)
    | @blocked i hfits hi hused hbefore =>
      -- a used block at `p` itself: the start, and the only block
      have hpos : 0 < i := by
        by_contra hzero
        obtain rfl : i = 0 := by omega
        have hpstart : p = r.start := by
          rcases hbegins with heq | ⟨hfree, -⟩
          · exact heq
          · rw [Nat.add_zero, hfree] at hused
            cases hused
        by_cases hone : p + 0 + 1 = r.size
        · refine hall fun b hb => ?_
          rw [hone, Nat.mod_self] at hback
          obtain rfl : b = p + 0 := by omega
          exact hused
        · rw [Nat.mod_eq_of_lt (by omega)] at hback
          omega
      refine .inr (.inr ⟨by omega, .inl ⟨p, p + i + 1, ?_, by omega, hfits, fun b hb hlt => ?_, hused⟩⟩)
      · by_cases hend : p + i + 1 = r.size
        · rw [hend, Nat.mod_self] at hback
          exact .inr ⟨hback.symm, hend⟩
        · rw [Nat.mod_eq_of_lt (by omega)] at hback
          exact .inl hback
      · have hfree := hbefore (b - p) (by omega)
        rwa [Nat.add_sub_cancel' hb] at hfree

theorem out_of_comesBack (hstart : r.start < r.size) (hneed : 0 < r.need)
    (hnone : ∀ b, ¬ r.FreeRun b) (h : r.ComesBack) : ∃ p, r.Visited p ∧ r.Out p := by
  have hreach : ∀ a < r.size, r.used a = false →
      (∀ p p', p ≤ a → r.Fails p p' → p' = r.start ∨ p < p' ∧ p' ≤ a) →
      ∃ p, r.Visited p ∧ r.Out p := by
    intro a ha hfree hstop
    obtain ⟨q, hq, hout | hle⟩ := exists_visited_le hstart hneed hnone hfree
    · exact ⟨q, hq, hout⟩
    · exact exists_out_of_le hstart hneed hnone ha hfree hstop hq hle
  rcases h with hall | ⟨hlarge, hzero⟩ | ⟨-, ⟨a, e, he, hlt, hfits, hstretch, hused⟩ |
    ⟨hzero, a, hpos, ha, hlate, hused, hfree⟩⟩
  · rcases total hstart with hrun | hout | ⟨q, hround⟩
    · exact absurd hrun (hnone _)
    · exact ⟨_, .refl, hout⟩
    · have hused := hall q hround.lt
      rw [(hround.begins hstart).1] at hused
      cases hused
  · rcases hzero with hzero | hfree
    · exact ⟨r.start, .refl, .inl ⟨hzero, hlarge⟩⟩
    · obtain ⟨q, hq, hout | hle⟩ := exists_visited_le hstart hneed hnone hfree
      · exact ⟨q, hq, hout⟩
      · exact ⟨q, hq, .inl ⟨by omega, hlarge⟩⟩
  · exact hreach a (by omega) (hstretch a (Nat.le_refl a) (by omega)) fun p p' hle hfails =>
      fails_before_start he hstart hlt hfits hstretch hused hle hfails
  · exact hreach a ha hfree fun p p' hle hfails =>
      fails_before_late hzero hpos ha hlate hused hle hfails

/-- Without a free run, the scan ends exactly if it comes back to its start. -/
theorem exists_out_iff (hstart : r.start < r.size) (hneed : 0 < r.need)
    (hnone : ∀ b, ¬ r.FreeRun b) : (∃ p, r.Visited p ∧ r.Out p) ↔ r.ComesBack := by
  constructor
  · rintro ⟨p, hp, hout⟩
    exact comesBack_of_out hstart hneed hp hout
  · exact out_of_comesBack hstart hneed hnone

end Ends

end Ring

end JxCore.Lib
