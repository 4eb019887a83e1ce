import Mathlib.Data.Finset.Card
import Mathlib.Data.Fintype.Card
import Mathlib.Data.List.Nodup
import Mathlib.Logic.Relation

/-!
# Initialisers that run once and call each other

Things have initialisers. An initialiser computes something, and on the way it asks for other things,
whose initialisers then run before it goes on. A thing is marked as ready before its own initialiser
starts, so that nothing is initialised twice, and a thing that depends on itself does not loop.

Each request ends, whatever the initialisers ask each other for. When nothing depends on itself, what
an initialiser asks for has been initialised when it goes on.
-/

namespace JxCore.Lib.RunOnce

variable {ι σ : Type}

/-! ## Scripts -/

/-- The code of an initialiser, on data of type `σ`. -/
inductive Script (ι σ : Type) where
  | done
  | act (f : σ → σ) (next : Script ι σ)
  | branch (next : σ → Script ι σ)
  /-- Ask for `i`, and go on. -/
  | need (i : ι) (next : Script ι σ)

/-- The code may ask for `i`. -/
def Script.Asks : Script ι σ → ι → Prop
  | done, _ => False
  | act _ next, i => next.Asks i
  | branch next, i => ∃ x, (next x).Asks i
  | need j next, i => j = i ∨ next.Asks i

inductive Event (ι : Type) where
  | enter (i : ι)
  /-- A request for `i` has come back. -/
  | passed (i : ι)
  | leave (i : ι)
  deriving DecidableEq, Repr

structure State (ι σ : Type) where
  ready : Finset ι
  data : σ
  log : List (Event ι)

def State.push (s : State ι σ) (e : Event ι) : State ι σ := { s with log := s.log ++ [e] }

/-! ## What a run does -/

/-- Every initialiser that has been entered is left again, and the calls are nested. -/
inductive Nested : List (Event ι) → Prop where
  | nil : Nested []
  | passed {i : ι} {w : List (Event ι)} : Nested w → Nested (.passed i :: w)
  | call {i : ι} {w v : List (Event ι)} : Nested w → Nested v →
      Nested (.enter i :: (w ++ .leave i :: v))

/-- The initialisers that have been entered, in this order. -/
def entered (w : List (Event ι)) : List ι :=
  w.filterMap fun e => match e with
    | .enter i => some i
    | _ => none

/-- From `s` to `s'` things have become ready, and the initialiser of each of them has run once. -/
structure Ran (code : ι → Option (Script ι σ)) (s s' : State ι σ) : Prop where
  subset : s.ready ⊆ s'.ready
  log : ∃ w, s'.log = s.log ++ w ∧ Nested w ∧ (entered w).Nodup ∧
    ∀ i, i ∈ entered w ↔ i ∈ s'.ready ∧ i ∉ s.ready ∧ (code i).isSome

section

variable {code : ι → Option (Script ι σ)} {s s' s'' : State ι σ} {w v : List (Event ι)} {i : ι}

theorem Nested.append (h : Nested w) (h' : Nested v) : Nested (w ++ v) := by
  induction h with
  | nil => exact h'
  | passed _ ih => exact ih.passed
  | call hw _ _ ih =>
    rw [List.cons_append, List.append_assoc, List.cons_append]
    exact hw.call ih

@[simp] theorem entered_append (w v : List (Event ι)) : entered (w ++ v) = entered w ++ entered v :=
  List.filterMap_append

@[simp] theorem entered_enter (i : ι) (w : List (Event ι)) :
    entered (.enter i :: w) = i :: entered w := rfl

@[simp] theorem entered_leave (i : ι) (w : List (Event ι)) : entered (.leave i :: w) = entered w := rfl

@[simp] theorem entered_nil : entered ([] : List (Event ι)) = [] := rfl

theorem Ran.refl (code : ι → Option (Script ι σ)) (s : State ι σ) : Ran code s s where
  subset := Finset.Subset.refl _
  log := ⟨[], by simp, .nil, List.nodup_nil, by simp; tauto⟩

theorem Ran.trans (h : Ran code s s') (h' : Ran code s' s'') : Ran code s s'' := by
  obtain ⟨w, hw, hnw, hdw, hew⟩ := h.log
  obtain ⟨v, hv, hnv, hdv, hev⟩ := h'.log
  refine ⟨h.subset.trans h'.subset, w ++ v, ?_, hnw.append hnv, ?_, fun i => ?_⟩
  · rw [hv, hw, List.append_assoc]
  · rw [entered_append, List.nodup_append]
    refine ⟨hdw, hdv, fun i hi j hj hij => ?_⟩
    exact ((hev j).mp hj).2.1 (hij ▸ ((hew i).mp hi).1)
  · have hmono := @h.subset i
    have hmono' := @h'.subset i
    rw [entered_append, List.mem_append, hew, hev]
    tauto

theorem Ran.passed (h : Ran code s s') (i : ι) : Ran code s (s'.push (.passed i)) := by
  refine h.trans ⟨Finset.Subset.refl _, [.passed i], rfl, .passed .nil, List.nodup_nil, fun j => ?_⟩
  simp [State.push]
  tauto

end

/-! ## Requests -/

section Requests

variable [DecidableEq ι]

/-- Run the code; `call` is what a request for something does that is not ready. -/
def exec (call : ι → State ι σ → Option (State ι σ)) : Script ι σ → State ι σ → Option (State ι σ)
  | .done, s => some s
  | .act f next, s => exec call next { s with data := f s.data }
  | .branch next, s => exec call (next s.data) s
  | .need i next, s =>
    (if i ∈ s.ready then some s else call i s).bind fun s => exec call next (s.push (.passed i))

/-- A request for `i`. Things without an initialiser are only marked. -/
def init (code : ι → Option (Script ι σ)) : (depth : Nat) → ι → State ι σ → Option (State ι σ)
  | 0, _, _ => none
  | depth + 1, i, s =>
    if i ∈ s.ready then
      some s
    else
      let s := { s with ready := insert i s.ready }
      match code i with
      | none => some s
      | some script => (exec (init code depth) script (s.push (.enter i))).map (·.push (.leave i))

section

variable {code : ι → Option (Script ι σ)} {s s' : State ι σ} {i : ι}

/-- A call of an initialiser. -/
theorem Ran.call {script : Script ι σ} (hcode : code i = some script) (hi : i ∉ s.ready)
    (h : Ran code ({ s with ready := insert i s.ready }.push (.enter i)) s') :
    Ran code s (s'.push (.leave i)) := by
  obtain ⟨w, hw, hn, hd, he⟩ := h.log
  have hmem := h.subset
  simp only [State.push] at hw he hmem
  refine ⟨(Finset.subset_insert _ _).trans hmem, .enter i :: (w ++ [.leave i]), ?_, hn.call .nil, ?_,
    fun j => ?_⟩
  · simp [State.push, hw]
  · simp only [entered_enter, entered_append, entered_leave, entered_nil, List.append_nil,
      List.nodup_cons]
    exact ⟨fun hi => ((he i).mp hi).2.1 (Finset.mem_insert_self _ _), hd⟩
  · simp only [entered_enter, entered_append, entered_leave, entered_nil, List.append_nil,
      List.mem_cons, he, State.push, Finset.mem_insert]
    have hown := hmem (Finset.mem_insert_self i s.ready)
    constructor
    · rintro (rfl | ⟨hj, hno, hsome⟩)
      · exact ⟨hown, hi, by rw [hcode]; rfl⟩
      · exact ⟨hj, fun h => hno (.inr h), hsome⟩
    · rintro ⟨hj, hno, hsome⟩
      by_cases hij : j = i
      · exact .inl hij
      · exact .inr ⟨hj, by tauto, hsome⟩

end

/-! ## Every request ends -/

section

variable [Fintype ι] {code : ι → Option (Script ι σ)} {s s' : State ι σ} {depth : Nat} {i : ι}

/-- The number of things that are not ready. -/
def State.pending (s : State ι σ) : Nat := (s.readyᶜ).card

theorem State.pending_mono (h : s.ready ⊆ s'.ready) : s'.pending ≤ s.pending :=
  Finset.card_le_card (Finset.compl_subset_compl.mpr h)

theorem State.pending_insert (hi : i ∉ s.ready) :
    ({ s with ready := insert i s.ready } : State ι σ).pending < s.pending :=
  Finset.card_lt_card (Finset.compl_ssubset_compl.mpr (Finset.ssubset_insert hi))

theorem exec_ran {call : ι → State ι σ → Option (State ι σ)} {n : Nat}
    (hcall : ∀ i s, s.pending ≤ n → ∃ s', call i s = some s' ∧ Ran code s s')
    (script : Script ι σ) (s : State ι σ) (hs : s.pending ≤ n) :
    ∃ s', exec call script s = some s' ∧ Ran code s s' := by
  induction script generalizing s with
  | done => exact ⟨s, rfl, .refl _ _⟩
  | act f next ih =>
    obtain ⟨s', hexec, hran⟩ := ih { s with data := f s.data } hs
    exact ⟨s', hexec, hran.subset, hran.log⟩
  | branch next ih => exact ih s.data s hs
  | need i next ih =>
    have hrequest : ∃ t, (if i ∈ s.ready then some s else call i s) = some t ∧ Ran code s t := by
      split
      · exact ⟨s, rfl, .refl _ _⟩
      · exact hcall i s hs
    obtain ⟨t, hcalled, hran⟩ := hrequest
    have hpassed := hran.passed i
    obtain ⟨s', hexec, hrest⟩ := ih (t.push (.passed i))
      (Nat.le_trans (State.pending_mono hpassed.subset) hs)
    refine ⟨s', ?_, hpassed.trans hrest⟩
    rw [exec, hcalled, Option.bind_some, hexec]

/-- The recursion is on the number of things that are not ready. -/
theorem init_ran (code : ι → Option (Script ι σ)) (depth : Nat) (i : ι) (s : State ι σ)
    (hs : s.pending < depth) : ∃ s', init code depth i s = some s' ∧ Ran code s s' ∧ i ∈ s'.ready := by
  induction depth generalizing i s with
  | zero => cases hs
  | succ depth ih =>
    rw [init]
    by_cases hi : i ∈ s.ready
    · exact ⟨s, if_pos hi, .refl _ _, hi⟩
    · rw [if_neg hi]
      have hless := State.pending_insert hi
      cases hcode : code i with
      | none =>
        refine ⟨_, rfl, ⟨Finset.subset_insert _ _, [], by simp, .nil, List.nodup_nil, fun j => ?_⟩,
          Finset.mem_insert_self _ _⟩
        simp only [entered_nil, List.not_mem_nil, Finset.mem_insert, false_iff, not_and]
        rintro (rfl | hj) hno
        · simp [hcode]
        · exact absurd hj hno
      | some script =>
        obtain ⟨t, hexec, hran⟩ := exec_ran (n := depth - 1) (fun j t ht => by
            obtain ⟨t', hinit, hran, -⟩ := ih j t (by omega)
            exact ⟨t', hinit, hran⟩) script
          (({ s with ready := insert i s.ready } : State ι σ).push (.enter i))
          (show ({ s with ready := insert i s.ready } : State ι σ).pending ≤ depth - 1 by omega)
        refine ⟨t.push (.leave i), ?_, hran.call hcode hi, hran.subset (Finset.mem_insert_self _ _)⟩
        simp only [hexec, Option.map_some]

end

end Requests

/-! ## Things that do not depend on themselves -/

/-- The initialiser of `i` may ask for `j`. -/
def Needs (code : ι → Option (Script ι σ)) (i j : ι) : Prop :=
  ∃ script, code i = some script ∧ script.Asks j

/-- The initialiser of `i` has come to its end. -/
def Done (code : ι → Option (Script ι σ)) (log : List (Event ι)) (i : ι) : Prop :=
  code i = none ∨ .leave i ∈ log

/-- Whoever goes on after a request finds what it has asked for initialised. -/
def Ordered (code : ι → Option (Script ι σ)) (log : List (Event ι)) : Prop :=
  ∀ pre i post, log = pre ++ .passed i :: post → Done code pre i

/-- What is ready has been initialised, or is being initialised. -/
structure Settled (code : ι → Option (Script ι σ)) (active : ι → Prop) (s : State ι σ) : Prop where
  ordered : Ordered code s.log
  ready : ∀ i ∈ s.ready, Done code s.log i ∨ active i

section

variable {code : ι → Option (Script ι σ)} {active : ι → Prop} {s s' : State ι σ} {depth : Nat} {i : ι}
  {e : Event ι} {log : List (Event ι)}

theorem Done.push (h : Done code log i) (e : Event ι) : Done code (log ++ [e]) i :=
  h.imp_right fun h => List.mem_append_left [e] h

theorem Ordered.push (h : Ordered code log) (he : ∀ i, e = .passed i → Done code log i) :
    Ordered code (log ++ [e]) := by
  intro pre i post hsplit
  rcases List.eq_nil_or_concat post with rfl | ⟨post, x, rfl⟩
  · obtain ⟨rfl, hlast⟩ := List.append_inj' hsplit rfl
    exact he i (List.cons.inj hlast).1
  · rw [List.concat_eq_append, ← List.cons_append, ← List.append_assoc] at hsplit
    exact h pre i post (List.append_inj' hsplit rfl).1

theorem Settled.push (h : Settled code active s) (he : ∀ i, e = .passed i → Done code s.log i) :
    Settled code active (s.push e) :=
  ⟨h.ordered.push he, fun i hi => (h.ready i hi).imp_left fun h => h.push e⟩

variable [DecidableEq ι]

theorem exec_settled (hacyclic : ∀ i, ¬ Relation.TransGen (Needs code) i i)
    {call : ι → State ι σ → Option (State ι σ)}
    (hcall : ∀ i s s', Settled code active s → (∀ j, active j → Relation.TransGen (Needs code) j i) →
      call i s = some s' → Settled code active s' ∧ Done code s'.log i)
    (script : Script ι σ) (h : Settled code active s)
    (hasks : ∀ i, script.Asks i → ∀ j, active j → Relation.TransGen (Needs code) j i)
    (hexec : exec call script s = some s') : Settled code active s' := by
  induction script generalizing s with
  | done =>
    obtain rfl := Option.some.inj hexec
    exact h
  | act f next ih => exact ih (s := { s with data := f s.data }) ⟨h.ordered, h.ready⟩ hasks hexec
  | branch next ih => exact ih s.data h (fun i hi => hasks i ⟨s.data, hi⟩) hexec
  | need i next ih =>
    obtain ⟨t, hcalled, hexec⟩ := Option.bind_eq_some_iff.mp hexec
    have hactive := hasks i (.inl rfl)
    have hrequest : Settled code active t ∧ Done code t.log i := by
      split at hcalled
      · next hi =>
        obtain rfl := Option.some.inj hcalled
        exact ⟨h, (h.ready i hi).resolve_right fun hi => hacyclic i (hactive i hi)⟩
      · exact hcall i s t h hactive hcalled
    obtain ⟨ht, hdone⟩ := hrequest
    refine ih (ht.push fun j hj => ?_) (fun j hj => hasks j (.inr hj)) hexec
    cases hj
    exact hdone

/-- The things whose initialisers are running depend on what they ask for, and nothing depends on
itself, so that they are not asked for. -/
theorem init_settled (hacyclic : ∀ i, ¬ Relation.TransGen (Needs code) i i)
    (h : Settled code active s) (hactive : ∀ j, active j → Relation.TransGen (Needs code) j i)
    (hinit : init code depth i s = some s') : Settled code active s' ∧ Done code s'.log i := by
  induction depth generalizing active i s s' with
  | zero => cases hinit
  | succ depth ih =>
    rw [init] at hinit
    split at hinit
    · next hi =>
      obtain rfl := Option.some.inj hinit
      exact ⟨h, (h.ready i hi).resolve_right fun hi => hacyclic i (hactive i hi)⟩
    · simp only at hinit
      split at hinit
      · next hcode =>
        obtain rfl := Option.some.inj hinit
        refine ⟨⟨h.ordered, fun j hj => ?_⟩, .inl hcode⟩
        rcases Finset.mem_insert.mp hj with rfl | hj
        · exact .inl (.inl hcode)
        · exact h.ready j hj
      · next script hcode =>
        obtain ⟨t, hexec, rfl⟩ := Option.map_eq_some_iff.mp hinit
        have hstart : Settled code (fun j => j = i ∨ active j)
            (({ s with ready := insert i s.ready } : State ι σ).push (.enter i)) := by
          refine Settled.push ⟨h.ordered, fun j hj => ?_⟩ fun j hj => by cases hj
          rcases Finset.mem_insert.mp hj with rfl | hj
          · exact .inr (.inl rfl)
          · exact (h.ready j hj).imp_right .inr
        have ht : Settled code (fun j => j = i ∨ active j) t := by
          refine exec_settled hacyclic (fun j u u' hu hj hcalled => ih hu hj hcalled) script hstart ?_ hexec
          rintro j hj k (rfl | hk)
          · exact .single ⟨script, hcode, hj⟩
          · exact (hactive k hk).tail ⟨script, hcode, hj⟩
        have hleave : .leave i ∈ (t.push (.leave i)).log := by simp [State.push]
        have hpush := ht.push (e := .leave i) fun j hj => by cases hj
        refine ⟨⟨hpush.ordered, fun j hj => ?_⟩, .inr hleave⟩
        rcases hpush.ready j hj with hdone | rfl | hj
        · exact .inl hdone
        · exact .inl (.inr hleave)
        · exact .inr hj

end

end JxCore.Lib.RunOnce
