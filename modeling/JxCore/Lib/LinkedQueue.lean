import Mathlib.Data.List.Nodup
import Mathlib.Logic.Function.Basic

/-!
# Queues with a `first` and a `last` pointer

The elements of a queue are linked through a field of their own, `NULL` being `none`. Many queues
share one link field, so every lemma about an operation comes with a frame: the link of an element
outside the queue is left alone.

* `Chain` — the elements from a pointer on;
* `IsQueue` — a header that represents a list of distinct elements;
* `append`, `removeFirst`, `unlink`, `takeOut`, `find` — the operations on such queues, with what each
  does to the represented list.

The loops take fuel; the result is `none` while they are still running.
-/

namespace JxCore.Lib

variable {α : Type*}

/-- The link field: element to next element. -/
abbrev Links (α : Type*) := α → Option α

/-- The two pointers of a queue. -/
@[ext] structure Header (α : Type*) where
  first : Option α
  last : Option α

/-- `l` are the elements from `p` on, in order; the link of the last one is `NULL`. -/
def Chain (next : Links α) : Option α → List α → Prop
  | p, [] => p = none
  | p, a :: l => p = some a ∧ Chain next (next a) l

/-- The header `h` represents the list `l`. -/
structure IsQueue (next : Links α) (h : Header α) (l : List α) : Prop where
  chain : Chain next h.first l
  last : h.last = l.getLast?
  nodup : l.Nodup

/-! ## Chains -/

theorem Chain.congr {next next' : Links α} {p : Option α} {l : List α}
    (h : ∀ a ∈ l, next' a = next a) (hc : Chain next p l) : Chain next' p l := by
  induction l generalizing p with
  | nil => exact hc
  | cons a l ih =>
    refine ⟨hc.1, ?_⟩
    rw [h a (List.mem_cons_self ..)]
    exact ih (fun b hb => h b (List.mem_cons_of_mem a hb)) hc.2

theorem Chain.eq_none_iff {next : Links α} {p : Option α} {l : List α} (hc : Chain next p l) :
    p = none ↔ l = [] := by
  cases l with
  | nil => exact ⟨fun _ => rfl, fun _ => hc⟩
  | cons a l =>
    rw [hc.1]
    simp

/-- A pointer determines the list it represents. -/
theorem Chain.unique {next : Links α} {p : Option α} {l l' : List α} (hc : Chain next p l)
    (hc' : Chain next p l') : l = l' := by
  induction l generalizing p l' with
  | nil => exact (hc'.eq_none_iff.mp hc).symm
  | cons a l ih =>
    cases l' with
    | nil => exact absurd (hc'.symm.trans hc.1) (by simp)
    | cons b l' =>
      have hab : a = b := Option.some.inj (hc.1.symm.trans hc'.1)
      subst hab
      rw [ih hc.2 hc'.2]

/-- One element more at the end. -/
theorem Chain.concat {next next' : Links α} {p : Option α} {l : List α} {x y : α}
    (hc : Chain next p (l ++ [x])) (hsame : ∀ a ∈ l, next' a = next a) (hx : next' x = some y)
    (hy : next' y = none) : Chain next' p (l ++ [x] ++ [y]) := by
  induction l generalizing p with
  | nil => exact ⟨hc.1, hx, hy⟩
  | cons a l ih =>
    rw [List.forall_mem_cons] at hsame
    refine ⟨hc.1, ?_⟩
    rw [hsame.1]
    exact ih hc.2 hsame.2

/-- The elements behind one of them. -/
theorem Chain.after {next : Links α} {p : Option α} {l l' : List α} {a : α}
    (hc : Chain next p (l ++ a :: l')) : Chain next (next a) l' := by
  induction l generalizing p with
  | nil => exact hc.2
  | cons b l ih => exact ih hc.2

namespace IsQueue

variable {next : Links α} {h : Header α} {l : List α}

theorem congr {next' : Links α} (hq : IsQueue next h l) (heq : ∀ a ∈ l, next' a = next a) :
    IsQueue next' h l :=
  ⟨hq.chain.congr heq, hq.last, hq.nodup⟩

theorem first_eq_none (hq : IsQueue next h l) : h.first = none ↔ l = [] :=
  hq.chain.eq_none_iff

theorem last_eq_none (hq : IsQueue next h l) : h.last = none ↔ l = [] := by
  rw [hq.last, List.getLast?_eq_none_iff]

theorem nil_intro (next : Links α) : IsQueue next ⟨none, none⟩ [] :=
  ⟨rfl, rfl, List.nodup_nil⟩

end IsQueue

/-! ## Searching -/

section Loops

variable [DecidableEq α]

/-- `while (d != NULL) { if (d == x) … ; d = d->next; }`: is `x` found? -/
def find (next : Links α) (x : α) : Nat → Option α → Option Bool
  | 0, _ => none
  | _ + 1, none => some false
  | fuel + 1, some d => if d = x then some true else find next x fuel (next d)

theorem find_eq {next : Links α} {x : α} {fuel : Nat} {p : Option α} {l : List α}
    (hc : Chain next p l) (hfuel : l.length < fuel) : find next x fuel p = some (decide (x ∈ l)) := by
  induction l generalizing p fuel with
  | nil =>
    obtain ⟨fuel, rfl⟩ := Nat.exists_eq_succ_of_ne_zero (Nat.ne_of_gt hfuel)
    rw [show p = none from hc]
    rfl
  | cons a l ih =>
    obtain ⟨fuel, rfl⟩ := Nat.exists_eq_succ_of_ne_zero (show fuel ≠ 0 by omega)
    obtain ⟨rfl, hc⟩ := hc
    rw [find]
    by_cases ha : a = x
    · simp [ha]
    · have hx : ¬ x = a := fun h => ha h.symm
      rw [if_neg ha, ih hc (Nat.lt_of_succ_lt_succ hfuel)]
      simp [hx]

/-! ## Appending -/

/-- `x->next = NULL`, then `x` becomes the last element. -/
def append (next : Links α) (h : Header α) (x : α) : Links α × Header α :=
  match h.last with
  | none => (Function.update next x none, ⟨some x, some x⟩)
  | some y => (Function.update (Function.update next x none) y (some x), ⟨h.first, some x⟩)

theorem chain_append {next : Links α} {p : Option α} {l : List α} {x y : α}
    (hc : Chain next p l) (hlast : l.getLast? = some y) (hnodup : l.Nodup) (hx : x ∉ l) :
    Chain (Function.update (Function.update next x none) y (some x)) p (l ++ [x]) := by
  obtain ⟨l, rfl⟩ := List.getLast?_eq_some_iff.mp hlast
  have hxy : x ≠ y := by
    rintro rfl
    exact hx (by simp)
  refine hc.concat (fun a ha => ?_) (Function.update_self ..) ?_
  · have hay : a ≠ y := by
      rintro rfl
      exact (List.nodup_append.mp hnodup).2.2 a ha a (List.mem_singleton_self a) rfl
    have hax : a ≠ x := by
      rintro rfl
      exact hx (List.mem_append_left _ ha)
    rw [Function.update_of_ne hay, Function.update_of_ne hax]
  · rw [Function.update_of_ne hxy, Function.update_self]

theorem isQueue_append {next : Links α} {h : Header α} {l : List α} {x : α}
    (hq : IsQueue next h l) (hx : x ∉ l) :
    IsQueue (append next h x).1 (append next h x).2 (l ++ [x]) := by
  have hnodup : (l ++ [x]).Nodup := by
    rw [List.nodup_append_comm]
    exact List.nodup_cons.mpr ⟨hx, hq.nodup⟩
  rw [append]
  cases hl : h.last with
  | none =>
    have hnil := hq.last_eq_none.mp hl
    subst hnil
    exact ⟨⟨rfl, Function.update_self ..⟩, rfl, hnodup⟩
  | some y =>
    exact ⟨chain_append hq.chain (hq.last ▸ hl) hq.nodup hx, by simp, hnodup⟩

/-- The frame of `append`. -/
theorem append_link {next : Links α} {h : Header α} {l : List α} {x a : α}
    (hq : IsQueue next h l) (ha : a ∉ l) (hax : a ≠ x) : (append next h x).1 a = next a := by
  rw [append]
  cases hl : h.last with
  | none => exact Function.update_of_ne hax _ _
  | some y =>
    have hay : a ≠ y := fun h => ha (h ▸ List.mem_of_getLast? (hq.last ▸ hl))
    show Function.update (Function.update next x none) y (some x) a = next a
    rw [Function.update_of_ne hay, Function.update_of_ne hax]

/-! ## Removing the first element -/

/-- `first = d->next; if (d == last) last = NULL; d->next = NULL` for the first element `d`. -/
def removeFirst (next : Links α) (h : Header α) (d : α) : Links α × Header α :=
  (Function.update next d none, ⟨next d, if h.last = some d then none else h.last⟩)

theorem isQueue_removeFirst {next : Links α} {h : Header α} {l : List α} {d : α}
    (hq : IsQueue next h (d :: l)) :
    IsQueue (removeFirst next h d).1 (removeFirst next h d).2 l := by
  obtain ⟨hd, hnodup⟩ := List.nodup_cons.mp hq.nodup
  refine ⟨hq.chain.2.congr fun a ha => Function.update_of_ne ?_ _ _, ?_, hnodup⟩
  · rintro rfl
    exact hd ha
  · show (if h.last = some d then none else h.last) = l.getLast?
    rw [hq.last]
    cases l with
    | nil => simp
    | cons b l =>
      have hne : (b :: l).getLast? ≠ some d := fun h => hd (List.mem_of_getLast? h)
      rw [List.getLast?_cons_cons, if_neg hne]

/-- The first element is taken off by `first = d->next; if (first == NULL) last = NULL`. -/
theorem IsQueue.tail {next : Links α} {h : Header α} {l : List α} {d : α}
    (hq : IsQueue next h (d :: l)) :
    IsQueue (Function.update next d none) ⟨next d, if next d = none then none else h.last⟩ l := by
  obtain ⟨hd, hnodup⟩ := List.nodup_cons.mp hq.nodup
  have hchain : Chain next (next d) l := hq.chain.2
  refine ⟨hchain.congr fun a ha => Function.update_of_ne ?_ _ _, ?_, hnodup⟩
  · rintro rfl
    exact hd ha
  · show (if next d = none then none else h.last) = l.getLast?
    rw [hq.last]
    split
    · next hnone =>
      rw [hchain.eq_none_iff.mp hnone]
      rfl
    · next hsome =>
      cases l with
      | nil => exact absurd hchain hsome
      | cons a l => rfl

theorem removeFirst_link {next : Links α} {h : Header α} {d a : α} (ha : a ≠ d) :
    (removeFirst next h d).1 a = next a :=
  Function.update_of_ne ha _ _

/-! ## Removing an element from the middle -/

/-- The loop that looks for `x` with a trailing pointer `prev` and unlinks it; `stop` is raised when
the found element ends the chain and is not `last`. -/
def unlink {ε : Type*} (stop : ε) (next : Links α) (h : Header α) (x : α) :
    Nat → Option α → Option α → Option (Except ε (Links α × Header α))
  | 0, _, _ => none
  | _ + 1, _, none => some (.ok (next, h))
  | fuel + 1, prev, some d =>
    if d = x then
      let next' := match prev with
        | some p => Function.update next p (next x)
        | none => next
      let first := match prev with
        | some _ => h.first
        | none => next x
      if next' x = none then
        if h.last = some x then some (.ok (Function.update next' x none, ⟨first, prev⟩))
        else some (.error stop)
      else some (.ok (Function.update next' x none, ⟨first, h.last⟩))
    else unlink stop next h x fuel (some d) (next d)

/-- What unlinking `x` after the elements `pre` leaves in the links. -/
theorem chain_unlink {next : Links α} {p : Option α} {pre l : List α} {x y : α}
    (hc : Chain next p (pre ++ x :: l)) (hlast : pre.getLast? = some y)
    (hnodup : (pre ++ x :: l).Nodup) :
    Chain (Function.update (Function.update next y (next x)) x none) p (pre ++ l) := by
  induction pre generalizing p with
  | nil => cases hlast
  | cons a pre ih =>
    obtain ⟨rfl, hc⟩ := hc
    obtain ⟨ha, hnodup⟩ := List.nodup_cons.mp hnodup
    have hax : a ≠ x := fun h => ha (h ▸ by simp)
    refine ⟨rfl, ?_⟩
    rw [Function.update_of_ne hax]
    cases pre with
    | nil =>
      have hay : a = y := by simpa using hlast
      subst hay
      rw [Function.update_self]
      refine hc.2.congr fun b hb => ?_
      have hbx : b ≠ x := fun h => (List.nodup_cons.mp hnodup).1 (h ▸ hb)
      have hba : b ≠ a := fun h => ha (h ▸ List.mem_cons_of_mem x hb)
      rw [Function.update_of_ne hbx, Function.update_of_ne hba]
    | cons b pre =>
      have hlast' : (b :: pre).getLast? = some y := by
        rwa [List.getLast?_cons_cons] at hlast
      have hay : a ≠ y := by
        rintro rfl
        exact ha (List.mem_append_left _ (List.mem_of_getLast? hlast'))
      rw [Function.update_of_ne hay]
      exact ih hc hlast' hnodup

/-- What the loop leaves behind once it has found `d` after `prev`. -/
theorem unlink_found {ε : Type*} (stop : ε) {next : Links α} {h : Header α} {d : α}
    {pre rest : List α} (hq : IsQueue next h (pre ++ d :: rest)) (hp : Chain next (next d) rest) :
    ∃ next' h', (∀ fuel, unlink stop next h d (fuel + 1) pre.getLast? (some d) =
        some (.ok (next', h'))) ∧
      IsQueue next' h' (pre ++ rest) ∧ ∀ a ∉ pre ++ d :: rest, next' a = next a := by
  have hpre : d ∉ pre := fun hm => (List.disjoint_of_nodup_append hq.nodup) hm (by simp)
  have herase : (pre ++ d :: rest).erase d = pre ++ rest := by
    rw [List.erase_append_right _ hpre, List.erase_cons_head]
  have hnodup : (pre ++ rest).Nodup := herase ▸ hq.nodup.erase d
  simp only [unlink, if_true]
  cases hlast : pre.getLast? with
  | none =>
    have hnil := List.getLast?_eq_none_iff.mp hlast
    subst hnil
    have hrest : Chain (Function.update next d none) (next d) rest := by
      refine hp.congr fun a ha => Function.update_of_ne ?_ _ _
      rintro rfl
      exact (List.nodup_cons.mp hq.nodup).1 ha
    have hframe : ∀ a ∉ [] ++ d :: rest, Function.update next d none a = next a := by
      intro a ha
      have had : a ≠ d := fun h => ha (h ▸ by simp)
      exact Function.update_of_ne had _ _
    by_cases hend : next d = none
    · have hnil := hp.eq_none_iff.mp hend
      subst hnil
      simp only [hend, if_true, if_pos (show h.last = some d from hq.last)]
      exact ⟨_, _, fun _ => rfl, ⟨hend ▸ hrest, rfl, hnodup⟩, hframe⟩
    · simp only [hend, if_false]
      refine ⟨_, _, fun _ => rfl, ⟨hrest, ?_, hnodup⟩, hframe⟩
      cases rest with
      | nil => exact absurd hp hend
      | cons b rest => exact hq.last
  | some y =>
    have hyd : d ≠ y := fun h => hpre (h ▸ List.mem_of_getLast? hlast)
    have hchain := chain_unlink hq.chain hlast hq.nodup
    have hframe : ∀ a ∉ pre ++ d :: rest,
        Function.update (Function.update next y (next d)) d none a = next a := by
      intro a ha
      have had : a ≠ d := fun h => ha (h ▸ by simp)
      have hay : a ≠ y := fun h => ha (h ▸ List.mem_append_left _ (List.mem_of_getLast? hlast))
      rw [Function.update_of_ne had, Function.update_of_ne hay]
    simp only [Function.update_of_ne hyd]
    by_cases hend : next d = none
    · have hnil := hp.eq_none_iff.mp hend
      subst hnil
      have hl : h.last = some d := by
        rw [hq.last]
        simp
      simp only [if_pos hend, if_pos hl]
      refine ⟨_, _, fun _ => rfl, ⟨hchain, ?_, hnodup⟩, hframe⟩
      simp [hlast]
    · simp only [if_neg hend]
      refine ⟨_, _, fun _ => rfl, ⟨hchain, ?_, hnodup⟩, hframe⟩
      cases rest with
      | nil => exact absurd hp hend
      | cons b rest =>
        rw [hq.last]
        simp [List.getLast?_append]

/-- The loop finds `x` behind the elements `pre` it has passed and takes it out. -/
theorem unlink_spec {ε : Type*} (stop : ε) {next : Links α} {h : Header α} {x : α} {p : Option α}
    (pre : List α) {rest : List α} (hq : IsQueue next h (pre ++ rest)) (hp : Chain next p rest)
    (hx : x ∈ rest) :
    ∃ next' h', (∀ fuel, rest.length < fuel →
        unlink stop next h x fuel pre.getLast? p = some (.ok (next', h'))) ∧
      IsQueue next' h' ((pre ++ rest).erase x) ∧ ∀ a ∉ pre ++ rest, next' a = next a := by
  induction rest generalizing pre p with
  | nil => cases hx
  | cons d rest ih =>
    obtain ⟨rfl, hp⟩ := hp
    by_cases hd : d = x
    · subst hd
      have hpre : d ∉ pre := fun hm => (List.disjoint_of_nodup_append hq.nodup) hm (by simp)
      obtain ⟨next', h', hcall, hq', hframe⟩ := unlink_found stop hq hp
      refine ⟨next', h', fun fuel hfuel => ?_, ?_, hframe⟩
      · obtain ⟨fuel, rfl⟩ := Nat.exists_eq_succ_of_ne_zero (show fuel ≠ 0 by omega)
        exact hcall fuel
      · rwa [List.erase_append_right _ hpre, List.erase_cons_head]
    · have hstep : pre ++ d :: rest = (pre ++ [d]) ++ rest := by simp
      have hprev : (pre ++ [d]).getLast? = some d := by simp
      have hxrest : x ∈ rest := (List.mem_cons.mp hx).resolve_left fun h => hd h.symm
      rw [hstep] at hq ⊢
      obtain ⟨next', h', hcall, hq', hframe⟩ := ih (pre ++ [d]) hq hp hxrest
      refine ⟨next', h', fun fuel hfuel => ?_, hq', hframe⟩
      obtain ⟨fuel, rfl⟩ := Nat.exists_eq_succ_of_ne_zero (show fuel ≠ 0 by omega)
      simp only [unlink, if_neg hd]
      rw [← hprev]
      exact hcall fuel (Nat.lt_of_succ_lt_succ hfuel)

/-! ## Removing an element through a pointer to the link -/

/-- `for (t = &first; *t != NULL; t = &((*t)->next)) if (*t == x) { *t = (*t)->next; return; }`: the
new links and the new `first`, or `none` if `x` is not found. Neither `last` nor the link of `x` is
looked at. -/
def takeOut (next : Links α) (first : Option α) (x : α) :
    Nat → Option α → Option α → Option (Option (Links α × Option α))
  | 0, _, _ => none
  | _ + 1, _, none => some none
  | fuel + 1, prev, some d =>
    if d = x then
      match prev with
      | some p => some (some (Function.update next p (next x), first))
      | none => some (some (next, next x))
    else takeOut next first x fuel (some d) (next d)

theorem takeOut_spec {next : Links α} {first : Option α} {x : α} {p : Option α} (pre : List α)
    {rest : List α} (hc : Chain next first (pre ++ rest)) (hnodup : (pre ++ rest).Nodup)
    (hp : Chain next p rest) (hx : x ∈ rest) :
    ∃ next' first', (∀ fuel, rest.length < fuel →
        takeOut next first x fuel pre.getLast? p = some (some (next', first'))) ∧
      Chain next' first' ((pre ++ rest).erase x) ∧ ∀ a ∉ pre ++ rest, next' a = next a := by
  induction rest generalizing pre p with
  | nil => cases hx
  | cons d rest ih =>
    obtain ⟨rfl, hp⟩ := hp
    by_cases hd : d = x
    · subst hd
      have hpre : d ∉ pre := fun hm => (List.disjoint_of_nodup_append hnodup) hm (by simp)
      rw [List.erase_append_right _ hpre, List.erase_cons_head]
      cases hlast : pre.getLast? with
      | none =>
        have hnil := List.getLast?_eq_none_iff.mp hlast
        subst hnil
        refine ⟨next, next d, fun fuel hfuel => ?_, hp, fun _ _ => rfl⟩
        obtain ⟨fuel, rfl⟩ := Nat.exists_eq_succ_of_ne_zero (show fuel ≠ 0 by omega)
        simp only [takeOut, if_true]
      | some y =>
        refine ⟨Function.update next y (next d), first, fun fuel hfuel => ?_, ?_, fun a ha => ?_⟩
        · obtain ⟨fuel, rfl⟩ := Nat.exists_eq_succ_of_ne_zero (show fuel ≠ 0 by omega)
          simp only [takeOut, if_true]
        · -- the link of the element that has gone does not matter
          refine (chain_unlink hc hlast hnodup).congr fun a ha => ?_
          have had : a ≠ d := by
            rintro rfl
            rcases List.mem_append.mp ha with ha | ha
            · exact hpre ha
            · exact (List.nodup_cons.mp (List.nodup_append.mp hnodup).2.1).1 ha
          rw [Function.update_of_ne had]
        · have hay : a ≠ y := fun h => ha (h ▸ List.mem_append_left _ (List.mem_of_getLast? hlast))
          exact Function.update_of_ne hay _ _
    · have hstep : pre ++ d :: rest = (pre ++ [d]) ++ rest := by simp
      have hprev : (pre ++ [d]).getLast? = some d := by simp
      have hxrest : x ∈ rest := (List.mem_cons.mp hx).resolve_left fun h => hd h.symm
      rw [hstep] at hc hnodup ⊢
      obtain ⟨next', first', hcall, hc', hframe⟩ := ih (pre ++ [d]) hc hnodup hp hxrest
      refine ⟨next', first', fun fuel hfuel => ?_, hc', hframe⟩
      obtain ⟨fuel, rfl⟩ := Nat.exists_eq_succ_of_ne_zero (show fuel ≠ 0 by omega)
      simp only [takeOut, if_neg hd]
      rw [← hprev]
      exact hcall fuel (Nat.lt_of_succ_lt_succ hfuel)

/-- The loop comes to the end of a chain without `x`. -/
theorem takeOut_of_notMem {next : Links α} {first prev p : Option α} {x : α} {l : List α} {fuel : Nat}
    (hc : Chain next p l) (hx : x ∉ l) (hfuel : l.length < fuel) :
    takeOut next first x fuel prev p = some none := by
  induction l generalizing prev p fuel with
  | nil =>
    obtain ⟨fuel, rfl⟩ := Nat.exists_eq_succ_of_ne_zero (Nat.ne_of_gt hfuel)
    rw [show p = none from hc]
    rfl
  | cons a l ih =>
    obtain ⟨fuel, rfl⟩ := Nat.exists_eq_succ_of_ne_zero (Nat.ne_zero_of_lt hfuel)
    obtain ⟨rfl, hc⟩ := hc
    obtain ⟨hxa, hxl⟩ := not_or.mp (List.mem_cons.not.mp hx)
    simp only [takeOut, if_neg (Ne.symm hxa)]
    exact ih hc hxl (Nat.lt_of_succ_lt_succ hfuel)

/-- Only the last element has to stay for `last` to stay right. -/
theorem IsQueue.takeOut_iff {next next' : Links α} {h : Header α} {first' : Option α} {l : List α}
    {x : α} (hq : IsQueue next h l) (hx : x ∈ l) (hc : Chain next' first' (l.erase x)) :
    IsQueue next' ⟨first', h.last⟩ (l.erase x) ↔ l.getLast? ≠ some x := by
  constructor
  · intro hq' hlast
    have hmem : x ∈ l.erase x := by
      apply List.mem_of_getLast?
      rw [← hlast, ← hq.last]
      exact hq'.last.symm
    exact hq.nodup.not_mem_erase hmem
  · intro hlast
    refine ⟨hc, ?_, hq.nodup.erase x⟩
    obtain ⟨pre, rest, hpre, rfl, herase⟩ := List.exists_erase_eq hx
    rw [hq.last, herase]
    cases rest with
    | nil => simp at hlast
    | cons b rest => simp [List.getLast?_append]

end Loops

end JxCore.Lib
