import Mathlib.Data.Finset.Card
import Mathlib.Logic.Relation

/-!
# Marking a graph with a recursion of bounded depth

A search that marks what it meets and goes on from there, but gives up when it has come too deep,
and counts how often it did. A pass over the nodes starts the search again at every node that is
marked, and the passes are repeated until one of them has not given up.

`exists_passes` says that this ends, and that it marks what can be reached from the nodes that were
marked before: a pass that gives up has marked something, and after a pass that does not give up no
marked node has a successor without a mark.
-/

namespace JxCore.BoundedMark

variable {α : Type*} [DecidableEq α]

/-- The marks, and the number of nodes that were met too deep. -/
structure Marks (α : Type*) where
  marked : Finset α
  abort : Nat

/-- The search at `x`, which may go `d` nodes deep. -/
def mark (succ : α → List α) : Nat → α → Marks α → Marks α
  | 0, x, m => if x ∈ m.marked then m else { m with abort := m.abort + 1 }
  | d + 1, x, m =>
    if x ∈ m.marked then
      m
    else
      (succ x).foldl (fun m y => mark succ d y m) { m with marked := insert x m.marked }

/-- The search at each of a list of nodes. -/
def markAll (succ : α → List α) (d : Nat) (l : List α) (m : Marks α) : Marks α :=
  l.foldl (fun m y => mark succ d y m) m

/-- What a pass does at a node. -/
def scan (succ : α → List α) (d : Nat) (m : Marks α) (x : α) : Marks α :=
  if x ∈ m.marked then markAll succ d (succ x) m else m

/-- One pass over the nodes. -/
def pass (succ : α → List α) (d : Nat) (nodes : List α) (m : Marks α) : Marks α :=
  nodes.foldl (scan succ d) { m with abort := 0 }

/-- Passes until one has not given up, at most `n` of them. -/
def passes (succ : α → List α) (d : Nat) (nodes : List α) : Nat → Marks α → Option (Marks α)
  | 0, _ => none
  | n + 1, m =>
    let m' := pass succ d nodes m
    if 0 < m'.abort then passes succ d nodes n m' else some m'

/-! ## What a search keeps and what it adds -/

/-- From `m` to `m'` marks have been added; and if nobody has given up in between, then the
successors of every node that is new are marked too. -/
structure Grown (succ : α → List α) (m m' : Marks α) : Prop where
  marked : m.marked ⊆ m'.marked
  abort : m.abort ≤ m'.abort
  closed : m'.abort = m.abort → ∀ y ∈ m'.marked, y ∉ m.marked → ∀ z ∈ succ y, z ∈ m'.marked

section

variable {succ : α → List α} {m m' m'' : Marks α} {d : Nat} {x : α} {l nodes : List α}

omit [DecidableEq α] in
theorem Grown.refl (m : Marks α) : Grown succ m m :=
  ⟨Finset.Subset.refl _, Nat.le_refl _, fun _ _ hy hnew => absurd hy hnew⟩

theorem Grown.trans (h : Grown succ m m') (h' : Grown succ m' m'') : Grown succ m m'' := by
  refine ⟨h.marked.trans h'.marked, h.abort.trans h'.abort, fun habort y hy hnew z hz => ?_⟩
  have hfirst := h.abort
  have hsecond := h'.abort
  by_cases hmid : y ∈ m'.marked
  · exact h'.marked (h.closed (by omega) y hmid hnew z hz)
  · exact h'.closed (by omega) y hy hmid z hz

theorem Grown.foldl {f : Marks α → α → Marks α} (hf : ∀ m x, Grown succ m (f m x)) (l : List α)
    (m : Marks α) : Grown succ m (l.foldl f m) := by
  induction l generalizing m with
  | nil => exact Grown.refl m
  | cons x l ih => exact (hf m x).trans (ih (f m x))

/-- A list of searches, each of which grows the marks and has marked its node if it has not given
up. -/
theorem mem_foldl {f : Marks α → α → Marks α} (hf : ∀ m x, Grown succ m (f m x))
    (hmark : ∀ m x, (f m x).abort = m.abort → x ∈ (f m x).marked) (l : List α) (m : Marks α)
    (habort : (l.foldl f m).abort = m.abort) : ∀ x ∈ l, x ∈ (l.foldl f m).marked := by
  induction l generalizing m with
  | nil => nofun
  | cons x l ih =>
    intro y hy
    have hfirst := (hf m x).abort
    have hrest := Grown.foldl hf l (f m x)
    have hsecond := hrest.abort
    rw [List.foldl_cons] at habort
    rcases List.mem_cons.mp hy with rfl | hy
    · exact hrest.marked (hmark m y (by omega))
    · exact ih (f m x) (by omega) y hy

theorem mark_spec (succ : α → List α) (d : Nat) (x : α) (m : Marks α) :
    Grown succ m (mark succ d x m) ∧
      ((mark succ d x m).abort = m.abort → x ∈ (mark succ d x m).marked) := by
  induction d generalizing x m with
  | zero =>
    unfold mark
    split
    · next hx => exact ⟨Grown.refl m, fun _ => hx⟩
    · refine ⟨⟨Finset.Subset.refl _, Nat.le_succ _, fun _ _ hy hnew => absurd hy hnew⟩, fun h => ?_⟩
      exact absurd h (Nat.succ_ne_self _)
  | succ d ih =>
    unfold mark
    split
    · next hx => exact ⟨Grown.refl m, fun _ => hx⟩
    · have hgrown := Grown.foldl (f := fun m y => mark succ d y m) (fun m x => (ih x m).1) (succ x)
        { m with marked := insert x m.marked }
      have hall := mem_foldl (f := fun m y => mark succ d y m) (fun m x => (ih x m).1)
        (fun m x => (ih x m).2) (succ x) { m with marked := insert x m.marked }
      have hx := hgrown.marked (Finset.mem_insert_self x m.marked)
      refine ⟨⟨(Finset.subset_insert x m.marked).trans hgrown.marked, hgrown.abort, ?_⟩, fun _ => hx⟩
      intro habort y hy hnew z hz
      -- the node itself is new too, and its successors are what has just been searched
      by_cases hyx : y = x
      · subst hyx
        exact hall habort z hz
      · exact hgrown.closed habort y hy (by simp [hyx, hnew]) z hz

theorem markAll_grown (succ : α → List α) (d : Nat) (l : List α) (m : Marks α) :
    Grown succ m (markAll succ d l m) :=
  Grown.foldl (fun m x => (mark_spec succ d x m).1) l m

theorem mem_markAll (habort : (markAll succ d l m).abort = m.abort) :
    ∀ x ∈ l, x ∈ (markAll succ d l m).marked :=
  mem_foldl (fun m x => (mark_spec succ d x m).1) (fun m x => (mark_spec succ d x m).2) l m habort

theorem scan_grown (succ : α → List α) (d : Nat) (m : Marks α) (x : α) :
    Grown succ m (scan succ d m x) := by
  unfold scan
  split
  · exact markAll_grown succ d _ m
  · exact Grown.refl m

/-! ## A search stays where it may go -/

/-- `P` holds of the successors of whatever it holds of. -/
def Closed (succ : α → List α) (P : α → Prop) : Prop := ∀ x, P x → ∀ y ∈ succ x, P y

omit [DecidableEq α] in
theorem foldl_inside {P : α → Prop} {f : Marks α → α → Marks α} {Q : α → Prop}
    (hf : ∀ m x, Q x → (∀ y ∈ m.marked, P y) → ∀ y ∈ (f m x).marked, P y) (l : List α)
    (hl : ∀ x ∈ l, Q x) (m : Marks α) (hm : ∀ y ∈ m.marked, P y) :
    ∀ y ∈ (l.foldl f m).marked, P y := by
  induction l generalizing m with
  | nil => exact hm
  | cons x l ih =>
    simp only [List.forall_mem_cons] at hl
    exact ih hl.2 (f m x) (hf m x hl.1 hm)

theorem mark_inside {P : α → Prop} (hP : Closed succ P) (d : Nat) (x : α) (hx : P x) (m : Marks α)
    (hm : ∀ y ∈ m.marked, P y) : ∀ y ∈ (mark succ d x m).marked, P y := by
  induction d generalizing x m with
  | zero =>
    unfold mark
    split <;> exact hm
  | succ d ih =>
    unfold mark
    split
    · exact hm
    · refine foldl_inside (Q := P) (fun m x hx hm => ih x hx m hm) _ (hP x hx) _ fun y hy => ?_
      rcases Finset.mem_insert.mp hy with rfl | hy
      · exact hx
      · exact hm y hy

theorem scan_inside {P : α → Prop} (hP : Closed succ P) (d : Nat) (m : Marks α) (x : α)
    (hm : ∀ y ∈ m.marked, P y) : ∀ y ∈ (scan succ d m x).marked, P y := by
  unfold scan
  split
  · next hx =>
    exact foldl_inside (Q := P) (fun m y hy hm => mark_inside hP d y hy m hm) _ (hP x (hm x hx)) m hm
  · exact hm

/-! ## A search that gives up has marked something -/

/-- A search that may go at least one node deep marks this node before anything else. -/
theorem mark_grows (habort : m.abort < (mark succ (d + 1) x m).abort) :
    m.marked ⊂ (mark succ (d + 1) x m).marked := by
  have hgrown := (mark_spec succ (d + 1) x m).1.marked
  unfold mark at habort hgrown ⊢
  split at habort
  · exact absurd habort (Nat.lt_irrefl _)
  · next hx =>
    rw [if_neg hx] at hgrown ⊢
    have hrest := markAll_grown succ d (succ x) { m with marked := insert x m.marked }
    exact Finset.ssubset_iff_subset_ne.mpr ⟨hgrown, fun heq =>
      hx (heq ▸ hrest.marked (Finset.mem_insert_self x m.marked))⟩

theorem foldl_grows {f : Marks α → α → Marks α} (hf : ∀ m x, Grown succ m (f m x))
    (hgrows : ∀ m x, m.abort < (f m x).abort → m.marked ⊂ (f m x).marked) (l : List α)
    (m : Marks α) (habort : m.abort < (l.foldl f m).abort) : m.marked ⊂ (l.foldl f m).marked := by
  induction l generalizing m with
  | nil => exact absurd habort (Nat.lt_irrefl _)
  | cons x l ih =>
    rw [List.foldl_cons] at habort ⊢
    have hrest := Grown.foldl hf l (f m x)
    by_cases hfirst : m.abort < (f m x).abort
    · exact Finset.ssubset_of_ssubset_of_subset (hgrows m x hfirst) hrest.marked
    · exact Finset.ssubset_of_subset_of_ssubset (hf m x).marked (ih (f m x) (by omega))

theorem scan_grows (habort : m.abort < (scan succ (d + 1) m x).abort) :
    m.marked ⊂ (scan succ (d + 1) m x).marked := by
  unfold scan at habort ⊢
  split at habort
  · next hx =>
    rw [if_pos hx]
    exact foldl_grows (fun m x => (mark_spec succ (d + 1) x m).1) (fun _ _ => mark_grows) _ m habort
  · exact absurd habort (Nat.lt_irrefl _)

/-! ## Passes -/

/-- The rest `l` of a pass: a node that is marked already is either still to come, or it is done and
its successors are marked. -/
theorem foldl_scan_closed (l : List α) (m : Marks α)
    (hm : ∀ y ∈ m.marked, y ∈ l ∨ ∀ z ∈ succ y, z ∈ m.marked)
    (habort : (l.foldl (scan succ d) m).abort = m.abort) :
    ∀ y ∈ (l.foldl (scan succ d) m).marked, ∀ z ∈ succ y, z ∈ (l.foldl (scan succ d) m).marked := by
  induction l generalizing m with
  | nil =>
    intro y hy
    exact (hm y hy).resolve_left (by simp)
  | cons x l ih =>
    have hfirst := scan_grown succ d m x
    have hle := hfirst.abort
    have hrest := (Grown.foldl (scan_grown succ d) l (scan succ d m x)).abort
    rw [List.foldl_cons] at habort ⊢
    refine ih (scan succ d m x) (fun y hy => ?_) (by omega)
    by_cases hold : y ∈ m.marked
    · rcases hm y hold with hcons | hdone
      · rcases List.mem_cons.mp hcons with rfl | hl
        · right
          have heq : scan succ d m y = markAll succ d (succ y) m := if_pos hold
          rw [heq] at habort hle hrest ⊢
          exact mem_markAll (by omega)
        · exact .inl hl
      · exact .inr fun z hz => hfirst.marked (hdone z hz)
    · exact .inr (hfirst.closed (by omega) y hy hold)

theorem pass_marked (succ : α → List α) (d : Nat) (nodes : List α) (m : Marks α) :
    m.marked ⊆ (pass succ d nodes m).marked :=
  (Grown.foldl (scan_grown succ d) nodes { m with abort := 0 }).marked

theorem pass_inside {P : α → Prop} (hP : Closed succ P) (hm : ∀ y ∈ m.marked, P y) :
    ∀ y ∈ (pass succ d nodes m).marked, P y :=
  foldl_inside (Q := fun _ => True) (fun m x _ hm => scan_inside hP d m x hm) nodes
    (fun _ _ => trivial) { m with abort := 0 } hm

theorem pass_grows (habort : 0 < (pass succ (d + 1) nodes m).abort) :
    m.marked ⊂ (pass succ (d + 1) nodes m).marked :=
  foldl_grows (scan_grown succ (d + 1)) (fun _ _ => scan_grows) nodes { m with abort := 0 } habort

theorem pass_closed (hm : ∀ y ∈ m.marked, y ∈ nodes) (habort : (pass succ d nodes m).abort = 0) :
    ∀ y ∈ (pass succ d nodes m).marked, ∀ z ∈ succ y, z ∈ (pass succ d nodes m).marked :=
  foldl_scan_closed nodes { m with abort := 0 } (fun y hy => .inl (hm y hy)) habort

/-- The passes end, and then the marks are closed and have stayed inside of every closed set that
they were in. -/
theorem exists_passes_closed (hnodes : Closed succ (· ∈ nodes)) (k : Nat) (m : Marks α)
    (hm : ∀ y ∈ m.marked, y ∈ nodes) (hk : nodes.toFinset.card - m.marked.card ≤ k) :
    ∃ m', (∀ n > k, passes succ (d + 1) nodes n m = some m') ∧ m.marked ⊆ m'.marked ∧
      (∀ y ∈ m'.marked, ∀ z ∈ succ y, z ∈ m'.marked) ∧
      ∀ P : α → Prop, Closed succ P → (∀ y ∈ m.marked, P y) → ∀ y ∈ m'.marked, P y := by
  induction k generalizing m with
  | zero =>
    -- every node is marked, so that the pass cannot give up
    have hfull : nodes.toFinset.card ≤ m.marked.card := by omega
    have habort : (pass succ (d + 1) nodes m).abort = 0 := by
      by_contra hne
      have hlt := Finset.card_lt_card (pass_grows (Nat.pos_of_ne_zero hne))
      have hsub : (pass succ (d + 1) nodes m).marked ⊆ nodes.toFinset := fun y hy =>
        List.mem_toFinset.mpr (pass_inside hnodes hm y hy)
      have hle := Finset.card_le_card hsub
      omega
    refine ⟨pass succ (d + 1) nodes m, fun n hn => ?_, pass_marked succ _ nodes m,
      pass_closed hm habort, fun P hP hPm => pass_inside hP hPm⟩
    obtain ⟨n, rfl⟩ := Nat.exists_eq_add_of_lt hn
    simp [passes, habort]
  | succ k ih =>
    by_cases habort : (pass succ (d + 1) nodes m).abort = 0
    · refine ⟨pass succ (d + 1) nodes m, fun n hn => ?_, pass_marked succ _ nodes m,
        pass_closed hm habort, fun P hP hPm => pass_inside hP hPm⟩
      obtain ⟨n, rfl⟩ := Nat.exists_eq_add_of_lt hn
      simp [passes, habort]
    · have hlt := Finset.card_lt_card (pass_grows (Nat.pos_of_ne_zero habort))
      obtain ⟨m', hpasses, hmarked, hclosed, hP⟩ :=
        ih (pass succ (d + 1) nodes m) (pass_inside hnodes hm) (by omega)
      refine ⟨m', fun n hn => ?_, (pass_marked succ _ nodes m).trans hmarked, hclosed,
        fun P hclP hPm => hP P hclP (pass_inside hclP hPm)⟩
      obtain ⟨n, rfl⟩ := Nat.exists_eq_add_of_lt hn
      rw [passes, if_pos (Nat.pos_of_ne_zero habort)]
      exact hpasses _ (by omega)

/-- Enough passes mark exactly what can be reached. -/
theorem exists_passes (hnodes : Closed succ (· ∈ nodes)) (hm : ∀ y ∈ m.marked, y ∈ nodes) :
    ∃ m', (∀ n > nodes.length, passes succ (d + 1) nodes n m = some m') ∧
      ∀ x, x ∈ m'.marked ↔
        ∃ r ∈ m.marked, Relation.ReflTransGen (fun a b => b ∈ succ a) r x := by
  have hcard := List.toFinset_card_le nodes
  obtain ⟨m', hpasses, hmarked, hclosed, hP⟩ :=
    exists_passes_closed (d := d) hnodes nodes.length m hm (by omega)
  refine ⟨m', hpasses, fun x => ⟨fun hx => ?_, ?_⟩⟩
  · refine hP (fun x => ∃ r ∈ m.marked, Relation.ReflTransGen (fun a b => b ∈ succ a) r x) ?_
      (fun y hy => ⟨y, hy, .refl⟩) x hx
    intro y hreach z hz
    obtain ⟨r, hr, hpath⟩ := hreach
    exact ⟨r, hr, hpath.tail hz⟩
  · rintro ⟨r, hr, hpath⟩
    induction hpath with
    | refl => exact hmarked hr
    | tail _ hstep ih => exact hclosed _ ih _ hstep

end

end JxCore.BoundedMark
