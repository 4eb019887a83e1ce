import Mathlib.Data.List.Basic
import Mathlib.Data.List.Induction
import Mathlib.Data.List.Nodup
import Mathlib.Logic.Relation

/-!
# Doubly linked segments

A list of nodes whose `prev` and `next` fields lead from each to its neighbours. A segment is told
what its first node finds in front of it and its last node behind it, so that a chain can be cut
into segments, one of them exchanged, and the chain put together again.
-/

namespace JxCore

/-- The nodes `l` hang together in this order, with `p` in front of the first and `n` behind the
last one. -/
def Linked {α : Type*} (prev next : α → Option α) : Option α → List α → Option α → Prop
  | _, [], _ => True
  | p, a :: l, n => prev a = p ∧ next a = l.head?.or n ∧ Linked prev next (some a) l n

namespace Linked

variable {α : Type*} {prev next prev' next' : α → Option α} {p p' n n' : Option α} {l l' : List α}
  {a : α}

@[simp] theorem nil : Linked prev next p [] n := trivial

@[simp] theorem cons_iff : Linked prev next p (a :: l) n ↔
    prev a = p ∧ next a = l.head?.or n ∧ Linked prev next (some a) l n := Iff.rfl

theorem singleton_iff : Linked prev next p [a] n ↔ prev a = p ∧ next a = n := by simp

/-- The last node of a longer list. -/
theorem getLast?_cons_or (a : α) (l : List α) (p : Option α) :
    (a :: l).getLast?.or p = l.getLast?.or (some a) := by
  cases l with
  | nil => rfl
  | cons b l =>
    rw [List.getLast?_cons_cons]
    cases h : (b :: l).getLast? with
    | none => simp at h
    | some z => rfl

theorem append_iff : Linked prev next p (l ++ l') n ↔
    Linked prev next p l (l'.head?.or n) ∧ Linked prev next (l.getLast?.or p) l' n := by
  induction l generalizing p with
  | nil => simp
  | cons a l ih =>
    have hhead : (l ++ l').head?.or n = l.head?.or (l'.head?.or n) := by
      rw [List.head?_append, Option.or_assoc]
    simp only [List.cons_append, cons_iff, ih, hhead, getLast?_cons_or, and_assoc]

/-- Only the fields of the nodes in the list matter. -/
theorem congr (h : Linked prev next p l n) (hprev : ∀ a ∈ l, prev' a = prev a)
    (hnext : ∀ a ∈ l, next' a = next a) : Linked prev' next' p l n := by
  induction l generalizing p with
  | nil => trivial
  | cons a l ih =>
    simp only [List.forall_mem_cons] at hprev hnext
    exact ⟨hprev.1.trans h.1, hnext.1.trans h.2.1, ih h.2.2 hprev.2 hnext.2⟩

/-- The last node gets another successor. -/
theorem set_next (h : Linked prev next p l n) (hl : l.Nodup) (hprev : ∀ a ∈ l, prev' a = prev a)
    (hnext : ∀ a ∈ l, l.getLast? ≠ some a → next' a = next a)
    (hlast : ∀ a, l.getLast? = some a → next' a = n') : Linked prev' next' p l n' := by
  induction l using List.reverseRecOn with
  | nil => trivial
  | append_singleton l a _ =>
    rw [append_iff] at h ⊢
    have hne : ∀ b ∈ l, b ≠ a := fun b hb heq => by
      rw [List.nodup_append] at hl
      exact hl.2.2 b hb a (List.mem_singleton_self a) heq
    refine ⟨h.1.congr (fun b hb => hprev b (List.mem_append_left _ hb)) fun b hb => ?_, ?_⟩
    · refine hnext b (List.mem_append_left _ hb) ?_
      rw [List.getLast?_concat]
      exact fun heq => hne b hb (Option.some.inj heq).symm
    · have hprev_a := hprev a (List.mem_append_right _ (List.mem_singleton_self a))
      exact ⟨hprev_a.trans h.2.1, hlast a List.getLast?_concat, trivial⟩

/-- The first node gets another predecessor. -/
theorem set_prev (h : Linked prev next p l n) (hl : l.Nodup) (hnext : ∀ a ∈ l, next' a = next a)
    (hprev : ∀ a ∈ l, l.head? ≠ some a → prev' a = prev a)
    (hhead : ∀ a, l.head? = some a → prev' a = p') : Linked prev' next' p' l n := by
  cases l with
  | nil => trivial
  | cons a l =>
    rw [List.nodup_cons] at hl
    refine ⟨hhead a rfl, (hnext a List.mem_cons_self).trans h.2.1, ?_⟩
    refine h.2.2.congr (fun b hb => ?_) fun b hb => hnext b (List.mem_cons_of_mem a hb)
    refine hprev b (List.mem_cons_of_mem a hb) ?_
    rintro ⟨rfl⟩
    exact hl.1 hb

/-- The nodes are renamed, and so is what their fields say. -/
theorem map {β : Type*} {f : α → β} {prev' next' : β → Option β} (h : Linked prev next p l n)
    (hprev : ∀ a ∈ l, prev' (f a) = (prev a).map f)
    (hnext : ∀ a ∈ l, next' (f a) = (next a).map f) :
    Linked prev' next' (p.map f) (l.map f) (n.map f) := by
  induction l generalizing p with
  | nil => trivial
  | cons a l ih =>
    simp only [List.forall_mem_cons] at hprev hnext
    refine ⟨hprev.1.trans (by rw [h.1]), ?_, ih h.2.2 hprev.2 hnext.2⟩
    rw [hnext.1, h.2.1]
    cases l <;> rfl

/-- A node is taken out: its neighbours get each other as neighbours. -/
theorem unlink (h : Linked prev next none (l ++ a :: l') none) (hl : (l ++ a :: l').Nodup)
    (hnext : ∀ b, prev a ≠ some b → next' b = next b)
    (hnext_prev : ∀ b, prev a = some b → next' b = next a)
    (hprev : ∀ b, next a ≠ some b → prev' b = prev b)
    (hprev_next : ∀ b, next a = some b → prev' b = prev a) :
    Linked prev' next' none (l ++ l') none := by
  rw [append_iff] at h
  obtain ⟨hleft, hprev_a, hnext_a, hright⟩ := h
  rw [Option.or_none] at hprev_a hnext_a
  obtain ⟨hl₁, hl₂, hdisj⟩ := List.nodup_append.mp hl
  obtain ⟨-, hl₂⟩ := List.nodup_cons.mp hl₂
  rw [append_iff, Option.or_none, Option.or_none]
  constructor
  · refine hleft.set_next hl₁ (fun b hb => hprev b fun hb' => ?_) (fun b _ hne => ?_) fun b hb => ?_
    · rw [hnext_a] at hb'
      exact hdisj b hb b (List.mem_cons_of_mem a (List.mem_of_head? hb')) rfl
    · exact hnext b (hprev_a ▸ hne)
    · exact (hnext_prev b (hprev_a ▸ hb)).trans hnext_a
  · refine hright.set_prev hl₂ (fun b hb => hnext b fun hb' => ?_) (fun b _ hne => ?_) fun b hb => ?_
    · rw [hprev_a] at hb'
      exact hdisj b (List.mem_of_getLast? hb') b (List.mem_cons_of_mem a hb) rfl
    · exact hprev b (hnext_a ▸ hne)
    · exact (hprev_next b (hnext_a ▸ hb)).trans hprev_a

/-- What the fields of a node in the middle say. -/
theorem at_mem (h : Linked prev next p (l ++ a :: l') n) :
    prev a = l.getLast?.or p ∧ next a = l'.head?.or n := by
  rw [append_iff] at h
  exact ⟨h.2.1, h.2.2.1⟩

/-- Read from the other end. -/
theorem reverse (h : Linked prev next p l n) : Linked next prev n l.reverse p := by
  induction l generalizing p with
  | nil => trivial
  | cons a l ih =>
    rw [List.reverse_cons, append_iff, List.getLast?_reverse]
    exact ⟨ih h.2.2, h.2.1, h.1, trivial⟩

/-- The fields lead from each node of the list to each other. -/
theorem connected (h : Linked prev next p l n) {x y : α} (hx : x ∈ l) (hy : y ∈ l) :
    Relation.ReflTransGen (fun a b => next a = some b ∨ prev a = some b) x y := by
  induction l generalizing p x y with
  | nil => cases hx
  | cons a l ih =>
    cases l with
    | nil =>
      rw [List.mem_singleton.mp hx, List.mem_singleton.mp hy]
    | cons b l =>
      have hnext : next a = some b := h.2.1
      have hprev : prev b = some a := h.2.2.1
      rcases List.mem_cons.mp hx with hxa | hxl <;> rcases List.mem_cons.mp hy with hya | hyl
      · rw [hxa, hya]
      · rw [hxa]
        exact .head (.inl hnext) (ih h.2.2 List.mem_cons_self hyl)
      · rw [hya]
        exact .tail (ih h.2.2 hxl List.mem_cons_self) (.inr hprev)
      · exact ih h.2.2 hxl hyl

/-- And they do not lead out of the list. -/
theorem mem_of_connected (h : Linked prev next none l none) {x y : α} (hx : x ∈ l)
    (hxy : Relation.ReflTransGen (fun a b => next a = some b ∨ prev a = some b) x y) : y ∈ l := by
  induction hxy with
  | refl => exact hx
  | tail _ hstep ih =>
    obtain ⟨l, l', rfl⟩ := List.append_of_mem ih
    obtain ⟨hprev, hnext⟩ := h.at_mem
    rw [Option.or_none] at hprev hnext
    rcases hstep with hy | hy
    · rw [hnext] at hy
      exact List.mem_append_right _ (List.mem_cons_of_mem _ (List.mem_of_head? hy))
    · rw [hprev] at hy
      exact List.mem_append_left _ (List.mem_of_getLast? hy)

/-- Behind the last node. -/
theorem next_getLast (h : Linked prev next p l n) (ha : l.getLast? = some a) : next a = n := by
  obtain ⟨l, rfl⟩ := List.getLast?_eq_some_iff.mp ha
  rw [append_iff] at h
  exact h.2.2.1

end Linked

end JxCore
