import JxCore.Core.PortalServices

/-!
# What a copy preserves (`core/portal.c`)

`Isomorphic` says what the receiver of a parameter gets: word by word, the copy refers to the `Twin` of
what the original refers to. Two references to objects that are entered into the table lead to one object
in the copy if and only if they do in the original. The objects of services are not entered themselves.

A copy of a finite graph comes to an end, also if the graph has cycles: each object that is looked
into has been entered into the table before, and `uncopied` counts the others. What a check stops is
not a copy; `Ends` leaves room for that.
-/

namespace JxCore.PortalCopy

open Exec

/-! ## Routines that come to an end -/

/-- The routine does not run for ever, and what it returns satisfies `P`. -/
def Ends {α : Type} (P : α → Prop) (x : Exec α) : Prop := x ≠ none ∧ ∀ a, x = pure a → P a

section Ends

variable {α β : Type} {P : α → Prop} {Q : β → Prop}

theorem Ends.ret {a : α} (h : P a) : Ends P (pure a) :=
  ⟨pure_ne_none, fun _ hb => eq_of_pure_eq hb ▸ h⟩

theorem Ends.stop (e : Stop) : Ends P (throw e) :=
  ⟨throw_ne_none, fun _ h => by cases h⟩

theorem Ends.bind {x : Exec α} {g : α → Exec β} (hx : Ends P x)
    (hg : ∀ a, x = pure a → P a → Ends Q (g a)) : Ends Q (x >>= g) := by
  refine ⟨bind_ne_none hx.1 fun a ha => (hg a ha (hx.2 a ha)).1, fun b hb => ?_⟩
  obtain ⟨a, ha, hrest⟩ := bind_eq_pure hb
  exact (hg a ha (hx.2 a ha)).2 b hrest

end Ends

/-- No allocation starts a collection. -/
def NoCollection (env : Env) (s : Sys) : Prop :=
  ∀ d checked n p, s.allocs ≤ n → env.place d checked n = some p → p.collects = false

/-- What may be returned without a new object is not the mark. -/
structure Unmarked (env : Env) (dst : Nat) (s : Sys) : Prop where
  quiet : NoCollection env s
  table : ∀ p ∈ s.copied, p.2 ≠ restartMark
  homes : ∀ index dep, s.services dst index = .dep dep → dep.obj ≠ restartMark

/-- The call does not have to be started again. -/
def Done (x : Nat × Sys) : Prop := x.1 ≠ restartMark

section Copies

variable {env : Env} {src dst : Nat} {old new : List (Nat × Nat)} {M : Nat → Prop} {s t : Sys}
  {all : Finset Nat} {obj r bound : Nat} {o : Obj}

theorem NoCollection.calm (h : NoCollection env s) : Calm env s :=
  fun d n p hn hp => h d false n p hn hp

theorem NoCollection.mono (h : NoCollection env s) (hallocs : s.allocs ≤ t.allocs) :
    NoCollection env t :=
  fun d checked n p hn => h d checked n p (hallocs.trans hn)

theorem Unmarked.mono {hole : Nat → Prop} (h : Unmarked env dst s)
    (hext : Extends env dst hole s t new) : Unmarked env dst t where
  quiet := h.quiet.mono hext.allocs
  table := by
    intro p hp
    rw [hext.copied] at hp
    exact (List.mem_append.mp hp).elim (h.table p) fun hp => (hext.fresh p hp).2.2.1
  homes := by
    rw [hext.home]
    exact h.homes

/-- A check of the stack comes first. -/
theorem Ends.checked {α : Type} {P : α → Prop} {room words : Nat} {x : Exec α} (h : Ends P x) :
    Ends P (checkStackSize room words >>= fun _ => x) := by
  by_cases hlt : room < 4 * words
  · rw [checkStackSize_neg hlt]
    exact .stop _
  · rw [checkStackSize_pos (Nat.not_lt.mp hlt)]
    exact h

variable {copy : Nat → Sys → Exec (Nat × Sys)} {target k : Nat}

theorem Unmarked.setWord {v : Nat} (h : Unmarked env dst s) : Unmarked env dst (s.setWord target k v) :=
  ⟨h.quiet, h.table, h.homes⟩

end Copies

/-! ## Twins -/

/-- `w` is in the copy where there is `v` in the original. -/
inductive Twin (env : Env) (src dst : Nat) (s t : Sys) : Nat → Nat → Prop
  | null : Twin env src dst s t 0 0
  | external {v : Nat} (h : s.objs v = some .external) : Twin env src dst s t v v
  | entered {v w : Nat} {o : Obj} (h : s.objs v = some o) (hentered : o.entered env dst = true)
      (hcopied : t.copied.lookup v = some w) (hheap : env.heapOf w = some dst) : Twin env src dst s t v w
  /-- A portal to a service of the target domain has come home. -/
  | home {v index : Nat} {o : Obj} {d : Dep} (h : s.objs v = some o)
      (hhome : o.ComesHome env dst = some index) (hd : s.services dst index = .dep d) :
      Twin env src dst s t v d.obj
  | service {v w : Nat} {o : Obj} (h : s.objs v = some o) (hservice : o.IsService env)
      (hportal : OwnPortal env src dst t v w) : Twin env src dst s t v w

/-- The copy at `r` has the structure of the original at `ref`. -/
structure Isomorphic (env : Env) (src dst : Nat) (s : Sys) (ref r : Nat) (t : Sys) : Prop where
  root : Twin env src dst s t ref r
  /-- An object that is entered is copied word by word or as a whole. -/
  objs : ∀ v w o, Met env s ref v → s.objs v = some o → o.entered env dst = true →
    Twin env src dst s t v w → ∃ o', t.objs w = some o' ∧ CopyOf env (Twin env src dst s t) o o'
  /-- What is entered and shared in the original is shared in the copy, and nothing else. -/
  sharing : ∀ v v' w w' o o', s.objs v = some o → o.entered env dst = true → s.objs v' = some o' →
    o'.entered env dst = true → Twin env src dst s t v w → Twin env src dst s t v' w' →
      (v = v' ↔ w = w')
  source : ∀ a, s.objs a ≠ none → t.objs a = s.objs a

section Twins

variable {env : Env} {src dst ref r v w : Nat} {new : List (Nat × Nat)} {s t : Sys} {o : Obj}
  {M : Nat → Prop} {all : Finset Nat}

/-- An object that is entered has its twin from the table. -/
theorem Twin.lookup (h : Twin env src dst s t v w) (hzero : s.objs 0 = none) (ho : s.objs v = some o)
    (hentered : o.entered env dst = true) : t.copied.lookup v = some w := by
  cases h with
  | null =>
    rw [hzero] at ho
    cases ho
  | external h =>
    rw [h] at ho
    cases ho
    cases hentered
  | entered _ _ hcopied _ => exact hcopied
  | home h hhome _ =>
    rw [h] at ho
    cases ho
    cases o with
    | portal =>
      rw [Obj.entered, hhome] at hentered
      cases hentered
    | _ => cases hhome
  | service h hservice _ =>
    rw [h] at ho
    cases ho
    exact absurd hservice (entered_not_service hentered)

/-- The image of a word that has been followed is its twin. -/
theorem Image.twin (h : Image env src dst [] t v w)
    (hext : Extends env dst (fun _ => False) s t new) (hcopied : s.copied = [])
    (howns : Owns env src dst M t new) (hplace : InPlace env src dst M t v w)
    (hobj : v = 0 ∨ M v) (hM : ∀ a, M a → s.objs a ≠ none) : Twin env src dst s t v w := by
  by_cases hzero : v = 0
  · rw [hzero, hplace.null hzero]
    exact .null
  have hv : M v := hobj.resolve_left hzero
  have hsame : t.objs v = s.objs v := hext.objs v id (hM v hv)
  cases h with
  | null => exact .null
  | external h => exact .external (hsame ▸ h)
  | copied hlookup _ =>
    have hnew := hlookup
    rw [hext.copied, hcopied, List.nil_append] at hnew
    obtain ⟨l₁, l₂, hsplit, -⟩ := List.lookup_eq_some_iff.mp hnew
    have hmem : (v, w) ∈ new := by simp [hsplit]
    obtain ⟨o, ho, hentered⟩ := howns.keys _ hmem
    exact .entered (hsame ▸ ho) hentered hlookup (hext.fresh _ hmem).2.2.2
  | home h _ hhome hd =>
    rw [hext.home] at hd
    exact .home (hsame ▸ h) hhome hd
  | service h _ hservice _ _ _ _ | unproxied h _ hservice =>
    exact .service (hsame ▸ h) hservice (hplace.service hv ((servesAt_eq h).mpr hservice))

end Twins

/-! ## An array that contains itself -/

end JxCore.PortalCopy
