import JxCore.Core.PortalIsolation
import JxCore.Core.PortalQuota
import Mathlib.Algebra.BigOperators.Group.Finset.Basic
import Mathlib.Algebra.Order.BigOperators.Group.Finset

/-!
# What is left over in the table (`core/portal.c`)

A copy appends to the table of the thread and looks in all of it. A `Course` is a copy that begins
with entries left over, none of which has the address of an object that is met.

`copyReference_follows` says that it does the same as with an empty table as long as there is room
for its entries: one for each object, and one for each reference to the object of a service.
-/

namespace JxCore.PortalCopy

open Exec

/-! ## Entries to come -/

/-- The object at `a` is one that gets a service. -/
def servesAt (env : Env) (objs : Nat → Option Obj) (a : Nat) : Bool :=
  match objs a with
  | some (.object cl _) => (env.classDesc cl).isPortal
  | _ => false

/-- How many of the words from `k` on that are followed refer to the object of a service. Such an
object is not found in the table, so that each of them leads to an entry. -/
def promotions (env : Env) (objs : Nat → Option Obj) (words : List Nat) : List Bool → Nat → Nat
  | [], _ => 0
  | b :: map, k =>
    (b && servesAt env objs (words.getD k 0)).toNat + promotions env objs words map (k + 1)

/-- The object is entered into the table when it is copied. -/
def Obj.entered (env : Env) (dst : Nat) : Obj → Bool
  | .object cl _ => !(env.classDesc cl).isPortal
  | .portal vtable targetDomain targetDomainID index =>
    ((Obj.portal vtable targetDomain targetDomainID index).ComesHome env dst).isNone
  | .array _ _ | .memory _ _ | .domain _ _ _ | .cpustate _ => true
  | _ => false

/-- The entries for the object at `a` and for its references to objects of services. What is not an
object yet may become one with an entry. -/
def entriesAt (env : Env) (dst : Nat) (objs : Nat → Option Obj) (a : Nat) : Nat :=
  match objs a with
  | some o => (o.entered env dst).toNat + promotions env objs o.words (mapOf env o) 0
  | none => 1

/-- The entries for those objects of `all` that are not in the table. -/
def due (env : Env) (dst : Nat) (objs : Nat → Option Obj) (all : Finset Nat)
    (copied : List (Nat × Nat)) : Nat :=
  ∑ a ∈ all.filter fun a => copied.lookup a = none, entriesAt env dst objs a

section Due

variable {env : Env} {dst : Nat} {objs : Nat → Option Obj} {all : Finset Nat}
  {copied : List (Nat × Nat)} {a b : Nat}

theorem filter_concat : (all.filter fun x => (copied ++ [(a, b)]).lookup x = none) =
    (all.filter fun x => copied.lookup x = none).erase a := by
  ext x
  rw [Finset.mem_erase, Finset.mem_filter, Finset.mem_filter, List.lookup_append,
    Option.or_eq_none_iff, List.lookup_singleton]
  by_cases hx : x = a
  · simp [hx]
  · simp [hx]

theorem due_concat_le : due env dst objs all (copied ++ [(a, b)]) ≤ due env dst objs all copied := by
  unfold due
  rw [filter_concat]
  exact Finset.sum_le_sum_of_subset (Finset.erase_subset _ _)

/-- An object that is entered is no longer due. -/
theorem due_concat (ha : a ∈ all) (hlookup : copied.lookup a = none) :
    entriesAt env dst objs a + due env dst objs all (copied ++ [(a, b)]) =
      due env dst objs all copied := by
  unfold due
  rw [filter_concat]
  exact Finset.add_sum_erase _ _ (Finset.mem_filter.mpr ⟨ha, hlookup⟩)

end Due

/-! ## Two threads side by side -/

/-- The same state with `left` in front of the table. -/
def Sys.behind (s : Sys) (left : List (Nat × Nat)) : Sys := { s with copied := left ++ s.copied }

def Sys.enter (s : Sys) (key r : Nat) : Sys := { s with copied := s.copied ++ [(key, r)] }

/-- A collection neither looks at the table nor changes it, and it leaves the other heaps alone. -/
structure TableEnv extends Env where
  blind : ∀ d (s : Sys) copied, collect d { s with copied } = { collect d s with copied }
  maxCopied : ∀ d s, (collect d s).maxCopied = s.maxCopied
  allocs : ∀ d s, (collect d s).allocs = s.allocs
  frame : ∀ d s a, heapOf a ≠ some d → (collect d s).objs a = s.objs a

/-- The kinds that a promotion makes in the source domain. -/
def Obj.Bare : Obj → Prop
  | .service | .portal _ _ _ _ | .cpustate _ => True
  | _ => False

/-- A copy of objects that are `met`, from a state in which `objs` are the objects, where `left` is
left over in the table. -/
structure Course where
  env : TableEnv
  src : Nat
  dst : Nat
  left : List (Nat × Nat)
  objs : Nat → Option Obj
  met : Nat → Prop
  all : Finset Nat
  apart : src ≠ dst
  closed : ∀ a o k, met a → objs a = some o → (mapOf env.toEnv o)[k]? = some true →
    o.words.getD k 0 ≠ 0 → met (o.words.getD k 0)
  inside : ∀ a, met a → a ∈ all
  /-- Nothing that is met is left over. -/
  fresh : ∀ p ∈ left, ¬ met p.1

namespace Course

variable {α β : Type} {c : Course} {s t : Sys} {n m : Nat}

/-- The copy is under way: the objects that are met are as they were, and there is room for what is
due and for `n` more entries. -/
structure On (c : Course) (s : Sys) (n : Nat) : Prop where
  heap : ∀ a, c.met a → c.env.heapOf a = some c.src →
    s.objs a = c.objs a ∨ c.objs a = none ∧ ∃ o, s.objs a = some o ∧ o.Bare
  calm : (∃ a, c.met a ∧ servesAt c.env.toEnv c.objs a = true) → ∀ k p, s.allocs ≤ k →
    c.env.place c.src false k = some p → p.collects = false
  room : c.left.length + (s.copied.length + due c.env.toEnv c.dst c.objs c.all s.copied + n) ≤
    s.maxCopied

/-- `f` does the same with an empty table as with what is left over, and `n` entries are enough in
addition to what is due. -/
def Follows (c : Course) (n : Nat) (f : Sys → Exec (α × Sys)) (s : Sys) : Prop :=
  ∀ e, c.On s (n + e) → f (s.behind c.left) = (f s >>= fun x => pure (x.1, x.2.behind c.left)) ∧
    ∀ r t, f s = pure (r, t) → c.On t e

/-- Room for `n` entries is room for `key` and for `m` entries more. -/
def Pays (c : Course) (copied : List (Nat × Nat)) (key n m : Nat) : Prop :=
  ∀ t r e, t.copied = copied → c.On t (n + e) → c.On (t.enter key r) (m + e)

theorem On.congr (h : c.On s n) (hobjs : ∀ a, c.env.heapOf a = some c.src → t.objs a = s.objs a)
    (hallocs : s.allocs ≤ t.allocs) (hcopied : t.copied = s.copied)
    (hmax : t.maxCopied = s.maxCopied) : c.On t n where
  heap := by
    intro a ha hheap
    rw [hobjs a hheap]
    exact h.heap a ha hheap
  calm := fun hserves k p hk => h.calm hserves k p (hallocs.trans hk)
  room := by
    rw [hcopied, hmax]
    exact h.room

theorem On.mono (h : c.On s n) (hle : m ≤ n) : c.On s m where
  heap := h.heap
  calm := h.calm
  room := (Nat.add_le_add_left (Nat.add_le_add_left hle _) _).trans h.room

/-- The object at an address that is met, if it is in the source domain. -/
theorem On.objs_eq {a : Nat} {o : Obj} (h : c.On s n) (ha : c.met a)
    (hheap : c.env.heapOf a = some c.src) (ho : s.objs a = some o) :
    c.objs a = some o ∨ c.objs a = none ∧ o.Bare := by
  rcases h.heap a ha hheap with hsame | ⟨hnone, o', ho', hbare⟩
  · exact .inl (hsame.symm.trans ho)
  · rw [ho] at ho'
    cases ho'
    exact .inr ⟨hnone, hbare⟩

/-! ### Steps -/

theorem Follows.mono {f : Sys → Exec (α × Sys)} (h : c.Follows n f s) (hle : n ≤ m) :
    c.Follows m f s := by
  intro e hs
  exact h e (hs.mono (Nat.add_le_add_right hle e))

theorem Follows.ret (a : α) : c.Follows n (fun s => pure (a, s)) s := by
  intro e hs
  refine ⟨rfl, fun r t h => ?_⟩
  cases h
  exact hs.mono (Nat.le_add_left e n)

theorem follows_of_throw {f : Sys → Exec (α × Sys)} {e : Stop} (hs : f s = throw e)
    (hbehind : f (s.behind c.left) = throw e) : c.Follows n f s := by
  intro _ _
  rw [hs, hbehind]
  exact ⟨rfl, fun _ _ h => by cases h⟩

/-- A check of the stack comes first. -/
theorem Follows.checked {f : Sys → Exec (α × Sys)} (h : c.Follows n f s) (room words : Nat) :
    c.Follows n (fun s => checkStackSize room words >>= fun _ => f s) s := by
  by_cases hlt : room < 4 * words
  · refine follows_of_throw (e := .panic "") ?_ ?_ <;>
      simp only [checkStackSize_neg hlt] <;> rfl
  · simp only [checkStackSize_pos (Nat.not_lt.mp hlt), pure_bind]
    exact h

/-- Only what happens at the two states counts. -/
theorem Follows.at {f f' : Sys → Exec (α × Sys)} (h : c.Follows n f' s) (hs : f s = f' s)
    (hbehind : f (s.behind c.left) = f' (s.behind c.left)) : c.Follows n f s := by
  intro e hon
  rw [hs, hbehind]
  exact h e hon

theorem Follows.bind {f : Sys → Exec (α × Sys)} {g : α → Sys → Exec (β × Sys)}
    (hf : c.Follows n f s) (hg : ∀ a t, f s = pure (a, t) → c.Follows m (g a) t) :
    c.Follows (n + m) (fun s => f s >>= fun x => g x.1 x.2) s := by
  intro e hon
  obtain ⟨hsame, hkept⟩ := hf (m + e) (by rwa [← Nat.add_assoc])
  refine ⟨?_, fun r t h => ?_⟩
  · beta_reduce
    rw [hsame, bind_assoc, bind_assoc]
    match hfs : f s with
    | none => rfl
    | some (.error _) => rfl
    | some (.ok (a, t)) =>
      have hfs' : f s = pure (a, t) := hfs
      exact (hg a t hfs' e (hkept a t hfs')).1
  · obtain ⟨⟨a, u⟩, hfirst, hrest⟩ := bind_eq_pure h
    exact (hg a u hfirst e (hkept a u hfirst)).2 r t hrest

theorem Follows.ite (cond : Prop) [Decidable cond] {f g : Sys → Exec (α × Sys)}
    (hf : c.Follows n f s) (hg : c.Follows n g s) :
    c.Follows n (fun s => if cond then f s else g s) s := by
  by_cases hcond : cond
  · simp only [if_pos hcond]
    exact hf
  · simp only [if_neg hcond]
    exact hg

theorem Follows.takeQuota {g : Sys → Exec (α × Sys)} {size : Nat} {msg : String}
    (hg : ∀ quota, c.Follows n g { s with quota }) :
    c.Follows n (fun s => PortalCopy.takeQuota size msg s >>= g) s := by
  by_cases hlt : s.quota < size
  · have hthrow : ∀ t : Sys, t.quota = s.quota → PortalCopy.takeQuota size msg t = throw (.panic msg) :=
      fun t ht => if_pos (ht ▸ hlt)
    refine follows_of_throw (e := .panic msg) ?_ ?_
    · rw [hthrow s rfl]
      rfl
    · rw [hthrow (s.behind c.left) rfl]
      rfl
  · have htake : ∀ t : Sys, t.quota = s.quota →
        PortalCopy.takeQuota size msg t = pure { t with quota := s.quota - size } := by
      intro t ht
      rw [← ht]
      exact if_neg (ht ▸ hlt)
    intro e hon
    have hon' : c.On { s with quota := s.quota - size } (n + e) :=
      hon.congr (fun _ _ => rfl) (Nat.le_refl _) rfl rfl
    obtain ⟨hsame, hkept⟩ := hg (s.quota - size) e hon'
    beta_reduce
    rw [htake s rfl, htake (s.behind c.left) rfl]
    exact ⟨hsame, hkept⟩

/-- An entry and then the rest. -/
theorem Follows.addToRefTable {g : Sys → Exec (α × Sys)} {key r : Nat}
    (hpays : c.Pays s.copied key n m) (hg : c.Follows m g (s.enter key r)) :
    c.Follows n (fun s => PortalCopy.addToRefTable key r s >>= g) s := by
  intro e hon
  have hentered : c.On (s.enter key r) (m + e) := hpays s r e rfl hon
  have hroom : c.left.length + ((s.copied ++ [(key, r)]).length + _ + (m + e)) ≤ s.maxCopied :=
    hentered.room
  rw [List.length_append, List.length_singleton] at hroom
  have hadd : PortalCopy.addToRefTable key r s = pure (s.enter key r) := if_neg (by omega)
  have hadd' : PortalCopy.addToRefTable key r (s.behind c.left) =
      pure ((s.enter key r).behind c.left) := by
    have hne : (s.behind c.left).copied.length ≠ (s.behind c.left).maxCopied := by
      have hlength : (s.behind c.left).copied.length = c.left.length + s.copied.length :=
        List.length_append
      have hmax : (s.behind c.left).maxCopied = s.maxCopied := rfl
      omega
    have hcopied : (s.behind c.left).copied ++ [(key, r)] = c.left ++ (s.copied ++ [(key, r)]) :=
      List.append_assoc _ _ _
    unfold PortalCopy.addToRefTable
    rw [if_neg hne, hcopied]
    rfl
  obtain ⟨hsame, hkept⟩ := hg e hentered
  beta_reduce
  rw [hadd, hadd']
  exact ⟨hsame, hkept⟩

/-! ### Allocations -/

theorem collect_copied (env : TableEnv) (d : Nat) (s : Sys) : (env.collect d s).copied = s.copied := by
  have hblind : env.collect d s = { env.collect d s with copied := s.copied } :=
    env.blind d s s.copied
  rw [hblind]

theorem collect_behind (env : TableEnv) (d : Nat) (s : Sys) (left : List (Nat × Nat)) :
    env.collect d (s.behind left) = (env.collect d s).behind left := by
  unfold Sys.behind
  rw [env.blind d s (left ++ s.copied), collect_copied]

theorem allocIn_behind (env : TableEnv) (d : Nat) (checked : Bool) (o : Obj) (s : Sys)
    (left : List (Nat × Nat)) : allocIn env.toEnv d checked o (s.behind left) =
      (allocIn env.toEnv d checked o s >>= fun x => pure (x.1, x.2.1, x.2.2.behind left)) := by
  cases hplace : env.place d checked s.allocs with
  | none =>
    have hplace' : env.place d checked (s.behind left).allocs = none := hplace
    unfold allocIn
    rw [hplace, hplace']
    rfl
  | some p =>
    have hplace' : env.place d checked (s.behind left).allocs = some p := hplace
    have hat : ∀ u : Sys, allocAt env.toEnv d p o (u.behind left) =
        (allocAt env.toEnv d p o u >>= fun x => pure (x.1, x.2.1, x.2.2.behind left)) := by
      intro u
      unfold allocAt
      by_cases hfree : p.addr ≠ 0 ∧ p.addr ≠ restartMark ∧ env.heapOf p.addr = some d ∧
          u.objs p.addr = none
      · have hfree' : p.addr ≠ 0 ∧ p.addr ≠ restartMark ∧ env.heapOf p.addr = some d ∧
          (u.behind left).objs p.addr = none := hfree
        rw [if_pos hfree, if_pos hfree']
        rfl
      · have hfree' : ¬ (p.addr ≠ 0 ∧ p.addr ≠ restartMark ∧ env.heapOf p.addr = some d ∧
          (u.behind left).objs p.addr = none) := hfree
        rw [if_neg hfree, if_neg hfree']
        rfl
    rw [allocIn_some hplace, allocIn_some hplace']
    cases p.collects with
    | false => exact hat { s with allocs := s.allocs + 1 }
    | true =>
      have hcollect := collect_behind env d { s with allocs := s.allocs + 1 } left
      rw [if_pos rfl, if_pos rfl, ← hat, ← hcollect]
      rfl

/-- What an allocation leaves as it is, and the object if there has been no collection. -/
structure Allocated (env : TableEnv) (d : Nat) (o : Obj) (s : Sys) (a : Nat) (collected : Bool)
    (t : Sys) : Prop where
  copied : t.copied = s.copied
  maxCopied : t.maxCopied = s.maxCopied
  allocs : s.allocs ≤ t.allocs
  heap : env.heapOf a = some d
  frame : ∀ x, env.heapOf x ≠ some d → t.objs x = s.objs x
  objs : collected = false → s.objs a = none ∧ t.objs = Function.update s.objs a (some o)

theorem allocIn_allocated {env : TableEnv} {d a : Nat} {checked collected : Bool} {o : Obj}
    (h : allocIn env.toEnv d checked o s = pure (a, collected, t)) :
    Allocated env d o s a collected t ∧
      ∃ p, env.place d checked s.allocs = some p ∧ p.collects = collected := by
  cases hplace : env.place d checked s.allocs with
  | none =>
    unfold allocIn at h
    rw [hplace] at h
    cases h
  | some p =>
    rw [allocIn_some hplace] at h
    -- a collection leaves everything but the heap of `d`
    have hat : ∀ u : Sys, u.copied = s.copied → u.maxCopied = s.maxCopied → s.allocs ≤ u.allocs →
        (∀ x, env.heapOf x ≠ some d → u.objs x = s.objs x) → (p.collects = false → u.objs = s.objs) →
        allocAt env.toEnv d p o u = pure (a, collected, t) →
        Allocated env d o s a collected t ∧ ∃ q, some p = some q ∧ q.collects = collected := by
      intro u hcopied hmax hallocs hframe hobjs hu
      unfold allocAt at hu
      split at hu
      next hfree =>
        cases hu
        obtain ⟨-, -, hheap, hnone⟩ := hfree
        refine ⟨⟨hcopied, hmax, hallocs, hheap, ?_, ?_⟩, p, rfl, rfl⟩
        · intro x hx
          have hne : x ≠ p.addr := by
            rintro rfl
            exact hx hheap
          exact (Function.update_of_ne hne _ _).trans (hframe x hx)
        · intro hfalse
          rw [hobjs hfalse] at hnone
          exact ⟨hnone, by rw [← hobjs hfalse]⟩
      next => cases hu
    cases hcollects : p.collects with
    | false =>
      rw [hcollects, if_neg Bool.false_ne_true] at h
      exact hat { s with allocs := s.allocs + 1 } rfl rfl (Nat.le_succ _) (fun _ _ => rfl)
        (fun _ => rfl) h
    | true =>
      rw [hcollects, if_pos rfl] at h
      refine hat (env.collect d { s with allocs := s.allocs + 1 }) (collect_copied env d _)
        (env.maxCopied d _) ?_ (env.frame d _) ?_ h
      · rw [env.allocs]
        exact Nat.le_succ _
      · intro hfalse
        rw [hcollects] at hfalse
        cases hfalse

/-- An allocation in the target domain. -/
theorem On.allocated {a : Nat} {collected : Bool} {o : Obj} (h : c.On s n)
    (halloc : Allocated c.env c.dst o s a collected t) : c.On t n := by
  refine h.congr (fun x hx => halloc.frame x ?_) halloc.allocs halloc.copied halloc.maxCopied
  rw [hx]
  exact fun heq => c.apart (Option.some.inj heq)

theorem Follows.alloc {g : Nat → Bool → Sys → Exec (α × Sys)} (o : Obj)
    (hg : ∀ a collected t, Allocated c.env c.dst o s a collected t → c.Follows n (g a collected) t) :
    c.Follows n (fun s => PortalCopy.alloc c.env.toEnv c.dst o s >>= fun x => g x.1 x.2.1 x.2.2) s := by
  intro e hon
  have hbehind : PortalCopy.alloc c.env.toEnv c.dst o (s.behind c.left) =
    (PortalCopy.alloc c.env.toEnv c.dst o s >>= fun x => pure (x.1, x.2.1, x.2.2.behind c.left)) :=
      allocIn_behind c.env c.dst true o s c.left
  refine ⟨?_, fun r t h => ?_⟩
  · beta_reduce
    rw [hbehind, bind_assoc, bind_assoc]
    match halloc : PortalCopy.alloc c.env.toEnv c.dst o s with
    | none => rfl
    | some (.error _) => rfl
    | some (.ok (a, collected, t)) =>
      have hallocated := (allocIn_allocated halloc).1
      exact (hg a collected t hallocated e (hon.allocated hallocated)).1
  · obtain ⟨⟨a, collected, u⟩, hfirst, hrest⟩ := bind_eq_pure h
    have hallocated := (allocIn_allocated hfirst).1
    exact (hg a collected u hallocated e (hon.allocated hallocated)).2 r t hrest

theorem Follows.allocUnchecked {g : Nat → Sys → Exec (α × Sys)} (o : Obj)
    (hg : ∀ a collected t, Allocated c.env c.dst o s a collected t → c.Follows n (g a) t) :
    c.Follows n (fun s => PortalCopy.allocUnchecked c.env.toEnv c.dst o s >>= fun x => g x.1 x.2) s := by
  intro e hon
  have hbehind := allocIn_behind c.env c.dst false o s c.left
  refine ⟨?_, fun r t h => ?_⟩
  · unfold PortalCopy.allocUnchecked
    beta_reduce
    rw [hbehind]
    simp only [bind_assoc, pure_bind]
    match halloc : allocIn c.env.toEnv c.dst false o s with
    | none => rfl
    | some (.error _) => rfl
    | some (.ok (a, collected, t)) =>
      have hallocated := (allocIn_allocated halloc).1
      exact (hg a collected t hallocated e (hon.allocated hallocated)).1
  · obtain ⟨⟨a, u⟩, hfirst, hrest⟩ := bind_eq_pure h
    obtain ⟨⟨a', collected, u'⟩, halloc, hpure⟩ := bind_eq_pure hfirst
    cases hpure
    have hallocated := (allocIn_allocated halloc).1
    exact (hg a collected u hallocated e (hon.allocated hallocated)).2 r t hrest

/-! ### Entries -/

theorem On.enter {key r : Nat} (h : c.On s n)
    (hroom : c.left.length + (s.copied.length + 1 +
      due c.env.toEnv c.dst c.objs c.all (s.copied ++ [(key, r)]) + m) ≤ s.maxCopied) :
    c.On (s.enter key r) m where
  heap := h.heap
  calm := h.calm
  room := by
    have hlength : (s.enter key r).copied.length = s.copied.length + 1 :=
      List.length_append.trans (by rw [List.length_singleton])
    rw [hlength]
    exact hroom

/-- One entry more is paid for each key. -/
theorem pays_one (copied : List (Nat × Nat)) (key : Nat) : c.Pays copied key 1 0 := by
  intro t r e _ hon
  refine hon.enter ?_
  have hle : due c.env.toEnv c.dst c.objs c.all (t.copied ++ [(key, r)]) ≤
    due c.env.toEnv c.dst c.objs c.all t.copied := due_concat_le
  have := hon.room
  omega

/-- The entry for an object that is met is due, and so are those for its references. -/
theorem pays_met {key : Nat} {copied : List (Nat × Nat)} (hmet : c.met key)
    (hlookup : copied.lookup key = none) (hle : 1 + n ≤ entriesAt c.env.toEnv c.dst c.objs key) :
    c.Pays copied key 0 n := by
  rintro t r e rfl hon
  refine hon.enter ?_
  have hdue : entriesAt c.env.toEnv c.dst c.objs key +
      due c.env.toEnv c.dst c.objs c.all (t.copied ++ [(key, r)]) =
        due c.env.toEnv c.dst c.objs c.all t.copied := due_concat (c.inside key hmet) hlookup
  have := hon.room
  omega

/-- The object at an address that is met, if it is entered when it is copied. -/
theorem On.pays {key : Nat} {o : Obj} (h : c.On s n) (hmet : c.met key)
    (hlookup : s.copied.lookup key = none) (hheap : c.env.heapOf key = some c.src)
    (ho : s.objs key = some o) (hentered : o.entered c.env.toEnv c.dst = true) :
    c.Pays s.copied key 0 0 := by
  apply pays_met hmet hlookup
  unfold entriesAt
  rcases h.objs_eq hmet hheap ho with hsame | ⟨hnone, -⟩
  · rw [hsame]
    simp only [hentered, Bool.toNat_true]
    omega
  · rw [hnone]

section Leaves

variable {obj : Nat}

theorem copyLeaf_follows {size : Nat} {o : Obj} (hpays : c.Pays s.copied obj n 0) :
    c.Follows n (copyLeaf c.env.toEnv c.dst size obj o) s := by
  refine Follows.takeQuota (g := fun s => PortalCopy.alloc c.env.toEnv c.dst o s >>= fun x =>
    if x.2.1 = true then pure (restartMark, x.2.2)
    else PortalCopy.addToRefTable obj x.1 x.2.2 >>= fun s => pure (x.1, s)) fun quota => ?_
  refine Follows.alloc (g := fun a collected s => if collected = true then pure (restartMark, s)
    else PortalCopy.addToRefTable obj a s >>= fun s => pure (a, s)) o fun a collected t halloc => ?_
  refine Follows.ite _ (Follows.ret restartMark) ?_
  exact Follows.addToRefTable (by rwa [halloc.copied]) (Follows.ret a)

theorem copyMemory_follows {vtable dz : Nat} (hpays : c.Pays s.copied obj n 0) :
    c.Follows n (copyMemory c.env.toEnv c.dst obj vtable dz) s := by
  refine Follows.takeQuota (g := fun s => PortalCopy.allocUnchecked c.env.toEnv c.dst
    (.memory vtable dz) s >>= fun x =>
      PortalCopy.addToRefTable obj x.1 x.2 >>= fun s => pure (x.1, s)) fun quota => ?_
  refine Follows.allocUnchecked (g := fun a s => PortalCopy.addToRefTable obj a s >>=
    fun s => pure (a, s)) _ fun a collected t halloc => ?_
  exact Follows.addToRefTable (by rwa [halloc.copied]) (Follows.ret a)

theorem copyCpustate_follows {vtable : Nat} (hpays : c.Pays s.copied obj n 0) :
    c.Follows n (copyCpustate c.env.toEnv c.src c.dst obj vtable) s := by
  refine Follows.takeQuota (g := fun s => PortalCopy.alloc c.env.toEnv c.dst
    (.foreignCpustate vtable obj) s >>= fun x => PortalCopy.alloc c.env.toEnv c.dst
      (.domain 0 c.src (c.env.domainId c.src)) x.2.2 >>= fun y =>
        if (x.2.1 || y.2.1) = true then pure (restartMark, y.2.2)
        else PortalCopy.addToRefTable obj x.1 y.2.2 >>= fun s => pure (x.1, s)) fun quota => ?_
  refine Follows.alloc (g := fun a collected s => PortalCopy.alloc c.env.toEnv c.dst
    (.domain 0 c.src (c.env.domainId c.src)) s >>= fun y =>
      if (collected || y.2.1) = true then pure (restartMark, y.2.2)
      else PortalCopy.addToRefTable obj a y.2.2 >>= fun s => pure (a, s)) _
    fun a collected t halloc => ?_
  refine Follows.alloc (g := fun _ collected' s => if (collected || collected') = true then
      pure (restartMark, s)
    else PortalCopy.addToRefTable obj a s >>= fun s => pure (a, s)) _
    fun a' collected' u halloc' => ?_
  refine Follows.ite _ (Follows.ret restartMark) ?_
  exact Follows.addToRefTable (by rwa [halloc'.copied, halloc.copied]) (Follows.ret a)

/-- A portal is entered unless it comes home. -/
theorem copyPortal_follows (hpays : ∀ vtable targetDomain targetDomainID index,
      s.objs obj = some (.portal vtable targetDomain targetDomainID index) →
      (Obj.portal vtable targetDomain targetDomainID index).entered c.env.toEnv c.dst = true →
      c.Pays s.copied obj n 0) :
    c.Follows n (copyPortal c.env.toEnv c.dst obj) s := by
  by_cases hzero : obj = 0
  · exact (Follows.ret 0).at (if_pos hzero) (if_pos hzero)
  cases hobj : s.objs obj with
  | none =>
    have hobj' : (s.behind c.left).objs obj = none := hobj
    apply follows_of_throw (e := .panic "")
    · simp only [copyPortal, if_neg hzero, hobj]
    · simp only [copyPortal, if_neg hzero, hobj']
  | some o =>
    have hobj' : (s.behind c.left).objs obj = some o := hobj
    cases o with
    | portal vtable targetDomain targetDomainID index =>
      by_cases hhome : targetDomainID = c.env.domainId c.dst ∧
          ¬ (targetDomainID = 0 ∧ targetDomain = 0 ∧ index = 0)
      · cases hentry : s.services c.dst index with
        | dep d =>
          have hentry' : (s.behind c.left).services c.dst index = .dep d := hentry
          apply (Follows.ret d.obj).at
          · simp only [copyPortal, if_neg hzero, hobj, if_pos hhome, hentry]
          · simp only [copyPortal, if_neg hzero, hobj', if_pos hhome, hentry']
        | free =>
          have hentry' : (s.behind c.left).services c.dst index = .free := hentry
          apply follows_of_throw (e := .wild)
          · simp only [copyPortal, if_neg hzero, hobj, if_pos hhome, hentry]
          · simp only [copyPortal, if_neg hzero, hobj', if_pos hhome, hentry']
        | changing =>
          have hentry' : (s.behind c.left).services c.dst index = .changing := hentry
          apply follows_of_throw (e := .wild)
          · simp only [copyPortal, if_neg hzero, hobj, if_pos hhome, hentry]
          · simp only [copyPortal, if_neg hzero, hobj', if_pos hhome, hentry']
      · have hentered : (Obj.portal vtable targetDomain targetDomainID index).entered
            c.env.toEnv c.dst = true := by
          have hcomes : (Obj.portal vtable targetDomain targetDomainID index).ComesHome
            c.env.toEnv c.dst = none := if_neg hhome
          show ((Obj.portal vtable targetDomain targetDomainID index).ComesHome
            c.env.toEnv c.dst).isNone = true
          rw [hcomes]
          rfl
        have hleaf : c.Follows n (copyLeaf c.env.toEnv c.dst GcNew.objsizePortal obj
            (.portal vtable targetDomain targetDomainID index)) s :=
          copyLeaf_follows (hpays _ _ _ _ hobj hentered)
        apply hleaf.at
        · simp only [copyPortal, if_neg hzero, hobj, if_neg hhome]
        · simp only [copyPortal, if_neg hzero, hobj', if_neg hhome]
    | _ =>
      apply follows_of_throw (e := .panic "")
      · simp only [copyPortal, if_neg hzero, hobj]
      · simp only [copyPortal, if_neg hzero, hobj']

end Leaves

/-! ### Services -/

/-- The state is changed where neither the table nor the objects that are met are concerned. -/
theorem Follows.after {f : Sys → Exec (α × Sys)} (change : Sys → Sys)
    (hf : c.Follows n f (change s)) (hbehind : change (s.behind c.left) = (change s).behind c.left)
    (hon : ∀ k, c.On s k → c.On (change s) k) : c.Follows n (fun s => f (change s)) s := by
  intro e h
  beta_reduce
  rw [hbehind]
  exact hf e (hon _ h)

theorem Follows.setService {f : Sys → Exec (α × Sys)} {d index : Nat} {entry : Entry}
    (hf : c.Follows n f (PortalCopy.setService s d index entry)) :
    c.Follows n (fun s => f (PortalCopy.setService s d index entry)) s :=
  Follows.after (fun s => PortalCopy.setService s d index entry) hf rfl fun _ h =>
    h.congr (fun _ _ => rfl) (Nat.le_refl _) rfl rfl

/-- An allocation in the source domain, which happens only for a promotion. -/
theorem Follows.allocSource {g : Nat → Sys → Exec (α × Sys)} {o : Obj} (hbare : o.Bare)
    (hserves : ∃ a, c.met a ∧ servesAt c.env.toEnv c.objs a = true)
    (hg : ∀ a t, c.Follows n (g a) t) :
    c.Follows n (fun s => PortalCopy.allocUnchecked c.env.toEnv c.src o s >>= fun x => g x.1 x.2) s := by
  intro e hon
  have hafter : ∀ {a : Nat} {collected : Bool} {t : Sys},
      allocIn c.env.toEnv c.src false o s = pure (a, collected, t) → c.On t (n + e) := by
    intro a collected t h
    obtain ⟨halloc, p, hplace, rfl⟩ := allocIn_allocated h
    obtain ⟨hnone, hobjs⟩ := halloc.objs (hon.calm hserves _ _ (Nat.le_refl _) hplace)
    refine ⟨fun x hx hheap => ?_, fun h k q hk => hon.calm h k q (halloc.allocs.trans hk), ?_⟩
    · rw [hobjs]
      by_cases hxa : x = a
      · subst hxa
        rcases hon.heap x hx hheap with hsame | ⟨hunmade, o', ho', -⟩
        · exact .inr ⟨hsame.symm.trans hnone, o, Function.update_self _ _ _, hbare⟩
        · exact .inr ⟨hunmade, o, Function.update_self _ _ _, hbare⟩
      · rw [Function.update_of_ne hxa]
        exact hon.heap x hx hheap
    · rw [halloc.copied, halloc.maxCopied]
      exact hon.room
  refine ⟨?_, fun r t h => ?_⟩
  · unfold PortalCopy.allocUnchecked
    beta_reduce
    rw [allocIn_behind]
    simp only [bind_assoc, pure_bind]
    match halloc : allocIn c.env.toEnv c.src false o s with
    | none => rfl
    | some (.error _) => rfl
    | some (.ok (a, collected, t)) => exact (hg a t e (hafter halloc)).1
  · obtain ⟨⟨a, u⟩, hfirst, hrest⟩ := bind_eq_pure h
    obtain ⟨⟨a', collected, u'⟩, halloc, hpure⟩ := bind_eq_pure hfirst
    cases hpure
    exact (hg a u e (hafter halloc)).2 r t hrest

section Services

variable {obj cl : Nat}

theorem createPromoted_follows {ifclass : Nat}
    (hserves : ∃ a, c.met a ∧ servesAt c.env.toEnv c.objs a = true) :
    c.Follows n (createPromoted c.env.toEnv c.src obj ifclass) s := by
  cases hfree : findFree s c.src with
  | none =>
    have hfree' : findFree (s.behind c.left) c.src = none := hfree
    apply follows_of_throw (e := .panic "domain can not create more services")
    · unfold createPromoted
      rw [hfree]
    · unfold createPromoted
      rw [hfree']
  | some index =>
    have hfree' : findFree (s.behind c.left) c.src = some index := hfree
    -- the three allocations, with the entry of the service table written before each of them
    have hlast : ∀ proxy t, c.Follows n (fun s => allocUnchecked c.env.toEnv c.src (.cpustate 0)
        (setService s c.src index (.dep ⟨obj, proxy⟩)) >>= fun x => pure (proxy, x.2)) t := by
      intro proxy t
      exact (Follows.allocSource (o := .cpustate 0) (g := fun _ s => pure (proxy, s)) trivial hserves
        fun _ _ => Follows.ret proxy).setService
    have hportal : ∀ t, c.Follows n (fun s => allocUnchecked c.env.toEnv c.src
        (.portal ifclass c.src (c.env.domainId c.src) index)
        (setService s c.src index (.dep ⟨obj, 0⟩)) >>= fun x =>
          allocUnchecked c.env.toEnv c.src (.cpustate 0)
            (setService x.2 c.src index (.dep ⟨obj, x.1⟩)) >>= fun y => pure (x.1, y.2)) t := by
      intro t
      exact (Follows.allocSource (o := .portal ifclass c.src (c.env.domainId c.src) index) trivial
        hserves hlast).setService
    have hservice := (Follows.allocSource (c := c) (o := .service)
      (s := setService s c.src index .changing) trivial hserves fun _ => hportal).setService
    apply hservice.at
    · unfold createPromoted
      rw [hfree]
    · unfold createPromoted
      rw [hfree']

theorem portalAutoPromo_follows (hserves : ∃ a, c.met a ∧ servesAt c.env.toEnv c.objs a = true) :
    c.Follows n (portalAutoPromo c.env.toEnv c.src obj cl) s := by
  cases hfind : findService s c.src obj with
  | some dep =>
    have hfind' : findService (s.behind c.left) c.src obj = some dep := hfind
    apply (Follows.ret dep.proxy).at
    · unfold portalAutoPromo
      rw [hfind]
    · unfold portalAutoPromo
      rw [hfind']
  | none =>
    have hfind' : findService (s.behind c.left) c.src obj = none := hfind
    cases hclass : (c.env.classDesc cl).ifclass with
    | none =>
      apply follows_of_throw
        (e := .throw .runtimeException "Class implements more than one portal interface")
      · unfold portalAutoPromo
        rw [hfind, hclass]
      · unfold portalAutoPromo
        rw [hfind', hclass]
    | some ifclass =>
      apply (createPromoted_follows hserves).at
      · unfold portalAutoPromo
        rw [hfind, hclass]
      · unfold portalAutoPromo
        rw [hfind', hclass]

/-- The object of a service takes one entry, under the address of its portal. -/
theorem copyService_follows {copy : Nat → Sys → Exec (Nat × Sys)}
    (hportal : (c.env.classDesc cl).isPortal = true)
    (hserves : ∃ a, c.met a ∧ servesAt c.env.toEnv c.objs a = true) :
    c.Follows 1 (copyObject c.env.toEnv copy c.src c.dst obj cl) s := by
  have hpromo : c.Follows 0 (portalAutoPromo c.env.toEnv c.src obj cl) s :=
    portalAutoPromo_follows hserves
  have hrest : ∀ proxy t, c.Follows 1 (fun s => if c.env.loaded c.dst cl then
      throw (.throw .runtimeException "Target domain has loaded service class")
    else copyPortal c.env.toEnv c.dst proxy s) t := by
    intro proxy t
    apply Follows.ite
    · exact follows_of_throw (e := .throw .runtimeException "Target domain has loaded service class")
        rfl rfl
    · exact copyPortal_follows fun _ _ _ _ _ _ => pays_one _ _
  apply (hpromo.bind fun proxy t _ => hrest proxy t).at
  · unfold copyObject
    rw [if_pos hportal]
    cases c.env.loaded c.dst cl <;> rfl
  · unfold copyObject
    rw [if_pos hportal]
    cases c.env.loaded c.dst cl <;> rfl

end Services

/-! ### Contents -/

theorem On.obj_eq {a : Nat} {o : Obj} (h : c.On s n) (ha : c.met a)
    (hheap : c.env.heapOf a = some c.src) (ho : c.objs a = some o) : s.objs a = some o := by
  rcases h.heap a ha hheap with hsame | ⟨hnone, -⟩
  · exact hsame.trans ho
  · rw [ho] at hnone
    cases hnone

theorem Follows.setWord {f : Sys → Exec (α × Sys)} {target k v : Nat}
    (htarget : c.env.heapOf target = some c.dst) (hf : c.Follows n f (s.setWord target k v)) :
    c.Follows n (fun s => f (s.setWord target k v)) s := by
  refine Follows.after (fun s => s.setWord target k v) hf rfl fun _ h =>
    h.congr (fun a ha => ?_) (Nat.le_refl _) rfl rfl
  have hne : a ≠ target := by
    rintro rfl
    rw [htarget] at ha
    exact c.apart (Option.some.inj ha).symm
  exact Function.update_of_ne hne _ _

theorem Follows.clearArray {f : Sys → Exec (α × Sys)} {target size : Nat}
    (htarget : c.env.heapOf target = some c.dst) (hf : ∀ t, c.Follows n f t) :
    c.Follows n (fun s => f (PortalCopy.clearArray target size s)) s := by
  unfold PortalCopy.clearArray
  induction List.range size generalizing s with
  | nil => exact hf s
  | cons k l ih =>
    exact Follows.setWord (f := fun s => f (l.foldl (fun s k => s.setWord target k 0) s)) htarget ih

section Contents

variable {copy : Nat → Sys → Exec (Nat × Sys)} {obj target : Nat} {o : Obj}

/-- `copy` copies what is met. -/
def Copies (c : Course) (copy : Nat → Sys → Exec (Nat × Sys)) : Prop :=
  ∀ ref s, (ref ≠ 0 → c.met ref) → c.Follows (servesAt c.env.toEnv c.objs ref).toNat (copy ref) s

theorem copyWords_follows (hcopy : c.Copies copy) (hmet : c.met obj)
    (hheap : c.env.heapOf obj = some c.src) (ho : c.objs obj = some o)
    (htarget : c.env.heapOf target = some c.dst) (map : List Bool) (k : Nat)
    (hmap : ∀ j, map[j]? = some true → (mapOf c.env.toEnv o)[k + j]? = some true) :
    c.Follows (promotions c.env.toEnv c.objs o.words map k) (copyWords copy obj target map k) s := by
  induction map generalizing k s with
  | nil => exact Follows.ret true
  | cons b map ih =>
    have hnext : ∀ j, map[j]? = some true → (mapOf c.env.toEnv o)[k + 1 + j]? = some true := by
      intro j hj
      have := hmap (j + 1) hj
      rwa [show k + (j + 1) = k + 1 + j by omega] at this
    intro e hon
    have hword : s.word obj k = o.words.getD k 0 := word_eq (hon.obj_eq hmet hheap ho) k
    have hword' : (s.behind c.left).word obj k = o.words.getD k 0 := hword
    revert hon
    cases b with
    | false =>
      have hrest := Follows.setWord (c := c) (s := s) (k := k) (v := o.words.getD k 0) htarget
        (ih (k + 1) hnext)
      refine (Follows.at (hrest.mono ?_) ?_ ?_) e
      · exact Nat.le_add_left _ _
      · show copyWords copy obj target map (k + 1) (s.setWord target k (s.word obj k)) = _
        rw [hword]
      · show copyWords copy obj target map (k + 1)
          ((s.behind c.left).setWord target k ((s.behind c.left).word obj k)) = _
        rw [hword']
    | true =>
      have hfirst := hcopy (o.words.getD k 0) s fun hzero => c.closed obj o k hmet ho (hmap 0 rfl) hzero
      have hrest : ∀ ref t, c.Follows (promotions c.env.toEnv c.objs o.words map (k + 1))
          (fun s => if ref = restartMark then pure (false, s)
            else copyWords copy obj target map (k + 1) (s.setWord target k ref)) t := by
        intro ref t
        exact Follows.ite _ (Follows.ret false) (Follows.setWord htarget (ih (k + 1) hnext))
      refine (Follows.at (hfirst.bind fun ref t _ => hrest ref t) ?_ ?_) e
      · show (copy (s.word obj k) s >>= _) = _
        rw [hword]
      · show (copy ((s.behind c.left).word obj k) (s.behind c.left) >>= _) = _
        rw [hword']

/-- The entry for an object whose words are copied one by one, and then the words. -/
theorem enterWords_follows (hcopy : c.Copies copy) (hmet : c.met obj)
    (hlookup : s.copied.lookup obj = none) (hheap : c.env.heapOf obj = some c.src)
    (ho : c.objs obj = some o) (hentered : o.entered c.env.toEnv c.dst = true)
    (htarget : c.env.heapOf target = some c.dst) {g : Bool → Sys → Exec (Nat × Sys)}
    (hg : ∀ done t, c.Follows 0 (g done) t) :
    c.Follows 0 (fun s => PortalCopy.addToRefTable obj target s >>= fun s =>
      copyWords copy obj target (mapOf c.env.toEnv o) 0 s >>= fun x => g x.1 x.2) s := by
  have hpays : c.Pays s.copied obj 0
      (promotions c.env.toEnv c.objs o.words (mapOf c.env.toEnv o) 0) := by
    apply pays_met hmet hlookup
    unfold entriesAt
    rw [ho]
    simp only [hentered, Bool.toNat_true, Nat.le_refl]
  refine Follows.addToRefTable hpays ?_
  refine (copyWords_follows hcopy hmet hheap ho htarget _ 0 ?_).bind fun done t _ => hg done t
  intro j hj
  rwa [Nat.zero_add]

theorem copyArray_follows {cl : Nat} {data : List Nat} (hcopy : c.Copies copy) (hmet : c.met obj)
    (hlookup : s.copied.lookup obj = none) (hheap : c.env.heapOf obj = some c.src)
    (ho : c.objs obj = some (.array cl data)) :
    c.Follows 0 (copyArray c.env.toEnv copy c.dst obj cl data.length) s := by
  refine Follows.takeQuota fun quota => ?_
  refine Follows.alloc (g := fun a collected s => if collected = true then pure (restartMark, s)
    else PortalCopy.addToRefTable obj a s >>= fun s =>
      copyWords copy obj a (arrayMap c.env.toEnv cl data.length) 0 s >>= fun x =>
        if x.1 = true then pure (a, x.2)
        else pure (restartMark, PortalCopy.clearArray a data.length x.2)) _
    fun a collected t halloc => ?_
  refine Follows.ite _ (Follows.ret restartMark) ?_
  refine enterWords_follows (o := .array cl data) hcopy hmet (by rwa [halloc.copied]) hheap ho rfl
    halloc.heap (g := fun done s => if done = true then pure (a, s)
      else pure (restartMark, PortalCopy.clearArray a data.length s)) fun done u => ?_
  exact Follows.ite _ (Follows.ret a)
    (Follows.clearArray (f := fun s => pure (restartMark, s)) halloc.heap fun _ =>
      Follows.ret restartMark)

theorem copyObject_follows {cl : Nat} {data : List Nat} (hcopy : c.Copies copy) (hmet : c.met obj)
    (hlookup : s.copied.lookup obj = none) (hheap : c.env.heapOf obj = some c.src)
    (ho : c.objs obj = some (.object cl data)) (hportal : (c.env.classDesc cl).isPortal = false) :
    c.Follows 0 (copyObject c.env.toEnv copy c.src c.dst obj cl) s := by
  have hmap : mapOf c.env.toEnv (.object cl data) = objectMap c.env.toEnv cl := by
    rw [mapOf, hportal, if_neg Bool.false_ne_true]
  have hentered : (Obj.object cl data).entered c.env.toEnv c.dst = true := by
    rw [Obj.entered, hportal]
    rfl
  have hplain : c.Follows 0 (fun s => PortalCopy.takeQuota
      (GcNew.objsizeObject (c.env.classDesc cl).instanceSize) "" s >>= fun s =>
        PortalCopy.alloc c.env.toEnv c.dst
          (.object cl (List.replicate (c.env.classDesc cl).instanceSize 0)) s >>= fun x =>
          if x.2.1 = true then pure (restartMark, x.2.2)
          else PortalCopy.addToRefTable obj x.1 x.2.2 >>= fun s =>
            copyWords copy obj x.1 (objectMap c.env.toEnv cl) 0 s >>= fun y =>
              if y.1 = true then pure (x.1, y.2) else pure (restartMark, y.2)) s := by
    refine Follows.takeQuota fun quota => ?_
    refine Follows.alloc (g := fun a collected s => if collected = true then pure (restartMark, s)
      else PortalCopy.addToRefTable obj a s >>= fun s =>
        copyWords copy obj a (objectMap c.env.toEnv cl) 0 s >>= fun x =>
          if x.1 = true then pure (a, x.2) else pure (restartMark, x.2)) _
      fun a collected t halloc => ?_
    refine Follows.ite _ (Follows.ret restartMark) ?_
    rw [← hmap]
    exact enterWords_follows (o := .object cl data) hcopy hmet (by rwa [halloc.copied]) hheap ho
      hentered halloc.heap (g := fun done s => if done = true then pure (a, s)
        else pure (restartMark, s)) fun done u =>
          Follows.ite _ (Follows.ret a) (Follows.ret restartMark)
  apply hplain.at
  · unfold copyObject
    rw [if_neg (by rw [hportal]; exact Bool.false_ne_true)]
  · unfold copyObject
    rw [if_neg (by rw [hportal]; exact Bool.false_ne_true)]

end Contents

theorem copyNew_follows {copy : (room ref : Nat) → Sys → Exec (Nat × Sys)} {ref : Nat} {o : Obj}
    (room : Nat) (hcopy : ∀ room, c.Copies (copy room)) (hmet : c.met ref)
    (hlookup : s.copied.lookup ref = none)
    (hvalid : isValidHeapRef c.env.toEnv s c.src ref) (hobj : s.objs ref = some o) :
    c.Follows (servesAt c.env.toEnv c.objs ref).toNat
      (copyNew c.env.toEnv copy c.src c.dst room ref o) s := by
  intro e hon
  revert hon
  suffices h : o ≠ .external → c.env.heapOf ref = some c.src →
      c.On s ((servesAt c.env.toEnv c.objs ref).toNat + e) → c.Follows
        (servesAt c.env.toEnv c.objs ref).toNat (copyNew c.env.toEnv copy c.src c.dst room ref o) s by
    intro hon
    by_cases hexternal : o = .external
    · subst hexternal
      exact Follows.ret ref e hon
    · refine h hexternal (hvalid.resolve_right fun heq => hexternal ?_) hon e hon
      exact Option.some.inj (hobj.symm.trans heq)
  intro hexternal hheap hon
  have hleaf : o.entered c.env.toEnv c.dst = true → c.Pays s.copied ref 0 0 :=
    hon.pays hmet hlookup hheap hobj
  have hobjs : ¬ o.Bare → c.objs ref = some o := fun hbare =>
    (hon.objs_eq hmet hheap hobj).resolve_right fun h => hbare h.2
  cases o with
  | object cl data =>
    have ho : c.objs ref = some (.object cl data) := hobjs id
    cases hportal : (c.env.classDesc cl).isPortal with
    | true =>
      have hserves : servesAt c.env.toEnv c.objs ref = true := by
        unfold servesAt
        rw [ho]
        exact hportal
      rw [hserves]
      exact (copyService_follows hportal ⟨ref, hmet, hserves⟩).checked _ _
    | false =>
      exact ((copyObject_follows (hcopy _) hmet hlookup hheap ho hportal).mono (Nat.zero_le _)).checked _ _
  | portal vtable targetDomain targetDomainID index =>
    refine (copyPortal_follows (n := 0) fun _ _ _ _ hportal hentered => ?_).mono (Nat.zero_le _)
    rw [hobj] at hportal
    cases hportal
    exact hleaf hentered
  | memory vtable dz => exact (copyMemory_follows (hleaf rfl)).mono (Nat.zero_le _)
  | domain vtable domain domainID => exact (copyLeaf_follows (hleaf rfl)).mono (Nat.zero_le _)
  | array cl data =>
    exact (copyArray_follows (hcopy _) hmet hlookup hheap (hobjs id)).mono (Nat.zero_le _)
  | external => exact absurd rfl hexternal
  | cpustate vtable => exact (copyCpustate_follows (hleaf rfl)).mono (Nat.zero_le _)
  | foreignCpustate vtable thread =>
    exact follows_of_throw (e := .panic "copy foreign cpustate not yet implemented") rfl rfl
  | atomvar =>
    exact follows_of_throw
      (e := .throw .runtimeException "AtomicVariable cannot be copied between domains") rfl rfl
  | service => exact follows_of_throw (e := .panic "UNKNOWN OBJECT TYPE") rfl rfl
  | other => exact follows_of_throw (e := .panic "UNKNOWN OBJECT TYPE") rfl rfl

/-- A copy does the same as with an empty table. -/
theorem copyReferenceInternal_follows (fuel room : Nat) :
    c.Copies (copyReferenceInternal c.env.toEnv c.src c.dst fuel room) := by
  induction fuel generalizing room with
  | zero =>
    intro ref s _ e _
    exact ⟨rfl, fun _ _ h => by cases h⟩
  | succ fuel ih =>
    intro ref s href e hon
    revert hon
    suffices h : c.Follows _ _ s from h e
    by_cases hzero : ref = 0
    · exact (Follows.ret 0).at (if_pos hzero) (if_pos hzero)
    have hmet : c.met ref := href hzero
    -- what is left over is not found
    have hleft : c.left.lookup ref = none := by
      rw [List.lookup_eq_none_iff]
      intro p hp
      have hne : ref ≠ p.1 := by
        rintro rfl
        exact c.fresh p hp hmet
      exact bne_iff_ne.mpr hne
    have hbehind : (s.behind c.left).copied.lookup ref = s.copied.lookup ref := by
      show (c.left ++ s.copied).lookup ref = _
      rw [List.lookup_append, hleft, Option.none_or]
    cases hlookup : s.copied.lookup ref with
    | some target =>
      apply ((Follows.ret target).checked room 128).at
      · simp only [copyReferenceInternal, if_neg hzero, if_neg c.apart, hlookup]
      · simp only [copyReferenceInternal, if_neg hzero, if_neg c.apart, hbehind, hlookup]
    | none =>
      rw [hlookup] at hbehind
      by_cases hvalid : isValidHeapRef c.env.toEnv s c.src ref
      · have hvalid' : isValidHeapRef c.env.toEnv (s.behind c.left) c.src ref := hvalid
        cases hobj : s.objs ref with
        | none =>
          have hobj' : (s.behind c.left).objs ref = none := hobj
          have hthrow : c.Follows (servesAt c.env.toEnv c.objs ref).toNat (fun _ : Sys =>
              (throw (.panic "UNKNOWN OBJECT TYPE") : Exec (Nat × Sys))) s :=
            follows_of_throw rfl rfl
          apply (hthrow.checked room 128).at
          · simp only [copyReferenceInternal, if_neg hzero, if_neg c.apart, hlookup, hvalid, hobj,
              not_true_eq_false, if_false]
          · simp only [copyReferenceInternal, if_neg hzero, if_neg c.apart, hbehind, hvalid', hobj',
              not_true_eq_false, if_false]
        | some o =>
          have hnew := copyNew_follows room ih hmet hlookup hvalid hobj
          refine (hnew.checked room 128).at ?_ ?_
          · exact copyReferenceInternal_new hzero c.apart hlookup hvalid hobj
          · exact copyReferenceInternal_new hzero c.apart hbehind hvalid' hobj
      · have hvalid' : ¬ isValidHeapRef c.env.toEnv (s.behind c.left) c.src ref := hvalid
        have hthrow : c.Follows (servesAt c.env.toEnv c.objs ref).toNat (fun _ : Sys =>
            (throw (.panic "invalref") : Exec (Nat × Sys))) s := follows_of_throw rfl rfl
        apply (hthrow.checked room 128).at
        · simp only [copyReferenceInternal, if_neg hzero, if_neg c.apart, hlookup, hvalid, if_true,
            not_false_eq_true]
        · simp only [copyReferenceInternal, if_neg hzero, if_neg c.apart, hbehind, hvalid', if_true,
            not_false_eq_true]

theorem copyReference_follows (fuel : Nat) :
    c.Copies (copyReference c.env.toEnv c.src c.dst fuel) :=
  fun ref s href => (copyReferenceInternal_follows fuel _ ref s href).checked _ _

end Course

end JxCore.PortalCopy
