import Mathlib.Data.List.Count
import Mathlib.Data.List.Nodup
import JxCore.Core.Service

/-!
# Portals and the services they are for

Every portal carries the place of the service it was created for, and a portal outside the domain of
a service keeps it in the table. This is an invariant of all runs in which a portal is not copied
after its service is gone and domain ids do not wrap around.
-/

namespace JxCore.Service

/-- A portal of the service in another domain. -/
def Sys.issuedBy (s : Sys) (k r : Nat) : Bool :=
  s.origin r = k ∧ (s.proxy r).heap ≠ (s.dep k).domain

/-- How many portals the service has in other domains. -/
def Sys.issued (s : Sys) (k : Nat) : Nat := s.existing.countP (s.issuedBy k)

/-- The service has a prototype, so that it is called through portals. -/
def Sys.Promoted (s : Sys) (k : Nat) : Prop := (s.dep k).proxy ≠ none

/-- What relates portals, services and service tables. -/
structure Wired (s : Sys) : Prop where
  nodup : s.existing.Nodup
  fresh : ∀ r ∈ s.existing, r < s.proxies
  room : s.existing.length ≤ 2 ^ 32 / (4 * objsizePortal)
  heap : ∀ r ∈ s.existing, (s.domain (s.proxy r).heap).state = .active
  origin_lt : ∀ r ∈ s.existing, s.origin r < s.deps
  target : ∀ r ∈ s.existing, (s.proxy r).targetDomain =
    (s.dep (s.origin r)).proxy.map fun _ => (s.dep (s.origin r)).domain
  index : ∀ r ∈ s.existing, s.Promoted (s.origin r) →
    (s.proxy r).index = (s.dep (s.origin r)).serviceIndex
  zero : ∀ r ∈ s.existing, ¬ s.Promoted (s.origin r) →
    (s.proxy r).targetDomainID = 0 ∧ (s.proxy r).index = 0
  domainZero : (s.domain 0).id = 0 ∧ (s.domain 0).state = .active
  current : ∀ r ∈ s.existing, s.freed (s.origin r) = false →
    (s.proxy r).targetDomainID = (s.domain (s.dep (s.origin r)).domain).id
  stale : ∀ r ∈ s.existing, s.freed (s.origin r) = true → ∀ d, (s.domain d).state = .active →
    (s.proxy r).targetDomainID ≠ (s.domain d).id
  past : ∀ r ∈ s.existing, (s.proxy r).targetDomainID < s.currentDomainID
  home : ∀ k < s.deps, s.freed k = false → (s.domain (s.dep k).domain).state = .active
  unborn : ∀ k, s.deps ≤ k → s.freed k = false
  entry : ∀ d i k, (s.domain d).services i = .dep k →
    k < s.deps ∧ (s.dep k).domain = d ∧ (s.dep k).serviceIndex = i ∧
      (s.freed k = false ↔ (s.domain d).state = .active)
  reserved : ∀ d, (s.domain d).state = .active → (s.domain d).services 0 = .changing
  live : ∀ r ∈ s.existing, s.freed (s.origin r) = false →
    (s.proxy r).heap ≠ (s.dep (s.origin r)).domain → s.Live (s.origin r)
  direct : ∀ k < s.deps, s.freed k = false → ¬ s.Promoted k → s.Live k
  id_lt : ∀ d, (s.domain d).state = .active → (s.domain d).id < s.currentDomainID
  id_inj : ∀ d e, (s.domain d).state = .active → (s.domain e).state = .active →
    (s.domain d).id = (s.domain e).id → d = e

/-- The reference counts say how many portals there are. -/
structure Books (s : Sys) : Prop extends Wired s where
  count : ∀ k, s.Live k → s.freed k = false → s.Promoted k → (s.dep k).refcount = 1 + s.issued k

theorem Booted.books {s : Sys} (h : Booted s) : Books s where
  nodup := by simp [h.existing]
  fresh := by simp [h.existing]
  room := by simp [h.existing]
  heap := by simp [h.existing]
  origin_lt := by simp [h.existing]
  target := by simp [h.existing]
  index := by simp [h.existing]
  zero := by simp [h.existing]
  domainZero := h.domainZero
  current := by simp [h.existing]
  stale := by simp [h.existing]
  past := by simp [h.existing]
  home := by simp [h.deps]
  unborn := fun k _ => h.freed k
  entry := fun d i k hk => absurd hk (h.table d i k)
  reserved := h.reserved
  live := by simp [h.existing]
  direct := by simp [h.deps]
  count := fun k hk => absurd hk.2 (h.table _ _ _)
  id_lt := h.id_lt
  id_inj := h.id_inj

/-! ## The routines, inverted -/

section Inversion

variable {s t : Sys} {k : Nat}

theorem deref_eq_ok {e : Entry} : s.deref e = .ok k ↔ e = .dep k ∧ s.freed k = false := by
  unfold Sys.deref
  split
  · rename_i j
    split
    · simp_all [throw, throwThe, MonadExceptOf.throw]
      grind
    · simp_all [pure, Except.pure]
      grind
  · simp_all [throw, throwThe, MonadExceptOf.throw]

theorem serviceIncRefcount_ok {e : Entry} (h : serviceIncRefcount s e = .ok t) :
    ∃ k, e = .dep k ∧ s.freed k = false ∧ t = s.setRefcount k (u4 ((s.dep k).refcount + 1)) := by
  obtain ⟨k, hk, ht⟩ := bind_eq_ok.mp h
  obtain ⟨he, hfreed⟩ := deref_eq_ok.mp hk
  exact ⟨k, he, hfreed, (pure_eq_ok.mp ht).symm⟩

/-- A new portal whose domain id is current counts for the service in the table. -/
theorem allocProxyInDomain_ok {o domain targetDomainID depIndex origin : Nat}
    {targetDomain : Option Nat}
    (h : allocProxyInDomain s domain targetDomain targetDomainID depIndex origin = .ok (o, t)) :
    s.existing.length < 2 ^ 32 / (4 * objsizePortal) ∧ o = s.proxies ∧
      ((t = s.addProxy ⟨domain, targetDomain, targetDomainID, depIndex⟩ origin ∧
          ∀ d, targetDomain = some d → (s.domain d).id ≠ targetDomainID) ∨
        ∃ d k, targetDomain = some d ∧ (s.domain d).id = targetDomainID ∧
          (s.domain d).services depIndex = .dep k ∧ s.freed k = false ∧
          t = (s.addProxy ⟨domain, targetDomain, targetDomainID, depIndex⟩ origin).setRefcount k
            (u4 ((s.dep k).refcount + 1))) := by
  unfold allocProxyInDomain roomForProxy at h
  by_cases hroom : s.existing.length < 2 ^ 32 / (4 * objsizePortal)
  · simp only [hroom, decide_true, Bool.not_true, Bool.false_eq_true, if_false] at h
    refine ⟨hroom, ?_⟩
    cases targetDomain with
    | none =>
      obtain ⟨rfl, rfl⟩ := Prod.mk.inj (pure_eq_ok.mp h)
      exact ⟨rfl, .inl ⟨rfl, by simp⟩⟩
    | some d =>
      simp only at h
      split at h
      · rename_i hid
        obtain ⟨t', ht', h⟩ := bind_eq_ok.mp h
        obtain ⟨rfl, rfl⟩ := Prod.mk.inj (pure_eq_ok.mp h)
        obtain ⟨k, hk, hfreed, rfl⟩ := serviceIncRefcount_ok ht'
        exact ⟨rfl, .inr ⟨d, k, rfl, hid, hk, hfreed, rfl⟩⟩
      · rename_i hid
        obtain ⟨rfl, rfl⟩ := Prod.mk.inj (pure_eq_ok.mp h)
        exact ⟨rfl, .inl ⟨rfl, fun e he => Option.some.inj he ▸ hid⟩⟩
  · simp only [hroom, decide_false, Bool.not_false, if_true] at h
    exact absurd h throw_ne_ok

/-- The state after the deletion of a service. -/
def Sys.deleted (s : Sys) (domain index k : Nat) : Sys :=
  Sys.setEntry { s.setRefcount k 0 with terminated := k :: s.terminated } domain index .free

theorem deleteService_ok {domain index : Nat} :
    deleteService s domain index k = .ok t ↔ s.runnable k = false ∧ t = s.deleted domain index k := by
  unfold deleteService terminateThread
  have hrun : (s.setRefcount k 0).runnable k = s.runnable k := rfl
  rw [hrun]
  cases s.runnable k with
  | true => exact ⟨fun h => absurd h throw_ne_ok, fun h => Bool.noConfusion h.1⟩
  | false =>
    simp only [Bool.false_eq_true, if_false, true_and, pure_bind]
    exact pure_eq_ok.trans eq_comm

/-- The deletion is decided by the count, the notification is not. -/
theorem serviceDecRefcount_ok {domain index : Nat} {found : Nat → Bool}
    (h : serviceDecRefcount s domain index found = .ok t) :
    ∃ k, (s.domain domain).services index = .dep k ∧ s.freed k = false ∧
      (u4 (2 ^ 32 - 1 + (s.dep k).refcount) = 1 → s.runnable k = false) ∧
      t = { (if u4 (2 ^ 32 - 1 + (s.dep k).refcount) = 1 then s.deleted domain index k
          else s.setRefcount k (u4 (2 ^ 32 - 1 + (s.dep k).refcount))) with
        notified := if found (s.dep k).obj then k :: s.notified else s.notified } := by
  obtain ⟨k, hk, h⟩ := bind_eq_ok.mp h
  obtain ⟨he, hfreed⟩ := deref_eq_ok.mp hk
  obtain ⟨u, hu, ht⟩ := bind_eq_ok.mp h
  refine ⟨k, he, hfreed, ?_⟩
  rw [pure_eq_ok] at ht
  subst ht
  simp only [Sys.setRefcount, Sys.setDep, Function.update_self] at hu ⊢
  split at hu
  · next hone =>
    obtain ⟨hrun, rfl⟩ := deleteService_ok.mp hu
    refine ⟨fun _ => hrun, ?_⟩
    rw [if_pos hone]
    simp only [Sys.deleted, Sys.setRefcount, Sys.setDep, Sys.setEntry, Function.update_self,
      Function.update_idem]
    split <;> rfl
  · next hone =>
    obtain rfl := pure_eq_ok.mp hu
    refine ⟨fun h => absurd h hone, ?_⟩
    rw [if_neg hone]
    simp only [Function.update_self]
    split <;> rfl

/-- A portal is taken for its service in its home domain, and is copied elsewhere. -/
theorem copyPortal_ok {r dst quota q : Nat} {c : Copied}
    (h : copyPortal s r dst quota = .ok (c, q, t)) :
    (arrivesHome s r dst ∧ t = s ∧ ∃ k, c = .object k ∧
      (s.domain dst).services (s.proxy r).index = .dep k ∧ s.freed k = false) ∨
    (¬ arrivesHome s r dst ∧ ∃ o, c = .proxy o ∧ allocProxyInDomain s dst (s.proxy r).targetDomain
      (s.proxy r).targetDomainID (s.proxy r).index (s.origin r) = .ok (o, t)) := by
  unfold copyPortal at h
  simp only at h
  split at h
  · rename_i hhome
    obtain ⟨k, hk, h⟩ := bind_eq_ok.mp h
    obtain ⟨hc, h⟩ := Prod.mk.inj (pure_eq_ok.mp h)
    obtain ⟨-, ht⟩ := Prod.mk.inj h
    obtain ⟨hentry, hfreed⟩ := deref_eq_ok.mp hk
    exact .inl ⟨hhome, ht.symm, k, hc.symm, hentry, hfreed⟩
  · rename_i hhome
    split at h
    · exact absurd h throw_ne_ok
    · obtain ⟨⟨o, u⟩, hu, h⟩ := bind_eq_ok.mp h
      obtain ⟨hc, h⟩ := Prod.mk.inj (pure_eq_ok.mp h)
      obtain ⟨-, ht⟩ := Prod.mk.inj h
      exact .inr ⟨hhome, o, hc.symm, ht ▸ hu⟩

end Inversion

/-! ## Fields after an update -/

section Fields

variable (s : Sys) (k n j : Nat)

theorem setRefcount_dep : (s.setRefcount k n).dep j =
    if j = k then { s.dep j with refcount := n } else s.dep j := by
  simp only [Sys.setRefcount, Sys.setDep, Function.update_apply]
  split
  · rename_i heq
    rw [heq]
  · rfl

@[simp] theorem setRefcount_dep_domain :
    ((s.setRefcount k n).dep j).domain = (s.dep j).domain := by
  grind [setRefcount_dep]

@[simp] theorem setRefcount_dep_obj : ((s.setRefcount k n).dep j).obj = (s.dep j).obj := by
  grind [setRefcount_dep]

@[simp] theorem setRefcount_dep_proxy : ((s.setRefcount k n).dep j).proxy = (s.dep j).proxy := by
  grind [setRefcount_dep]

@[simp] theorem setRefcount_dep_serviceIndex :
    ((s.setRefcount k n).dep j).serviceIndex = (s.dep j).serviceIndex := by
  grind [setRefcount_dep]

theorem setRefcount_dep_refcount :
    ((s.setRefcount k n).dep j).refcount = if j = k then n else (s.dep j).refcount := by
  grind [setRefcount_dep]

@[simp] theorem setRefcount_live : (s.setRefcount k n).Live j ↔ s.Live j := by
  unfold Sys.Live
  simp only [setRefcount_dep_domain, setRefcount_dep_serviceIndex]
  rfl

@[simp] theorem setRefcount_promoted : (s.setRefcount k n).Promoted j ↔ s.Promoted j := by
  unfold Sys.Promoted
  rw [setRefcount_dep_proxy]

@[simp] theorem setRefcount_issued : (s.setRefcount k n).issued j = s.issued j := by
  unfold Sys.issued Sys.issuedBy
  simp only [setRefcount_dep_domain]
  rfl

variable (d i : Nat) (e : Entry)

@[simp] theorem setEntry_state (c : Nat) :
    ((s.setEntry d i e).domain c).state = (s.domain c).state := by
  simp only [Sys.setEntry, Function.update_apply]
  split
  · rename_i heq
    rw [heq]
  · rfl

@[simp] theorem setEntry_id (c : Nat) : ((s.setEntry d i e).domain c).id = (s.domain c).id := by
  simp only [Sys.setEntry, Function.update_apply]
  split
  · rename_i heq
    rw [heq]
  · rfl

theorem setEntry_services (c l : Nat) : ((s.setEntry d i e).domain c).services l =
    if c = d ∧ l = i then e else (s.domain c).services l := by
  simp only [Sys.setEntry, Function.update_apply]
  by_cases hc : c = d
  · simp only [hc, if_true, true_and, Function.update_apply]
  · simp only [hc, if_false, false_and]

end Fields

section Wiring

variable {s : Sys} {k : Nat}

theorem Wired.setRefcount (h : Wired s) (k n : Nat) : Wired (s.setRefcount k n) where
  nodup := h.nodup
  fresh := h.fresh
  room := h.room
  heap := h.heap
  origin_lt := h.origin_lt
  target r hr := by
    simp only [setRefcount_dep_proxy, setRefcount_dep_domain]
    exact h.target r hr
  index r hr := by
    simp only [setRefcount_promoted, setRefcount_dep_serviceIndex]
    exact h.index r hr
  zero r hr := by
    simp only [setRefcount_promoted]
    exact h.zero r hr
  domainZero := h.domainZero
  current r hr := by
    simp only [setRefcount_dep_domain]
    exact h.current r hr
  stale := h.stale
  past := h.past
  home j hj := by
    simp only [setRefcount_dep_domain]
    exact h.home j hj
  unborn := h.unborn
  entry d i j hj := by
    simp only [setRefcount_dep_domain, setRefcount_dep_serviceIndex]
    exact h.entry d i j hj
  reserved := h.reserved
  live r hr := by
    simp only [setRefcount_dep_domain, setRefcount_live]
    exact h.live r hr
  direct j hj := by
    simp only [setRefcount_promoted, setRefcount_live]
    exact h.direct j hj
  id_lt := h.id_lt
  id_inj := h.id_inj

/-- A portal that was there already is another one than the new one. -/
theorem addProxy_old (h : Wired s) (p : Proxy) {r : Nat} (hr : r ∈ s.existing) :
    (s.addProxy p k).proxy r = s.proxy r ∧ (s.addProxy p k).origin r = s.origin r := by
  have hne : r ≠ s.proxies := Nat.ne_of_lt (h.fresh r hr)
  simp [Sys.addProxy, hne]

theorem addProxy_new (s : Sys) (p : Proxy) (k : Nat) :
    (s.addProxy p k).proxy s.proxies = p ∧ (s.addProxy p k).origin s.proxies = k := by
  simp [Sys.addProxy]

/-- What holds of the portals that were there and of the new one holds of all. -/
theorem forall_addProxy (h : Wired s) {p : Proxy} {P : Proxy → Nat → Prop} (hp : P p k)
    (hrest : ∀ r ∈ s.existing, P (s.proxy r) (s.origin r)) :
    ∀ r ∈ (s.addProxy p k).existing, P ((s.addProxy p k).proxy r) ((s.addProxy p k).origin r) := by
  intro r hr
  rcases List.mem_cons.mp hr with rfl | hr
  · rw [(addProxy_new s p k).1, (addProxy_new s p k).2]
    exact hp
  · rw [(addProxy_old h p hr).1, (addProxy_old h p hr).2]
    exact hrest r hr

/-- A new portal is wired if it names its service as the others do. -/
theorem Wired.addProxy (h : Wired s) {p : Proxy} (hk : k < s.deps)
    (hroom : s.existing.length < 2 ^ 32 / (4 * objsizePortal))
    (hheap : (s.domain p.heap).state = .active)
    (htarget : p.targetDomain = (s.dep k).proxy.map fun _ => (s.dep k).domain)
    (hindex : s.Promoted k → p.index = (s.dep k).serviceIndex)
    (hzero : ¬ s.Promoted k → p.targetDomainID = 0 ∧ p.index = 0)
    (hcurrent : s.freed k = false → p.targetDomainID = (s.domain (s.dep k).domain).id)
    (hstale : s.freed k = true → ∀ d, (s.domain d).state = .active →
      p.targetDomainID ≠ (s.domain d).id)
    (hpast : p.targetDomainID < s.currentDomainID)
    (hlive : s.freed k = false → p.heap ≠ (s.dep k).domain → s.Live k) :
    Wired (s.addProxy p k) := by
  have hnew : s.proxies ∉ s.existing := fun hmem => absurd (h.fresh _ hmem) (Nat.lt_irrefl _)
  exact {
    nodup := List.nodup_cons.mpr ⟨hnew, h.nodup⟩
    fresh := by
      intro r hr
      rcases List.mem_cons.mp hr with rfl | hr
      · exact Nat.lt_succ_self _
      · exact Nat.lt_succ_of_lt (h.fresh r hr)
    room := hroom
    heap := forall_addProxy h (P := fun p _ => (s.domain p.heap).state = .active) hheap h.heap
    origin_lt := forall_addProxy h (P := fun _ k => k < s.deps) hk h.origin_lt
    target := forall_addProxy h (P := fun p k => p.targetDomain =
      (s.dep k).proxy.map fun _ => (s.dep k).domain) htarget h.target
    index := forall_addProxy h (P := fun p k => s.Promoted k → p.index = (s.dep k).serviceIndex) hindex h.index
    zero := forall_addProxy h (P := fun p k => ¬ s.Promoted k → p.targetDomainID = 0 ∧ p.index = 0) hzero h.zero
    domainZero := h.domainZero
    current := forall_addProxy h (P := fun p k => s.freed k = false →
      p.targetDomainID = (s.domain (s.dep k).domain).id) hcurrent h.current
    stale := forall_addProxy h (P := fun p k => s.freed k = true → ∀ d, (s.domain d).state = .active →
      p.targetDomainID ≠ (s.domain d).id) hstale h.stale
    past := forall_addProxy h (P := fun p _ => p.targetDomainID < s.currentDomainID) hpast h.past
    home := h.home
    unborn := h.unborn
    entry := h.entry
    reserved := h.reserved
    live := forall_addProxy h (P := fun p k => s.freed k = false → p.heap ≠ (s.dep k).domain → s.Live k)
      hlive h.live
    direct := h.direct
    id_lt := h.id_lt
    id_inj := h.id_inj }

/-- Calls, deletions, notifications and receivers are not part of the wiring. -/
theorem Wired.log (h : Wired s) (c : List (Nat × Nat)) (m n : List Nat) (b : Nat → Bool) :
    Wired { s with calls := c, terminated := m, notified := n, runnable := b } := { h with }

theorem Wired.erase (h : Wired s) (r : Nat) :
    Wired { s with existing := s.existing.erase r } := by
  have hsub : ∀ q ∈ s.existing.erase r, q ∈ s.existing := fun q hq => List.mem_of_mem_erase hq
  exact {
    nodup := h.nodup.erase r
    fresh := fun q hq => h.fresh q (hsub q hq)
    room := Nat.le_trans List.length_erase_le h.room
    heap := fun q hq => h.heap q (hsub q hq)
    origin_lt := fun q hq => h.origin_lt q (hsub q hq)
    target := fun q hq => h.target q (hsub q hq)
    index := fun q hq => h.index q (hsub q hq)
    zero := fun q hq => h.zero q (hsub q hq)
    domainZero := h.domainZero
    current := fun q hq => h.current q (hsub q hq)
    stale := fun q hq => h.stale q (hsub q hq)
    past := fun q hq => h.past q (hsub q hq)
    home := h.home
    unborn := h.unborn
    entry := h.entry
    reserved := h.reserved
    live := fun q hq => h.live q (hsub q hq)
    direct := h.direct
    id_lt := h.id_lt
    id_inj := h.id_inj }

/-- Giving back the entry of a service takes this one, and no other, out of the table. -/
theorem setFree_live (h : Wired s) {d i j : Nat} (hentry : (s.domain d).services i = .dep k) :
    (s.setEntry d i .free).Live j ↔ s.Live j ∧ j ≠ k := by
  obtain ⟨-, hd, hi, -⟩ := h.entry d i k hentry
  show (j < s.deps ∧ ((s.setEntry d i .free).domain (s.dep j).domain).services
    (s.dep j).serviceIndex = .dep j) ↔ s.Live j ∧ j ≠ k
  rw [setEntry_services, Sys.Live]
  by_cases heq : (s.dep j).domain = d ∧ (s.dep j).serviceIndex = i
  · rw [if_pos heq, heq.1, heq.2, hentry]
    simp only [Entry.dep.injEq]
    grind
  · rw [if_neg heq]
    refine ⟨fun hl => ⟨hl, ?_⟩, fun hl => hl.1⟩
    rintro rfl
    exact heq ⟨hd, hi⟩

/-- A table entry is given back when no portal in another domain needs it. -/
theorem Wired.setFree (h : Wired s) {d i : Nat} (hentry : (s.domain d).services i = .dep k)
    (hprom : s.Promoted k)
    (hno : ∀ r ∈ s.existing, s.origin r = k → (s.proxy r).heap = (s.dep k).domain) :
    Wired (s.setEntry d i .free) := by
  obtain ⟨-, hd, hi, -⟩ := h.entry d i k hentry
  have hstate := setEntry_state s d i .free
  have hid := setEntry_id s d i .free
  have hservices := setEntry_services s d i .free
  exact {
    nodup := h.nodup
    fresh := h.fresh
    room := h.room
    heap := fun r hr => (hstate _).trans (h.heap r hr)
    origin_lt := h.origin_lt
    target := h.target
    index := h.index
    zero := h.zero
    domainZero := by
      rw [hid, hstate]
      exact h.domainZero
    current := fun r hr hf => (h.current r hr hf).trans (hid _).symm
    stale := fun r hr hf e hact => by
      rw [hid]
      exact h.stale r hr hf e ((hstate _).symm.trans hact)
    past := h.past
    home := fun j hj hf => (hstate _).trans (h.home j hj hf)
    unborn := h.unborn
    entry := fun e j l hl => by
      rw [hservices] at hl
      rw [hstate]
      split at hl
      · cases hl
      · exact h.entry e j l hl
    reserved := fun e he => by
      have hzero := h.reserved e ((hstate e).symm.trans he)
      rw [hservices]
      -- the entry that is given back holds a service, so it is not the reserved one
      split
      · rename_i heq
        rw [heq.1, heq.2, hentry] at hzero
        cases hzero
      · exact hzero
    live := fun r hr hf hne => by
      refine (setFree_live h hentry).mpr ⟨h.live r hr hf hne, ?_⟩
      intro heq
      exact hne (heq ▸ hno r hr heq)
    direct := fun j hj hf hj' => by
      refine (setFree_live h hentry).mpr ⟨h.direct j hj hf hj', ?_⟩
      rintro rfl
      exact hj' hprom
    id_lt := fun e he => by
      rw [hid]
      exact h.id_lt e ((hstate e).symm.trans he)
    id_inj := fun e f he hf => by
      rw [hid, hid]
      exact h.id_inj e f ((hstate e).symm.trans he) ((hstate f).symm.trans hf) }

/-! A new service takes a free entry, so that nothing else leaves the table. -/

section NewService

variable {dep : DEPDesc} (hfree : (s.domain dep.domain).services dep.serviceIndex = .free)

theorem addDep_dep (s : Sys) (dep : DEPDesc) (j : Nat) :
    (s.addDep dep).dep j = if j = s.deps then dep else s.dep j := by
  simp only [Sys.addDep, Sys.setEntry, Function.update_apply]

theorem addDep_dep_old (s : Sys) (dep : DEPDesc) {j : Nat} (hj : j < s.deps) :
    (s.addDep dep).dep j = s.dep j := by
  rw [addDep_dep, if_neg (Nat.ne_of_lt hj)]

@[simp] theorem addDep_state (s : Sys) (dep : DEPDesc) (d : Nat) :
    ((s.addDep dep).domain d).state = (s.domain d).state := by
  unfold Sys.addDep
  exact setEntry_state _ _ _ _ d

@[simp] theorem addDep_id (s : Sys) (dep : DEPDesc) (d : Nat) :
    ((s.addDep dep).domain d).id = (s.domain d).id := by
  unfold Sys.addDep
  exact setEntry_id _ _ _ _ d

theorem addDep_services (s : Sys) (dep : DEPDesc) (d i : Nat) :
    ((s.addDep dep).domain d).services i =
      if d = dep.domain ∧ i = dep.serviceIndex then .dep s.deps else (s.domain d).services i := by
  unfold Sys.addDep
  exact setEntry_services _ _ _ _ d i

include hfree in
theorem addDep_live {j : Nat} (hj : j < s.deps) : (s.addDep dep).Live j ↔ s.Live j := by
  unfold Sys.Live
  rw [addDep_dep_old s dep hj, addDep_services]
  have hdeps : j < (s.addDep dep).deps := Nat.lt_succ_of_lt hj
  split
  · rename_i heq
    rw [heq.1, heq.2, hfree]
    simp only [Entry.dep.injEq, reduceCtorEq, and_false, iff_false, not_and]
    exact fun _ heq => absurd heq.symm (Nat.ne_of_lt hj)
  · simp only [hdeps, hj, true_and]

theorem addDep_live_new : (s.addDep dep).Live s.deps := by
  unfold Sys.Live
  rw [addDep_dep, if_pos rfl, addDep_services, if_pos ⟨rfl, rfl⟩]
  exact ⟨Nat.lt_succ_self _, rfl⟩

include hfree in
theorem Wired.addDep (h : Wired s) (hactive : (s.domain dep.domain).state = .active) :
    Wired (s.addDep dep) := by
  have hdep : ∀ r ∈ s.existing, (s.addDep dep).dep (s.origin r) = s.dep (s.origin r) :=
    fun r hr => addDep_dep_old s dep (h.origin_lt r hr)
  have hdeps : ∀ {k}, k < (s.addDep dep).deps → k < s.deps ∨ k = s.deps :=
    fun hk => Nat.lt_or_eq_of_le (Nat.le_of_lt_succ hk)
  exact {
    nodup := h.nodup
    fresh := h.fresh
    room := h.room
    heap := fun r hr => (addDep_state _ _ _).trans (h.heap r hr)
    origin_lt := fun r hr => Nat.lt_succ_of_lt (h.origin_lt r hr)
    target := fun r hr => by
      have htarget := h.target r hr
      rw [← hdep r hr] at htarget
      exact htarget
    index := fun r hr hp => by
      have hindex := h.index r hr
      unfold Sys.Promoted at hp hindex
      rw [← hdep r hr] at hindex
      exact hindex hp
    zero := fun r hr hp => by
      have hzero := h.zero r hr
      unfold Sys.Promoted at hp hzero
      rw [← hdep r hr] at hzero
      exact hzero hp
    domainZero := by
      rw [addDep_id, addDep_state]
      exact h.domainZero
    current := fun r hr hf => by
      have hid := h.current r hr hf
      rw [← hdep r hr, ← addDep_id s dep] at hid
      exact hid
    stale := fun r hr hf d hact => by
      rw [addDep_id]
      exact h.stale r hr hf d ((addDep_state _ _ _).symm.trans hact)
    past := h.past
    home := fun k hk hf => by
      rw [addDep_state]
      rcases hdeps hk with hk | rfl
      · rw [addDep_dep_old s dep hk]
        exact h.home k hk hf
      · rw [addDep_dep, if_pos rfl]
        exact hactive
    unborn := fun k hk => h.unborn k (Nat.le_of_succ_le hk)
    entry := fun d i k hk => by
      rw [addDep_services] at hk
      rw [addDep_state]
      split at hk
      · rename_i heq
        cases hk
        rw [addDep_dep, if_pos rfl, heq.1, heq.2]
        exact ⟨Nat.lt_succ_self _, rfl, rfl, fun _ => hactive, fun _ => h.unborn _ (Nat.le_refl _)⟩
      · obtain ⟨hlt, hrest⟩ := h.entry d i k hk
        rw [addDep_dep_old s dep hlt]
        exact ⟨Nat.lt_succ_of_lt hlt, hrest⟩
    reserved := fun d hd => by
      rw [addDep_state] at hd
      have hzero := h.reserved d hd
      rw [addDep_services]
      split
      · rename_i heq
        rw [heq.1, heq.2, hfree] at hzero
        cases hzero
      · exact hzero
    live := fun r hr hf hne => by
      refine (addDep_live hfree (h.origin_lt r hr)).mpr (h.live r hr hf ?_)
      have hdom := hdep r hr
      exact fun heq => hne (heq.trans (congrArg DEPDesc.domain hdom.symm))
    direct := fun k hk hf hp => by
      rcases hdeps hk with hk | rfl
      · refine (addDep_live hfree hk).mpr (h.direct k hk hf ?_)
        unfold Sys.Promoted at hp ⊢
        rw [addDep_dep_old s dep hk] at hp
        exact hp
      · exact addDep_live_new
    id_lt := fun d hd => by
      rw [addDep_id]
      exact h.id_lt d ((addDep_state _ _ _).symm.trans hd)
    id_inj := fun d e hd he => by
      rw [addDep_id, addDep_id]
      exact h.id_inj d e ((addDep_state _ _ _).symm.trans hd) ((addDep_state _ _ _).symm.trans he) }

end NewService

end Wiring

/-! ## Portals come and go -/

section Portals

variable {s t : Sys} {r : Nat}

theorem issued_addProxy (h : Wired s) (p : Proxy) (k j : Nat) : (s.addProxy p k).issued j =
    s.issued j + if k = j ∧ p.heap ≠ (s.dep j).domain then 1 else 0 := by
  have hold : s.existing.countP ((s.addProxy p k).issuedBy j) = s.issued j := by
    refine List.countP_congr fun q hq => ?_
    have hne : q ≠ s.proxies := Nat.ne_of_lt (h.fresh q hq)
    simp [Sys.issuedBy, Sys.addProxy, hne]
  have hnew : (s.addProxy p k).issuedBy j s.proxies =
      decide (k = j ∧ p.heap ≠ (s.dep j).domain) := by
    simp [Sys.issuedBy, Sys.addProxy]
  have hcons : (s.addProxy p k).issued j =
      (s.proxies :: s.existing).countP ((s.addProxy p k).issuedBy j) := rfl
  rw [hcons, List.countP_cons, hold, hnew]
  simp only [decide_eq_true_eq]

theorem issued_erase (hr : r ∈ s.existing) (j : Nat) :
    Sys.issued { s with existing := s.existing.erase r } j =
      s.issued j - if s.issuedBy j r then 1 else 0 := by
  have herase : Sys.issued { s with existing := s.existing.erase r } j =
      (s.existing.erase r).countP (s.issuedBy j) := rfl
  rw [herase, List.countP_erase]
  simp [hr, Sys.issued]

theorem issued_le (h : Wired s) (k : Nat) : s.issued k ≤ 2 ^ 32 / (4 * objsizePortal) :=
  Nat.le_trans List.countP_le_length h.room

/-- The portal that is finalised counts for its service exactly if it is outside of its domain and
the domain lives. -/
theorem finalizePortal_cases {found : Nat → Bool} (h : Books s) (hr : r ∈ s.existing)
    (ht : finalizePortal s r found = .ok t) :
    (t = { s with existing := s.existing.erase r } ∧
      (s.freed (s.origin r) = true ∨ ¬ s.Promoted (s.origin r) ∨
        (s.proxy r).heap = (s.dep (s.origin r)).domain)) ∨
    (s.freed (s.origin r) = false ∧ s.Promoted (s.origin r) ∧
      (s.proxy r).heap ≠ (s.dep (s.origin r)).domain ∧ s.Live (s.origin r) ∧
      ∃ u, serviceDecRefcount s (s.dep (s.origin r)).domain (s.dep (s.origin r)).serviceIndex found
          = .ok u ∧
        t = { u with existing := u.existing.erase r }) := by
  obtain ⟨u, hu, ht⟩ := bind_eq_ok.mp ht
  rw [pure_eq_ok] at ht
  have htarget := h.target r hr
  unfold finalizePortalsCB at hu
  cases hproxy : (s.dep (s.origin r)).proxy with
  | none =>
    rw [hproxy, Option.map_none] at htarget
    simp only [htarget] at hu
    rw [pure_eq_ok] at hu
    subst hu
    exact .inl ⟨ht.symm, .inr (.inl fun hp => hp hproxy)⟩
  | some o =>
    have hprom : s.Promoted (s.origin r) := by simp [Sys.Promoted, hproxy]
    rw [hproxy, Option.map_some] at htarget
    simp only [htarget] at hu
    split at hu
    · rename_i hcond
      refine .inr ?_
      rw [h.index r hr hprom] at hu
      -- the entry that is used belongs to a live descriptor of that domain
      obtain ⟨k, hentry, hk, -, -⟩ := serviceDecRefcount_ok hu
      have hactive := ((h.entry _ _ _ hentry).2.2.2).mp hk
      have hfreed : s.freed (s.origin r) = false := by
        rw [← Bool.not_eq_true]
        exact fun hf => h.stale r hr hf _ hactive hcond.1.symm
      exact ⟨hfreed, hprom, hcond.2.symm, h.live r hr hfreed hcond.2.symm, u, hu, ht.symm⟩
    · rename_i hcond
      rw [pure_eq_ok] at hu
      subst hu
      refine .inl ⟨ht.symm, ?_⟩
      cases hf : s.freed (s.origin r) with
      | true => exact .inl rfl
      | false =>
        have hid := h.current r hr hf
        exact .inr (.inr (by grind))

/-- The count after the finalisation of one of the portals. -/
theorem u4_refcount (h : Books s) {k : Nat} (hlive : s.Live k) (hfreed : s.freed k = false)
    (hprom : s.Promoted k) (hpos : 0 < s.issued k) :
    u4 (2 ^ 32 - 1 + (s.dep k).refcount) = s.issued k := by
  have hcount := h.count k hlive hfreed hprom
  have hbound := issued_le h.toWired k
  have hle : (s.dep k).refcount ≤ 2 ^ 32 := by
    rw [hcount]
    have hdiv : 2 ^ 32 / (4 * objsizePortal) ≤ 2 ^ 32 - 1 := by decide
    omega
  rw [u4_pred (by omega) hle]
  omega

theorem issued_pos (hr : r ∈ s.existing)
    (hne : (s.proxy r).heap ≠ (s.dep (s.origin r)).domain) : 0 < s.issued (s.origin r) := by
  refine List.countP_pos_iff.mpr ⟨r, hr, ?_⟩
  simpa [Sys.issuedBy] using hne

theorem Books.finalizePortal {found : Nat → Bool} (h : Books s) (hr : r ∈ s.existing)
    (ht : finalizePortal s r found = .ok t) : Books t := by
  obtain ⟨rfl, hcase⟩ | ⟨hfreed, hprom, hne, hlive, u, hu, rfl⟩ := finalizePortal_cases h hr ht
  · refine { h.erase r with count := fun k hk hf hp => ?_ }
    rw [issued_erase hr]
    have hnot : s.issuedBy k r = false := by
      simp only [Sys.issuedBy, decide_eq_false_iff_not, not_and, not_not]
      rintro rfl
      rcases hcase with hcase | hcase | hcase
      · exact absurd (hcase.symm.trans hf) nofun
      · exact absurd hp hcase
      · exact hcase
    rw [hnot]
    exact h.count k hk hf hp
  · obtain ⟨k, hentry, -, -, rfl⟩ := serviceDecRefcount_ok hu
    have hk : k = s.origin r := Entry.dep.inj (hentry.symm.trans hlive.2)
    subst hk
    have hpos := issued_pos hr hne
    have hby : s.issuedBy (s.origin r) r = true := by simpa [Sys.issuedBy] using hne
    have hother : ∀ k, k ≠ s.origin r → s.issuedBy k r = false := by
      intro k hk
      simp only [Sys.issuedBy, decide_eq_false_iff_not, not_and]
      exact fun heq => absurd heq.symm hk
    have hn := u4_refcount h hlive hfreed hprom hpos
    rw [hn]
    split
    · rename_i hone
      -- the last portal: the entry is given back
      have hgone : Sys.issued { s with existing := s.existing.erase r } (s.origin r) = 0 := by
        rw [issued_erase hr, hby, hone]
        rfl
      have hno : ∀ q ∈ s.existing.erase r, s.origin q = s.origin r →
          (s.proxy q).heap = (s.dep (s.origin r)).domain := by
        intro q hq heq
        have hq' := List.countP_eq_zero.mp hgone q hq
        simpa [Sys.issuedBy, heq] using hq'
      have hwired := ((((h.erase r).setRefcount (s.origin r) 0).setFree (d := (s.dep (s.origin r)).domain)
        (i := (s.dep (s.origin r)).serviceIndex) hentry
        ((setRefcount_promoted _ _ _ _).mpr hprom)
        fun q hq heq => (hno q hq heq).trans (setRefcount_dep_domain _ _ _ _).symm)).log s.calls
        (s.origin r :: s.terminated)
        (if found (s.dep (s.origin r)).obj then s.origin r :: s.notified else s.notified) s.runnable
      refine { hwired with count := fun k hk hf hp => ?_ }
      have hk' : s.Live k ∧ k ≠ s.origin r := by
        obtain ⟨hl, hk'⟩ := (setFree_live (h.setRefcount (s.origin r) 0) hentry).mp hk
        exact ⟨(setRefcount_live s _ _ k).mp hl, hk'⟩
      have hrefcount := setRefcount_dep_refcount s (s.origin r) 0 k
      have hissued := setRefcount_issued { s with existing := s.existing.erase r } (s.origin r) 0 k
      rw [issued_erase hr, hother k hk'.2] at hissued
      rw [if_neg hk'.2] at hrefcount
      exact hrefcount.trans ((h.count k hk'.1 hf ((setRefcount_promoted _ _ _ _).mp hp)).trans
        (congrArg (1 + ·) hissued.symm))
    · rename_i hone
      have hwired := (((h.erase r).setRefcount (s.origin r) (s.issued (s.origin r)))).log s.calls
        s.terminated
        (if found (s.dep (s.origin r)).obj then s.origin r :: s.notified else s.notified) s.runnable
      refine { hwired with count := fun k hk hf hp => ?_ }
      have hcount := h.count k ((setRefcount_live s _ _ k).mp hk) hf
        ((setRefcount_promoted s _ _ k).mp hp)
      have hrefcount := setRefcount_dep_refcount s (s.origin r) (s.issued (s.origin r)) k
      have hissued := (setRefcount_issued { s with existing := s.existing.erase r } (s.origin r)
        (s.issued (s.origin r)) k).trans (issued_erase hr k)
      refine hrefcount.trans (Eq.trans ?_ (congrArg (1 + ·) hissued.symm))
      split
      · rename_i heq
        rw [heq, hby]
        simp only [if_true]
        omega
      · rename_i hk
        rw [hother k hk]
        exact hcount

/-- The portal lies in the domain of its service, and the service is in the table if the portal is
current. -/
def KeptAtHome (s : Sys) (r : Nat) : Prop :=
  (s.proxy r).targetDomain = some (s.proxy r).heap →
    (s.proxy r).targetDomainID = (s.domain (s.proxy r).heap).id →
    (s.domain (s.proxy r).heap).services (s.proxy r).index = .dep (s.origin r)

/-- The domain of a portal whose id is in use lives, and its service is not gone with it. -/
theorem current_of_active (h : Wired s) (hr : r ∈ s.existing) {d : Nat}
    (hid : (s.domain d).id = (s.proxy r).targetDomainID) (hactive : (s.domain d).state = .active) :
    s.freed (s.origin r) = false ∧ d = (s.dep (s.origin r)).domain := by
  have hfreed : s.freed (s.origin r) = false := by
    rw [← Bool.not_eq_true]
    exact fun hf => h.stale r hr hf d hactive hid.symm
  have hhome := h.home _ (h.origin_lt r hr) hfreed
  exact ⟨hfreed, h.id_inj d _ hactive hhome (hid.trans (h.current r hr hfreed))⟩

theorem promoted_of_target (h : Wired s) (hr : r ∈ s.existing) {d : Nat}
    (hd : (s.proxy r).targetDomain = some d) :
    s.Promoted (s.origin r) ∧ d = (s.dep (s.origin r)).domain := by
  have htarget := (h.target r hr).symm.trans hd
  cases ho : (s.dep (s.origin r)).proxy with
  | none =>
    rw [ho] at htarget
    cases htarget
  | some o =>
    rw [ho, Option.map_some, Option.some.injEq] at htarget
    refine ⟨fun hnone => ?_, htarget.symm⟩
    rw [ho] at hnone
    cases hnone

/-- What the table holds at the place a portal names, if the domain lives. -/
theorem services_origin (h : Wired s) (hr : r ∈ s.existing) (hkept : KeptAtHome s r) {d : Nat}
    (hd : (s.proxy r).targetDomain = some d) (hid : (s.domain d).id = (s.proxy r).targetDomainID)
    (hactive : (s.domain d).state = .active) :
    (s.domain d).services (s.proxy r).index = .dep (s.origin r) ∧ s.freed (s.origin r) = false := by
  obtain ⟨hprom, hhome⟩ := promoted_of_target h hr hd
  obtain ⟨hfreed, -⟩ := current_of_active h hr hid hactive
  refine ⟨?_, hfreed⟩
  by_cases hheap : (s.proxy r).heap = d
  · subst hheap
    exact hkept hd hid.symm
  · have hlive := h.live r hr hfreed fun heq => hheap (heq.trans hhome.symm)
    rw [h.index r hr hprom, hhome]
    exact hlive.2

/-- The table entry that a current portal names holds its service. -/
theorem entry_origin (h : Wired s) (hr : r ∈ s.existing) (hkept : KeptAtHome s r) {d k : Nat}
    (hd : (s.proxy r).targetDomain = some d) (hid : (s.domain d).id = (s.proxy r).targetDomainID)
    (hentry : (s.domain d).services (s.proxy r).index = .dep k) (hk : s.freed k = false) :
    k = s.origin r ∧ d = (s.dep k).domain ∧ s.Promoted k ∧ s.Live k := by
  obtain ⟨hprom, hhome⟩ := promoted_of_target h hr hd
  have hactive := ((h.entry _ _ _ hentry).2.2.2).mp hk
  have hsame := Entry.dep.inj (hentry.symm.trans (services_origin h hr hkept hd hid hactive).1)
  subst hsame
  obtain ⟨hlt, -, hindex, -⟩ := h.entry _ _ _ hentry
  refine ⟨rfl, hhome, hprom, hlt, ?_⟩
  rw [hindex, ← hhome]
  exact hentry

theorem Books.copy {dst quota q : Nat} {c : Copied} (h : Books s) (hr : r ∈ s.existing)
    (hdst : (s.domain dst).state = .active) (hkept : KeptAtHome s r)
    (ht : copyPortal s r dst quota = .ok (c, q, t)) : Books t := by
  obtain ⟨-, rfl, -⟩ | ⟨hhome, o, -, ho⟩ := copyPortal_ok ht
  · exact h
  · obtain ⟨hroom, -, hcase⟩ := allocProxyInDomain_ok ho
    have hwired := h.addProxy (p := ⟨dst, (s.proxy r).targetDomain, (s.proxy r).targetDomainID,
      (s.proxy r).index⟩) (h.origin_lt r hr) hroom hdst (h.target r hr) (h.index r hr)
      (h.zero r hr) (h.current r hr) (h.stale r hr) (h.past r hr)
    obtain ⟨rfl, hnone⟩ | ⟨d, k, hd, hid, hentry, hk, rfl⟩ := hcase
    · -- what is not counted is a portal of a service that needs no count
      have huncounted : s.freed (s.origin r) = false → ¬ s.Promoted (s.origin r) := by
        intro hf hp
        obtain ⟨o, ho⟩ := Option.ne_none_iff_exists'.mp hp
        have htarget := h.target r hr
        rw [ho, Option.map_some] at htarget
        exact hnone _ htarget (h.current r hr hf).symm
      refine { hwired fun hf _ => h.direct _ (h.origin_lt r hr) hf (huncounted hf) with
        count := fun k hk hf hp => ?_ }
      rw [issued_addProxy h.toWired, if_neg]
      · exact h.count k hk hf hp
      · rintro ⟨rfl, -⟩
        exact huncounted hf hp
    · obtain ⟨rfl, hhomek, hprom, hlive⟩ := entry_origin h.toWired hr hkept hd hid hentry hk
      have hcount := h.count _ hlive hk hprom
      have hroom' := issued_le h.toWired (s.origin r)
      have hdst' : dst ≠ (s.dep (s.origin r)).domain := by
        rintro rfl
        refine hhome ?_
        simp [arrivesHome, hd, ← hid, hhomek]
      have hfits : u4 ((s.dep (s.origin r)).refcount + 1) = 2 + s.issued (s.origin r) := by
        rw [u4_of_lt]
        · omega
        · have hdiv : 2 ^ 32 / (4 * objsizePortal) < 2 ^ 32 - 2 := by decide
          omega
      refine { (hwired fun _ _ => hlive).setRefcount _ _ with count := fun k hk hf hp => ?_ }
      rw [setRefcount_issued, setRefcount_dep_refcount, issued_addProxy h.toWired, hfits]
      split
      · rename_i heq
        rw [if_pos ⟨heq.symm, heq ▸ hdst'⟩, heq]
        omega
      · rename_i hne
        rw [if_neg fun hc => hne hc.1.symm]
        exact h.count k ((setRefcount_live _ _ _ _).mp hk) hf ((setRefcount_promoted _ _ _ _).mp hp)

end Portals

/-! ## New services -/

section Creation

variable {s t : Sys}

theorem firstFree_some {services : Nat → Entry} :
    ∀ {n i j : Nat}, firstFree services n i = some j → services j = .free
  | 0, _, _, h => by cases h
  | n + 1, i, j, h => by
    unfold firstFree at h
    split at h
    · rename_i hfree
      exact Option.some.inj h ▸ hfree
    · exact firstFree_some h

theorem firstFree_lt {services : Nat → Entry} {n i j : Nat} (h : firstFree services n i = some j) :
    j < i + n := by
  induction n generalizing i with
  | zero => cases h
  | succ n ih =>
    unfold firstFree at h
    split at h
    · have heq := Option.some.inj h
      omega
    · have hlt := ih h
      omega

theorem createService_ok {d obj ifclass k : Nat} (h : createService s d obj ifclass = .ok (k, t)) :
    k = s.deps ∧ ∃ index < maxServices, (s.domain d).services index = .free ∧
      t = s.addDep ⟨d, obj, ifclass, none, 0, index⟩ := by
  unfold createService at h
  split at h
  · exact absurd h throw_ne_ok
  · rename_i index hindex
    obtain ⟨hk, ht⟩ := Prod.mk.inj (pure_eq_ok.mp h)
    have hlt := firstFree_lt hindex
    exact ⟨hk.symm, index, by omega, firstFree_some hindex, ht.symm⟩

/-- `createService` and `createPortalInDomain` as `portal_auto_promo` calls them. -/
def promote (s : Sys) (d obj ifclass : Nat) : Except Fault (Option Nat × Sys) := do
  let (k, s) ← createService s d obj ifclass
  let (o, s) ← allocProxyInDomain s d (some d) (s.domain d).id (s.dep k).serviceIndex k
  pure (some o, (s.setDep k fun p => { p with proxy := some o }).setRunnable k true)

/-- A service is created with its prototype as the first portal. -/
theorem promote_ok {d obj ifclass : Nat} {o : Option Nat}
    (h : promote s d obj ifclass = .ok (o, t)) :
    ∃ index < maxServices, (s.domain d).services index = .free ∧
      s.existing.length < 2 ^ 32 / (4 * objsizePortal) ∧ o = some s.proxies ∧
      t = ((s.addDep ⟨d, obj, ifclass, some s.proxies, 1, index⟩).addProxy
        ⟨d, some d, (s.domain d).id, index⟩ s.deps).setRunnable s.deps true := by
  obtain ⟨⟨k, u⟩, hu, h⟩ := bind_eq_ok.mp h
  obtain ⟨rfl, index, hlt, hfree, rfl⟩ := createService_ok hu
  obtain ⟨⟨p, v⟩, hv, h⟩ := bind_eq_ok.mp h
  obtain ⟨ho, ht⟩ := Prod.mk.inj (pure_eq_ok.mp h)
  obtain ⟨hroom, rfl, hcase⟩ := allocProxyInDomain_ok hv
  refine ⟨index, hlt, hfree, hroom, ho.symm, ?_⟩
  obtain ⟨-, hnone⟩ | ⟨e, k, he, -, hentry, -, rfl⟩ := hcase
  · exact absurd rfl (hnone d rfl)
  · obtain rfl := Option.some.inj he
    rw [addDep_dep, if_pos rfl, addDep_services, if_pos ⟨rfl, rfl⟩, Entry.dep.injEq] at hentry
    subst hentry
    have hcount : u4 (0 + 1) = 1 := rfl
    rw [← ht, addDep_dep, if_pos rfl, hcount]
    simp only [Sys.addDep, Sys.addProxy, Sys.setRefcount, Sys.setDep, Sys.setEntry,
      Sys.setRunnable, Function.update_self, Function.update_idem, if_true]

/-- A service is found again or created. -/
theorem portalAutoPromo_ok {cls : Classes} {d obj : Nat} {o : Option Nat}
    (h : portalAutoPromo cls s d obj = .ok (o, t)) :
    t = s ∨ ∃ ifclass index, (s.domain d).services index = .free ∧
      s.existing.length < 2 ^ 32 / (4 * objsizePortal) ∧ o = some s.proxies ∧
      t = ((s.addDep ⟨d, obj, ifclass, some s.proxies, 1, index⟩).addProxy
        ⟨d, some d, (s.domain d).id, index⟩ s.deps).setRunnable s.deps true := by
  unfold portalAutoPromo at h
  split at h
  · exact absurd h throw_ne_ok
  · split at h
    · exact .inl (Prod.mk.inj (pure_eq_ok.mp h)).2.symm
    · obtain ⟨i, -, h⟩ := bind_eq_ok.mp h
      cases i with
      | none => exact absurd h throw_ne_ok
      | some ifclass =>
        obtain ⟨index, -, hcreated⟩ := promote_ok h
        exact .inr ⟨ifclass, index, hcreated⟩

theorem issued_addDep (s : Sys) (dep : DEPDesc) {j : Nat} (hj : j < s.deps) :
    (s.addDep dep).issued j = s.issued j := by
  refine List.countP_congr fun q hq => ?_
  unfold Sys.issuedBy
  rw [addDep_dep_old s dep hj]
  rfl

theorem issued_addDep_new (h : Wired s) (dep : DEPDesc) : (s.addDep dep).issued s.deps = 0 := by
  refine List.countP_eq_zero.mpr fun q hq => ?_
  have hlt : s.origin q ≠ s.deps := Nat.ne_of_lt (h.origin_lt q hq)
  simp [Sys.issuedBy, Sys.addDep, Sys.setEntry, hlt]

/-- A service starts with the count of its prototype. -/
theorem Books.addDep (h : Books s) (dep : DEPDesc)
    (hfree : (s.domain dep.domain).services dep.serviceIndex = .free)
    (hactive : (s.domain dep.domain).state = .active)
    (hone : dep.proxy ≠ none → dep.refcount = 1) : Books (s.addDep dep) := by
  refine { h.toWired.addDep hfree hactive with count := fun k hk hf hp => ?_ }
  rcases Nat.lt_or_eq_of_le (Nat.le_of_lt_succ hk.1) with hlt | rfl
  · unfold Sys.Promoted at hp
    rw [issued_addDep s dep hlt]
    rw [addDep_dep_old s dep hlt] at hp ⊢
    exact h.count k ((addDep_live hfree hlt).mp hk) hf hp
  · unfold Sys.Promoted at hp
    rw [addDep_dep, if_pos rfl] at hp
    rw [issued_addDep_new h.toWired, addDep_dep, if_pos rfl]
    exact hone hp

/-- A portal in the domain of its service is not counted. -/
theorem Books.addLocal {p : Proxy} {k : Nat} (h : Books s) (hwired : Wired (s.addProxy p k))
    (hhome : p.heap = (s.dep k).domain) : Books (s.addProxy p k) := by
  refine { hwired with count := fun j hj hf hp => ?_ }
  rw [issued_addProxy h.toWired, if_neg]
  · exact h.count j hj hf hp
  · rintro ⟨rfl, hne⟩
    exact hne hhome

/-- The books do not say what the receivers do. -/
theorem Books.log (h : Books s) (c : List (Nat × Nat)) (b : Nat → Bool) :
    Books { s with calls := c, runnable := b } :=
  { h.toWired.log c s.terminated s.notified b with count := h.count }

theorem Books.autoPromo {cls : Classes} {d obj : Nat} {o : Option Nat} (h : Books s)
    (hactive : (s.domain d).state = .active) (ht : portalAutoPromo cls s d obj = .ok (o, t)) :
    Books t := by
  obtain rfl | ⟨ifclass, index, hfree, hroom, -, rfl⟩ := portalAutoPromo_ok ht
  · exact h
  · have hadd := h.addDep ⟨d, obj, ifclass, some s.proxies, 1, index⟩ hfree hactive
      fun _ => rfl
    have hnew := addDep_dep s ⟨d, obj, ifclass, some s.proxies, 1, index⟩ s.deps
    rw [if_pos rfl] at hnew
    have hunborn : s.freed s.deps = false := h.unborn _ (Nat.le_refl _)
    refine Books.log (hadd.addLocal (hadd.toWired.addProxy (Nat.lt_succ_self _) hroom
      ((addDep_state _ _ _).trans hactive) ?_ ?_ ?_ ?_ ?_ (h.id_lt d hactive) ?_) ?_) _ _
    · rw [hnew]
      rfl
    · rw [hnew]
      exact fun _ => rfl
    · unfold Sys.Promoted
      rw [hnew]
      exact fun hp => absurd nofun hp
    · rw [hnew, addDep_id]
      exact fun _ => rfl
    · exact fun hf => absurd (hunborn.symm.trans hf) nofun
    · exact fun _ _ => addDep_live_new
    · rw [hnew]

theorem Books.initZeroDep {cd o : Nat} (h : Books s) (hactive : (s.domain 0).state = .active)
    (ht : initZeroDepWithoutThread s cd = .ok (o, t)) : Books t := by
  obtain ⟨⟨k, u⟩, hu, ht⟩ := bind_eq_ok.mp ht
  obtain ⟨rfl, index, -, hfree, rfl⟩ := createService_ok hu
  obtain ⟨hroom, -, hcase⟩ := allocProxyInDomain_ok ht
  have hadd := h.addDep ⟨0, s.proxies, cd, none, 0, index⟩ hfree hactive
    fun hnone => absurd rfl hnone
  have hnew := addDep_dep s ⟨0, s.proxies, cd, none, 0, index⟩ s.deps
  rw [if_pos rfl] at hnew
  have hunborn : s.freed s.deps = false := h.unborn _ (Nat.le_refl _)
  obtain ⟨rfl, -⟩ | ⟨d, k, hd, -⟩ := hcase
  · refine hadd.addLocal (hadd.toWired.addProxy (Nat.lt_succ_self _) hroom
      ((addDep_state _ _ _).trans hactive) ?_ ?_ ?_ ?_ ?_ ?_ ?_) ?_
    · rw [hnew]
      rfl
    · unfold Sys.Promoted
      rw [hnew]
      exact fun hp => absurd rfl hp
    · rw [addDep_id, h.domainZero.1]
      exact fun _ => ⟨rfl, rfl⟩
    · rw [hnew]
      exact fun _ => rfl
    · exact fun hf => absurd (hunborn.symm.trans hf) nofun
    · rw [addDep_id]
      exact h.id_lt 0 hactive
    · exact fun _ _ => addDep_live_new
    · rw [hnew]
  · cases hd

end Creation

/-! ## Domains come and go -/

section Domains

variable {s t : Sys} {d : Nat} {found : Nat → Bool}

theorem createDomain_domain (s : Sys) (d e : Nat) (he : e ≠ d) :
    (createDomain s d).domain e = s.domain e := by
  simp [createDomain, he]

/-- A control block is used again under an id that no portal knows. -/
theorem Books.createDomain (h : Books s) (hfree : (s.domain d).state = .free)
    (hwrap : s.currentDomainID + 1 < 2 ^ 32) : Books (createDomain s d) := by
  have hnext : (Service.createDomain s d).currentDomainID = s.currentDomainID + 1 := u4_of_lt hwrap
  have hdomain := createDomain_domain s d
  have hid : ((Service.createDomain s d).domain d).id = s.currentDomainID := by
    simp [Service.createDomain]
  have hentry : ∀ i k, ((Service.createDomain s d).domain d).services i ≠ .dep k := by
    intro i k
    simp only [Service.createDomain, Function.update_self, Function.update_apply]
    split <;> nofun
  have hother : ∀ e, (s.domain e).state = .active → e ≠ d := by
    rintro e he rfl
    exact absurd (hfree.symm.trans he) nofun
  have hlive : ∀ k, s.freed k = false → ((Service.createDomain s d).Live k ↔ s.Live k) := by
    intro k hf
    unfold Sys.Live
    by_cases hk : k < s.deps
    · have hne := hother _ (h.home k hk hf)
      show _ ∧ ((Service.createDomain s d).domain (s.dep k).domain).services _ = _ ↔ _
      rw [hdomain _ hne]
      rfl
    · exact ⟨fun hl => absurd hl.1 hk, fun hl => absurd hl.1 hk⟩
  exact {
    nodup := h.nodup
    fresh := h.fresh
    room := h.room
    heap := fun r hr => by
      have hact := h.heap r hr
      show ((Service.createDomain s d).domain (s.proxy r).heap).state = _
      rw [hdomain _ (hother _ hact)]
      exact hact
    origin_lt := h.origin_lt
    target := h.target
    index := h.index
    zero := h.zero
    domainZero := by
      rw [hdomain 0 (hother 0 h.domainZero.2)]
      exact h.domainZero
    current := fun r hr hf => by
      have hne := hother _ (h.home _ (h.origin_lt r hr) hf)
      show _ = ((Service.createDomain s d).domain (s.dep (s.origin r)).domain).id
      rw [hdomain _ hne]
      exact h.current r hr hf
    stale := fun r hr hf e => by
      by_cases hne : e = d
      · rw [hne, hid]
        exact fun _ => Nat.ne_of_lt (h.past r hr)
      · rw [hdomain _ hne]
        exact h.stale r hr hf e
    past := fun r hr => by
      rw [hnext]
      exact Nat.lt_succ_of_lt (h.past r hr)
    home := fun k hk hf => by
      have hact := h.home k hk hf
      show ((Service.createDomain s d).domain (s.dep k).domain).state = _
      rw [hdomain _ (hother _ hact)]
      exact hact
    unborn := h.unborn
    entry := fun e i k hk => by
      by_cases hne : e = d
      · exact absurd (hne ▸ hk) (hentry i k)
      · rw [hdomain e hne] at hk ⊢
        exact h.entry e i k hk
    reserved := fun e he => by
      by_cases hne : e = d
      · subst hne
        simp [Service.createDomain]
      · rw [hdomain e hne] at he ⊢
        exact h.reserved e he
    live := fun r hr hf hne => (hlive _ hf).mpr (h.live r hr hf hne)
    direct := fun k hk hf hp => (hlive _ hf).mpr (h.direct k hk hf hp)
    count := fun k hk hf hp => h.count k ((hlive k hf).mp hk) hf hp
    id_lt := fun e he => by
      rw [hnext]
      by_cases hne : e = d
      · rw [hne, hid]
        exact Nat.lt_succ_self _
      · rw [hdomain e hne] at he ⊢
        exact Nat.lt_succ_of_lt (h.id_lt e he)
    id_inj := fun e f he hf heq => by
      have hlt : ∀ e, e ≠ d → ((Service.createDomain s d).domain e).state = .active →
          ((Service.createDomain s d).domain e).id ≠ s.currentDomainID := by
        intro e hne hact
        rw [hdomain e hne] at hact ⊢
        exact Nat.ne_of_lt (h.id_lt e hact)
      by_cases hed : e = d
      · by_cases hfd : f = d
        · rw [hed, hfd]
        · rw [hed, hid] at heq
          exact absurd heq.symm (hlt f hfd hf)
      · by_cases hfd : f = d
        · rw [hfd, hid] at heq
          exact absurd heq (hlt e hed he)
        · rw [hdomain e hed] at he heq
          rw [hdomain f hfd] at hf heq
          exact h.id_inj e f he hf heq }

/-- What the finalisation of a portal leaves alone. -/
theorem finalizePortal_frame {r : Nat} (ht : finalizePortal s r found = .ok t) :
    t.existing = s.existing.erase r ∧ t.proxy = s.proxy ∧
      ∀ e, (t.domain e).state = (s.domain e).state ∧ (t.domain e).id = (s.domain e).id := by
  obtain ⟨u, hu, ht⟩ := bind_eq_ok.mp ht
  rw [pure_eq_ok] at ht
  subst ht
  unfold finalizePortalsCB at hu
  simp only at hu
  split at hu
  · rw [pure_eq_ok] at hu
    subst hu
    exact ⟨rfl, rfl, fun _ => ⟨rfl, rfl⟩⟩
  · split at hu
    · obtain ⟨k, -, -, -, rfl⟩ := serviceDecRefcount_ok hu
      split
      · exact ⟨rfl, rfl, fun e => ⟨setEntry_state _ _ _ _ e, setEntry_id _ _ _ _ e⟩⟩
      · exact ⟨rfl, rfl, fun _ => ⟨rfl, rfl⟩⟩
    · rw [pure_eq_ok] at hu
      subst hu
      exact ⟨rfl, rfl, fun _ => ⟨rfl, rfl⟩⟩

theorem Books.finalizeAll {l : List Nat} (h : Books s) (hl : l.Nodup)
    (hsub : ∀ r ∈ l, r ∈ s.existing)
    (ht : l.foldlM (fun s r => Service.finalizePortal s r found) s = .ok t) :
    Books t ∧ (∀ q ∈ t.existing, q ∈ s.existing ∧ q ∉ l) ∧ t.proxy = s.proxy := by
  induction l generalizing s with
  | nil =>
    rw [List.foldlM_nil, pure_eq_ok] at ht
    subst ht
    exact ⟨h, fun q hq => ⟨hq, List.not_mem_nil⟩, rfl⟩
  | cons r l ih =>
    rw [List.foldlM_cons] at ht
    obtain ⟨u, hu, ht⟩ := bind_eq_ok.mp ht
    obtain ⟨hexisting, hproxy, -⟩ := finalizePortal_frame hu
    obtain ⟨hr, hl⟩ := List.nodup_cons.mp hl
    have hmem : ∀ q, q ∈ u.existing ↔ q ∈ s.existing ∧ q ≠ r := by
      intro q
      rw [hexisting, h.nodup.mem_erase_iff, and_comm]
    have hstep := ih (h.finalizePortal (hsub r List.mem_cons_self) hu) hl (fun q hq =>
      (hmem q).mpr ⟨hsub q (List.mem_cons_of_mem r hq), fun heq => hr (heq ▸ hq)⟩) ht
    obtain ⟨hbooks, hrest, hproxy'⟩ := hstep
    refine ⟨hbooks, fun q hq => ?_, hproxy'.trans hproxy⟩
    obtain ⟨hq', hnot⟩ := hrest q hq
    obtain ⟨hqs, hne⟩ := (hmem q).mp hq'
    refine ⟨hqs, fun hmem' => ?_⟩
    rcases List.mem_cons.mp hmem' with rfl | hmem'
    · exact hne rfl
    · exact hnot hmem'

/-- The heap is given back: no portal is in it any more. -/
theorem Books.release (h : Books s) (c : List (Nat × Nat)) (hzero : d ≠ 0)
    (hno : ∀ r ∈ s.existing, (s.proxy r).heap ≠ d) :
    Books { s with
      domain := Function.update s.domain d { s.domain d with state := .free }
      freed := fun k => s.freed k || decide (k < s.deps ∧ (s.dep k).domain = d)
      calls := c } := by
  have hdomain : ∀ e, e ≠ d →
      Function.update s.domain d { s.domain d with state := .free } e = s.domain e :=
    fun e he => Function.update_of_ne he _ _
  have hservices : ∀ e,
      (Function.update s.domain d { s.domain d with state := .free } e).services =
        (s.domain e).services := by
    intro e
    rw [Function.update_apply]
    split
    · rename_i heq
      rw [heq]
    · rfl
  have hactive : ∀ e,
      (Function.update s.domain d { s.domain d with state := .free } e).state = .active →
        e ≠ d ∧ (s.domain e).state = .active := by
    intro e he
    rw [Function.update_apply] at he
    split at he
    · cases he
    · exact ⟨‹_›, he⟩
  have hkept : ∀ k < s.deps, (s.freed k || decide (k < s.deps ∧ (s.dep k).domain = d)) = false →
      s.freed k = false ∧ (s.dep k).domain ≠ d := by
    intro k hk hf
    simp only [Bool.or_eq_false_iff, decide_eq_false_iff_not, hk, true_and] at hf
    exact hf
  have hlive : ∀ k, s.Live k → k < s.deps ∧
      (Function.update s.domain d { s.domain d with state := .free } (s.dep k).domain).services
        (s.dep k).serviceIndex = .dep k := by
    intro k hk
    rw [hservices]
    exact hk
  exact {
    nodup := h.nodup
    fresh := h.fresh
    room := h.room
    heap := fun r hr => by
      simp only [hdomain _ (hno r hr)]
      exact h.heap r hr
    origin_lt := h.origin_lt
    target := h.target
    index := h.index
    zero := h.zero
    domainZero := by
      simp only [hdomain 0 (Ne.symm hzero)]
      exact h.domainZero
    current := fun r hr hf => by
      obtain ⟨hf, hne⟩ := hkept _ (h.origin_lt r hr) hf
      simp only [hdomain _ hne]
      exact h.current r hr hf
    stale := fun r hr hf e hact => by
      obtain ⟨hne, hact⟩ := hactive _ hact
      simp only [hdomain _ hne]
      cases hold : s.freed (s.origin r) with
      | true => exact h.stale r hr hold e hact
      | false =>
        -- the domain that ends had another id than the domains that go on
        have hhome : (s.dep (s.origin r)).domain = d := by
          simp only [hold, Bool.false_or, decide_eq_true_eq] at hf
          exact hf.2
        have hact' := h.home _ (h.origin_lt r hr) hold
        simp only [h.current r hr hold]
        exact fun heq => hne ((h.id_inj _ _ hact' hact heq).symm.trans hhome)
    past := h.past
    home := fun k hk hf => by
      obtain ⟨hf, hne⟩ := hkept k hk hf
      simp only [hdomain _ hne]
      exact h.home k hk hf
    unborn := fun k hk => by
      simp only [h.unborn k hk, Bool.false_or, decide_eq_false_iff_not]
      exact fun hlt => absurd hlt.1 (Nat.not_lt.mpr hk)
    entry := fun e i k hk => by
      simp only [hservices] at hk
      obtain ⟨hlt, hdom, hindex, hiff⟩ := h.entry e i k hk
      refine ⟨hlt, hdom, hindex, ?_⟩
      by_cases hne : e = d
      · simp [hne, hdom, hlt]
      · simp only [hdomain e hne]
        simpa [hdom, hne] using hiff
    reserved := fun e he => by
      obtain ⟨hne, hact⟩ := hactive e he
      simp only [hdomain e hne]
      exact h.reserved e hact
    live := fun r hr hf hne =>
      hlive _ (h.live r hr (hkept _ (h.origin_lt r hr) hf).1 hne)
    direct := fun k hk hf hp => hlive _ (h.direct k hk (hkept k hk hf).1 hp)
    count := fun k hk hf hp => by
      have hk' : s.Live k := by
        refine ⟨hk.1, ?_⟩
        have hservice := hk.2
        simp only [hservices] at hservice
        exact hservice
      exact h.count k hk' (hkept k hk.1 hf).1 hp
    id_lt := fun e he => by
      obtain ⟨hne, hact⟩ := hactive e he
      simp only [hdomain e hne]
      exact h.id_lt e hact
    id_inj := fun e f he hf => by
      obtain ⟨hne, hact⟩ := hactive e he
      obtain ⟨hnf, hacf⟩ := hactive f hf
      simp only [hdomain e hne, hdomain f hnf]
      exact h.id_inj e f hact hacf }

theorem Books.terminateDomain (h : Books s) (hactive : (s.domain d).state = .active) (hzero : d ≠ 0)
    (ht : terminateDomain s d found = .ok t) : Books t := by
  unfold Service.terminateDomain at ht
  simp only [deactivate_reserved (h.reserved d hactive), Function.update_eq_self] at ht
  obtain ⟨u, hu, ht⟩ := bind_eq_ok.mp ht
  rw [pure_eq_ok] at ht
  subst ht
  obtain ⟨hbooks, hrest, hproxy⟩ := h.finalizeAll (h.nodup.filter _)
    (fun r hr => (List.mem_filter.mp hr).1) hu
  refine hbooks.release _ hzero fun r hr heq => ?_
  obtain ⟨hmem, hnot⟩ := hrest r hr
  refine hnot (List.mem_filter.mpr ⟨hmem, ?_⟩)
  rw [hproxy] at heq
  simpa using heq

end Domains

/-! ## Runs -/

section Runs

variable {cls : Classes} {s t : Sys} {e : Event}

/-- The counts stay right: a portal is copied while its service is there, and a domain is created
under an id of its own. -/
def Regular (s : Sys) : Event → Prop
  | .copy r _ _ => KeptAtHome s r
  | .createDomain _ => s.currentDomainID + 1 < 2 ^ 32
  | _ => True

theorem Books.exec (h : Books s) (hen : Enabled s e) (hreg : Regular s e)
    (ht : exec cls s e = .ok t) : Books t := by
  cases e with
  | autoPromo d obj =>
    obtain ⟨⟨o, u⟩, hu, ht⟩ := bind_eq_ok.mp ht
    exact pure_eq_ok.mp ht ▸ h.autoPromo hen hu
  | direct cd =>
    obtain ⟨⟨o, u⟩, hu, ht⟩ := bind_eq_ok.mp ht
    exact pure_eq_ok.mp ht ▸ h.initZeroDep hen hu
  | copy r dst quota =>
    obtain ⟨⟨c, q, u⟩, hu, ht⟩ := bind_eq_ok.mp ht
    exact pure_eq_ok.mp ht ▸ h.copy hen.1 hen.2 hreg hu
  | collect r found => exact h.finalizePortal hen.1 ht
  | send r =>
    obtain ⟨sent, -, ht⟩ := bind_eq_ok.mp ht
    cases sent with
    | queued k => exact pure_eq_ok.mp ht ▸ h.log _ _
    | exception => exact pure_eq_ok.mp ht ▸ h
    | shortCircuit k => exact pure_eq_ok.mp ht ▸ h
  | return_ c thrown => exact pure_eq_ok.mp ht ▸ h.log _ _
  | wait k => exact pure_eq_ok.mp ht ▸ h.log _ _
  | createDomain d => exact pure_eq_ok.mp ht ▸ h.createDomain hen hreg
  | terminateDomain d found => exact h.terminateDomain hen.1 hen.2 ht

end Runs

end JxCore.Service
