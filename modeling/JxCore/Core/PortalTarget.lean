import JxCore.Core.ServiceInvariant

/-!
# A portal denotes one service

A portal names its service by a place in a table and carries no generation number. What keeps it from
naming another service is the reference count, as long as the portal counts, and the domain id. This
is stated for every use of a portal, in every history of services and domains.
-/

namespace JxCore.Service

/-- The routine used a marker of the table, or a descriptor that is gone, as a service. -/
def Fault.wild : Fault → Bool
  | .entry _ => true
  | .freed _ => true
  | _ => false

/-- The routine uses no pointer that is not one to a service. -/
def Safe {α : Type} (x : Except Fault α) : Prop := ∀ f, x = .error f → f.wild = false

/-- A call through the portal reaches the service it was created for, or fails. -/
def SendDenotes (s : Sys) (r : Nat) : Prop :=
  Safe (directSendPortal s r) ∧
    ∀ k, directSendPortal s r = .ok (.shortCircuit k) ∨ directSendPortal s r = .ok (.queued k) →
      k = s.origin r

/-- In the home domain the portal becomes the object of the service it was created for; elsewhere
its copy names the same place, and no other service is touched. -/
def CopyDenotes (s : Sys) (r dst quota : Nat) : Prop :=
  Safe (copyPortal s r dst quota) ∧
    ∀ c q t, copyPortal s r dst quota = .ok (c, q, t) →
      (∀ k, c = .object k → k = s.origin r) ∧
      (∀ o, c = .proxy o → t.proxy o = { s.proxy r with heap := dst }) ∧
      ∀ k, k ≠ s.origin r → t.dep k = s.dep k

/-- Whatever uses a portal uses it for the service it was created for. -/
def Denotes (cls : Classes) (s : Sys) : Event → Prop
  | .send r => SendDenotes s r
  | .copy r dst quota => CopyDenotes s r dst quota
  | e => Safe (exec cls s e)

/-- A domain whose id the portal carries has not been terminated. -/
def Reachable (s : Sys) (r : Nat) : Prop :=
  ∀ d, (s.proxy r).targetDomain = some d → (s.domain d).id = (s.proxy r).targetDomainID →
    (s.domain d).state = .active

/-- A portal in the domain it points to is used while its service is in the table; a portal is
copied or finalised while the domain it points to lives, or after its control block got a new id; and
ids do not wrap around. -/
def Current (s : Sys) : Event → Prop
  | .send r => (s.proxy r).targetDomain = some (s.proxy r).heap →
      (∃ k, (s.domain (s.proxy r).heap).services (s.proxy r).index = .dep k) ∧ KeptAtHome s r
  | .copy r _ _ => KeptAtHome s r ∧ Reachable s r
  | .collect r _ => Reachable s r
  | .terminateDomain d _ => ∀ r ∈ portalsOf s d, Reachable s r
  | .createDomain _ => s.currentDomainID + 1 < 2 ^ 32
  | _ => True

/-- A step of the system that meets the condition. -/
def CurrentStep (cls : Classes) (s t : Sys) : Prop :=
  ∃ e, Enabled s e ∧ Current s e ∧ exec cls s e = .ok t

/-- A step of the system. -/
def Step (cls : Classes) (s t : Sys) : Prop := ∃ e, Enabled s e ∧ exec cls s e = .ok t

section Safe

variable {α β : Type}

theorem Safe.pure (a : α) : Safe (pure a : Except Fault α) := nofun

theorem Safe.throw {f : Fault} (h : f.wild = false) : Safe (throw f : Except Fault α) :=
  fun _ heq => Except.error.inj heq ▸ h

theorem Safe.bind {x : Except Fault α} {g : α → Except Fault β} (hx : Safe x)
    (hg : ∀ a, x = .ok a → Safe (g a)) : Safe (x >>= g) := by
  cases x with
  | error f => exact fun f' heq => hx f' (congrArg Except.error (Except.error.inj heq))
  | ok a => exact hg a rfl

end Safe

section Uses

variable {cls : Classes} {s t : Sys} {r : Nat}

theorem deref_safe {k : Nat} (h : s.freed k = false) : s.deref (.dep k) = .ok k :=
  deref_eq_ok.mpr ⟨rfl, h⟩

/-- A call through a portal fails, or goes to the service of the portal. -/
theorem directSendPortal_eq (h : Wired s) (hr : r ∈ s.existing)
    (htarget : (s.proxy r).targetDomain ≠ none) (hcur : Current s (.send r)) :
    directSendPortal s r = .ok .exception ∨
      directSendPortal s r = .ok (.shortCircuit (s.origin r)) ∨
      directSendPortal s r = .ok (.queued (s.origin r)) := by
  obtain ⟨d, hd⟩ := Option.ne_none_iff_exists'.mp htarget
  unfold directSendPortal
  simp only [hd]
  by_cases hheap : d = (s.proxy r).heap
  · rw [if_pos hheap]
    subst hheap
    obtain ⟨⟨k, hk⟩, hkept⟩ := hcur hd
    have hfreed := ((h.entry _ _ _ hk).2.2.2).mpr (h.heap r hr)
    rw [hk, deref_safe hfreed]
    by_cases hid : (s.proxy r).targetDomainID = (s.domain (s.proxy r).heap).id
    · have hsame := Entry.dep.inj (hk.symm.trans (hkept hd hid))
      exact .inr (.inl (by simp [hid, hsame, bind, Except.bind, pure, Except.pure]))
    · exact .inl (by simp [hid, bind, Except.bind, pure, Except.pure])
  · rw [if_neg hheap]
    by_cases hid : (s.proxy r).targetDomainID = (s.domain d).id
    · by_cases hstate : (s.domain d).state = .active
      · have hkept : KeptAtHome s r := fun hself =>
          absurd (Option.some.inj (hd.symm.trans hself)) hheap
        obtain ⟨hentry, hfreed⟩ := services_origin h hr hkept hd hid.symm hstate
        rw [hentry, deref_safe hfreed]
        exact .inr (.inr (by simp [hid, hstate, bind, Except.bind, pure, Except.pure]))
      · exact .inl (by simp [hid, hstate, pure, Except.pure])
    · exact .inl (by simp [hid, pure, Except.pure])

theorem denotes_send (h : Wired s) (hr : r ∈ s.existing)
    (htarget : (s.proxy r).targetDomain ≠ none) (hcur : Current s (.send r)) :
    SendDenotes s r := by
  unfold SendDenotes
  obtain heq | heq | heq := directSendPortal_eq h hr htarget hcur
  · rw [heq]
    exact ⟨Safe.pure _, fun k hk => by simp at hk⟩
  · rw [heq]
    exact ⟨Safe.pure _, fun k hk => by simpa [eq_comm] using hk⟩
  · rw [heq]
    exact ⟨Safe.pure _, fun k hk => by simpa [eq_comm] using hk⟩

/-- Allocating a portal for a service uses the entry of this service, or none. -/
theorem allocProxyInDomain_safe {domain targetDomainID depIndex origin : Nat}
    {targetDomain : Option Nat} (hentry : ∀ d, targetDomain = some d →
      (s.domain d).id = targetDomainID → (s.domain d).services depIndex = .dep origin ∧
        s.freed origin = false) :
    Safe (allocProxyInDomain s domain targetDomain targetDomainID depIndex origin) := by
  unfold allocProxyInDomain
  split
  · exact Safe.throw rfl
  · cases targetDomain with
    | none => exact Safe.pure _
    | some d =>
      simp only
      split
      · rename_i hid
        obtain ⟨hdep, hfreed⟩ := hentry d rfl hid
        refine Safe.bind ?_ fun _ _ => Safe.pure _
        refine Safe.bind ?_ fun _ _ => Safe.pure _
        have hok : (s.addProxy ⟨domain, some d, targetDomainID, depIndex⟩ origin).deref
            ((s.domain d).services depIndex) = .ok origin := by
          rw [hdep]
          exact deref_safe hfreed
        intro f hf
        exact absurd (hok.symm.trans hf) nofun
      · exact Safe.pure _

theorem denotes_copy {dst quota : Nat} (h : Wired s) (hr : r ∈ s.existing)
    (hdst : (s.domain dst).state = .active) (hkept : KeptAtHome s r) (hreach : Reachable s r) :
    CopyDenotes s r dst quota := by
  -- in the home domain the entry is that of the service
  have hobject : arrivesHome s r dst → (s.domain dst).services (s.proxy r).index =
      .dep (s.origin r) ∧ s.freed (s.origin r) = false := by
    intro hhome
    simp only [arrivesHome, decide_eq_true_eq] at hhome
    obtain ⟨hfreed, hdom⟩ := current_of_active h hr hhome.1.symm hdst
    have hprom : s.Promoted (s.origin r) := by
      intro hnone
      have hzero := h.zero r hr fun hp => hp hnone
      have htarget := h.target r hr
      rw [hnone, Option.map_none] at htarget
      exact hhome.2 ⟨hzero.1, htarget, hzero.2⟩
    obtain ⟨o, ho⟩ := Option.ne_none_iff_exists'.mp hprom
    have htarget := h.target r hr
    rw [ho, Option.map_some, ← hdom] at htarget
    exact services_origin h hr hkept htarget hhome.1.symm hdst
  have halloc : ∀ d, (s.proxy r).targetDomain = some d →
      (s.domain d).id = (s.proxy r).targetDomainID →
      (s.domain d).services (s.proxy r).index = .dep (s.origin r) ∧
        s.freed (s.origin r) = false :=
    fun d hd hid => services_origin h hr hkept hd hid (hreach d hd hid)
  refine ⟨?_, fun c q t ht => ?_⟩
  · unfold copyPortal
    simp only
    split
    · rename_i hhome
      obtain ⟨hentry, hfreed⟩ := hobject hhome
      rw [hentry, deref_safe hfreed]
      exact Safe.pure _
    · split
      · exact Safe.throw rfl
      · exact Safe.bind (allocProxyInDomain_safe halloc) fun _ _ => Safe.pure _
  · obtain ⟨hhome, rfl, k, rfl, hk, -⟩ | ⟨-, o, rfl, ho⟩ := copyPortal_ok ht
    · obtain ⟨hentry, -⟩ := hobject hhome
      refine ⟨fun j hj => Copied.object.inj hj ▸ Entry.dep.inj (hk.symm.trans hentry), ?_,
        fun _ _ => rfl⟩
      intro o ho
      cases ho
    · obtain ⟨-, rfl, ⟨rfl, -⟩ | ⟨d, k, hd, hid, hk, -, rfl⟩⟩ := allocProxyInDomain_ok ho
      · refine ⟨fun j hj => Copied.noConfusion hj, fun o ho => ?_, fun _ _ => rfl⟩
        simp [← Copied.proxy.inj ho, Sys.addProxy]
      · have hsame := Entry.dep.inj (hk.symm.trans (halloc d hd hid).1)
        refine ⟨fun j hj => Copied.noConfusion hj, fun o ho => ?_, fun j hj => ?_⟩
        · simp [← Copied.proxy.inj ho, Sys.addProxy, Sys.setRefcount, Sys.setDep]
        · rw [setRefcount_dep, if_neg (hsame ▸ hj)]
          rfl

/-- The deletion of a service may stop at its receiver only. -/
theorem deleteService_safe (s : Sys) (d i k : Nat) : Safe (deleteService s d i k) := by
  refine Safe.bind ?_ fun _ _ => Safe.pure _
  unfold terminateThread
  split
  · exact Safe.throw rfl
  · exact Safe.pure _

/-- A portal is finalised without a look at a service that is not its own. -/
theorem finalizePortal_safe {found : Nat → Bool} (h : Wired s) (hr : r ∈ s.existing)
    (hreach : Reachable s r) : Safe (finalizePortal s r found) := by
  refine Safe.bind ?_ fun _ _ => Safe.pure _
  unfold finalizePortalsCB
  cases hd : (s.proxy r).targetDomain with
  | none =>
    simp only [hd]
    exact Safe.pure _
  | some d =>
    simp only [hd]
    split
    · rename_i hcond
      have hkept : KeptAtHome s r := fun hself =>
        absurd (Option.some.inj (hd.symm.trans hself)) hcond.2
      obtain ⟨hentry, hfreed⟩ := services_origin h hr hkept hd hcond.1 (hreach d hd hcond.1)
      unfold serviceDecRefcount
      rw [hentry, deref_safe hfreed]
      refine Safe.bind (Safe.pure _) fun k _ => Safe.bind ?_ fun _ _ => Safe.pure _
      split
      · exact deleteService_safe _ _ _ _
      · exact Safe.pure _
    · exact Safe.pure _

theorem finalizeAll_safe {found : Nat → Bool} {l : List Nat} (h : Books s) (hl : l.Nodup)
    (hsub : ∀ r ∈ l, r ∈ s.existing) (hreach : ∀ r ∈ l, Reachable s r) :
    Safe (l.foldlM (fun s r => finalizePortal s r found) s) := by
  induction l generalizing s with
  | nil => exact Safe.pure _
  | cons r l ih =>
    rw [List.foldlM_cons]
    obtain ⟨hr, hl⟩ := List.nodup_cons.mp hl
    have hmem := hsub r List.mem_cons_self
    refine Safe.bind (finalizePortal_safe h.toWired hmem (hreach r List.mem_cons_self))
      fun u hu => ?_
    obtain ⟨hexisting, hproxy, hdomain⟩ := finalizePortal_frame hu
    refine ih (h.finalizePortal hmem hu) hl (fun q hq => ?_) fun q hq => ?_
    · rw [hexisting, h.nodup.mem_erase_iff]
      exact ⟨fun heq => hr (heq ▸ hq), hsub q (List.mem_cons_of_mem r hq)⟩
    · intro d
      rw [hproxy, (hdomain d).1, (hdomain d).2]
      exact hreach q (List.mem_cons_of_mem r hq) d

theorem createService_safe (s : Sys) (d obj ifclass : Nat) :
    Safe (createService s d obj ifclass) := by
  unfold createService
  split
  · exact Safe.throw rfl
  · exact Safe.pure _

theorem findPortalInterface_safe (cls : Classes) :
    ∀ (l : List Nat) (found : Option Nat), Safe (findPortalInterface cls l found)
  | [], _ => Safe.pure _
  | i :: l, found => by
    unfold findPortalInterface
    split
    · split
      · exact findPortalInterface_safe cls l _
      · split
        · split
          · exact findPortalInterface_safe cls l _
          · split
            · exact findPortalInterface_safe cls l _
            · exact Safe.throw rfl
        · exact findPortalInterface_safe cls l _
    · exact findPortalInterface_safe cls l _

/-- The prototype counts for the service just created. -/
theorem portalAutoPromo_safe (h : Wired s) (d obj : Nat) : Safe (portalAutoPromo cls s d obj) := by
  unfold portalAutoPromo
  split
  · exact Safe.throw rfl
  · split
    · exact Safe.pure _
    · refine Safe.bind (findPortalInterface_safe cls _ _) fun i _ => ?_
      cases i with
      | none => exact Safe.throw rfl
      | some ifclass =>
        refine Safe.bind (createService_safe s d obj ifclass) fun ⟨k, u⟩ hu => ?_
        obtain ⟨rfl, index, -, -, rfl⟩ := createService_ok hu
        refine Safe.bind (allocProxyInDomain_safe fun e he _ => ?_) fun _ _ => Safe.pure _
        rw [← Option.some.inj he, addDep_dep, if_pos rfl, addDep_services, if_pos ⟨rfl, rfl⟩]
        exact ⟨rfl, h.unborn _ (Nat.le_refl _)⟩

theorem initZeroDep_safe (s : Sys) (cd : Nat) : Safe (initZeroDepWithoutThread s cd) :=
  Safe.bind (createService_safe s _ _ cd) fun _ _ => allocProxyInDomain_safe nofun

theorem terminateDomain_safe {found : Nat → Bool} {d : Nat} (h : Books s)
    (hactive : (s.domain d).state = .active) (hreach : ∀ r ∈ portalsOf s d, Reachable s r) :
    Safe (terminateDomain s d found) := by
  unfold terminateDomain
  simp only [deactivate_reserved (h.reserved d hactive), Function.update_eq_self]
  refine Safe.bind (finalizeAll_safe h (h.nodup.filter _)
    (fun r hr => (List.mem_filter.mp hr).1) hreach) fun _ _ => Safe.pure _

/-- What every single use of a portal rests on. -/
theorem Books.denotes {e : Event} (h : Books s) (hen : Enabled s e) (hcur : Current s e) :
    Denotes cls s e := by
  cases e with
  | autoPromo d obj => exact Safe.bind (portalAutoPromo_safe h.toWired d obj) fun _ _ => Safe.pure _
  | direct cd => exact Safe.bind (initZeroDep_safe s cd) fun _ _ => Safe.pure _
  | copy r dst quota => exact denotes_copy h.toWired hen.1 hen.2 hcur.1 hcur.2
  | collect r found => exact finalizePortal_safe h.toWired hen.1 hcur
  | send r => exact denotes_send h.toWired hen.1 hen.2 hcur
  | return_ c thrown => exact Safe.pure _
  | wait k => exact Safe.pure _
  | createDomain d => exact Safe.pure _
  | terminateDomain d found => exact terminateDomain_safe h hen.1 hcur

end Uses

section Histories

variable {cls : Classes} {s₀ s t : Sys} {e : Event}

theorem Current.regular (h : Current s e) : Regular s e := by
  cases e with
  | copy r dst quota => exact h.1
  | createDomain d => exact h
  | _ => trivial

theorem Books.of_currentRun (hboot : Booted s₀)
    (hrun : Relation.ReflTransGen (CurrentStep cls) s₀ s) : Books s :=
  invariant_of_run (fun _ _ hbooks ⟨_, hen, hcur, ht⟩ => hbooks.exec hen hcur.regular ht) hrun
    hboot.books

/-- In a history whose steps all meet the condition, every use of a portal is for the service the
portal was created for, and no marker of a service table is taken for a service. -/
theorem denotes_of_current (hboot : Booted s₀)
    (hrun : Relation.ReflTransGen (CurrentStep cls) s₀ s) (hen : Enabled s e)
    (hcur : Current s e) : Denotes cls s e :=
  (Books.of_currentRun hboot hrun).denotes hen hcur

set_option maxRecDepth 10000 in
theorem oneCopied_run : Relation.ReflTransGen (CurrentStep oneInterface) twoDomains oneCopied := by
  refine .tail (.single ⟨.autoPromo 0 7, rfl, trivial, rfl⟩)
    ⟨.copy 0 1 100, ⟨List.mem_cons_self, rfl⟩, ⟨fun _ _ => rfl, ?_⟩, rfl⟩
  intro d hd _
  cases hd
  rfl

set_option maxRecDepth 10000 in
theorem denotes_oneCopied :
    Enabled oneCopied (.send 1) ∧ directSendPortal oneCopied 1 = .ok (.queued 0) ∧
      Denotes oneInterface oneCopied (.send 1) := by
  have hen : Enabled oneCopied (.send 1) := ⟨List.mem_cons_self, nofun⟩
  exact ⟨hen, rfl, denotes_of_current twoDomains_booted oneCopied_run hen nofun⟩

/-- The receiver waits for a sender. The portal in the other domain dies, and with it the service; the
next service gets its place in the table. -/
def placeTaken : Sys :=
  ((oneCopied.after (.wait 0)).after (.collect 1 fun _ => false)).after (.autoPromo 0 8)

set_option maxRecDepth 10000 in
theorem placeTaken_run : Relation.ReflTransGen (Step oneInterface) twoDomains placeTaken := by
  have hcopied : Relation.ReflTransGen (Step oneInterface) twoDomains oneCopied :=
    .tail (.single ⟨.autoPromo 0 7, rfl, rfl⟩) ⟨.copy 0 1 100, ⟨List.mem_cons_self, rfl⟩, rfl⟩
  refine .tail (.tail (.tail hcopied ⟨.wait 0, ⟨rfl, nofun⟩, rfl⟩)
    ⟨.collect 1 fun _ => false, ⟨List.mem_cons_self, nofun, ?_⟩, rfl⟩) ⟨.autoPromo 0 8, rfl, rfl⟩
  intro k hk
  have hzero : k = 0 := Nat.lt_one_iff.mp hk.1
  subst hzero
  nofun

set_option maxRecDepth 10000 in
/-- The prototype of the first service is still known to the naming service; a copy of it counts for
the second service and calls it. -/
theorem not_denotes_placeTaken :
    Booted twoDomains ∧ ∃ s, Relation.ReflTransGen (Step oneInterface) twoDomains s ∧
      Enabled s (.copy 0 1 100) ∧ ¬ Denotes oneInterface s (.copy 0 1 100) := by
  refine ⟨twoDomains_booted, placeTaken, placeTaken_run, ⟨by decide, rfl⟩, fun h => ?_⟩
  have hdep := (h.2 (.proxy 3) 94 (placeTaken.after (.copy 0 1 100)) rfl).2.2 1 nofun
  exact absurd (congrArg DEPDesc.refcount hdep) nofun

end Histories

end JxCore.Service
