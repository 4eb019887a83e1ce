import JxCore.Core.ServiceInvariant

/-!
# Reference counts of services

The count of a service is meant to be one more than the number of its portals in other domains, and
the service to go with the last of them. This is so in every run in which the question for a
`serviceFinalizer` is answered by yes exactly at the last portal: the source asks it whenever a portal
dies, and asks in the domain that is collected instead of the domain of the service. And it gives back
the thread of the service without a look at it, although that must not be runnable: a service whose
receiver has not come to wait for a sender yet stops the machine when its last portal dies.
-/

namespace JxCore.Service

/-- A portal in another domain whose fields name the place of the service. -/
def Sys.validFor (s : Sys) (k r : Nat) : Bool :=
  (s.proxy r).targetDomain = some (s.dep k).domain ∧
    (s.proxy r).targetDomainID = (s.domain (s.dep k).domain).id ∧
    (s.proxy r).index = (s.dep k).serviceIndex ∧ (s.proxy r).heap ≠ (s.dep k).domain

/-- What the reference counts are for; `finalizer` says whether the class of a service object has a
method `serviceFinalizer`. -/
structure Accounted (finalizer : Nat → Bool) (s : Sys) : Prop where
  refcount : ∀ k, s.Live k → (s.dep k).refcount = 1 + s.existing.countP (s.validFor k)
  /-- A service is deleted when its last portal in another domain has died, not before. -/
  deleted : ∀ k < s.deps, k ∈ s.terminated ↔ k ∈ s.shared ∧ s.issued k = 0
  slot : ∀ k < s.deps, k ∈ s.terminated ↔ ¬ s.Live k
  once : s.terminated.Nodup
  idle : ∀ c ∈ s.calls, c.2 ∉ s.terminated
  notified : ∀ k, s.notified.count k =
    if k ∈ s.terminated ∧ finalizer (s.dep k).obj then 1 else 0

/-- The events of services and portals, without those of domains. -/
def Event.ofServices : Event → Prop
  | .createDomain _ => False
  | .terminateDomain _ _ => False
  | _ => True

/-- Services are created with their prototype; a prototype is copied while its service is in the
table; and when a portal in another domain dies, a `serviceFinalizer` is found exactly if the service
has one and the portal was the last, and then the receiver waits. -/
def Counted (finalizer : Nat → Bool) (s : Sys) : Event → Prop
  | .direct _ => False
  | .copy r _ _ => KeptAtHome s r
  | .collect r found => (s.proxy r).targetDomain ≠ some (s.proxy r).heap →
      found (s.dep (s.origin r)).obj = (finalizer (s.dep (s.origin r)).obj &&
        decide ((s.dep (s.origin r)).refcount = 2)) ∧
      ((s.dep (s.origin r)).refcount = 2 → s.runnable (s.origin r) = false)
  | _ => True

/-- The machine runs, or a finalisation has stopped it. -/
inductive Machine where
  | running (s : Sys)
  | halted (s : Sys)

/-- Services and portals, whether the machine runs or not. -/
def Machine.sys : Machine → Sys
  | running s => s
  | halted s => s

/-- A portal has died, and its finalisation has come to `terminateThread`. -/
def Sys.cutShort (s : Sys) (r : Nat) : Sys :=
  Sys.setRefcount { s with existing := s.existing.erase r } (s.origin r) 0

/-- A step of services and portals whose event meets a condition. -/
inductive StepIf (cls : Classes) (P : Sys → Event → Prop) : Machine → Machine → Prop
  | done {s t : Sys} {e : Event} (hof : e.ofServices) (hP : P s e) (hen : Enabled s e)
      (ht : exec cls s e = .ok t) : StepIf cls P (.running s) (.running t)
  | halt {s : Sys} {r : Nat} {found : Nat → Bool} {text : String} (hP : P s (.collect r found))
      (hen : Enabled s (.collect r found))
      (hstop : exec cls s (.collect r found) = .error (.stop (.assertion text))) :
      StepIf cls P (.running s) (.halted (s.cutShort r))

/-- A step of services and portals. -/
abbrev ServiceStep (cls : Classes) : Machine → Machine → Prop := StepIf cls fun _ _ => True

/-- A step that meets the condition. -/
abbrev CountedStep (cls : Classes) (finalizer : Nat → Bool) : Machine → Machine → Prop :=
  StepIf cls (Counted finalizer)

/-- What was recorded about deletions, notifications and calls. -/
structure Recorded (finalizer : Nat → Bool) (s : Sys) : Prop where
  unfreed : ∀ k, s.freed k = false
  promoted : ∀ k < s.deps, s.Promoted k
  terminated_lt : ∀ k ∈ s.terminated, k < s.deps
  shared_lt : ∀ k ∈ s.shared, k < s.deps
  sharing : ∀ r ∈ s.existing, (s.proxy r).heap ≠ (s.dep (s.origin r)).domain →
    s.origin r ∈ s.shared
  deleted : ∀ k < s.deps, k ∈ s.terminated ↔ k ∈ s.shared ∧ s.issued k = 0
  slot : ∀ k < s.deps, k ∈ s.terminated ↔ ¬ s.Live k
  once : s.terminated.Nodup
  calling : ∀ c ∈ s.calls, c.1 ∈ s.existing ∧ s.origin c.1 = c.2 ∧
    (s.proxy c.1).heap ≠ (s.dep c.2).domain
  notified : ∀ k, s.notified.count k =
    if k ∈ s.terminated ∧ finalizer (s.dep k).obj then 1 else 0

/-- The books and the records. -/
structure Ledger (finalizer : Nat → Bool) (s : Sys) : Prop extends Books s, Recorded finalizer s

section Ledger

variable {cls : Classes} {finalizer found : Nat → Bool} {s t : Sys} {r : Nat}

theorem Booted.ledger (h : Booted s) : Ledger finalizer s where
  toBooks := h.books
  unfreed := h.freed
  promoted := by simp [h.deps]
  terminated_lt := by simp [h.terminated]
  shared_lt := by simp [h.shared]
  sharing := by simp [h.existing]
  deleted := by simp [h.deps]
  slot := by simp [h.deps]
  once := by simp [h.terminated]
  calling := by simp [h.calls]
  notified := by simp [h.notified, h.terminated]

/-- The portals whose fields name a service in the table are the portals of this service. -/
theorem validFor_iff (h : Ledger finalizer s) {k : Nat} (hk : s.Live k) (hr : r ∈ s.existing) :
    s.validFor k r = s.issuedBy k r := by
  have hfreed := h.unfreed (s.origin r)
  have hprom := h.promoted _ (h.origin_lt r hr)
  obtain ⟨o, ho⟩ := Option.ne_none_iff_exists'.mp hprom
  have htarget := h.target r hr
  rw [ho, Option.map_some] at htarget
  have hindex := h.index r hr hprom
  have hid := h.current r hr hfreed
  simp only [Sys.validFor, Sys.issuedBy, decide_eq_decide]
  constructor
  · rintro ⟨hd, -, hi, hheap⟩
    refine ⟨?_, hheap⟩
    rw [htarget, Option.some.injEq] at hd
    have hlive := h.live r hr hfreed (hd ▸ hheap)
    have hsame := hlive.2
    rw [hd, ← hindex, hi, hk.2] at hsame
    exact (Entry.dep.inj hsame).symm
  · rintro ⟨rfl, hheap⟩
    exact ⟨htarget, hid, hindex, hheap⟩

theorem Ledger.accounted (h : Ledger finalizer s) : Accounted finalizer s where
  refcount k hk := by
    have hcount := h.count k hk (h.unfreed k) (h.promoted k hk.1)
    rw [hcount, Sys.issued]
    refine congrArg (1 + ·) (List.countP_congr fun r hr => ?_)
    rw [validFor_iff h hk hr]
  deleted := h.deleted
  slot := h.slot
  once := h.once
  idle c hc hterm := by
    obtain ⟨hmem, horigin, hheap⟩ := h.calling c hc
    have hzero := ((h.deleted _ (h.terminated_lt _ hterm)).mp hterm).2
    have hpos := issued_pos hmem (horigin ▸ hheap)
    rw [horigin, hzero] at hpos
    exact absurd hpos (Nat.lt_irrefl 0)
  notified := h.notified

/-- A call through a portal outside of the domain of its service. -/
theorem directSendPortal_queued {k : Nat} (h : Wired s) (hr : r ∈ s.existing)
    (hsend : directSendPortal s r = .ok (.queued k)) :
    s.origin r = k ∧ (s.proxy r).heap ≠ (s.dep k).domain := by
  unfold directSendPortal at hsend
  simp only at hsend
  split at hsend
  · exact absurd hsend throw_ne_ok
  · rename_i d hd
    split at hsend
    · obtain ⟨j, -, hsend⟩ := bind_eq_ok.mp hsend
      split at hsend <;> cases hsend
    · rename_i hheap
      split at hsend
      · cases hsend
      · rename_i hid
        split at hsend
        · cases hsend
        · split at hsend
          · cases hsend
          · obtain ⟨j, hj, hsend⟩ := bind_eq_ok.mp hsend
            obtain ⟨hentry, hfreed⟩ := deref_eq_ok.mp hj
            cases hsend
            have hkept : KeptAtHome s r := fun hself =>
              absurd (Option.some.inj (hd.symm.trans hself)) hheap
            obtain ⟨hsame, hhome, -⟩ := entry_origin h hr hkept hd (not_not.mp hid).symm hentry
              hfreed
            exact ⟨hsame.symm, fun heq => hheap (hhome.trans heq.symm)⟩

theorem Ledger.send (h : Ledger finalizer s) (hr : r ∈ s.existing) {k : Nat}
    (hsend : directSendPortal s r = .ok (.queued k)) :
    Ledger finalizer ({ s with calls := (r, k) :: s.calls }.setRunnable k true) := by
  obtain ⟨horigin, hheap⟩ := directSendPortal_queued h.toWired hr hsend
  refine { h with toBooks := h.toBooks.log _ _, calling := fun c hc => ?_ }
  rcases List.mem_cons.mp hc with rfl | hc
  · exact ⟨hr, horigin, hheap⟩
  · exact h.calling c hc

theorem Ledger.return (h : Ledger finalizer s) (c : Nat × Nat) (runnable : Nat → Bool) :
    Ledger finalizer { s with calls := s.calls.erase c, runnable } :=
  { h with
    toBooks := h.toBooks.log _ _
    calling := fun c hc => h.calling c (List.mem_of_mem_erase hc) }

theorem Ledger.receivers (h : Ledger finalizer s) (runnable : Nat → Bool) :
    Ledger finalizer { s with runnable } :=
  { h with toBooks := h.toBooks.log s.calls runnable }

/-- A service just created has no portal in another domain, and is not deleted. -/
theorem Recorded.addDep (hw : Wired s) (h : Recorded finalizer s) (dep : DEPDesc)
    (hfree : (s.domain dep.domain).services dep.serviceIndex = .free) (hproxy : dep.proxy ≠ none) :
    Recorded finalizer (s.addDep dep) := by
  have hold : ∀ k, k ≠ s.deps → (s.addDep dep).dep k = s.dep k := by
    intro k hk
    rw [addDep_dep, if_neg hk]
  have hcases : ∀ k < s.deps + 1, k < s.deps ∨ k = s.deps :=
    fun k hk => Nat.lt_or_eq_of_le (Nat.le_of_lt_succ hk)
  have hfresh : s.deps ∉ s.terminated := fun hmem =>
    absurd (h.terminated_lt _ hmem) (Nat.lt_irrefl _)
  exact {
    unfreed := h.unfreed
    promoted := fun k hk => by
      unfold Sys.Promoted
      rcases hcases k hk with hk | rfl
      · rw [hold k (Nat.ne_of_lt hk)]
        exact h.promoted k hk
      · rw [addDep_dep, if_pos rfl]
        exact hproxy
    terminated_lt := fun k hk => Nat.lt_succ_of_lt (h.terminated_lt k hk)
    shared_lt := fun k hk => Nat.lt_succ_of_lt (h.shared_lt k hk)
    sharing := fun q hq hne => by
      refine h.sharing q hq fun heq => hne ?_
      exact heq.trans (congrArg DEPDesc.domain (addDep_dep_old s dep (hw.origin_lt q hq))).symm
    deleted := fun k hk => by
      rcases hcases k hk with hk | rfl
      · rw [issued_addDep s dep hk]
        exact h.deleted k hk
      · refine ⟨fun hmem => absurd hmem hfresh, fun hmem => ?_⟩
        exact absurd (h.shared_lt _ hmem.1) (Nat.lt_irrefl _)
    slot := fun k hk => by
      rcases hcases k hk with hk | rfl
      · exact (h.slot k hk).trans (not_congr (addDep_live hfree hk).symm)
      · exact ⟨fun hmem => absurd hmem hfresh, fun hdead => absurd addDep_live_new hdead⟩
    once := h.once
    calling := fun c hc => by
      obtain ⟨hmem, horigin, hheap⟩ := h.calling c hc
      have hlt : c.2 < s.deps := horigin ▸ hw.origin_lt _ hmem
      refine ⟨hmem, horigin, fun heq => hheap (heq.trans ?_)⟩
      rw [addDep_dep_old s dep hlt]
    notified := fun k => by
      have hk := h.notified k
      by_cases hne : k = s.deps
      · rw [if_neg fun hc => hfresh (hne ▸ hc.1)] at hk
        rw [if_neg fun hc => hfresh (hne ▸ hc.1)]
        exact hk
      · rw [hold k hne]
        exact hk }

theorem Recorded.setRefcount (h : Recorded finalizer s) (k n : Nat) :
    Recorded finalizer (s.setRefcount k n) where
  unfreed := h.unfreed
  promoted j hj := (setRefcount_promoted _ _ _ _).mpr (h.promoted j hj)
  terminated_lt := h.terminated_lt
  shared_lt := h.shared_lt
  sharing q hq := by
    rw [setRefcount_dep_domain]
    exact h.sharing q hq
  deleted j hj := by
    rw [setRefcount_issued]
    exact h.deleted j hj
  slot j hj := by
    rw [setRefcount_live]
    exact h.slot j hj
  once := h.once
  calling c hc := by
    rw [setRefcount_dep_domain]
    exact h.calling c hc
  notified j := by
    rw [setRefcount_dep_obj]
    exact h.notified j

/-- A new portal shares a service that is in the table. -/
theorem Recorded.addProxy {p : Proxy} {k : Nat} (hw : Wired s) (h : Recorded finalizer s)
    (hk : k < s.deps) (hlive : s.Live k) : Recorded finalizer (s.addProxy p k) := by
  have hshared : ∀ j, j ∈ s.shared → j ∈ (s.addProxy p k).shared := by
    intro j hj
    simp only [Sys.addProxy]
    split
    · exact hj
    · exact List.mem_cons_of_mem k hj
  have hshared' : ∀ j, j ∈ (s.addProxy p k).shared → j = k ∨ j ∈ s.shared := by
    intro j hj
    simp only [Sys.addProxy] at hj
    split at hj
    · exact .inr hj
    · exact List.mem_cons.mp hj
  exact {
    unfreed := h.unfreed
    promoted := h.promoted
    terminated_lt := h.terminated_lt
    shared_lt := fun j hj => by
      rcases hshared' j hj with rfl | hj
      · exact hk
      · exact h.shared_lt j hj
    sharing := forall_addProxy hw (P := fun p j => p.heap ≠ (s.dep j).domain →
      j ∈ (s.addProxy _ k).shared)
      (fun hne => by
        simp only [Sys.addProxy, if_neg hne]
        exact List.mem_cons_self)
      fun q hq hne => hshared _ (h.sharing q hq hne)
    deleted := fun j hj => by
      refine (h.deleted j hj).trans ?_
      rw [issued_addProxy hw]
      by_cases hjk : k = j
      · subst hjk
        -- the service is in the table, so that it is not deleted
        have hnot := mt (h.deleted k hj).mpr fun hmem => (h.slot k hj).mp hmem hlive
        by_cases hheap : p.heap = (s.dep k).domain
        · simp [Sys.addProxy, hheap]
        · simp [hnot, hheap]
      · rw [if_neg fun hc => hjk hc.1]
        have hiff : j ∈ (s.addProxy p k).shared ↔ j ∈ s.shared :=
          ⟨fun hmem => (hshared' j hmem).resolve_left (Ne.symm hjk), hshared j⟩
        rw [hiff]
        rfl
    slot := h.slot
    once := h.once
    calling := fun c hc => by
      obtain ⟨hmem, horigin, hheap⟩ := h.calling c hc
      obtain ⟨hp, ho⟩ := addProxy_old (k := k) hw p hmem
      rw [hp, ho]
      exact ⟨List.mem_cons_of_mem _ hmem, horigin, hheap⟩
    notified := h.notified }

theorem Ledger.autoPromo {d obj : Nat} {o : Option Nat} (h : Ledger finalizer s)
    (hactive : (s.domain d).state = .active) (ht : portalAutoPromo cls s d obj = .ok (o, t)) :
    Ledger finalizer t := by
  have hbooks := h.toBooks.autoPromo hactive ht
  obtain rfl | ⟨ifclass, index, hfree, -, -, rfl⟩ := portalAutoPromo_ok ht
  · exact h
  · have hadd := h.toBooks.addDep ⟨d, obj, ifclass, some s.proxies, 1, index⟩ hfree hactive
      fun _ => rfl
    have hrec := h.toRecorded.addDep h.toWired ⟨d, obj, ifclass, some s.proxies, 1, index⟩
      hfree nofun
    have hnew := hrec.addProxy (p := ⟨d, some d, (s.domain d).id, index⟩) hadd.toWired
      (Nat.lt_succ_self _) addDep_live_new
    exact { hbooks, hnew with }

theorem Ledger.copy {dst quota q : Nat} {c : Copied} (h : Ledger finalizer s)
    (hr : r ∈ s.existing) (hdst : (s.domain dst).state = .active) (hkept : KeptAtHome s r)
    (ht : copyPortal s r dst quota = .ok (c, q, t)) : Ledger finalizer t := by
  have hbooks := h.toBooks.copy hr hdst hkept ht
  obtain ⟨-, rfl, -⟩ | ⟨-, o, -, ho⟩ := copyPortal_ok ht
  · exact h
  · obtain ⟨-, -, hcase⟩ := allocProxyInDomain_ok ho
    obtain ⟨rfl, hnone⟩ | ⟨d, k, hd, hid, hentry, hk, rfl⟩ := hcase
    · -- every portal of a service that has a prototype is counted
      obtain ⟨o, ho⟩ := Option.ne_none_iff_exists'.mp (h.promoted _ (h.origin_lt r hr))
      have htarget := h.target r hr
      rw [ho, Option.map_some] at htarget
      exact absurd (h.current r hr (h.unfreed _)).symm (hnone _ htarget)
    · obtain ⟨rfl, -, -, hlive⟩ := entry_origin h.toWired hr hkept hd hid hentry hk
      have hrec := (h.toRecorded.addProxy (p := ⟨dst, (s.proxy r).targetDomain,
        (s.proxy r).targetDomainID, (s.proxy r).index⟩) h.toWired hlive.1 hlive).setRefcount
        (s.origin r) (u4 ((s.dep (s.origin r)).refcount + 1))
      exact { hbooks, hrec with }

/-- A portal dies that is not the last of its service. -/
theorem Recorded.erase (h : Recorded finalizer s) (hr : r ∈ s.existing)
    (hdead : ∀ c ∈ s.calls, c.1 ≠ r)
    (hmore : (s.proxy r).heap = (s.dep (s.origin r)).domain ∨ s.issued (s.origin r) ≠ 1) :
    Recorded finalizer { s with existing := s.existing.erase r } where
  unfreed := h.unfreed
  promoted := h.promoted
  terminated_lt := h.terminated_lt
  shared_lt := h.shared_lt
  sharing q hq := h.sharing q (List.mem_of_mem_erase hq)
  deleted k hk := by
    refine (h.deleted k hk).trans ?_
    rw [issued_erase hr]
    cases hby : s.issuedBy k r with
    | false => rfl
    | true =>
      simp only [Sys.issuedBy, decide_eq_true_eq] at hby
      obtain ⟨rfl, hne⟩ := hby
      have hpos := issued_pos hr hne
      have hone := hmore.resolve_left hne
      simp only [if_true]
      constructor <;> rintro ⟨-, hzero⟩ <;> omega
  slot := h.slot
  once := h.once
  calling c hc := by
    obtain ⟨hmem, hrest⟩ := h.calling c hc
    exact ⟨(List.mem_erase_of_ne (hdead c hc)).mpr hmem, hrest⟩
  notified := h.notified

/-- The last portal dies, and with it the service. -/
theorem Recorded.delete (hw : Wired s) (h : Recorded finalizer s) (hr : r ∈ s.existing)
    (hdead : ∀ c ∈ s.calls, c.1 ≠ r)
    (hne : (s.proxy r).heap ≠ (s.dep (s.origin r)).domain) (hlive : s.Live (s.origin r))
    (hone : s.issued (s.origin r) = 1) :
    Recorded finalizer { s.deleted (s.dep (s.origin r)).domain
      (s.dep (s.origin r)).serviceIndex (s.origin r) with
        existing := s.existing.erase r
        notified := if finalizer (s.dep (s.origin r)).obj then s.origin r :: s.notified
          else s.notified } := by
  have hfresh : s.origin r ∉ s.terminated := fun hmem => (h.slot _ hlive.1).mp hmem hlive
  have hmem : ∀ k, k ≠ s.origin r → (k ∈ s.origin r :: s.terminated ↔ k ∈ s.terminated) :=
    fun k hk => List.mem_cons.trans (or_iff_right hk)
  have hissued : ∀ k, ((Sys.setRefcount { s with existing := s.existing.erase r }
      (s.origin r) 0)).issued k = s.issued k - if s.issuedBy k r then 1 else 0 :=
    fun k => (setRefcount_issued _ _ _ _).trans (issued_erase hr k)
  have htable : ∀ k, ((s.setRefcount (s.origin r) 0).setEntry (s.dep (s.origin r)).domain
      (s.dep (s.origin r)).serviceIndex .free).Live k ↔ s.Live k ∧ k ≠ s.origin r := by
    intro k
    rw [setFree_live (hw.setRefcount (s.origin r) 0) hlive.2, setRefcount_live]
  exact {
    unfreed := h.unfreed
    promoted := fun k hk => (setRefcount_promoted s _ _ k).mpr (h.promoted k hk)
    terminated_lt := fun k hk => by
      rcases List.mem_cons.mp hk with rfl | hk
      · exact hlive.1
      · exact h.terminated_lt k hk
    shared_lt := h.shared_lt
    sharing := fun q hq hq' => by
      refine h.sharing q (List.mem_of_mem_erase hq) fun heq => hq' (heq.trans ?_)
      exact (setRefcount_dep_domain s _ _ _).symm
    deleted := fun k hk => by
      show k ∈ s.origin r :: s.terminated ↔ k ∈ s.shared ∧
        (Sys.setRefcount { s with existing := s.existing.erase r } (s.origin r) 0).issued k = 0
      rw [hissued]
      by_cases hkr : k = s.origin r
      · have hby : s.issuedBy k r = true := by
          subst hkr
          simpa [Sys.issuedBy] using hne
        rw [hby, hkr, hone]
        exact ⟨fun _ => ⟨h.sharing r hr hne, rfl⟩, fun _ => List.mem_cons_self⟩
      · have hby : s.issuedBy k r = false := by
          simp only [Sys.issuedBy, decide_eq_false_iff_not, not_and]
          exact fun heq => absurd heq.symm hkr
        rw [hby, hmem k hkr]
        exact h.deleted k hk
    slot := fun k hk => by
      show k ∈ s.origin r :: s.terminated ↔ ¬ ((s.setRefcount (s.origin r) 0).setEntry
        (s.dep (s.origin r)).domain (s.dep (s.origin r)).serviceIndex .free).Live k
      rw [htable]
      by_cases hkr : k = s.origin r
      · simp [hkr]
      · rw [hmem k hkr, h.slot k hk]
        simp [hkr]
    once := List.nodup_cons.mpr ⟨hfresh, h.once⟩
    calling := fun c hc => by
      obtain ⟨hc', horigin, hheap⟩ := h.calling c hc
      refine ⟨(List.mem_erase_of_ne (hdead c hc)).mpr hc', horigin, fun heq => hheap ?_⟩
      exact heq.trans (setRefcount_dep_domain s _ _ _)
    notified := fun k => by
      show List.count k (if finalizer (s.dep (s.origin r)).obj then s.origin r :: s.notified
        else s.notified) = if k ∈ s.origin r :: s.terminated ∧
          finalizer ((s.setRefcount (s.origin r) 0).dep k).obj then 1 else 0
      rw [setRefcount_dep_obj]
      by_cases hkr : k = s.origin r
      · have hzero := h.notified k
        rw [hkr, if_neg fun hc => hfresh hc.1] at hzero
        subst hkr
        split <;> simp_all
      · simp only [hmem k hkr]
        rw [← h.notified k]
        split
        · exact List.count_cons_of_ne (Ne.symm hkr)
        · rfl }

theorem Ledger.collect (h : Ledger finalizer s) (hr : r ∈ s.existing) (hdead : Dead s r)
    (hcount : Counted finalizer s (.collect r found))
    (ht : finalizePortal s r found = .ok t) : Ledger finalizer t := by
  have hbooks := h.toBooks.finalizePortal hr ht
  obtain ⟨rfl, hcase⟩ | ⟨hfreed, hprom, hne, hlive, u, hu, rfl⟩ :=
    finalizePortal_cases h.toBooks hr ht
  · have hhome : (s.proxy r).heap = (s.dep (s.origin r)).domain := by
      rcases hcase with hcase | hcase | hcase
      · exact absurd (hcase.symm.trans (h.unfreed _)) nofun
      · exact absurd (h.promoted _ (h.origin_lt r hr)) hcase
      · exact hcase
    exact { hbooks, h.toRecorded.erase hr hdead.1 (.inl hhome) with }
  · obtain ⟨k, hentry, -, -, rfl⟩ := serviceDecRefcount_ok hu
    have hk : k = s.origin r := Entry.dep.inj (hentry.symm.trans hlive.2)
    subst hk
    have hpos := issued_pos hr hne
    have hn := u4_refcount h.toBooks hlive hfreed hprom hpos
    have hrefcount := h.count _ hlive hfreed hprom
    obtain ⟨o, ho⟩ := Option.ne_none_iff_exists'.mp hprom
    have htarget := h.target r hr
    rw [ho, Option.map_some] at htarget
    have hfound := (hcount fun hself => hne (Option.some.inj (hself.symm.trans htarget))).1
    rw [hn, hfound] at hbooks ⊢
    by_cases hone : s.issued (s.origin r) = 1
    · have hlast : decide ((s.dep (s.origin r)).refcount = 2) = true := by
        rw [hrefcount, hone]
        rfl
      rw [if_pos hone, hlast, Bool.and_true] at hbooks ⊢
      exact { hbooks, h.toRecorded.delete h.toWired hr hdead.1 hne hlive hone with }
    · have hlast : decide ((s.dep (s.origin r)).refcount = 2) = false := by
        rw [decide_eq_false_iff_not]
        omega
      rw [if_neg hone, hlast, Bool.and_false] at hbooks ⊢
      exact { hbooks, (h.toRecorded.erase hr hdead.1 (.inr hone)).setRefcount (s.origin r)
        (s.issued (s.origin r)) with }

theorem serviceDecRefcount_returns (found : Nat → Bool) {k domain index : Nat}
    (hentry : (s.domain domain).services index = .dep k) (hfreed : s.freed k = false)
    (hrun : u4 (2 ^ 32 - 1 + (s.dep k).refcount) = 1 → s.runnable k = false) :
    ∃ t, serviceDecRefcount s domain index found = .ok t := by
  have hk : s.deref ((s.domain domain).services index) = .ok k := deref_eq_ok.mpr ⟨hentry, hfreed⟩
  let v := s.setRefcount k (u4 (2 ^ 32 - 1 + (s.dep k).refcount))
  have hv : (v.dep k).refcount = u4 (2 ^ 32 - 1 + (s.dep k).refcount) := by
    rw [setRefcount_dep_refcount, if_pos rfl]
  have hdelete : ∃ u, (if (v.dep k).refcount = 1 then deleteService v domain index k
      else pure v : Except Fault Sys) = .ok u := by
    rw [hv]
    split
    · next hone => exact ⟨_, deleteService_ok.mpr ⟨hrun hone, rfl⟩⟩
    · exact ⟨v, rfl⟩
  obtain ⟨u, hu⟩ := hdelete
  exact ⟨_, bind_eq_ok.mpr ⟨k, hk, bind_eq_ok.mpr ⟨u, hu, rfl⟩⟩⟩

/-- A finalisation comes back unless it is of the last portal and the receiver is runnable. -/
theorem Ledger.finalizes_iff (h : Ledger finalizer s) (hr : r ∈ s.existing) :
    (∃ t, finalizePortal s r found = .ok t) ↔
      ((s.proxy r).heap ≠ (s.dep (s.origin r)).domain → (s.dep (s.origin r)).refcount = 2 →
        s.runnable (s.origin r) = false) := by
  have hfreed := h.unfreed (s.origin r)
  have hprom := h.promoted _ (h.origin_lt r hr)
  obtain ⟨o, ho⟩ := Option.ne_none_iff_exists'.mp hprom
  have htarget := h.target r hr
  rw [ho, Option.map_some] at htarget
  have hlast : (s.proxy r).heap ≠ (s.dep (s.origin r)).domain →
      (u4 (2 ^ 32 - 1 + (s.dep (s.origin r)).refcount) = 1 ↔
        (s.dep (s.origin r)).refcount = 2) := by
    intro hne
    have hlive := h.live r hr hfreed hne
    rw [u4_refcount h.toBooks hlive hfreed hprom (issued_pos hr hne),
      h.count _ hlive hfreed hprom]
    omega
  constructor
  · rintro ⟨t, ht⟩ hne htwo
    obtain ⟨-, hcase⟩ | ⟨-, -, -, hlive, u, hu, -⟩ := finalizePortal_cases h.toBooks hr ht
    · rcases hcase with hcase | hcase | hcase
      · exact absurd (hcase.symm.trans hfreed) nofun
      · exact absurd hprom hcase
      · exact absurd hcase hne
    · obtain ⟨k, hentry, -, hrun, -⟩ := serviceDecRefcount_ok hu
      obtain rfl : k = s.origin r := Entry.dep.inj (hentry.symm.trans hlive.2)
      exact hrun ((hlast hne).mpr htwo)
  · intro hrun
    unfold finalizePortal finalizePortalsCB
    simp only [htarget, h.index r hr hprom]
    split
    · next hcond =>
      have hne : (s.proxy r).heap ≠ (s.dep (s.origin r)).domain := Ne.symm hcond.2
      obtain ⟨t, ht⟩ := serviceDecRefcount_returns found
        (h.live r hr hfreed hne).2 hfreed fun hone => hrun hne ((hlast hne).mp hone)
      rw [ht]
      exact ⟨_, rfl⟩
    · exact ⟨_, rfl⟩

theorem Ledger.exec {e : Event} (h : Ledger finalizer s) (hof : e.ofServices)
    (hcount : Counted finalizer s e) (hen : Enabled s e) (ht : exec cls s e = .ok t) :
    Ledger finalizer t := by
  cases e with
  | autoPromo d obj =>
    obtain ⟨⟨o, u⟩, hu, ht⟩ := bind_eq_ok.mp ht
    exact pure_eq_ok.mp ht ▸ h.autoPromo hen hu
  | direct cd => exact hcount.elim
  | copy r dst quota =>
    obtain ⟨⟨c, q, u⟩, hu, ht⟩ := bind_eq_ok.mp ht
    exact pure_eq_ok.mp ht ▸ h.copy hen.1 hen.2 hcount hu
  | collect r found => exact h.collect hen.1 hen.2 hcount ht
  | send r =>
    obtain ⟨sent, hsent, ht⟩ := bind_eq_ok.mp ht
    cases sent with
    | queued k => exact pure_eq_ok.mp ht ▸ h.send hen.1 hsent
    | exception => exact pure_eq_ok.mp ht ▸ h
    | shortCircuit k => exact pure_eq_ok.mp ht ▸ h
  | return_ c thrown => exact pure_eq_ok.mp ht ▸ h.return c _
  | wait k => exact pure_eq_ok.mp ht ▸ h.receivers _
  | createDomain d => exact hof.elim
  | terminateDomain d found => exact hof.elim

/-- A finalisation that meets the condition does not stop the machine. -/
theorem Ledger.finalizes (h : Ledger finalizer s) (hr : r ∈ s.existing)
    (hcount : Counted finalizer s (.collect r found)) : ∃ t, finalizePortal s r found = .ok t := by
  refine (h.finalizes_iff hr).mpr fun hne => (hcount fun hself => hne ?_).2
  have hprom := h.promoted _ (h.origin_lt r hr)
  obtain ⟨o, ho⟩ := Option.ne_none_iff_exists'.mp hprom
  have htarget := h.target r hr
  rw [ho, Option.map_some] at htarget
  exact Option.some.inj (hself.symm.trans htarget)

/-- The machine runs, and the books and the records are right. -/
def Machine.Kept (finalizer : Nat → Bool) : Machine → Prop
  | running s => Ledger finalizer s
  | halted _ => False

theorem Machine.Kept.step {m n : Machine} (hkept : m.Kept finalizer)
    (hstep : CountedStep cls finalizer m n) : n.Kept finalizer := by
  cases hstep with
  | done hof hcount hen ht => exact Ledger.exec hkept hof hcount hen ht
  | halt hcount hen hstop =>
    obtain ⟨t, ht⟩ := Ledger.finalizes hkept hen.1 hcount
    exact absurd (hstop.symm.trans ht) nofun

/-- In a run whose steps all meet the condition, the counts are right in every state, and services
go, once, with the last portal. -/
theorem accounted_of_countedRun {m : Machine} (hboot : Booted s)
    (hrun : Relation.ReflTransGen (CountedStep cls finalizer) (.running s) m) :
    Accounted finalizer m.sys := by
  have hkept : m.Kept finalizer :=
    invariant_of_run (fun _ _ hinv hstep => hinv.step hstep) hrun hboot.ledger
  cases m with
  | running t => exact Ledger.accounted hkept
  | halted t => exact hkept.elim

end Ledger

/-! ## Two portals of one service -/

section TwoPortals

/-- A second portal in the other domain. -/
def twoCopied : Sys := oneCopied.after (.copy 0 1 100)

/-- One portal dies in the other domain, which does not know the class of the service. -/
def oneLeft : Sys := twoCopied.after (.collect 1 fun _ => false)

/-- The receiver waits for a sender. -/
def waiting : Sys := oneLeft.after (.wait 0)

/-- The last portal dies when the domain has loaded the class. -/
def bothDead : Sys := waiting.after (.collect 2 fun _ => true)

/-- One of the two portals dies in a domain that knows the class of the service. -/
def oneDead : Sys := twoCopied.after (.collect 1 fun _ => true)

/-- The prototype is the only portal that a service in the table holds. -/
theorem dead_of_prototype {s : Sys} {r : Nat} (hcalls : s.calls = []) (hdeps : s.deps = 1)
    (hproxy : (s.dep 0).proxy = some 0) (hr : r ≠ 0) : Dead s r := by
  refine ⟨by simp [hcalls], fun k hk heq => ?_⟩
  have hzero : k = 0 := Nat.lt_one_iff.mp (hdeps ▸ hk.1)
  rw [hzero, hproxy] at heq
  exact hr (Option.some.inj heq).symm

section Steps

variable {P : Sys → Event → Prop}

set_option maxRecDepth 10000 in
theorem run_oneCopied (hpromo : P twoDomains (.autoPromo 0 7))
    (hcopy : P (twoDomains.after (.autoPromo 0 7)) (.copy 0 1 100)) :
    Relation.ReflTransGen (StepIf oneInterface P) (.running twoDomains) (.running oneCopied) := by
  have hstart : StepIf oneInterface P (.running twoDomains)
      (.running (twoDomains.after (.autoPromo 0 7))) :=
    .done (e := .autoPromo 0 7) trivial hpromo rfl rfl
  exact (Relation.ReflTransGen.single hstart).tail
    (.done (e := .copy 0 1 100) trivial hcopy ⟨List.mem_cons_self, rfl⟩ rfl)

set_option maxRecDepth 10000 in
theorem twoCopied_step (hcopy : P oneCopied (.copy 0 1 100)) :
    StepIf oneInterface P (.running oneCopied) (.running twoCopied) :=
  .done (e := .copy 0 1 100) trivial hcopy ⟨by decide, rfl⟩ rfl

end Steps

set_option maxRecDepth 10000 in
theorem oneLeft_step : CountedStep oneInterface (fun _ => true) (.running twoCopied)
    (.running oneLeft) :=
  .done (e := .collect 1 fun _ => false) trivial (fun _ => ⟨rfl, nofun⟩)
    ⟨by decide, dead_of_prototype rfl rfl rfl (by decide)⟩ rfl

set_option maxRecDepth 10000 in
theorem waiting_step : CountedStep oneInterface (fun _ => true) (.running oneLeft)
    (.running waiting) :=
  .done (e := .wait 0) trivial trivial ⟨rfl, nofun⟩ rfl

set_option maxRecDepth 10000 in
theorem bothDead_step : CountedStep oneInterface (fun _ => true) (.running waiting)
    (.running bothDead) :=
  .done (e := .collect 2 fun _ => true) trivial (fun _ => ⟨rfl, fun _ => rfl⟩)
    ⟨by decide, dead_of_prototype rfl rfl rfl (by decide)⟩ rfl

set_option maxRecDepth 10000 in
theorem accounted_bothDead : bothDead.terminated = [0] ∧ bothDead.notified = [0] ∧
    Accounted (fun _ => true) bothDead := by
  have hcopied : Relation.ReflTransGen (CountedStep oneInterface fun _ => true)
      (.running twoDomains) (.running twoCopied) :=
    (run_oneCopied trivial fun _ _ => rfl).tail (twoCopied_step fun _ _ => rfl)
  exact ⟨rfl, rfl, accounted_of_countedRun (m := .running bothDead) twoDomains_booted
    (((hcopied.tail oneLeft_step).tail waiting_step).tail bothDead_step)⟩

set_option maxRecDepth 10000 in
/-- The finalizer of a service is started that still has a portal in another domain; and a service
that has lost its last one is not deleted, for the machine stops. -/
theorem not_accounted_oneDead : Booted twoDomains ∧
    (Relation.ReflTransGen (ServiceStep oneInterface) (.running twoDomains) (.running oneDead) ∧
      oneDead.issued 0 = 1 ∧ oneDead.notified = [0] ∧ ¬ Accounted (fun _ => true) oneDead) ∧
    (Relation.ReflTransGen (ServiceStep oneInterface) (.running twoDomains)
        (.halted (oneCopied.cutShort 1)) ∧
      (oneCopied.cutShort 1).issued 0 = 0 ∧ (oneCopied.cutShort 1).terminated = [] ∧
      ¬ Accounted (fun _ => false) (oneCopied.cutShort 1)) := by
  have hcopied : Relation.ReflTransGen (ServiceStep oneInterface) (.running twoDomains)
      (.running oneCopied) := run_oneCopied trivial trivial
  refine ⟨twoDomains_booted, ⟨?_, rfl, rfl, fun h => absurd (h.notified 0) (by decide)⟩,
    ?_, rfl, rfl, fun h => ?_⟩
  · exact (hcopied.tail (twoCopied_step trivial)).tail
      (.done (e := .collect 1 fun _ => true) trivial trivial
        ⟨by decide, dead_of_prototype rfl rfl rfl (by decide)⟩ rfl)
  · have hdead : Enabled oneCopied (.collect 1 fun _ => false) :=
      ⟨List.mem_cons_self, dead_of_prototype rfl rfl rfl (by decide)⟩
    exact hcopied.tail (.halt trivial hdead rfl)
  · -- the last portal has died, and the service is still there
    exact absurd ((h.deleted 0 (by decide)).mpr ⟨by decide, rfl⟩) nofun

end TwoPortals

end JxCore.Service
