import JxCore.Core.Termination

/-!
# What the loops of `terminateDomain` leave behind

The loops are to detach a domain from all portal activity: its services are gone, its threads wait
nowhere, and nobody waits for it. They do so exactly when the domain offers no service, none of its
threads has been handed off to a receiver that has not taken it up, and none is the last in a queue of
senders.
-/

namespace JxCore.Termination

open Lib Exec Runq
open Portal (Return returnTypeException)
open Service (Entry maxServices deactivate)

/-- The queues of waiting senders, as lists; they are disjoint. -/
structure Queued (s : Sys) (queue : Nat → List Thread) : Prop where
  chain : ∀ k, Chain s.nextInDEPQueue (s.waiting k).first (queue k)
  nodup : ∀ k, (queue k).Nodup
  disjoint : ∀ j k, j ≠ k → ∀ t ∈ queue j, t ∉ queue k

/-- The service that a thread's pending call is for. -/
def CalledAt (s : Sys) (t : Thread) (k : Nat) : Prop :=
  ∃ e, s.blockedInDomain t = some e ∧ s.services e (s.blockedInServiceIndex t) = .dep k

/-- What portal calls keep true between their steps. -/
structure Consistent (s : Sys) (queue : Nat → List Thread) : Prop extends Queued s queue where
  last : ∀ k, (s.waiting k).last = (queue k).getLast?
  /-- A queued sender waits for the receiver, or has been handed off to it. -/
  queued : ∀ k, ∀ t ∈ queue k, CalledAt s t k ∧
    (s.state t = .portalWaitForRcv ∨ s.state t = .portalWaitForRet)
  waitForRcv : ∀ d, ∀ t ∈ s.threads d, s.blockedInDomain t ≠ none →
    s.state t = .portalWaitForRcv → ∃ k, CalledAt s t k ∧ t ∈ queue k
  waitForRet : ∀ d, ∀ t ∈ s.threads d, s.blockedInDomain t ≠ none →
    s.state t = .portalWaitForRet → ∃ k, CalledAt s t k
  threads : ∀ d t, t ∈ s.threads d → s.domain t = d
  members : ∀ k, ∀ t ∈ queue k, t ∈ s.threads (s.domain t)
  threads_nodup : ∀ d, (s.threads d).Nodup
  /-- A call inside of one domain is short-circuited. -/
  foreign : ∀ d, ∀ t ∈ s.threads d, ∀ source, s.mostRecentlyCalledBy t = .thread source →
    s.domain source ≠ d
  /-- `createDomain` reserves index 0. -/
  reserved : ∀ d, s.active d = true → s.services d 0 = .changing

/-- The thread is queued at a service of the domain, or served by it. -/
def AtServiceOf (s : Sys) (queue : Nat → List Thread) (d : Domain) (t : Thread) : Prop :=
  ∃ i < maxServices, ∃ k, s.services d i = .dep k ∧
    (t ∈ queue k ∨ s.mostRecentlyCalledBy (s.receiver k) = .thread t)

/-- The domain is detached from all portal activity. -/
structure Detached (s : Sys) (queue : Nat → List Thread) (d : Domain) (s' : Sys) : Prop where
  services : ∀ i < maxServices, ∀ k, s'.services d i ≠ .dep k
  queues : ∀ k, ∃ l, IsQueue s'.nextInDEPQueue (s'.waiting k) l ∧ ∀ t ∈ l, s'.domain t ≠ d
  callers : ∀ t, s.domain t ≠ d → AtServiceOf s queue d t →
    s'.state t = .runnable ∧
      s'.portalReturn t = ⟨returnTypeException, throwDomainTerminatedException⟩

/-- The domain offers no service; its threads that are in a call wait for a receiver or for the
return, those in a queue of senders for a receiver; none of them is the last in a queue; and none is
called by an interrupt. -/
structure Detachable (s : Sys) (queue : Nat → List Thread) (d : Domain) : Prop where
  services : ∀ i < maxServices, ∀ k, s.services d i ≠ .dep k
  calls : ∀ t ∈ s.threads d, s.blockedInDomain t ≠ none →
    s.state t = .portalWaitForRcv ∨ s.state t = .portalWaitForRet
  queued : ∀ k, ∀ t ∈ queue k, s.domain t = d → s.state t = .portalWaitForRcv
  last : ∀ k t, (s.waiting k).last = some t → s.domain t ≠ d
  irq : ∀ t ∈ s.threads d, s.mostRecentlyCalledBy t ≠ .irq

section Loops

variable {α : Type} {s s' : Sys} {queue : Nat → List Thread} {t : Thread} {k : Nat}

/-- The sender is taken out of its queue; the pointer to the last sender stays. -/
theorem Queued.erase (h : Queued s queue) (ht : t ∈ queue k) :
    ∃ next first, Returns (fun fuel => portalRemoveSender s fuel k t)
        (s.setQueue k next ⟨first, (s.waiting k).last⟩) ∧
      Queued (s.setQueue k next ⟨first, (s.waiting k).last⟩)
        (Function.update queue k ((queue k).erase t)) := by
  obtain ⟨next, first, hcall, hchain, hframe⟩ :=
    takeOut_spec [] (h.chain k) (h.nodup k) (h.chain k) ht
  refine ⟨next, first, ⟨(queue k).length + 1, fun fuel hfuel => ?_⟩, ?_, ?_, ?_⟩
  · have hfound : takeOut s.nextInDEPQueue (s.waiting k).first t fuel none (s.waiting k).first =
        some (some (next, first)) := hcall fuel hfuel
    simp only [portalRemoveSender, SenderQueue.DEPDesc.portalRemoveSender, Sys.svc, hfound]
    rfl
  · intro j
    by_cases hj : j = k
    · subst hj
      simpa [Sys.setQueue] using hchain
    · simp only [Sys.setQueue, Function.update_of_ne hj]
      exact (h.chain j).congr fun a ha => hframe a (h.disjoint j k hj a ha)
  · intro j
    by_cases hj : j = k
    · subst hj
      simpa using (h.nodup j).erase t
    · simpa only [Function.update_of_ne hj] using h.nodup j
  · intro i j hij a ha
    have hsub : ∀ m, Function.update queue k ((queue k).erase t) m ⊆ queue m := by
      intro m
      by_cases hm : m = k
      · subst hm
        simpa using List.erase_subset
      · simp only [Function.update_of_ne hm]
        exact List.Subset.refl _
    exact fun ha' => h.disjoint i j hij a (hsub i ha) (hsub j ha')

/-- The parts of the state that the loops leave alone. -/
def Sys.rest (s : Sys) : Sys :=
  { s with
    nextInDEPQueue := fun _ => none, waiting := fun _ => ⟨none, none⟩, abortFlag := fun _ => false,
    portalReturn := fun _ => ⟨0, 0⟩, state := fun _ => .init, wild := [] }

/-- What happened while the pending calls of the threads `l` were ended. -/
structure Ended (s s' : Sys) (l : List Thread) : Prop where
  rest : s'.rest = s.rest
  last : ∀ k, (s'.waiting k).last = (s.waiting k).last
  state : ∀ t, (∀ q ∈ l, s.mostRecentlyCalledBy q ≠ .thread t) → s'.state t = s.state t

/-- The thread is taken out of the queue it waits in. -/
def Unqueued (s : Sys) (t : Thread) : Prop :=
  s.blockedInDomain t ≠ none ∧ s.state t = .portalWaitForRcv

instance (s : Sys) (t : Thread) : Decidable (Unqueued s t) := inferInstanceAs (Decidable (_ ∧ _))

/-- The pending call of a thread can be ended. -/
def Endable (s : Sys) (queue : Nat → List Thread) (t : Thread) : Prop :=
  s.blockedInDomain t ≠ none →
    (s.state t = .portalWaitForRcv ∧ ∃ k, CalledAt s t k ∧ t ∈ queue k) ∨
    (s.state t = .portalWaitForRet ∧ ∃ k, CalledAt s t k)

theorem endCall_returns (h : Queued s queue) (ht : Endable s queue t) :
    ∃ s', Returns (fun fuel => endCall fuel s t) s' ∧
      Queued s' (fun k => (queue k).filter fun q => ¬ (q = t ∧ Unqueued s t)) ∧
      s'.rest = s.rest ∧ (∀ k, (s'.waiting k).last = (s.waiting k).last) ∧ s'.state = s.state := by
  have hsame : ¬ Unqueued s t →
      (fun k => (queue k).filter fun q => ¬ (q = t ∧ Unqueued s t)) = queue := by
    intro hun
    funext k
    simp [hun]
  unfold endCall
  cases hblocked : s.blockedInDomain t with
  | none =>
    rw [hsame fun hun => hun.1 hblocked]
    exact ⟨s, .pure s, h, rfl, fun _ => rfl, rfl⟩
  | some e =>
    obtain ⟨hstate, k, ⟨e', he', hk⟩, hmem⟩ | ⟨hstate, k, e', he', hk⟩ := ht (by simp [hblocked])
    · obtain rfl := Option.some.inj (hblocked.symm.trans he')
      obtain ⟨next, first, hret, hq⟩ := h.erase hmem
      refine ⟨s.setQueue k next ⟨first, (s.waiting k).last⟩, ?_, ?_, rfl, fun j => ?_, rfl⟩
      · simp only [hstate, if_true, hk, deref, pure_bind]
        exact hret
      · -- a thread is in one queue only
        have herase : (fun j => (queue j).filter fun q => ¬ (q = t ∧ Unqueued s t)) =
            Function.update queue k ((queue k).erase t) := by
          have hun : Unqueued s t := ⟨by simp [hblocked], hstate⟩
          funext j
          by_cases hj : j = k
          · subst hj
            rw [Function.update_self, (h.nodup j).erase_eq_filter]
            refine List.filter_congr fun q _ => ?_
            simp [hun, bne, beq_eq_decide]
          · have hnot : t ∉ queue j := h.disjoint k j (Ne.symm hj) t hmem
            rw [Function.update_of_ne hj, List.filter_eq_self]
            intro q hq
            simp only [hun, and_true, decide_eq_true_eq]
            exact fun heq => hnot (heq ▸ hq)
        rw [herase]
        exact hq
      · simp only [Sys.setQueue, Function.update_apply]
        split
        · rename_i heq
          rw [heq]
        · rfl
    · obtain rfl := Option.some.inj (hblocked.symm.trans he')
      have hrcv : ¬ s.state t = .portalWaitForRcv := by simp [hstate]
      rw [hsame fun hun => hrcv hun.2]
      refine ⟨portalAbortCurrentCall s k, ?_, ⟨h.chain, h.nodup, h.disjoint⟩, rfl, fun _ => rfl, rfl⟩
      simp only [hstate, hk]
      exact .pure _

theorem touch_rest (s : Sys) (t : Thread) : (s.touch t).rest = s.rest := by
  unfold Sys.touch
  split <;> rfl

/-- The caller of a service thread is unblocked; no queue changes. -/
theorem endService_ok (hirq : s.mostRecentlyCalledBy t ≠ .irq) :
    ∃ s', endService s t = pure s' ∧ (∀ queue, Queued s queue → Queued s' queue) ∧
      s'.rest = s.rest ∧ s'.waiting = s.waiting ∧
      (∀ q, s.mostRecentlyCalledBy t ≠ .thread q → s'.state q = s.state q) := by
  unfold endService
  cases hcaller : s.mostRecentlyCalledBy t with
  | nobody => exact ⟨s, rfl, fun _ h => h, rfl, rfl, fun _ _ => rfl⟩
  | irq => exact absurd hcaller hirq
  | thread source =>
    refine ⟨_, rfl, fun queue h => ?_, ?_, ?_, fun q hq => ?_⟩
    · unfold Sys.threadunblock Sys.touch
      split <;> exact ⟨h.chain, h.nodup, h.disjoint⟩
    · exact touch_rest _ _
    · unfold Sys.threadunblock Sys.touch
      split <;> rfl
    · have hne : q ≠ source := fun heq => hq (heq ▸ rfl)
      unfold Sys.threadunblock Sys.touch
      split <;> exact Function.update_of_ne hne _ _

theorem rest_eq {f : Sys → α} (hf : ∀ s, f s.rest = f s) (h : s'.rest = s.rest) : f s' = f s := by
  rw [← hf, h, hf]

/-- The loop over the threads: those that wait for a receiver leave the queues. -/
theorem endThreads_returns {l : List Thread} (h : Queued s queue) (hl : l.Nodup)
    (hend : ∀ t ∈ l, Endable s queue t) (hirq : ∀ t ∈ l, s.mostRecentlyCalledBy t ≠ .irq)
    (hforeign : ∀ t ∈ l, ∀ q ∈ l, s.mostRecentlyCalledBy t ≠ .thread q) :
    ∃ s', Returns (fun fuel => endThreads fuel s l) s' ∧
      Queued s' (fun k => (queue k).filter fun q => ¬ (q ∈ l ∧ Unqueued s q)) ∧ Ended s s' l := by
  induction l generalizing s queue with
  | nil =>
    refine ⟨s, .pure s, ?_, ⟨rfl, fun _ => rfl, fun _ _ => rfl⟩⟩
    simpa using h
  | cons t l ih =>
    obtain ⟨ht, hl⟩ := List.nodup_cons.mp hl
    obtain ⟨u, hu, hqu, hrestu, hlastu, hstateu⟩ :=
      endCall_returns h (hend t List.mem_cons_self)
    have hcallu : u.mostRecentlyCalledBy = s.mostRecentlyCalledBy :=
      rest_eq (f := Sys.mostRecentlyCalledBy) (fun _ => rfl) hrestu
    obtain ⟨v, hv, hqv, hrestv, hwaitv, hstatev⟩ :=
      endService_ok (t := t) (s := u) (hcallu ▸ hirq t List.mem_cons_self)
    have hrest : v.rest = s.rest := hrestv.trans hrestu
    have hcall : v.mostRecentlyCalledBy = s.mostRecentlyCalledBy :=
      rest_eq (f := Sys.mostRecentlyCalledBy) (fun _ => rfl) hrest
    have hblocked : v.blockedInDomain = s.blockedInDomain :=
      rest_eq (f := Sys.blockedInDomain) (fun _ => rfl) hrest
    have hcalled : CalledAt v = CalledAt s := by
      have hservices : v.services = s.services := rest_eq (f := Sys.services) (fun _ => rfl) hrest
      have hindex : v.blockedInServiceIndex = s.blockedInServiceIndex :=
        rest_eq (f := Sys.blockedInServiceIndex) (fun _ => rfl) hrest
      unfold CalledAt
      rw [hblocked, hservices, hindex]
    -- the caller that is unblocked is none of the threads that are still to come
    have hstate : ∀ q, s.mostRecentlyCalledBy t ≠ .thread q → v.state q = s.state q := by
      intro q hq
      rw [hstatev q (hcallu ▸ hq), hstateu]
    have hstate' : ∀ q ∈ l, v.state q = s.state q := fun q hq =>
      hstate q (hforeign t List.mem_cons_self q (List.mem_cons_of_mem t hq))
    obtain ⟨w, hw, hqw, hendw⟩ := ih (hqv _ hqu) hl
      (fun q hq hb => by
        have hne : q ≠ t := fun heq => ht (heq ▸ hq)
        rw [hblocked] at hb
        rw [hcalled, hstate' q hq]
        obtain ⟨hst, k, hk, hmem⟩ | hret := hend q (List.mem_cons_of_mem t hq) hb
        · exact .inl ⟨hst, k, hk, List.mem_filter.mpr ⟨hmem, by simp [hne]⟩⟩
        · exact .inr hret)
      (fun q hq => by
        rw [hcall]
        exact hirq q (List.mem_cons_of_mem t hq))
      (fun q hq r hr => by
        rw [hcall]
        exact hforeign q (List.mem_cons_of_mem t hq) r (List.mem_cons_of_mem t hr))
    refine ⟨w, ?_, ?_, ?_⟩
    · refine Returns.bind hu ?_
      show Returns (fun fuel => endService u t >>= fun s => endThreads fuel s l) w
      simp only [hv, pure_bind]
      exact hw
    · convert hqw using 2 with k
      rw [List.filter_filter]
      refine List.filter_congr fun q hq => ?_
      have hun : q ∈ l → (Unqueued v q ↔ Unqueued s q) := by
        intro hq
        unfold Unqueued
        rw [hblocked, hstate' q hq]
      by_cases hqt : q = t
      · subst hqt
        simp [ht]
      · by_cases hql : q ∈ l
        · simp [hqt, hql, hun hql]
        · simp [hqt, hql]
    · refine ⟨hendw.rest.trans hrest, fun k => ?_, fun q hq => ?_⟩
      · rw [hendw.last, hwaitv, hlastu]
      · rw [hendw.state q fun r hr => hcall ▸ hq r (List.mem_cons_of_mem t hr)]
        exact hstate q (hq t List.mem_cons_self)

/-- If the call of a thread is ended at all, the thread was waiting in it. -/
theorem endCall_eq_pure {fuel : Nat} (h : endCall fuel s t = pure s') :
    (s.blockedInDomain t ≠ none →
      s.state t = .portalWaitForRcv ∨ s.state t = .portalWaitForRet) ∧
    s'.rest = s.rest ∧ s'.state = s.state := by
  unfold endCall at h
  cases hblocked : s.blockedInDomain t with
  | none =>
    rw [hblocked] at h
    cases h
    exact ⟨fun hb => absurd rfl hb, rfl, rfl⟩
  | some e =>
    rw [hblocked] at h
    simp only at h
    split at h
    · rename_i hstate
      obtain ⟨k, -, h⟩ := bind_eq_pure h
      obtain ⟨svc, -, h⟩ := bind_eq_pure h
      cases h
      exact ⟨fun _ => .inl hstate, rfl, rfl⟩
    · split at h
      · rename_i hstate
        obtain ⟨k, -, h⟩ := bind_eq_pure h
        cases h
        exact ⟨fun _ => .inr hstate, rfl, rfl⟩
      · cases h

theorem endThreads_eq_pure {fuel : Nat} {l : List Thread}
    (hforeign : ∀ t ∈ l, ∀ q ∈ l, s.mostRecentlyCalledBy t ≠ .thread q)
    (h : endThreads fuel s l = pure s') : ∀ t ∈ l,
      (s.blockedInDomain t ≠ none →
        s.state t = .portalWaitForRcv ∨ s.state t = .portalWaitForRet) ∧
      s.mostRecentlyCalledBy t ≠ .irq := by
  induction l generalizing s with
  | nil => exact fun _ ht => nomatch ht
  | cons t l ih =>
    obtain ⟨u, hu, h⟩ := bind_eq_pure h
    obtain ⟨v, hv, h⟩ := bind_eq_pure h
    obtain ⟨hstate, hrestu, hstateu⟩ := endCall_eq_pure hu
    have hcallu : u.mostRecentlyCalledBy = s.mostRecentlyCalledBy :=
      rest_eq (f := Sys.mostRecentlyCalledBy) (fun _ => rfl) hrestu
    have hirq : s.mostRecentlyCalledBy t ≠ .irq := by
      intro hirq
      unfold endService at hv
      rw [hcallu, hirq] at hv
      cases hv
    obtain ⟨v', hv', -, hrestv, -, hstatev⟩ := endService_ok (hcallu ▸ hirq)
    have hsame : v' = v := eq_of_pure_eq (hv'.symm.trans hv)
    subst hsame
    have hrest := hrestv.trans hrestu
    have hcall : v'.mostRecentlyCalledBy = s.mostRecentlyCalledBy :=
      rest_eq (f := Sys.mostRecentlyCalledBy) (fun _ => rfl) hrest
    have hblocked : v'.blockedInDomain = s.blockedInDomain :=
      rest_eq (f := Sys.blockedInDomain) (fun _ => rfl) hrest
    intro q hq
    rcases List.mem_cons.mp hq with rfl | hql
    · exact ⟨hstate, hirq⟩
    · have hrec := ih (fun a ha b hb => hcall ▸
        hforeign a (List.mem_cons_of_mem t ha) b (List.mem_cons_of_mem t hb)) h q hql
      have hne := hforeign t List.mem_cons_self q hq
      rw [hblocked, hcall, hstatev q (hcallu ▸ hne), hstateu] at hrec
      exact hrec

end Loops

theorem endThreads_append {fuel : Nat} {l₁ l₂ : List Thread} :
    endThreads fuel s (l₁ ++ l₂) = endThreads fuel s l₁ >>= fun u => endThreads fuel u l₂ := by
  induction l₁ generalizing s with
  | nil => exact (pure_bind _ _).symm
  | cons t l ih =>
    simp only [List.cons_append, endThreads, bind_assoc]
    exact bind_congr fun u => bind_congr fun v => ih

/-- The first thread that is in a call and does not wait stops the loop. -/
theorem endThreads_stops {l₁ l₂ : List Thread} (h : Queued s queue) (hl : (l₁ ++ t :: l₂).Nodup)
    (hend : ∀ q ∈ l₁, Endable s queue q) (hirq : ∀ q ∈ l₁, s.mostRecentlyCalledBy q ≠ .irq)
    (hforeign : ∀ q ∈ l₁ ++ t :: l₂, ∀ r ∈ l₁ ++ t :: l₂, s.mostRecentlyCalledBy q ≠ .thread r)
    (hblocked : s.blockedInDomain t ≠ none) (hrcv : s.state t ≠ .portalWaitForRcv)
    (hret : s.state t ≠ .portalWaitForRet) : Stops fun fuel => endThreads fuel s (l₁ ++ t :: l₂) := by
  have hmem : ∀ q ∈ l₁, q ∈ l₁ ++ t :: l₂ := fun q hq => List.mem_append_left _ hq
  have ht : t ∈ l₁ ++ t :: l₂ := List.mem_append_right _ List.mem_cons_self
  obtain ⟨u, ⟨n, hn⟩, -, hu⟩ := endThreads_returns h (List.nodup_append.mp hl).1 hend hirq
    fun q hq r hr => hforeign q (hmem q hq) r (hmem r hr)
  have hstate : u.state t = s.state t := hu.state t fun q hq => hforeign q (hmem q hq) t ht
  have hin : u.blockedInDomain t = s.blockedInDomain t :=
    congrFun (rest_eq (f := Sys.blockedInDomain) (fun _ => rfl) hu.rest) t
  obtain ⟨e, he⟩ := Option.ne_none_iff_exists'.mp hblocked
  refine ⟨.panic "terminate with pending call not yet supported", n, fun fuel hfuel => ?_⟩
  have hcall : endCall fuel u t = throw (.panic "terminate with pending call not yet supported") := by
    unfold endCall
    rw [hin, he, hstate]
    simp only [hrcv, hret, if_false]
  simp only [endThreads_append, hn fuel hfuel, pure_bind, endThreads, hcall]
  rfl

/-! ## Both loops -/

section Terminate

variable {s s' : Sys} {queue : Nat → List Thread} {d : Domain}

/-- Nothing is deactivated, for the first entry in use is the reserved one. -/
theorem deactivateServices_services (h : Consistent s queue) (hactive : s.active d = true) :
    (deactivateServices s d).services = s.services := by
  unfold deactivateServices
  simp only [Service.deactivate_reserved (h.reserved d hactive), Function.update_eq_self]

theorem Consistent.foreign_threads (h : Consistent s queue) :
    ∀ t ∈ s.threads d, ∀ q ∈ s.threads d, s.mostRecentlyCalledBy t ≠ .thread q := by
  intro t ht q hq hcall
  exact h.foreign d t ht q hcall (h.threads d q hq)

theorem Consistent.endable (h : Consistent s queue) {t : Thread} (ht : t ∈ s.threads d)
    (hstate : s.blockedInDomain t ≠ none →
      s.state t = .portalWaitForRcv ∨ s.state t = .portalWaitForRet) : Endable s queue t := by
  intro hblocked
  rcases hstate hblocked with hrcv | hret
  · exact .inl ⟨hrcv, h.waitForRcv d t ht hblocked hrcv⟩
  · exact .inr ⟨hret, h.waitForRet d t ht hblocked hret⟩

/-- What the loops do when they come to an end: the threads of the domain that wait for a receiver
leave the queues, whose last pointers stay. -/
theorem terminateLoops_returns (h : Consistent s queue) (hactive : s.active d = true)
    (hcalls : ∀ t ∈ s.threads d, s.blockedInDomain t ≠ none →
      s.state t = .portalWaitForRcv ∨ s.state t = .portalWaitForRet)
    (hirq : ∀ t ∈ s.threads d, s.mostRecentlyCalledBy t ≠ .irq) :
    ∃ s', Returns (fun fuel => terminateLoops fuel s d) s' ∧
      Queued s' (fun k => (queue k).filter fun q => ¬ (q ∈ s.threads d ∧ Unqueued s q)) ∧
      Ended (deactivateServices s d) s' (s.threads d) := by
  have hservices := deactivateServices_services h hactive
  have hcalled : CalledAt (deactivateServices s d) = CalledAt s := by
    unfold CalledAt
    rw [hservices]
    rfl
  refine endThreads_returns (s := deactivateServices s d) ⟨h.chain, h.nodup, h.disjoint⟩
    (h.threads_nodup d) (fun t ht => ?_) hirq h.foreign_threads
  unfold Endable
  rw [hcalled]
  exact h.endable ht (hcalls t ht)

/-- Nobody comes back from `terminateDomain`. -/
theorem Consistent.terminateDomain_stops (h : Consistent s queue) (hactive : s.active d = true)
    (hirq : ∀ t ∈ s.threads d, s.mostRecentlyCalledBy t ≠ .irq) :
    Stops fun fuel => terminateDomain fuel s d := by
  have hthrow : Stops (fun fuel => terminateLoops fuel s d) →
      Stops fun fuel => terminateDomain fuel s d := by
    rintro ⟨e, n, hn⟩
    refine ⟨e, n, fun fuel hfuel => ?_⟩
    simp only [terminateDomain, hn fuel hfuel]
    rfl
  -- the thread at which the loop is left, if there is one
  cases hfind : (s.threads d).find? fun t => decide (s.blockedInDomain t ≠ none ∧
      s.state t ≠ .portalWaitForRcv ∧ s.state t ≠ .portalWaitForRet) with
  | none =>
    have hcalls : ∀ t ∈ s.threads d, s.blockedInDomain t ≠ none →
        s.state t = .portalWaitForRcv ∨ s.state t = .portalWaitForRet := by
      intro t ht hblocked
      have hnot := List.find?_eq_none.mp hfind t ht
      simp only [decide_eq_true_eq] at hnot
      tauto
    obtain ⟨u, ⟨n, hn⟩, -⟩ := terminateLoops_returns h hactive hcalls hirq
    refine ⟨.panic "", n, fun fuel hfuel => ?_⟩
    simp only [terminateDomain, hn fuel hfuel]
    rfl
  | some t =>
    obtain ⟨hbad, l₁, l₂, hl, hbefore⟩ := List.find?_eq_some_iff_append.mp hfind
    obtain ⟨hblocked, hrcv, hret⟩ := of_decide_eq_true hbad
    have hservices := deactivateServices_services h hactive
    have hcalled : CalledAt (deactivateServices s d) = CalledAt s := by
      unfold CalledAt
      rw [hservices]
      rfl
    have hmem : ∀ q ∈ l₁, q ∈ s.threads d := fun q hq => hl ▸ List.mem_append_left _ hq
    refine hthrow ?_
    show Stops fun fuel => endThreads fuel (deactivateServices s d) (s.threads d)
    rw [hl]
    refine endThreads_stops (s := deactivateServices s d) ⟨h.chain, h.nodup, h.disjoint⟩
      (hl ▸ h.threads_nodup d) (fun q hq => ?_) (fun q hq => hirq q (hmem q hq))
      (hl ▸ h.foreign_threads) hblocked hrcv hret
    unfold Endable
    rw [hcalled]
    refine h.endable (hmem q hq) fun hq' => ?_
    have hnot := hbefore q hq
    simp only [Bool.not_eq_true', decide_eq_false_iff_not] at hnot
    tauto

theorem getLast?_filter {α : Type} {p : α → Bool} {l : List α}
    (h : ∀ a, l.getLast? = some a → p a = true) : (l.filter p).getLast? = l.getLast? := by
  cases hl : l.getLast? with
  | none =>
    rw [List.getLast?_eq_none_iff.mp hl]
    rfl
  | some a =>
    obtain ⟨l', rfl⟩ := List.getLast?_eq_some_iff.mp hl
    rw [List.filter_append, List.filter_cons_of_pos (h a hl), List.filter_nil,
      List.getLast?_concat]

/-- The loops detach the domain exactly if there is nothing they miss. -/
theorem detached_iff (h : Consistent s queue) (hactive : s.active d = true) :
    (∃ s', Returns (fun fuel => terminateLoops fuel s d) s' ∧ Detached s queue d s') ↔
      Detachable s queue d := by
  have hservices := deactivateServices_services h hactive
  constructor
  · rintro ⟨s', ⟨n, hn⟩, hdet⟩
    have hpending := endThreads_eq_pure (s := deactivateServices s d) h.foreign_threads
      (hn n (Nat.le_refl n))
    obtain ⟨u, hu, hqueued, hend⟩ := terminateLoops_returns h hactive
      (fun t ht => (hpending t ht).1) fun t ht => (hpending t ht).2
    obtain rfl : u = s' := hu.unique ⟨n, hn⟩
    have hservices' : u.services = s.services :=
      (rest_eq (f := Sys.services) (fun _ => rfl) hend.rest).trans hservices
    have hdomain : u.domain = (deactivateServices s d).domain :=
      rest_eq (f := Sys.domain) (fun _ => rfl) hend.rest
    -- the elements of the queues that are left
    have hleft : ∀ k t, t ∈ queue k → ¬ Unqueued s t → s.domain t ≠ d := by
      intro k t ht hun
      obtain ⟨l, hl, hno⟩ := hdet.queues k
      refine fun hd => hno t ?_ ((congrFun hdomain t).trans hd)
      rw [hl.chain.unique (hqueued.chain k)]
      exact List.mem_filter.mpr ⟨ht, by simp [hun]⟩
    refine ⟨fun i hi k => hservices' ▸ hdet.services i hi k, fun t ht => (hpending t ht).1,
      fun k t ht hd => ?_, fun k t ht => ?_, fun t ht => (hpending t ht).2⟩
    · rcases (h.queued k t ht).2 with hstate | hstate
      · exact hstate
      · exact absurd hd (hleft k t ht fun hun => nomatch hstate.symm.trans hun.2)
    · obtain ⟨l, hl, hno⟩ := hdet.queues k
      refine fun hd => hno t (List.mem_of_getLast? ?_) ((congrFun hdomain t).trans hd)
      rw [← hl.last, hend.last]
      exact ht
  · intro hok
    obtain ⟨u, hu, hqueued, hend⟩ := terminateLoops_returns h hactive hok.calls hok.irq
    have hservices' : u.services = s.services :=
      (rest_eq (f := Sys.services) (fun _ => rfl) hend.rest).trans hservices
    have hdomain : u.domain = (deactivateServices s d).domain :=
      rest_eq (f := Sys.domain) (fun _ => rfl) hend.rest
    refine ⟨u, hu, fun i hi k => hservices' ▸ hok.services i hi k, fun k => ⟨_, ⟨hqueued.chain k, ?_,
      hqueued.nodup k⟩, fun t ht => ?_⟩, fun t _ ⟨i, hi, k, hk, _⟩ => absurd hk (hok.services i hi k)⟩
    · have hlast : (u.waiting k).last = (queue k).getLast? := (hend.last k).trans (h.last k)
      rw [hlast]
      -- the last sender is none of the domain, so it stays
      refine (getLast?_filter fun t ht => ?_).symm
      have hd := hok.last k t ((h.last k).trans ht)
      simp only [decide_eq_true_eq, not_and]
      exact fun hmem => absurd (h.threads d t hmem) hd
    · obtain ⟨hmem, hkept⟩ := List.mem_filter.mp ht
      intro hd
      replace hd : s.domain t = d := (congrFun hdomain t).symm.trans hd
      have hun : Unqueued s t := by
        obtain ⟨⟨e, he, -⟩, -⟩ := h.queued k t hmem
        exact ⟨by simp [he], hok.queued k t hmem hd⟩
      have hthread : t ∈ s.threads d := hd ▸ h.members k t hmem
      simp [hun, hthread] at hkept

end Terminate

/-! ## Two senders at one service -/

section TwoSenders

/-- Threads 5 of domain 1 and 6 of domain 3 wait for a service of domain 2. -/
def twoSenders : Sys :=
  { currentDomainID := 4
    id := id
    active := fun _ => true
    threads := fun d => if d = 1 then [5] else if d = 3 then [6] else if d = 2 then [7] else []
    services := fun d i => if i = 0 then .changing else if d = 2 ∧ i = 1 then .dep 0 else .free
    domain := fun t => if t = 5 then 1 else if t = 6 then 3 else if t = 7 then 2 else 0
    state := fun t => if t = 5 ∨ t = 6 then .portalWaitForRcv else .runnable
    nextInDEPQueue := fun t => if t = 5 then some 6 else none
    blockedInDomain := fun t => if t = 5 ∨ t = 6 then some 2 else none
    blockedInServiceIndex := fun _ => 1
    mostRecentlyCalledBy := fun _ => .nobody
    callerDomain := fun _ => none
    callerDomainID := fun _ => 0
    portalReturn := fun _ => ⟨0, 0⟩
    waiting := fun k => if k = 0 then ⟨some 5, some 6⟩ else ⟨none, none⟩
    abortFlag := fun _ => false
    receiver := fun _ => 7
    serving := fun _ => false
    freed := fun _ => false
    calls := [5, 6]
    inCall := fun t => if t = 5 then some 0 else if t = 6 then some 1 else none
    replies := []
    wild := [] }

def twoSendersQueue : Nat → List Thread := fun k => if k = 0 then [5, 6] else []

theorem twoSenders_consistent : Consistent twoSenders twoSendersQueue where
  chain k := by
    by_cases hk : k = 0
    · subst hk
      exact ⟨rfl, rfl, rfl⟩
    · simp [twoSenders, twoSendersQueue, hk, Chain]
  nodup k := by
    unfold twoSendersQueue
    split <;> decide
  disjoint j k hjk t hj hk := by
    unfold twoSendersQueue at hj hk
    split at hj
    · split at hk
      · rename_i h0 h1
        exact hjk (h0.trans h1.symm)
      · cases hk
    · cases hj
  last k := by
    by_cases hk : k = 0
    · subst hk
      rfl
    · simp [twoSenders, twoSendersQueue, hk]
  queued k t ht := by
    unfold twoSendersQueue at ht
    split at ht
    · rename_i hk
      subst hk
      have ht' : t = 5 ∨ t = 6 := by simpa using ht
      exact ⟨⟨2, by simp [twoSenders, ht'], rfl⟩, .inl (by simp [twoSenders, ht'])⟩
    · cases ht
  waitForRcv _ t _ hb _ := by
    have ht : t = 5 ∨ t = 6 := by
      simp only [twoSenders] at hb
      split at hb
      · assumption
      · exact absurd rfl hb
    exact ⟨0, ⟨2, by simp [twoSenders, ht], rfl⟩, by simpa [twoSendersQueue] using ht⟩
  waitForRet _ t _ _ hs := by
    simp only [twoSenders] at hs
    split at hs <;> cases hs
  threads d t ht := by
    simp only [twoSenders] at ht ⊢
    split at ht
    · rename_i hd
      simp_all
    · split at ht
      · simp_all
      · split at ht
        · simp_all
        · cases ht
  members k t ht := by
    unfold twoSendersQueue at ht
    split at ht
    · have ht' : t = 5 ∨ t = 6 := by simpa using ht
      rcases ht' with rfl | rfl <;> decide
    · cases ht
  threads_nodup d := by
    simp only [twoSenders]
    repeat' split
    all_goals decide
  foreign _ _ _ _ h := nomatch h
  reserved _ _ := rfl

/-- Domain 1 offers no service, and its sender is not the last: it can be detached. -/
theorem detached_twoSenders : ∃ s', Returns (fun fuel => terminateLoops fuel twoSenders 1) s' ∧
    Detached twoSenders twoSendersQueue 1 s' := by
  refine (detached_iff twoSenders_consistent rfl).mpr ⟨fun i _ k => ?_, fun t ht _ => ?_,
    fun k t ht hd => ?_, fun k t ht => ?_, fun _ _ => nofun⟩
  · simp only [twoSenders]
    split
    · nofun
    · simp
  · obtain rfl : t = 5 := by simpa [twoSenders] using ht
    exact .inl rfl
  · unfold twoSendersQueue at ht
    split at ht
    · have ht' : t = 5 ∨ t = 6 := by simpa using ht
      simp [twoSenders, ht']
    · cases ht
  · simp only [twoSenders] at ht ⊢
    split at ht
    · obtain rfl : t = 6 := (Option.some.inj ht).symm
      decide
    · cases ht

/-- The service of domain 2 stays in the table when the domain is terminated, and its senders wait on
for ever. -/
theorem not_detached_twoSenders : Consistent twoSenders twoSendersQueue ∧
    twoSenders.active 2 = true ∧ twoSenders.domain 5 ≠ 2 ∧
    AtServiceOf twoSenders twoSendersQueue 2 5 ∧
    ∀ s', Returns (fun fuel => terminateLoops fuel twoSenders 2) s' →
      s'.services 2 1 = .dep 0 ∧ s'.state 5 = .portalWaitForRcv ∧
        ¬ Detached twoSenders twoSendersQueue 2 s' := by
  refine ⟨twoSenders_consistent, rfl, by decide, ⟨1, by decide, 0, rfl, .inl (by decide)⟩,
    fun s' hs' => ?_⟩
  have hret : Returns (fun fuel => terminateLoops fuel twoSenders 2)
      (deactivateServices twoSenders 2) := ⟨0, fun _ _ => rfl⟩
  obtain rfl := hs'.unique hret
  have hservice : (deactivateServices twoSenders 2).services 2 1 = .dep 0 := by
    rw [deactivateServices_services twoSenders_consistent rfl]
    rfl
  exact ⟨hservice, rfl, fun h => h.services 1 (by decide) 0 hservice⟩

end TwoSenders

end JxCore.Termination
