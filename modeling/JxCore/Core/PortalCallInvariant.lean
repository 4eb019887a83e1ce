import JxCore.Core.PortalCall
import JxCore.Core.RunqInvariant

/-!
# The invariant of portal calls

With `w` senders woken so far, the calls from `w` on are under way: the first of them may be in
service, the others wait in the queue in the order of their numbers. None of their senders is
runnable. The receiver sleeps only if the queue is empty.

* `Inv.exec` — every step keeps this, provided that an exception it delivers arrives;
* `sound_of_reach` — what follows for every state of every run.
-/

namespace JxCore.Portal

open Lib Exec Runq

variable {cfg : Config} {s s' : State}

/-- An exception arrives: making its copy is not interrupted, and the test of `callerDomain` lets it
through. -/
def Delivered (cfg : Config) (s : State) (f : Fault) : Prop :=
  f.interrupted = false ∧ (s.callerDomain.isSome ∨ cfg.nullDomainActive)

/-- The condition on one step. -/
def Delivers (cfg : Config) (s : State) : Op → Prop
  | .receive (some f) => s.waitingSenders.first ≠ none → Delivered cfg s f
  | .fail f => Delivered cfg s f
  | _ => True

/-- The invariant, where `busy` says whether the receiver has taken up a call. -/
structure InvAt (cfg : Config) (s : State) (busy : Bool) : Prop where
  running : ∃ q, Running cfg.toConfig s.sched q
  receiver_ne : cfg.receiver ≠ cfg.idle
  served_eq : s.served = List.range s.served.length
  queue : IsQueue s.nextInDEPQueue s.waitingSenders (s.enqueued.drop s.served.length)
  woken_eq : s.woken.map Prod.fst = List.range s.woken.length
  woken_length : s.served.length = s.woken.length + if busy then 1 else 0
  woken_le : s.served.length ≤ s.enqueued.length
  result : ∀ p ∈ s.woken, s.result p.1 = some p.2
  inCall : ∀ c t, s.woken.length ≤ c → s.enqueued[c]? = some t → ∃ b, s.inCall t = some ⟨c, b⟩
  blocked : ∀ c t, s.woken.length ≤ c → s.enqueued[c]? = some t →
    (s.sched.state t).isBlocked = true ∧ t ≠ cfg.receiver
  source : busy = true → ∃ t, s.mostRecentlyCalledBy = some t ∧ s.enqueued[s.woken.length]? = some t
  idle : busy = false → s.sched.state cfg.receiver = .runnable ∨
    s.sched.state cfg.receiver = .portalWaitForSnd ∧ s.enqueued.drop s.served.length = []
  awake : busy = true → s.sched.state cfg.receiver ≠ .portalWaitForSnd

/-- **The invariant between two steps.** -/
def Inv (cfg : Config) (s : State) : Prop := InvAt cfg s s.serving

namespace InvAt

variable {busy : Bool}

/-- A thread that is not inside a call has no call under way. -/
theorem ne_of_inCall_none (h : InvAt cfg s busy) {c : Nat} {t x : Thread}
    (hc : s.woken.length ≤ c) (ht : s.enqueued[c]? = some t) (hx : s.inCall x = none) : t ≠ x := by
  rintro rfl
  obtain ⟨b, hb⟩ := h.inCall c t hc ht
  rw [hx] at hb
  cases hb

/-- Nor has one that is runnable. -/
theorem ne_of_runnable (h : InvAt cfg s busy) {c : Nat} {t x : Thread} (hc : s.woken.length ≤ c)
    (ht : s.enqueued[c]? = some t) (hx : s.sched.state x = .runnable) : t ≠ x := by
  rintro rfl
  have hblocked := (h.blocked c t hc ht).1
  rw [hx] at hblocked
  cases hblocked

/-- Two calls under way have different senders. -/
theorem sender_injective (h : InvAt cfg s busy) {c c' : Nat} {t : Thread} (hc : s.woken.length ≤ c)
    (ht : s.enqueued[c]? = some t) (hc' : s.woken.length ≤ c') (ht' : s.enqueued[c']? = some t) :
    c = c' := by
  obtain ⟨b, hb⟩ := h.inCall c t hc ht
  obtain ⟨b', hb'⟩ := h.inCall c' t hc' ht'
  rw [hb] at hb'
  exact congrArg Pending.call (Option.some.inj hb')

/-- A step that only touches the scheduler, leaves the senders blocked and the receiver as it has to
be, keeps the invariant. -/
theorem withSched (h : InvAt cfg s busy) {sched : Sched} {q : Queues}
    (hrun : Running cfg.toConfig sched q)
    (hsenders : ∀ c t, s.woken.length ≤ c → s.enqueued[c]? = some t →
      (sched.state t).isBlocked = true)
    (hidle : busy = false → sched.state cfg.receiver = .runnable ∨
      sched.state cfg.receiver = .portalWaitForSnd ∧ s.enqueued.drop s.served.length = [])
    (hawake : busy = true → sched.state cfg.receiver ≠ .portalWaitForSnd) :
    InvAt cfg (s.withSched sched) busy where
  running := ⟨q, hrun⟩
  receiver_ne := h.receiver_ne
  served_eq := h.served_eq
  queue := h.queue
  woken_eq := h.woken_eq
  woken_length := h.woken_length
  woken_le := h.woken_le
  result := h.result
  inCall := h.inCall
  blocked c t hc ht := ⟨hsenders c t hc ht, (h.blocked c t hc ht).2⟩
  source := h.source
  idle := hidle
  awake := hawake

end InvAt

/-! ## The client -/

/-- The state when the thread has joined the queue. -/
def State.appendSender (s : State) (t : Thread) : State := s.enqueue t (s.toDEPDesc.appendSender t)

theorem Inv.appendSender (h : Inv cfg s) (hcall : s.inCall s.sched.curthr = none) :
    IsQueue (s.appendSender s.sched.curthr).nextInDEPQueue
      (s.appendSender s.sched.curthr).waitingSenders
      ((s.enqueued ++ [s.sched.curthr]).drop s.served.length) := by
  rw [List.drop_append_of_le_length h.woken_le]
  refine isQueue_append h.queue fun hmem => ?_
  obtain ⟨i, hi⟩ := List.mem_iff_getElem?.1 hmem
  rw [List.getElem?_drop] at hi
  have hlen := h.woken_length
  exact h.ne_of_inCall_none (by omega) hi hcall rfl

/-- After the sender has been enqueued, whichever way it blocks. -/
theorem Inv.sent (h : Inv cfg s) (hcall : s.inCall s.sched.curthr = none)
    (hne : s.sched.curthr ≠ cfg.receiver) (waited : Bool) {sched : Sched} {q : Queues}
    (hrun : Running cfg.toConfig sched q)
    (hblocked : (sched.state s.sched.curthr).isBlocked = true)
    (hothers : ∀ t, t ≠ s.sched.curthr → t ≠ cfg.receiver → sched.state t = s.sched.state t)
    (hidle : s.serving = false → sched.state cfg.receiver = .runnable)
    (hawake : s.serving = true → sched.state cfg.receiver ≠ .portalWaitForSnd) :
    Inv cfg (State.withSched { s.appendSender s.sched.curthr with
      inCall := Function.update s.inCall s.sched.curthr (some ⟨s.enqueued.length, waited⟩) }
      sched) := by
  have hlen := h.woken_length
  have hle := h.woken_le
  -- A call under way is an earlier one, of another thread, or the new one.
  have hcases : ∀ c t, s.woken.length ≤ c → (s.enqueued ++ [s.sched.curthr])[c]? = some t →
      s.enqueued[c]? = some t ∧ t ≠ s.sched.curthr ∨ c = s.enqueued.length ∧ t = s.sched.curthr := by
    intro c t hc ht
    rcases Nat.lt_or_ge c s.enqueued.length with hlt | hge
    · rw [List.getElem?_append_left hlt] at ht
      exact Or.inl ⟨ht, h.ne_of_inCall_none hc ht hcall⟩
    · rw [List.getElem?_append_right hge] at ht
      have hzero : c - s.enqueued.length = 0 := by
        by_contra hpos
        rw [List.getElem?_eq_none (by simp; omega)] at ht
        cases ht
      rw [hzero] at ht
      exact Or.inr ⟨by omega, (Option.some.inj ht).symm⟩
  exact {
    running := ⟨q, hrun⟩
    receiver_ne := h.receiver_ne
    served_eq := h.served_eq
    queue := h.appendSender hcall
    woken_eq := h.woken_eq
    woken_length := hlen
    woken_le := by
      show s.served.length ≤ (s.enqueued ++ [s.sched.curthr]).length
      rw [List.length_append]
      omega
    result := h.result
    inCall := by
      intro c t hc ht
      rcases hcases c t hc ht with ⟨hold, hother⟩ | ⟨rfl, rfl⟩
      · obtain ⟨b, hb⟩ := h.inCall c t hc hold
        exact ⟨b, by rw [← hb]; exact Function.update_of_ne hother _ _⟩
      · exact ⟨waited, Function.update_self ..⟩
    blocked := by
      intro c t hc ht
      rcases hcases c t hc ht with ⟨hold, hother⟩ | ⟨rfl, rfl⟩
      · obtain ⟨hstate, hrec⟩ := h.blocked c t hc hold
        refine ⟨?_, hrec⟩
        show (sched.state t).isBlocked = true
        rw [hothers t hother hrec]
        exact hstate
      · exact ⟨hblocked, hne⟩
    source := by
      intro hbusy
      obtain ⟨t, hcaller, ht⟩ := h.source hbusy
      refine ⟨t, hcaller, ?_⟩
      have hlt : s.woken.length < s.enqueued.length := (List.getElem?_eq_some_iff.1 ht).1
      show (s.enqueued ++ [s.sched.curthr])[s.woken.length]? = some t
      rwa [List.getElem?_append_left hlt]
    idle := fun hfree => Or.inl (hidle hfree)
    awake := hawake }

/-- The sender after it has been given call number `s.enqueued.length`. -/
def State.sending (s : State) (waited : Bool) : State :=
  { s.appendSender s.sched.curthr with
    inCall := Function.update s.inCall s.sched.curthr (some ⟨s.enqueued.length, waited⟩) }

/-- `direct_send_portal` once its checks have passed: it blocks in one of two ways. -/
theorem returns_of_directSendPortal (hret : Returns (fun fuel => s.directSendPortal cfg fuel) s') :
    Returns (fun fuel => if s.sched.state cfg.receiver ≠ .portalWaitForSnd then
      (s.sending true).withSched <$> s.sched.block cfg.toConfig fuel .portalWaitForRcv
      else (s.sending false).withSched <$>
        s.sched.portalHandoffToReceiver cfg.toConfig fuel cfg.receiver) s' := by
  have heq : (fun fuel => s.directSendPortal cfg fuel) = fun fuel => (do
      s.checkServicequeue fuel
      s.checkNotinServicequeue fuel s.sched.curthr
      (s.appendSender s.sched.curthr).checkServicequeue fuel
      if s.sched.state cfg.receiver ≠ .portalWaitForSnd then
        (s.sending true).withSched <$> s.sched.block cfg.toConfig fuel .portalWaitForRcv
      else
        (s.appendSender s.sched.curthr).checkServicequeue fuel
        (s.sending false).withSched <$>
          s.sched.portalHandoffToReceiver cfg.toConfig fuel cfg.receiver) := by
    funext fuel
    simp only [State.directSendPortal, SenderQueue.DEPDesc.portalAddSender, bind_assoc, pure_bind]
    rfl
  rw [heq] at hret
  have hrest := hret.of_bind.of_bind.of_bind
  split
  · next hstate => simpa only [if_pos hstate] using hrest
  · next hstate =>
    simp only [if_neg hstate] at hrest
    exact hrest.of_bind

theorem Inv.send (h : Inv cfg s) (hop : Permitted cfg s .send)
    (hret : Returns (exec cfg .send s) s') : Inv cfg s' := by
  obtain ⟨hdomain, hidle, hcall⟩ := hop
  obtain ⟨q, hr⟩ := h.running
  have hne : s.sched.curthr ≠ cfg.receiver := by
    intro heq
    apply hdomain
    rw [← heq]
    rfl
  have hstep := returns_of_directSendPortal hret
  by_cases hstate : s.sched.state cfg.receiver = .portalWaitForSnd
  · -- The receiver sleeps: it is woken, and the sender waits for the result.
    simp only [hstate, ne_eq, not_true_eq_false, if_false] at hstep
    obtain ⟨sched, q', hcallret, hrun, hafter⟩ :=
      hr.handoffToReceiver hidle (by rw [hstate]; decide)
    rw [hcallret.map_eq hstep]
    refine h.sent hcall hne false hrun ?_ ?_ ?_ ?_
    · rw [hafter, Function.update_of_ne hne, Function.update_self]
      rfl
    · intro t ht hrec
      rw [hafter, Function.update_of_ne hrec, Function.update_of_ne ht]
    · intro _
      rw [hafter, Function.update_self]
    · intro _
      rw [hafter, Function.update_self]
      decide
  · -- Nobody is there: the sender waits for the receiver.
    simp only [hstate, ne_eq, not_false_eq_true, if_true] at hstep
    obtain ⟨sched, q', hcallret, hrun, hafter⟩ :=
      hr.block hidle (show ThreadState.portalWaitForRcv ≠ .runnable by decide)
    rw [hcallret.map_eq hstep]
    have hrec : sched.state cfg.receiver = s.sched.state cfg.receiver := by
      rw [hafter, Function.update_of_ne (Ne.symm hne)]
    refine h.sent hcall hne true hrun ?_ ?_ ?_ ?_
    · rw [hafter, Function.update_self]
      rfl
    · intro t ht _
      rw [hafter, Function.update_of_ne ht]
    · intro hfree
      rw [hrec]
      exact (h.idle hfree).resolve_right fun hsleep => hstate hsleep.1
    · intro hbusy
      rw [hrec]
      exact h.awake hbusy

/-- A thread that is back from its call has no call under way, so nobody misses it. -/
theorem Inv.leaveCall (h : Inv cfg s) : Inv cfg (s.leaveCall s.sched.curthr) := by
  obtain ⟨q, hr⟩ := h.running
  exact { h with
    inCall := by
      intro c t hc ht
      obtain ⟨b, hb⟩ := h.inCall c t hc ht
      refine ⟨b, ?_⟩
      rw [← hb]
      exact Function.update_of_ne (h.ne_of_runnable hc ht hr.cur_runnable) _ _ }

theorem Inv.finish (h : Inv cfg s) (hret : Returns (exec cfg .finish s) s') : Inv cfg s' := by
  cases hcall : s.inCall s.sched.curthr with
  | none =>
    have hself : Returns (exec cfg .finish s) s := ⟨0, fun fuel _ => by simp only [exec, hcall]⟩
    rw [hret.unique hself]
    exact h
  | some p =>
    have hexec : exec cfg .finish s = fun fuel => s.sendReturn fuel s.sched.curthr p := by
      funext fuel
      simp only [exec, hcall]
    rw [hexec] at hret
    have hself : Returns (fun _ => pure (s.leaveCall s.sched.curthr)) (s.leaveCall s.sched.curthr) :=
      ⟨0, fun _ _ => rfl⟩
    rw [(Returns.of_bind hret).unique hself]
    exact h.leaveCall

/-! ## The receiver -/

/-- The state after a call has ended with `r`. -/
def State.completed (s : State) (sched : Sched) (r : Return) (portalReturn : Thread → Return)
    (caller : Option Thread) : State :=
  { s with
    sched, portalReturn
    mostRecentlyCalledBy := caller
    serving := false
    result := Function.update s.result s.woken.length (some r)
    woken := s.woken ++ [(s.woken.length, r)] }

theorem InvAt.completed (h : InvAt cfg s true) {source : Thread}
    (hsource : s.enqueued[s.woken.length]? = some source) (r : Return)
    (portalReturn : Thread → Return) (caller : Option Thread) {sched : Sched} {q : Queues}
    (hrun : Running cfg.toConfig sched q)
    (hothers : ∀ t, t ≠ source → t ≠ cfg.receiver → sched.state t = s.sched.state t)
    (hidle : sched.state cfg.receiver = .runnable ∨
      sched.state cfg.receiver = .portalWaitForSnd ∧ s.enqueued.drop s.served.length = []) :
    Inv cfg (s.completed sched r portalReturn caller) := by
  have hlength : (s.woken ++ [(s.woken.length, r)]).length = s.woken.length + 1 := by simp
  -- The calls that are still under way come later, so they are calls of other threads.
  have hlater : ∀ c t, s.woken.length + 1 ≤ c → s.enqueued[c]? = some t → t ≠ source := by
    rintro c t hc ht rfl
    have := h.sender_injective (by omega) ht (Nat.le_refl _) hsource
    omega
  exact {
    running := ⟨q, hrun⟩
    receiver_ne := h.receiver_ne
    served_eq := h.served_eq
    queue := h.queue
    woken_eq := by
      show (s.woken ++ [(s.woken.length, r)]).map Prod.fst = _
      rw [List.map_append, h.woken_eq, show (s.completed sched r portalReturn caller).woken.length =
        s.woken.length + 1 from hlength, List.range_succ]
      rfl
    woken_length := h.woken_length.trans hlength.symm
    woken_le := h.woken_le
    result := by
      intro p hp
      show Function.update s.result s.woken.length (some r) p.1 = some p.2
      rcases List.mem_append.1 hp with hold | hnew
      · have hlt : p.1 ∈ List.range s.woken.length := h.woken_eq ▸ List.mem_map_of_mem hold
        rw [Function.update_of_ne (Nat.ne_of_lt (List.mem_range.1 hlt))]
        exact h.result p hold
      · rw [List.mem_singleton.1 hnew]
        exact Function.update_self ..
    inCall := by
      intro c t hc ht
      rw [show (s.completed sched r portalReturn caller).woken.length = s.woken.length + 1
        from hlength] at hc
      exact h.inCall c t (by omega) ht
    blocked := by
      intro c t hc ht
      rw [show (s.completed sched r portalReturn caller).woken.length = s.woken.length + 1
        from hlength] at hc
      obtain ⟨hstate, hrec⟩ := h.blocked c t (by omega) ht
      refine ⟨?_, hrec⟩
      show (sched.state t).isBlocked = true
      rw [hothers t (hlater c t hc ht) hrec]
      exact hstate
    source := nofun
    idle := fun _ => hidle
    awake := nofun }

/-- An exception ends the call. -/
theorem InvAt.throwException (h : InvAt cfg s true) (hcur : s.sched.curthr = cfg.receiver)
    {source : Thread} (hsource : s.enqueued[s.woken.length]? = some source) {f : Fault}
    (hdelivered : Delivered cfg s f)
    (hret : Returns (fun fuel => s.throwException cfg fuel source f) s') : Inv cfg s' := by
  obtain ⟨q, hr⟩ := h.running
  obtain ⟨b, hcall⟩ := h.inCall _ _ (Nat.le_refl _) hsource
  obtain ⟨hblocked, hne⟩ := h.blocked _ _ (Nat.le_refl _) hsource
  obtain ⟨sched, q', hcallret, hrun, hafter⟩ := hr.destroyHandoffToSender
    (by rw [hcur]; exact h.receiver_ne) (ThreadState.ne_runnable_of_isBlocked hblocked)
  have heq : (fun fuel => s.throwException cfg fuel source f) = fun fuel =>
      (fun sched => s.completed sched ⟨returnTypeException, f.copy⟩
        (Function.update s.portalReturn source ⟨returnTypeException, f.copy⟩)
        s.mostRecentlyCalledBy) <$>
        s.sched.portalDestroyHandoffToSender cfg.toConfig fuel source := by
    funext fuel
    obtain ⟨hwhole, hactive⟩ := hdelivered
    simp only [State.throwException, State.record, hcall, hactive, if_true, hwhole, Bool.false_eq_true,
      if_false, State.setReturn, State.wake, Function.update_self]
    rfl
  rw [heq] at hret
  rw [hcallret.map_eq hret]
  refine h.completed hsource _ _ _ hrun ?_ ?_
  · intro t ht _
    rw [hafter, Function.update_of_ne ht]
  · left
    rw [hafter, Function.update_of_ne (Ne.symm hne), ← hcur]
    exact hr.cur_runnable

/-- The method returns. -/
theorem Inv.reply (h : Inv cfg s) {r : Return} (hop : Permitted cfg s (.reply r))
    (hret : Returns (exec cfg (.reply r) s) s') : Inv cfg s' := by
  obtain ⟨hcur, hserving⟩ := hop
  have hat : InvAt cfg s true := hserving ▸ h
  obtain ⟨source, hcaller, hsource⟩ := hat.source rfl
  obtain ⟨q, hr⟩ := h.running
  obtain ⟨b, hcall⟩ := hat.inCall _ _ (Nat.le_refl _) hsource
  obtain ⟨hblocked, hne⟩ := hat.blocked _ _ (Nat.le_refl _) hsource
  have hr' : Running cfg.toConfig (s.sched.setState source .portalWaitForRetcopy) q :=
    hr.setState (ThreadState.ne_runnable_of_isBlocked hblocked) (by decide)
  obtain ⟨sched, q', hcallret, hrun, hafter⟩ := hr'.handoffToSender
    (show s.sched.curthr ≠ cfg.idle by rw [hcur]; exact h.receiver_ne)
    (show Function.update s.sched.state source .portalWaitForRetcopy source ≠ .runnable by
      rw [Function.update_self]; decide) s.waitingSenders.first.isSome
  have heq : exec cfg (.reply r) s = fun fuel => s.checkNotinServicequeue fuel s.sched.curthr >>=
      fun _ => (fun sched => s.completed sched r (Function.update s.portalReturn source r) none) <$>
        (s.sched.setState source .portalWaitForRetcopy).portalHandoffToSender cfg.toConfig fuel source
          s.waitingSenders.first.isSome := by
    funext fuel
    simp only [exec, hcaller, State.sendReply, State.record, hcall, State.setReturn, State.wake,
      State.withSched, Function.update_self]
    rfl
  rw [heq] at hret
  rw [hcallret.map_eq hret.of_bind]
  have hrec : sched.state cfg.receiver =
      if s.waitingSenders.first.isSome then .runnable else .portalWaitForSnd := by
    rw [hafter, Function.update_of_ne (Ne.symm hne), ← hcur]
    exact Function.update_self ..
  refine hat.completed hsource _ _ _ hrun ?_ ?_
  · intro t ht htrec
    rw [hafter, Function.update_of_ne ht, Function.update_of_ne (by rw [← hcur] at htrec; exact htrec)]
    exact Function.update_of_ne ht _ _
  · rw [hrec]
    cases hfirst : s.waitingSenders.first with
    | some t => exact Or.inl rfl
    | none => exact Or.inr ⟨rfl, h.queue.first_eq_none.1 hfirst⟩

/-- The receiver has taken the first sender out of the queue. -/
theorem Inv.takeUp (h : Inv cfg s) (hserving : s.serving = false)
    (hcur : s.sched.curthr = cfg.receiver) {source : Thread}
    (hfirst : s.waitingSenders.first = some source) :
    InvAt cfg (s.takeUp source) true ∧ s.enqueued[s.woken.length]? = some source := by
  have hlen : s.served.length = s.woken.length := by simpa [hserving] using h.woken_length
  obtain ⟨q, hr⟩ := h.running
  -- The head of the queue is the first call that is not served.
  obtain ⟨l, hl⟩ : ∃ l, s.enqueued.drop s.served.length = source :: l := by
    have hchain := h.queue.chain
    cases hdrop : s.enqueued.drop s.served.length with
    | nil =>
      rw [h.queue.first_eq_none.2 hdrop] at hfirst
      cases hfirst
    | cons t l =>
      rw [hdrop] at hchain
      exact ⟨l, by rw [Option.some.inj (hfirst.symm.trans hchain.1)]⟩
  have hsource : s.enqueued[s.served.length]? = some source := by
    rw [← Nat.add_zero s.served.length, ← List.getElem?_drop, hl]
    rfl
  have hlt : s.served.length < s.enqueued.length := (List.getElem?_eq_some_iff.1 hsource).1
  obtain ⟨b, hcall⟩ := h.inCall _ _ (Nat.le_of_eq hlen.symm) hsource
  obtain ⟨hblocked, hne⟩ := h.blocked _ _ (Nat.le_of_eq hlen.symm) hsource
  have hserved : (s.takeUp source).served = s.served ++ [s.served.length] := by
    simp [State.takeUp, hcall]
  have hlength : (s.takeUp source).served.length = s.served.length + 1 := by simp [hserved]
  have hstate : ∀ t, t ≠ source →
      (s.sched.setState source .portalWaitForParamcopy).state t = s.sched.state t :=
    fun t ht => Function.update_of_ne ht _ _
  refine ⟨{
    running := ⟨q, hr.setState (ThreadState.ne_runnable_of_isBlocked hblocked) (by decide)⟩
    receiver_ne := h.receiver_ne
    served_eq := ?_
    queue := ?_
    woken_eq := h.woken_eq
    woken_length := hlength.trans (by rw [hlen]; rfl)
    woken_le := by rw [hlength]; exact hlt
    result := h.result
    inCall := h.inCall
    blocked := ?_
    source := fun _ => ⟨source, rfl, hlen ▸ hsource⟩
    idle := nofun
    awake := ?_ }, hlen ▸ hsource⟩
  · rw [hlength, hserved, List.range_succ, ← h.served_eq]
  · show IsQueue _ _ (s.enqueued.drop (s.takeUp source).served.length)
    rw [hlength, ← List.drop_drop, hl]
    exact (SenderQueue.portalDequeueSender_eq (hl ▸ h.queue)).2
  · intro c t hc ht
    obtain ⟨hold, hrec⟩ := h.blocked c t hc ht
    refine ⟨?_, hrec⟩
    by_cases hts : t = source
    · rw [hts]
      show (Function.update s.sched.state source .portalWaitForParamcopy source).isBlocked = true
      rw [Function.update_self]
      rfl
    · show ((s.sched.setState source .portalWaitForParamcopy).state t).isBlocked = true
      rw [hstate t hts]
      exact hold
  · intro _
    show (s.sched.setState source .portalWaitForParamcopy).state cfg.receiver ≠ _
    rw [hstate _ (Ne.symm hne), ← hcur, hr.cur_runnable]
    decide

/-- The receiver goes on to call the method. -/
theorem InvAt.startExec (h : InvAt cfg s true) {source : Thread}
    (hsource : s.enqueued[s.woken.length]? = some source) : Inv cfg (s.startExec source) := by
  obtain ⟨q, hr⟩ := h.running
  obtain ⟨hblocked, hne⟩ := h.blocked _ _ (Nat.le_refl _) hsource
  have hset := h.withSched (hr.setState (ThreadState.ne_runnable_of_isBlocked hblocked)
    (show ThreadState.portalWaitForRet ≠ .runnable by decide)) (fun c t hc ht => ?_) nofun ?_
  · exact { hset with }
  · by_cases hts : t = source
    · rw [hts]
      show (Function.update s.sched.state source .portalWaitForRet source).isBlocked = true
      rw [Function.update_self]
      rfl
    · show (Function.update s.sched.state source .portalWaitForRet t).isBlocked = true
      rw [Function.update_of_ne hts]
      exact (h.blocked c t hc ht).1
  · intro _
    show Function.update s.sched.state source .portalWaitForRet cfg.receiver ≠ _
    rw [Function.update_of_ne (Ne.symm hne)]
    exact h.awake rfl

theorem Inv.receive (h : Inv cfg s) {fault : Option Fault} (hop : Permitted cfg s (.receive fault))
    (hcond : Delivers cfg s (.receive fault)) (hret : Returns (exec cfg (.receive fault) s) s') :
    Inv cfg s' := by
  obtain ⟨hcur, hserving⟩ := hop
  obtain ⟨q, hr⟩ := h.running
  cases hfirst : s.waitingSenders.first with
  | none =>
    -- The queue is empty, and the receiver goes to sleep.
    have hempty := h.queue.first_eq_none.1 hfirst
    obtain ⟨sched, q', hcallret, hrun, hafter⟩ := hr.block (by rw [hcur]; exact h.receiver_ne)
      (show ThreadState.portalWaitForSnd ≠ .runnable by decide)
    have heq : exec cfg (.receive fault) s = fun fuel =>
        (State.withSched { s with mostRecentlyCalledBy := none }) <$>
          s.sched.block cfg.toConfig fuel .portalWaitForSnd := by
      funext fuel
      simp only [exec, State.receivePortalcall, hfirst]
    rw [heq] at hret
    rw [hcallret.map_eq hret]
    have hat : InvAt cfg { s with mostRecentlyCalledBy := none } s.serving :=
      { h with source := fun hbusy => by rw [hserving] at hbusy; cases hbusy }
    refine hat.withSched hrun (fun c t hc ht => ?_) (fun _ => Or.inr ⟨?_, hempty⟩) ?_
    · rw [hafter, Function.update_of_ne (by rw [hcur]; exact (h.blocked c t hc ht).2)]
      exact (h.blocked c t hc ht).1
    · rw [hafter, hcur, Function.update_self]
    · intro hbusy
      rw [hserving] at hbusy
      cases hbusy
  | some source =>
    obtain ⟨htaken, hsource⟩ := h.takeUp hserving hcur hfirst
    have heq : exec cfg (.receive fault) s = fun fuel => s.serve cfg fuel source fault := by
      funext fuel
      simp only [exec, State.receivePortalcall, hfirst]
    rw [heq] at hret
    cases fault with
    | some f =>
      have hrest := Returns.of_bind (Returns.of_bind hret)
      exact htaken.throwException hcur hsource (hcond (by rw [hfirst]; nofun)) hrest
    | none =>
      have hrest := Returns.of_bind (Returns.of_bind (Returns.of_bind (Returns.of_bind hret)))
      rw [hrest.unique ⟨0, fun _ _ => rfl⟩]
      exact htaken.startExec hsource

/-! ## Everything else -/

/-- The rest of the kernel does not change the state of a thread inside the protocol. -/
theorem stateAfter_of_inside {op : Runq.Op} (hpermitted : Runq.Permitted cfg.toConfig s.sched op)
    (huntouched : Untouched cfg s op) {t : Thread} (hinside : Inside cfg s t)
    (hstate : (s.sched.state t).isBlocked = true ∨ s.sched.state t = .runnable) :
    stateAfter s.sched op t = s.sched.state t := by
  have hne : ∀ {x}, ¬ Inside cfg s x → t ≠ x := by
    rintro x hx rfl
    exact hx hinside
  -- A thread in another state than blocked or runnable is a different thread.
  have hfresh : ∀ {x st}, s.sched.state x = st → st.isBlocked = false → st ≠ .runnable → t ≠ x := by
    rintro x st hx hst hrun rfl
    rw [hx] at hstate
    rcases hstate with h | h
    · rw [hst] at h
      cases h
    · exact hrun h
  cases op with
  | createThread x st param =>
    exact Function.update_of_ne (hfresh hpermitted.1 rfl (by decide)) _ _
  | start x =>
    show (if s.sched.state x = .init then Function.update s.sched.state x .runnable
      else s.sched.state) t = _
    split
    · next hinit => exact Function.update_of_ne (hfresh hinit rfl (by decide)) _ _
    · rfl
  | unblock x => exact Function.update_of_ne (hne huntouched) _ _
  | yield => rfl
  | block st => exact Function.update_of_ne (hne huntouched.1) _ _
  | blockReturn => rfl
  | reschedule => rfl
  | handoffToReceiver x =>
    exact (Function.update_of_ne (hne huntouched.2) _ _).trans
      (Function.update_of_ne (hne huntouched.1) _ _)
  | handoffToSender x isRunnable =>
    exact (Function.update_of_ne (hne huntouched.2.2) _ _).trans
      (Function.update_of_ne (hne huntouched.1) _ _)
  | destroyHandoffToSender x => exact Function.update_of_ne (hne huntouched.2) _ _
  | activateInterrupt x => exact Function.update_of_ne (hfresh hpermitted rfl (by decide)) _ _
  | deactivateInterrupt x => exact Function.update_of_ne (hne huntouched) _ _
  | destroyCurrent => exact Function.update_of_ne (hne huntouched) _ _

theorem update_ne_portalWaitForSnd {state : Thread → ThreadState} {t x : Thread} {st : ThreadState}
    (hst : x = t → st ≠ .portalWaitForSnd) (ht : state t ≠ .portalWaitForSnd) :
    Function.update state x st t ≠ .portalWaitForSnd := by
  by_cases hx : t = x
  · subst hx
    rw [Function.update_self]
    exact hst rfl
  · rwa [Function.update_of_ne hx]

/-- While it serves a call the receiver does not wait for the next sender. -/
theorem stateAfter_ne_portalWaitForSnd {op : Runq.Op}
    (hpermitted : Runq.Permitted cfg.toConfig s.sched op) (huntouched : Untouched cfg s op)
    (hawake : s.sched.state cfg.receiver ≠ .portalWaitForSnd) :
    stateAfter s.sched op cfg.receiver ≠ .portalWaitForSnd := by
  cases op with
  | createThread x st param =>
    refine update_ne_portalWaitForSnd (fun _ => ?_) hawake
    rcases hpermitted.2 with ⟨-, rfl⟩ | ⟨-, rfl | rfl⟩ <;> decide
  | start x =>
    show (if s.sched.state x = .init then Function.update s.sched.state x .runnable
      else s.sched.state) cfg.receiver ≠ _
    split
    · exact update_ne_portalWaitForSnd (fun _ => by decide) hawake
    · exact hawake
  | unblock x => exact update_ne_portalWaitForSnd (fun _ => by decide) hawake
  | yield => exact hawake
  | block st => exact update_ne_portalWaitForSnd huntouched.2 hawake
  | blockReturn => exact hawake
  | reschedule => exact hawake
  | handoffToReceiver x =>
    exact update_ne_portalWaitForSnd (fun _ => by decide)
      (update_ne_portalWaitForSnd (fun _ => by decide) hawake)
  | handoffToSender x isRunnable =>
    exact update_ne_portalWaitForSnd (fun _ => by decide)
      (update_ne_portalWaitForSnd (fun h => absurd h huntouched.2.1) hawake)
  | destroyHandoffToSender x => exact update_ne_portalWaitForSnd (fun _ => by decide) hawake
  | activateInterrupt x => exact update_ne_portalWaitForSnd (fun _ => by decide) hawake
  | deactivateInterrupt x => exact update_ne_portalWaitForSnd (fun _ => by decide) hawake
  | destroyCurrent => exact update_ne_portalWaitForSnd (fun _ => by decide) hawake

theorem Inv.other (h : Inv cfg s) {op : Runq.Op} (hop : Permitted cfg s (.other op))
    (hret : Returns (exec cfg (.other op) s) s') : Inv cfg s' := by
  obtain ⟨hpermitted, huntouched⟩ := hop
  obtain ⟨q, hr⟩ := h.running
  obtain ⟨sched, q', hcallret, hrun, hafter⟩ := hr.exec hpermitted
  rw [hcallret.map_eq hret]
  refine h.withSched hrun ?_ ?_ ?_
  · intro c t hc ht
    obtain ⟨b, hb⟩ := h.inCall c t hc ht
    have hblocked := (h.blocked c t hc ht).1
    rw [hafter, stateAfter_of_inside hpermitted huntouched (Or.inl (by rw [hb]; nofun))
      (Or.inl hblocked)]
    exact hblocked
  · intro hfree
    have hidle := h.idle hfree
    rw [hafter, stateAfter_of_inside hpermitted huntouched (Or.inr ⟨rfl, hfree⟩) ?_]
    · exact hidle
    · rcases hidle with hrunnable | ⟨hwait, -⟩
      · exact Or.inr hrunnable
      · exact Or.inl (by rw [hwait]; rfl)
  · intro hbusy
    rw [hafter]
    exact stateAfter_ne_portalWaitForSnd hpermitted huntouched (h.awake hbusy)

/-! ## Every run -/

theorem inv_of_initial (h : Initial cfg s) : Inv cfg s := by
  obtain ⟨q, hr⟩ := h.sched.running
  show InvAt cfg s s.serving
  rw [h.serving]
  exact {
    running := ⟨q, hr⟩
    receiver_ne := h.receiver_ne
    served_eq := by rw [h.served]; rfl
    queue := by
      rw [h.waitingSenders, h.enqueued, List.drop_nil]
      exact IsQueue.nil_intro _
    woken_eq := by rw [h.woken]; rfl
    woken_length := by rw [h.served, h.woken]; rfl
    woken_le := by rw [h.served]; exact Nat.zero_le _
    result := by simp [h.woken]
    inCall := by simp [h.enqueued]
    blocked := by simp [h.enqueued]
    source := nofun
    idle := fun _ => Or.inl h.receiver_runnable
    awake := nofun }

/-- Every step keeps the invariant, provided that an exception it delivers arrives. -/
theorem Inv.exec (h : Inv cfg s) {op : Op} (hop : Permitted cfg s op) (hcond : Delivers cfg s op)
    (hret : Returns (exec cfg op s) s') : Inv cfg s' := by
  cases op with
  | send => exact h.send hop hret
  | receive fault => exact h.receive hop hcond hret
  | reply r => exact h.reply hop hret
  | fail f =>
    obtain ⟨hcur, hserving⟩ := hop
    have hat : InvAt cfg s true := hserving ▸ h
    obtain ⟨source, hcaller, hsource⟩ := hat.source rfl
    have heq : Portal.exec cfg (.fail f) s = fun fuel => s.throwException cfg fuel source f := by
      funext fuel
      simp only [Portal.exec, hcaller]
    rw [heq] at hret
    exact hat.throwException hcur hsource hcond hret
  | finish => exact h.finish hret
  | other op => exact h.other hop hret

theorem Reach.inv (h : Reach cfg (Delivers cfg) s) : Inv cfg s := by
  induction h with
  | init h => exact inv_of_initial h
  | step _ hop hcond hret ih => exact ih.exec hop hcond hret

/-- What clients and service may rely on, with `q` the run queues. -/
structure Sound (cfg : Config) (s : State) (q : Queues) : Prop where
  /-- Calls are served in the order of their numbers, which is that of `portal_add_sender`. -/
  order : s.served = (List.range s.enqueued.length).take s.served.length
  /-- The calls that are not yet served are the ones in the queue. -/
  waiting : IsQueue s.nextInDEPQueue s.waitingSenders (s.enqueued.drop s.served.length)
  /-- Senders are unblocked once, in the same order, when their call has been served. -/
  woken : s.woken.map Prod.fst = s.served.take s.woken.length
  /-- At most one call is being served. -/
  current : s.served.length ≤ s.woken.length + 1
  /-- At that moment `portalReturn` holds the result of the sender's own call. -/
  result : ∀ p ∈ s.woken, s.result p.1 = some p.2
  /-- Before it the sender neither runs nor is in a run queue. -/
  blocked : ∀ c t, s.enqueued[c]? = some t → c ∉ s.woken.map Prod.fst →
    s.sched.state t ≠ .runnable ∧ s.sched.curthr ≠ t ∧ ∀ d, t ∉ q.thr d
  /-- No lost wakeup. -/
  wakeup : s.sched.state cfg.receiver = .portalWaitForSnd → (∀ d, cfg.receiver ∉ q.thr d) →
    s.waitingSenders.first = none

theorem Inv.sound (h : Inv cfg s) {q : Queues} (hr : Running cfg.toConfig s.sched q) :
    Sound cfg s q where
  order := by
    rw [List.take_range, Nat.min_eq_left h.woken_le]
    exact h.served_eq
  waiting := h.queue
  woken := by
    have hlen := h.woken_length
    rw [h.woken_eq, h.served_eq, List.take_range, Nat.min_eq_left (by omega)]
  current := by
    have hlen := h.woken_length
    split at hlen <;> omega
  result := h.result
  blocked := by
    intro c t ht hc
    rw [h.woken_eq, List.mem_range] at hc
    have hblocked := ThreadState.ne_runnable_of_isBlocked (h.blocked c t (by omega) ht).1
    refine ⟨hblocked, ?_, fun d hd => hblocked (hr.runnable d t hd)⟩
    rintro rfl
    exact hblocked hr.cur_runnable
  wakeup := by
    intro hwait _
    have hfree : s.serving = false := by
      by_contra hbusy
      exact h.awake (by simpa using hbusy) hwait
    rcases h.idle hfree with hrunnable | ⟨-, hempty⟩
    · rw [hrunnable] at hwait
      cases hwait
    · exact h.queue.first_eq_none.2 hempty

/-- **Portal calls are served in order, once, and lose no wakeup** in every state of every run in
which each exception that is delivered arrives. -/
theorem sound_of_delivered_reach (h : Reach cfg (Delivers cfg) s) :
    ∃ q, Consistent cfg.toConfig s.sched q ∧ Sound cfg s q := by
  obtain ⟨q, hr⟩ := h.inv.running
  exact ⟨q, hr.consistent, h.inv.sound hr⟩

/-! ## One call

Thread 1 of domain 1 is the client, thread 2 of domain 2 the receiver. -/

def oneService : Config where
  idle := 0
  domainZero := 0
  domains := [0, 1, 2]
  receiver := 2
  nullDomainActive := false

def oneServiceSched : Sched where
  domain := fun t => t
  state := fun t => if t ≤ 1 then .runnable else .unborn
  threadNext := fun _ => none
  threadQueue := fun _ => ⟨none, none⟩
  domainNext := fun _ => none
  domainRunqueue := ⟨none, none⟩
  curthr := 1
  interrupted := []

def oneServiceStart (sched : Sched) : State where
  sched := sched
  nextInDEPQueue := fun _ => none
  waitingSenders := ⟨none, none⟩
  mostRecentlyCalledBy := none
  callerDomain := none
  serving := false
  inCall := fun _ => none
  portalReturn := fun _ => ⟨0, 0⟩
  enqueued := []
  served := []
  result := fun _ => none
  woken := []

/-- The receiver has been created. -/
def oneServiceCreated : Sched :=
  { oneServiceSched with
    state := Function.update oneServiceSched.state 2 .runnable
    threadQueue := Function.update oneServiceSched.threadQueue 2 ⟨some 2, some 2⟩
    threadNext := Function.update (Function.update oneServiceSched.threadNext 2 none) 2 none
    domainNext := Function.update oneServiceSched.domainNext 2 none
    domainRunqueue := ⟨some 2, some 2⟩ }

/-- The client has called and waits, the receiver runs. -/
def oneServiceSent : Sched :=
  { oneServiceCreated with
    state := Function.update (Function.update oneServiceCreated.state 1 .portalWaitForRcv) 2 .runnable
    threadQueue := Function.update oneServiceCreated.threadQueue 2 ⟨none, none⟩
    threadNext := Function.update oneServiceCreated.threadNext 2 none
    domainNext := Function.update oneServiceCreated.domainNext 2 none
    domainRunqueue := ⟨none, none⟩
    curthr := 2 }

/-- The receiver runs the method for the client. -/
def oneServiceServing : State :=
  ((((oneServiceStart oneServiceCreated).sending true).withSched oneServiceSent).takeUp 1).startExec 1

theorem reach_oneServiceServing (cond : State → Op → Prop) (hsend : ∀ s, cond s .send)
    (hreceive : ∀ s, cond s (.receive none)) : Reach oneService cond oneServiceServing := by
  have h₀ : Runq.Reach oneService.toConfig oneServiceSched := by
    refine Runq.Reach.init ⟨rfl, fun _ => rfl, rfl, rfl, fun t => ?_⟩
    show (if t ≤ 1 then ThreadState.runnable else .unborn) = .runnable ↔ t = 1 ∨ t = 0
    rw [or_comm, ← Nat.le_one_iff_eq_zero_or_eq_one]
    by_cases ht : t ≤ 1 <;> simp [ht]
  have h₁ : Runq.Reach oneService.toConfig oneServiceCreated := h₀.step
    (show Runq.Permitted _ _ (.createThread 2 .runnable .default) from ⟨rfl, Or.inl ⟨rfl, rfl⟩⟩)
    ⟨2, fun fuel hfuel => by
      obtain ⟨k, rfl⟩ := Nat.exists_eq_add_of_le' hfuel
      rfl⟩
  have h₂ : Reach oneService cond (oneServiceStart oneServiceCreated) :=
    Reach.init ⟨h₁, by decide, rfl, rfl, rfl, rfl, fun _ => rfl, rfl, rfl, rfl⟩
  have h₃ : Reach oneService cond
      (((oneServiceStart oneServiceCreated).sending true).withSched oneServiceSent) :=
    h₂.step (show Permitted _ _ .send from ⟨by decide, by decide, rfl⟩) (hsend _)
    ⟨8, fun fuel hfuel => by
      obtain ⟨k, rfl⟩ := Nat.exists_eq_add_of_le' hfuel
      rfl⟩
  exact h₃.step (show Permitted _ _ (.receive none) from ⟨rfl, rfl⟩) (hreceive _)
    ⟨8, fun fuel hfuel => by
      obtain ⟨k, rfl⟩ := Nat.exists_eq_add_of_le' hfuel
      rfl⟩

/-- The call has been answered: the receiver sleeps, the client runs. -/
def oneServiceReplied : Sched :=
  let s := oneServiceServing.sched
  { s with
    state := Function.update (Function.update (Function.update (Function.update s.state 1
      .portalWaitForRetcopy) 2 .portalWaitForSnd) 1 .runnable) 1 .runnable
    threadQueue := Function.update (Function.update s.threadQueue 1 ⟨some 1, some 1⟩) 1 ⟨none, none⟩
    threadNext := Function.update (Function.update s.threadNext 1 none) 1 none
    domainNext := Function.update (Function.update s.domainNext 1 none) 1 none
    curthr := 1 }

theorem sound_after_reply : ∃ s, Reach oneService (Delivers oneService) s ∧
    s.woken = [(0, ⟨0, 42⟩)] ∧ s.sched.curthr = 1 ∧
    ∃ q, Consistent oneService.toConfig s.sched q ∧ Sound oneService s q := by
  have h := (reach_oneServiceServing (Delivers oneService) (fun _ => trivial) fun _ => trivial).step
    (show Permitted _ _ (.reply ⟨0, 42⟩) from ⟨rfl, rfl⟩) trivial
    (show Returns _ (oneServiceServing.completed oneServiceReplied ⟨0, 42⟩
      (Function.update oneServiceServing.portalReturn 1 ⟨0, 42⟩) none) from
      ⟨8, fun fuel hfuel => by
        obtain ⟨k, rfl⟩ := Nat.exists_eq_add_of_le' hfuel
        rfl⟩)
  exact ⟨_, h, rfl, rfl, sound_of_delivered_reach h⟩

/-- The method has thrown: the receiver starts over, the client runs. -/
def oneServiceFailed : Sched :=
  let s := oneServiceServing.sched
  { s with
    state := Function.update (Function.update s.state 1 .runnable) 1 .runnable
    threadQueue := Function.update (Function.update (Function.update s.threadQueue 2
      ⟨some 2, some 2⟩) 1 ⟨some 1, some 1⟩) 1 ⟨none, none⟩
    threadNext := Function.update (Function.update (Function.update s.threadNext 2 none) 1 none) 1
      none
    domainNext := Function.update (Function.update (Function.update s.domainNext 1 none) 1 none) 2
      none
    domainRunqueue := ⟨some 2, some 2⟩
    curthr := 1 }

/-- A collection in the client's domain interrupts the copying of the exception: the client is
unblocked with the restart marker in `portalReturn`. -/
theorem not_sound_of_interrupted_fault :
    ¬ ∀ s, Reach oneService (fun _ _ => True) s → ∃ q, Sound oneService s q := by
  intro hsound
  have h := (reach_oneServiceServing (fun _ _ => True) (fun _ => trivial) fun _ => trivial).step
    (show Permitted _ _ (.fail ⟨5, true⟩) from ⟨rfl, rfl⟩) trivial
    (show Returns _ { oneServiceServing with
        sched := oneServiceFailed
        serving := false
        portalReturn := Function.update oneServiceServing.portalReturn 1 ⟨3, 0xffffffff⟩
        result := Function.update oneServiceServing.result 0 (some ⟨3, 5⟩)
        woken := [(0, ⟨3, 0xffffffff⟩)] } from
      ⟨8, fun fuel hfuel => by
        obtain ⟨k, rfl⟩ := Nat.exists_eq_add_of_le' hfuel
        rfl⟩)
  obtain ⟨q, hq⟩ := hsound _ h
  have hresult := hq.result (0, ⟨3, 0xffffffff⟩) (List.mem_singleton.2 rfl)
  exact absurd hresult (by decide)

end JxCore.Portal
