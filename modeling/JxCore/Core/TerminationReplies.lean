import JxCore.Core.TerminationLoops

/-!
# Replies to the calls of one service while client domains terminate

A client domain may be terminated at any time, also while the service executes a call of one of its
threads. The calls of the other clients are to be answered all the same, each once, and the threads of
the terminated domain to be left alone. As a termination stops the machine, whoever has not got his
answer by then gets none.
-/

namespace JxCore.Termination

open Lib Exec Runq
open Portal (Return returnTypeException)
open Service (Entry)

/-- The machine runs, or a routine has stopped it. -/
inductive Machine where
  | running (s : Sys)
  | halted (s : Sys)

/-- Calls, threads and services, whether the machine runs or not. -/
def Machine.sys : Machine → Sys
  | running s => s
  | halted s => s

/-- A step of the service without an exception. -/
def ServiceStep (cfg : Config) (m n : Machine) : Prop :=
  ∃ s t, m = .running s ∧ n = .running t ∧
    ∃ e, (e = .receive none ∨ ∃ ret, e = .reply ret) ∧ Enabled cfg s e ∧ Returns (exec cfg e s) t

/-- No call gets two replies; a call whose caller's domain is active has one, or gets one as the
service goes on; and no thread is written to or unblocked that is gone. -/
structure Answered (cfg : Config) (m : Machine) : Prop where
  once : m.sys.replies.Nodup
  all : ∀ c t, m.sys.calls[c]? = some t → m.sys.here t = true →
    ∃ n, Relation.ReflTransGen (ServiceStep cfg) m n ∧ c ∈ n.sys.replies
  quiet : m.sys.wild = []

/-- A client domain is terminated when all calls of the other domains are answered; copying parameters
raises no exception while the last caller's domain is gone. -/
def Spared (cfg : Config) (s : Sys) : Event → Prop
  | .terminate d => ∀ c t, s.calls[c]? = some t → s.here t = true → s.domain t ≠ d → c ∈ s.replies
  | .receive (some _) => callerDisappeared cfg.null s (s.receiver cfg.svc) = false
  | _ => True

/-- What a routine has done before anything in it can stop: `terminateDomain` has left the domain
without services. -/
def begun (s : Sys) : Event → Sys
  | .terminate d => deactivateServices s d
  | _ => s

/-- A step whose event meets a condition. -/
inductive StepIf (cfg : Config) (P : Sys → Event → Prop) : Machine → Machine → Prop
  | done {s t : Sys} {e : Event} (he : Enabled cfg s e) (hP : P s e) (hret : Returns (exec cfg e s) t) :
      StepIf cfg P (.running s) (.running t)
  | halt {s : Sys} {e : Event} (he : Enabled cfg s e) (hP : P s e) (hstop : Stops (exec cfg e s)) :
      StepIf cfg P (.running s) (.halted (begun s e))

/-- A step. -/
abbrev Step (cfg : Config) : Machine → Machine → Prop := StepIf cfg fun _ _ => True

/-- A step that meets the condition. -/
abbrev SparedStep (cfg : Config) : Machine → Machine → Prop := StepIf cfg (Spared cfg)

/-- The service as it is created: its thread is runnable, and nobody has called. -/
structure Initial (cfg : Config) (s : Sys) : Prop where
  entry : s.services cfg.server cfg.index = .dep cfg.svc
  reserved : ∀ d, s.active d = true → s.services d 0 = .changing
  server : s.active cfg.server = true
  receiver : s.domain (s.receiver cfg.svc) = cfg.server ∧ s.Lives (s.receiver cfg.svc) ∧
    s.state (s.receiver cfg.svc) = .runnable
  threads : ∀ d t, t ∈ s.threads d ↔ s.Lives t ∧ s.domain t = d
  threads_nodup : ∀ d, (s.threads d).Nodup
  active : ∀ t, s.Lives t → s.active (s.domain t) = true
  unborn : ∀ t, s.state t = .unborn → s.freed t = false
  waiting : ∀ k, s.waiting k = ⟨none, none⟩
  inCall : ∀ t, s.inCall t = none
  blockedInDomain : ∀ t, s.blockedInDomain t = none
  mostRecentlyCalledBy : ∀ t, s.mostRecentlyCalledBy t = .nobody
  serving : s.serving cfg.svc = false
  abortFlag : s.abortFlag cfg.svc = false
  calls : s.calls = []
  replies : s.replies = []
  wild : s.wild = []

/-- Domains and threads, and the place of the service. -/
structure Layout (cfg : Config) (s : Sys) : Prop where
  entry : s.services cfg.server cfg.index = .dep cfg.svc
  reserved : ∀ d, s.active d = true → s.services d 0 = .changing
  server : s.active cfg.server = true
  receiver : s.domain (s.receiver cfg.svc) = cfg.server
  receiver_lives : s.Lives (s.receiver cfg.svc)
  threads : ∀ d t, t ∈ s.threads d ↔ s.Lives t ∧ s.domain t = d
  threads_nodup : ∀ d, (s.threads d).Nodup
  active : ∀ t, s.Lives t → s.active (s.domain t) = true
  unborn : ∀ t, s.state t = .unborn → s.freed t = false

/-- Where the call `c` of a thread is: in the queue `l`, with the service, or answered. -/
inductive Stage (cfg : Config) (s : Sys) (l : List Thread) (t : Thread) (c : Nat) : Prop where
  | waiting (hmem : t ∈ l)
      (hstate : s.state t = .portalWaitForRcv ∨ s.state t = .portalWaitForRet)
      (hopen : c ∉ s.replies)
  | served (hserving : s.serving cfg.svc = true)
      (hcaller : s.mostRecentlyCalledBy (s.receiver cfg.svc) = .thread t)
      (hstate : s.state t = .portalWaitForRet) (hopen : c ∉ s.replies)
  | answered (hstate : s.state t = .runnable) (hdone : c ∈ s.replies)

/-- What the steps of the service and of its clients keep true; `l` are the waiting senders. -/
structure Served (cfg : Config) (s : Sys) (l : List Thread) : Prop extends Layout cfg s where
  queue : IsQueue s.nextInDEPQueue (s.waiting cfg.svc) l
  others : ∀ j, j ≠ cfg.svc → s.waiting j = ⟨none, none⟩
  calling : ∀ t c, s.Lives t → s.inCall t = some c → s.calls[c]? = some t ∧
    s.blockedInDomain t = some cfg.server ∧ s.blockedInServiceIndex t = cfg.index ∧
    s.domain t ≠ cfg.server ∧ Stage cfg s l t c
  idle : ∀ t, s.Lives t → s.inCall t = none → s.blockedInDomain t = none
  queued : ∀ t ∈ l, s.Lives t ∧ s.inCall t ≠ none ∧
    (s.state t = .portalWaitForRcv ∨ s.state t = .portalWaitForRet)
  current : s.serving cfg.svc = true → ∃ source,
    s.mostRecentlyCalledBy (s.receiver cfg.svc) = .thread source ∧ s.Lives source ∧
      s.inCall source ≠ none ∧ source ∉ l ∧ s.state source = .portalWaitForRet ∧
      s.callerDomain (s.receiver cfg.svc) = some (s.domain source) ∧
      s.callerDomainID (s.receiver cfg.svc) = s.id (s.domain source)
  callers : ∀ t, t ≠ s.receiver cfg.svc → s.mostRecentlyCalledBy t = .nobody
  foreign : ∀ source, s.mostRecentlyCalledBy (s.receiver cfg.svc) = .thread source →
    s.domain source ≠ cfg.server ∧ s.state source ≠ .unborn
  regular : s.mostRecentlyCalledBy (s.receiver cfg.svc) ≠ .irq
  made : ∀ c t, s.calls[c]? = some t → s.state t ≠ .unborn ∧
    (s.freed t = false → c ∈ s.replies ∨ s.inCall t = some c)
  replies_nodup : s.replies.Nodup
  replies_lt : ∀ c ∈ s.replies, c < s.calls.length
  abort : s.abortFlag cfg.svc = false
  quiet : s.wild = []
  waits : s.serving cfg.svc = false → s.state (s.receiver cfg.svc) = .runnable ∨
    s.state (s.receiver cfg.svc) = .portalWaitForSnd ∧ l = []

section Steps

variable {cfg : Config} {s s' : Sys} {l : List Thread} {t : Thread}

theorem Initial.served (h : Initial cfg s) : Served cfg s [] where
  entry := h.entry
  reserved := h.reserved
  server := h.server
  receiver := h.receiver.1
  receiver_lives := h.receiver.2.1
  threads := h.threads
  threads_nodup := h.threads_nodup
  active := h.active
  unborn := h.unborn
  queue := h.waiting cfg.svc ▸ .nil_intro _
  others := fun j _ => h.waiting j
  calling := fun t c _ hc => nomatch (h.inCall t).symm.trans hc
  idle := fun t _ _ => h.blockedInDomain t
  queued := nofun
  current := fun hserving => nomatch hserving.symm.trans h.serving
  callers := fun t _ => h.mostRecentlyCalledBy t
  foreign := fun source hs => nomatch (h.mostRecentlyCalledBy _).symm.trans hs
  regular := fun hs => nomatch (h.mostRecentlyCalledBy _).symm.trans hs
  made := fun c t hc => by simp [h.calls] at hc
  replies_nodup := by simp [h.replies]
  replies_lt := by simp [h.replies]
  abort := h.abortFlag
  quiet := h.wild
  waits := fun _ => .inl h.receiver.2.2

/-- A step of the protocol leaves domains and threads alone. -/
theorem Layout.congr (h : Layout cfg s) (hservices : s'.services = s.services)
    (hactive : s'.active = s.active) (hthreads : s'.threads = s.threads)
    (hdomain : s'.domain = s.domain) (hfreed : s'.freed = s.freed)
    (hreceiver : s'.receiver = s.receiver)
    (hborn : ∀ t, s'.state t = .unborn ↔ s.state t = .unborn) : Layout cfg s' := by
  have hlives : ∀ t, s'.Lives t ↔ s.Lives t := by
    intro t
    unfold Sys.Lives
    rw [hfreed, Ne, Ne, hborn]
  constructor
  · rw [hservices]; exact h.entry
  · rw [hactive, hservices]; exact h.reserved
  · rw [hactive]; exact h.server
  · rw [hdomain, hreceiver]; exact h.receiver
  · rw [hreceiver, hlives]; exact h.receiver_lives
  · intro d t
    rw [hthreads, hlives, hdomain]
    exact h.threads d t
  · rw [hthreads]; exact h.threads_nodup
  · intro t ht
    rw [hactive, hdomain]
    exact h.active t ((hlives t).mp ht)
  · intro t ht
    rw [hfreed]
    exact h.unborn t ((hborn t).mp ht)

theorem here_iff : s.here t = true ↔ s.freed t = false ∧ s.active (s.domain t) = true := by
  unfold Sys.here
  rw [Bool.and_eq_true, Bool.not_eq_true']

theorem Layout.here (h : Layout cfg s) (ht : s.Lives t) : s.here t = true :=
  here_iff.mpr ⟨ht.1, h.active t ht⟩

theorem touch_of_here (h : s.here t = true) : s.touch t = s := if_pos h

theorem threadunblock_of_here (h : s.here t = true) :
    s.threadunblock t = s.setState t .runnable := by
  unfold Sys.threadunblock
  rw [touch_of_here h]

theorem Served.receiver_idle (h : Served cfg s l) : s.inCall (s.receiver cfg.svc) = none := by
  by_contra hc
  obtain ⟨c, hc⟩ := Option.ne_none_iff_exists'.mp hc
  exact (h.calling _ c h.receiver_lives hc).2.2.2.1 h.receiver

/-- A queued thread is not the receiver. -/
theorem Served.ne_receiver (h : Served cfg s l) (ht : s.domain t ≠ cfg.server) :
    t ≠ s.receiver cfg.svc := fun heq => ht (heq ▸ h.receiver)

theorem portalAddSender_eq {k : Nat}
    (hlast : ∀ y, (s.waiting k).last = some y → s.here y = true) :
    portalAddSender s k t = s.setQueue k (append s.nextInDEPQueue (s.waiting k) t).1
      (append s.nextInDEPQueue (s.waiting k) t).2 := by
  unfold portalAddSender
  cases hy : (s.waiting k).last with
  | none => rfl
  | some y =>
    simp only [touch_of_here (hlast y hy)]
    rfl

/-- The end of `direct_send_portal`: the sender waits for a receiver that is busy, or is handed off to
one that waits. -/
theorem handoff_eq {k : Nat} (hreceiver : s.here (s.receiver k) = true) (hne : t ≠ s.receiver k) :
    ∃ st, (if s.state (s.receiver k) ≠ .portalWaitForSnd then s.setState t .portalWaitForRcv
        else (s.setState t .portalWaitForRet).threadunblock (s.receiver k)) =
        { s with state := st } ∧
      (∀ q, q ≠ t → q ≠ s.receiver k → st q = s.state q) ∧
      (st t = .portalWaitForRcv ∨ st t = .portalWaitForRet) ∧
      (st (s.receiver k) = s.state (s.receiver k) ∧ s.state (s.receiver k) ≠ .portalWaitForSnd ∨
        st (s.receiver k) = .runnable) := by
  by_cases hsnd : s.state (s.receiver k) = .portalWaitForSnd
  · rw [if_neg (not_not.mpr hsnd),
      threadunblock_of_here (show (s.setState t _).here _ = true from hreceiver)]
    refine ⟨_, rfl, fun q hq hr => ?_, .inr ?_, .inr ?_⟩
    · exact (Function.update_of_ne hr _ _).trans (Function.update_of_ne hq _ _)
    · exact (Function.update_of_ne hne _ _).trans (Function.update_self ..)
    · exact Function.update_self ..
  · rw [if_pos hsnd]
    refine ⟨_, rfl, fun q hq hr => ?_, .inl ?_, .inl ⟨?_, hsnd⟩⟩
    · exact Function.update_of_ne hq _ _
    · exact Function.update_self ..
    · exact Function.update_of_ne (Ne.symm hne) _ _

/-- The state after a call: the thread is the last in the queue and waits, and the receiver does not
wait for a sender any more. -/
theorem directSendPortal_eq (h : Served cfg s l) (ht : s.domain t ≠ cfg.server) :
    ∃ st, directSendPortal s t cfg.server cfg.index cfg.svc =
        { (s.enterCall t cfg.server cfg.index).setQueue cfg.svc
          (append s.nextInDEPQueue (s.waiting cfg.svc) t).1
          (append s.nextInDEPQueue (s.waiting cfg.svc) t).2 with state := st } ∧
      (∀ q, q ≠ t → q ≠ s.receiver cfg.svc → st q = s.state q) ∧
      (st t = .portalWaitForRcv ∨ st t = .portalWaitForRet) ∧
      (st (s.receiver cfg.svc) = s.state (s.receiver cfg.svc) ∧
          s.state (s.receiver cfg.svc) ≠ .portalWaitForSnd ∨
        st (s.receiver cfg.svc) = .runnable) := by
  have hlast : ∀ y, ((s.enterCall t cfg.server cfg.index).waiting cfg.svc).last = some y →
      (s.enterCall t cfg.server cfg.index).here y = true := by
    intro y hy
    have hy' : l.getLast? = some y := h.queue.last.symm.trans hy
    exact h.here (h.queued y (List.mem_of_getLast? hy')).1
  unfold directSendPortal
  rw [portalAddSender_eq hlast]
  exact handoff_eq (h.here h.receiver_lives) (h.ne_receiver ht)

/-- A call stays where it is while its thread and the service are not concerned. -/
theorem Stage.mono {l' : List Thread} {c : Nat} (h : Stage cfg s l t c) (hl : t ∈ l → t ∈ l')
    (hstate : s'.state t = s.state t)
    (hserved : s.serving cfg.svc = true → s.mostRecentlyCalledBy (s.receiver cfg.svc) = .thread t →
      s'.serving cfg.svc = true ∧ s'.mostRecentlyCalledBy (s'.receiver cfg.svc) = .thread t)
    (hreplies : c ∈ s'.replies ↔ c ∈ s.replies) : Stage cfg s' l' t c := by
  cases h with
  | waiting hmem hst hopen => exact .waiting (hl hmem) (hstate ▸ hst) (mt hreplies.mp hopen)
  | served hserving hcaller hst hopen =>
    obtain ⟨hserving', hcaller'⟩ := hserved hserving hcaller
    exact .served hserving' hcaller' (hstate.trans hst) (mt hreplies.mp hopen)
  | answered hst hdone => exact .answered (hstate.trans hst) (hreplies.mpr hdone)

theorem Served.call (h : Served cfg s l) (he : Enabled cfg s (.call t)) :
    Served cfg (directSendPortal s t cfg.server cfg.index cfg.svc) (l ++ [t]) := by
  obtain ⟨hlives, hrun, hidle, hforeign⟩ := he
  obtain ⟨st, heq, hst, hwait, hreceiver⟩ := directSendPortal_eq h hforeign
  rw [heq]
  have hnew : t ∉ l := fun hmem => (h.queued t hmem).2.1 hidle
  have hin : Function.update s.inCall t (some s.calls.length) t = some s.calls.length :=
    Function.update_self ..
  have hin' : ∀ q, q ≠ t → Function.update s.inCall t (some s.calls.length) q = s.inCall q :=
    fun q hq => Function.update_of_ne hq _ _
  -- a thread in a call is neither the caller nor the receiver
  have hkeep : ∀ q, s.inCall q ≠ none → q ≠ t ∧ st q = s.state q := by
    intro q hq
    have hqt : q ≠ t := fun hqt => hq (hqt ▸ hidle)
    exact ⟨hqt, hst q hqt fun hqr => hq (hqr ▸ h.receiver_idle)⟩
  have hborn : ∀ q, st q = .unborn ↔ s.state q = .unborn := by
    intro q
    by_cases hqt : q = t
    · subst hqt
      rcases hwait with hw | hw <;> simp [hw, hrun]
    · by_cases hqr : q = s.receiver cfg.svc
      · subst hqr
        rcases hreceiver with hr | hr
        · rw [hr.1]
        · simp [hr, h.receiver_lives.2]
      · rw [hst q hqt hqr]
  refine {
    toLayout := h.toLayout.congr rfl rfl rfl rfl rfl rfl hborn, queue := ?_, others := ?_,
    calling := ?_, idle := ?_, queued := ?_, current := ?_, callers := h.callers, foreign := ?_,
    regular := h.regular, made := ?_, replies_nodup := h.replies_nodup, replies_lt := ?_,
    abort := h.abort, quiet := h.quiet, waits := ?_ }
  · show IsQueue _ (Function.update s.waiting cfg.svc _ cfg.svc) _
    rw [Function.update_self]
    exact isQueue_append h.queue hnew
  · intro j hj
    exact (Function.update_of_ne hj _ _).trans (h.others j hj)
  · intro q c hq hc
    by_cases hqt : q = t
    · subst hqt
      obtain rfl : s.calls.length = c := Option.some.inj (hin.symm.trans hc)
      refine ⟨List.getElem?_concat_length, Function.update_self .., Function.update_self .., hforeign,
        .waiting (by simp) hwait fun hdone => ?_⟩
      exact absurd (h.replies_lt _ hdone) (Nat.lt_irrefl _)
    · replace hc : s.inCall q = some c := (hin' q hqt).symm.trans hc
      have hq' : s.Lives q := ⟨hq.1, mt (hborn q).mpr hq.2⟩
      obtain ⟨hcall, hdomain, hindex, hserver, hstage⟩ := h.calling q c hq' hc
      refine ⟨?_, (Function.update_of_ne hqt _ _).trans hdomain,
        (Function.update_of_ne hqt _ _).trans hindex, hserver, ?_⟩
      · exact (List.getElem?_append_left (List.getElem?_eq_some_iff.mp hcall).1).trans hcall
      · exact hstage.mono (List.mem_append_left _) (hkeep q (by simp [hc])).2 (fun a b => ⟨a, b⟩) Iff.rfl
  · intro q hq hc
    have hqt : q ≠ t := by
      rintro rfl
      exact nomatch hin.symm.trans hc
    exact (Function.update_of_ne hqt _ _).trans
      (h.idle q ⟨hq.1, mt (hborn q).mpr hq.2⟩ ((hin' q hqt).symm.trans hc))
  · intro q hq
    rcases List.mem_append.mp hq with hq | hq
    · obtain ⟨hql, hqc, hqs⟩ := h.queued q hq
      obtain ⟨hqt, hsame⟩ := hkeep q hqc
      exact ⟨⟨hql.1, mt (hborn q).mp hql.2⟩, fun hn => hqc ((hin' q hqt).symm.trans hn),
        hqs.imp hsame.trans hsame.trans⟩
    · obtain rfl : q = t := by simpa using hq
      refine ⟨⟨hlives.1, mt (hborn q).mp hlives.2⟩, fun hn => ?_, hwait⟩
      exact nomatch hin.symm.trans hn
  · intro hserving
    obtain ⟨source, hcaller, hsl, hsc, hmem, hss, hcd⟩ := h.current hserving
    obtain ⟨hst', hsame⟩ := hkeep source hsc
    refine ⟨source, hcaller, ⟨hsl.1, mt (hborn source).mp hsl.2⟩,
      fun hn => hsc ((hin' source hst').symm.trans hn), ?_, hsame.trans hss, hcd⟩
    simp [hmem, hst']
  · intro source hs
    exact (h.foreign source hs).imp id (mt (hborn source).mp)
  · intro c q hc
    by_cases hlt : c < s.calls.length
    · obtain ⟨hu, hm⟩ := h.made c q ((List.getElem?_append_left hlt).symm.trans hc)
      refine ⟨mt (hborn q).mp hu, fun hf => (hm hf).imp_right fun hqc => ?_⟩
      exact (hin' q (hkeep q (by simp [hqc])).1).trans hqc
    · have hlen := (List.getElem?_eq_some_iff.mp hc).1
      obtain rfl : c = s.calls.length := by
        simp only [Sys.setQueue, Sys.enterCall, List.length_append, List.length_singleton] at hlen
        omega
      obtain rfl : t = q := Option.some.inj (List.getElem?_concat_length.symm.trans hc)
      exact ⟨mt (hborn t).mp hlives.2, fun _ => .inr hin⟩
  · intro c hc
    simpa [Sys.setQueue, Sys.enterCall] using Nat.lt_succ_of_lt (h.replies_lt c hc)
  · intro hserving
    rcases hreceiver with ⟨hsame, hne⟩ | hrun
    · rcases h.waits hserving with hw | hw
      · exact .inl (hsame.trans hw)
      · exact absurd hw.1 hne
    · exact .inl hrun

/-- The receiver takes the first sender out of the queue and starts to serve it. -/
def Sys.started (s : Sys) (k : Nat) (source : Thread) : Sys :=
  { s with
    nextInDEPQueue := Function.update s.nextInDEPQueue source none
    waiting := Function.update s.waiting k ⟨s.nextInDEPQueue source,
      if s.nextInDEPQueue source = none then none else (s.waiting k).last⟩
    state := Function.update s.state source .portalWaitForRet
    mostRecentlyCalledBy := Function.update s.mostRecentlyCalledBy (s.receiver k) (.thread source)
    callerDomain := Function.update s.callerDomain (s.receiver k) (some (s.domain source))
    callerDomainID := Function.update s.callerDomainID (s.receiver k) (s.id (s.domain source))
    serving := Function.update s.serving k true }

theorem takeUp_eq {k : Nat} {source : Thread} (hfirst : (s.waiting k).first = some source)
    (hsource : s.freed source = false) (hactive : s.active (s.domain source) = true) :
    takeUp s k source = { s with
      nextInDEPQueue := Function.update s.nextInDEPQueue source none
      waiting := Function.update s.waiting k ⟨s.nextInDEPQueue source,
        if s.nextInDEPQueue source = none then none else (s.waiting k).last⟩
      state := Function.update s.state source .portalWaitForParamcopy
      mostRecentlyCalledBy :=
        Function.update s.mostRecentlyCalledBy (s.receiver k) (.thread source) } := by
  have hsvc : (s.svc k).waitingSenders.first = some source := hfirst
  unfold takeUp SenderQueue.DEPDesc.portalDequeueSender
  rw [touch_of_here (here_iff.mpr ⟨hsource, hactive⟩), hsvc]
  rfl

theorem receivePortalcall_none {null : Bool} {k : Nat} {source : Thread}
    (hfirst : (s.waiting k).first = some source) (hsource : s.here source = true) :
    receivePortalcall null s k none = s.started k source := by
  obtain ⟨hfreed, hactive⟩ := here_iff.mp hsource
  unfold receivePortalcall
  simp only [hfirst, takeUp_eq, hfreed, hactive, startExec, Sys.setState, Function.update_idem,
    Sys.started]

/-- The first sender is served. -/
theorem Served.start {source : Thread} (h : Served cfg s (source :: l))
    (hserving : s.serving cfg.svc = false) : Served cfg (s.started cfg.svc source) l := by
  obtain ⟨hlives, hcall, hwait⟩ := h.queued source List.mem_cons_self
  have hnew : source ∉ l := (List.nodup_cons.mp h.queue.nodup).1
  have hret : (s.started cfg.svc source).state source = .portalWaitForRet := Function.update_self ..
  have hsame : ∀ q, q ≠ source → (s.started cfg.svc source).state q = s.state q :=
    fun q hq => Function.update_of_ne hq _ _
  have hcaller : (s.started cfg.svc source).mostRecentlyCalledBy (s.receiver cfg.svc) =
    .thread source := Function.update_self ..
  have hserves : (s.started cfg.svc source).serving cfg.svc = true := Function.update_self ..
  have hborn : ∀ q, (s.started cfg.svc source).state q = .unborn ↔ s.state q = .unborn := by
    intro q
    by_cases hq : q = source
    · subst hq
      simp [hret, hlives.2]
    · rw [hsame q hq]
  have hborn' : ∀ q, (s.started cfg.svc source).Lives q ↔ s.Lives q :=
    fun q => and_congr_right fun _ => not_congr (hborn q)
  refine {
    toLayout := h.toLayout.congr rfl rfl rfl rfl rfl rfl hborn, queue := ?_, others := ?_,
    calling := ?_, idle := fun q hq => h.idle q ((hborn' q).mp hq), queued := ?_, current := ?_,
    callers := ?_, foreign := ?_, regular := ?_, made := ?_, replies_nodup := h.replies_nodup,
    replies_lt := h.replies_lt, abort := h.abort, quiet := h.quiet,
    waits := fun hs => nomatch hs.symm.trans hserves }
  · show IsQueue _ (Function.update s.waiting cfg.svc _ cfg.svc) _
    rw [Function.update_self]
    exact h.queue.tail
  · intro j hj
    exact (Function.update_of_ne hj _ _).trans (h.others j hj)
  · intro q c hq hc
    obtain ⟨hmade, hdomain, hindex, hserver, hstage⟩ := h.calling q c ((hborn' q).mp hq) hc
    refine ⟨hmade, hdomain, hindex, hserver, ?_⟩
    by_cases hqs : q = source
    · subst hqs
      refine .served hserves hcaller hret ?_
      cases hstage with
      | waiting _ _ hopen => exact hopen
      | served _ _ _ hopen => exact hopen
      | answered hrun => rcases hwait with hw | hw <;> exact nomatch hrun.symm.trans hw
    · refine hstage.mono (fun hm => (List.mem_cons.mp hm).resolve_left hqs) (hsame q hqs) ?_ Iff.rfl
      exact fun hs => nomatch hserving.symm.trans hs
  · intro q hq
    obtain ⟨hql, hqc, hqs⟩ := h.queued q (List.mem_cons_of_mem _ hq)
    have hne : q ≠ source := fun heq => hnew (heq ▸ hq)
    exact ⟨(hborn' q).mpr hql, hqc, hqs.imp (hsame q hne).trans (hsame q hne).trans⟩
  · intro _
    exact ⟨source, hcaller, (hborn' source).mpr hlives, hcall, hnew, hret, Function.update_self ..,
      Function.update_self ..⟩
  · intro q hq
    exact (Function.update_of_ne hq _ _).trans (h.callers q hq)
  · intro q hq
    obtain rfl : source = q := Caller.thread.inj (hcaller.symm.trans hq)
    obtain ⟨c, hc⟩ := Option.ne_none_iff_exists'.mp hcall
    exact ⟨(h.calling source c hlives hc).2.2.2.1, mt (hborn source).mp hlives.2⟩
  · exact fun hirq => nomatch hcaller.symm.trans hirq
  · intro c q hc
    exact (h.made c q hc).imp_left (mt (hborn q).mp)

/-- Nobody waits, and the receiver blocks. -/
theorem Served.block (h : Served cfg s []) (hserving : s.serving cfg.svc = false)
    (hrun : s.state (s.receiver cfg.svc) = .runnable) :
    Served cfg { s with
      mostRecentlyCalledBy := Function.update s.mostRecentlyCalledBy (s.receiver cfg.svc) .nobody
      state := Function.update s.state (s.receiver cfg.svc) .portalWaitForSnd } [] := by
  have hsame : ∀ q, q ≠ s.receiver cfg.svc →
      Function.update s.state (s.receiver cfg.svc) .portalWaitForSnd q = s.state q :=
    fun q hq => Function.update_of_ne hq _ _
  have hsnd : Function.update s.state (s.receiver cfg.svc) .portalWaitForSnd (s.receiver cfg.svc) =
    .portalWaitForSnd := Function.update_self ..
  have hcaller : Function.update s.mostRecentlyCalledBy (s.receiver cfg.svc) .nobody
    (s.receiver cfg.svc) = .nobody := Function.update_self ..
  have hborn : ∀ q, Function.update s.state (s.receiver cfg.svc) .portalWaitForSnd q = .unborn ↔
      s.state q = .unborn := by
    intro q
    by_cases hq : q = s.receiver cfg.svc
    · subst hq
      simp [hrun]
    · rw [hsame q hq]
  refine {
    toLayout := h.toLayout.congr rfl rfl rfl rfl rfl rfl hborn, queue := h.queue,
    others := h.others, calling := ?_, idle := ?_, queued := nofun, current := ?_, callers := ?_,
    foreign := fun q hq => (nomatch hcaller.symm.trans hq),
    regular := fun hirq => (nomatch hcaller.symm.trans hirq), made := ?_,
    replies_nodup := h.replies_nodup, replies_lt := h.replies_lt, abort := h.abort,
    quiet := h.quiet, waits := fun _ => .inr ⟨hsnd, rfl⟩ }
  · intro q c hq hc
    obtain ⟨hmade, hdomain, hindex, hserver, hstage⟩ :=
      h.calling q c ⟨hq.1, mt (hborn q).mpr hq.2⟩ hc
    refine ⟨hmade, hdomain, hindex, hserver, hstage.mono id (hsame q (h.ne_receiver hserver)) ?_ Iff.rfl⟩
    exact fun hs => nomatch hserving.symm.trans hs
  · exact fun q hq => h.idle q ⟨hq.1, mt (hborn q).mpr hq.2⟩
  · exact fun hs => nomatch hserving.symm.trans hs
  · exact fun q hq => (Function.update_of_ne hq _ _).trans (h.callers q hq)
  · exact fun c q hc => (h.made c q hc).imp_left (mt (hborn q).mp)

/-- The state after the caller's result has been stored and the caller unblocked. -/
def Sys.answered (s : Sys) (k : Nat) (c : Nat) (st : Thread → ThreadState) (ret : Thread → Return)
    (caller : Caller) (dom : Thread → Option Domain) (domID : Thread → Nat) : Sys :=
  { s with
    state := st
    portalReturn := ret
    mostRecentlyCalledBy := Function.update s.mostRecentlyCalledBy (s.receiver k) caller
    callerDomain := dom
    callerDomainID := domID
    serving := Function.update s.serving k false
    replies := s.replies ++ [c] }

/-- The caller gets a result, an exception or a value. -/
theorem Served.answer {source : Thread} {c : Nat} (h : Served cfg s l) (st : Thread → ThreadState)
    (ret : Thread → Return) (caller : Caller) (dom : Thread → Option Domain) (domID : Thread → Nat)
    (hserving : s.serving cfg.svc = true)
    (hsource : s.mostRecentlyCalledBy (s.receiver cfg.svc) = .thread source)
    (hc : s.inCall source = some c) (hrun : st source = .runnable)
    (hst : ∀ q, q ≠ source → q ≠ s.receiver cfg.svc → st q = s.state q)
    (hreceiver : st (s.receiver cfg.svc) = .runnable ∨
      st (s.receiver cfg.svc) = .portalWaitForSnd ∧ l = [])
    (hcaller : caller = .thread source ∨ caller = .nobody) :
    Served cfg (s.answered cfg.svc c st ret caller dom domID) l := by
  obtain ⟨_, hsource', hlives, -, hnew, hret, -⟩ := h.current hserving
  obtain rfl := Caller.thread.inj (hsource.symm.trans hsource')
  obtain ⟨hmade, -, -, hforeign, hstage⟩ := h.calling source c hlives hc
  have hopen : c ∉ s.replies := by
    cases hstage with
    | waiting hmem => exact absurd hmem hnew
    | served _ _ _ hopen => exact hopen
    | answered hst => exact nomatch hst.symm.trans hret
  have hfinished : (s.answered cfg.svc c st ret caller dom domID).serving cfg.svc = false :=
    Function.update_self ..
  have hcaller' : (s.answered cfg.svc c st ret caller dom domID).mostRecentlyCalledBy
    (s.receiver cfg.svc) = caller := Function.update_self ..
  have hborn : ∀ q, st q = .unborn ↔ s.state q = .unborn := by
    intro q
    by_cases hq : q = source
    · subst hq
      simp [hrun, hret]
    · by_cases hqr : q = s.receiver cfg.svc
      · subst hqr
        rcases hreceiver with hr | hr <;> simp [hr, h.receiver_lives.2]
      · rw [hst q hq hqr]
  have hborn' : ∀ q, (s.answered cfg.svc c st ret caller dom domID).Lives q → s.Lives q :=
    fun q hq => ⟨hq.1, mt (hborn q).mpr hq.2⟩
  refine {
    toLayout := h.toLayout.congr rfl rfl rfl rfl rfl rfl hborn, queue := h.queue,
    others := h.others, calling := ?_, idle := fun q hq => h.idle q (hborn' q hq), queued := ?_,
    current := fun hs => (nomatch hs.symm.trans hfinished), callers := ?_, foreign := ?_,
    regular := ?_, made := ?_, replies_nodup := ?_, replies_lt := ?_, abort := h.abort,
    quiet := h.quiet, waits := fun _ => hreceiver }
  · intro q b hq hb
    obtain ⟨hmade', hdomain, hindex, hserver, hstage'⟩ := h.calling q b (hborn' q hq) hb
    refine ⟨hmade', hdomain, hindex, hserver, ?_⟩
    by_cases hqs : q = source
    · subst hqs
      obtain rfl : b = c := Option.some.inj (hb.symm.trans hc)
      exact .answered hrun (List.mem_append_right _ List.mem_cons_self)
    · have hbc : b ≠ c := by
        rintro rfl
        exact hqs (Option.some.inj (hmade'.symm.trans hmade))
      refine hstage'.mono id (hst q hqs (h.ne_receiver hserver)) (fun _ hq' => ?_) ?_
      · exact absurd (Caller.thread.inj (hq'.symm.trans hsource)) hqs
      · simp [Sys.answered, hbc]
  · intro q hq
    obtain ⟨hql, hqc, hqs⟩ := h.queued q hq
    have hne : q ≠ source := fun heq => hnew (heq ▸ hq)
    have hsame := hst q hne fun hqr => hqc (hqr ▸ h.receiver_idle)
    exact ⟨⟨hql.1, mt (hborn q).mp hql.2⟩, hqc, hqs.imp hsame.trans hsame.trans⟩
  · exact fun q hq => (Function.update_of_ne hq _ _).trans (h.callers q hq)
  · intro q hq
    replace hq := hcaller'.symm.trans hq
    rcases hcaller with rfl | rfl
    · obtain rfl := Caller.thread.inj hq
      exact ⟨hforeign, mt (hborn source).mp hlives.2⟩
    · cases hq
  · intro hirq
    rcases hcaller with rfl | rfl <;> exact nomatch hcaller'.symm.trans hirq
  · intro b q hb
    exact (h.made b q hb).imp (mt (hborn q).mp) fun hm hf => (hm hf).imp_left (List.mem_append_left _)
  · exact List.nodup_append.mpr ⟨h.replies_nodup, List.nodup_singleton _, by grind⟩
  · intro b hb
    rcases List.mem_append.mp hb with hb | hb
    · exact h.replies_lt b hb
    · obtain rfl : b = c := by simpa using hb
      exact (List.getElem?_eq_some_iff.mp hmade).1

theorem Served.callerDisappeared (h : Served cfg s l) (hserving : s.serving cfg.svc = true) :
    callerDisappeared cfg.null s (s.receiver cfg.svc) = false := by
  obtain ⟨source, -, hlives, -, -, -, hdomain, hid⟩ := h.current hserving
  unfold Termination.callerDisappeared
  rw [hdomain]
  simp [hid, h.active source hlives]

theorem Served.reply (h : Served cfg s l) (ret : Return) (hserving : s.serving cfg.svc = true) :
    ∃ t, sendReply cfg.null s cfg.svc ret = pure t ∧ Served cfg t l ∧
      t.serving cfg.svc = false ∧ t.calls = s.calls ∧ t.freed = s.freed := by
  obtain ⟨source, hsource, hlives, hcall, hnew, -⟩ := h.current hserving
  obtain ⟨c, hc⟩ := Option.ne_none_iff_exists'.mp hcall
  have hne : source ≠ s.receiver cfg.svc := fun heq => hcall (heq ▸ h.receiver_idle)
  have hanswer := h.answer (Function.update (Function.update s.state (s.receiver cfg.svc)
      (if (s.waiting cfg.svc).first.isSome then .runnable else .portalWaitForSnd)) source .runnable)
    (Function.update s.portalReturn source ret) .nobody s.callerDomain s.callerDomainID
    hserving hsource hc (Function.update_self ..) (fun q hq hqr => ?_) ?_
    (.inr rfl)
  · refine ⟨_, ?_, hanswer, Function.update_self .., rfl, rfl⟩
    unfold sendReply
    simp only [h.callerDisappeared hserving, hsource, h.abort, Bool.false_eq_true, if_false,
      touch_of_here (h.here hlives), Sys.record, Sys.setReturn, Sys.setState, finishedReturnHandling, hc]
    exact congrArg pure (threadunblock_of_here (h.here hlives))
  · exact (Function.update_of_ne hq _ _).trans (Function.update_of_ne hqr _ _)
  · rw [Function.update_of_ne hne.symm, Function.update_self]
    cases l with
    | nil =>
      rw [h.queue.first_eq_none.mpr rfl]
      exact .inr ⟨rfl, rfl⟩
    | cons a l =>
      rw [h.queue.chain.1]
      exact .inl rfl

/-- An exception at the service entry is handed to the caller. -/
theorem throwException_eq {null : Bool} {k c copy : Nat} {source : Thread}
    (hdis : callerDisappeared null s (s.receiver k) = false) (hsource : s.here source = true)
    (hc : s.inCall source = some c) :
    throwException null s k source copy = { s with
      portalReturn := Function.update s.portalReturn source ⟨returnTypeException, copy⟩
      replies := s.replies ++ [c]
      serving := Function.update s.serving k false
      state := Function.update (Function.update s.state (s.receiver k) .runnable) source
        .runnable } := by
  unfold throwException
  simp only [hdis, Bool.false_eq_true, if_false, touch_of_here hsource, Sys.record, Sys.setReturn,
    Sys.setState, hc]
  exact threadunblock_of_here hsource

theorem Served.throw {source : Thread} {copy : Nat} (h : Served cfg s l)
    (hserving : s.serving cfg.svc = true)
    (hsource : s.mostRecentlyCalledBy (s.receiver cfg.svc) = .thread source) :
    Served cfg (throwException cfg.null s cfg.svc source copy) l := by
  obtain ⟨_, hsource', hlives, hcall, -, -⟩ := h.current hserving
  obtain rfl := Caller.thread.inj (hsource.symm.trans hsource')
  obtain ⟨c, hc⟩ := Option.ne_none_iff_exists'.mp hcall
  have hne : source ≠ s.receiver cfg.svc := fun heq => hcall (heq ▸ h.receiver_idle)
  rw [throwException_eq (h.callerDisappeared hserving) (h.here hlives) hc]
  have hanswer := h.answer (Function.update (Function.update s.state (s.receiver cfg.svc)
      .runnable) source .runnable)
    (Function.update s.portalReturn source ⟨returnTypeException, copy⟩)
    (.thread source) s.callerDomain s.callerDomainID hserving hsource hc
    (Function.update_self ..) (fun q hq hqr => ?_) (.inl ?_) (.inl rfl)
  · unfold Sys.answered at hanswer
    rwa [← hsource, Function.update_eq_self] at hanswer
  · exact (Function.update_of_ne hq _ _).trans (Function.update_of_ne hqr _ _)
  · exact (Function.update_of_ne hne.symm _ _).trans (Function.update_self ..)

/-- Copying the parameters raises an exception: the call ends as if the service had thrown it. -/
theorem Served.fault {source : Thread} {copy : Nat} (h : Served cfg s (source :: l))
    (hserving : s.serving cfg.svc = false)
    (hdis : Termination.callerDisappeared cfg.null s (s.receiver cfg.svc) = false) :
    Served cfg (receivePortalcall cfg.null s cfg.svc (some copy)) l := by
  obtain ⟨hlives, hcall, -⟩ := h.queued source List.mem_cons_self
  obtain ⟨c, hc⟩ := Option.ne_none_iff_exists'.mp hcall
  have hne : source ≠ s.receiver cfg.svc := fun heq => hcall (heq ▸ h.receiver_idle)
  have hanswer := (h.start hserving).answer (c := c)
    (Function.update (Function.update (Function.update s.state source .portalWaitForParamcopy)
      (s.receiver cfg.svc) .runnable) source .runnable)
    (Function.update s.portalReturn source ⟨returnTypeException, copy⟩)
    (.thread source) s.callerDomain s.callerDomainID
    (Function.update_self ..) (Function.update_self ..) hc (Function.update_self ..)
    (fun q hq hqr => ?_) (.inl ?_) (.inl rfl)
  · have hfirst : (s.waiting cfg.svc).first = some source := h.queue.chain.1
    unfold receivePortalcall
    simp only [hfirst, takeUp_eq, hlives.1, h.active source hlives]
    rw [throwException_eq (c := c)]
    · simpa only [Sys.answered, Sys.started, Function.update_idem] using hanswer
    · exact hdis
    · exact h.here hlives
    · exact hc
  · replace hqr : q ≠ s.receiver cfg.svc := hqr
    rw [Function.update_of_ne hq, Function.update_of_ne hqr, Function.update_of_ne hq]
    exact (Function.update_of_ne hq _ _).symm
  · exact (Function.update_of_ne hne.symm _ _).trans (Function.update_self ..)

/-- The caller runs again and returns from the call. -/
theorem Served.leave (h : Served cfg s l) (he : Enabled cfg s (.leave t)) :
    Served cfg (leaveCall s t) l := by
  obtain ⟨hlives, hrun, hcall⟩ := he
  obtain ⟨c, hc⟩ := Option.ne_none_iff_exists'.mp hcall
  obtain ⟨hmade, -, -, -, hstage⟩ := h.calling t c hlives hc
  have hdone : c ∈ s.replies := by
    cases hstage with
    | waiting _ hst => rcases hst with hst | hst <;> exact nomatch hrun.symm.trans hst
    | served _ _ hst => exact nomatch hrun.symm.trans hst
    | answered _ hdone => exact hdone
  have hout : (leaveCall s t).inCall t = none := Function.update_self ..
  have hin : ∀ q, q ≠ t → (leaveCall s t).inCall q = s.inCall q :=
    fun q hq => Function.update_of_ne hq _ _
  refine {
    toLayout := h.toLayout.congr rfl rfl rfl rfl rfl rfl fun _ => Iff.rfl, queue := h.queue,
    others := h.others, calling := ?_, idle := ?_, queued := ?_, current := ?_,
    callers := h.callers, foreign := h.foreign, regular := h.regular, made := ?_,
    replies_nodup := h.replies_nodup, replies_lt := h.replies_lt, abort := h.abort,
    quiet := h.quiet, waits := h.waits }
  · intro q b hq hb
    have hqt : q ≠ t := by
      rintro rfl
      exact nomatch hout.symm.trans hb
    obtain ⟨hmade', hdomain, hindex, hserver, hstage'⟩ := h.calling q b hq ((hin q hqt).symm.trans hb)
    exact ⟨hmade', (Function.update_of_ne hqt _ _).trans hdomain,
      (Function.update_of_ne hqt _ _).trans hindex, hserver,
      hstage'.mono id rfl (fun a b => ⟨a, b⟩) Iff.rfl⟩
  · intro q hq hn
    by_cases hqt : q = t
    · subst hqt
      exact Function.update_self ..
    · exact (Function.update_of_ne hqt _ _).trans (h.idle q hq ((hin q hqt).symm.trans hn))
  · intro q hq
    obtain ⟨hql, hqc, hqs⟩ := h.queued q hq
    have hqt : q ≠ t := by
      rintro rfl
      rcases hqs with hqs | hqs <;> exact nomatch hrun.symm.trans hqs
    exact ⟨hql, fun hn => hqc ((hin q hqt).symm.trans hn), hqs⟩
  · intro hserving
    obtain ⟨source, hcaller, hsl, hsc, hmem, hss, hcd⟩ := h.current hserving
    have hst : source ≠ t := by
      rintro rfl
      exact nomatch hrun.symm.trans hss
    exact ⟨source, hcaller, hsl, fun hn => hsc ((hin source hst).symm.trans hn), hmem, hss, hcd⟩
  · intro b q hb
    obtain ⟨hu, hm⟩ := h.made b q hb
    refine ⟨hu, fun hf => (hm hf).elim .inl fun hqb => ?_⟩
    by_cases hqt : q = t
    · subst hqt
      obtain rfl : b = c := Option.some.inj (hqb.symm.trans hc)
      exact .inl hdone
    · exact .inr ((hin q hqt).trans hqb)

/-! ## Termination -/

/-- The waiting senders of all services. -/
def senders (cfg : Config) (l : List Thread) (k : Nat) : List Thread := if k = cfg.svc then l else []

@[simp] theorem senders_svc : senders cfg l cfg.svc = l := if_pos rfl

theorem senders_of_ne {k : Nat} (hk : k ≠ cfg.svc) : senders cfg l k = [] := if_neg hk

theorem mem_senders {k : Nat} : t ∈ senders cfg l k ↔ k = cfg.svc ∧ t ∈ l := by
  unfold senders
  split <;> simp [*]

theorem Served.calledAt (h : Served cfg s l) (ht : s.Lives t) (hc : s.inCall t ≠ none) :
    CalledAt s t cfg.svc := by
  obtain ⟨c, hc⟩ := Option.ne_none_iff_exists'.mp hc
  obtain ⟨-, hdomain, hindex, -⟩ := h.calling t c ht hc
  exact ⟨cfg.server, hdomain, hindex ▸ h.entry⟩

theorem Served.isQueue (h : Served cfg s l) (k : Nat) :
    IsQueue s.nextInDEPQueue (s.waiting k) (senders cfg l k) := by
  by_cases hk : k = cfg.svc
  · subst hk
    rw [senders_svc]
    exact h.queue
  · rw [senders_of_ne hk, h.others k hk]
    exact .nil_intro _

theorem Served.consistent (h : Served cfg s l) : Consistent s (senders cfg l) where
  chain k := (h.isQueue k).chain
  nodup k := (h.isQueue k).nodup
  disjoint j k hjk t hj hk := hjk ((mem_senders.mp hj).1.trans (mem_senders.mp hk).1.symm)
  last k := (h.isQueue k).last
  queued k t ht := by
    obtain ⟨hlives, hc, hst⟩ := h.queued t (mem_senders.mp ht).2
    exact ⟨(mem_senders.mp ht).1 ▸ h.calledAt hlives hc, hst⟩
  waitForRcv d t ht hb hst := by
    have hlives := ((h.threads d t).mp ht).1
    have hc : s.inCall t ≠ none := fun hn => hb (h.idle t hlives hn)
    refine ⟨cfg.svc, h.calledAt hlives hc, ?_⟩
    obtain ⟨c, hc⟩ := Option.ne_none_iff_exists'.mp hc
    rw [senders_svc]
    cases (h.calling t c hlives hc).2.2.2.2 with
    | waiting hmem => exact hmem
    | served _ _ hst' => exact nomatch hst.symm.trans hst'
    | answered hst' => exact nomatch hst.symm.trans hst'
  waitForRet d t ht hb _ := by
    have hlives := ((h.threads d t).mp ht).1
    exact ⟨cfg.svc, h.calledAt hlives fun hn => hb (h.idle t hlives hn)⟩
  threads d t ht := ((h.threads d t).mp ht).2
  members k t ht := (h.threads _ t).mpr ⟨(h.queued t (mem_senders.mp ht).2).1, rfl⟩
  threads_nodup := h.threads_nodup
  foreign d t ht source hsource := by
    have heq : t = s.receiver cfg.svc := by
      by_contra hne
      exact nomatch (h.callers t hne).symm.trans hsource
    subst heq
    rw [← ((h.threads d _).mp ht).2, h.receiver]
    exact (h.foreign source hsource).1
  reserved := h.reserved

/-- Whenever a client domain is terminated, the machine is stopped. -/
theorem Served.terminate_stops {d : Domain} (h : Served cfg s l) (he : Enabled cfg s (.terminate d)) :
    Stops (exec cfg (.terminate d) s) := by
  obtain ⟨hactive, hserver⟩ := he
  refine h.consistent.terminateDomain_stops hactive fun q hq hirq => ?_
  have hne : q ≠ s.receiver cfg.svc := by
    rintro rfl
    exact hserver (((h.threads d _).mp hq).2.symm.trans h.receiver)
  exact nomatch (h.callers q hne).symm.trans hirq

theorem Served.createDomain {d : Domain} (h : Served cfg s l) (hactive : s.active d = false) :
    Served cfg (createDomain s d) l := by
  have hserver : cfg.server ≠ d := by
    intro heq
    rw [← heq, h.server] at hactive
    cases hactive
  have hout : ∀ q, s.Lives q → s.domain q ≠ d := by
    rintro q hq rfl
    exact nomatch (h.active q hq).symm.trans hactive
  refine {
    entry := ?_, reserved := ?_, server := ?_, receiver := h.receiver,
    receiver_lives := h.receiver_lives, threads := ?_, threads_nodup := ?_, active := ?_,
    unborn := h.unborn, queue := h.queue, others := h.others, calling := ?_, idle := h.idle,
    queued := h.queued, current := ?_, callers := h.callers, foreign := h.foreign,
    regular := h.regular, made := h.made, replies_nodup := h.replies_nodup,
    replies_lt := h.replies_lt, abort := h.abort, quiet := h.quiet, waits := h.waits }
  · show Function.update s.services d _ cfg.server cfg.index = _
    rw [Function.update_of_ne hserver]
    exact h.entry
  · intro e he
    show Function.update s.services d _ e 0 = _
    by_cases hed : e = d
    · rw [hed, Function.update_self]
      rfl
    · rw [Function.update_of_ne hed]
      exact h.reserved e ((Function.update_of_ne hed _ _).symm.trans he)
  · exact (Function.update_of_ne hserver _ _).trans h.server
  · intro e q
    show q ∈ Function.update s.threads d [] e ↔ _
    by_cases hed : e = d
    · subst hed
      rw [Function.update_self]
      exact ⟨nofun, fun hq => absurd hq.2 (hout q hq.1)⟩
    · rw [Function.update_of_ne hed]
      exact h.threads e q
  · intro e
    show (Function.update s.threads d [] e).Nodup
    by_cases hed : e = d
    · rw [hed, Function.update_self]
      exact List.nodup_nil
    · rw [Function.update_of_ne hed]
      exact h.threads_nodup e
  · exact fun q hq => (Function.update_of_ne (hout q hq) _ _).trans (h.active q hq)
  · intro q c hq hc
    obtain ⟨hmade, hdomain, hindex, hforeign, hstage⟩ := h.calling q c hq hc
    exact ⟨hmade, hdomain, hindex, hforeign, hstage.mono id rfl (fun a b => ⟨a, b⟩) Iff.rfl⟩
  · intro hserving
    obtain ⟨source, hcaller, hsl, hsc, hnew, hss, hcd, hid⟩ := h.current hserving
    exact ⟨source, hcaller, hsl, hsc, hnew, hss, hcd,
      hid.trans (Function.update_of_ne (hout source hsl) _ _).symm⟩

theorem Served.createThread {d : Domain} (h : Served cfg s l)
    (he : Enabled cfg s (.createThread t d)) : Served cfg (createThread s t d) l := by
  obtain ⟨hactive, hunborn⟩ := he
  have hfree := h.unborn t hunborn
  have hne : ∀ q, s.state q ≠ .unborn → q ≠ t := by
    rintro q hq rfl
    exact hq hunborn
  -- the fields of the new thread, and of the others
  have hstate : ∀ q, q ≠ t → Function.update s.state t .runnable q = s.state q :=
    fun q hq => Function.update_of_ne hq _ _
  have hnew : Function.update s.state t .runnable t = .runnable := Function.update_self ..
  have hdomain : ∀ q, q ≠ t → Function.update s.domain t d q = s.domain q :=
    fun q hq => Function.update_of_ne hq _ _
  have hin : Function.update s.inCall t none t = none := Function.update_self ..
  have hin' : ∀ q, q ≠ t → Function.update s.inCall t none q = s.inCall q :=
    fun q hq => Function.update_of_ne hq _ _
  have hlives : ∀ q, q ≠ t → ((Termination.createThread s t d).Lives q ↔ s.Lives q) := by
    intro q hq
    refine and_congr_right fun _ => not_congr ?_
    show Function.update s.state t .runnable q = _ ↔ _
    rw [hstate q hq]
  have hcaller : ∀ q, q ≠ t →
      Function.update s.mostRecentlyCalledBy t .nobody q = s.mostRecentlyCalledBy q :=
    fun q hq => Function.update_of_ne hq _ _
  have hr := hne _ h.receiver_lives.2
  refine {
    entry := h.entry, reserved := h.reserved, server := h.server,
    receiver := (hdomain _ hr).trans h.receiver,
    receiver_lives := (hlives _ hr).mpr h.receiver_lives, threads := ?_, threads_nodup := ?_,
    active := ?_, unborn := ?_, queue := h.queue, others := h.others, calling := ?_, idle := ?_,
    queued := ?_, current := ?_, callers := ?_, foreign := ?_, regular := ?_, made := ?_,
    replies_nodup := h.replies_nodup, replies_lt := h.replies_lt, abort := h.abort,
    quiet := h.quiet, waits := ?_ }
  · intro e q
    show q ∈ Function.update s.threads d (t :: s.threads d) e ↔
      _ ∧ Function.update s.domain t d q = e
    by_cases hqt : q = t
    · subst hqt
      rw [Function.update_self]
      have hold : ∀ e, q ∉ s.threads e := fun e hq => ((h.threads e q).mp hq).1.2 hunborn
      have hlive : (Termination.createThread s q d).Lives q :=
        ⟨hfree, fun hu => nomatch hnew.symm.trans hu⟩
      by_cases hed : e = d
      · subst hed
        rw [Function.update_self]
        simp [hlive]
      · rw [Function.update_of_ne hed]
        exact ⟨fun hq => absurd hq (hold e), fun hq => absurd hq.2.symm hed⟩
    · rw [hdomain q hqt, hlives q hqt, ← h.threads]
      by_cases hed : e = d
      · subst hed
        simp [hqt]
      · rw [Function.update_of_ne hed]
  · intro e
    show (Function.update s.threads d (t :: s.threads d) e).Nodup
    by_cases hed : e = d
    · subst hed
      rw [Function.update_self]
      exact List.nodup_cons.mpr ⟨fun hq => ((h.threads e t).mp hq).1.2 hunborn, h.threads_nodup e⟩
    · rw [Function.update_of_ne hed]
      exact h.threads_nodup e
  · intro q hq
    show s.active (Function.update s.domain t d q) = true
    by_cases hqt : q = t
    · rw [hqt, Function.update_self]
      exact hactive
    · rw [hdomain q hqt]
      exact h.active q ((hlives q hqt).mp hq)
  · intro q hq
    have hqt : q ≠ t := by
      rintro rfl
      exact nomatch hnew.symm.trans hq
    exact h.unborn q ((hstate q hqt).symm.trans hq)
  · intro q c hq hc
    have hqt : q ≠ t := by
      rintro rfl
      exact nomatch hin.symm.trans hc
    obtain ⟨hmade, hblocked, hindex, hforeign, hstage⟩ :=
      h.calling q c ((hlives q hqt).mp hq) ((hin' q hqt).symm.trans hc)
    refine ⟨hmade, (Function.update_of_ne hqt _ _).trans hblocked, hindex,
      fun hd => hforeign ((hdomain q hqt).symm.trans hd), ?_⟩
    exact hstage.mono id (hstate q hqt) (fun hs hm => ⟨hs, (hcaller _ hr).trans hm⟩) Iff.rfl
  · intro q hq hn
    show Function.update s.blockedInDomain t none q = none
    by_cases hqt : q = t
    · rw [hqt, Function.update_self]
    · rw [Function.update_of_ne hqt]
      exact h.idle q ((hlives q hqt).mp hq) ((hin' q hqt).symm.trans hn)
  · intro q hq
    obtain ⟨hql, hqc, hqs⟩ := h.queued q hq
    have hqt := hne q hql.2
    exact ⟨(hlives q hqt).mpr hql, fun hn => hqc ((hin' q hqt).symm.trans hn),
      hqs.imp (hstate q hqt).trans (hstate q hqt).trans⟩
  · intro hserving
    obtain ⟨source, hsource, hsl, hsc, hmem, hss, hcd, hid⟩ := h.current hserving
    have hst := hne source hsl.2
    refine ⟨source, (hcaller _ hr).trans hsource, (hlives source hst).mpr hsl,
      fun hn => hsc ((hin' source hst).symm.trans hn), hmem, (hstate source hst).trans hss, ?_, ?_⟩
    · exact hcd.trans (congrArg some (hdomain source hst).symm)
    · exact hid.trans (congrArg s.id (hdomain source hst).symm)
  · intro q hq
    by_cases hqt : q = t
    · rw [hqt]
      exact Function.update_self ..
    · exact (hcaller q hqt).trans (h.callers q hq)
  · intro source hs
    obtain ⟨hd, hu⟩ := h.foreign source ((hcaller _ hr).symm.trans hs)
    have hst := hne source hu
    exact ⟨fun heq => hd ((hdomain source hst).symm.trans heq),
      fun heq => hu ((hstate source hst).symm.trans heq)⟩
  · exact fun hirq => h.regular ((hcaller _ hr).symm.trans hirq)
  · intro c q hc
    obtain ⟨hu, hm⟩ := h.made c q hc
    have hqt := hne q hu
    exact ⟨fun heq => hu ((hstate q hqt).symm.trans heq),
      fun hf => (hm hf).imp_right (hin' q hqt).trans⟩
  · exact fun hserving => (h.waits hserving).imp (hstate _ hr).trans
      (And.imp_left (hstate _ hr).trans)

/-- A step that does not stop the machine keeps the invariant. -/
theorem Served.step {e : Event} (h : Served cfg s l) (he : Enabled cfg s e) (hspared : Spared cfg s e)
    (hret : Returns (exec cfg e s) s') : ∃ l', Served cfg s' l' := by
  cases e with
  | call t =>
    rw [hret.unique (.pure _)]
    exact ⟨_, h.call he⟩
  | receive fault =>
    rw [hret.unique (.pure _)]
    obtain ⟨hserving, hrun⟩ := he
    cases l with
    | nil =>
      have hfirst : (s.waiting cfg.svc).first = none := h.queue.first_eq_none.mpr rfl
      refine ⟨[], ?_⟩
      unfold receivePortalcall
      simp only [hfirst]
      exact h.block hserving hrun
    | cons source l =>
      cases fault with
      | none =>
        have hsource := h.here (h.queued source List.mem_cons_self).1
        rw [receivePortalcall_none h.queue.chain.1 hsource]
        exact ⟨_, h.start hserving⟩
      | some copy => exact ⟨_, h.fault hserving hspared⟩
  | reply ret =>
    obtain ⟨t, ht, hserved, -⟩ := h.reply ret he
    rw [hret.unique ⟨0, fun _ _ => ht⟩]
    exact ⟨_, hserved⟩
  | throw copy =>
    obtain ⟨source, hsource, -⟩ := h.current he
    have hexec : Returns (exec cfg (.throw copy) s) (throwException cfg.null s cfg.svc source copy) := by
      refine ⟨0, fun _ _ => ?_⟩
      simp only [exec, hsource]
    rw [hret.unique hexec]
    exact ⟨_, h.throw he hsource⟩
  | leave t =>
    rw [hret.unique (.pure _)]
    exact ⟨_, h.leave he⟩
  | terminate d => exact absurd hret (h.terminate_stops he).not_returns
  | createDomain d =>
    rw [hret.unique (.pure _)]
    exact ⟨_, h.createDomain he⟩
  | createThread t d =>
    rw [hret.unique (.pure _)]
    exact ⟨_, h.createThread he⟩

/-- Only a termination stops the machine. -/
theorem Served.stops_iff {e : Event} (h : Served cfg s l) (he : Enabled cfg s e) :
    Stops (exec cfg e s) ↔ ∃ d, e = .terminate d := by
  constructor
  · intro hstop
    cases e with
    | terminate d => exact ⟨d, rfl⟩
    | reply ret =>
      obtain ⟨t, ht, -⟩ := h.reply ret he
      exact absurd ⟨0, fun _ _ => ht⟩ hstop.not_returns
    | throw copy =>
      obtain ⟨source, hsource, -⟩ := h.current he
      have hexec : Returns (exec cfg (.throw copy) s)
          (throwException cfg.null s cfg.svc source copy) := by
        refine ⟨0, fun _ _ => ?_⟩
        simp only [exec, hsource]
      exact absurd hexec hstop.not_returns
    | call t => exact absurd (.pure _) hstop.not_returns
    | receive fault => exact absurd (.pure _) hstop.not_returns
    | leave t => exact absurd (.pure _) hstop.not_returns
    | createDomain d => exact absurd (.pure _) hstop.not_returns
    | createThread t d => exact absurd (.pure _) hstop.not_returns
  · rintro ⟨d, rfl⟩
    exact h.terminate_stops he

/-! ## The service goes on -/

/-- The call that is served gets its reply. -/
theorem Served.finish (h : Served cfg s l) (hserving : s.serving cfg.svc = true) :
    ∃ t, ServiceStep cfg (.running s) (.running t) ∧ Served cfg t l ∧ t.serving cfg.svc = false ∧
      t.calls = s.calls ∧ t.freed = s.freed := by
  obtain ⟨t, ht, hserved⟩ := h.reply ⟨0, 0⟩ hserving
  exact ⟨t, ⟨s, t, rfl, rfl, .reply ⟨0, 0⟩, .inr ⟨_, rfl⟩, hserving, 0, fun _ _ => ht⟩, hserved⟩

/-- One call after the other is taken up and answered, until nobody waits. -/
theorem Served.drain (h : Served cfg s l) (hserving : s.serving cfg.svc = false) :
    ∃ t, Relation.ReflTransGen (ServiceStep cfg) (.running s) (.running t) ∧ Served cfg t [] ∧
      t.serving cfg.svc = false ∧ t.calls = s.calls ∧ t.freed = s.freed := by
  induction l generalizing s with
  | nil => exact ⟨s, .refl, h, hserving, rfl, rfl⟩
  | cons source l ih =>
    have hrun : s.state (s.receiver cfg.svc) = .runnable :=
      (h.waits hserving).resolve_right fun hw => nomatch hw.2
    have hsource := h.here (h.queued source List.mem_cons_self).1
    have hreceive : receivePortalcall cfg.null s cfg.svc none = s.started cfg.svc source :=
      receivePortalcall_none h.queue.chain.1 hsource
    have hstart : ServiceStep cfg (.running s) (.running (s.started cfg.svc source)) :=
      ⟨s, _, rfl, rfl, .receive none, .inl rfl, ⟨hserving, hrun⟩, hreceive ▸ .pure _⟩
    obtain ⟨u, hu, hserved, hidle, hcalls, hfreed⟩ :=
      (h.start hserving).finish (Function.update_self ..)
    obtain ⟨t, ht, hdone, hidle', hcalls', hfreed'⟩ := ih hserved hidle
    exact ⟨t, .head hstart (.head hu ht), hdone, hidle', hcalls'.trans hcalls, hfreed'.trans hfreed⟩

theorem Served.answered (h : Served cfg s l) : Answered cfg (.running s) where
  once := h.replies_nodup
  quiet := h.quiet
  all c t hc hhere := by
    have hf := (here_iff.mp hhere).1
    -- all calls are answered once the queue is empty
    have hdrained : ∃ u, Relation.ReflTransGen (ServiceStep cfg) (.running s) (.running u) ∧
        Served cfg u [] ∧ u.serving cfg.svc = false ∧ u.calls = s.calls ∧ u.freed = s.freed := by
      cases hserving : s.serving cfg.svc with
      | false => exact h.drain hserving
      | true =>
        obtain ⟨v, hv, hserved, hidle, hcalls, hfreed⟩ := h.finish hserving
        obtain ⟨u, hu, hdone, hidle', hcalls', hfreed'⟩ := hserved.drain hidle
        exact ⟨u, .head hv hu, hdone, hidle', hcalls'.trans hcalls, hfreed'.trans hfreed⟩
    obtain ⟨u, hu, hdone, hidle, hcalls, hfreed⟩ := hdrained
    refine ⟨.running u, hu, ?_⟩
    obtain ⟨hborn, hmade⟩ := hdone.made c t (hcalls ▸ hc)
    rcases hmade (hfreed ▸ hf) with hreplied | hin
    · exact hreplied
    · cases (hdone.calling t c ⟨hfreed ▸ hf, hborn⟩ hin).2.2.2.2 with
      | waiting hmem => cases hmem
      | served hserving => exact nomatch hidle.symm.trans hserving
      | answered _ hreplied => exact hreplied

/-- A machine that has stopped does not answer any more. -/
theorem answered_halted_iff : Answered cfg (.halted s) ↔ s.replies.Nodup ∧ s.wild = [] ∧
    ∀ c t, s.calls[c]? = some t → s.here t = true → c ∈ s.replies := by
  constructor
  · intro h
    refine ⟨h.once, h.quiet, fun c t hc ht => ?_⟩
    obtain ⟨n, hn, hreplied⟩ := h.all c t hc ht
    obtain rfl | ⟨_, ⟨_, _, hrunning, _⟩, _⟩ := hn.cases_head
    · exact hreplied
    · cases hrunning
  · rintro ⟨honce, hquiet, hall⟩
    exact ⟨honce, fun c t hc ht => ⟨_, .refl, hall c t hc ht⟩, hquiet⟩

theorem here_deactivateServices {d : Domain} :
    (deactivateServices s d).here t = true ↔ s.here t = true ∧ s.domain t ≠ d := by
  rw [here_iff, here_iff]
  show s.freed t = false ∧ Function.update s.active d false (s.domain t) = true ↔ _
  by_cases hd : s.domain t = d
  · simp [hd]
  · rw [Function.update_of_ne hd]
    simp [hd]

/-- A termination keeps the promise exactly if there is nobody else who waits for an answer. -/
theorem Served.answered_halted_iff {d : Domain} (h : Served cfg s l) :
    Answered cfg (.halted (begun s (.terminate d))) ↔
      Spared cfg s (.terminate d) := by
  rw [Termination.answered_halted_iff]
  constructor
  · rintro ⟨-, -, hall⟩ c t hc ht hd
    exact hall c t hc (here_deactivateServices.mpr ⟨ht, hd⟩)
  · intro hall
    refine ⟨h.replies_nodup, h.quiet, fun c t hc ht => ?_⟩
    obtain ⟨ht, hd⟩ := here_deactivateServices.mp ht
    exact hall c t hc ht hd

/-- What a step that meets the condition keeps. -/
def Kept (cfg : Config) : Machine → Prop
  | .running s => ∃ l, Served cfg s l
  | .halted s => Answered cfg (.halted s)

theorem Kept.step {m n : Machine} (h : Kept cfg m) (hstep : SparedStep cfg m n) : Kept cfg n := by
  cases hstep with
  | done he hspared hret =>
    obtain ⟨l, hserved⟩ := h
    exact hserved.step he hspared hret
  | halt he hspared hstop =>
    obtain ⟨l, hserved⟩ := h
    obtain ⟨d, rfl⟩ := (hserved.stops_iff he).mp hstop
    exact hserved.answered_halted_iff.mpr hspared

theorem Kept.answered {m : Machine} (h : Kept cfg m) : Answered cfg m := by
  cases m with
  | running s =>
    obtain ⟨l, hserved⟩ := h
    exact hserved.answered
  | halted s => exact h

/-- Every call is answered, and no dead thread is touched, in every run in which a client domain is
terminated only when nobody of another domain waits for an answer. -/
theorem answered_of_sparedRun (h : Initial cfg s) {m : Machine}
    (hrun : Relation.ReflTransGen (SparedStep cfg) (.running s) m) : Answered cfg m :=
  (invariant_of_run (I := Kept cfg) (fun _ _ h hstep => h.step hstep) hrun ⟨[], h.served⟩).answered

end Steps

/-! ## A client domain terminated while somebody else waits -/

section Dropped

/-- Domain 2 offers a service at index 1, whose thread is 7. -/
def oneService : Config := ⟨2, 1, 0, false⟩

/-- Thread 5 of domain 1 and thread 6 of domain 3 have not called yet. -/
def newService : Sys :=
  { currentDomainID := 4
    id := id
    active := fun d => decide (d = 1 ∨ d = 2 ∨ d = 3)
    threads := fun d => if d = 1 then [5] else if d = 3 then [6] else if d = 2 then [7] else []
    services := fun d i => if i = 0 then .changing else if d = 2 ∧ i = 1 then .dep 0 else .free
    domain := fun t => if t = 5 then 1 else if t = 6 then 3 else if t = 7 then 2 else 0
    state := fun t => if t = 5 ∨ t = 6 ∨ t = 7 then .runnable else .unborn
    nextInDEPQueue := fun _ => none
    blockedInDomain := fun _ => none
    blockedInServiceIndex := fun _ => 0
    mostRecentlyCalledBy := fun _ => .nobody
    callerDomain := fun _ => none
    callerDomainID := fun _ => 0
    portalReturn := fun _ => ⟨0, 0⟩
    waiting := fun _ => ⟨none, none⟩
    abortFlag := fun _ => false
    receiver := fun _ => 7
    serving := fun _ => false
    freed := fun _ => false
    calls := []
    inCall := fun _ => none
    replies := []
    wild := [] }

theorem newService_lives {t : Thread} : newService.Lives t ↔ t = 5 ∨ t = 6 ∨ t = 7 := by
  simp only [Sys.Lives, newService, true_and]
  split <;> simp [*]

theorem newService_initial : Initial oneService newService where
  entry := rfl
  reserved _ _ := rfl
  server := rfl
  receiver := ⟨rfl, newService_lives.mpr (by decide), rfl⟩
  threads d t := by
    rw [newService_lives]
    simp only [newService]
    constructor
    · intro ht
      split at ht
      · grind
      · split at ht
        · grind
        · split at ht <;> grind
    · grind
  threads_nodup d := by
    simp only [newService]
    repeat' split
    all_goals decide
  active t ht := by
    rcases newService_lives.mp ht with rfl | rfl | rfl <;> rfl
  unborn _ _ := rfl
  waiting _ := rfl
  inCall _ := rfl
  blockedInDomain _ := rfl
  mostRecentlyCalledBy _ := rfl
  serving := rfl
  abortFlag := rfl
  calls := rfl
  replies := rfl
  wild := rfl

/-- A client has called, and waits for the receiver. -/
def calledBy (t : Thread) (s : Sys) : Sys := directSendPortal s t 2 1 0

theorem call_step {P : Sys → Event → Prop} {s : Sys} {t : Thread}
    (he : Enabled oneService s (.call t)) (hP : P s (.call t)) :
    StepIf oneService P (.running s) (.running (calledBy t s)) := .done he hP (.pure _)

/-- The call of thread 6 is answered, and thread 5 has called. -/
def oneAnswered : Sys :=
  let s := receivePortalcall false (calledBy 6 newService) 0 none
  let s := finishedReturnHandling ((s.setReturn 6 ⟨0, 0⟩).record 6) 0
  calledBy 5 ((s.setState 7 .portalWaitForSnd).setState 6 .runnable)

theorem oneAnswered_run :
    Relation.ReflTransGen (SparedStep oneService) (.running newService) (.running oneAnswered) := by
  refine .tail (.tail (.tail (.tail .refl (call_step (t := 6) ⟨⟨rfl, ?_⟩, rfl, rfl, ?_⟩ trivial))
    (.done (e := .receive none) ⟨rfl, rfl⟩ trivial (.pure _)))
    (.done (e := .reply ⟨0, 0⟩) rfl trivial ⟨0, fun _ _ => rfl⟩)) (call_step ⟨⟨rfl, ?_⟩, rfl, rfl, ?_⟩ trivial)
  all_goals decide

/-- The domain of the other client is terminated. -/
theorem answered_oneAnswered :
    oneAnswered.replies = [0] ∧
      Relation.ReflTransGen (SparedStep oneService) (.running newService)
        (.halted (deactivateServices oneAnswered 1)) ∧
      Answered oneService (.halted (deactivateServices oneAnswered 1)) := by
  have hspared : Spared oneService oneAnswered (.terminate 1) := by
    intro c t hc _ hd
    have hcalls : oneAnswered.calls = [6, 5] := rfl
    rw [hcalls] at hc
    match c, hc with
    | 0, _ => decide
    | 1, hc =>
      obtain rfl : 5 = t := Option.some.inj hc
      exact absurd rfl hd
  have hstop : Stops (exec oneService (.terminate 1) oneAnswered) :=
    ⟨.panic "", 2, fun fuel hfuel => by
      obtain ⟨n, rfl⟩ := Nat.exists_eq_add_of_le' hfuel
      rfl⟩
  have hrun := oneAnswered_run.tail (.halt (e := .terminate 1) ⟨rfl, by decide⟩ hspared hstop)
  exact ⟨rfl, hrun, answered_of_sparedRun newService_initial hrun⟩

/-- Both clients have called, and wait for the receiver. -/
def bothCalled : Sys := calledBy 6 (calledBy 5 newService)

/-- The domain of the first client is terminated. The second one, whose domain is active, gets no
answer any more. -/
theorem not_answered_bothCalled : Initial oneService newService ∧
    Relation.ReflTransGen (Step oneService) (.running newService)
      (.halted (deactivateServices bothCalled 1)) ∧
    bothCalled.calls[1]? = some 6 ∧ (deactivateServices bothCalled 1).here 6 = true ∧
    ¬ Answered oneService (.halted (deactivateServices bothCalled 1)) := by
  have hstop : Stops (exec oneService (.terminate 1) bothCalled) :=
    ⟨.panic "", 2, fun fuel hfuel => by
      obtain ⟨n, rfl⟩ := Nat.exists_eq_add_of_le' hfuel
      rfl⟩
  refine ⟨newService_initial, ?_, rfl, rfl, fun h => ?_⟩
  · refine .tail (.tail (.tail .refl (call_step ⟨⟨rfl, ?_⟩, rfl, rfl, ?_⟩ trivial))
      (call_step ⟨⟨rfl, ?_⟩, rfl, rfl, ?_⟩ trivial)) (.halt (e := .terminate 1) ⟨rfl, ?_⟩ trivial hstop)
    all_goals decide
  · have hreplied := (answered_halted_iff.mp h).2.2 1 6 rfl rfl
    cases hreplied

end Dropped

end JxCore.Termination
