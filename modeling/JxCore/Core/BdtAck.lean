import JxCore.Core.Bdt

/-!
# Acknowledgements of packages (`core/bdt.c`)

`bdtAck` keeps the last three bytes in a ring that nobody clears. Still, no package is replaced by the
next one before the three bytes that stand for it have come in, whatever else comes in, however the calls
follow each other and whether or not the sender has to repeat the package.
-/

namespace JxCore.Bdt

/-! ## The line -/

def Event.package? : Event → Option (List (BitVec 8))
  | sent p => some p
  | got _ => none

def Event.char? : Event → Option (BitVec 8)
  | sent _ => none
  | got c => some c

/-- The packages that have been sent. -/
def wire (log : List Event) : List (List (BitVec 8)) := log.filterMap Event.package?

/-- The bytes that have come in. -/
def received (log : List Event) : List (BitVec 8) := log.filterMap Event.char?

/-- The last three bytes stand for the package, whose number is its second byte. -/
def Acknowledged (p : List (BitVec 8)) (log : List Event) : Prop :=
  ∃ tag num rest before, p = tag :: num :: rest ∧ received log = before ++ [0x41#8, num, ~~~num]

/-- A package comes after another one only if that one has been acknowledged. -/
def Orderly (log : List Event) : Prop :=
  ∀ before p p' after, log = before ++ .sent p' :: after → (wire before).getLast? = some p → p ≠ p' →
    Acknowledged p before

section Line

variable {log : List Event} {p q : List (BitVec 8)} {c : BitVec 8}

theorem wire_sent : wire (log ++ [.sent p]) = wire log ++ [p] := List.filterMap_append

theorem wire_got : wire (log ++ [.got c]) = wire log := by
  rw [wire, List.filterMap_append]
  exact List.append_nil _

theorem received_sent : received (log ++ [.sent p]) = received log := by
  rw [received, List.filterMap_append]
  exact List.append_nil _

theorem received_got : received (log ++ [.got c]) = received log ++ [c] := List.filterMap_append

/-- Only the last event is new. -/
theorem Orderly.snoc {e : Event} (h : Orderly log)
    (hlast : ∀ p p', e = .sent p' → (wire log).getLast? = some p → p ≠ p' → Acknowledged p log) :
    Orderly (log ++ [e]) := by
  intro before p p' after heq hwire hne
  rcases List.eq_nil_or_concat after with rfl | ⟨after', e', rfl⟩
  · obtain ⟨rfl, hsent⟩ := List.append_inj' heq rfl
    exact hlast p p' (List.cons.inj hsent).1 hwire hne
  · have hsplit : log ++ [e] = before ++ .sent p' :: after' ++ [e'] := by
      rw [heq, List.append_assoc, List.cons_append, List.concat_eq_append]
    exact h before p p' after' (List.append_inj_left' hsplit rfl) hwire hne

theorem Orderly.got (h : Orderly log) : Orderly (log ++ [.got c]) := h.snoc nofun

theorem Orderly.sent (h : Orderly log)
    (hlast : ∀ p, (wire log).getLast? = some p → p ≠ q → Acknowledged p log) :
    Orderly (log ++ [.sent q]) := by
  refine h.snoc fun p p' heq hwire hne => ?_
  obtain rfl := Event.sent.inj heq
  exact hlast p hwire hne

end Line

/-! ## The ring -/

/-- The ring has the last bytes, and zeros before the first one. -/
structure Ring (s : St) : Prop where
  pos_lt : s.pos < 3
  recent : ∀ i < 3, s.bdtAckBuf ((s.pos + 2 - i) % 3) = (received s.log).reverse.getD i 0#8

/-- Between two calls. -/
structure Good (s : St) : Prop where
  ring : Ring s
  orderly : Orderly s.log
  last : ∀ p, (wire s.log).getLast? = some p → Acknowledged p s.log

/-- How a call may end. -/
def Disciplined {α : Type} (P : α → Prop) : Except Halt α → Prop
  | .ok x => P x
  | .error reason => Orderly reason.log

section Ring

variable {s : St} {num : BitVec 8} {p : List (BitVec 8)} {char : Option (BitVec 8)}

theorem bdtAck_ring (h : Ring s) : Ring (bdtAck num char s).2 := by
  cases char with
  | none => exact h
  | some c =>
    have hlt := h.pos_lt
    refine ⟨Nat.mod_lt _ (by decide), fun i hi => ?_⟩
    show (if ((s.pos + 1) % 3 + 2 - i) % 3 = s.pos then c else s.bdtAckBuf (((s.pos + 1) % 3 + 2 - i) % 3)) =
      (received (s.log ++ [.got c])).reverse.getD i 0#8
    rw [received_got, List.reverse_append, List.reverse_singleton, List.singleton_append]
    cases i with
    | zero =>
      have hidx : ((s.pos + 1) % 3 + 2 - 0) % 3 = s.pos := by omega
      rw [if_pos hidx, List.getD_cons_zero]
    | succ i =>
      have hidx : ((s.pos + 1) % 3 + 2 - (i + 1)) % 3 = (s.pos + 2 - i) % 3 := by omega
      have hother : (s.pos + 2 - i) % 3 ≠ s.pos := by omega
      rw [hidx, if_neg hother, h.recent i (by omega), List.getD_cons_succ]

/-- What `bdtAck` compares is what has come in last. -/
theorem bdtAck_true (h : Ring s) (hack : (bdtAck num char s).1 = true) :
    ∃ before, received (bdtAck num char s).2.log = before ++ [0x41#8, num, ~~~num] := by
  have hring : Ring (bdtAck num char s).2 := bdtAck_ring h
  cases char with
  | none => cases hack
  | some c =>
    obtain ⟨hfirst, hsecond, hthird⟩ := of_decide_eq_true hack
    have hthree := (hring.recent 2 (by decide)).symm.trans hfirst
    have htwo := (hring.recent 1 (by decide)).symm.trans hsecond
    have hone := (hring.recent 0 (by decide)).symm.trans hthird
    rw [← (received (bdtAck num (some c) s).2.log).reverse_reverse]
    -- with fewer bytes, the oldest one in the ring would be 0
    match (received (bdtAck num (some c) s).2.log).reverse, hthree, htwo, hone with
    | b₂ :: b₁ :: b₀ :: rest, hthree, htwo, hone =>
      simp only [List.getD_cons_zero, List.getD_cons_succ] at hthree htwo hone
      subst hthree htwo hone
      exact ⟨rest.reverse, by simp⟩

end Ring

/-! ## Calls -/

section Calls

variable {α β : Type} {l : Line} {s : St} {num : BitVec 8} {p : List (BitVec 8)} {P : α → Prop}
  {Q : β → Prop} {x : Except Halt α}

theorem Disciplined.bind {g : α → Except Halt β} (hx : Disciplined P x)
    (hg : ∀ y, P y → Disciplined Q (g y)) : Disciplined Q (x >>= g) := by
  cases x with
  | ok y => exact hg y hx
  | error e => exact hx

/-- While the acknowledgement of a package is awaited. -/
structure Awaiting (p : List (BitVec 8)) (s : St) : Prop where
  ring : Ring s
  orderly : Orderly s.log
  last : (wire s.log).getLast? = some p

theorem Awaiting.poll {char : Option (BitVec 8)} (h : Awaiting p s) : Awaiting p (bdtAck num char s).2 := by
  refine ⟨bdtAck_ring h.ring, ?_, ?_⟩
  · cases char with
    | none => exact h.orderly
    | some c => exact h.orderly.got
  · cases char with
    | none => exact h.last
    | some c =>
      show (wire (s.log ++ [.got c])).getLast? = some p
      rw [wire_got]
      exact h.last

/-- The package may be sent again at any time. -/
theorem Awaiting.again (h : Awaiting p s) : Awaiting p { s with log := s.log ++ [.sent p] } := by
  refine ⟨⟨h.ring.pos_lt, ?_⟩, ?_, ?_⟩
  · rw [received_sent]
    exact h.ring.recent
  · refine h.orderly.sent fun q hlast hne => ?_
    rw [h.last] at hlast
    exact absurd (Option.some.inj hlast).symm hne
  · show (wire (s.log ++ [.sent p])).getLast? = some p
    rw [wire_sent, List.getLast?_concat]

theorem awaitAck_good {tag : BitVec 8} {rest : List (BitVec 8)} (polls : List Poll)
    (h : Awaiting (tag :: num :: rest) s) :
    Disciplined (fun y => Good y.2) (awaitAck (tag :: num :: rest) num polls s) := by
  induction polls generalizing s with
  | nil => exact h.orderly
  | cons poll polls ih =>
    have hpoll : Awaiting (tag :: num :: rest) (bdtAck num poll.char s).2 := h.poll
    unfold awaitAck
    split
    · next s' hack =>
      obtain ⟨before, hbefore⟩ := bdtAck_true h.ring (congrArg Prod.fst hack)
      rw [hack] at hpoll hbefore
      refine ⟨hpoll.ring, hpoll.orderly, fun p hlast => ?_⟩
      rw [hpoll.last] at hlast
      obtain rfl := Option.some.inj hlast
      exact ⟨tag, num, rest, before, rfl, hbefore⟩
    · next s' hack =>
      rw [hack] at hpoll
      split
      · exact ih hpoll.again
      · exact ih hpoll

/-- What `makePackage` makes has the number in its second byte. -/
theorem makePackage_num {wrkmem : Nat → Int} {buf : Buffer} (h : makePackage wrkmem buf num = some p) :
    ∃ rest, p = buf.tag :: num :: rest := by
  unfold makePackage at h
  split at h
  · cases h
    exact ⟨_, rfl⟩
  · split at h
    · cases h
    · split at h
      · cases h
        exact ⟨_, rfl⟩
      · cases h

/-- Only `log`, `bdtAckBuf` and `pos` matter. -/
theorem Good.congr {s' : St} (h : Good s) (hlog : s'.log = s.log) (hbuf : s'.bdtAckBuf = s.bdtAckBuf)
    (hpos : s'.pos = s.pos) : Good s' := by
  obtain ⟨⟨hlt, hrecent⟩, horderly, hlast⟩ := h
  refine ⟨⟨hpos ▸ hlt, ?_⟩, hlog ▸ horderly, ?_⟩
  · rw [hlog, hbuf, hpos]
    exact hrecent
  · rw [hlog]
    exact hlast

theorem Good.sends (h : Good s) (p : List (BitVec 8)) :
    Awaiting p { s with bdtSeqNum := s.bdtSeqNum + 1, log := s.log ++ [.sent p] } := by
  refine ⟨⟨h.ring.pos_lt, ?_⟩, h.orderly.sent fun q hlast _ => h.last q hlast, ?_⟩
  · rw [received_sent]
    exact h.ring.recent
  · show (wire (s.log ++ [.sent p])).getLast? = some p
    rw [wire_sent, List.getLast?_concat]

theorem bdtSendBuffer_good (h : Good s) : Disciplined (fun y => Good y.2) (bdtSendBuffer l s) := by
  unfold bdtSendBuffer
  simp only
  split
  · exact h.orderly
  · next p hmake =>
    obtain ⟨rest, rfl⟩ := makePackage_num hmake
    refine (awaitAck_good l.polls (h.sends _)).bind fun y hy => ?_
    exact hy.congr rfl rfl rfl

theorem bdtFlushBuffer_good (h : Good s) : Disciplined (fun y => Good y.2) (bdtFlushBuffer l s) := by
  unfold bdtFlushBuffer
  split
  · exact bdtSendBuffer_good h
  · exact h

theorem addLoop_good {max fuel : Nat} {src : List (BitVec 8)} (h : Good s) :
    Disciplined (fun y => Good y.2) (addLoop max fuel src l s) := by
  induction fuel generalizing src l s with
  | zero => exact h.orderly
  | succ fuel ih =>
    unfold addLoop
    split
    · exact h
    · simp only
      split
      · exact h.orderly
      · -- what is copied does not show on the line
        have hcopied : ∀ bytes, Good (s.copyIn bytes) := fun _ => h.congr rfl rfl rfl
        split
        · exact Disciplined.bind (bdtSendBuffer_good (hcopied _)) fun y hy => ih hy
        · exact ih (hcopied _)

theorem call_good (call : Call) (h : Good s) : Disciplined (fun y => Good y.2) (call.run l s) := by
  cases call with
  | start =>
    refine Disciplined.bind (addLoop_good (h.congr rfl rfl rfl)) fun y hy => ?_
    exact bdtFlushBuffer_good hy
  | stop =>
    refine Disciplined.bind (bdtFlushBuffer_good h) fun y hy => ?_
    refine Disciplined.bind (addLoop_good (hy.congr rfl rfl rfl)) fun z hz => ?_
    exact bdtFlushBuffer_good hz
  | startChunk id size nelem sendCompressed =>
    refine Disciplined.bind (bdtFlushBuffer_good h) fun y₀ h₀ => ?_
    refine Disciplined.bind (addLoop_good (h₀.congr rfl rfl rfl)) fun y₁ h₁ => ?_
    refine Disciplined.bind (addLoop_good h₁) fun y₂ h₂ => ?_
    refine Disciplined.bind (addLoop_good h₂) fun y₃ h₃ => ?_
    refine Disciplined.bind (addLoop_good h₃) fun y₄ h₄ => ?_
    obtain ⟨l₄, s₄⟩ := y₄
    simp only
    split
    · refine Disciplined.bind (bdtFlushBuffer_good h₄) fun y₅ h₅ => ?_
      exact h₅.congr rfl rfl rfl
    · exact h₄
  | send data => exact addLoop_good h

theorem boot_good : Good boot :=
  ⟨⟨by decide, fun _ _ => rfl⟩, fun before _ _ _ heq => (by cases before <;> cases heq), nofun⟩

theorem run_good (calls : List Call) (h : Good s) : Disciplined (fun y => Good y.2) (run calls l s) := by
  induction calls generalizing l s with
  | nil => exact h
  | cons call calls ih => exact Disciplined.bind (call_good call h) fun y hy => ih hy

/-- However the calls follow each other and whatever comes in, a package is replaced by the next one only
after its own acknowledgement, and no call returns before. -/
theorem run_acknowledged (calls : List Call) (l : Line) :
    Disciplined (fun y => Orderly y.2.log ∧
      ∀ p, (wire y.2.log).getLast? = some p → Acknowledged p y.2.log) (run calls l boot) := by
  have hgood := run_good (l := l) calls boot_good
  generalize run calls l boot = x at hgood ⊢
  cases x with
  | ok y => exact ⟨hgood.orderly, hgood.last⟩
  | error e => exact hgood

end Calls

end JxCore.Bdt
