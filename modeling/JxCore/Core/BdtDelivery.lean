import JxCore.Core.BdtAck
import JxCore.Core.LzoRoundTrip
import JxCore.Lib.StopAndWait

/-!
# What arrives (`core/bdt.c`)

The source has only the sender. A package means what `decode` gives, and a receiver that waits for the
packages by their numbers gets the bytes of all calls, in order and once, from whatever copies arrive as
long as there is one of each. No buffer overflows if the name of an uncompressed chunk is not too long.
-/

namespace JxCore.Bdt

open Crc32 Lib.Access Lib.StopAndWait Lzo

/-! ## Packages -/

/-- The bytes of a compressed package. -/
def unpack (fuel : Nat) (bytes : List (BitVec 8)) : Option (List (BitVec 8)) :=
  match (⟨true, bytes, bytes.length, packageMaxRawSize, [], packageMaxRawSize⟩ : Config).decompress fuel with
  | some (.returned .ok raw) => some raw
  | _ => none

/-- The number and the bytes of a package, if its check is right. -/
def decode (fuel : Nat) : List (BitVec 8) → Option (Nat × List (BitVec 8))
  | tag :: num :: l₀ :: l₁ :: rest =>
    let len := (l₁ ++ l₀ : BitVec 16).toInt
    let bytes := rest.take len.natAbs
    if tag :: num :: l₀ :: l₁ :: rest = withCrc (tag :: num :: l₀ :: l₁ :: bytes) then
      if 0 ≤ len then some (num.toNat, bytes) else (unpack fuel bytes).map fun raw => (num.toNat, raw)
    else
      none
  | _ => none

section Packages

variable {tag num : BitVec 8} {len : BitVec 16} {bytes : List (BitVec 8)} {fuel : Nat}

theorem byteOf_append (len : BitVec 16) : (byteOf len 1 ++ byteOf len 0 : BitVec 16) = len := by
  refine BitVec.eq_of_getLsbD_eq fun i hi => ?_
  rw [BitVec.getLsbD_append, byteOf, byteOf, BitVec.getLsbD_extractLsb', BitVec.getLsbD_extractLsb']
  split
  · next hlow => simp [hlow]
  · next hhigh =>
    have hlt : i - 8 < 8 := by omega
    have hidx : 8 * 1 + (i - 8) = i := by omega
    rw [decide_eq_true hlt, Bool.true_and, hidx]

theorem decode_package (hlen : len.toInt.natAbs = bytes.length) :
    decode fuel (package tag num len bytes) =
      if 0 ≤ len.toInt then some (num.toNat, bytes) else (unpack fuel bytes).map fun raw => (num.toNat, raw) := by
  have hshape : package tag num len bytes = tag :: num :: byteOf len 0 :: byteOf len 1 ::
      (bytes ++ u4Bytes (crc32end (crc32 crc32start
        (tag :: num :: byteOf len 0 :: byteOf len 1 :: bytes)))) := rfl
  rw [hshape, decode, byteOf_append, hlen, List.take_left]
  exact if_pos hshape.symm

theorem toInt_length {n : Nat} (hn : n < 2 ^ 15) : (BitVec.ofNat 16 n).toInt = n := by
  have hnat : (BitVec.ofNat 16 n).toNat = n := by
    rw [BitVec.toNat_ofNat]
    omega
  rw [BitVec.toInt_eq_toNat_of_lt (by omega), hnat]

theorem toInt_neg_length {n : Nat} (hn : n < 2 ^ 15) : (-BitVec.ofNat 16 n).toInt = -n := by
  have hint := toInt_length hn
  rw [BitVec.toInt_neg_of_ne_intMin, hint]
  intro hmin
  rw [hmin] at hint
  have hneg : (BitVec.intMin 16).toInt = -32768 := rfl
  omega

/-- A package means what is in the buffer. -/
theorem makePackage_decode (num : BitVec 8) (wrkmem : Nat → Int) {buf : Buffer}
    (hplain : buf.isPlain = true → buf.bytes.length ≤ maxLen)
    (hpacked : buf.isPlain = false → buf.bytes.length ≤ 1111) :
    ∃ p, makePackage wrkmem buf num = some p ∧
      ∃ enough, ∀ fuel, enough ≤ fuel → decode fuel p = some (num.toNat, buf.bytes) := by
  unfold makePackage
  split
  · next h =>
    have hsmall : buf.bytes.length < 2 ^ 15 := Nat.lt_of_le_of_lt (hplain h) (by decide)
    have hlen := toInt_length hsmall
    refine ⟨_, rfl, 0, fun fuel _ => ?_⟩
    rw [decode_package (by rw [hlen]; rfl), hlen, if_pos (Int.natCast_nonneg _)]
  · next h =>
    have hsmall := hpacked (Bool.eq_false_iff.mpr h)
    obtain ⟨op, hop, harrives, hsize⟩ := compress_some buf.bytes wrkmem
    generalize hout : op ++ [17#8, 0#8, 0#8] = out at hop
    have hlength : out.length = op.length + 3 := hout ▸ List.length_append
    have hroom : out.length ≤ packageMaxSize := by
      rw [hlength]
      show op.length + 3 ≤ 2099
      omega
    have hholds : (⟨true, out, out.length, packageMaxRawSize, [], packageMaxRawSize⟩ : Config).Holds
        buf.bytes.length :=
      ⟨⟨by show out.length < 2 ^ 32; omega, by show 2048 < 2 ^ 32; decide⟩, rfl,
        by show buf.bytes.length ≤ 2048; omega, le_refl _⟩
    obtain ⟨enough, hround⟩ := harrives.decompress hholds hout.symm
    have hlen := toInt_neg_length (n := out.length) (by omega)
    rw [hop]
    simp only
    rw [if_pos hroom]
    refine ⟨_, rfl, enough, fun fuel hfuel => ?_⟩
    have hunpack : unpack fuel out = some buf.bytes := by
      unfold unpack
      rw [hround fuel hfuel]
    rw [decode_package (by rw [hlen]; omega), hlen, if_neg (by omega), hunpack]
    rfl

end Packages

/-! ## What is on the line -/

/-- A receiver gets `data` from what is on the line, and from each part of it that has a copy of each
package. -/
def Received (data : List (BitVec 8)) (log : List Event) : Prop :=
  ∃ sent, Repeats sent (wire log) ∧ ∃ enough, ∀ fuel, enough ≤ fuel → ∀ heard, Repeats sent heard →
    (receive (decode fuel) 256 0 heard).flatten = data

/-- How a call ends if no more than `given` is to be sent: if it does not come back, a part of that has
been sent. -/
def Ends {α : Type} (given : List (BitVec 8)) (P : α → Prop) : Except Halt α → Prop
  | .ok x => P x
  | .error (.waits log) => ∃ data, data <+: given ∧ Received data log
  | .error _ => False

/-- The packages that have been sent contain `data`. -/
structure Sent (data : List (BitVec 8)) (n : Nat) (log : List Event) : Prop where
  exists_sent : ∃ sent datas, Repeats sent (wire log) ∧ sent.length = n ∧ datas.flatten = data ∧
    ∃ enough, ∀ fuel, enough ≤ fuel → Numbered (decode fuel) 256 0 sent datas

/-- What has been given is in packages or in the buffer. -/
structure Carries (given : List (BitVec 8)) (s : St) : Prop where
  sent : ∃ data, Sent data s.bdtSeqNum s.log ∧ data ++ s.bdtOutBuf.bytes = given
  plain : s.bdtOutBuf.isPlain = true → s.bdtOutBuf.bytes.length ≤ maxLen
  packed : s.bdtOutBuf.isPlain = false → s.bdtOutBuf.bytes.length ≤ 1111

section Line

variable {α β : Type} {l : Line} {s : St} {p given total data bytes src : List (BitVec 8)}
  {log : List Event} {P : α → Prop} {Q : β → Prop} {n max fuel : Nat}

theorem Ends.bind {x : Except Halt α} {g : α → Except Halt β} (hx : Ends total P x)
    (hg : ∀ a, P a → Ends total Q (g a)) : Ends total Q (x >>= g) := by
  cases x with
  | ok a => exact hg a hx
  | error e => cases e <;> exact hx

theorem Ends.mono {P' : α → Prop} {x : Except Halt α} (h : Ends total P x) (hsub : ∀ a, P a → P' a) :
    Ends total P' x := by
  cases x with
  | ok a => exact hsub a h
  | error e => cases e <;> exact h

theorem Sent.received (h : Sent data n log) : Received data log := by
  obtain ⟨sent, datas, hrepeats, -, hdata, enough, hnumbered⟩ := h.exists_sent
  refine ⟨sent, hrepeats, enough, fun fuel hfuel heard hheard => ?_⟩
  rw [receive_repeats (by decide) hheard (hnumbered fuel hfuel), hdata]

/-- One more package, with all its copies. -/
theorem Sent.snoc {k : Nat} {log' : List Event} (h : Sent data n log)
    (hdecode : ∃ enough, ∀ fuel, enough ≤ fuel → decode fuel p = some ((BitVec.ofNat 8 n).toNat, bytes))
    (hwire : wire log' = wire log ++ p :: List.replicate k p) : Sent (data ++ bytes) (n + 1) log' := by
  obtain ⟨sent, datas, hrepeats, hlength, hdata, enough, hnumbered⟩ := h.exists_sent
  obtain ⟨enough', hdecode⟩ := hdecode
  refine ⟨sent ++ [p], datas ++ [bytes], ?_, ?_, ?_, Nat.max enough enough', fun fuel hfuel => ?_⟩
  · rw [hwire]
    exact hrepeats.append (repeats_replicate k)
  · rw [List.length_append, hlength, List.length_singleton]
  · rw [List.flatten_append, hdata, List.flatten_singleton]
  · refine (hnumbered fuel (Nat.le_trans (Nat.le_max_left _ _) hfuel)).append (.cons ?_ .nil)
    rw [hdecode fuel (Nat.le_trans (Nat.le_max_right _ _) hfuel), BitVec.toNat_ofNat, hlength, Nat.zero_add]

theorem bdtAck_frame (num : BitVec 8) (char : Option (BitVec 8)) (s : St) :
    (bdtAck num char s).2.bdtOutBuf = s.bdtOutBuf ∧ (bdtAck num char s).2.bdtSeqNum = s.bdtSeqNum ∧
      wire (bdtAck num char s).2.log = wire s.log := by
  cases char with
  | none => exact ⟨rfl, rfl, rfl⟩
  | some c => exact ⟨rfl, rfl, wire_got⟩

/-- The line gets copies of the package, and the buffer stays as it is. -/
theorem awaitAck_wire (num : BitVec 8) (polls : List Poll) (s : St) :
    (∃ polls' s' k, awaitAck p num polls s = .ok (polls', s') ∧ s'.bdtOutBuf = s.bdtOutBuf ∧
      s'.bdtSeqNum = s.bdtSeqNum ∧ wire s'.log = wire s.log ++ List.replicate k p) ∨
    ∃ log k, awaitAck p num polls s = .error (.waits log) ∧ wire log = wire s.log ++ List.replicate k p := by
  induction polls generalizing s with
  | nil => exact .inr ⟨s.log, 0, rfl, (List.append_nil _).symm⟩
  | cons poll polls ih =>
    obtain ⟨hbuf, hnum, hwire⟩ := bdtAck_frame num poll.char s
    unfold awaitAck
    split
    · next s₁ hack =>
      rw [hack] at hbuf hnum hwire
      exact .inl ⟨polls, s₁, 0, rfl, hbuf, hnum, hwire.trans (List.append_nil _).symm⟩
    · next s₁ hack =>
      rw [hack] at hbuf hnum hwire
      -- the package may be sent once more before the next poll
      have hnext : ∃ j s₂, (if poll.timeout then { s₁ with log := s₁.log ++ [.sent p] } else s₁) = s₂ ∧
          s₂.bdtOutBuf = s.bdtOutBuf ∧ s₂.bdtSeqNum = s.bdtSeqNum ∧
          wire s₂.log = wire s.log ++ List.replicate j p := by
        split
        · refine ⟨1, _, rfl, hbuf, hnum, ?_⟩
          rw [wire_sent, hwire]
          rfl
        · exact ⟨0, _, rfl, hbuf, hnum, hwire.trans (List.append_nil _).symm⟩
      obtain ⟨j, s₂, hs₂, hbuf₂, hnum₂, hwire₂⟩ := hnext
      rw [hs₂]
      rcases ih s₂ with ⟨polls', s', k, hrun, hbuf', hnum', hwire'⟩ | ⟨log, k, hrun, hwire'⟩
      · refine .inl ⟨polls', s', j + k, hrun, hbuf'.trans hbuf₂, hnum'.trans hnum₂, ?_⟩
        rw [hwire', hwire₂, List.append_assoc, List.replicate_append_replicate]
      · refine .inr ⟨log, j + k, hrun, ?_⟩
        rw [hwire', hwire₂, List.append_assoc, List.replicate_append_replicate]

/-- The buffer is empty again, and what was in it is in a package. -/
theorem bdtSendBuffer_carries (h : Carries given s) (hgiven : given <+: total) :
    Ends total (fun y : Line × St => Carries given y.2 ∧ y.2.bdtOutBuf = { s.bdtOutBuf with bytes := [] })
      (bdtSendBuffer l s) := by
  obtain ⟨⟨data, hsent, hdata⟩, hplain, hpacked⟩ := h
  obtain ⟨p, hmake, hdecode⟩ :=
    makePackage_decode (BitVec.ofNat 8 s.bdtSeqNum) (l.wrkmem 0) hplain hpacked
  have hcopies : ∀ k, wire (s.log ++ [.sent p]) ++ List.replicate k p =
      wire s.log ++ p :: List.replicate k p := by
    intro k
    rw [wire_sent, List.append_assoc, List.singleton_append]
  unfold bdtSendBuffer
  simp only
  rw [hmake]
  show Ends total _
    (awaitAck p _ l.polls { s with bdtSeqNum := s.bdtSeqNum + 1, log := s.log ++ [.sent p] } >>= _)
  rcases awaitAck_wire (BitVec.ofNat 8 s.bdtSeqNum) l.polls
      { s with bdtSeqNum := s.bdtSeqNum + 1, log := s.log ++ [.sent p] } with
    ⟨polls', s', k, hrun, hbuf, hnum, hwire⟩ | ⟨log, k, hrun, hwire⟩
  · rw [hrun]
    have hnext := hsent.snoc hdecode (hwire.trans (hcopies k))
    have hnumber : s'.bdtSeqNum = s.bdtSeqNum + 1 := hnum
    rw [← hnumber] at hnext
    refine ⟨⟨⟨_, hnext, ?_⟩, fun _ => Nat.zero_le _, fun _ => Nat.zero_le _⟩, ?_⟩
    · rw [← hdata]
      exact List.append_nil _
    · show ({ s'.bdtOutBuf with bytes := [] } : Buffer) = _
      rw [hbuf]
  · rw [hrun]
    have hnext := hsent.snoc hdecode (hwire.trans (hcopies k))
    exact ⟨given, hgiven, hdata ▸ hnext.received⟩

theorem bdtFlushBuffer_carries (h : Carries given s) (hgiven : given <+: total) :
    Ends total (fun y : Line × St => Carries given y.2 ∧ y.2.bdtOutBuf = { s.bdtOutBuf with bytes := [] })
      (bdtFlushBuffer l s) := by
  unfold bdtFlushBuffer
  split
  · exact bdtSendBuffer_carries h hgiven
  · next hempty =>
    have hnil : s.bdtOutBuf.bytes = [] := List.length_eq_zero_iff.mp (Decidable.not_not.mp hempty)
    refine ⟨h, ?_⟩
    rw [← hnil]

/-! ## What is added -/

theorem piece_eq {used : Nat} (len : Nat) (hused : used ≤ max) (hmax : max < 2 ^ 32) :
    piece max used len = min len (max - used) := by
  have hrest : u4 (2 ^ 32 + max - used) = max - used := by
    unfold u4
    omega
  unfold piece
  simp only
  rw [hrest, Nat.min_def]
  split <;> split <;> omega

/-- What `src` has been added to. -/
structure Added (max : Nat) (given src : List (BitVec 8)) (s s' : St) : Prop where
  carries : Carries (given ++ src) s'
  isPlain : s'.bdtOutBuf.isPlain = s.bdtOutBuf.isPlain
  le : s'.bdtOutBuf.bytes.length ≤ max
  small : s.bdtOutBuf.bytes.length + src.length < max →
    s'.bdtOutBuf.bytes.length = s.bdtOutBuf.bytes.length + src.length

/-- The largest size of a package of the buffer. -/
structure Allowed (max : Nat) (s : St) : Prop where
  pos : 0 < max
  plain : s.bdtOutBuf.isPlain = true → max ≤ maxLen
  packed : s.bdtOutBuf.isPlain = false → max ≤ 1111

theorem Allowed.le (h : Allowed max s) : max ≤ maxLen := by
  cases hplain : s.bdtOutBuf.isPlain with
  | true => exact h.plain hplain
  | false => exact Nat.le_trans (h.packed hplain) (by decide)

theorem Allowed.room (h : Allowed max s) : max ≤ s.bdtOutBuf.room := by
  refine Nat.le_trans h.le ?_
  unfold Buffer.room
  split <;> decide

/-- Bytes that fit are copied. -/
theorem Carries.copyIn (h : Carries given s) (hmax : Allowed max s)
    (hle : (s.copyIn bytes).bdtOutBuf.bytes.length ≤ max) : Carries (given ++ bytes) (s.copyIn bytes) := by
  obtain ⟨⟨data, hsent, hdata⟩, -, -⟩ := h
  refine ⟨⟨data, hsent, ?_⟩, fun hplain => Nat.le_trans hle (hmax.plain hplain),
    fun hpacked => Nat.le_trans hle (hmax.packed hpacked)⟩
  rw [← hdata, List.append_assoc]
  rfl

/-- Each turn copies what fits, and sends what is full. -/
theorem addLoop_added (h : Carries given s) (hgiven : given ++ src <+: total) (hmax : Allowed max s)
    (hle : s.bdtOutBuf.bytes.length ≤ max)
    (hfuel : src.length + (if s.bdtOutBuf.bytes.length = max then 1 else 0) < fuel) :
    Ends total (fun y : Line × St => Added max given src s y.2) (addLoop max fuel src l s) := by
  induction fuel generalizing src l s given with
  | zero => omega
  | succ fuel ih =>
    unfold addLoop
    split
    · next hnil =>
      obtain rfl := List.length_eq_zero_iff.mp hnil
      refine ⟨?_, rfl, hle, fun _ => rfl⟩
      rw [List.append_nil]
      exact h
    next hsome =>
    have hbig : max < 2 ^ 32 := Nat.lt_of_le_of_lt hmax.le (by decide)
    have hpiece := piece_eq src.length hle hbig
    simp only
    generalize hn : piece max s.bdtOutBuf.bytes.length src.length = n at *
    have hnle : n ≤ src.length := hpiece ▸ Nat.min_le_left _ _
    have hnfit : n ≤ max - s.bdtOutBuf.bytes.length := hpiece ▸ Nat.min_le_right _ _
    have hcopied : (s.copyIn (src.take n)).bdtOutBuf.bytes.length = s.bdtOutBuf.bytes.length + n := by
      show (s.bdtOutBuf.bytes ++ src.take n).length = _
      rw [List.length_append, List.length_take, Nat.min_eq_left hnle]
    have hdrop : (src.drop n).length = src.length - n := List.length_drop
    have hcarries : Carries (given ++ src.take n) (s.copyIn (src.take n)) := h.copyIn hmax (by omega)
    have hall : given ++ src.take n ++ src.drop n = given ++ src := by
      rw [List.append_assoc, List.take_append_drop]
    rw [if_neg (by rw [hcopied]; have hroom := hmax.room; show ¬ s.bdtOutBuf.room < _; omega)]
    split
    · next hfull =>
      have hpart : given ++ src.take n <+: total := by
        rw [← hall] at hgiven
        exact (List.prefix_append _ _).trans hgiven
      refine (bdtSendBuffer_carries hcarries hpart).bind fun y hy => ?_
      obtain ⟨hcarries', hbuf⟩ := hy
      have hempty : y.2.bdtOutBuf.bytes.length = 0 := by rw [hbuf]; rfl
      have hplain : y.2.bdtOutBuf.isPlain = s.bdtOutBuf.isPlain := by rw [hbuf]; rfl
      have hmax' : Allowed max y.2 := ⟨hmax.pos, hplain ▸ hmax.plain, hplain ▸ hmax.packed⟩
      have hpos := hmax.pos
      have hrest : (src.drop n).length + (if y.2.bdtOutBuf.bytes.length = max then 1 else 0) < fuel := by
        rw [hempty, if_neg (by omega), hdrop]
        split at hfuel <;> omega
      refine (ih hcarries' (hall ▸ hgiven) hmax' (by omega) hrest).mono fun z hz => ?_
      refine ⟨hall ▸ hz.carries, hz.isPlain.trans hplain, hz.le, fun hsmall => ?_⟩
      omega
    · next hpart =>
      -- there was room for everything
      have hpos := hmax.pos
      have hn : n = src.length := by omega
      have hnone : (src.drop n).length = 0 := by omega
      have hrest : (src.drop n).length +
          (if (s.copyIn (src.take n)).bdtOutBuf.bytes.length = max then 1 else 0) < fuel := by
        rw [if_neg hpart, hnone]
        omega
      have hmax' : Allowed max (s.copyIn (src.take n)) := ⟨hmax.pos, hmax.plain, hmax.packed⟩
      refine (ih hcarries (hall ▸ hgiven) hmax' (by omega) hrest).mono fun z hz => ?_
      refine ⟨hall ▸ hz.carries, hz.isPlain, hz.le, fun hsmall => ?_⟩
      have hsame := hz.small (by omega)
      omega

theorem bdtAddToBuffer_added (h : Carries given s) (hgiven : given ++ src <+: total) (hmax : Allowed max s)
    (hle : s.bdtOutBuf.bytes.length ≤ max) :
    Ends total (fun y : Line × St => Added max given src s y.2) (bdtAddToBuffer src max l s) := by
  refine addLoop_added h hgiven hmax hle ?_
  split <;> omega

/-- What comes before the data is not compressed. -/
theorem plain_added (h : Carries given s) (hplain : s.bdtOutBuf.isPlain = true)
    (hgiven : given ++ src <+: total) :
    Ends total (fun y : Line × St => Added maxLen given src s y.2) (bdtAddToBuffer src maxLen l s) := by
  refine bdtAddToBuffer_added h hgiven ⟨by decide, fun _ => Nat.le_refl _, fun hpacked => ?_⟩ (h.plain hplain)
  rw [hplain] at hpacked
  cases hpacked

/-- A text that is sent at once. -/
theorem message_carries (h : Carries given s) (hplain : s.bdtOutBuf.isPlain = true)
    (hgiven : given ++ src <+: total) :
    Ends total (fun y : Line × St => Carries (given ++ src) y.2 ∧ y.2.bdtOutBuf.bytes = [])
      (do let (l, s) ← bdtAddToBuffer src maxLen l s; bdtFlushBuffer l s) := by
  refine (plain_added h hplain hgiven).bind fun y hy => ?_
  refine (bdtFlushBuffer_carries hy.carries hgiven).mono fun z hz => ⟨hz.1, ?_⟩
  rw [hz.2]

end Line

/-! ## Calls -/

/-- The bytes that a call gives. -/
def Call.bytes : Call → List (BitVec 8)
  | start => ascii "startBDT"
  | stop => ascii "endBDT"
  | startChunk id size nelem _ => u4Bytes (BitVec.ofNat 32 id.length) ++ u4Bytes size ++ u4Bytes nelem ++ id
  | send data => data

/-- A call within a transmission. The head of an uncompressed chunk may not be longer than a package of
`bdtSend`. -/
def Call.Within : Call → Prop
  | start => False
  | startChunk id _ _ sendCompressed => sendCompressed = false → id.length + 12 ≤ 1111
  | _ => True

/-- Between two calls. -/
structure Between (given : List (BitVec 8)) (s : St) : Prop where
  carries : Carries given s
  le : s.bdtOutBuf.bytes.length ≤ 1111

section Calls

variable {l : Line} {s : St} {given total : List (BitVec 8)}

theorem Carries.init {tag : BitVec 8} {isPlain : Bool} (h : Carries given s) (hnil : s.bdtOutBuf.bytes = []) :
    Carries given (bdtBufferInit tag isPlain s) := by
  obtain ⟨⟨data, hsent, hdata⟩, -, -⟩ := h
  refine ⟨⟨data, hsent, ?_⟩, fun _ => Nat.zero_le _, fun _ => Nat.zero_le _⟩
  rw [← hdata, hnil]
  rfl

theorem bdtStop_between (h : Between given s) (hgiven : given ++ ascii "endBDT" <+: total) :
    Ends total (fun y : Line × St => Carries (given ++ ascii "endBDT") y.2 ∧ y.2.bdtOutBuf.bytes = [])
      (bdtStop l s) := by
  refine (bdtFlushBuffer_carries h.carries ((List.prefix_append _ _).trans hgiven)).bind fun y hy => ?_
  have hnil : y.2.bdtOutBuf.bytes = [] := by rw [hy.2]
  exact message_carries (hy.1.init hnil) rfl hgiven

theorem bdtStartChunk_between {id : List (BitVec 8)} {size nelem : BitVec 32} {sendCompressed : Bool}
    (h : Between given s) (hwithin : (Call.startChunk id size nelem sendCompressed).Within)
    (hgiven : given ++ (Call.startChunk id size nelem sendCompressed).bytes <+: total) :
    Ends total (fun y : Line × St => Between (given ++ (Call.startChunk id size nelem sendCompressed).bytes) y.2)
      (bdtStartChunk id size nelem sendCompressed l s) := by
  have hsplit : given ++ (Call.startChunk id size nelem sendCompressed).bytes =
      given ++ u4Bytes (BitVec.ofNat 32 id.length) ++ u4Bytes size ++ u4Bytes nelem ++ id := by
    simp only [Call.bytes, List.append_assoc]
  rw [hsplit] at hgiven ⊢
  -- what has been given before each of the additions
  have h₃ := (List.prefix_append _ _).trans hgiven
  have h₂ := (List.prefix_append _ _).trans h₃
  have h₁ := (List.prefix_append _ _).trans h₂
  have h₀ := (List.prefix_append _ _).trans h₁
  refine (bdtFlushBuffer_carries h.carries h₀).bind fun y₀ hy₀ => ?_
  have hnil : y₀.2.bdtOutBuf.bytes = [] := by rw [hy₀.2]
  have hinit : Carries given (bdtBufferInit 0x53#8 true y₀.2) := hy₀.1.init hnil
  refine (plain_added hinit rfl h₁).bind fun y₁ hy₁ => ?_
  refine (plain_added hy₁.carries hy₁.isPlain h₂).bind fun y₂ hy₂ => ?_
  have hplain₂ := hy₂.isPlain.trans hy₁.isPlain
  refine (plain_added hy₂.carries hplain₂ h₃).bind fun y₃ hy₃ => ?_
  have hplain₃ := hy₃.isPlain.trans hplain₂
  refine (plain_added hy₃.carries hplain₃ hgiven).bind fun y₄ hy₄ => ?_
  obtain ⟨l₄, s₄⟩ := y₄
  cases sendCompressed with
  | true =>
    refine (bdtFlushBuffer_carries hy₄.carries hgiven).bind fun y₅ hy₅ => ?_
    have hnil₅ : y₅.2.bdtOutBuf.bytes = [] := by rw [hy₅.2]
    exact ⟨hy₅.1.init hnil₅, Nat.zero_le _⟩
  | false =>
    have hid : id.length + 12 ≤ 1111 := hwithin rfl
    have hfour : ∀ x : BitVec 32, (u4Bytes x).length = 4 := fun _ => rfl
    have hmax : maxLen = 2048 := rfl
    have hzero : (bdtBufferInit 0x53#8 true y₀.2).bdtOutBuf.bytes.length = 0 := rfl
    have hlen₁ := hy₁.small (by rw [hzero, hfour]; decide)
    rw [hzero, hfour] at hlen₁
    have hlen₂ := hy₂.small (by rw [hlen₁, hfour]; decide)
    rw [hlen₁, hfour] at hlen₂
    have hlen₃ := hy₃.small (by rw [hlen₂, hfour]; decide)
    rw [hlen₂, hfour] at hlen₃
    have hlen₄ := hy₄.small (by rw [hlen₃, hmax]; omega)
    refine ⟨hy₄.carries, ?_⟩
    rw [hlen₄, hlen₃]
    omega

theorem call_between (call : Call) (h : Between given s) (hwithin : call.Within)
    (hgiven : given ++ call.bytes <+: total) :
    Ends total (fun y : Line × St => Between (given ++ call.bytes) y.2) (call.run l s) := by
  cases call with
  | start => exact hwithin.elim
  | stop =>
    refine (bdtStop_between h hgiven).mono fun y hy => ⟨hy.1, ?_⟩
    rw [hy.2]
    exact Nat.zero_le _
  | startChunk id size nelem sendCompressed => exact bdtStartChunk_between h hwithin hgiven
  | send data =>
    have hmax : Allowed 1111 s := ⟨by decide, fun _ => by decide, fun _ => Nat.le_refl _⟩
    exact (bdtAddToBuffer_added h.carries hgiven hmax h.le).mono fun y hy => ⟨hy.carries, hy.le⟩

theorem run_between (calls : List Call) (h : Between given s) (hwithin : ∀ call ∈ calls, call.Within)
    (hgiven : given ++ calls.flatMap Call.bytes <+: total) :
    Ends total (fun y : Line × St => Between (given ++ calls.flatMap Call.bytes) y.2) (run calls l s) := by
  induction calls generalizing given l s with
  | nil =>
    rw [List.flatMap_nil, List.append_nil]
    exact h
  | cons call calls ih =>
    rw [List.flatMap_cons, ← List.append_assoc] at hgiven ⊢
    have hcall := call_between (l := l) call h (hwithin call List.mem_cons_self)
      ((List.prefix_append _ _).trans hgiven)
    exact hcall.bind fun y hy => ih hy (fun c hc => hwithin c (List.mem_cons_of_mem _ hc)) hgiven

theorem run_append (calls calls' : List Call) (l : Line) (s : St) :
    run (calls ++ calls') l s = run calls l s >>= fun y => run calls' y.1 y.2 := by
  induction calls generalizing l s with
  | nil => rfl
  | cons call calls ih =>
    rw [List.cons_append, run, run, bind_assoc]
    exact bind_congr fun y => ih y.1 y.2

theorem Carries.received (h : Carries given s) (hnil : s.bdtOutBuf.bytes = []) : Received given s.log := by
  obtain ⟨⟨data, hsent, hdata⟩, -, -⟩ := h
  rw [hnil, List.append_nil] at hdata
  exact hdata ▸ hsent.received

/-- Nothing has been sent before the start. -/
theorem carries_start (s : St) :
    Carries [] (bdtBufferInit 0x53#8 true { s with bdtSeqNum := 0, log := [] }) :=
  ⟨⟨[], ⟨[], [], .nil, rfl, rfl, 0, fun _ _ => .nil⟩, rfl⟩, fun _ => Nat.zero_le _, fun _ => Nat.zero_le _⟩

/-- The bytes of a transmission. -/
def transmitted (calls : List Call) : List (BitVec 8) :=
  ascii "startBDT" ++ calls.flatMap Call.bytes ++ ascii "endBDT"

/-- From the start to the end, the receiver gets the bytes of all calls, in order and once, and if no
acknowledgement comes any more, then those of a part of them. -/
theorem transmission_received (calls : List Call) (hwithin : ∀ call ∈ calls, call.Within) (l : Line) (s : St) :
    Ends (transmitted calls) (fun y : Line × St => Received (transmitted calls) y.2.log)
      (run (.start :: calls ++ [.stop]) l { s with log := [] }) := by
  have hcalls : ascii "startBDT" ++ calls.flatMap Call.bytes <+: transmitted calls := List.prefix_append _ _
  rw [List.cons_append, run]
  refine (message_carries (carries_start s) rfl ((List.prefix_append _ _).trans hcalls)).bind fun y hy => ?_
  have hstart : Between (ascii "startBDT") y.2 := by
    refine ⟨hy.1, ?_⟩
    rw [hy.2]
    exact Nat.zero_le _
  show Ends _ _ (run (calls ++ [.stop]) y.1 y.2)
  rw [run_append]
  refine (run_between calls hstart hwithin hcalls).bind fun z hz => ?_
  exact (bdtStop_between hz (List.prefix_refl _)).bind fun w hw => hw.1.received hw.2

/-- A chunk of the monitor. -/
def monitorChunk : List Call := [.startChunk (ascii "COCA") 4 4 false, .send (ascii "1234567890123456")]

/-- A receiver that misses the second package the first time and acknowledges all three. -/
def monitorPolls : List Poll :=
  [⟨some 0x41, false⟩, ⟨some 0, false⟩, ⟨some 0xff, false⟩, ⟨none, true⟩,
    ⟨some 0x41, false⟩, ⟨some 1, false⟩, ⟨some 0xfe, false⟩,
    ⟨some 0x41, false⟩, ⟨some 2, false⟩, ⟨some 0xfd, false⟩]

/-- The transmission comes back, after four packages. -/
theorem transmission_received_monitor :
    ∃ l s, run (.start :: monitorChunk ++ [.stop]) ⟨fun _ _ => 0, monitorPolls⟩ { boot with log := [] } =
        .ok (l, s) ∧
      (wire s.log).length = 4 ∧ Received (transmitted monitorChunk) s.log := by
  have hends := transmission_received monitorChunk
    (fun call hcall => (by
      rcases List.mem_pair.mp hcall with rfl | rfl
      · exact fun _ => by decide
      · trivial)) ⟨fun _ _ => 0, monitorPolls⟩ boot
  have hrun : ∃ l s, run (.start :: monitorChunk ++ [.stop]) ⟨fun _ _ => 0, monitorPolls⟩
      { boot with log := [] } = .ok (l, s) ∧ (wire s.log).length = 4 := ⟨_, _, rfl, rfl⟩
  obtain ⟨l, s, hrun, hwire⟩ := hrun
  rw [hrun] at hends
  exact ⟨l, s, hrun, hwire, hends⟩

end Calls

end JxCore.Bdt
