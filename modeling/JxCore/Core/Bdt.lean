import JxCore.Core.Crc32
import JxCore.Core.LzoCompress

/-!
# Binary data transmission (`core/bdt.c`)

Data goes into a buffer, and from there in packages over the serial line. A package is sent until its
acknowledgement comes. What `bdtGetChar` gives and when the time is over is not up to the sender: it is
what a `Poll` says. The work memory of the compressor is never cleared and may contain anything.
-/

namespace JxCore.Bdt

open Crc32 Lib.Access Lzo

/-! ## Sizes -/

/-- `PACKAGE_MAX_RAW_SIZE`. -/
def packageMaxRawSize : Nat := 1024 * 2

/-- `PACKAGE_MAX_SIZE`. -/
def packageMaxSize : Nat := packageMaxRawSize + packageMaxRawSize / 64 + 16 + 3

/-- `MAX_LEN`. -/
def maxLen : Nat := 1024 * 2

/-! ## The state -/

/-- A turn of the inner loop of `bdtSendBuffer`. -/
structure Poll where
  /-- What `bdtGetChar` gives; `none` is a negative number. -/
  char : Option (BitVec 8)
  /-- `(t2 - t1) <= ACK_TIMEOUT` fails after it. -/
  timeout : Bool

inductive Event where
  | sent (package : List (BitVec 8))
  | got (c : BitVec 8)

inductive Halt where
  /-- No acknowledgement comes any more. -/
  | waits (log : List Event)
  /-- Something would be written behind the end of `data` or `raw`. -/
  | overflow (log : List Event)
  /-- The model gives up. -/
  | fuel (log : List Event)

/-- What has happened on the line until then. -/
def Halt.log : Halt → List Event
  | waits log | overflow log | fuel log => log

/-- `bdtBuffer`; `hasCRC` is never set. -/
structure Buffer where
  tag : BitVec 8
  isPlain : Bool
  /-- The first `used` bytes of `raw`, or of `data` behind the head. -/
  bytes : List (BitVec 8)

structure St where
  bdtOutBuf : Buffer
  bdtSeqNum : Nat
  bdtAckBuf : Nat → BitVec 8
  pos : Nat
  /-- What has happened on the line. -/
  log : List Event

/-- What the sender cannot foresee: the content of `wrkmem` before each of the packages to come, and the
polls. -/
structure Line where
  wrkmem : Nat → Nat → Int
  polls : List Poll

/-! ## Packages -/

/-- `bdtAck`. -/
def bdtAck (num : BitVec 8) (char : Option (BitVec 8)) (s : St) : Bool × St :=
  match char with
  | none => (false, s)
  | some c =>
    let buf := fun i => if i = s.pos then c else s.bdtAckBuf i
    let pos := (s.pos + 1) % 3
    let s := { s with bdtAckBuf := buf, pos, log := s.log ++ [.got c] }
    (buf ((pos + 3 - 3) % 3) = 0x41#8 ∧ buf ((pos + 3 - 2) % 3) = num ∧ buf ((pos + 3 - 1) % 3) = ~~~num, s)

/-- The loops of `bdtSendBuffer`, after the package has been sent for the first time. -/
def awaitAck (package : List (BitVec 8)) (num : BitVec 8) : List Poll → St → Except Halt (List Poll × St)
  | [], s => throw (.waits s.log)
  | poll :: polls, s =>
    match bdtAck num poll.char s with
    | (true, s) => pure (polls, s)
    | (false, s) =>
      awaitAck package num polls (if poll.timeout then { s with log := s.log ++ [.sent package] } else s)

/-- The tag, the number, the length, the bytes and the check. -/
def package (tag num : BitVec 8) (len : BitVec 16) (bytes : List (BitVec 8)) : List (BitVec 8) :=
  withCrc (tag :: num :: byteOf len 0 :: byteOf len 1 :: bytes)

/-- `bdtSendBuffer` up to its loops. The length of what is compressed is negative. -/
def makePackage (wrkmem : Nat → Int) (buf : Buffer) (num : BitVec 8) : Option (List (BitVec 8)) :=
  if buf.isPlain then
    some (package buf.tag num (BitVec.ofNat 16 buf.bytes.length) buf.bytes)
  else
    match compress buf.bytes wrkmem with
    | none => none
    | some bytes =>
      if bytes.length ≤ packageMaxSize then
        some (package buf.tag num (-BitVec.ofNat 16 bytes.length) bytes)
      else
        none

/-- `bdtSendBuffer`. -/
def bdtSendBuffer (l : Line) (s : St) : Except Halt (Line × St) :=
  let num := BitVec.ofNat 8 s.bdtSeqNum
  match makePackage (l.wrkmem 0) s.bdtOutBuf num with
  | none => throw (.overflow s.log)
  | some p => do
    let s := { s with bdtSeqNum := s.bdtSeqNum + 1, log := s.log ++ [.sent p] }
    let (polls, s) ← awaitAck p num l.polls s
    pure (⟨fun n => l.wrkmem (n + 1), polls⟩, { s with bdtOutBuf := { s.bdtOutBuf with bytes := [] } })

/-- `bdtFlushBuffer`. -/
def bdtFlushBuffer (l : Line) (s : St) : Except Halt (Line × St) :=
  if s.bdtOutBuf.bytes.length ≠ 0 then bdtSendBuffer l s else pure (l, s)

/-- `bdtBufferInit`. -/
def bdtBufferInit (tag : BitVec 8) (isPlain : Bool) (s : St) : St :=
  { s with bdtOutBuf := { tag, isPlain, bytes := [] } }

/-- How much fits behind the head, or into `raw`. -/
def Buffer.room (buf : Buffer) : Nat := if buf.isPlain then packageMaxSize else packageMaxRawSize

/-- How many of `len` bytes are copied in one turn. -/
def piece (max used len : Nat) : Nat :=
  let l := u4 (2 ^ 32 + max - used)
  if len < l then len else l

def St.copyIn (s : St) (src : List (BitVec 8)) : St :=
  { s with bdtOutBuf := { s.bdtOutBuf with bytes := s.bdtOutBuf.bytes ++ src } }

/-- The loop of `bdtAddToBuffer`. -/
def addLoop (max : Nat) : Nat → List (BitVec 8) → Line → St → Except Halt (Line × St)
  | 0, _, _, s => throw (.fuel s.log)
  | fuel + 1, src, l, s =>
    if src.length = 0 then
      pure (l, s)
    else do
      let n := piece max s.bdtOutBuf.bytes.length src.length
      let s := s.copyIn (src.take n)
      if s.bdtOutBuf.room < s.bdtOutBuf.bytes.length then
        throw (.overflow s.log)
      else
        let (l, s) ← if s.bdtOutBuf.bytes.length = max then bdtSendBuffer l s else pure (l, s)
        addLoop max fuel (src.drop n) l s

/-- `bdtAddToBuffer`. At most one turn of its loop copies nothing. -/
def bdtAddToBuffer (src : List (BitVec 8)) (max : Nat) (l : Line) (s : St) : Except Halt (Line × St) :=
  addLoop max (src.length + 2) src l s

/-! ## Calls -/

/-- The bytes of a text. -/
def ascii (text : String) : List (BitVec 8) := text.toList.map fun c => BitVec.ofNat 8 c.toNat

/-- `bdtStart`. -/
def bdtStart (l : Line) (s : St) : Except Halt (Line × St) := do
  let s := bdtBufferInit 0x53#8 true { s with bdtSeqNum := 0 }
  let (l, s) ← bdtAddToBuffer (ascii "startBDT") maxLen l s
  bdtFlushBuffer l s

/-- `bdtStop`. -/
def bdtStop (l : Line) (s : St) : Except Halt (Line × St) := do
  let (l, s) ← bdtFlushBuffer l s
  let (l, s) ← bdtAddToBuffer (ascii "endBDT") maxLen l (bdtBufferInit 0x53#8 true s)
  bdtFlushBuffer l s

/-- `bdtStartChunk`. -/
def bdtStartChunk (id : List (BitVec 8)) (size nelem : BitVec 32) (sendCompressed : Bool) (l : Line) (s : St) :
    Except Halt (Line × St) := do
  let (l, s) ← bdtFlushBuffer l s
  let (l, s) ← bdtAddToBuffer (u4Bytes (BitVec.ofNat 32 id.length)) maxLen l (bdtBufferInit 0x53#8 true s)
  let (l, s) ← bdtAddToBuffer (u4Bytes size) maxLen l s
  let (l, s) ← bdtAddToBuffer (u4Bytes nelem) maxLen l s
  let (l, s) ← bdtAddToBuffer id maxLen l s
  if sendCompressed then do
    let (l, s) ← bdtFlushBuffer l s
    pure (l, bdtBufferInit 0x53#8 false s)
  else
    pure (l, s)

/-- `bdtSend`, where `data` has `size * nelem` bytes. -/
def bdtSend (data : List (BitVec 8)) (l : Line) (s : St) : Except Halt (Line × St) :=
  bdtAddToBuffer data 1111 l s

/-! ## Runs -/

inductive Call where
  | start
  | stop
  | startChunk (id : List (BitVec 8)) (size nelem : BitVec 32) (sendCompressed : Bool)
  | send (data : List (BitVec 8))

def Call.run : Call → Line → St → Except Halt (Line × St)
  | start => bdtStart
  | stop => bdtStop
  | startChunk id size nelem sendCompressed => bdtStartChunk id size nelem sendCompressed
  | send data => bdtSend data

def run : List Call → Line → St → Except Halt (Line × St)
  | [], l, s => pure (l, s)
  | call :: calls, l, s => do
    let (l, s) ← call.run l s
    run calls l s

/-- Before the first call. -/
def boot : St where
  bdtOutBuf := ⟨0#8, false, []⟩
  bdtSeqNum := 0
  bdtAckBuf := fun _ => 0#8
  pos := 0
  log := []

end JxCore.Bdt
