import JxCore.Basic
import JxCore.Lib.Lz

/-!
# Decompression (`core/minilzo.c`)

`lzo1x_decompress` trusts its input and `lzo1x_decompress_safe` does not; they are compiled from one
text, in which the tests are left out or not. The labels of this text are the states of a machine. A
pointer is its distance from the start of its buffer, and counters are of type `u4_t`. Without the tests
a match may go back to what stands in front of the output, and the output may go on behind its buffer, as
far as there is memory; it does not lie in the input.
-/

namespace JxCore.Lzo

open Lib.Lz

/-! ## The machine -/

inductive Code where
  | ok
  | eofNotFound
  | inputNotConsumed
  | inputOverrun
  | outputOverrun
  | lookbehindOverrun
  deriving DecidableEq, Repr

/-- How a call ends. -/
inductive Exit where
  /-- The code that is returned, and what has been written. -/
  | returned (code : Code) (op : List (BitVec 8))
  /-- An access to what is no memory of the call. -/
  | outside
  deriving DecidableEq, Repr

structure Config where
  /-- `LZO_TEST_DECOMPRESS_OVERRUN`. -/
  safe : Bool
  /-- What can be read from `in` on. -/
  mem : List (BitVec 8)
  /-- `in_len`. -/
  inLen : Nat
  /-- `*out_len` at first. -/
  outLen : Nat
  /-- What can be read in front of `out`, in the order of the addresses. -/
  before : List (BitVec 8)
  /-- How many bytes can be written from `out` on. -/
  room : Nat

structure St where
  ip : Nat
  /-- What has been written to `out`. -/
  op : List (BitVec 8)

/-- `(lzo_uint) (a - b)`. -/
def u4sub (a b : Nat) : Nat := u4 (2 ^ 32 - u4 b + a)

inductive Label where
  /-- The head of the outer loop. -/
  | literal
  | firstLiteralRun
  | code (t : Nat)
  | matchDone
  | matchNext (t : Nat)
  deriving DecidableEq, Repr

namespace Config

variable (c : Config)

/-- `*ip`. -/
def read (ip : Nat) : Except Exit Nat :=
  match c.mem[ip]? with
  | some b => pure b.toNat
  | none => throw .outside

/-- `NEED_IP(x)`. -/
def needIp (x : Nat) (s : St) : Except Exit Unit :=
  if c.safe ∧ u4sub c.inLen s.ip < u4 x then throw (.returned .inputOverrun s.op) else pure ()

/-- `NEED_OP(x)`. -/
def needOp (x : Nat) (s : St) : Except Exit Unit :=
  if c.safe ∧ u4sub c.outLen s.op.length < u4 x then throw (.returned .outputOverrun s.op) else pure ()

/-- `while (--t > 0)` does not stop in time if `t` is 0; `assert` is empty. -/
def positive (t : Nat) : Except Exit Unit := if 0 < t then pure () else throw .outside

/-- There is memory for what has been written. -/
def put (op : List (BitVec 8)) : Except Exit (List (BitVec 8)) :=
  if op.length ≤ c.room then pure op else throw .outside

/-- `*op++ = *ip++`, `n` times. -/
def copyLiterals (n : Nat) (s : St) : Except Exit St :=
  if s.ip + n ≤ c.mem.length then do
    let op ← c.put (s.op ++ (c.mem.drop s.ip).take n)
    pure ⟨s.ip + n, op⟩
  else
    throw .outside

/-- Words of four bytes as long as there is one, and then bytes. -/
def copyWords (dist : Nat) : Nat → List (BitVec 8) → List (BitVec 8)
  | t + 4, op => copyWords dist t (copyBlock dist 4 op)
  | t, op => copyBack dist t op

/-- A long match: `t + 2` bytes from `dist` places back. -/
def copyLong (dist t : Nat) (op : List (BitVec 8)) : List (BitVec 8) :=
  if 6 ≤ t ∧ 4 ≤ dist then copyWords dist (t - 2) (copyBlock dist 4 op) else copyBack dist (t + 2) op

/-- `TEST_LOOKBEHIND(m_pos, out)`, where `m_pos` is `dist` places back. Without the test there has to be
memory. -/
def testLookbehind (dist : Nat) (s : St) : Except Exit Unit :=
  if c.safe ∧ s.op.length < dist then
    throw (.returned .lookbehindOverrun s.op)
  else if c.before.length + s.op.length < dist then
    throw .outside
  else
    pure ()

/-- A match of `n` bytes, which `copy` makes with a loop that counts from `t` on. -/
def copyMatch (dist n t : Nat) (copy : List (BitVec 8) → List (BitVec 8)) (s : St) :
    Except Exit (Label × St) := do
  c.testLookbehind dist s
  c.needOp n s
  positive t
  let op ← c.put ((copy (c.before ++ s.op)).drop c.before.length)
  pure (.matchDone, { s with op })

/-- `while (*ip == 0)`, and what comes after it. -/
def zeroRun (base : Nat) : List (BitVec 8) → Nat → St → Except Exit (Nat × St)
  | [], _, _ => throw .outside
  | b :: rest, t, s =>
    if b.toNat = 0 then do
      c.needIp 1 { s with ip := s.ip + 1 }
      zeroRun base rest (u4 (t + 255)) { s with ip := s.ip + 1 }
    else
      pure (u4 (t + (base + b.toNat)), { s with ip := s.ip + 1 })

/-- A length that is not in its code is in the bytes that follow. -/
def runLength (base t : Nat) (s : St) : Except Exit (Nat × St) :=
  if t = 0 then do
    c.needIp 1 s
    c.zeroRun base (c.mem.drop s.ip) t s
  else
    pure (t, s)

/-- From the label `match` on. -/
def stepCode (t : Nat) (s : St) : Except Exit (Label × St) :=
  if 64 ≤ t then do
    let b ← c.read s.ip
    let s := { s with ip := s.ip + 1 }
    let dist := 1 + (t >>> 2 &&& 7) + (b <<< 3)
    let t := (t >>> 5) - 1
    c.copyMatch dist (t + 2) t (copyBack dist (t + 2)) s
  else if 32 ≤ t then do
    let (t, s) ← c.runLength 31 (t &&& 31) s
    let b₀ ← c.read s.ip
    let b₁ ← c.read (s.ip + 1)
    let dist := 1 + ((b₀ + (b₁ <<< 8)) >>> 2)
    c.copyMatch dist (t + 2) t (copyLong dist t) { s with ip := s.ip + 2 }
  else if 16 ≤ t then do
    let high := (t &&& 8) <<< 11
    let (t, s) ← c.runLength 7 (t &&& 7) s
    let b₀ ← c.read s.ip
    let b₁ ← c.read (s.ip + 1)
    let s := { s with ip := s.ip + 2 }
    let dist := high + ((b₀ + (b₁ <<< 8)) >>> 2)
    if dist = 0 then
      throw <| .returned (if s.ip = c.inLen then .ok else
        if s.ip < c.inLen then .inputNotConsumed else .inputOverrun) s.op
    else
      c.copyMatch (dist + 0x4000) (t + 2) t (copyLong (dist + 0x4000) t) s
  else do
    let b ← c.read s.ip
    let dist := 1 + (t >>> 2) + (b <<< 2)
    c.copyMatch dist 2 1 (copyBack dist 2) { s with ip := s.ip + 1 }

/-- From one label to the next one. -/
def step : Label → St → Except Exit (Label × St)
  | .literal, s =>
    if c.safe ∧ ¬ s.ip < c.inLen then
      throw (.returned .eofNotFound s.op)
    else do
      let t ← c.read s.ip
      let s := { s with ip := s.ip + 1 }
      if 16 ≤ t then
        pure (.code t, s)
      else do
        let (t, s) ← c.runLength 15 t s
        c.needOp (t + 3) s
        c.needIp (t + 4) s
        positive t
        let s ← c.copyLiterals (t + 3) s
        pure (.firstLiteralRun, s)
  | .firstLiteralRun, s => do
    let t ← c.read s.ip
    let s := { s with ip := s.ip + 1 }
    if 16 ≤ t then
      pure (.code t, s)
    else do
      let b ← c.read s.ip
      let dist := 1 + 0x800 + (t >>> 2) + (b <<< 2)
      c.copyMatch dist 3 1 (copyBack dist 3) { s with ip := s.ip + 1 }
  | .code t, s => c.stepCode t s
  | .matchDone, s => do
    let b ← c.read (s.ip - 2)
    if b &&& 3 = 0 then pure (.literal, s) else pure (.matchNext (b &&& 3), s)
  | .matchNext t, s => do
    c.needOp t s
    c.needIp (t + 1) s
    positive t
    let s ← c.copyLiterals t s
    let t ← c.read s.ip
    let s := { s with ip := s.ip + 1 }
    -- the test of the inner loop; the outer one makes it once more
    if c.safe ∧ ¬ s.ip < c.inLen then pure (.literal, s) else pure (.code t, s)

/-- `if (*ip > 17)`. -/
def start : Except Exit (Label × St) := do
  let t ← c.read 0
  if 17 < t then
    if t - 17 < 4 then
      pure (.matchNext (t - 17), ⟨1, []⟩)
    else do
      c.needOp (t - 17) ⟨1, []⟩
      c.needIp (t - 17 + 1) ⟨1, []⟩
      positive (t - 17)
      let s ← c.copyLiterals (t - 17) ⟨1, []⟩
      pure (.firstLiteralRun, s)
  else
    pure (.literal, ⟨0, []⟩)

def run : Nat → Label × St → Option Exit
  | 0, _ => none
  | fuel + 1, x =>
    match c.step x.1 x.2 with
    | .error e => some e
    | .ok y => run fuel y

/-- `lzo1x_decompress` and `lzo1x_decompress_safe`. -/
def decompress (fuel : Nat) : Option Exit :=
  match c.start with
  | .error e => some e
  | .ok x => c.run fuel x

end Config

end JxCore.Lzo
