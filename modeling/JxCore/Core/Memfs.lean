import JxCore.Basic
import JxCore.Lib.Footprint

/-!
# Files in memory (`core/memfs.c`)

A file of the boot archive is a piece of memory with a position. Every operation checks that the
position is not at the end, and then reads as many bytes as it wants to: four for an integer, as many as
the caller or the file says for a string. `Fits` is the check that is missing.
-/

namespace JxCore.Memfs

open Lib Access

/-! ## The operations -/

/-- The part of a `FileDesc` that reading depends on. -/
structure FileDesc where
  pos : BitVec 32
  data : Address
  size : BitVec 32
  deriving DecidableEq

/-- A routine that may stop in `domain_panic` or `sys_panic`. -/
abbrev Acc := Access Stop

/-- `domain_panic(curdom(), ...)`; `terminateDomain` does not accept the current domain. -/
def domainPanic {α : Type} : Acc α := throw (.assertion "curdom() != domain")

/-- `memfs_eof`. -/
def memfsEof (desc : FileDesc) : Prop := ¬ desc.pos.toNat < desc.size.toNat

instance (desc : FileDesc) : Decidable (memfsEof desc) := inferInstanceAs (Decidable (¬ _))

/-- The byte or word at the position. -/
def FileDesc.cur (desc : FileDesc) : Address := desc.data + desc.pos

def FileDesc.advance (desc : FileDesc) (n : BitVec 32) : FileDesc := { desc with pos := desc.pos + n }

/-- `memfs_readByte`; `none` is the result -1. -/
def memfsReadByte (desc : FileDesc) : Acc (Option (BitVec 8) × FileDesc) :=
  if memfsEof desc then return (none, desc)
  else do
    let value ← read8 desc.cur
    return (some value, desc.advance 1)

/-- `memfs_readInt`. -/
def memfsReadInt (desc : FileDesc) : Acc (Option (BitVec 32) × FileDesc) :=
  if memfsEof desc then return (none, desc)
  else do
    let value ← read32 desc.cur
    return (some value, desc.advance 4)

/-- `memcpy`, whose length is unsigned. -/
def memcpy (dst src : Address) (length : BitVec 32) : Acc Unit := repMovsb length.toNat src dst

/-- `memfs_readStringData`; `false` is the result -1. -/
def memfsReadStringData (desc : FileDesc) (buf : Address) (length : BitVec 32) :
    Acc (Bool × FileDesc) :=
  if memfsEof desc then return (false, desc)
  else do
    memcpy buf desc.cur length
    write8 (buf + length) 0
    return (true, desc.advance length)

/-- `memfs_readString`. -/
def memfsReadString (desc : FileDesc) (buf : Address) (nbuf : BitVec 32) : Acc (Bool × FileDesc) := do
  match ← memfsReadInt desc with
  | (none, desc) => return (false, desc)
  | (some length, desc) =>
    if nbuf.toInt ≤ length.toInt then domainPanic else memfsReadStringData desc buf length

/-- The part of `memfs_getString` behind the length. `malloc_code` is given as the place it puts the
string at; `none` is its panic. -/
def getStringData (mallocCode : BitVec 32 → Option Address) (desc : FileDesc) (length : BitVec 32) :
    Acc (Bool × FileDesc) :=
  if 10000 < length.toInt then domainPanic
  else
    match mallocCode (length + 1) with
    | none => throw (.panic "NO MORE CODE")
    | some strbuf => memfsReadStringData desc strbuf length

/-- `memfs_getString`. -/
def memfsGetString (mallocCode : BitVec 32 → Option Address) (desc : FileDesc) :
    Acc (Bool × FileDesc) := do
  match ← memfsReadInt desc with
  | (none, desc) => return (false, desc)
  | (some length, desc) => getStringData mallocCode desc length

/-- `memfs_readCode`. -/
def memfsReadCode (desc : FileDesc) (buf : Address) (nbuf : BitVec 32) : Acc (Bool × FileDesc) :=
  if memfsEof desc then return (false, desc)
  else do
    memcpy buf desc.cur nbuf
    return (true, desc.advance nbuf)

/-- `memfs_seek`. -/
def memfsSeek (desc : FileDesc) (pos : BitVec 32) : Acc (Bool × FileDesc) :=
  return (true, { desc with pos := pos })

/-! ## Sequences of calls -/

inductive Op where
  | readByte
  | readInt
  | readString (buf : Address) (nbuf : BitVec 32)
  | getString
  | readStringData (buf : Address) (length : BitVec 32)
  | readCode (buf : Address) (nbuf : BitVec 32)
  | seek (pos : BitVec 32)

/-- A file and the memory. -/
structure State where
  desc : FileDesc
  machine : Machine

section Calls

variable (mallocCode : BitVec 32 → Option Address)

/-- The call, and whether it succeeds. -/
def Op.exec (desc : FileDesc) : Op → Acc (Bool × FileDesc)
  | readByte => do
    let (value, desc) ← memfsReadByte desc
    return (value.isSome, desc)
  | readInt => do
    let (value, desc) ← memfsReadInt desc
    return (value.isSome, desc)
  | readString buf nbuf => memfsReadString desc buf nbuf
  | getString => memfsGetString mallocCode desc
  | readStringData buf length => memfsReadStringData desc buf length
  | readCode buf nbuf => memfsReadCode desc buf nbuf
  | seek pos => memfsSeek desc pos

/-- The memory, with an empty record of accesses. -/
def State.fresh (s : State) : Machine := { s.machine with reads := [], writes := [] }

/-- The length in front of the string at the position. -/
def State.length (s : State) : BitVec 32 := word32 s.fresh s.desc.cur

/-- The bytes of the file. -/
def FileDesc.Inside (desc : FileDesc) (x : Address) : Prop := (x - desc.data).toNat < desc.size.toNat

/-- The bytes that the call may write to. -/
def Op.Buffer (s : State) : Op → Address → Prop
  | readByte, _ => False
  | readInt, _ => False
  | readString buf nbuf, x => Run buf nbuf.toInt.toNat x
  | getString, x => ∃ strbuf, mallocCode (s.length + 1) = some strbuf ∧
      Run strbuf (s.length.toInt + 1).toNat x
  | readStringData buf length, x => Run buf (length.toInt + 1).toNat x
  | readCode buf nbuf, x => Run buf nbuf.toInt.toNat x
  | seek _, _ => False

/-- The call reads only bytes of the file and writes only bytes of the buffer, and if it fails the
position is unchanged. -/
def Bounded (op : Op) (s : State) : Prop :=
  ∀ r m, (op.exec mallocCode s.desc).run s.fresh = (r, m) →
    (∀ x ∈ m.reads, s.desc.Inside x) ∧ (∀ x ∈ m.writes, op.Buffer mallocCode s x) ∧
      ∀ desc, r = .ok (false, desc) → desc.pos = s.desc.pos

/-- There are `n` bytes left from offset `k` behind the position on. -/
def FileDesc.Left (desc : FileDesc) (k n : Nat) : Prop := desc.pos.toNat + k + n ≤ desc.size.toNat

/-- The string whose length is at the position is complete, and the file does not end behind the
length. -/
def State.StringLeft (s : State) : Prop :=
  0 ≤ s.length.toInt ∧ s.desc.Left 4 1 ∧ s.desc.Left 4 s.length.toNat

/-- What the operations do not check. -/
def Fits (op : Op) (s : State) : Prop :=
  memfsEof s.desc ∨
    match op with
    | .readByte => True
    | .readInt => s.desc.Left 0 4
    | .readString _ nbuf => s.desc.Left 0 4 ∧ (nbuf.toInt ≤ s.length.toInt ∨ s.StringLeft)
    | .getString => s.desc.Left 0 4 ∧
        (10000 < s.length.toInt ∨ mallocCode (s.length + 1) = none ∨ s.StringLeft)
    | .readStringData _ length => 0 ≤ length.toInt ∧ s.desc.Left 0 length.toNat
    | .readCode _ nbuf => 0 ≤ nbuf.toInt ∧ s.desc.Left 0 nbuf.toNat
    | .seek _ => True

/-- The state after a call that comes back. -/
def step (op : Op) (s : State) : Option State :=
  match (op.exec mallocCode s.desc).run s.fresh with
  | (.ok r, m) => some ⟨r.2, m⟩
  | (.error _, _) => none

/-- Every call of a sequence meets `P` in the state it is made in. -/
def AlongRun (P : Op → State → Prop) : List Op → State → Prop
  | [], _ => True
  | op :: ops, s => P op s ∧ ∀ s', step mallocCode op s = some s' → AlongRun P ops s'

/-! ## What each call touches -/

variable {mallocCode} {op : Op} {s : State} {desc : FileDesc} {m : Machine}

/-- A call whose accesses are known. -/
theorem bounded_iff_of_outcome {r : Except Stop (Bool × FileDesc)} {R W : Address → Prop}
    (h : Outcome (op.exec mallocCode s.desc) s.fresh r R W) :
    Bounded mallocCode op s ↔ (∀ x, R x → s.desc.Inside x) ∧
      (∀ x, W x → op.Buffer mallocCode s x) ∧
      ∀ desc, r = .ok (false, desc) → desc.pos = s.desc.pos := by
  constructor
  · intro hb
    obtain ⟨m', hrun, hr, hw⟩ := h
    obtain ⟨hreads, hwrites, hpos⟩ := hb r m' hrun
    exact ⟨fun x hx => hreads x ((hr x).mpr (Or.inl hx)),
      fun x hx => hwrites x ((hw x).mpr (Or.inl hx)), hpos⟩
  · rintro ⟨hreads, hwrites, hpos⟩ r' m' hrun
    obtain ⟨rfl, hr, hw⟩ := h.unique hrun
    refine ⟨fun x hx => hreads x ?_, fun x hx => hwrites x ?_, hpos⟩
    · exact ((hr x).mp hx).resolve_right List.not_mem_nil
    · exact ((hw x).mp hx).resolve_right List.not_mem_nil

theorem FileDesc.run_cur_iff (desc : FileDesc) (n : Nat) :
    (∀ x, Run desc.cur n x → desc.Inside x) ↔ n = 0 ∨ desc.Left 0 n := by
  have h : desc.Left 0 n ↔ desc.pos.toNat + n ≤ desc.size.toNat := by rw [FileDesc.Left, Nat.add_zero]
  rw [h]
  exact run_inside_iff desc.size.isLt

/-- At the end of the file every call fails. -/
theorem exec_of_eof (h : memfsEof desc) (hop : ∀ pos, op ≠ .seek pos) :
    op.exec mallocCode desc = pure (false, desc) := by
  have hint : memfsReadInt desc = pure (none, desc) := if_pos h
  cases op with
  | readByte =>
    rw [Op.exec, memfsReadByte, if_pos h]
    rfl
  | readInt =>
    rw [Op.exec, hint]
    rfl
  | readString buf nbuf =>
    rw [Op.exec, memfsReadString, hint]
    rfl
  | getString =>
    rw [Op.exec, memfsGetString, hint]
    rfl
  | readStringData buf length => exact if_pos h
  | readCode buf nbuf => exact if_pos h
  | seek pos => exact absurd rfl (hop pos)

theorem outcome_readInt (h : ¬ memfsEof desc) (m : Machine) :
    Outcome (memfsReadInt desc) m (.ok (some (word32 m desc.cur), desc.advance 4))
      (Run desc.cur 4) (fun _ => False) := by
  rw [memfsReadInt, if_neg h]
  exact (Outcome.read32 desc.cur m).map fun value => (some value, desc.advance 4)

/-- The copy and the terminating zero. -/
theorem outcome_readStringData (h : ¬ memfsEof desc) (buf : Address) (length : BitVec 32)
    (m : Machine) :
    Outcome (memfsReadStringData desc buf length) m (.ok (true, desc.advance length))
      (Run desc.cur length.toNat)
      (fun x => Run buf length.toNat x ∨ Run (buf + length) 1 x) := by
  rw [memfsReadStringData, if_neg h]
  have hcopy : Footprint (memcpy buf desc.cur length) (Run desc.cur length.toNat)
      (Run buf length.toNat) := Footprint.repMovsb length.toNat desc.cur buf
  have hzero : Footprint (write8 (buf + length) 0 : Acc Unit) (fun _ => False)
      (Run (buf + length) 1) := Footprint.write8 (buf + length) 0
  have hboth := Outcome.of_footprint (hcopy.bind fun _ => hzero) (true, desc.advance length) m
  rw [bind_assoc] at hboth
  exact hboth.congr (fun x => by simp) (fun x => Iff.rfl)

theorem outcome_readCode (h : ¬ memfsEof desc) (buf : Address) (nbuf : BitVec 32) (m : Machine) :
    Outcome (memfsReadCode desc buf nbuf) m (.ok (true, desc.advance nbuf))
      (Run desc.cur nbuf.toNat) (Run buf nbuf.toNat) := by
  rw [memfsReadCode, if_neg h]
  exact Outcome.of_footprint (Footprint.repMovsb nbuf.toNat desc.cur buf) _ m

theorem outcome_readString (h : ¬ memfsEof s.desc) {buf : Address} {nbuf : BitVec 32}
    {r : Except Stop (Bool × FileDesc)} {R W : Address → Prop}
    (hrest : ∀ m', Outcome (if nbuf.toInt ≤ s.length.toInt then domainPanic
      else memfsReadStringData (s.desc.advance 4) buf s.length) m' r R W) :
    Outcome ((Op.readString buf nbuf).exec mallocCode s.desc) s.fresh r
      (fun x => Run s.desc.cur 4 x ∨ R x) (fun x => False ∨ W x) :=
  (outcome_readInt h s.fresh).bind hrest

theorem outcome_getString (h : ¬ memfsEof s.desc) {r : Except Stop (Bool × FileDesc)}
    {R W : Address → Prop}
    (hrest : ∀ m', Outcome (getStringData mallocCode (s.desc.advance 4) s.length) m' r R W) :
    Outcome (Op.getString.exec mallocCode s.desc) s.fresh r (fun x => Run s.desc.cur 4 x ∨ R x)
      (fun x => False ∨ W x) :=
  (outcome_readInt h s.fresh).bind hrest

/-! ## When a call is bounded -/

/-- A negative length is a huge one for `memcpy`. -/
theorem writes_iff {buf : Address} {length : BitVec 32} {k : Nat} (hk : k < 2 ^ 32)
    (hpos : 0 ≤ length.toInt → length.toNat + 1 ≤ k) (hneg : length.toInt < 0 → k < length.toNat) :
    (∀ x, Run buf length.toNat x ∨ Run (buf + length) 1 x → Run buf k x) ↔ 0 ≤ length.toInt := by
  constructor
  · intro h
    by_contra hlt
    have hle := (run_subset_iff hk).mp fun x hx => h x (Or.inl hx)
    have := hneg (by omega)
    omega
  · intro hlen x hx
    refine (run_subset_iff hk).mpr (hpos hlen) x ((run_add buf length.toNat 1 x).mpr ?_)
    rwa [BitVec.ofNat_toNat, BitVec.setWidth_eq]

theorem bounded_readByte (h : ¬ memfsEof s.desc) : Bounded mallocCode .readByte s := by
  have hout : Outcome (Op.exec mallocCode s.desc .readByte) s.fresh (.ok (true, s.desc.advance 1))
      (Run s.desc.cur 1) (fun _ => False) := by
    rw [Op.exec, memfsReadByte, if_neg h, bind_assoc]
    exact (Outcome.read8 s.desc.cur s.fresh).map fun _ => (true, s.desc.advance 1)
  refine (bounded_iff_of_outcome hout).mpr ⟨(s.desc.run_cur_iff 1).mpr (Or.inr ?_),
    fun x hx => absurd hx id, fun desc hr => ?_⟩
  · rw [FileDesc.Left]
    have := not_not.mp h
    omega
  · cases hr

/-- A call that only reads `n` bytes from the position on. -/
theorem bounded_iff_of_reads {r : Except Stop (Bool × FileDesc)} {n : Nat} (hn : n ≠ 0)
    (hr : ∀ desc, r ≠ .ok (false, desc))
    (h : Outcome (op.exec mallocCode s.desc) s.fresh r (Run s.desc.cur n) (fun _ => False)) :
    Bounded mallocCode op s ↔ s.desc.Left 0 n := by
  rw [bounded_iff_of_outcome h, s.desc.run_cur_iff, or_iff_right hn]
  exact and_iff_left ⟨fun x hx => absurd hx id, fun desc hok => absurd hok (hr desc)⟩

theorem bounded_readInt_iff (h : ¬ memfsEof s.desc) :
    Bounded mallocCode .readInt s ↔ s.desc.Left 0 4 := by
  have hout : Outcome (Op.exec mallocCode s.desc .readInt) s.fresh (.ok (true, s.desc.advance 4))
      (Run s.desc.cur 4) (fun _ => False) :=
    (outcome_readInt h s.fresh).map fun p => (p.1.isSome, p.2)
  exact bounded_iff_of_reads (by decide) (fun desc hok => by cases hok) hout

theorem bounded_readStringData_iff (h : ¬ memfsEof s.desc) (buf : Address) (length : BitVec 32) :
    Bounded mallocCode (.readStringData buf length) s ↔
      0 ≤ length.toInt ∧ s.desc.Left 0 length.toNat := by
  have hcur := not_not.mp h
  have hsign := toInt_cases length
  have hout : Outcome ((Op.readStringData buf length).exec mallocCode s.desc) s.fresh _ _ _ :=
    outcome_readStringData h buf length s.fresh
  rw [bounded_iff_of_outcome hout, s.desc.run_cur_iff]
  have hwrites := @writes_iff buf length (length.toInt + 1).toNat (by omega) (by omega) (by omega)
  show _ ∧ (∀ x, _ → Run buf (length.toInt + 1).toNat x) ∧ _ ↔ _
  rw [hwrites]
  constructor
  · rintro ⟨hreads, hlen, -⟩
    refine ⟨hlen, hreads.elim (fun h0 => ?_) id⟩
    rw [FileDesc.Left]
    omega
  · rintro ⟨hlen, hleft⟩
    exact ⟨Or.inr hleft, hlen, fun desc hok => by cases hok⟩

theorem bounded_readCode_iff (h : ¬ memfsEof s.desc) (buf : Address) (nbuf : BitVec 32) :
    Bounded mallocCode (.readCode buf nbuf) s ↔ 0 ≤ nbuf.toInt ∧ s.desc.Left 0 nbuf.toNat := by
  have hcur := not_not.mp h
  have hsign := toInt_cases nbuf
  have hout : Outcome ((Op.readCode buf nbuf).exec mallocCode s.desc) s.fresh _ _ _ :=
    outcome_readCode h buf nbuf s.fresh
  rw [bounded_iff_of_outcome hout, s.desc.run_cur_iff]
  show _ ∧ (∀ x, _ → Run buf nbuf.toInt.toNat x) ∧ _ ↔ _
  rw [run_subset_iff (by omega)]
  constructor
  · rintro ⟨hreads, hlen, -⟩
    refine ⟨by omega, hreads.elim (fun h0 => ?_) id⟩
    rw [FileDesc.Left]
    omega
  · rintro ⟨hlen, hleft⟩
    exact ⟨Or.inr hleft, by omega, fun desc hok => by cases hok⟩

/-- The two operations that read a length and then so many bytes into a buffer of `k` bytes. -/
theorem bounded_string_iff (buf : Address) {k : Nat} (hk : k < 2 ^ 32)
    (hexec : ∀ {r R W},
      (∀ m', Outcome (memfsReadStringData (s.desc.advance 4) buf s.length) m' r R W) →
        Outcome (op.exec mallocCode s.desc) s.fresh r (fun x => Run s.desc.cur 4 x ∨ R x)
          (fun x => False ∨ W x))
    (hbuf : ∀ x, op.Buffer mallocCode s x ↔ Run buf k x)
    (hpos : 0 ≤ s.length.toInt → s.length.toNat + 1 ≤ k)
    (hneg : s.length.toInt < 0 → k < s.length.toNat) :
    Bounded mallocCode op s ↔ s.desc.Left 0 4 ∧ s.StringLeft := by
  have hlt := s.desc.size.isLt
  have hsplit {R : Address → Prop} : (∀ x, Run s.desc.cur 4 x ∨ R x → s.desc.Inside x) ↔
      s.desc.Left 0 4 ∧ ∀ x, R x → s.desc.Inside x := by
    rw [← (s.desc.run_cur_iff 4).trans (or_iff_right (by decide))]
    exact ⟨fun hx => ⟨fun x hr => hx x (Or.inl hr), fun x hr => hx x (Or.inr hr)⟩,
      fun hx x hr => hr.elim (hx.1 x) (hx.2 x)⟩
  have hadvance (h4 : s.desc.Left 0 4) : (s.desc.advance 4).pos.toNat = s.desc.pos.toNat + 4 := by
    have hfour : (4 : BitVec 32).toNat = 4 := rfl
    rw [FileDesc.Left] at h4
    show (s.desc.pos + 4).toNat = _
    rw [BitVec.toNat_add, hfour]
    exact Nat.mod_eq_of_lt (by omega)
  by_cases heof : memfsEof (s.desc.advance 4)
  -- nothing is left behind the length, which has been read already
  · have hout := hexec fun m' => (if_pos heof : memfsReadStringData _ buf s.length = _) ▸
      Outcome.pure (false, s.desc.advance 4) m'
    rw [bounded_iff_of_outcome hout]
    constructor
    · rintro ⟨-, -, hsame⟩
      have hpos : s.desc.pos + 4 = s.desc.pos := hsame _ rfl
      exact absurd hpos (by bv_omega)
    · rintro ⟨h4, -, hmore, -⟩
      refine absurd ?_ heof
      show (s.desc.advance 4).pos.toNat < s.desc.size.toNat
      rw [hadvance h4]
      rw [FileDesc.Left] at hmore
      omega
  · rw [bounded_iff_of_outcome (hexec (outcome_readStringData heof buf s.length)), hsplit]
    have hwrites : (∀ x, False ∨ (Run buf s.length.toNat x ∨ Run (buf + s.length) 1 x) →
        op.Buffer mallocCode s x) ↔ 0 ≤ s.length.toInt := by
      rw [← @writes_iff buf s.length k hk hpos hneg]
      exact forall_congr' fun x => by rw [false_or, hbuf]
    rw [hwrites]
    have hsecond (h4 : s.desc.Left 0 4) : (∀ x, Run (s.desc.advance 4).cur s.length.toNat x →
        s.desc.Inside x) ↔ s.desc.Left 4 1 ∧ s.desc.Left 4 s.length.toNat := by
      have hmore := not_not.mp heof
      have hiff : (∀ x, Run (s.desc.advance 4).cur s.length.toNat x → s.desc.Inside x) ↔ _ :=
        (s.desc.advance 4).run_cur_iff s.length.toNat
      have hsize : (s.desc.advance 4).size = s.desc.size := rfl
      rw [hiff]
      simp only [FileDesc.Left, hadvance h4, hsize] at hmore ⊢
      omega
    constructor
    · rintro ⟨⟨h4, hreads⟩, hlen, -⟩
      exact ⟨h4, hlen, (hsecond h4).mp hreads⟩
    · rintro ⟨h4, hlen, hleft⟩
      exact ⟨⟨h4, (hsecond h4).mpr hleft⟩, hlen, fun desc hok => by cases hok⟩

/-- The two operations when they panic behind the length. -/
theorem bounded_iff_of_panic (e : Stop)
    (h : Outcome (op.exec mallocCode s.desc) s.fresh (.error e)
      (fun x => Run s.desc.cur 4 x ∨ False) (fun _ => False ∨ False)) :
    Bounded mallocCode op s ↔ s.desc.Left 0 4 :=
  bounded_iff_of_reads (by decide) (fun desc hok => by cases hok)
    (h.congr (fun x => or_iff_left id) (fun x => or_iff_left id))

theorem bounded_readString_iff (h : ¬ memfsEof s.desc) (buf : Address) (nbuf : BitVec 32) :
    Bounded mallocCode (.readString buf nbuf) s ↔
      s.desc.Left 0 4 ∧ (nbuf.toInt ≤ s.length.toInt ∨ s.StringLeft) := by
  have hsign := toInt_cases nbuf
  have hlen := toInt_cases s.length
  by_cases hsmall : nbuf.toInt ≤ s.length.toInt
  · rw [and_iff_left (Or.inl hsmall)]
    refine bounded_iff_of_panic (.assertion "curdom() != domain") (outcome_readString h fun m' => ?_)
    rw [if_pos hsmall]
    exact Outcome.throw _ m'
  · rw [or_iff_right hsmall]
    refine bounded_string_iff buf (by omega : nbuf.toInt.toNat < 2 ^ 32)
      (fun hrest => outcome_readString h fun m' => ?_) (fun x => Iff.rfl) (by omega) (by omega)
    rw [if_neg hsmall]
    exact hrest m'

theorem bounded_getString_iff (h : ¬ memfsEof s.desc) :
    Bounded mallocCode .getString s ↔ s.desc.Left 0 4 ∧
      (10000 < s.length.toInt ∨ mallocCode (s.length + 1) = none ∨ s.StringLeft) := by
  have hlen := toInt_cases s.length
  by_cases hbig : 10000 < s.length.toInt
  · rw [and_iff_left (Or.inl hbig)]
    refine bounded_iff_of_panic (.assertion "curdom() != domain") (outcome_getString h fun m' => ?_)
    rw [getStringData, if_pos hbig]
    exact Outcome.throw _ m'
  · rw [or_iff_right hbig]
    cases hcode : mallocCode (s.length + 1) with
    | none =>
      rw [and_iff_left (Or.inl rfl)]
      refine bounded_iff_of_panic (.panic "NO MORE CODE") (outcome_getString h fun m' => ?_)
      rw [getStringData, if_neg hbig, hcode]
      exact Outcome.throw _ m'
    | some strbuf =>
      rw [or_iff_right (by simp)]
      refine bounded_string_iff strbuf (by omega : (s.length.toInt + 1).toNat < 2 ^ 32)
        (fun hrest => outcome_getString h fun m' => ?_) (fun x => ?_) (by omega) (by omega)
      · rw [getStringData, if_neg hbig, hcode]
        exact hrest m'
      · simp only [Op.Buffer, hcode, Option.some.injEq, exists_eq_left']

/-- A call that touches nothing. -/
theorem bounded_of_pure {p : Bool × FileDesc} (h : op.exec mallocCode s.desc = pure p)
    (hpos : p.1 = false → p.2.pos = s.desc.pos) : Bounded mallocCode op s := by
  refine (bounded_iff_of_outcome (h ▸ Outcome.pure p s.fresh)).mpr
    ⟨fun x hx => absurd hx id, fun x hx => absurd hx id, fun desc hr => ?_⟩
  obtain rfl := Except.ok.inj hr
  exact hpos rfl

theorem bounded_seek (pos : BitVec 32) : Bounded mallocCode (.seek pos) s :=
  bounded_of_pure rfl fun h => Bool.noConfusion h

/-- **The check that is missing.** -/
theorem bounded_iff_fits (op : Op) (s : State) : Bounded mallocCode op s ↔ Fits mallocCode op s := by
  by_cases heof : memfsEof s.desc
  · refine iff_of_true ?_ (Or.inl heof)
    by_cases hop : ∃ pos, op = .seek pos
    · obtain ⟨pos, rfl⟩ := hop
      exact bounded_seek pos
    · exact bounded_of_pure (exec_of_eof heof fun pos h => hop ⟨pos, h⟩) fun _ => rfl
  · refine Iff.trans ?_ (or_iff_right heof).symm
    cases op with
    | readByte => exact iff_of_true (bounded_readByte heof) trivial
    | readInt => exact bounded_readInt_iff heof
    | readString buf nbuf => exact bounded_readString_iff heof buf nbuf
    | getString => exact bounded_getString_iff heof
    | readStringData buf length => exact bounded_readStringData_iff heof buf length
    | readCode buf nbuf => exact bounded_readCode_iff heof buf nbuf
    | seek pos => exact iff_of_true (bounded_seek pos) trivial

end Calls

/-- **The reader is bounded exactly along the sequences that fit**: for every file and every sequence
of calls, all calls read only bytes of the file, write only bytes of the buffer and leave the position
alone when they fail, if and only if each of them finds the bytes it wants. -/
theorem bounded_alongRun_iff (mallocCode : BitVec 32 → Option Address) (ops : List Op) (s : State) :
    AlongRun mallocCode (Bounded mallocCode) ops s ↔ AlongRun mallocCode (Fits mallocCode) ops s := by
  induction ops generalizing s with
  | nil => exact Iff.rfl
  | cons op ops ih => exact and_congr (bounded_iff_fits op s) (forall₂_congr fun s' _ => ih s')

/-- A file of one byte, from which an integer is read. -/
theorem not_bounded_readInt : ¬ ∀ (mallocCode : BitVec 32 → Option Address) (ops : List Op) (s : State),
    AlongRun mallocCode (Bounded mallocCode) ops s := by
  intro h
  have hrun := h (fun _ => none) [.readInt] ⟨⟨0, 0x100000, 1⟩, ⟨fun _ => 0, [], []⟩⟩
  exact absurd ((bounded_readInt_iff (by decide)).mp hrun.1) (by unfold FileDesc.Left; decide)

end JxCore.Memfs
