import JxCore.Core.Assign
import JxCore.Lib.ByteMove

/-!
# Copying arrays (`vm_arraycopy`)

The offsets and the count are unsigned, so a negative `int` from Java is a huge number and the sums in
the range test wrap. Inside one array the elements are copied from the end if the target is behind the
source, but the loop counts down from the two offsets instead of the two ends.

`arraycopy_correct_iff` says for which arguments the routine does what an array copy should do.
-/

namespace JxCore.ArrayCopy

open Exec Lib Access Assign

/-! ## The routine -/

/-- An array object: `vtable`, `arrayClass` and `size` are three words in front of the elements, which
take one word each (`ALL_ARRAYS_32BIT`). `classDesc` is what `obj2ClassDesc` gives. -/
structure ArrayDesc where
  self : Address
  classDesc : Nat
  size : BitVec 32
  deriving DecidableEq

namespace ArrayDesc

def data (a : ArrayDesc) : Address := a.self + 12

end ArrayDesc

/-- `CHECK_NULL_PTR`. -/
def checkNullPtr {α : Type} : Option α → Exec α
  | some a => pure a
  | none => throw (.throw .nullPointerException "")

/-- The test on the class of an argument; `<Array>` is let through. -/
def checkArrayClass (cs : Classes) (c : Nat) : Exec Unit :=
  if ¬ cs.isArrayClass c ∧ (cs.desc c).name ≠ "<Array>".toList then
    throw (.throw .runtimeException "")
  else pure ()

/-- The tests on the objects; `room` is what is left of the stack for `check_assign`. -/
def checkArrays (cs : Classes) (frame : Frames) (fuel room : Nat) (src dst : Option ArrayDesc) :
    Exec (ArrayDesc × ArrayDesc) := do
  let src ← checkNullPtr src
  let dst ← checkNullPtr dst
  checkArrayClass cs src.classDesc
  checkArrayClass cs dst.classDesc
  if ← cs.checkAssign frame fuel room dst.classDesc src.classDesc then pure (src, dst)
  else throw (.throw .runtimeException "")

/-- `for (i = 0; i < count; ++i) ddata[--doff] = sdata[--soff];`. -/
def backwardLoop : Nat → (sdata soff ddata doff : Address) → Access Stop Unit
  | 0, _, _, _, _ => return ()
  | n + 1, sdata, soff, ddata, doff => do
    write32 (ddata + 4 * (doff - 1)) (← read32 (sdata + 4 * (soff - 1)))
    backwardLoop n sdata (soff - 1) ddata (doff - 1)

/-- `jxwordcpy`. -/
def jxwordcpy (source target : Address) (nwords : Nat) : Access Stop Unit :=
  repMovsl nwords source target

/-- The range test and the copying. -/
def copyElements (src : ArrayDesc) (soff : BitVec 32) (dst : ArrayDesc) (doff count : BitVec 32) :
    Access Stop Unit :=
  if dst.size.ult (doff + count) || src.size.ult (soff + count) then
    throw (.throw .arrayIndexOutOfBounds "")
  else if src.data = dst.data ∧ soff.ult doff then
    backwardLoop count.toNat src.data soff dst.data doff
  else
    jxwordcpy (src.data + 4 * soff) (dst.data + 4 * doff) count.toNat

/-- `vm_arraycopy`, on a machine; the outcome is missing while `check_assign` is still running. -/
def vmArraycopy (cs : Classes) (frame : Frames) (fuel room : Nat) (src : Option ArrayDesc)
    (soff : BitVec 32) (dst : Option ArrayDesc) (doff count : BitVec 32) (m : Machine) :
    Option (Except Stop Unit × Machine) :=
  match checkArrays cs frame fuel room src dst with
  | none => none
  | some (.error e) => some (.error e, m)
  | some (.ok (src, dst)) => some ((copyElements src soff dst doff count).run m)

/-! ## What it should do -/

namespace ArrayDesc

/-- The object fits into the address space, and its size is a non-negative `jint`. -/
structure Wf (a : ArrayDesc) : Prop where
  size_lt : a.size.toNat < 2 ^ 31
  fits : a.self.toNat + 12 + 4 * a.size.toNat ≤ 2 ^ 32

/-- The address belongs to the object, header included. -/
def Occupies (a : ArrayDesc) (x : Address) : Prop := Run a.self (12 + 4 * a.size.toNat) x

/-- The address belongs to an element. -/
def Inside (a : ArrayDesc) (x : Address) : Prop := Run a.data (4 * a.size.toNat) x

/-- There is an element with this index. -/
def HasIndex (a : ArrayDesc) (i : Int) : Prop := 0 ≤ i ∧ i < a.size.toInt

/-- The element with an index. -/
def get (a : ArrayDesc) (byte : Address → BitVec 8) (i : Int) : BitVec 32 :=
  wordAt byte (a.data + 4 * BitVec.ofInt 32 i)

end ArrayDesc

/-- Two array objects are the same or have no address in common. -/
def Separate (src dst : ArrayDesc) : Prop :=
  src = dst ∨ ∀ x, src.Occupies x → ¬ dst.Occupies x

section Spec

variable (src : ArrayDesc) (soff : BitVec 32) (dst : ArrayDesc) (doff count : BitVec 32)

/-- One of the ranges ends behind its array; the arguments are `int`s. -/
def Exceeds : Prop :=
  src.size.toInt < soff.toInt + count.toInt ∨ dst.size.toInt < doff.toInt + count.toInt

/-- The elements of the target range are the old ones of the source range, and all other elements are
the same. -/
structure CopiesElements (old new : Address → BitVec 8) : Prop where
  exist : ∀ i, 0 ≤ i → i < count.toInt →
    src.HasIndex (soff.toInt + i) ∧ dst.HasIndex (doff.toInt + i)
  target : ∀ i, 0 ≤ i → i < count.toInt →
    dst.get new (doff.toInt + i) = src.get old (soff.toInt + i)
  otherDst : ∀ j, dst.HasIndex j → ¬ (doff.toInt ≤ j ∧ j < doff.toInt + count.toInt) →
    dst.get new j = dst.get old j
  otherSrc : ∀ j, src.HasIndex j → (src = dst → ¬ (doff.toInt ≤ j ∧ j < doff.toInt + count.toInt)) →
    src.get new j = src.get old j

/-- What an array copy may do to the contents `old`: raise the exception and change nothing, exactly if
a range is exceeded, or copy the elements and access nothing else. -/
def Acceptable (old : Address → BitVec 8) : Except Stop Unit × Machine → Prop
  | (.error e, m) => Exceeds src soff dst doff count ∧ e = .throw .arrayIndexOutOfBounds "" ∧
      m = ⟨old, [], []⟩
  | (.ok (), m) => ¬ Exceeds src soff dst doff count ∧
      CopiesElements src soff dst doff count old m.byte ∧
      ∀ x, x ∈ m.reads ∨ x ∈ m.writes → src.Inside x ∨ dst.Inside x

/-- The arguments the routine can cope with. -/
def Supported : Prop :=
  Exceeds src soff dst doff count ∨ 0 ≤ soff.toInt ∧ 0 ≤ doff.toInt ∧ 0 ≤ count.toInt ∧
    (count.toInt = 0 ∨ src ≠ dst ∨ doff.toInt ≤ soff.toInt)

/-- The routine comes back from every contents of the memory, and what it has done is acceptable. -/
def Correct (cs : Classes) (frame : Frames) (room : Nat) : Prop :=
  ∀ old, ∃ r, Acceptable src soff dst doff count old r ∧ ∃ n, ∀ fuel ≥ n,
    vmArraycopy cs frame fuel room (some src) soff (some dst) doff count ⟨old, [], []⟩ = some r

instance : Decidable (Exceeds src soff dst doff count) := inferInstanceAs (Decidable (_ ∨ _))

instance : Decidable (Supported src soff dst doff count) := inferInstanceAs (Decidable (_ ∨ _))

end Spec

/-- What the test on the class of an argument lets through. -/
def ArrayClass (cs : Classes) (c : Nat) : Prop :=
  cs.isArrayClass c ∨ (cs.desc c).name = "<Array>".toList

/-! ## Addresses -/

section Addresses

variable {a src dst : ArrayDesc}

theorem four_mul (off : BitVec 32) : 4 * off = BitVec.ofNat 32 (4 * off.toNat) := by
  rw [BitVec.ofNat_mul, BitVec.ofNat_toNat, BitVec.setWidth_eq]
  rfl

/-- A byte of an element, as a byte of the object. -/
theorem byte_eq (a : ArrayDesc) (off : BitVec 32) (i : Nat) :
    a.data + 4 * off + BitVec.ofNat 32 i = a.self + BitVec.ofNat 32 (12 + 4 * off.toNat + i) := by
  rw [four_mul, BitVec.ofNat_add, BitVec.ofNat_add, ArrayDesc.data, BitVec.add_assoc,
    BitVec.add_assoc, BitVec.add_assoc]
  rfl

/-- The offset of an index. -/
theorem toNat_index {j : Int} (hj : 0 ≤ j) (hlt : j < 2 ^ 31) :
    (BitVec.ofInt 32 j).toNat = j.toNat := by
  rw [BitVec.toNat_ofInt]
  omega

/-- The address of an element, counted from the offset. -/
theorem index_add (off : BitVec 32) {i : Int} (hi : 0 ≤ i) :
    4 * BitVec.ofInt 32 (off.toInt + i) = 4 * off + BitVec.ofNat 32 (4 * i.toNat) := by
  obtain ⟨n, rfl⟩ := Int.eq_ofNat_of_zero_le hi
  rw [BitVec.ofInt_add, BitVec.ofInt_toInt, BitVec.ofInt_natCast, BitVec.mul_add, Int.toNat_natCast,
    BitVec.ofNat_mul]
  rfl

theorem occupies_byte {off : BitVec 32} {i : Nat} (h : 4 * off.toNat + i < 4 * a.size.toNat) :
    a.Occupies (a.data + 4 * off + BitVec.ofNat 32 i) :=
  ⟨12 + 4 * off.toNat + i, by omega, byte_eq a off i⟩

theorem inside_byte {off : BitVec 32} {i : Nat} (h : 4 * off.toNat + i < 4 * a.size.toNat) :
    a.Inside (a.data + 4 * off + BitVec.ofNat 32 i) := by
  refine ⟨4 * off.toNat + i, h, ?_⟩
  rw [four_mul, BitVec.ofNat_add, BitVec.add_assoc]

/-- Two bytes of elements have the same address only if they are in one array and have the same
place. -/
theorem byte_inj (hsrc : src.Wf) (hdst : dst.Wf) (hsep : Separate src dst) {off off' : BitVec 32}
    {i j : Nat} (hi : 4 * off.toNat + i < 4 * src.size.toNat)
    (hj : 4 * off'.toNat + j < 4 * dst.size.toNat)
    (h : src.data + 4 * off + BitVec.ofNat 32 i = dst.data + 4 * off' + BitVec.ofNat 32 j) :
    src = dst ∧ 4 * off.toNat + i = 4 * off'.toNat + j := by
  rcases hsep with rfl | hapart
  · have hfits := hsrc.fits
    rw [byte_eq, byte_eq] at h
    have := ofNat_inj (by omega) (by omega) h
    exact ⟨rfl, by omega⟩
  · exact absurd (h ▸ occupies_byte hj) (hapart _ (occupies_byte hi))

/-- Nothing is at address 0. -/
theorem not_inside_zero (ha : a.Wf) : ¬ a.Inside 0 := by
  rintro ⟨i, hi, h⟩
  have hfits := ha.fits
  have heq := congrArg BitVec.toNat h
  have hzero : (0 : Address).toNat = 0 := rfl
  have htwelve : (12 : Address).toNat = 12 := rfl
  rw [ArrayDesc.data, BitVec.toNat_add, BitVec.toNat_add, BitVec.toNat_ofNat, hzero, htwelve] at heq
  omega

theorem data_eq_iff (hsep : Separate src dst) : src.data = dst.data ↔ src = dst := by
  constructor
  · intro h
    rcases hsep with rfl | hapart
    · rfl
    · have hself : src.self = dst.self := (BitVec.add_left_inj 12).mp h
      have hin : ∀ a : ArrayDesc, a.Occupies a.self := fun a => ⟨0, by omega, by simp⟩
      exact absurd (hself ▸ hin dst) (hapart _ (hin src))
  · rintro rfl
    rfl

/-- A run of all addresses. -/
theorem run_all {b : Address} {n : Nat} (hn : 2 ^ 32 ≤ n) (x : Address) : Run b n x := by
  refine ⟨(x - b).toNat, ((x - b).isLt.trans_le hn), ?_⟩
  rw [BitVec.ofNat_toNat, BitVec.setWidth_eq, BitVec.add_comm, BitVec.sub_add_cancel]

end Addresses

/-! ## The two loops -/

/-- The loop goes down word by word, from below the two offsets. -/
theorem backwardLoop_eq (n : Nat) (sdata soff ddata doff : Address) :
    backwardLoop n sdata soff ddata doff =
      repMovslDown n (sdata + 4 * (soff - 1)) (ddata + 4 * (doff - 1)) := by
  induction n generalizing soff doff with
  | zero => rfl
  | succ n ih =>
    have hback : ∀ a off : Address, a + 4 * (off - 1) - 4 = a + 4 * (off - 1 - 1) := by
      intro a off
      ring
    rw [backwardLoop, repMovslDown, hback, hback, ih, movsl]
    exact (bind_assoc _ _ _).symm

/-- The action does `P`, and accesses only what `I` allows. -/
def DoesInside (act : Access Stop Unit) (P : (Address → BitVec 8) → (Address → BitVec 8) → Prop)
    (I : Address → Prop) : Prop :=
  ∀ old, ∃ m, act.run ⟨old, [], []⟩ = (.ok (), m) ∧ P old m.byte ∧
    ∀ x, x ∈ m.reads ∨ x ∈ m.writes → I x

theorem doesInside_of {act : Access Stop Unit} {R W I : Address → Prop}
    {P : (Address → BitVec 8) → (Address → BitVec 8) → Prop} (hdoes : Does act () P)
    (hfoot : Footprint act R W) (hR : ∀ x, R x → I x) (hW : ∀ x, W x → I x) :
    DoesInside act P I := by
  intro old
  obtain ⟨m, hrun, hP⟩ := hdoes ⟨old, [], []⟩
  obtain ⟨v, m', hrun', hr, hw⟩ := hfoot ⟨old, [], []⟩
  obtain rfl : m = m' := by
    rw [hrun] at hrun'
    exact congrArg Prod.snd hrun'
  refine ⟨m, hrun, hP, fun x hx => ?_⟩
  rcases hx with hx | hx
  · exact hR x (((hr x).mp hx).resolve_right List.not_mem_nil)
  · exact hW x (((hw x).mp hx).resolve_right List.not_mem_nil)

section Copying

variable {src dst : ArrayDesc} {soff doff count : BitVec 32}

/-- Both ranges lie inside their arrays. -/
structure InRange (src : ArrayDesc) (soff : BitVec 32) (dst : ArrayDesc) (doff count : BitVec 32) :
    Prop where
  source : soff.toNat + count.toNat ≤ src.size.toNat
  target : doff.toNat + count.toNat ≤ dst.size.toNat

theorem Copied.copiesElements (hsrc : src.Wf) (hdst : dst.Wf) (hsep : Separate src dst)
    (hin : InRange src soff dst doff count) {old new : Address → BitVec 8}
    (h : Copied (src.data + 4 * soff) (dst.data + 4 * doff) (4 * count.toNat) old new) :
    CopiesElements src soff dst doff count old new := by
  have hs := toInt_cases src.size
  have hd := toInt_cases dst.size
  have hso := toInt_cases soff
  have hdo := toInt_cases doff
  have hc := toInt_cases count
  obtain ⟨hsource, htarget⟩ := hin
  have hslt := hsrc.size_lt
  have hdlt := hdst.size_lt
  -- an element that is not in the target range
  have hother : ∀ {a : ArrayDesc}, a.Wf → Separate a dst → ∀ j, a.HasIndex j →
      (a = dst → ¬ (doff.toInt ≤ j ∧ j < doff.toInt + count.toInt)) → a.get new j = a.get old j := by
    intro a ha hsep j hj hout
    have hsize := toInt_cases a.size
    have halt := ha.size_lt
    obtain ⟨hnonneg, hlt⟩ := hj
    have hindex := toNat_index hnonneg (by omega)
    refine h.wordAt_other ?_
    rintro k hk ⟨i, hi, heq⟩
    obtain ⟨hsame, hplace⟩ := byte_inj ha hdst hsep (by omega) (by omega) heq
    have := hout hsame
    omega
  refine ⟨fun i hi hlt => ?_, fun i hi hlt => ?_, fun j hj hout => ?_, fun j hj hout => ?_⟩
  · unfold ArrayDesc.HasIndex
    omega
  · have helem := h.wordAt_target (i := 4 * i.toNat) (by omega)
    rw [ArrayDesc.get, ArrayDesc.get, index_add doff hi, index_add soff hi, ← BitVec.add_assoc,
      ← BitVec.add_assoc]
    exact helem
  · exact hother hdst (.inl rfl) j hj fun _ => hout
  · exact hother hsrc hsep j hj hout

/-- The run of an element range lies inside the array. -/
theorem inside_of_run {a : ArrayDesc} {off : BitVec 32} {n : Nat}
    (h : off.toNat + n ≤ a.size.toNat) (x : Address) (hx : Run (a.data + 4 * off) (4 * n) x) :
    a.Inside x := by
  obtain ⟨i, hi, rfl⟩ := hx
  exact inside_byte (by omega)

/-- Upwards, a range is copied unless it is moved towards the end of its array. -/
theorem jxwordcpy_copies (hsrc : src.Wf) (hdst : dst.Wf) (hsep : Separate src dst)
    (hin : InRange src soff dst doff count)
    (hup : count.toNat = 0 ∨ src ≠ dst ∨ doff.toNat ≤ soff.toNat) :
    DoesInside (jxwordcpy (src.data + 4 * soff) (dst.data + 4 * doff) count.toNat)
      (CopiesElements src soff dst doff count) (fun x => src.Inside x ∨ dst.Inside x) := by
  have hfits := hsrc.fits
  obtain ⟨hsource, htarget⟩ := hin
  have hupward : Upward (src.data + 4 * soff) (dst.data + 4 * doff) (4 * count.toNat) := by
    intro i j hij hj heq
    obtain ⟨hsame, hplace⟩ := byte_inj hsrc hdst hsep (by omega) (by omega) heq
    rcases hup with hzero | hne | hle
    · omega
    · exact hne hsame
    · omega
  have hdoes : Does (jxwordcpy (src.data + 4 * soff) (dst.data + 4 * doff) count.toNat) () _ :=
    does_repMovsl (by omega) hupward
  intro old
  obtain ⟨m, hrun, hcopied, hinside⟩ := doesInside_of hdoes (Footprint.repMovsl _ _ _)
    (fun x hx => Or.inl (inside_of_run hsource x hx))
    (fun x hx => Or.inr (inside_of_run htarget x hx)) old
  exact ⟨m, hrun, Copied.copiesElements hsrc hdst hsep ⟨hsource, htarget⟩ hcopied, hinside⟩

/-- Downwards, the ranges below the offsets are copied instead. -/
theorem backwardLoop_copied {a : ArrayDesc} (ha : a.Wf) (hlt : soff.toNat < doff.toNat)
    (hin : doff.toNat + count.toNat ≤ a.size.toNat) :
    Does (backwardLoop count.toNat a.data soff a.data doff) ()
      (Copied (a.data + 4 * soff - BitVec.ofNat 32 (4 * count.toNat))
        (a.data + 4 * doff - BitVec.ofNat 32 (4 * count.toNat)) (4 * count.toNat)) := by
  have hfits := ha.fits
  have hstart : ∀ off : BitVec 32, a.data + 4 * (off - 1) + 4 = a.data + 4 * off -
      BitVec.ofNat 32 (4 * count.toNat) + BitVec.ofNat 32 (4 * count.toNat) := by
    intro off
    rw [BitVec.sub_add_cancel]
    ring
  rw [backwardLoop_eq]
  refine does_repMovslDown (by omega) ?_ (hstart soff) (hstart doff)
  intro i j hji hi heq
  have hplace : BitVec.ofNat 32 (4 * doff.toNat + i) = BitVec.ofNat 32 (4 * soff.toNat + j) := by
    rw [BitVec.ofNat_add, BitVec.ofNat_add, ← four_mul, ← four_mul]
    calc 4 * doff + BitVec.ofNat 32 i
        = a.data + 4 * doff - BitVec.ofNat 32 (4 * count.toNat) + BitVec.ofNat 32 i - a.data +
            BitVec.ofNat 32 (4 * count.toNat) := by ring
      _ = a.data + 4 * soff - BitVec.ofNat 32 (4 * count.toNat) + BitVec.ofNat 32 j - a.data +
            BitVec.ofNat 32 (4 * count.toNat) := by rw [heq]
      _ = 4 * soff + BitVec.ofNat 32 j := by ring
  have hnat := congrArg BitVec.toNat hplace
  rw [BitVec.toNat_ofNat, BitVec.toNat_ofNat, Nat.mod_eq_of_lt (by omega),
    Nat.mod_eq_of_lt (by omega)] at hnat
  omega

/-- So the first element of the target range stays as it was. -/
theorem backwardLoop_first {a : ArrayDesc} (ha : a.Wf) (hlt : soff.toNat < doff.toNat)
    (hin : doff.toNat + count.toNat ≤ a.size.toNat) :
    Does (backwardLoop count.toNat a.data soff a.data doff) () (fun old new =>
      wordAt new (a.data + 4 * doff) = wordAt old (a.data + 4 * doff)) := by
  intro m
  have hfits := ha.fits
  obtain ⟨m', hrun, hcopied⟩ := backwardLoop_copied ha hlt hin m
  refine ⟨m', hrun, hcopied.wordAt_other ?_⟩
  rintro k hk ⟨i, hi, heq⟩
  have hplace : BitVec.ofNat 32 (4 * count.toNat + k) = BitVec.ofNat 32 i := by
    rw [BitVec.ofNat_add]
    calc BitVec.ofNat 32 (4 * count.toNat) + BitVec.ofNat 32 k
        = a.data + 4 * doff + BitVec.ofNat 32 k - (a.data + 4 * doff) +
            BitVec.ofNat 32 (4 * count.toNat) := by ring
      _ = a.data + 4 * doff - BitVec.ofNat 32 (4 * count.toNat) + BitVec.ofNat 32 i -
            (a.data + 4 * doff) + BitVec.ofNat 32 (4 * count.toNat) := by rw [heq]
      _ = BitVec.ofNat 32 i := by ring
  have hnat := congrArg BitVec.toNat hplace
  rw [BitVec.toNat_ofNat, BitVec.toNat_ofNat, Nat.mod_eq_of_lt (by omega),
    Nat.mod_eq_of_lt (by omega)] at hnat
  omega

end Copying

/-! ## Which arguments are supported -/

section Supported

variable {src dst : ArrayDesc} {soff doff count : BitVec 32}

/-- The range test. -/
theorem raises_of_exceeds (hsrc : src.Wf) (hdst : dst.Wf) (h : Exceeds src soff dst doff count) :
    (dst.size.ult (doff + count) || src.size.ult (soff + count)) = true := by
  have hs := toInt_cases src.size
  have hd := toInt_cases dst.size
  have hso := toInt_cases soff
  have hdo := toInt_cases doff
  have hc := toInt_cases count
  have hsum := BitVec.toNat_add soff count
  have hsum' := BitVec.toNat_add doff count
  have hslt := hsrc.size_lt
  have hdlt := hdst.size_lt
  unfold Exceeds at h
  rw [Bool.or_eq_true, BitVec.ult, BitVec.ult, decide_eq_true_eq, decide_eq_true_eq]
  omega

/-- It lets ranges pass that lie inside. -/
theorem passes_of_inRange (hsrc : src.Wf) (hdst : dst.Wf) (h : InRange src soff dst doff count) :
    (dst.size.ult (doff + count) || src.size.ult (soff + count)) = false := by
  have hsum := BitVec.toNat_add soff count
  have hsum' := BitVec.toNat_add doff count
  obtain ⟨hsource, htarget⟩ := h
  have hslt := hsrc.size_lt
  have hdlt := hdst.size_lt
  rw [Bool.or_eq_false_iff, BitVec.ult, BitVec.ult, decide_eq_false_iff_not, decide_eq_false_iff_not]
  omega

theorem acceptable_of_supported (hsrc : src.Wf) (hdst : dst.Wf) (hsep : Separate src dst)
    (h : Supported src soff dst doff count) (old : Address → BitVec 8) :
    Acceptable src soff dst doff count old
      ((copyElements src soff dst doff count).run ⟨old, [], []⟩) := by
  by_cases hexc : Exceeds src soff dst doff count
  · rw [copyElements, if_pos (raises_of_exceeds hsrc hdst hexc)]
    exact ⟨hexc, rfl, rfl⟩
  · obtain ⟨hso, hdo, hc, hup⟩ := h.resolve_left hexc
    have hs := toInt_cases src.size
    have hd := toInt_cases dst.size
    have hso' := toInt_cases soff
    have hdo' := toInt_cases doff
    have hc' := toInt_cases count
    have hslt := hsrc.size_lt
    have hdlt := hdst.size_lt
    have hin : InRange src soff dst doff count := by
      unfold Exceeds at hexc
      constructor <;> omega
    rw [copyElements, passes_of_inRange hsrc hdst hin, if_neg Bool.false_ne_true]
    have hforward : DoesInside (if src.data = dst.data ∧ soff.ult doff then
          backwardLoop count.toNat src.data soff dst.data doff
        else jxwordcpy (src.data + 4 * soff) (dst.data + 4 * doff) count.toNat)
        (CopiesElements src soff dst doff count) (fun x => src.Inside x ∨ dst.Inside x) := by
      have hup' : count.toNat = 0 ∨ src ≠ dst ∨ doff.toNat ≤ soff.toNat :=
        hup.imp (fun h => by omega) (Or.imp_right fun h => by omega)
      have hcopies := jxwordcpy_copies hsrc hdst hsep hin hup'
      split
      · next hback =>
        -- the loop is entered only for an empty range, and both ways of copying it are the same
        rw [data_eq_iff hsep, BitVec.ult, decide_eq_true_eq] at hback
        have hzero : count.toNat = 0 := hup'.resolve_right fun h =>
          h.elim (fun hne => hne hback.1) (fun hle => absurd hback.2 (Nat.not_lt.mpr hle))
        rw [hzero] at hcopies ⊢
        exact hcopies
      · exact hcopies
    obtain ⟨m, hrun, hcopies, hinside⟩ := hforward old
    rw [hrun]
    exact ⟨hexc, hcopies, hinside⟩

/-- The two loops touch every address if the count is negative. -/
theorem not_acceptable_of_negative (hsrc : src.Wf) (hdst : dst.Wf) (hneg : 2 ^ 31 ≤ count.toNat)
    {act : Access Stop Unit} {b b' : Address}
    (hfoot : Footprint act (Run b (4 * count.toNat)) (Run b' (4 * count.toNat)))
    (old : Address → BitVec 8) :
    ¬ Acceptable src soff dst doff count old (act.run ⟨old, [], []⟩) := by
  obtain ⟨⟨⟩, m, hrun, hr, -⟩ := hfoot ⟨old, [], []⟩
  rw [hrun]
  rintro ⟨-, -, hinside⟩
  have hzero : (0 : Address) ∈ m.reads := (hr 0).mpr (.inl (run_all (by omega) 0))
  exact (hinside 0 (.inl hzero)).elim (not_inside_zero hsrc) (not_inside_zero hdst)

/-- The low byte of a word. -/
theorem low_byte (byte : Address → BitVec 8) (x : Address) :
    ((wordAt byte x).extractLsb' 0 16).extractLsb' 0 8 = byte x := by
  unfold wordAt
  rw [extract_low, extract_low]

/-- Inside one array, nothing can be moved towards the end. -/
theorem not_copies_backward {a : ArrayDesc} (ha : a.Wf) (hlt : soff.toNat < doff.toNat)
    (hpos : 0 < count.toInt) (hin : doff.toNat + count.toNat ≤ a.size.toNat) :
    ∃ old, ∀ m, (backwardLoop count.toNat a.data soff a.data doff).run ⟨old, [], []⟩ = (.ok (), m) →
      ¬ CopiesElements a soff a doff count old m.byte := by
  have hc := toInt_cases count
  have hne : a.data + 4 * soff ≠ a.data + 4 * doff := by
    intro heq
    have hstart : a.data + 4 * soff + BitVec.ofNat 32 0 = a.data + 4 * doff + BitVec.ofNat 32 0 := by
      rw [heq]
    have hplace := byte_inj ha ha (.inl rfl) (by omega) (by omega) hstart
    omega
  -- two elements with different contents
  obtain ⟨old, hone, hzero⟩ : ∃ old : Address → BitVec 8, old (a.data + 4 * doff) = 1 ∧
      old (a.data + 4 * soff) = 0 :=
    ⟨Function.update (fun _ => 0) (a.data + 4 * doff) 1, Function.update_self _ _ _,
      Function.update_of_ne hne _ _⟩
  refine ⟨old, fun m hrun hcopies => ?_⟩
  obtain ⟨m', hrun', hfirst⟩ := backwardLoop_first ha hlt hin ⟨old, [], []⟩
  obtain rfl : m' = m := by
    rw [hrun] at hrun'
    exact (congrArg Prod.snd hrun').symm
  have htarget := hcopies.target 0 (Int.le_refl 0) hpos
  have hindex : ∀ off : BitVec 32, 4 * BitVec.ofInt 32 (off.toInt + 0) = 4 * off := by
    intro off
    rw [Int.add_zero, BitVec.ofInt_toInt]
  rw [ArrayDesc.get, ArrayDesc.get, hindex, hindex, hfirst] at htarget
  have hlow : old (a.data + 4 * doff) = old (a.data + 4 * soff) := by
    rw [← low_byte old, htarget, low_byte]
  rw [hone, hzero] at hlow
  exact absurd hlow (by decide)

theorem supported_of_acceptable (hsrc : src.Wf) (hdst : dst.Wf) (hsep : Separate src dst)
    (h : ∀ old, Acceptable src soff dst doff count old
      ((copyElements src soff dst doff count).run ⟨old, [], []⟩)) :
    Supported src soff dst doff count := by
  by_cases hexc : Exceeds src soff dst doff count
  · exact .inl hexc
  have hs := toInt_cases src.size
  have hd := toInt_cases dst.size
  have hso := toInt_cases soff
  have hdo := toInt_cases doff
  have hc := toInt_cases count
  have hslt := hsrc.size_lt
  have hdlt := hdst.size_lt
  have hsum := BitVec.toNat_add soff count
  have hsum' := BitVec.toNat_add doff count
  -- nothing is raised
  have hpass : (dst.size.ult (doff + count) || src.size.ult (soff + count)) = false := by
    by_contra hraise
    have hacc := h fun _ => 0
    rw [copyElements, if_pos (Bool.of_not_eq_false hraise)] at hacc
    exact hexc hacc.1
  rw [copyElements, hpass, if_neg Bool.false_ne_true] at h
  rw [Bool.or_eq_false_iff, BitVec.ult, BitVec.ult, decide_eq_false_iff_not,
    decide_eq_false_iff_not] at hpass
  have hcount : 0 ≤ count.toInt := by
    by_contra hneg
    have hacc := h fun _ => 0
    split at hacc
    · rw [backwardLoop_eq] at hacc
      exact not_acceptable_of_negative hsrc hdst (by omega) (Footprint.repMovslDown _ _ _) _ hacc
    · exact not_acceptable_of_negative hsrc hdst (by omega) (Footprint.repMovsl _ _ _) _ hacc
  have hcopies : ∀ old, ∃ m, (if src.data = dst.data ∧ soff.ult doff then
        backwardLoop count.toNat src.data soff dst.data doff
      else jxwordcpy (src.data + 4 * soff) (dst.data + 4 * doff) count.toNat).run ⟨old, [], []⟩ =
      (.ok (), m) ∧ CopiesElements src soff dst doff count old m.byte := by
    intro old
    have hacc := h old
    match hrun : (if src.data = dst.data ∧ soff.ult doff then
        backwardLoop count.toNat src.data soff dst.data doff
      else jxwordcpy (src.data + 4 * soff) (dst.data + 4 * doff) count.toNat).run ⟨old, [], []⟩ with
    | (.error e, m) =>
      rw [hrun] at hacc
      exact absurd hacc.1 hexc
    | (.ok (), m) =>
      rw [hrun] at hacc
      exact ⟨m, rfl, hacc.2.1⟩
  by_cases hzero : count.toInt = 0
  · exact .inr ⟨by omega, by omega, hcount, .inl hzero⟩
  obtain ⟨m, -, hfirst⟩ := hcopies fun _ => 0
  obtain ⟨⟨hsource, -⟩, ⟨htarget, -⟩⟩ := hfirst.exist 0 (Int.le_refl 0) (by omega)
  refine .inr ⟨by omega, by omega, hcount, .inr ?_⟩
  by_contra hcon
  obtain ⟨hsame, hlt⟩ := not_or.mp hcon
  obtain rfl := not_not.mp hsame
  unfold Exceeds at hexc
  obtain ⟨old, hold⟩ : ∃ old, ∀ m,
      (backwardLoop count.toNat src.data soff src.data doff).run ⟨old, [], []⟩ = (.ok (), m) →
        ¬ CopiesElements src soff src doff count old m.byte :=
    not_copies_backward hsrc (by omega) (by omega) (by omega)
  obtain ⟨m, hrun, hcopied⟩ := hcopies old
  have hult : soff.ult doff = true := by
    rw [BitVec.ult, decide_eq_true_eq]
    omega
  rw [if_pos ⟨rfl, hult⟩] at hrun
  exact hold m hrun hcopied

end Supported

section Arraycopy

variable {cs : Classes} {frame : Frames} {room : Nat} {src dst : ArrayDesc}
  {soff doff count : BitVec 32}

theorem checkArrayClass_eq {c : Nat} (h : ArrayClass cs c) : checkArrayClass cs c = pure () := by
  refine if_neg ?_
  rintro ⟨hnot, hname⟩
  exact h.elim hnot hname

/-- With arrays of assignable classes, the tests on the objects are passed. -/
theorem vmArraycopy_eq (hsc : ArrayClass cs src.classDesc) (hdc : ArrayClass cs dst.classDesc)
    (hassign : Returns (fun fuel => cs.checkAssign frame fuel room dst.classDesc src.classDesc) true) :
    ∃ n, ∀ fuel ≥ n, ∀ m, vmArraycopy cs frame fuel room (some src) soff (some dst) doff count m =
      some ((copyElements src soff dst doff count).run m) := by
  obtain ⟨n, hn⟩ := hassign
  refine ⟨n, fun fuel hfuel m => ?_⟩
  have hcheck : checkArrays cs frame fuel room (some src) (some dst) = pure (src, dst) := by
    simp only [checkArrays, checkNullPtr, pure_bind, checkArrayClass_eq hsc, checkArrayClass_eq hdc,
      hn fuel hfuel, if_true]
  rw [vmArraycopy, hcheck]
  rfl

theorem correct_iff_acceptable (hsc : ArrayClass cs src.classDesc)
    (hdc : ArrayClass cs dst.classDesc)
    (hassign : Returns (fun fuel => cs.checkAssign frame fuel room dst.classDesc src.classDesc) true) :
    Correct src soff dst doff count cs frame room ↔ ∀ old, Acceptable src soff dst doff count old
      ((copyElements src soff dst doff count).run ⟨old, [], []⟩) := by
  obtain ⟨n, hn⟩ := @vmArraycopy_eq cs frame room src dst soff doff count hsc hdc hassign
  refine forall_congr' fun old => ⟨?_, fun hacc => ⟨_, hacc, n, fun fuel hfuel => hn fuel hfuel _⟩⟩
  rintro ⟨r, hacc, k, hk⟩
  have heq := (hn (max n k) (Nat.le_max_left n k) _).symm.trans (hk (max n k) (Nat.le_max_right n k))
  rw [Option.some.inj heq]
  exact hacc

/-- `vm_arraycopy` between arrays of assignable classes does what an array copy should do, whatever the
arrays hold, if and only if a range exceeds its array, or the arguments are not negative and no elements
are moved towards the end of one array. -/
theorem arraycopy_correct_iff (hsrc : src.Wf) (hdst : dst.Wf) (hsep : Separate src dst)
    (hsc : ArrayClass cs src.classDesc) (hdc : ArrayClass cs dst.classDesc)
    (hassign : Returns (fun fuel => cs.checkAssign frame fuel room dst.classDesc src.classDesc) true) :
    Correct src soff dst doff count cs frame room ↔ Supported src soff dst doff count := by
  rw [correct_iff_acceptable hsc hdc hassign]
  exact ⟨supported_of_acceptable hsrc hdst hsep,
    fun h => acceptable_of_supported hsrc hdst hsep h⟩

end Arraycopy

/-! ## Five numbers -/

/-- The class of `int[]`, and nothing else. -/
def intArrays : Classes where
  desc _ := ⟨.arrayClass, ['[', 'I'], none, [], 1⟩
  javaLangObject := 2

/-- An `int[5]`. -/
def numbers : ArrayDesc := ⟨0x1000, 0, 5⟩

theorem numbers_wf : numbers.Wf := ⟨by decide, by decide⟩

theorem returns_sameClass (cs : Classes) (frame : Frames) (room c : Nat) :
    Returns (fun fuel => cs.checkAssign frame fuel room c c) true := by
  refine ⟨1, fun fuel hfuel => ?_⟩
  obtain ⟨fuel, rfl⟩ := Nat.exists_eq_succ_of_ne_zero (show fuel ≠ 0 by omega)
  simp only [Classes.checkAssign, if_true]

/-- Three numbers are moved to the front. -/
theorem arraycopy_correct_front : Correct numbers 2 numbers 0 3 intArrays (fun _ _ => 64) 4096 :=
  (arraycopy_correct_iff numbers_wf numbers_wf (.inl rfl) (.inl rfl) (.inl rfl)
    (returns_sameClass intArrays _ _ 0)).mpr (by decide)

/-- They are not moved back. -/
theorem not_correct_back :
    ¬ Correct numbers 0 numbers 2 3 intArrays (fun _ _ => 64) 4096 := by
  intro h
  rw [correct_iff_acceptable (.inl rfl) (.inl rfl) (returns_sameClass intArrays _ _ 0)] at h
  have hsupported := supported_of_acceptable numbers_wf numbers_wf (.inl rfl) h
  exact absurd hsupported (by decide)

end JxCore.ArrayCopy
