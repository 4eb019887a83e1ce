import JxCore.Interface.MemorySandbox

/-!
# Fast memory access (`Interface/zero_FastMemory.S`)

Three of the accessors have a second version in assembler, which finds the memory object in `eax` and
the offset in `esi` and makes the same tests with unsigned comparisons. The kernel is built without
`MEMORY_REVOKE`, so these versions do not look at the revocation flag.

`fast_agrees_iff` compares them with the versions in C. The test for little-endian words adds the
width to the size where it should subtract it, and so the two sides differ at both ends of the memory.
-/

namespace JxCore.Memory

open Lib Access

namespace Fast

-- What `exceptionHandler` makes of its argument.
variable (exceptionHandler : Jint → Stop)

/-- `pushl -4; call exceptionHandler`. Without a `$` the operand is the word at this address. -/
def memThrow {α : Type} : Acc α := do
  let code ← read32 (-4)
  throw (exceptionHandler code)

/-- `vm_get8`: `cmpl MEM_SIZE(%eax), %esi; jae`. -/
def vmGet8 (self : MemoryProxy) (offset : Jint) : Acc Jint :=
  if self.size.ule offset then memThrow exceptionHandler
  else return (← read8 (self.mem + offset)).signExtend 32

/-- `vm_get32`: `shrl $2, %edi` on the size. -/
def vmGet32 (self : MemoryProxy) (offset : Jint) : Acc Jint :=
  if (self.size >>> 2).ule offset then memThrow exceptionHandler
  else read32 (self.mem + 4 * offset)

/-- `vm_getLittleEndian32`: `addl $4, %edi` on the size. -/
def vmGetLittleEndian32 (self : MemoryProxy) (offset : Jint) : Acc Jint :=
  if (self.size + 4).ule offset then memThrow exceptionHandler
  else read32 (self.mem + offset)

end Fast

/-! ## Agreement -/

/-- The value that is returned, and `none` if something is raised. -/
def outcome {α : Type} (act : Acc α) (m : Machine) : Option α :=
  match (act.run m).1 with
  | .ok v => some v
  | .error _ => none

/-- Both raise something, or both return the same value. -/
def Agree {α : Type} (act act' : Acc α) : Prop := ∀ m, outcome act m = outcome act' m

section Agree

variable {α : Type} {act fail fail' : Acc α} {R W : Address → Prop}

theorem outcome_of_footprint (h : Footprint act R W) (m : Machine) : ∃ v, outcome act m = some v := by
  obtain ⟨v, m', hrun, -⟩ := h m
  exact ⟨v, by rw [outcome, hrun]⟩

/-- Two tests for one access agree if and only if they are equivalent. -/
theorem agree_guard_iff {c c' : Prop} [Decidable c] [Decidable c'] (hact : Footprint act R W)
    (hfail : ∀ m, outcome fail m = none) (hfail' : ∀ m, outcome fail' m = none) :
    Agree (if c then fail else act) (if c' then fail' else act) ↔ (c ↔ c') := by
  obtain ⟨v, hv⟩ := outcome_of_footprint hact ⟨fun _ => 0, [], []⟩
  constructor
  · intro h
    have hm := h ⟨fun _ => 0, [], []⟩
    by_cases hc : c <;> by_cases hc' : c'
    · simp [hc, hc']
    · rw [if_pos hc, if_neg hc', hfail, hv] at hm
      cases hm
    · rw [if_neg hc, if_pos hc', hfail', hv] at hm
      cases hm
    · simp [hc, hc']
  · intro h m
    by_cases hc : c
    · rw [if_pos hc, if_pos (h.mp hc), hfail, hfail']
    · rw [if_neg hc, if_neg (mt h.mpr hc)]

theorem outcome_memThrow (exceptionHandler : Jint → Stop) (m : Machine) :
    outcome (Fast.memThrow exceptionHandler : Acc α) m = none := rfl

theorem outcome_throw (e : Stop) (m : Machine) : outcome (throw e : Acc α) m = none := rfl

end Agree

/-- The offsets for which the two tests for a little-endian word agree: the word is inside the memory,
or it begins at least four bytes behind the end, or it begins before the memory and ends behind it. The
last two cases are about memories that come within seven bytes of the largest `jint`, where both sides
wrap. -/
def SameTest (size offset : Int) : Prop :=
  0 ≤ offset ∧ offset + 4 ≤ size ∨
  size + 4 ≤ offset ∧ offset + 4 < 2 ^ 31 ∨
  offset < 0 ∧ size < offset + 4 ∨
  2 ^ 31 ≤ offset + 4 ∧ offset < size + 4 ∨
  offset < 0 ∧ offset + 2 ^ 32 < size + 4

section Accessors

variable {p : MemoryProxy} (exceptionHandler : Jint → Stop) (offset : Jint)

theorem agree_get8 (hp : p.Wf) : Agree (Fast.vmGet8 exceptionHandler p offset) (get8 p offset) := by
  have hs := toInt_cases p.size
  have ho := toInt_cases offset
  have hlt := hp.size_lt
  have hzero : (0 : Jint).toInt = 0 := rfl
  rw [Fast.vmGet8, get8, checkValid_bind hp, outOfBounds,
    agree_guard_iff (footprint_map _ (Footprint.read8 _)) (outcome_memThrow _) (outcome_throw _),
    BitVec.ule, BitVec.sle, BitVec.slt, Bool.or_eq_true, decide_eq_true_eq, decide_eq_true_eq,
    decide_eq_true_eq]
  omega

theorem agree_get32 (hp : p.Wf) :
    Agree (Fast.vmGet32 exceptionHandler p offset) (get32 p offset) := by
  have hquarter : (p.size / 4).toNat = p.size.toNat / 4 := BitVec.toNat_udiv
  have hshift : (p.size >>> 2).toNat = p.size.toNat / 4 := by
    rw [BitVec.toNat_ushiftRight, Nat.shiftRight_eq_div_pow]
  rw [Fast.vmGet32, get32, checkValid_bind hp,
    agree_guard_iff (Footprint.read32 _) (outcome_memThrow _) (outcome_throw _), BitVec.ule,
    BitVec.ule, decide_eq_true_eq, decide_eq_true_eq, hquarter, hshift]

theorem agree_getLittleEndian32_iff (hp : p.Wf) :
    Agree (Fast.vmGetLittleEndian32 exceptionHandler p offset) (getLittleEndian32 p offset) ↔
      SameTest p.size.toInt offset.toInt := by
  have hs := toInt_cases p.size
  have ho := toInt_cases offset
  have hend := toInt_cases (offset + 4)
  have hlt := hp.size_lt
  have hsize : (p.size + 4).toNat = (p.size.toNat + 4) % 2 ^ 32 := BitVec.toNat_add _ _
  have hoffset : (offset + 4).toNat = (offset.toNat + 4) % 2 ^ 32 := BitVec.toNat_add _ _
  rw [Fast.vmGetLittleEndian32, getLittleEndian32, atOffset, checkValid_bind hp, outOfBounds,
    agree_guard_iff (Footprint.read32 _) (outcome_memThrow _) (outcome_throw _), BitVec.ule,
    BitVec.slt, decide_eq_true_eq, decide_eq_true_eq]
  unfold SameTest
  omega

/-- The fast accessors and those in C agree if and only if the two tests for a little-endian word
do. -/
theorem fast_agrees_iff (hp : p.Wf) :
    (Agree (Fast.vmGet8 exceptionHandler p offset) (get8 p offset) ∧
      Agree (Fast.vmGet32 exceptionHandler p offset) (get32 p offset) ∧
      Agree (Fast.vmGetLittleEndian32 exceptionHandler p offset) (getLittleEndian32 p offset)) ↔
    SameTest p.size.toInt offset.toInt := by
  rw [agree_getLittleEndian32_iff exceptionHandler offset hp]
  exact ⟨fun h => h.2.2, fun h =>
    ⟨agree_get8 exceptionHandler offset hp, agree_get32 exceptionHandler offset hp, h⟩⟩

end Accessors

/-- What `exceptionHandler` raises for `THROW_MemoryIndexOutOfBounds`. -/
def raiseOutOfBounds (_ : Jint) : Stop := .throw .memoryIndexOutOfBounds ""

theorem fast_agrees_last_word : (⟨16, 0x100000, true⟩ : MemoryProxy).Wf ∧
    Agree (Fast.vmGetLittleEndian32 raiseOutOfBounds ⟨16, 0x100000, true⟩ 12)
      (getLittleEndian32 ⟨16, 0x100000, true⟩ 12) := by
  have hwf : (⟨16, 0x100000, true⟩ : MemoryProxy).Wf := ⟨rfl, by decide⟩
  exact ⟨hwf, ((fast_agrees_iff raiseOutOfBounds 12 hwf).mpr (.inl (by decide))).2.2⟩

/-- One byte further, the fast version reads behind the memory. -/
theorem not_agree_behind_end : (⟨16, 0x100000, true⟩ : MemoryProxy).Wf ∧
    ¬ Agree (Fast.vmGetLittleEndian32 raiseOutOfBounds ⟨16, 0x100000, true⟩ 13)
      (getLittleEndian32 ⟨16, 0x100000, true⟩ 13) := by
  refine ⟨⟨rfl, by decide⟩, fun h => ?_⟩
  have hzero := h ⟨fun _ => 0, [], []⟩
  have hfast : outcome (Fast.vmGetLittleEndian32 raiseOutOfBounds ⟨16, 0x100000, true⟩ 13)
      ⟨fun _ => 0, [], []⟩ = some 0 := rfl
  rw [hfast] at hzero
  cases hzero

end JxCore.Memory
