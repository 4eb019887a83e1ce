import JxCore.Memory.TypeMap
import Mathlib.Logic.Function.Basic
import Mathlib.Tactic.SplitIfs

/-!
# The loops over a type map

Four loops of the kernel decode a type map, each written out where it is needed: `FORBITMAP` in the
collectors, `isRef` through it, the copy loop of `copy_object` and the slot loop of `find_stackmap`.
The first two hold the current byte in a `u1_t`, the others in a `jbyte`. C shifts an `int` in all of
them, which keeps the sign, so a `jbyte` above 127 fills up with ones from the left; the loops fetch a
new byte before any of these reaches the lowest bit.

Here each one stands as the source has it, with the bytes it reads, and is shown to ask for the same
bits.
-/

namespace JxCore.SlotMap

/-- The bytes from the address of a map on. -/
abbrev Map := Nat → BitVec 8

/-- Bit `k % 8` of byte `k / 8`. -/
def bit (map : Map) (k : Nat) : Bool := (map (k / 8)).getLsbD (k % 8)

/-! ## The four loops -/

section Loop

variable {σ ε : Type} (map : Map)

/-- The loop with `n` indices to go: `bits` is what is left of the current byte, `addr` the next byte
to fetch, and `promote` the conversion of a byte to `int`. The body may leave the loop; the bytes that
have been read come with the result. -/
def slotLoop (promote : BitVec 8 → BitVec 32) (body : Nat → Bool → σ → Except ε σ) :
    (n index : Nat) → (bits : BitVec 8) → (addr : Nat) → σ → List Nat × Except ε σ
  | 0, _, _, _, s => ([], .ok s)
  | n + 1, index, bits, addr, s =>
    let fetch := index % 8 = 0
    let bits := if fetch then map addr else bits
    let read := if fetch then [addr] else []
    let addr := if fetch then addr + 1 else addr
    match body index (promote bits &&& 1 != 0) s with
    | .error e => (read, .error e)
    | .ok s =>
      let rest := slotLoop promote body n (index + 1) (((promote bits).sshiftRight 1).setWidth 8) addr s
      (read ++ rest.1, rest.2)

/-- `FORBITMAP(map, mapsize, isset, notset)`; its byte is a `u1_t`. -/
def forBitmap (mapsize : Nat) (isset notset : Nat → σ → Except ε σ) (s : σ) :
    List Nat × Except ε σ :=
  slotLoop map (·.zeroExtend 32) (fun index b => if b then isset index else notset index)
    mapsize 0 0 0 s

/-- `isRef`; it leaves the loop at `num`. -/
def isRef (total num : Nat) : List Nat × Bool :=
  let run := forBitmap map total (fun index _ => if index = num then .error () else .ok ())
    (fun _ _ => .ok ()) ()
  (run.1, run.2.isOk == false)

/-- The copy loop of `copy_object`; its byte is a `jbyte`. `copyReference` is
`copy_reference_internal`, whose `0xffffffff` ends the loop. -/
def copySlots (instanceSize : Nat) (data : Nat → Nat) (copyReference : Nat → σ → Nat × σ)
    (target : (Nat → Nat) × σ) : List Nat × Except σ ((Nat → Nat) × σ) :=
  slotLoop map (·.signExtend 32)
    (fun k b target =>
      if b then
        let ref := copyReference (data k) target.2
        if ref.1 = 0xffffffff then .error ref.2
        else .ok (Function.update target.1 k ref.1, ref.2)
      else .ok (Function.update target.1 k (data k), target.2))
    instanceSize 0 0 0 target

/-- The slot loop of `find_stackmap`; its byte is a `jbyte`. -/
def readStackmap (nBits : Nat) (stackmap : Nat → Bool) : List Nat × Except Unit (Nat → Bool) :=
  slotLoop map (·.signExtend 32) (fun k b stackmap => .ok (Function.update stackmap k b))
    nBits 0 0 0 stackmap

end Loop

/-! ## Bytes as integers -/

/-- A conversion that keeps the bits of the byte. -/
def Widens (promote : BitVec 8 → BitVec 32) : Prop :=
  ∀ b j, j < 8 → (promote b).getLsbD j = b.getLsbD j

theorem widens_zeroExtend : Widens (·.zeroExtend 32) := by
  intro b j hj
  have hlt : j < 32 := by omega
  simp [hlt]

theorem widens_signExtend : Widens (·.signExtend 32) := by
  intro b j hj
  have hlt : j < 32 := by omega
  rw [BitVec.getLsbD_signExtend, if_pos hj, decide_eq_true hlt, Bool.true_and]

variable {promote : BitVec 8 → BitVec 32}

theorem Widens.low (h : Widens promote) (b : BitVec 8) : (promote b &&& 1 != 0) = b.getLsbD 0 := by
  rw [← h b 0 (by decide)]
  generalize promote b = v
  have hzero : v &&& 1#32 = 0#32 ↔ v.toNat % 2 = 0 := by
    rw [← BitVec.toNat_inj, BitVec.toNat_and]
    simp [Nat.and_one_is_mod]
  have hbit : v.getLsbD 0 = decide (v.toNat % 2 = 1) := by
    rw [← BitVec.testBit_toNat, Nat.testBit_zero]
  rw [hbit, Bool.eq_iff_iff, bne_iff_ne, decide_eq_true_eq]
  exact (not_congr hzero).trans Nat.mod_two_ne_zero

/-- Below the highest bit the shift is the same for both kinds of bytes. -/
theorem Widens.shift (h : Widens promote) (b : BitVec 8) {i : Nat} (hi : i < 7) :
    (((promote b).sshiftRight 1).setWidth 8).getLsbD i = b.getLsbD (i + 1) := by
  have hlt : 1 + i < 32 := by omega
  rw [BitVec.getLsbD_setWidth, BitVec.getLsbD_sshiftRight]
  simp only [show i < 8 by omega, show ¬ 32 ≤ i by omega, hlt, decide_true, decide_false, Bool.not_false,
    Bool.true_and, if_true]
  rw [Nat.add_comm 1 i]
  exact h b (i + 1) (by omega)

/-! ## The loop asks for the bits of the map -/

section Slots

variable {σ ε : Type} {map : Map} {body : Nat → Bool → σ → Except ε σ}

/-- In the middle of a byte, `bits` is the current byte shifted by `index % 8`, as far as its own bits
reach. -/
def Current (map : Map) (index : Nat) (bits : BitVec 8) : Prop :=
  index % 8 ≠ 0 → ∀ i < 8 - index % 8, bits.getLsbD i = (map (index / 8)).getLsbD (index % 8 + i)

/-- The current byte after the fetch, with its lowest bit and what the shift leaves for the next
index. -/
theorem Current.step (hw : Widens promote) {index : Nat} {bits : BitVec 8}
    (h : Current map index bits) :
    let bits := if index % 8 = 0 then map ((index + 7) / 8) else bits
    (promote bits &&& 1 != 0) = bit map index ∧
      Current map (index + 1) (((promote bits).sshiftRight 1).setWidth 8) := by
  intro now
  have hnow : ∀ i < 8 - index % 8, now.getLsbD i = (map (index / 8)).getLsbD (index % 8 + i) := by
    intro i hi
    by_cases hzero : index % 8 = 0
    · have hbyte : (index + 7) / 8 = index / 8 := by omega
      simp only [now, hzero, if_true, hbyte, Nat.zero_add]
    · simp only [now, if_neg hzero]
      exact h hzero i hi
  constructor
  · rw [hw.low, hnow 0 (by omega), Nat.add_zero, bit]
  · intro hinside i hi
    have hbyte : (index + 1) / 8 = index / 8 := by omega
    have hplace : (index + 1) % 8 + i = index % 8 + (i + 1) := by omega
    rw [hw.shift now (by omega), hbyte, hplace]
    exact hnow (i + 1) (by omega)

theorem slotLoop_spec (hw : Widens promote) {n index : Nat} {bits : BitVec 8}
    (hbits : Current map index bits) (s : σ) :
    (slotLoop map promote body n index bits ((index + 7) / 8) s).2 =
        (List.range' index n).foldlM (fun s k => body k (bit map k) s) s ∧
      ∀ a ∈ (slotLoop map promote body n index bits ((index + 7) / 8) s).1,
        a < (index + n + 7) / 8 := by
  induction n generalizing index bits s with
  | zero => exact ⟨rfl, fun a ha => by cases ha⟩
  | succ n ih =>
    obtain ⟨hlow, hnext⟩ := hbits.step hw
    have haddr : (if index % 8 = 0 then (index + 7) / 8 + 1 else (index + 7) / 8) =
        (index + 1 + 7) / 8 := by
      split_ifs <;> omega
    have hread : ∀ a ∈ (if index % 8 = 0 then [(index + 7) / 8] else []),
        a < (index + (n + 1) + 7) / 8 := by
      intro a ha
      split_ifs at ha with hzero
      · obtain rfl := List.mem_singleton.mp ha
        omega
      · cases ha
    rw [List.range'_succ, List.foldlM_cons]
    simp only [slotLoop, hlow, haddr]
    cases hbody : body index (bit map index) s with
    | error e => exact ⟨rfl, hread⟩
    | ok s' =>
      obtain ⟨hres, hreads⟩ := ih hnext s'
      refine ⟨hres, fun a ha => ?_⟩
      rcases List.mem_append.mp ha with ha | ha
      · exact hread a ha
      · have hlt := hreads a ha
        omega

/-- Slot by slot, each with its bit. -/
def eachSlot (map : Map) (size : Nat) (body : Nat → Bool → σ → Except ε σ) (s : σ) : Except ε σ :=
  (List.range size).foldlM (fun s k => body k (bit map k) s) s

/-- The bytes that hold the bits of `size` slots. -/
def Inside (size : Nat) (reads : List Nat) : Prop := ∀ a ∈ reads, a < (size + 7) / 8

theorem slotLoop_eq (hw : Widens promote) (size : Nat) (s : σ) :
    (slotLoop map promote body size 0 0 0 s).2 = eachSlot map size body s ∧
      Inside size (slotLoop map promote body size 0 0 0 s).1 := by
  have hstart : Current map 0 0 := fun hne => absurd rfl hne
  obtain ⟨hres, hreads⟩ := slotLoop_spec hw hstart s
  rw [← List.range_eq_range'] at hres
  refine ⟨hres, fun a ha => ?_⟩
  have hlt := hreads a ha
  rwa [Nat.zero_add] at hlt

end Slots

theorem forBitmap_eq {σ ε : Type} (map : Map) (mapsize : Nat) (isset notset : Nat → σ → Except ε σ)
    (s : σ) :
    (forBitmap map mapsize isset notset s).2 =
        eachSlot map mapsize (fun k b => if b then isset k else notset k) s ∧
      Inside mapsize (forBitmap map mapsize isset notset s).1 :=
  slotLoop_eq widens_zeroExtend mapsize s

/-- A search for a set bit at `num` fails while it has not come to one. -/
theorem foldlM_search (map : Map) (num : Nat) (l : List Nat) :
    (l.foldlM (fun s k =>
        (if bit map k then fun _ => if k = num then .error () else .ok () else fun _ => .ok ()) s)
        () : Except Unit Unit) = if num ∈ l ∧ bit map num then .error () else .ok () := by
  induction l with
  | nil => simp [pure, Except.pure]
  | cons k l ih =>
    rw [List.foldlM_cons]
    by_cases hk : k = num
    · subst hk
      cases hbit : bit map k with
      | true => simp [bind, Except.bind]
      | false =>
        rw [hbit] at ih
        simpa [hbit, bind, Except.bind] using ih
    · have hk' : ¬ num = k := fun h => hk h.symm
      simp only [if_neg hk, ite_self, List.mem_cons, hk', false_or]
      exact ih

theorem isRef_eq (map : Map) (total num : Nat) :
    (isRef map total num).2 = (decide (num < total) && bit map num) ∧
      Inside total (isRef map total num).1 := by
  obtain ⟨hres, hreads⟩ := forBitmap_eq map total
    (fun index (_ : Unit) => if index = num then .error () else .ok ()) (fun _ _ => .ok ()) ()
  refine ⟨?_, hreads⟩
  have hfold := foldlM_search map num (List.range total)
  have hrun : (forBitmap map total (fun index (_ : Unit) => if index = num then .error () else .ok ())
      (fun _ _ => .ok ()) ()).2 = if num ∈ List.range total ∧ bit map num then .error () else .ok () := by
    rw [hres, ← hfold]
    rfl
  simp only [isRef, hrun, List.mem_range]
  by_cases hnum : num < total
  · cases hbit : bit map num <;> simp [hnum, Except.isOk, Except.toBool]
  · simp [hnum, Except.isOk, Except.toBool]

theorem copySlots_eq {σ : Type} (map : Map) (instanceSize : Nat) (data : Nat → Nat)
    (copyReference : Nat → σ → Nat × σ) (target : (Nat → Nat) × σ) :
    (copySlots map instanceSize data copyReference target).2 =
        eachSlot map instanceSize (fun k b target =>
          if b then
            if (copyReference (data k) target.2).1 = 0xffffffff then
              .error (copyReference (data k) target.2).2
            else .ok (Function.update target.1 k (copyReference (data k) target.2).1,
              (copyReference (data k) target.2).2)
          else .ok (Function.update target.1 k (data k), target.2)) target ∧
      Inside instanceSize (copySlots map instanceSize data copyReference target).1 :=
  slotLoop_eq widens_signExtend instanceSize target

theorem foldlM_update (map : Map) (size : Nat) (stackmap : Nat → Bool) :
    ((List.range size).foldlM (fun f k => .ok (Function.update f k (bit map k))) stackmap :
      Except Unit (Nat → Bool)) = .ok fun k => if k < size then bit map k else stackmap k := by
  induction size with
  | zero => rfl
  | succ size ih =>
    rw [List.range_succ, List.foldlM_append, ih]
    refine congrArg Except.ok (funext fun k => ?_)
    by_cases hk : k = size
    · subst hk
      simp
    · have hlt : k < size + 1 ↔ k < size := by omega
      simp only [Function.update_of_ne hk, hlt]

theorem readStackmap_eq (map : Map) (nBits : Nat) (stackmap : Nat → Bool) :
    (readStackmap map nBits stackmap).2 =
        .ok (fun k => if k < nBits then bit map k else stackmap k) ∧
      Inside nBits (readStackmap map nBits stackmap).1 := by
  obtain ⟨hres, hreads⟩ := @slotLoop_eq _ _ Unit map
    (fun k b stackmap => .ok (Function.update stackmap k b)) widens_signExtend nBits stackmap
  exact ⟨hres.trans (foldlM_update map nBits stackmap), hreads⟩

/-- All four loops take slot `k` for a reference exactly when bit `k % 8` of byte `k / 8` is set, and
none of them reads beyond the bytes that hold the bits of the slots. -/
theorem slots_agree (map : Map) (size : Nat) :
    (∀ (σ ε : Type) (isset notset : Nat → σ → Except ε σ) (s : σ),
      (forBitmap map size isset notset s).2 =
          eachSlot map size (fun k b => if b then isset k else notset k) s ∧
        Inside size (forBitmap map size isset notset s).1) ∧
    (∀ num, (isRef map size num).2 = (decide (num < size) && bit map num) ∧
      Inside size (isRef map size num).1) ∧
    (∀ (σ : Type) (data : Nat → Nat) (copyReference : Nat → σ → Nat × σ) (target : (Nat → Nat) × σ),
      (copySlots map size data copyReference target).2 =
          eachSlot map size (fun k b target =>
            if b then
              if (copyReference (data k) target.2).1 = 0xffffffff then
                .error (copyReference (data k) target.2).2
              else .ok (Function.update target.1 k (copyReference (data k) target.2).1,
                (copyReference (data k) target.2).2)
            else .ok (Function.update target.1 k (data k), target.2)) target ∧
        Inside size (copySlots map size data copyReference target).1) ∧
    (∀ stackmap, (readStackmap map size stackmap).2 =
        .ok (fun k => if k < size then bit map k else stackmap k) ∧
      Inside size (readStackmap map size stackmap).1) :=
  ⟨fun _ _ isset notset s => forBitmap_eq map size isset notset s, isRef_eq map size,
    fun _ data copyReference target => copySlots_eq map size data copyReference target,
    readStackmap_eq map size⟩

/-! ## The maps of the other modules -/

end JxCore.SlotMap
