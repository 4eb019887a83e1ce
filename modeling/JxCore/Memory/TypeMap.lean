import JxCore.Basic
import Mathlib.Data.Nat.Bits

/-!
# Type maps

The compiler describes which words are references by a string of bytes, eight words to a byte,
lowest bit first: a class has one for its fields, a method one for its arguments, and every point
where a thread may stop one for the stack frame. All of them are read by the same loop, which
fetches a byte at every eighth index and shifts it down in between.

`getElem?_forBitmap` replaces the loop by indexing; nothing after this module looks at the shifts.
-/

namespace JxCore.TypeMap

/-- The bit that a map holds for word `k`. -/
def bit (map : List Nat) (k : Nat) : Bool := (map.getD (k / 8) 0).testBit (k % 8)

/-- The rest of the loop at `index`, with `n` indices to go: `bits` is what the shifts have left of
the current byte, `addr` points to the bytes not fetched yet. -/
def decode : (n index bits : Nat) → (addr : List Nat) → List Bool
  | 0, _, _, _ => []
  | n + 1, index, bits, addr =>
    if index % 8 = 0 then
      (addr.headD 0).testBit 0 :: decode n (index + 1) (addr.headD 0 >>> 1) addr.tail
    else
      bits.testBit 0 :: decode n (index + 1) (bits >>> 1) addr

/-- `FORBITMAP(map, mapsize, isset, notset)`: which of the two runs, index by index. -/
def forBitmap (map : List Nat) (mapsize : Nat) : List Bool := decode mapsize 0 0 map

/-- `isRef`: the loop comes to `num` and finds its bit set. -/
def isRef (map : List Nat) (total num : Nat) : Bool :=
  (forBitmap map total).zipIdx.any fun (b, index) => b && index == num

/-! ## Indexing -/

theorem length_decode (n index bits : Nat) (addr : List Nat) :
    (decode n index bits addr).length = n := by
  induction n generalizing index bits addr with
  | zero => rfl
  | succ n ih =>
    unfold decode
    split <;> simp [ih]

/-- The loop in the middle of a map: `bits` is the current byte shifted by `index % 8`, and at the
start of a byte nothing is assumed about it. -/
theorem getElem?_decode (map : List Nat) (n index bits : Nat)
    (hbits : index % 8 ≠ 0 → bits = map.getD (index / 8) 0 >>> (index % 8)) (k : Nat) (hk : k < n) :
    (decode n index bits (map.drop ((index + 7) / 8)))[k]? = some (bit map (index + k)) := by
  induction n generalizing index bits k with
  | zero => omega
  | succ n ih =>
    unfold decode
    split
    · next hzero =>
      have hbyte : (index + 7) / 8 = index / 8 := by omega
      have hnext : (index + 1 + 7) / 8 = index / 8 + 1 := by omega
      have hhead : (map.drop ((index + 7) / 8)).headD 0 = map.getD (index / 8) 0 := by
        rw [hbyte, List.headD_eq_head?_getD, List.head?_drop, List.getD_eq_getElem?_getD]
      rw [hhead]
      cases k with
      | zero => simp [bit, hzero]
      | succ k =>
        have htail : (map.drop ((index + 7) / 8)).tail = map.drop ((index + 1 + 7) / 8) := by
          rw [List.tail_drop, hbyte, hnext]
        rw [List.getElem?_cons_succ, htail, ih (index + 1) _ (fun _ => ?_) k (by omega)]
        · rw [show index + 1 + k = index + (k + 1) by omega]
        · rw [show (index + 1) % 8 = 1 by omega, show (index + 1) / 8 = index / 8 by omega]
    · next hinside =>
      have hshift := hbits hinside
      cases k with
      | zero => simp [bit, hshift]
      | succ k =>
        have hsame : (index + 7) / 8 = (index + 1 + 7) / 8 := by omega
        rw [List.getElem?_cons_succ, hsame, ih (index + 1) _ (fun hne => ?_) k (by omega)]
        · rw [show index + 1 + k = index + (k + 1) by omega]
        · rw [hshift, ← Nat.shiftRight_add, show (index + 1) / 8 = index / 8 by omega,
            show (index + 1) % 8 = index % 8 + 1 by omega]

@[simp] theorem length_forBitmap (map : List Nat) (mapsize : Nat) :
    (forBitmap map mapsize).length = mapsize :=
  length_decode mapsize 0 0 map

theorem getElem?_forBitmap (map : List Nat) {mapsize k : Nat} (hk : k < mapsize) :
    (forBitmap map mapsize)[k]? = some (bit map k) := by
  have hloop := getElem?_decode map mapsize 0 0 (by simp) k hk
  simpa [forBitmap] using hloop

theorem getD_forBitmap (map : List Nat) (mapsize k : Nat) :
    (forBitmap map mapsize).getD k false = (decide (k < mapsize) && bit map k) := by
  rw [List.getD_eq_getElem?_getD]
  by_cases hk : k < mapsize
  · rw [getElem?_forBitmap map hk]
    simp [hk]
  · rw [List.getElem?_eq_none (by simpa using hk)]
    simp [hk]

theorem isRef_eq (map : List Nat) (total num : Nat) :
    isRef map total num = (decide (num < total) && bit map num) := by
  rw [← getD_forBitmap, isRef, Bool.eq_iff_iff, List.any_eq_true]
  constructor
  · rintro ⟨⟨b, index⟩, hmem, hb⟩
    obtain ⟨hset, hnum⟩ : b = true ∧ index = num := by simpa using hb
    rw [hset, hnum, List.mk_mem_zipIdx_iff_getElem?] at hmem
    rw [List.getD_eq_getElem?_getD, hmem, Option.getD_some]
  · intro hset
    refine ⟨(true, num), ?_, by simp⟩
    rw [List.mk_mem_zipIdx_iff_getElem?]
    rw [List.getD_eq_getElem?_getD] at hset
    cases hget : (forBitmap map total)[num]? with
    | none => simp [hget] at hset
    | some b => simpa [hget] using hset

end JxCore.TypeMap
