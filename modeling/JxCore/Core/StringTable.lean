import JxCore.Core.CodeFileFormat
import Mathlib.Tactic.SplitIfs

/-!
# The string table of a code file (`loadSharedLibrary`, `readStringID`)

A code file has a section of zero-terminated strings. The loader goes through it twice, to count the
strings and to note where each begins; later the file names a string by its number. `readStringID`
compares the number with the size of the table as signed integers and looks no further: a negative
number is an index in front of the table, and one behind the table sends the loader on from the last
string, past the end of the section.

Positions are counted from the beginning of the section; the memory goes on behind it. Nothing is
mapped behind the end of `mem`, and what lies around the table is left open.
-/

namespace JxCore.StringTable

open Exec
open CodeFile (Byte Str JInt)

/-- The memory from the beginning of the section on. -/
abbrev Memory := List Byte

/-- `*p` -/
def deref (mem : Memory) (p : Nat) : Exec Byte :=
  match mem[p]? with
  | some b => pure b
  | none => throw CodeFile.outside

/-! ## The two passes -/

/-- `while (p < end && *p != 0) p++; p++;` -/
def skipString (mem : Memory) (e : Nat) : (fuel : Nat) → Nat → Exec Nat
  | 0, _ => loop none
  | fuel + 1, p =>
    if p < e then deref mem p >>= fun b => if b ≠ 0 then skipString mem e fuel (p + 1) else pure (p + 1)
    else pure (p + 1)

/-- What a pass leaves: its position, the places where it has found a string, and its result. -/
structure Pass (σ : Type) where
  pos : Nat
  visited : List Nat
  result : σ

/-- `while (p < end)` over the strings; `visit` is what the pass does with the beginning of one. -/
def scanStrings {σ : Type} (mem : Memory) (e : Nat) (visit : Nat → σ → σ) :
    (fuel : Nat) → Pass σ → Exec (Pass σ)
  | 0, _ => loop none
  | fuel + 1, s =>
    if s.pos < e then
      skipString mem e fuel s.pos >>= fun p =>
        scanStrings mem e visit fuel ⟨p, s.visited ++ [s.pos], visit s.pos s.result⟩
    else pure s

/-- The pass with `count++`. -/
def countStrings (mem : Memory) (e fuel : Nat) : Exec (Pass Nat) :=
  scanStrings mem e (fun _ count => count + 1) fuel ⟨0, [], 0⟩

/-- The pass with `string_table[count++] = (jint) codefilepos`. -/
def fillStrings (mem : Memory) (e fuel : Nat) : Exec (Pass (List Nat)) :=
  scanStrings mem e (fun p table => table ++ [p]) fuel ⟨0, [], []⟩

/-- "read string table", for a section of `e` bytes, with what both passes have done. -/
structure Loaded where
  counting : Pass Nat
  filling : Pass (List Nat)
  /-- The entries that `jxmalloc` has reserved. It is asked for `count * sizeof(jint)` bytes, which does
  not wrap for fewer than 2^30 strings. -/
  reserved : Nat
  stringTable : List Nat
  stringTableSize : Nat
  codefilepos : Nat

def readStringTable (mem : Memory) (e fuel : Nat) : Exec Loaded := do
  if e = 0 then return ⟨⟨0, [], 0⟩, ⟨0, [], []⟩, 0, [], 0, 0⟩
  else
    let counting ← countStrings mem e fuel
    let filling ← fillStrings mem e fuel
    return ⟨counting, filling, counting.result, filling.result, counting.result, e⟩

/-! ## `readStringID` -/

/-- `while (*buf != 0) buf++; buf++;` -/
def passString (mem : Memory) : (fuel : Nat) → Nat → Exec Nat
  | 0, _ => loop none
  | fuel + 1, p => deref mem p >>= fun b => if b ≠ 0 then passString mem fuel (p + 1) else pure (p + 1)

def passStrings (mem : Memory) (fuel : Nat) : (n : Nat) → Nat → Exec Nat
  | 0, p => pure p
  | n + 1, p => passString mem fuel p >>= passStrings mem fuel n

/-- The string pointer, and the index that the table was read at. -/
inductive Buf where
  | «at» (index : Int) (p : Nat)
  /-- `""` -/
  | empty
  deriving DecidableEq, Repr

/-- The word at an index of the table; `around` is the memory outside of it. -/
def entry (table : List Nat) (around : Int → Nat) (index : Int) : Nat :=
  if index < 0 then around index else (table[index.toNat]?).getD (around index)

def readStringID (mem : Memory) (table : List Nat) (size : Nat) (around : Int → Nat) (id : JInt)
    (fuel : Nat) : Exec Buf :=
  if id.toInt < size then pure (.at id.toInt (entry table around id.toInt))
  else if size = 0 then pure .empty
  else
    let last := size - 1
    passStrings mem fuel (id.toNat - last) (entry table around last) >>= fun buf => pure (.at last buf)

/-! ## The strings of a section -/

/-- The section holds the strings `l`, each with its zero. -/
structure Spells (l : List Str) (sec : List Byte) : Prop where
  eq : sec = l.flatMap (· ++ [0])
  no_zero : ∀ s ∈ l, 0 ∉ s

/-- The strings of a section that ends with a zero. -/
def stringsOf : List Byte → List Str
  | [] => []
  | b :: sec =>
    if b = 0 then [] :: stringsOf sec
    else (b :: (stringsOf sec).headD []) :: (stringsOf sec).tail

theorem spells_stringsOf {sec : List Byte} (h : sec = [] ∨ sec.getLast? = some 0) :
    Spells (stringsOf sec) sec := by
  induction sec with
  | nil => exact ⟨rfl, fun s hs => absurd hs List.not_mem_nil⟩
  | cons b sec ih =>
    have hsec : sec = [] ∨ sec.getLast? = some 0 := by
      cases sec with
      | nil => exact .inl rfl
      | cons c sec =>
        rw [List.getLast?_cons_cons] at h
        exact .inr (h.resolve_left (List.cons_ne_nil _ _))
    obtain ⟨heq, hzero⟩ := ih hsec
    by_cases hb : b = 0
    · subst hb
      rw [stringsOf, if_pos rfl]
      refine ⟨by rw [List.flatMap_cons, ← heq]; rfl, List.forall_mem_cons.mpr ⟨List.not_mem_nil, hzero⟩⟩
    · rw [stringsOf, if_neg hb]
      cases hl : stringsOf sec with
      | nil =>
        -- a byte that is not zero does not end a section
        rw [hl] at heq
        subst heq
        simp at h
        exact absurd h hb
      | cons s l =>
        rw [hl] at heq hzero
        obtain ⟨hs, hrest⟩ := List.forall_mem_cons.mp hzero
        refine ⟨by rw [heq]; rfl, List.forall_mem_cons.mpr ⟨?_, hrest⟩⟩
        exact fun hmem => (List.mem_cons.mp hmem).elim (fun h0 => hb h0.symm) hs

theorem length_flatMap_cons (s : Str) (l : List Str) :
    ((s :: l).flatMap (· ++ [0])).length = s.length + 1 + (l.flatMap (· ++ [0])).length := by
  simp only [List.flatMap_cons, List.length_append, List.length_singleton]

/-- What is behind a string and its zero. -/
theorem drop_after {mem : Memory} {p : Nat} {s : Str} {rest : List Byte}
    (h : mem.drop p = s ++ 0 :: rest) : mem.drop (p + s.length + 1) = rest := by
  rw [Nat.add_assoc, ← List.drop_drop, h, ← List.drop_drop, List.drop_left]
  rfl

/-- Where the strings begin, the first of them at `p`. -/
def starts : Nat → List Str → List Nat
  | _, [] => []
  | p, s :: l => p :: starts (p + s.length + 1) l

theorem length_starts (p : Nat) (l : List Str) : (starts p l).length = l.length := by
  induction l generalizing p with
  | nil => rfl
  | cons s l ih => simp [starts, ih]

theorem starts_concat (p : Nat) (l : List Str) (s : Str) :
    starts p (l ++ [s]) = starts p l ++ [p + (l.flatMap (· ++ [0])).length] := by
  induction l generalizing p with
  | nil => rfl
  | cons a l ih =>
    rw [List.cons_append, starts, starts, ih, length_flatMap_cons, List.cons_append]
    congr 3
    omega

/-- String `k` is what stands at its start, up to its zero. -/
theorem starts_spec {mem : Memory} {p : Nat} {l : List Str} {rest : List Byte}
    (hmem : mem.drop p = l.flatMap (· ++ [0]) ++ rest) {k : Nat} {s : Str} (hk : l[k]? = some s) :
    ∃ q tail, (starts p l)[k]? = some q ∧ p ≤ q ∧ mem.drop q = s ++ 0 :: tail ∧
      q + s.length < p + (l.flatMap (· ++ [0])).length := by
  induction l generalizing p k with
  | nil => cases hk
  | cons a l ih =>
    have hlen := length_flatMap_cons a l
    rw [List.flatMap_cons, List.append_assoc, List.append_assoc, List.singleton_append] at hmem
    cases k with
    | zero =>
      obtain rfl : a = s := by simpa using hk
      exact ⟨p, _, rfl, Nat.le_refl p, hmem, by omega⟩
    | succ k =>
      obtain ⟨q, tail, hq, hle, hdrop, hlt⟩ := ih (drop_after hmem) hk
      exact ⟨q, tail, hq, by omega, hdrop, by omega⟩

/-! ## What the loops do -/

section Loops

variable {mem : Memory} {p e fuel : Nat} {s : Str} {rest : List Byte}

theorem deref_eq {b : Byte} (h : mem.drop p = b :: rest) : deref mem p = pure b := by
  have hget : mem[p]? = some b := by
    rw [← List.head?_drop, h]
    rfl
  rw [deref, hget]

theorem drop_succ {b : Byte} (h : mem.drop p = b :: rest) : mem.drop (p + 1) = rest := by
  rw [← List.drop_drop, h]
  rfl

theorem skipString_eq (h : mem.drop p = s ++ 0 :: rest) (hs : 0 ∉ s) (he : p + s.length < e)
    (hfuel : s.length < fuel) : skipString mem e fuel p = pure (p + s.length + 1) := by
  induction s generalizing p fuel with
  | nil =>
    obtain ⟨fuel, rfl⟩ := Nat.exists_eq_succ_of_ne_zero (Nat.ne_of_gt hfuel)
    rw [skipString, if_pos (Nat.lt_of_le_of_lt (Nat.le_add_right _ _) he), deref_eq h, pure_bind]
    rfl
  | cons b s ih =>
    obtain ⟨fuel, rfl⟩ := Nat.exists_eq_succ_of_ne_zero (Nat.ne_zero_of_lt hfuel)
    obtain ⟨hb, hs⟩ := not_or.mp (List.mem_cons.not.mp hs)
    rw [List.length_cons] at he hfuel
    rw [skipString, if_pos (by omega), deref_eq h, pure_bind, if_pos (Ne.symm hb),
      ih (drop_succ h) hs (by omega) (by omega), List.length_cons]
    congr 1
    omega

/-- A pass comes to every string once, and stops behind the last zero. -/
theorem scanStrings_eq {σ : Type} (visit : Nat → σ → σ) {l : List Str} (hl : ∀ s ∈ l, 0 ∉ s)
    (h : mem.drop p = l.flatMap (· ++ [0]) ++ rest) (visited : List Nat) (result : σ)
    (hfuel : (l.flatMap (· ++ [0])).length < fuel) :
    scanStrings mem (p + (l.flatMap (· ++ [0])).length) visit fuel ⟨p, visited, result⟩ =
      pure ⟨p + (l.flatMap (· ++ [0])).length, visited ++ starts p l,
        (starts p l).foldl (fun r q => visit q r) result⟩ := by
  induction l generalizing p fuel visited result with
  | nil =>
    obtain ⟨fuel, rfl⟩ := Nat.exists_eq_succ_of_ne_zero (Nat.ne_of_gt hfuel)
    simp [scanStrings, starts]
  | cons s l ih =>
    obtain ⟨fuel, rfl⟩ := Nat.exists_eq_succ_of_ne_zero (Nat.ne_zero_of_lt hfuel)
    obtain ⟨hs, hl⟩ := List.forall_mem_cons.mp hl
    have hlen := length_flatMap_cons s l
    rw [List.flatMap_cons, List.append_assoc, List.append_assoc, List.singleton_append] at h
    have hskip := skipString_eq h hs (show p + s.length < p + ((s :: l).flatMap (· ++ [0])).length by
      omega) (show s.length < fuel by omega)
    have hlt : p < p + ((s :: l).flatMap (· ++ [0])).length := by omega
    have hend : p + ((s :: l).flatMap (· ++ [0])).length =
        p + s.length + 1 + (l.flatMap (· ++ [0])).length := by omega
    simp only [scanStrings, if_pos hlt, hskip, pure_bind]
    rw [hend, ih hl (drop_after h) _ _ (by omega), List.append_assoc]
    rfl

theorem foldl_count (l : List Nat) (n : Nat) :
    l.foldl (fun count _ => count + 1) n = n + l.length := by
  induction l generalizing n with
  | nil => rfl
  | cons _ l ih =>
    rw [List.foldl_cons, ih, List.length_cons]
    omega

theorem foldl_fill (l table : List Nat) : l.foldl (fun t q => t ++ [q]) table = table ++ l := by
  induction l generalizing table with
  | nil => simp
  | cons q l ih => rw [List.foldl_cons, ih, List.append_assoc, List.singleton_append]

/-- Passing a string goes on at least one byte. -/
theorem lt_of_passString {q : Nat} (h : passString mem fuel p = pure q) : p < q := by
  induction fuel generalizing p with
  | zero => cases h
  | succ fuel ih =>
    obtain ⟨b, -, h⟩ := bind_eq_pure h
    split_ifs at h
    · exact Nat.lt_of_succ_lt (ih h)
    · have heq := eq_of_pure_eq h
      omega

theorem le_of_passStrings {n q : Nat} (h : passStrings mem fuel n p = pure q) : p ≤ q := by
  induction n generalizing p with
  | zero => exact Nat.le_of_eq (eq_of_pure_eq h)
  | succ n ih =>
    obtain ⟨r, hr, h⟩ := bind_eq_pure h
    exact Nat.le_trans (Nat.le_of_lt (lt_of_passString hr)) (ih h)

theorem passString_eq {q : Nat} (h : mem.drop p = s ++ 0 :: rest) (hs : 0 ∉ s)
    (hpass : passString mem fuel p = pure q) : q = p + s.length + 1 := by
  induction s generalizing p fuel with
  | nil =>
    cases fuel with
    | zero => cases hpass
    | succ fuel =>
      rw [passString, deref_eq h, pure_bind] at hpass
      exact (eq_of_pure_eq hpass).symm
  | cons b s ih =>
    cases fuel with
    | zero => cases hpass
    | succ fuel =>
      obtain ⟨hb, hs⟩ := not_or.mp (List.mem_cons.not.mp hs)
      rw [passString, deref_eq h, pure_bind, if_pos (Ne.symm hb)] at hpass
      rw [ih (drop_succ h) hs hpass, List.length_cons]
      omega

end Loops

/-! ## The table of a section -/

section Section

variable {sec rest : List Byte} {l : List Str}

theorem scan_section {σ : Type} (visit : Nat → σ → σ) (h : Spells l sec) (rest : List Byte) (result : σ)
    {fuel : Nat} (hfuel : sec.length < fuel) :
    scanStrings (sec ++ rest) sec.length visit fuel ⟨0, [], result⟩ =
      pure ⟨sec.length, starts 0 l, (starts 0 l).foldl (fun r q => visit q r) result⟩ := by
  have hscan := @scanStrings_eq (sec ++ rest) 0 fuel rest σ visit l h.no_zero
    (by rw [List.drop_zero, ← h.eq]) [] result (by rwa [← h.eq])
  rwa [← h.eq, Nat.zero_add, List.nil_append] at hscan

/-- The table after the two passes. -/
def loaded (l : List Str) (e : Nat) : Loaded :=
  ⟨⟨e, starts 0 l, l.length⟩, ⟨e, starts 0 l, starts 0 l⟩, l.length, starts 0 l, l.length, e⟩

theorem readStringTable_eq (h : Spells l sec) (hsec : sec ≠ []) (rest : List Byte) :
    Returns (fun fuel => readStringTable (sec ++ rest) sec.length fuel) (loaded l sec.length) := by
  have hpos : sec.length ≠ 0 := fun h0 => hsec (List.length_eq_zero_iff.mp h0)
  refine ⟨sec.length + 1, fun fuel hfuel => ?_⟩
  simp only [readStringTable, if_neg hpos, countStrings, fillStrings, scan_section _ h rest _ hfuel,
    pure_bind, foldl_count, foldl_fill, length_starts, List.nil_append, Nat.zero_add, loaded]

/-- The number leads to a string of the section, read from the table, and to the right one. -/
def Resolves (mem : Memory) (e : Nat) (l : List Str) (t : Loaded) (around : Int → Nat) (id : JInt) :
    Prop :=
  ∃ index p, Returns (fun fuel => readStringID mem t.stringTable t.stringTableSize around id fuel)
      (.at index p) ∧ (0 ≤ index ∧ index < t.stringTableSize) ∧ p < e ∧
    ∀ (k : Nat) (s : Str), id.toInt = k → l[k]? = some s → ∃ tail, mem.drop p = s ++ 0 :: tail

theorem resolves_of_lt (h : Spells l sec) (rest : List Byte) (around : Int → Nat) {id : JInt} {k : Nat}
    (hid : id.toInt = k) (hk : k < l.length) :
    Resolves (sec ++ rest) sec.length l (loaded l sec.length) around id := by
  have hget : l[k]? = some l[k] := List.getElem?_eq_getElem hk
  obtain ⟨q, tail, hq, -, hdrop, hlt⟩ :=
    @starts_spec (sec ++ rest) 0 l rest (by rw [List.drop_zero, ← h.eq]) k _ hget
  rw [Nat.zero_add, ← h.eq] at hlt
  have hentry : entry (starts 0 l) around k = q := by
    rw [entry, if_neg (by omega), Int.toNat_natCast, hq, Option.getD_some]
  refine ⟨k, q, ⟨0, fun fuel _ => ?_⟩, ⟨Int.natCast_nonneg k, ?_⟩, by omega, fun k' s hk' hs => ?_⟩
  · have hin : (k : Int) < (l.length : Int) := by omega
    simp only [readStringID, loaded, hid, if_pos hin, hentry]
  · show (k : Int) < (l.length : Int)
    omega
  · obtain rfl : k = k' := by omega
    rw [hget] at hs
    cases hs
    exact ⟨tail, hdrop⟩

/-- A number behind the table leads out of the section. -/
theorem le_of_behind (h : Spells l sec) (hsec : sec ≠ []) {around : Int → Nat} {id : JInt} {fuel p : Nat}
    {index : Int} (hid : (l.length : Int) ≤ id.toInt)
    (hrun : readStringID (sec ++ rest) (starts 0 l) l.length around id fuel = pure (.at index p)) :
    sec.length ≤ p := by
  have hl : l ≠ [] := by
    rintro rfl
    exact hsec h.eq
  obtain ⟨front, s, rfl⟩ := (List.eq_nil_or_concat l).resolve_left hl
  rw [List.concat_eq_append] at h hid hrun
  obtain ⟨heq, hzero⟩ := h
  rw [List.length_append, List.length_singleton] at hid hrun
  -- the last string ends where the section does
  have hsec : sec = front.flatMap (· ++ [0]) ++ (s ++ [0]) := by
    rw [heq, List.flatMap_append, List.flatMap_singleton]
  have hend : sec.length = (front.flatMap (· ++ [0])).length + s.length + 1 := by
    rw [hsec, List.length_append, List.length_append, List.length_singleton, Nat.add_assoc]
  have hdrop : (sec ++ rest).drop (front.flatMap (· ++ [0])).length = s ++ 0 :: rest := by
    rw [hsec, List.append_assoc, List.drop_left, List.append_assoc, List.singleton_append]
  have hentry : entry (starts 0 (front ++ [s])) around ((front.length + 1 - 1 : Nat) : Int) =
      (front.flatMap (· ++ [0])).length := by
    rw [entry, if_neg (by omega), Int.toNat_natCast, starts_concat, Nat.add_sub_cancel,
      ← length_starts 0 front, List.getElem?_concat_length, Option.getD_some, Nat.zero_add]
  have hnat : (id.toNat : Int) = id.toInt := by
    rcases Lib.toInt_cases id with ⟨-, hx⟩ | ⟨-, -, hx⟩ <;> omega
  have hsteps : ∃ n, id.toNat - (front.length + 1 - 1) = n + 1 :=
    ⟨id.toNat - front.length - 1, by omega⟩
  obtain ⟨n, hn⟩ := hsteps
  rw [readStringID, if_neg (by omega), if_neg (Nat.succ_ne_zero _)] at hrun
  simp only [hn, hentry] at hrun
  obtain ⟨r, hr, hrun⟩ := bind_eq_pure hrun
  obtain ⟨u, hu, hr⟩ := bind_eq_pure hr
  have hfirst := passString_eq hdrop (hzero s (by simp)) hu
  have hrest := le_of_passStrings hr
  obtain rfl : r = p := by
    have hbuf := eq_of_pure_eq hrun
    injection hbuf
  omega

theorem resolves_iff (h : Spells l sec) (hsec : sec ≠ []) (around : Int → Nat) (id : JInt) :
    Resolves (sec ++ rest) sec.length l (loaded l sec.length) around id ↔
      0 ≤ id.toInt ∧ id.toInt < l.length := by
  constructor
  · rintro ⟨index, p, ⟨n, hn⟩, hindex, hp, -⟩
    have hrun := hn n (Nat.le_refl n)
    by_cases hbehind : (l.length : Int) ≤ id.toInt
    · exact absurd (le_of_behind h hsec hbehind hrun) (by omega)
    · -- in front of the table the number itself is the index
      have hlt : id.toInt < (l.length : Int) := by omega
      have hread : readStringID (sec ++ rest) (starts 0 l) l.length around id n = pure (.at index p) := hrun
      rw [readStringID, if_pos hlt] at hread
      have hbuf := eq_of_pure_eq hread
      injection hbuf with hidx
      exact ⟨hidx ▸ hindex.1, hlt⟩
  · rintro ⟨hnonneg, hlt⟩
    obtain ⟨k, hk⟩ := Int.eq_ofNat_of_zero_le hnonneg
    exact resolves_of_lt h rest around hk (by omega)

end Section

/-- For every section that ends with a zero the two passes find the same strings, the second one
fills what the first has reserved, and the position is behind the section. A number is safe, and
leads to its string, exactly if it is one of the table. -/
theorem stringTable_spec {sec : List Byte} (h : sec.getLast? = some 0) (rest : List Byte) :
    ∃ t, Returns (fun fuel => readStringTable (sec ++ rest) sec.length fuel) t ∧
      t.counting.visited = t.filling.visited ∧ t.stringTable = t.filling.visited ∧
      t.stringTable.length = t.reserved ∧ t.stringTableSize = t.reserved ∧
      t.reserved = (stringsOf sec).length ∧ t.filling.pos = sec.length ∧ t.codefilepos = sec.length ∧
      ∀ around id, Resolves (sec ++ rest) sec.length (stringsOf sec) t around id ↔
        0 ≤ id.toInt ∧ id.toInt < t.stringTableSize := by
  have hspells := spells_stringsOf (.inr h)
  have hsec : sec ≠ [] := by
    rintro rfl
    cases h
  exact ⟨loaded (stringsOf sec) sec.length, readStringTable_eq hspells hsec rest, rfl, rfl,
    length_starts _ _, rfl, rfl, rfl, rfl, resolves_iff hspells hsec⟩

theorem stringTable_two : ∃ t, Returns (fun fuel => readStringTable [65, 0, 0] 3 fuel) t ∧
    t.stringTable.length = 2 ∧ ∀ around, Resolves [65, 0, 0] 3 [[65], []] t around 1 := by
  obtain ⟨t, hret, -, -, hlen, hsize, hcount, -, -, hiff⟩ :=
    @stringTable_spec [65, 0, 0] (by decide) []
  have htwo : t.stringTable.length = 2 := hlen.trans hcount
  refine ⟨t, hret, htwo, fun around => (hiff around 1).mpr ⟨by decide, ?_⟩⟩
  rw [hsize, hcount]
  decide

/-- The number -1 is read in front of the table. -/
theorem not_resolves_negative : ¬ ∀ (sec rest : List Byte) (t : Loaded) (around : Int → Nat) (id : JInt),
    sec.getLast? = some 0 →
    Returns (fun fuel => readStringTable (sec ++ rest) sec.length fuel) t →
    Resolves (sec ++ rest) sec.length (stringsOf sec) t around id := by
  intro h
  have hspells : Spells [[65]] [65, 0] := ⟨rfl, by decide⟩
  have hread := readStringTable_eq hspells (by decide) []
  have hresolves := h [65, 0] [] _ (fun _ => 0) (-1) (by decide) hread
  have hnonneg := ((resolves_iff hspells (by decide) (fun _ => 0) (-1)).mp hresolves).1
  revert hnonneg
  decide

end JxCore.StringTable
