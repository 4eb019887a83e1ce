import JxCore.Core.MallocSearch
import JxCore.Lib.Walk
import Mathlib.Tactic.Push
import Mathlib.Tactic.SplitIfs

/-!
# Where the managed memory comes from (`core/malloc.c`)

The boot loader leaves a list of tags in memory. Each tag holds its size, and the next tag starts at
the end of it, rounded up to a multiple of eight. `jxmalloc_init` goes through the list up to a tag of
type 0. One tag says how much memory there is, and the managed memory starts behind the boot module
whose tag comes last, wherever the other module is.

The list is read from memory as it is: a size field is any 32-bit number, and the addresses wrap.
-/

namespace JxCore.MallocBoot

open Exec Lib Malloc

/-! ## The tags -/

/-- The words of the memory, by their addresses. -/
abbrev Words := Nat → BitVec 32

section Fields

variable (m : Words) (tag : Nat)

/-- `tag->type`, the same for every kind of tag. -/
def type : Nat := (m tag).toNat

def size : Nat := (m (u4 (tag + 4))).toNat

/-- `mod_start` and `mod_end` of a `struct multiboot_module`. -/
def modStart : Nat := (m (u4 (tag + 8))).toNat

def modEnd : Nat := (m (u4 (tag + 12))).toNat

/-- `mem_upper` of a `struct multiboot_meminfo`. -/
def memUpper : Nat := (m (u4 (tag + 12))).toNat

/-- `(u4_t) tag + ((tag->size + 7) & ~7)`. -/
def nextTag : Nat := u4 (tag + u4 (size m tag + 7) / 8 * 8)

end Fields

theorem modEnd_lt (m : Words) (tag : Nat) : modEnd m tag < 2 ^ 32 := (m (u4 (tag + 12))).isLt

/-- `tag->type == 0`. -/
def Last (m : Words) (tag : Nat) : Prop := type m tag = 0

instance (m : Words) (tag : Nat) : Decidable (Last m tag) := inferInstanceAs (Decidable (_ = 0))

/-- What the loop has found: `meminfo`, the array `m` and `mods_count`. -/
structure Found where
  meminfo : Option Nat
  m : List Nat
  modsCount : Nat
  deriving DecidableEq

/-- Before the loop. -/
def Found.start : Found := ⟨none, [], 0⟩

/-- The body of the loop. -/
def visit (m : Words) (s : Found) (tag : Nat) : Found :=
  if type m tag = 4 then { s with meminfo := some tag }
  else if type m tag = 3 then
    { s with
      m := if s.modsCount < 2 then s.m ++ [tag] else s.m
      modsCount := s.modsCount + 1 }
  else s

/-- The loop. -/
def scan (m : Words) : Nat → Nat → Found → Option Found
  | 0, _, _ => none
  | fuel + 1, tag, s => if Last m tag then some s else scan m fuel (nextTag m tag) (visit m s tag)

/-! ## The memory range -/

/-- `ALIGN_PREV_BLOCK(a)`. -/
def alignPrevBlock (a : Nat) : Nat := a / blockSize * blockSize

/-- `jxmem_start` and `jxmem_end`. -/
def jxmem (m : Words) (s : Found) : Except Stop (Nat × Nat) :=
  match s.meminfo with
  | none => throw (.panic "No memory information tag found")
  | some meminfo =>
    if 2 < s.modsCount then throw (.panic "Max 2 modules expected")
    else
      let jxmemEnd := alignPrevBlock (u4 (0x100000 + memUpper m meminfo * 1024))
      match s.modsCount, s.m with
      | 1, m0 :: _ => return (alignNextBlock (u4 (modEnd m m0 + 1)), jxmemEnd)
      | 2, _ :: m1 :: _ => return (alignNextBlock (u4 (modEnd m m1 + 1)), jxmemEnd)
      | _, _ => throw (.panic "max 2 modules expected")

/-- A part without loops. -/
def straight {α : Type} (x : Except Stop α) : Exec α := ExceptT.mk (some x)

/-- The first tag. -/
def firstTag (bootInfo : Nat) : Nat := u4 (bootInfo + 8)

/-- `jxmalloc_init`, with the range it hands to the block allocator; `mem` is what the range held
before. -/
def jxmallocInit (fuel : Nat) (inited : Bool) (m : Words) (bootInfo : Nat) (mem : Bytes) :
    Exec (Nat × Nat × Allocator) := do
  if inited then throw (.panic "jxmalloc already initialized!")
  let found ← loop (scan m fuel (firstTag bootInfo) .start)
  let (jxmemStart, jxmemEnd) ← straight (jxmem m found)
  let a ← straight (Malloc.jxmallocInit jxmemStart (u4 (2 ^ 32 + jxmemEnd - jxmemStart)) mem)
  return (jxmemStart, jxmemEnd, a)

/-! ## What the range should be -/

/-- The tags of the list, up to the one of type 0. -/
abbrev Tags (m : Words) (bootInfo : Nat) (tags : List Nat) : Prop :=
  Walk (nextTag m) (Last m) (firstTag bootInfo) tags

/-- The boot modules of the list. -/
def modules (m : Words) (tags : List Nat) : List Nat := tags.filter fun tag => type m tag = 3

/-- The memory information that is in effect; a list is meant to have only one. -/
def meminfo (m : Words) (tags : List Nat) : Option Nat :=
  (tags.filter fun tag => type m tag = 4).getLast?

/-- The end of the memory that a meminfo tag reports, as a number without a bound. -/
def reported (m : Words) (tag : Nat) : Nat := 0x100000 + memUpper m tag * 1024

structure RangeOk (m : Words) (tags : List Nat) (jxmemStart jxmemEnd : Nat) : Prop where
  aligned : jxmemStart % blockSize = 0 ∧ jxmemEnd % blockSize = 0
  nonempty : jxmemStart < jxmemEnd
  /-- The reported end is an address, and the range does not go beyond it. -/
  inMemory : ∀ info, meminfo m tags = some info →
    reported m info < 2 ^ 32 ∧ jxmemEnd ≤ reported m info
  disjoint : ∀ mod ∈ modules m tags, ∀ a, modStart m mod ≤ a → a < modEnd m mod →
    ¬ (jxmemStart ≤ a ∧ a < jxmemEnd)

/-- The loop ends, and the range is right if there is no panic. -/
structure Correct (m : Words) (bootInfo : Nat) : Prop where
  ends : ∃ n, ∀ fuel ≥ n, scan m fuel (firstTag bootInfo) .start ≠ none
  range : ∀ tags, Tags m bootInfo tags → ∀ fuel mem jxmemStart jxmemEnd a,
    jxmallocInit fuel false m bootInfo mem = pure (jxmemStart, jxmemEnd, a) →
      RangeOk m tags jxmemStart jxmemEnd

/-! ## The loop -/

variable {m : Words} {bootInfo : Nat}

theorem scan_of_walk {tag : Nat} {tags : List Nat} (h : Walk (nextTag m) (Last m) tag tags)
    (s : Found) {fuel : Nat} (hfuel : tags.length < fuel) :
    scan m fuel tag s = some (tags.foldl (visit m) s) := by
  induction h generalizing s fuel with
  | nil hlast =>
    obtain ⟨fuel, rfl⟩ := Nat.exists_eq_succ_of_ne_zero (Nat.ne_of_gt hfuel)
    rw [scan, if_pos hlast]
    rfl
  | cons hgo _ ih =>
    obtain ⟨fuel, rfl⟩ := Nat.exists_eq_succ_of_ne_zero (Nat.ne_zero_of_lt hfuel)
    rw [scan, if_neg hgo, List.foldl_cons]
    exact ih _ (Nat.lt_of_succ_lt_succ hfuel)

/-- The loop ends only behind a list of tags, and has then visited all of them. -/
theorem walk_of_scan {tag fuel : Nat} {s t : Found} (h : scan m fuel tag s = some t) :
    ∃ tags, Walk (nextTag m) (Last m) tag tags ∧ t = tags.foldl (visit m) s := by
  induction fuel generalizing tag s with
  | zero => cases h
  | succ fuel ih =>
    unfold scan at h
    by_cases hlast : Last m tag
    · rw [if_pos hlast] at h
      exact ⟨[], .nil hlast, (Option.some.inj h).symm⟩
    · rw [if_neg hlast] at h
      obtain ⟨tags, hwalk, ht⟩ := ih h
      exact ⟨tag :: tags, .cons hlast hwalk, ht⟩

theorem ends_iff : (∃ n, ∀ fuel ≥ n, scan m fuel (firstTag bootInfo) .start ≠ none) ↔
    NoReturn (nextTag m) (Last m) (firstTag bootInfo) := by
  have hlt : ∀ n, (nextTag m)^[n] (firstTag bootInfo) < 2 ^ 32 := by
    intro n
    cases n with
    | zero => exact Nat.mod_lt _ (by decide)
    | succ n =>
      rw [Function.iterate_succ_apply']
      exact Nat.mod_lt _ (by decide)
  have hfin : (Set.range fun n => (nextTag m)^[n] (firstTag bootInfo)).Finite := by
    apply (Set.finite_Iio (2 ^ 32)).subset
    rintro _ ⟨n, rfl⟩
    exact hlt n
  rw [← exists_walk_iff_noReturn hfin]
  constructor
  · rintro ⟨n, hn⟩
    obtain ⟨t, ht⟩ := Option.ne_none_iff_exists'.mp (hn n (Nat.le_refl n))
    obtain ⟨tags, hwalk, -⟩ := walk_of_scan ht
    exact ⟨tags, hwalk⟩
  · rintro ⟨tags, hwalk⟩
    refine ⟨tags.length + 1, fun fuel hfuel => ?_⟩
    rw [scan_of_walk hwalk _ hfuel]
    exact Option.some_ne_none _

/-- The array has room for two. -/
theorem take_two_concat (l : List Nat) (tag : Nat) :
    (if l.length < 2 then l.take 2 ++ [tag] else l.take 2) = (l ++ [tag]).take 2 := by
  by_cases h : l.length < 2
  · have hlen : (l ++ [tag]).length ≤ 2 := by
      rw [List.length_append, List.length_singleton]
      exact h
    rw [if_pos h, List.take_of_length_le (Nat.le_of_lt h), List.take_of_length_le hlen]
  · rw [if_neg h, List.take_append_of_le_length (Nat.le_of_not_lt h)]

/-- What the loop has found is what the list has. -/
theorem found_eq (tags : List Nat) : tags.foldl (visit m) .start =
    ⟨meminfo m tags, (modules m tags).take 2, (modules m tags).length⟩ := by
  induction tags using List.reverseRecOn with
  | nil => rfl
  | append_singleton tags tag ih =>
    rw [List.foldl_concat, ih]
    unfold visit meminfo modules
    by_cases hinfo : type m tag = 4
    · simp [hinfo]
    · by_cases hmod : type m tag = 3
      · simpa [hmod] using take_two_concat (tags.filter fun tag => type m tag = 3) tag
      · simp [hinfo, hmod]

/-! ## The range -/

theorem straight_pure {α : Type} (a : α) : straight (pure a) = pure a := rfl

theorem straight_eq_iff {α : Type} {x : Except Stop α} {a : α} :
    straight x = pure a ↔ x = pure a := by
  constructor
  · intro h
    exact Option.some.inj h
  · rintro rfl
    exact straight_pure a

/-- The range of a list with one or two modules. -/
theorem jxmem_eq_iff {tags : List Nat} {s e : Nat} :
    jxmem m (tags.foldl (visit m) .start) = pure (s, e) ↔
      ∃ info mod, meminfo m tags = some info ∧ (modules m tags).getLast? = some mod ∧
        (modules m tags).length ≤ 2 ∧ s = alignNextBlock (u4 (modEnd m mod + 1)) ∧
        e = alignPrevBlock (u4 (reported m info)) := by
  rw [found_eq]
  unfold jxmem
  cases hinfo : meminfo m tags with
  | none => simp [pure, Except.pure, throw, throwThe, MonadExceptOf.throw]
  | some info =>
    cases hmods : modules m tags with
    | nil => simp [pure, Except.pure, throw, throwThe, MonadExceptOf.throw]
    | cons m0 rest =>
      cases rest with
      | nil => simp [pure, Except.pure, reported, eq_comm]
      | cons m1 rest =>
        cases rest with
        | nil => simp [pure, Except.pure, reported, eq_comm]
        | cons m2 rest => simp [pure, Except.pure, throw, throwThe, MonadExceptOf.throw]

/-- The block allocator takes any range. -/
theorem exists_jxmallocInit (s size : Nat) (mem : Bytes) :
    ∃ a, Malloc.jxmallocInit s size mem = pure a := by
  unfold Malloc.jxmallocInit
  by_cases hpos : 0 < size / blockSize
  · exact Allocator.markUsed_ok hpos _
  · have hzero : size / blockSize = 0 := Nat.eq_zero_of_not_pos hpos
    have hnone : alignNextBlock ((0 : Nat) >>> 3) / blockSize = 0 := by decide
    simp only [hzero, hnone]
    exact ⟨_, rfl⟩

/-- An initialisation that comes back. -/
theorem jxmallocInit_eq_iff {tags : List Nat} (htags : Tags m bootInfo tags) {s e : Nat} :
    (∃ fuel mem a, jxmallocInit fuel false m bootInfo mem = pure (s, e, a)) ↔
      jxmem m (tags.foldl (visit m) .start) = pure (s, e) := by
  constructor
  · rintro ⟨fuel, mem, a, h⟩
    simp only [jxmallocInit, Bool.false_eq_true, if_false] at h
    obtain ⟨found, hscan, h⟩ := bind_eq_pure h
    obtain ⟨tags', hwalk, rfl⟩ := walk_of_scan (loop_eq_pure hscan)
    obtain ⟨⟨s', e'⟩, hrange, h⟩ := bind_eq_pure h
    obtain ⟨a', -, h⟩ := bind_eq_pure h
    cases eq_of_pure_eq h
    rw [htags.unique hwalk]
    exact straight_eq_iff.mp hrange
  · intro h
    obtain ⟨a, ha⟩ := exists_jxmallocInit s (u4 (2 ^ 32 + e - s)) fun _ => 0
    have hscan := scan_of_walk htags .start (Nat.lt_succ_self tags.length)
    refine ⟨tags.length + 1, fun _ => 0, a, ?_⟩
    simp only [jxmallocInit, Bool.false_eq_true, if_false, hscan, loop_some, pure_bind, h,
      straight_pure, ha]

/-! ## The condition -/

/-- The boundary of a block that follows an address. -/
def boundaryAfter (a : Nat) : Nat := (a / blockSize + 1) * blockSize

/-- The memory has an end below 4 GiB, and either the last module leaves a block before that end and the
other module is not between, or the last module reaches into the topmost block of the address space
and no module has a byte in the memory. -/
def Suitable (m : Words) (tags : List Nat) (info last : Nat) : Prop :=
  reported m info < 2 ^ 32 ∧
    ((modEnd m last + blockSize < 2 ^ 32 ∧ boundaryAfter (modEnd m last) < reported m info ∧
        ∀ mod ∈ modules m tags, modEnd m mod ≤ modStart m mod ∨
          modEnd m mod ≤ boundaryAfter (modEnd m last) ∨ reported m info ≤ modStart m mod) ∨
      (2 ^ 32 ≤ modEnd m last + blockSize ∧
        ∀ mod ∈ modules m tags, modEnd m mod ≤ modStart m mod ∨ reported m info ≤ modStart m mod))

theorem alignNextBlock_eq {a : Nat} (ha : a < 2 ^ 32) : alignNextBlock (u4 (a + 1)) =
    if a + blockSize < 2 ^ 32 then boundaryAfter a else 0 := by
  unfold alignNextBlock u4 boundaryAfter blockSize
  split_ifs with h <;> omega

theorem alignPrevBlock_eq {info : Nat} (h : reported m info < 2 ^ 32) :
    alignPrevBlock (u4 (reported m info)) = reported m info := by
  rw [u4_of_lt h]
  unfold alignPrevBlock blockSize reported
  omega

/-- Two ranges of addresses; the second one has an address. -/
theorem disjoint_iff {a b s e : Nat} (hse : s < e) :
    (∀ x, a ≤ x → x < b → ¬ (s ≤ x ∧ x < e)) ↔ b ≤ a ∨ b ≤ s ∨ e ≤ a := by
  constructor
  · intro h
    by_contra hno
    push Not at hno
    obtain ⟨hab, hsb, hae⟩ := hno
    exact h (max a s) (Nat.le_max_left a s) (Nat.max_lt.mpr ⟨hab, hsb⟩)
      ⟨Nat.le_max_right a s, Nat.max_lt.mpr ⟨hae, hse⟩⟩
  · rintro h x hax hxb ⟨hsx, hxe⟩
    omega

theorem rangeOk_iff {tags : List Nat} {info last : Nat} (hinfo : meminfo m tags = some info) :
    RangeOk m tags (alignNextBlock (u4 (modEnd m last + 1))) (alignPrevBlock (u4 (reported m info))) ↔
      Suitable m tags info last := by
  by_cases htotal : reported m info < 2 ^ 32
  · have hpos : 0 < reported m info := Nat.lt_of_lt_of_le (by decide) (Nat.le_add_right 0x100000 _)
    rw [alignPrevBlock_eq htotal, alignNextBlock_eq (modEnd_lt m last), Suitable, and_iff_right htotal]
    have hend : reported m info % blockSize = 0 := by
      rw [← alignPrevBlock_eq htotal]
      exact Nat.mul_mod_left _ blockSize
    have hmemory : ∀ i, meminfo m tags = some i →
        reported m i < 2 ^ 32 ∧ reported m info ≤ reported m i := by
      intro i hi
      obtain rfl : info = i := Option.some.inj (hinfo.symm.trans hi)
      exact ⟨htotal, Nat.le_refl _⟩
    split_ifs with hlast
    · -- the range starts behind the last module
      rw [and_iff_right hlast, or_iff_left (fun h => Nat.not_lt.mpr h.1 hlast)]
      constructor
      · intro h
        refine ⟨h.nonempty, fun mod hmod => ?_⟩
        exact (disjoint_iff h.nonempty).mp (h.disjoint mod hmod)
      · rintro ⟨hlt, hmods⟩
        refine ⟨⟨Nat.mul_mod_left _ blockSize, hend⟩, hlt, hmemory, fun mod hmod => ?_⟩
        exact (disjoint_iff hlt).mpr (hmods mod hmod)
    · -- the start has wrapped to zero
      rw [and_iff_right (Nat.le_of_not_lt hlast), or_iff_right (fun h => hlast h.1)]
      constructor
      · intro h mod hmod
        rcases (disjoint_iff h.nonempty).mp (h.disjoint mod hmod) with hempty | hzero | habove
        · exact Or.inl hempty
        · exact Or.inl (Nat.le_trans hzero (Nat.zero_le _))
        · exact Or.inr habove
      · intro hmods
        refine ⟨⟨Nat.zero_mod blockSize, hend⟩, hpos, hmemory, fun mod hmod => ?_⟩
        apply (disjoint_iff hpos).mpr
        exact (hmods mod hmod).imp_right Or.inr
  · constructor
    · intro h
      exact absurd (h.inMemory info hinfo).1 htotal
    · intro h
      exact absurd h.1 htotal

/-- The initialisation does what it should exactly if no tag leads back to an earlier one and, for a list
with one or two modules, the range is suitable. -/
theorem jxmallocInit_iff (m : Words) (bootInfo : Nat) :
    Correct m bootInfo ↔
      NoReturn (nextTag m) (Last m) (firstTag bootInfo) ∧
        ∀ tags, Tags m bootInfo tags → ∀ info last, meminfo m tags = some info →
          (modules m tags).getLast? = some last → (modules m tags).length ≤ 2 →
            Suitable m tags info last := by
  rw [← ends_iff]
  constructor
  · intro h
    refine ⟨h.ends, fun tags htags info last hinfo hlast hlen => ?_⟩
    have hrange := jxmem_eq_iff.mpr ⟨info, last, hinfo, hlast, hlen, rfl, rfl⟩
    obtain ⟨fuel, mem, a, hcall⟩ := (jxmallocInit_eq_iff htags).mpr hrange
    exact (rangeOk_iff hinfo).mp (h.range tags htags fuel mem _ _ a hcall)
  · rintro ⟨hends, hsuitable⟩
    refine ⟨hends, fun tags htags fuel mem s e a hcall => ?_⟩
    have hrange := (jxmallocInit_eq_iff htags).mp ⟨fuel, mem, a, hcall⟩
    obtain ⟨info, last, hinfo, hlast, hlen, rfl, rfl⟩ := jxmem_eq_iff.mp hrange
    exact (rangeOk_iff hinfo).mpr (hsuitable tags htags info last hinfo hlast hlen)


/-! ## Lists that go wrong -/

/-- A size of zero, or one that the rounding takes to zero, leads from a tag to itself. -/
theorem nextTag_eq_self {tag : Nat} (htag : tag < 2 ^ 32)
    (hsize : size m tag = 0 ∨ 2 ^ 32 - 8 < size m tag) : nextTag m tag = tag := by
  have hlt : size m tag < 2 ^ 32 := (m (u4 (tag + 4))).isLt
  have hround : u4 (size m tag + 7) / 8 * 8 = 0 := by
    simp only [u4]
    omega
  rw [nextTag, hround]
  exact u4_of_lt htag

/-- The loop never gets past such a tag. -/
theorem not_noReturn_of_size {k : Nat}
    (hgo : ∀ i ≤ k, ¬ Last m ((nextTag m)^[i] (firstTag bootInfo)))
    (hlt : (nextTag m)^[k] (firstTag bootInfo) < 2 ^ 32)
    (hsize : size m ((nextTag m)^[k] (firstTag bootInfo)) = 0 ∨
      2 ^ 32 - 8 < size m ((nextTag m)^[k] (firstTag bootInfo))) :
    ¬ NoReturn (nextTag m) (Last m) (firstTag bootInfo) := by
  have hstay : (nextTag m)^[k + 1] (firstTag bootInfo) = (nextTag m)^[k] (firstTag bootInfo) := by
    rw [Function.iterate_succ_apply']
    exact nextTag_eq_self hlt hsize
  intro h
  refine h k (k + 1) (Nat.lt_succ_self k) (fun i hi => ?_) hstay.symm
  rcases Nat.le_succ_iff.mp hi with hle | rfl
  · exact hgo i hle
  · rw [hstay]
    exact hgo k (Nat.le_refl k)

/-- 65 MiB of memory, and two modules of which the higher one comes first. -/
def swapped : Words := fun a =>
  [4, 16, 640, 0x10000, 3, 16, 0x400000, 0x500000, 3, 16, 0x200000, 0x300000, 0, 8].getD ((a - 8) / 4) 0

theorem tags_swapped : Tags swapped 0 [8, 24, 40] := by
  have hfirst : firstTag 0 = 8 := by decide
  have hnext : nextTag swapped 8 = 24 ∧ nextTag swapped 24 = 40 ∧ nextTag swapped 40 = 56 := by
    decide
  obtain ⟨h8, h24, h40⟩ := hnext
  rw [Tags, hfirst]
  refine .cons (by decide) ?_
  rw [h8]
  refine .cons (by decide) ?_
  rw [h24]
  refine .cons (by decide) ?_
  rw [h40]
  exact .nil (by decide)

/-- The managed memory starts behind the lower module and contains the higher one. -/
theorem not_correct_swapped : ¬ Correct swapped 0 := by
  intro h
  have hrange : jxmem swapped ([8, 24, 40].foldl (visit swapped) .start) =
      pure (0x300400, 0x4100000) := by decide
  obtain ⟨fuel, mem, a, hcall⟩ := (jxmallocInit_eq_iff tags_swapped).mpr hrange
  have hok := h.range _ tags_swapped fuel mem _ _ a hcall
  exact hok.disjoint 24 (by decide) 0x400000 (by decide) (by decide) (by decide)

end JxCore.MallocBoot
