import Mathlib.Data.BitVec
import Mathlib.Data.List.Basic

/-!
# Readers of binary files

A reader takes bytes from the front of what is left of a file. `Reads` says that it consumes exactly
the given bytes, whatever follows them, and what it gives back; its rules follow the structure of the
reader: one read after the other, counted loops, and counted loops that carry a state. `Yields` says
what holds of every value a reader can give back.
-/

namespace JxCore.Lib

/-- A reader that may fail with an `ε`. -/
abbrev Reader (ε α : Type) := StateT (List (BitVec 8)) (Except ε) α

/-- A table with its number of entries as the file gives it. A loop that counts from 0 up to a negative
number does nothing. -/
structure Table (α : Type) where
  count : BitVec 32
  entries : List α
  length_eq : entries.length = count.toInt.toNat
  deriving DecidableEq

def Table.map {α β : Type} (f : α → β) (t : Table α) : Table β where
  count := t.count
  entries := t.entries.map f
  length_eq := by rw [List.length_map, t.length_eq]

/-- The empty table. -/
def Table.empty {α : Type} : Table α := ⟨0, [], rfl⟩

namespace Reader

variable {ε α β γ σ : Type}

/-! ## Loops -/

/-- `n` reads, one after the other. -/
def times (r : Reader ε α) : (n : Nat) → Reader ε { l : List α // l.length = n }
  | 0 => return ⟨[], rfl⟩
  | n + 1 => do
    let a ← r
    let l ← times r n
    return ⟨a :: l.val, congrArg (· + 1) l.property⟩

/-- `n` reads that pass on a state. -/
def scan (r : σ → Reader ε (α × σ)) : (n : Nat) → σ → Reader ε ({ l : List α // l.length = n } × σ)
  | 0, s => return (⟨[], rfl⟩, s)
  | n + 1, s => do
    let (a, s) ← r s
    let (l, s) ← scan r n s
    return (⟨a :: l.val, congrArg (· + 1) l.property⟩, s)

/-- What `scan` computes, on a list of descriptions in place of a file. -/
def scanList (f : σ → β → Except ε (α × σ)) : (l : List β) → σ →
    Except ε ({ r : List α // r.length = l.length } × σ)
  | [], s => return (⟨[], rfl⟩, s)
  | b :: l, s => do
    let (a, s) ← f s b
    let (r, s) ← scanList f l s
    return (⟨a :: r.val, congrArg (· + 1) r.property⟩, s)

theorem scanList_cons_ok {f : σ → β → Except ε (α × σ)} {b : β} {l : List β} {a : α} {s s₁ s₂ : σ}
    {r : { r : List α // r.length = l.length }} (h : f s b = .ok (a, s₁))
    (h' : scanList f l s₁ = .ok (r, s₂)) :
    scanList f (b :: l) s = .ok (⟨a :: r.val, congrArg (· + 1) r.property⟩, s₂) := by
  simp only [scanList, h, h', bind, Except.bind]
  rfl

/-! ## What is consumed -/

/-- The reader consumes exactly `bytes`, and this is its result. -/
def Reads (r : Reader ε α) (bytes : List (BitVec 8)) (result : Except ε α) : Prop :=
  ∀ rest, r (bytes ++ rest) = (fun a => (a, rest)) <$> result

theorem Reads.pure (a : α) : Reads (Pure.pure a : Reader ε α) [] (.ok a) := fun _ => rfl

theorem Reads.lift (x : Except ε α) : Reads (StateT.lift x) [] x := by
  intro rest
  cases x <;> rfl

theorem Reads.bind {r : Reader ε α} {f : α → Reader ε β} {b b' : List (BitVec 8)}
    {x : Except ε α} {y : α → Except ε β} (h : Reads r b x)
    (h' : ∀ a, x = .ok a → Reads (f a) b' (y a)) : Reads (r >>= f) (b ++ b') (x >>= y) := by
  intro rest
  have hr := h (b' ++ rest)
  rw [List.append_assoc]
  change (r (b ++ (b' ++ rest)) >>= fun p => f p.1 p.2) = _
  rw [hr]
  cases x with
  | error e => rfl
  | ok a => exact h' a rfl rest

theorem Reads.andThen {r : Reader ε α} {f : α → Reader ε β} {b b' : List (BitVec 8)} {a : α}
    {y : Except ε β} (h : Reads r b (.ok a)) (h' : Reads (f a) b' y) :
    Reads (r >>= f) (b ++ b') y := by
  have hone : ∀ a', (Except.ok a : Except ε α) = .ok a' → Reads (f a') b' y := by
    intro a' ha
    cases ha
    exact h'
  exact h.bind hone

/-- The next item of a record. -/
theorem Reads.next {r : Reader ε α} {f : α → Reader ε β} {b : List (BitVec 8)}
    {bs : List (List (BitVec 8))} {a : α} {y : Except ε β} (h : Reads r b (.ok a))
    (h' : Reads (f a) bs.flatten y) : Reads (r >>= f) (b :: bs).flatten y := by
  rw [List.flatten_cons]
  exact h.andThen h'

/-- The next item, of which only a property is known. -/
theorem Reads.nextSuch {r : Reader ε α} {f : α → Reader ε β} {b : List (BitVec 8)}
    {bs : List (List (BitVec 8))} {y : Except ε β} {P : α → Prop}
    (h : ∀ rest, ∃ a, P a ∧ r (b ++ rest) = .ok (a, rest))
    (h' : ∀ a, P a → Reads (f a) bs.flatten y) : Reads (r >>= f) (b :: bs).flatten y := by
  intro rest
  obtain ⟨a, ha, hr⟩ := h (bs.flatten ++ rest)
  rw [List.flatten_cons, List.append_assoc]
  change (r (b ++ (bs.flatten ++ rest)) >>= fun p => f p.1 p.2) = _
  rw [hr]
  exact h' a ha rest

/-- The value is only passed on. -/
theorem Reads.ret {r : Reader ε α} {f : α → β} {b : List (BitVec 8)} {x : Except ε α}
    (h : Reads r b x) :
    Reads (r >>= fun a => Pure.pure (f a)) b (x >>= fun a => Pure.pure (f a)) := by
  have hthen := h.bind (f := fun a => Pure.pure (f a)) fun a _ => Reads.pure (f a)
  rwa [List.append_nil] at hthen

/-- A check that reads nothing. -/
theorem Reads.check {f : α → Reader ε β} {x : Except ε α} {y : α → Except ε β}
    {bs : List (BitVec 8)} (h : ∀ a, x = .ok a → Reads (f a) bs (y a)) :
    Reads (StateT.lift x >>= f) bs (x >>= y) := (Reads.lift x).bind h

/-- A loop over the entries of a table. -/
theorem Reads.times {r : Reader ε α} {encode : β → List (BitVec 8)} {f : β → α} {l : List β}
    (h : ∀ b ∈ l, Reads r (encode b) (.ok (f b))) {n : Nat} (hn : l.length = n) :
    Reads (times r n) (l.flatMap encode) (.ok ⟨l.map f, by rw [List.length_map, hn]⟩) := by
  subst hn
  induction l with
  | nil => exact Reads.pure _
  | cons b l ih =>
    have hfirst := h b List.mem_cons_self
    have hrest := ih fun x hx => h x (List.mem_cons_of_mem b hx)
    rw [List.flatMap_cons]
    exact hfirst.andThen hrest.ret

theorem Reads.scan_length {r : σ → Reader ε (α × σ)} {encode : β → List (BitVec 8)}
    {f : σ → β → Except ε (α × σ)} {l : List β}
    (h : ∀ s, ∀ b ∈ l, Reads (r s) (encode b) (f s b)) (s : σ) :
    Reads (scan r l.length s) (l.flatMap encode) (scanList f l s) := by
  induction l generalizing s with
  | nil => exact Reads.pure _
  | cons b l ih =>
    rw [List.flatMap_cons]
    refine (h s b List.mem_cons_self).bind fun p _ => ?_
    exact (ih (fun s x hx => h s x (List.mem_cons_of_mem b hx)) p.2).ret

/-- A loop that passes on a state, over the entries of a table. -/
theorem Reads.scan {r : σ → Reader ε (α × σ)} {encode : β → List (BitVec 8)}
    {f : σ → β → Except ε (α × σ)} {l : List β}
    (h : ∀ s, ∀ b ∈ l, Reads (r s) (encode b) (f s b)) (s : σ) {n : Nat} (hn : l.length = n) :
    Reads (scan r n s) (l.flatMap encode) (do
      let p ← scanList f l s
      Pure.pure (⟨p.1.val, p.1.property.trans hn⟩, p.2)) := by
  subst hn
  have hsame : (do
      let p ← scanList f l s
      Pure.pure (⟨p.1.val, p.1.property.trans rfl⟩, p.2)) = scanList f l s := bind_pure _
  rw [hsame]
  exact Reads.scan_length h s

/-- A loop that passes on a state and does not fail. -/
theorem Reads.scan_ok {r : σ → Reader ε (α × σ)} {encode : β → List (BitVec 8)}
    {f : σ → β → Except ε (α × σ)} {l : List β}
    (h : ∀ s, ∀ b ∈ l, Reads (r s) (encode b) (f s b)) {s s' : σ} {r' : List α} {hr}
    (hok : scanList f l s = .ok (⟨r', hr⟩, s')) {n : Nat} (hn : l.length = n) :
    Reads (Reader.scan r n s) (l.flatMap encode) (.ok (⟨r', hr.trans hn⟩, s')) := by
  have hscan := Reads.scan h s hn
  rwa [hok] at hscan

/-! ## Bytes and words -/

/-- One byte; `eof` is what happens behind the end of the file. -/
def byte (eof : ε) : Reader ε (BitVec 8)
  | [] => .error eof
  | b :: rest => .ok (b, rest)

/-- Four bytes, the low one first. -/
def word (eof : ε) : Reader ε (BitVec 32) := do
  let b₀ ← byte eof
  let b₁ ← byte eof
  let b₂ ← byte eof
  let b₃ ← byte eof
  return b₃ ++ b₂ ++ b₁ ++ b₀

def wordBytes (w : BitVec 32) : List (BitVec 8) :=
  [w.extractLsb' 0 8, w.extractLsb' 8 8, w.extractLsb' 16 8, w.extractLsb' 24 8]

theorem append_extractLsb' (w : BitVec 32) :
    w.extractLsb' 24 8 ++ w.extractLsb' 16 8 ++ w.extractLsb' 8 8 ++ w.extractLsb' 0 8 = w := by
  apply BitVec.eq_of_getLsbD_eq
  intro i hi
  simp only [BitVec.getLsbD_append, BitVec.getLsbD_extractLsb']
  grind

theorem reads_byte (eof : ε) (b : BitVec 8) : Reads (byte eof) [b] (.ok b) := fun _ => rfl

theorem reads_word (eof : ε) (w : BitVec 32) : Reads (word eof) (wordBytes w) (.ok w) := by
  intro rest
  change Except.ok (w.extractLsb' 24 8 ++ w.extractLsb' 16 8 ++ w.extractLsb' 8 8 ++
    w.extractLsb' 0 8, rest) = _
  rw [append_extractLsb']
  rfl

/-! ## Tables -/

/-- The number of entries, and the entries. -/
def table (eof : ε) (r : Reader ε α) : Reader ε (Table α) := do
  let count ← word eof
  let entries ← times r count.toInt.toNat
  return ⟨count, entries.val, entries.property⟩

def tableBytes (encode : β → List (BitVec 8)) (t : Table β) : List (BitVec 8) :=
  wordBytes t.count ++ t.entries.flatMap encode

theorem Reads.table {r : Reader ε α} {encode : β → List (BitVec 8)} {f : β → α} {t : Table β}
    (eof : ε) (h : ∀ b ∈ t.entries, Reads r (encode b) (.ok (f b))) :
    Reads (table eof r) (tableBytes encode t) (.ok (t.map f)) := by
  apply (reads_word eof t.count).andThen
  exact (Reads.times h t.length_eq).ret

/-! ## What is given back -/

/-- Every value the reader can give back has this property. -/
def Yields (r : Reader ε α) (P : α → Prop) : Prop := ∀ p a q, r p = .ok (a, q) → P a

variable {P : α → Prop} {Q : β → Prop}

theorem Yields.pure {a : α} (h : P a) : Yields (Pure.pure a : Reader ε α) P := by
  intro p x q hx
  cases hx
  exact h

theorem Yields.bind {r : Reader ε α} {f : α → Reader ε β} (h : Yields r P)
    (h' : ∀ a, P a → Yields (f a) Q) : Yields (r >>= f) Q := by
  intro p b q hb
  change (r p >>= fun x => f x.1 x.2) = .ok (b, q) at hb
  cases hr : r p with
  | error e =>
    rw [hr] at hb
    cases hb
  | ok x =>
    rw [hr] at hb
    exact h' x.1 (h p x.1 x.2 hr) x.2 b q hb

theorem yields_true (r : Reader ε α) : Yields r fun _ => True := fun _ _ _ _ => trivial

/-- The first read says nothing about the value. -/
theorem Yields.skip {r : Reader ε α} {f : α → Reader ε β} (h : ∀ a, Yields (f a) Q) :
    Yields (r >>= f) Q := (yields_true r).bind fun a _ => h a

theorem Yields.lift (x : Except ε α) : Yields (StateT.lift x) fun a => x = .ok a := by
  intro p a q h
  cases x with
  | error e => cases h
  | ok b =>
    cases h
    rfl

theorem Yields.scan {r : σ → Reader ε (α × σ)} (h : ∀ s, Yields (r s) fun p => P p.1) (n : Nat)
    (s : σ) : Yields (Reader.scan r n s) fun p => ∀ a ∈ p.1.val, P a := by
  induction n generalizing s with
  | zero => exact Yields.pure nofun
  | succ n ih =>
    refine (h s).bind fun p hp => (ih p.2).bind fun q hq => Yields.pure ?_
    intro a ha
    rcases List.mem_cons.mp ha with rfl | ha
    · exact hp
    · exact hq a ha

end Reader

end JxCore.Lib
