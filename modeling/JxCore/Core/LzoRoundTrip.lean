import JxCore.Core.LzoWritten

/-!
# What is compressed can be decompressed (`core/minilzo.c`)

The compressor compares the bytes of each match, whatever its dictionary contains, and so each turn of
its loop leaves the decompressor at the end of a match, with all bytes before it. A match is shorter
than its bytes, which bounds what a turn adds.
-/

namespace JxCore.Lzo

/-! ## The search -/

/-- The three bytes at `ip` are also `off` places back, which is near enough. -/
structure Found (inp : List (BitVec 8)) (ip off : Nat) : Prop where
  pos : 0 < off
  le : off ≤ ip
  far : off ≤ 0xbfff
  same : ∀ k < 3, inp[ip + k - off]? = inp[ip + k]?
  /-- What is not near is no match of three bytes. -/
  fourth : 0x800 < off → inp[ip + 3 - off]? = inp[ip + 3]?

section Search

variable {inp : List (BitVec 8)} {ip off : Nat}

theorem checkMpos_some {mPos : Int} (h : checkMpos ip mPos = some off) :
    0 < off ∧ off ≤ ip ∧ off ≤ 0xbfff := by
  unfold checkMpos at h
  split at h
  · cases h
  · obtain rfl := Option.some.inj h
    omega

theorem getElem?_lt (inp : List (BitVec 8)) (ip : Nat) (h : ip < inp.length) : ∃ b, inp[ip]? = some b :=
  ⟨_, List.getElem?_eq_getElem h⟩

theorem worthTrying_some (hip : ip + 3 < inp.length) (hle : off ≤ ip) :
    ∃ b, worthTrying inp ip off = some b ∧
      (b = true → 0x800 < off → inp[ip + 3 - off]? = inp[ip + 3]?) := by
  unfold worthTrying
  split
  · exact ⟨_, rfl, fun _ hfar => by omega⟩
  · obtain ⟨m₃, hm₃⟩ := getElem?_lt inp (ip - off + 3) (by omega)
    obtain ⟨b₃, hb₃⟩ := getElem?_lt inp (ip + 3) hip
    rw [Nat.sub_add_comm hle, hm₃, hb₃]
    refine ⟨_, rfl, fun h _ => ?_⟩
    rw [of_decide_eq_true h]

/-- An entry that is taken has been compared. -/
theorem tryMatch_found {mPos : Int} (hip : ip + 3 < inp.length) (hcheck : checkMpos ip mPos = some off)
    (hfourth : 0x800 < off → inp[ip + 3 - off]? = inp[ip + 3]?) :
    ∃ b, tryMatch inp ip off = some b ∧ (b = true → Found inp ip off) := by
  obtain ⟨hpos, hle, hfar⟩ := checkMpos_some hcheck
  obtain ⟨m₀, hm₀⟩ := getElem?_lt inp (ip - off) (by omega)
  obtain ⟨m₁, hm₁⟩ := getElem?_lt inp (ip - off + 1) (by omega)
  obtain ⟨m₂, hm₂⟩ := getElem?_lt inp (ip - off + 2) (by omega)
  obtain ⟨b₀, hb₀⟩ := getElem?_lt inp ip (by omega)
  obtain ⟨b₁, hb₁⟩ := getElem?_lt inp (ip + 1) (by omega)
  obtain ⟨b₂, hb₂⟩ := getElem?_lt inp (ip + 2) (by omega)
  unfold tryMatch
  rw [hm₀, hm₁, hm₂, hb₀, hb₁, hb₂]
  refine ⟨_, rfl, fun h => ⟨hpos, hle, hfar, fun k hk => ?_, hfourth⟩⟩
  obtain ⟨rfl, rfl, rfl⟩ := of_decide_eq_true h
  rw [← Nat.sub_add_comm hle] at hm₁ hm₂
  obtain rfl | rfl | rfl : k = 0 ∨ k = 1 ∨ k = 2 := by omega
  · rw [Nat.add_zero, hm₀, hb₀]
  · rw [hm₁, hb₁]
  · rw [hm₂, hb₂]

/-- What the dictionary leads to is a match, whatever it contains. -/
theorem findMatch_found (dict : Nat → Int) (hip : ip + 3 < inp.length) :
    ∃ dindex found, findMatch inp dict ip = some (dindex, found) ∧
      ∀ off, found = some off → Found inp ip off := by
  obtain ⟨b₀, hb₀⟩ := getElem?_lt inp ip (by omega)
  obtain ⟨b₁, hb₁⟩ := getElem?_lt inp (ip + 1) (by omega)
  obtain ⟨b₂, hb₂⟩ := getElem?_lt inp (ip + 2) (by omega)
  obtain ⟨b₃, hb₃⟩ := getElem?_lt inp (ip + 3) hip
  have hnone : ∀ off, none = some off → Found inp ip off := fun _ h => by cases h
  -- a place whose entry can be used, and has been found worth trying
  have htry : ∀ (d : Nat) (mPos : Int) (off : Nat), checkMpos ip mPos = some off →
      (0x800 < off → inp[ip + 3 - off]? = inp[ip + 3]?) →
      ∃ found : Option Nat,
        (do pure (d, if ← tryMatch inp ip off then some off else none)) = some (d, found) ∧
        ∀ off, found = some off → Found inp ip off := by
    intro d mPos off hcheck hfourth
    obtain ⟨b, hb, hfound⟩ := tryMatch_found hip hcheck hfourth
    refine ⟨if b then some off else none, ?_, fun off' h => ?_⟩
    · rw [hb]
      rfl
    · cases b with
      | false => cases h
      | true =>
        obtain rfl := Option.some.inj h
        exact hfound rfl
  unfold findMatch
  rw [hb₀, hb₁, hb₂, hb₃]
  simp only [Option.bind_eq_bind, Option.bind_some]
  split
  · exact ⟨_, none, rfl, hnone⟩
  next off hcheck =>
  obtain ⟨worth, hworth, hfourth⟩ := worthTrying_some hip (checkMpos_some hcheck).2.1
  rw [hworth, Option.bind_some]
  split
  · next htrue =>
    obtain ⟨found, hfound⟩ := htry (dindex1 b₀ b₁ b₂ b₃) _ off hcheck (hfourth htrue)
    exact ⟨_, found, hfound⟩
  · split
    · exact ⟨_, none, rfl, hnone⟩
    next off hcheck =>
    obtain ⟨worth, hworth, hfourth⟩ := worthTrying_some hip (checkMpos_some hcheck).2.1
    rw [hworth, Option.bind_some]
    split
    · next htrue =>
      obtain ⟨found, hfound⟩ := htry (dindex2 (dindex1 b₀ b₁ b₂ b₃)) _ off hcheck (hfourth htrue)
      exact ⟨_, found, hfound⟩
    · exact ⟨_, none, rfl, hnone⟩

/-- The bytes that the comparison has passed are the same. -/
theorem extend_some (inp : List (BitVec 8)) (n ip : Nat) (hpos : 0 < off) (hoff : off ≤ ip)
    (hle : ip + n ≤ inp.length) :
    ∃ ip', extend inp off n ip = some ip' ∧ ip ≤ ip' ∧ ip' ≤ ip + n ∧
      (∀ k, ip ≤ k → k < ip' → inp[k - off]? = inp[k]?) ∧
      (0 < n → inp[ip - off]? = inp[ip]? → ip < ip') := by
  induction n generalizing ip with
  | zero =>
    exact ⟨ip, rfl, Nat.le_refl _, Nat.le_refl _, fun k hk hlt => absurd hlt (Nat.not_lt.mpr hk), nofun⟩
  | succ n ih =>
    obtain ⟨m, hm⟩ := getElem?_lt inp (ip - off) (by omega)
    obtain ⟨b, hb⟩ := getElem?_lt inp ip (by omega)
    have hnext : extend inp off (n + 1) ip = if m = b then extend inp off n (ip + 1) else pure ip := by
      rw [extend, hm, hb]
      rfl
    by_cases hsame : m = b
    · obtain ⟨ip', hip', hge, hle', heq, -⟩ := ih (ip + 1) (by omega) (by omega)
      refine ⟨ip', ?_, by omega, by omega, fun k hk hlt => ?_, fun _ _ => hge⟩
      · rw [hnext, if_pos hsame, hip']
      · rcases Nat.eq_or_lt_of_le hk with rfl | hk
        · rw [hm, hb, hsame]
        · exact heq k hk hlt
    · refine ⟨ip, ?_, Nat.le_refl _, by omega, fun k hk hlt => absurd hlt (Nat.not_lt.mpr hk), ?_⟩
      · rw [hnext, if_neg hsame]
        rfl
      · intro _ h
        rw [hm, hb] at h
        exact absurd (Option.some.inj h) hsame

end Search

/-! ## Sizes -/

section Sizes

variable {off len n : Nat}

theorem length_lengthBytes (hpos : 0 < n) : 255 * (lengthBytes n).length ≤ n + 254 := by
  induction n using Nat.strongRecOn with
  | ind n ih =>
    by_cases hlong : 255 < n
    · rw [lengthBytes, if_pos hlong, List.length_cons]
      have hrest := ih (n - 255) (by omega) (by omega)
      omega
    · rw [lengthBytes, if_neg hlong, List.length_singleton]
      omega

/-- A match takes fewer bytes than it stands for. -/
theorem length_shortMatch (hlen : 3 ≤ len) (hfar : 0x800 < off → 4 ≤ len) :
    (shortMatch off len).length < len := by
  unfold shortMatch offsetBytes
  split
  · exact hlen
  · have hfour : 4 ≤ len := hfar (by omega)
    split
    · exact hfour
    · exact hfour

theorem length_longMatch (hlen : 9 ≤ len) : (longMatch off len).length < len := by
  unfold longMatch offsetBytes
  split
  · split
    · simp only [List.length_append, List.length_cons, List.length_nil]
      omega
    · have hlength := length_lengthBytes (n := len - 33) (by omega)
      simp only [List.length_append, List.length_cons, List.length_nil]
      omega
  · split
    · simp only [List.length_append, List.length_cons, List.length_nil]
      omega
    · have hlength := length_lengthBytes (n := len - 9) (by omega)
      simp only [List.length_append, List.length_cons, List.length_nil]
      omega

end Sizes

/-! ## Turns -/

/-- What has been written for the first `i` bytes: nothing, or something that ends with a match. -/
def Written (inp op : List (BitVec 8)) (i ip : Nat) : Prop :=
  (op = [] ∧ i = 0 ∧ 4 ≤ ip) ∨ Matched inp op i

/-- Between two turns. -/
structure Writes (inp : List (BitVec 8)) (s : Compressor) : Prop where
  le : s.ii ≤ s.ip
  written : Written inp s.op s.ii s.ip
  size : 22 * s.op.length ≤ 23 * s.ii

section Turns

variable {inp op : List (BitVec 8)} {i k off : Nat} {s : Compressor}

theorem Written.ready {ip : Nat} (h : Written inp op i ip) : Ready inp op i := by
  rcases h with ⟨rfl, rfl, -⟩ | h
  · exact ready_nil
  · exact h.ready

/-- A run of literals takes one byte for its head, and one more for 22 literals at most. -/
theorem literalHead_some (h : Written inp op i (i + k)) (hk : 0 < k) (hle : i + k ≤ inp.length) :
    ∃ op', literalHead k op = some op' ∧ Arrives inp (op' ++ (inp.drop i).take k) (i + k) ∧
      22 * op'.length ≤ 22 * op.length + k + 25 := by
  unfold literalHead
  split
  · next hfew =>
    have hmatched : Matched inp op i := by
      rcases h with ⟨-, rfl, hfour⟩ | h
      · omega
      · exact h
    obtain ⟨op', hback, hlength, harrives⟩ := hmatched.few hk hfew hle
    exact ⟨op', hback, harrives, by omega⟩
  split
  · next hmany =>
    refine ⟨_, rfl, h.ready.literals (.inl ⟨rfl, rfl, by omega⟩) (by omega) (by omega) hle, ?_⟩
    rw [List.length_append, List.length_singleton]
    omega
  · refine ⟨_, rfl, h.ready.literals (l := 0) (.inr ⟨rfl, ?_, by omega⟩) (by omega) (by omega) hle, ?_⟩
    · rw [Nat.sub_sub]
    · have hlength := length_lengthBytes (n := k - 18) (by omega)
      rw [List.length_append, List.length_cons]
      omega

/-- The literals before a match. -/
theorem writeLiterals_some (h : Writes inp s) (hle : s.ip ≤ inp.length) :
    ∃ s', writeLiterals inp s = some s' ∧ s'.ip = s.ip ∧ s'.ii = s.ip ∧ s'.op ≠ [] ∧
      Arrives inp s'.op s.ip ∧ 22 * s'.op.length ≤ 23 * s.ip + 25 := by
  have hsize := h.size
  have hii := h.le
  unfold writeLiterals
  split
  · next hk =>
    have hsum : s.ii + (s.ip - s.ii) = s.ip := by omega
    have hwritten : Written inp s.op s.ii (s.ii + (s.ip - s.ii)) := by
      rw [hsum]
      exact h.written
    obtain ⟨op, hop, harrives, hlength⟩ := literalHead_some hwritten hk (by omega)
    have hlits : ((inp.drop s.ii).take (s.ip - s.ii)).length = s.ip - s.ii := length_literals (by omega)
    rw [hsum] at harrives
    rw [hop]
    refine ⟨_, rfl, rfl, rfl, ?_, harrives, ?_⟩
    · intro hnil
      have hzero := congrArg List.length (List.append_eq_nil_iff.mp hnil).2
      rw [hlits, List.length_nil] at hzero
      omega
    · simp only [List.length_append]
      rw [hlits]
      omega
  · have hsame : s.ii = s.ip := by omega
    have hmatched : Matched inp s.op s.ip := by
      rcases h.written with ⟨-, hzero, hfour⟩ | hmatched
      · omega
      · exact hsame ▸ hmatched
    refine ⟨s, rfl, rfl, hsame, ?_, hmatched.ready.arrives, by omega⟩
    obtain ⟨pre, b₀, b₁, hop, -⟩ := hmatched
    rw [hop]
    exact List.append_ne_nil_of_right_ne_nil _ (List.cons_ne_nil _ _)

/-- What `writeMatch` adds is a match of what it has compared. -/
theorem Arrives.writes {code : List (BitVec 8)} {ip : Nat} {dict : Nat → Int} (h : Arrives inp op i)
    (hne : op ≠ []) (hsize : 22 * op.length ≤ 23 * i + 25) (hfound : Found inp i off)
    (hge : i + 3 ≤ ip) (hle : ip ≤ inp.length)
    (heq : ∀ k, i + 3 ≤ k → k < ip → inp[k - off]? = inp[k]?)
    (hencodes : ∃ pre b₀ b₁, code = pre ++ [b₀, b₁] ∧ Encodes pre b₀ b₁ off (ip - i))
    (hshort : code.length < ip - i) : Writes inp ⟨ip, ip, op ++ code, dict⟩ := by
  obtain ⟨pre, b₀, b₁, rfl, hencodes⟩ := hencodes
  have hsum : i + (ip - i) = ip := by omega
  have hmatched := h.matched hne hencodes hfound.pos hfound.le (by omega) fun k hk => by
    by_cases hthree : k < 3
    · exact hfound.same k hthree
    · exact heq (i + k) (by omega) (by omega)
  rw [hsum] at hmatched
  refine ⟨Nat.le_refl _, .inr hmatched, ?_⟩
  simp only
  rw [List.length_append]
  omega

theorem writeMatch_some (h : Writes inp s) (hip : s.ip + 9 ≤ inp.length) (hfound : Found inp s.ip off) :
    ∃ s', writeMatch inp off s = some s' ∧ Writes inp s' ∧ s.ip < s'.ip ∧ s'.ip ≤ inp.length := by
  obtain ⟨s₁, hlits, hip₁, hii₁, hne, harrives, hsize⟩ := writeLiterals_some h (by omega)
  have hoff := hfound.le
  obtain ⟨ip, hextend, hge, hle, heq, hfirst⟩ :=
    extend_some inp 6 (s.ip + 3) hfound.pos (by omega) (by omega)
  unfold writeMatch
  rw [hlits]
  simp only [Option.bind_eq_bind, Option.bind_some]
  rw [hip₁, hextend, Option.bind_some, hii₁]
  split
  · next hnine =>
    refine ⟨_, rfl, harrives.writes hne hsize hfound hge (by omega) heq ?_ ?_, ?_, ?_⟩
    · exact shortMatch_encodes (by omega) (by omega) hfound.pos hfound.far
    · refine length_shortMatch (by omega) fun hfar => ?_
      have hfour := hfirst (by decide) (hfound.fourth hfar)
      omega
    · show s.ip < ip
      omega
    · show ip ≤ inp.length
      omega
  · obtain ⟨ip', hextend', hge', hle', heq', -⟩ :=
      extend_some inp (inp.length - ip) ip hfound.pos (by omega) (by omega)
    rw [hextend', Option.bind_some]
    refine ⟨_, rfl, harrives.writes hne hsize hfound (by omega) (by omega) (fun k hk hlt => ?_) ?_ ?_, ?_, ?_⟩
    · by_cases hfar : k < ip
      · exact heq k hk hfar
      · exact heq' k (by omega) hlt
    · exact longMatch_encodes (by omega) hfound.pos hfound.far
    · exact length_longMatch (by omega)
    · show s.ip < ip'
      omega
    · show ip' ≤ inp.length
      omega

theorem turn_some (h : Writes inp s) (hip : s.ip + 9 ≤ inp.length) :
    ∃ s', turn inp s = some s' ∧ Writes inp s' ∧ s.ip < s'.ip ∧ s'.ip ≤ inp.length := by
  obtain ⟨dindex, found, hfind, hfound⟩ := findMatch_found s.dict (show s.ip + 3 < inp.length by omega)
  unfold turn
  rw [hfind]
  cases found with
  | none =>
    refine ⟨_, rfl, ⟨Nat.le_succ_of_le h.le, ?_, h.size⟩, Nat.lt_succ_self _, ?_⟩
    · -- the next byte is one more literal
      rcases h.written with ⟨hop, hii, hfour⟩ | hmatched
      · exact .inl ⟨hop, hii, Nat.le_succ_of_le hfour⟩
      · exact .inr hmatched
    · show s.ip + 1 ≤ inp.length
      omega
  | some off => exact writeMatch_some (s := s.update dindex) ⟨h.le, h.written, h.size⟩ hip (hfound off rfl)

/-- Each turn comes nearer to the end. -/
theorem turns_some (fuel : Nat) (h : Writes inp s) (hip : s.ip + 9 ≤ inp.length)
    (hfuel : inp.length < s.ip + fuel) :
    ∃ s', turns inp (inp.length - 13) fuel s = some s' ∧ Writes inp s' ∧ s'.ip ≤ inp.length := by
  induction fuel generalizing s with
  | zero => omega
  | succ fuel ih =>
    obtain ⟨s₁, hturn, hwrites, hlt, hle⟩ := turn_some h hip
    rw [turns, hturn]
    simp only [Option.bind_eq_bind, Option.bind_some]
    split
    · exact ⟨s₁, rfl, hwrites, hle⟩
    · exact ih hwrites (by omega) (by omega)

/-- The literals that are left. -/
theorem finish_some (ip : Nat) (h : Written inp op (inp.length - k) ip) (hk : k ≤ inp.length)
    (hsize : 22 * op.length ≤ 23 * (inp.length - k)) :
    ∃ op', finish inp k op = some (op' ++ [17#8, 0#8, 0#8]) ∧ Arrives inp op' inp.length ∧
      22 * op'.length ≤ 23 * inp.length + 25 := by
  have hsum : inp.length - k + k = inp.length := Nat.sub_add_cancel hk
  have hlits : ((inp.drop (inp.length - k)).take k).length = k := length_literals (by omega)
  unfold finish
  by_cases hpos : 0 < k
  · rw [if_pos hpos]
    by_cases hstart : op = [] ∧ k ≤ 238
    · rw [if_pos hstart]
      obtain ⟨rfl, hsmall⟩ := hstart
      have hall : k = inp.length := by
        rcases h with ⟨-, hzero, -⟩ | ⟨pre, b₀, b₁, hnil, -⟩
        · omega
        · exact absurd hnil.symm (List.append_ne_nil_of_right_ne_nil _ (List.cons_ne_nil _ _))
      subst hall
      have harrives := arrives_start hpos hsmall (Nat.le_refl _)
      rw [Nat.sub_self, List.drop_zero] at hlits ⊢
      refine ⟨_, rfl, harrives, ?_⟩
      rw [List.length_append, List.length_singleton, hlits]
      omega
    · rw [if_neg hstart]
      have hwritten : Written inp op (inp.length - k) (inp.length - k + k) := by
        rcases h with ⟨hnil, hzero, -⟩ | hmatched
        · have hmany : 238 < k := Nat.not_le.mp fun hle => hstart ⟨hnil, hle⟩
          exact .inl ⟨hnil, hzero, by omega⟩
        · exact .inr hmatched
      obtain ⟨op', hop', harrives, hlength⟩ := literalHead_some hwritten hpos (Nat.le_of_eq hsum)
      rw [hop']
      rw [hsum] at harrives
      refine ⟨_, rfl, harrives, ?_⟩
      rw [List.length_append, hlits]
      omega
  · have hzero : k = 0 := Nat.eq_zero_of_not_pos hpos
    subst hzero
    exact ⟨op, rfl, h.ready.arrives, by omega⟩

/-- The compressor does not read outside of its input, and it comes to an end. -/
theorem compress_some (inp : List (BitVec 8)) (dict : Nat → Int) :
    ∃ op, compress inp dict = some (op ++ [17#8, 0#8, 0#8]) ∧ Arrives inp op inp.length ∧
      22 * op.length ≤ 23 * inp.length + 25 := by
  unfold compress
  split
  · refine finish_some 4 (.inl ⟨rfl, Nat.sub_self _, Nat.le_refl _⟩) (Nat.le_refl _) ?_
    rw [List.length_nil]
    omega
  · next hlong =>
    have hfirst : Writes inp ⟨4, 0, [], dict⟩ :=
      ⟨Nat.zero_le _, .inl ⟨rfl, rfl, Nat.le_refl _⟩, Nat.le_refl _⟩
    obtain ⟨s, hturns, hwrites, hle⟩ := turns_some (inp.length + 1) hfirst (by simp only; omega)
      (by simp only; omega)
    unfold doCompress
    rw [hturns]
    have hii := hwrites.le
    have hrest : inp.length - (inp.length - s.ii) = s.ii := by omega
    refine finish_some s.ip ?_ (Nat.sub_le _ _) ?_
    · rw [hrest]
      exact hwrites.written
    · rw [hrest]
      exact hwrites.size

/-- The code of the end. -/
theorem Arrives.decompress {c : Config} (h : Arrives inp op inp.length) (hholds : c.Holds inp.length)
    (hmem : c.mem = op ++ [17#8, 0#8, 0#8]) :
    ∃ enough, ∀ fuel, enough ≤ fuel → c.decompress fuel = some (.returned .ok inp) := by
  have hhas : c.Has 0 (op ++ [17#8, 0#8, 0#8]) := by
    refine ⟨[], ?_⟩
    rw [List.append_nil, hmem, List.drop_zero]
  have hend := hhas.right
  rw [Nat.zero_add] at hend
  have hcode : c.Has 0 (op ++ [17#8, 0#8]) := by
    have hsplit : op ++ [17#8, 0#8, 0#8] = op ++ [17#8, 0#8] ++ [0#8] := by
      rw [List.append_assoc]
      rfl
    rw [hsplit] at hhas
    exact hhas.left
  have hcomes := h c 17#8 0#8 hholds hcode (by decide) fun _ => by decide
  have hdist : (17 &&& 8) <<< 11 + ((0#8 : BitVec 8).toNat + (0#8 : BitVec 8).toNat <<< 8) >>> 2 = 0 := rfl
  have hin : op.length + 1 + 2 = c.inLen := by
    rw [hholds.inLen, hmem, List.length_append]
    rfl
  refine hcomes.returns ?_
  rw [List.take_length]
  show c.stepCode 17 ⟨op.length + 1, inp⟩ = _
  unfold Config.stepCode Config.runLength
  rw [if_neg (by decide), if_neg (by decide), if_pos (by decide), if_neg (by decide), pure_bind]
  simp only
  rw [hend.tail.read, pure_bind, hend.tail.tail.read, pure_bind, if_pos hdist, if_pos hin]

/-- What is compressed is decompressed to what it was, by either decompressor and into any buffer that
has room for it. -/
theorem decompress_compress (inp : List (BitVec 8)) (dict : Nat → Int) :
    ∃ out, compress inp dict = some out ∧
      ∀ (safe : Bool) (outLen : Nat) (before : List (BitVec 8)) (room : Nat), out.length < 2 ^ 32 →
        inp.length ≤ outLen → outLen < 2 ^ 32 → outLen ≤ room →
        ∃ enough, ∀ fuel, enough ≤ fuel →
          (⟨safe, out, out.length, outLen, before, room⟩ : Config).decompress fuel =
            some (.returned .ok inp) := by
  obtain ⟨op, hop, harrives, -⟩ := compress_some inp dict
  refine ⟨_, hop, fun safe outLen before room hout hfits hsized hroom => ?_⟩
  exact harrives.decompress ⟨⟨hout, hsized⟩, rfl, hfits, hroom⟩ rfl

/-- Four bytes that are repeated four times: four literals and a match. -/
def repeated : List (BitVec 8) := (List.replicate 5 [1#8, 2#8, 3#8, 4#8]).flatten

theorem compress_repeated : compress repeated (fun _ => 0) =
    some [1#8, 1#8, 2#8, 3#8, 4#8, 46#8, 12#8, 0#8, 17#8, 0#8, 0#8] := by
  decide

theorem decompress_compress_repeated : ∃ out, compress repeated (fun _ => 0) = some out ∧
    ∃ enough, ∀ fuel, enough ≤ fuel →
      (⟨true, out, out.length, 20, [], 20⟩ : Config).decompress fuel =
        some (.returned .ok repeated) := by
  obtain ⟨out, hout, hround⟩ := decompress_compress repeated fun _ => 0
  obtain rfl := Option.some.inj (compress_repeated.symm.trans hout)
  exact ⟨_, hout, hround true 20 [] 20 (by decide) (by decide) (by decide) (by decide)⟩

/-- How much the compressor writes at most. -/
theorem length_compress (inp : List (BitVec 8)) (dict : Nat → Int) :
    ∃ out, compress inp dict = some out ∧ 22 * out.length ≤ 23 * inp.length + 91 := by
  obtain ⟨op, hop, -, hsize⟩ := compress_some inp dict
  refine ⟨_, hop, ?_⟩
  rw [List.length_append]
  simp only [List.length_cons, List.length_nil]
  omega

end Turns

end JxCore.Lzo
