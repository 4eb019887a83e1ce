import JxCore.Interface.RegionChain

/-!
# Revoking a region

`memory_revoke` walks from its node in both directions as long as the borders are the caller's and
makes a new node for each old one. The walk towards the end is the walk towards the beginning on the
mirrored chain.
-/

namespace JxCore.Region

/-- The walk went over the nodes `old` and made `new` for them, in front of `lastNew`. -/
structure Walked (cdom lastNew : Nat) (s t : Sys) (old new : List Nat) : Prop where
  created : Created s t new.reverse
  valid : ∀ x ∈ new, (t.dz x).valid = 1
  copies : (new.map fun x => ((t.dz x).mem, (t.dz x).size)) =
    old.map fun x => ((s.dz x).mem, (s.dz x).size)
  invalid : ∀ x ∈ old, t.dz x = (s.dz x).invalidated
  linked : Linked (fun n => (t.dz n).prev) (fun n => (t.dz n).next) none new (some lastNew)
  nextOwner : ∀ x ∈ new, (t.dz x).nextOwner = cdom
  owners : new.IsChain fun x y => (t.dz x).nextOwner = (t.dz y).prevOwner
  last : t.dz lastNew = if new = [] then s.dz lastNew else
    { s.dz lastNew with prev := new.getLast?, prevOwner := cdom }
  outer : ∀ x, x ∉ old → x ∉ new → x ≠ lastNew → t.dz x = s.dz x

section Walk

variable {s t : Sys} {cdom cur lastNew fuel : Nat} {curNew q : Option Nat} {left : List Nat}
  {w : Walk}

/-- One node of the walk. -/
def revokeOne (cdom new lastNew old : Nat) (s : Sys) : Sys :=
  ((s.set new fun m => { m with next := some lastNew, nextOwner := cdom }).set lastNew fun m =>
    { m with prev := some new, prevOwner := cdom }).freeDZ old

theorem Walked.cons {new old : Nat} {olds news : List Nat} {s₀ : Sys} (hnew : new ≠ lastNew)
    (hold : old ≠ lastNew) (hne : new ≠ old) 
    (hc : Created s s₀ [new])
    (hdz : ∀ m, s₀.dz m = if m = new then .created (s.dz old).size (s.dz old).mem else s.dz m)
    (h : Walked cdom new (revokeOne cdom new lastNew old s₀) t olds news)
    (holds : ∀ x ∈ olds, x ≠ new ∧ x ≠ lastNew ∧ x ≠ old)
    (hnews : ∀ x ∈ news, x ≠ new ∧ x ≠ lastNew ∧ x ≠ old) :
    Walked cdom lastNew s t (olds ++ [old]) (news ++ [new]) := by
  have hone : ∀ x, x ≠ new → x ≠ lastNew → x ≠ old →
      (revokeOne cdom new lastNew old s₀).dz x = s.dz x := fun x h1 h2 h3 => by
    simp [revokeOne, freeDZ_dz, set_dz, hdz, h1, h2, h3]
  have hone_new : (revokeOne cdom new lastNew old s₀).dz new =
      ⟨1, 1, (s.dz old).mem, (s.dz old).size, none, some lastNew, 0, cdom⟩ := by
    simp [revokeOne, freeDZ_dz, set_dz, hdz, hnew, hne, DZMemoryProxy.created]
  have hone_old : (revokeOne cdom new lastNew old s₀).dz old = (s.dz old).invalidated := by
    simp [revokeOne, freeDZ_dz, set_dz, hdz, hold, hne.symm]
  have hone_last : (revokeOne cdom new lastNew old s₀).dz lastNew =
      { s.dz lastNew with prev := some new, prevOwner := cdom } := by
    simp [revokeOne, freeDZ_dz, set_dz, hdz, hold.symm, hnew.symm]
  have holds_new : new ∉ olds := fun hm => (holds new hm).1 rfl
  have holds_last : lastNew ∉ olds := fun hm => (holds lastNew hm).2.1 rfl
  have holds_old : old ∉ olds := fun hm => (holds old hm).2.2 rfl
  have hnews_last : lastNew ∉ news := fun hm => (hnews lastNew hm).2.1 rfl
  have hnews_old : old ∉ news := fun hm => (hnews old hm).2.2 rfl
  have hlast := h.last
  have hnode : (t.dz new).valid = 1 ∧ (t.dz new).mem = (s.dz old).mem ∧
      (t.dz new).size = (s.dz old).size ∧ (t.dz new).prev = news.getLast? ∧
      (t.dz new).next = some lastNew ∧ (t.dz new).nextOwner = cdom ∧
      (news ≠ [] → (t.dz new).prevOwner = cdom) := by
    rw [hlast, hone_new]
    split <;> simp_all
  constructor
  case created =>
    rw [List.reverse_append]
    exact hc.trans h.created
  case valid =>
    intro x hx
    rcases List.mem_append.mp hx with hx | hx
    · exact h.valid x hx
    · rw [List.mem_singleton.mp hx]
      exact hnode.1
  case copies =>
    rw [List.map_append, List.map_append, h.copies]
    congr 1
    · refine List.map_congr_left fun x hx => ?_
      obtain ⟨h1, h2, h3⟩ := holds x hx
      rw [hone x h1 h2 h3]
    · simp [hnode]
  case invalid =>
    intro x hx
    rcases List.mem_append.mp hx with hx | hx
    · obtain ⟨h1, h2, h3⟩ := holds x hx
      rw [h.invalid x hx, hone x h1 h2 h3]
    · rw [List.mem_singleton.mp hx, h.outer old holds_old hnews_old hne.symm, hone_old]
  case linked =>
    rw [Linked.append_iff]
    refine ⟨h.linked, ?_⟩
    simp [hnode]
  case nextOwner =>
    intro x hx
    rcases List.mem_append.mp hx with hx | hx
    · exact h.nextOwner x hx
    · rw [List.mem_singleton.mp hx]
      exact hnode.2.2.2.2.2.1
  case owners =>
    rw [List.isChain_append]
    refine ⟨h.owners, by simp, fun x hx y hy => ?_⟩
    simp only [List.head?_cons, Option.mem_def, Option.some.injEq] at hy
    subst hy
    rw [h.nextOwner x (List.mem_of_mem_getLast? hx), hnode.2.2.2.2.2.2]
    rintro rfl
    simp at hx
  case last =>
    rw [h.outer lastNew holds_last hnews_last hnew.symm, hone_last]
    simp
  case outer =>
    intro x hx hx' hx_last
    simp only [List.mem_append, List.mem_singleton, not_or] at hx hx'
    rw [h.outer x hx.1 hx'.1 hx'.2, hone x hx'.2 hx_last hx.2]

theorem Walked.nil (cdom lastNew : Nat) (s : Sys) : Walked cdom lastNew s s [] [] :=
  ⟨rfl, by simp, rfl, by simp, trivial, by simp, by simp, by simp, fun _ _ _ _ => rfl⟩

theorem revokePrev_spec
    (hlinked : Linked (fun n => (s.dz n).prev) (fun n => (s.dz n).next) none (left ++ [cur]) q)
    (hnodup : (left ++ [cur]).Nodup) (hfree_nodup : s.dzMemoryFreeList.Nodup)
    (hfree : ∀ n ∈ s.dzMemoryFreeList, n ∉ left ++ [cur] ∧ n ≠ lastNew)
    (hlast : lastNew ∉ left ++ [cur])
    (h : revokePrev cdom fuel cur curNew lastNew s = .ok (w, t)) :
    ∃ left' old new, left = left' ++ old ∧ Walked cdom lastNew s t old new ∧
      w.dzmCurNew = new.head?.or curNew ∧ (w.dzmCurOld = none → left' = []) ∧
      ∀ c, w.dzmCurOld = some c → (old ++ [cur]).head? = some c ∧ (s.dz c).prevOwner ≠ cdom := by
  induction fuel generalizing cur lastNew curNew left s q with
  | zero => cases h
  | succ fuel ih =>
    unfold revokePrev at h
    split at h
    case isFalse howner =>
      cases h
      exact ⟨left, [], [], by simp, .nil _ _ _, by simp, by simp, by simpa using howner⟩
    case isTrue howner =>
      have hprev := hlinked.at_mem.1
      rw [Option.or_none] at hprev
      split at h
      case h_1 heq =>
        cases h
        have hleft : left = [] := List.getLast?_eq_none_iff.mp (hprev.symm.trans heq)
        exact ⟨[], [], [], by simp [hleft], .nil _ _ _, by simp, by simp, by simp⟩
      case h_2 p heq =>
        obtain ⟨left₀, rfl⟩ := List.getLast?_eq_some_iff.mp (hprev.symm.trans heq)
        simp only [bind_eq_ok, Prod.exists] at h
        obtain ⟨new, s₀, h₀, h⟩ := h
        obtain ⟨hc, hdz⟩ := createDZMemory_ok h₀
        change revokePrev cdom fuel p (some new) new (revokeOne cdom new lastNew p s₀) = _ at h
        have htaken := hc.fields.1
        rw [htaken, List.singleton_append] at hfree hfree_nodup
        simp only [List.forall_mem_cons, List.nodup_cons] at hfree hfree_nodup
        obtain ⟨⟨hnew, hnew_last⟩, hfree⟩ := hfree
        rw [List.nodup_append] at hnodup
        have hin : ∀ x ∈ left₀ ++ [p], x ≠ new ∧ x ≠ lastNew ∧ x ≠ cur := fun x hx =>
          ⟨fun heq => hnew (heq ▸ List.mem_append_left _ hx),
            fun heq => hlast (heq ▸ List.mem_append_left _ hx),
            hnodup.2.2 x hx cur (List.mem_singleton_self cur)⟩
        have hp := hin p (List.mem_append_right _ (List.mem_singleton_self p))
        have hlinks : ∀ x ∈ left₀ ++ [p], ((revokeOne cdom new lastNew p s₀).dz x).prev =
            (s.dz x).prev ∧ ((revokeOne cdom new lastNew p s₀).dz x).next = (s.dz x).next ∧
            ((revokeOne cdom new lastNew p s₀).dz x).prevOwner = (s.dz x).prevOwner := by
          intro x hx
          obtain ⟨h1, h2, -⟩ := hin x hx
          simp only [revokeOne, freeDZ_dz, set_dz, hdz, h1, h2, if_false]
          split <;> simp [DZMemoryProxy.invalidated]
        rw [Linked.append_iff] at hlinked
        have hlinked' := hlinked.1.congr (fun x hx => (hlinks x hx).1) fun x hx => (hlinks x hx).2.1
        have hfree' : ∀ n ∈ s₀.dzMemoryFreeList, n ∉ left₀ ++ [p] ∧ n ≠ new := fun n hn =>
          ⟨fun hm => (hfree n hn).1 (List.mem_append_left _ hm),
            fun heq => hfree_nodup.1 (heq ▸ hn)⟩
        obtain ⟨left', old, news, hleft, hwalked, hcurNew, hend, hstop⟩ := ih hlinked' hnodup.1
          hfree_nodup.2 hfree' (fun hm => (hin new hm).1 rfl) h
        have hnews : ∀ x ∈ news, x ∈ s₀.dzMemoryFreeList := fun x hx => by
          have := hwalked.created.fields.1
          change s₀.dzMemoryFreeList = _ at this
          rw [this]
          exact List.mem_append_left _ (List.mem_reverse.mpr hx)
        have hold : ∀ x ∈ old, x ∈ left₀ := fun x hx => hleft ▸ List.mem_append_right _ hx
        refine ⟨left', old ++ [p], news ++ [new], by rw [hleft, List.append_assoc], ?_, ?_, hend,
          fun c hcur => ?_⟩
        · refine hwalked.cons hnew_last hp.2.1 hp.1.symm hc hdz (fun x hx => ?_) fun x hx => ?_
          · obtain ⟨h1, h2, -⟩ := hin x (List.mem_append_left _ (hold x hx))
            rw [List.nodup_append] at hnodup
            exact ⟨h1, h2, hnodup.1.2.2 x (hold x hx) p (List.mem_singleton_self p)⟩
          · obtain ⟨hout, hne⟩ := hfree x (hnews x hx)
            refine ⟨fun heq => hfree_nodup.1 (heq ▸ hnews x hx), hne, fun heq => hout ?_⟩
            simp [heq]
        · rw [hcurNew, List.head?_append, Option.or_assoc]
          rfl
        · obtain ⟨hhead, hstop⟩ := hstop c hcur
          have hc_mem : c ∈ left₀ ++ [p] := by
            rcases List.mem_append.mp (List.mem_of_mem_head? hhead) with hm | hm
            · exact List.mem_append_left _ (hold c hm)
            · exact List.mem_append_right _ hm
          rw [(hlinks c hc_mem).2.2] at hstop
          exact ⟨by rw [List.head?_append, hhead]; rfl, hstop⟩

end Walk

/-! ## One side -/

/-- The walk over `old` is over, and the node in front of it is tied to the new ones. -/
structure Renewed (cdom this : Nat) (s t : Sys) (left old new : List Nat) : Prop where
  created : Created s t new.reverse
  valid : ∀ x ∈ new, (t.dz x).valid = 1
  copies : (new.map fun x => ((t.dz x).mem, (t.dz x).size)) =
    old.map fun x => ((s.dz x).mem, (s.dz x).size)
  invalid : ∀ x ∈ old, (t.dz x).valid = 0
  linked : Linked (fun n => (t.dz n).prev) (fun n => (t.dz n).next) left.getLast? new (some this)
  nextOwner : ∀ x ∈ new, (t.dz x).nextOwner = cdom
  owners : new.IsChain fun x y => (t.dz x).nextOwner = (t.dz y).prevOwner
  owners_left : ∀ x ∈ left.getLast?, ∀ y ∈ new.head?, (s.dz x).nextOwner = (t.dz y).prevOwner
  last : t.dz this = if new = [] then s.dz this else
    { s.dz this with prev := new.getLast?, prevOwner := cdom }
  outer : ∀ x, x ∉ old → x ∉ new → x ≠ this → t.dz x =
    { s.dz x with next := if left.getLast? = some x then new.head? else (s.dz x).next }
  nil : new = [] → left = []

theorem Walked.renewed_nil {cdom this : Nat} {s t : Sys} {old new : List Nat}
    (h : Walked cdom this s t old new) : Renewed cdom this s t [] old new where
  created := h.created
  valid := h.valid
  copies := h.copies
  invalid x hx := by
    rw [h.invalid x hx]
    rfl
  linked := h.linked
  nextOwner := h.nextOwner
  owners := h.owners
  owners_left := by simp
  last := h.last
  outer x hx hx' hne := by simp [h.outer x hx hx' hne]
  nil _ := rfl

/-- Tying the first new node to a neighbour in front. -/
theorem Walked.renewed_tie {cdom this p c n : Nat} {s t : Sys} {left old new : List Nat}
    (h : Walked cdom this s t old (n :: new)) (hnodup : (n :: new).Nodup)
    (hp : p ∉ old ∧ p ∉ n :: new ∧ p ≠ this) (hn : n ∉ old ∧ n ≠ this)
    (hleft : left.getLast? = some p)
    (hc : (s.dz p).nextOwner = (t.dz c).prevOwner) :
    Renewed cdom this s ((t.set p fun m => { m with next := some n }).set n fun m =>
      { m with prev := some p, prevOwner := (t.dz c).prevOwner }) left old (n :: new) := by
  have hpn : p ≠ n := fun heq => hp.2.1 (heq ▸ List.mem_cons_self)
  obtain ⟨u, hu⟩ : ∃ u : Sys, u = ((t.set p fun m => { m with next := some n }).set n fun m =>
      { m with prev := some p, prevOwner := (t.dz c).prevOwner }) := ⟨_, rfl⟩
  have hun : u.dz n = { t.dz n with prev := some p, prevOwner := (t.dz c).prevOwner } := by
    simp [hu, set_dz, hpn.symm]
  have hup : u.dz p = { t.dz p with next := some n } := by simp [hu, set_dz, hpn]
  have hux : ∀ x, x ≠ p → x ≠ n → u.dz x = t.dz x := fun x h1 h2 => by simp [hu, set_dz, h1, h2]
  have hunew : ∀ x ∈ new, u.dz x = t.dz x := fun x hx =>
    hux x (fun heq => hp.2.1 (heq ▸ List.mem_cons_of_mem n hx)) fun heq =>
      (List.nodup_cons.mp hnodup).1 (heq ▸ hx)
  rw [← hu]
  constructor
  case created => exact h.created.of_rest (by simp [hu])
  case valid =>
    intro x hx
    rcases List.mem_cons.mp hx with rfl | hx'
    · rw [hun]
      exact h.valid x hx
    · rw [hunew x hx']
      exact h.valid x hx
  case copies =>
    rw [← h.copies, List.map_cons, List.map_cons, hun, List.map_congr_left fun x hx => by
      rw [hunew x hx]]
  case invalid =>
    intro x hx
    rw [hux x (fun heq => hp.1 (heq ▸ hx)) fun heq => hn.1 (heq ▸ hx), h.invalid x hx]
    rfl
  case linked =>
    rw [hleft]
    refine ⟨by simp only [hun], by simp only [hun]; exact h.linked.2.1, ?_⟩
    exact h.linked.2.2.congr (fun x hx => by rw [hunew x hx]) fun x hx => by rw [hunew x hx]
  case nextOwner =>
    intro x hx
    rcases List.mem_cons.mp hx with rfl | hx'
    · rw [hun]
      exact h.nextOwner x hx
    · rw [hunew x hx']
      exact h.nextOwner x hx
  case owners =>
    refine h.owners.imp_of_mem_tail_imp fun x y hx hy hxy => ?_
    rw [hunew y hy, ← hxy]
    rcases List.mem_cons.mp hx with rfl | hx'
    · rw [hun]
    · rw [hunew x hx']
  case owners_left =>
    simp [hleft, hun, hc]
  case last =>
    rw [hux this hp.2.2.symm hn.2.symm]
    exact h.last
  case outer =>
    intro x hx hx' hne
    have hxn : x ≠ n := fun heq => hx' (heq ▸ List.mem_cons_self)
    by_cases hxp : x = p
    · rw [hxp, hup, h.outer p hp.1 hp.2.1 hp.2.2]
      simp [hleft]
    · rw [hux x hxp hxn, h.outer x hx hx' hne, hleft]
      simp [Ne.symm hxp]
  case nil => simp

/-- What a walk from `this` towards the beginning finds. -/
structure Front (s : Sys) (left : List Nat) (this newThis : Nat) : Prop where
  linked : ∃ q, Linked (fun n => (s.dz n).prev) (fun n => (s.dz n).next) none (left ++ [this]) q
  owners : (left ++ [this]).IsChain fun x y => (s.dz x).nextOwner = (s.dz y).prevOwner
  nodup : (left ++ [this]).Nodup
  free_nodup : s.dzMemoryFreeList.Nodup
  free : ∀ n ∈ s.dzMemoryFreeList, n ∉ left ++ [this] ∧ n ≠ newThis
  newThis : newThis ∉ left ++ [this]

/-- The walk towards the beginning and the tie at its end, if the border in front of the node is the
caller's or there is nothing in front of it. -/
theorem revokePrev_renewed {s s₁ : Sys} {cdom this newThis fuel : Nat} {curNew : Option Nat}
    {left : List Nat} {w : Walk} (hfront : Front s left this newThis)
    (hborder : (s.dz this).prev = none ∨ (s.dz this).prevOwner = cdom)
    (h : revokePrev cdom fuel this curNew newThis s = .ok (w, s₁)) :
    ∃ t, tiePrev w s₁ = .ok t ∧
      ∃ left' old new, left = left' ++ old ∧ Renewed cdom newThis s t left' old new := by
  obtain ⟨⟨q, hlinked⟩, howners, hnodup, hfree_nodup, hfree, hnewThis⟩ := hfront
  obtain ⟨left', old, new, rfl, hwalked, hcurNew, hend, hstop⟩ :=
    revokePrev_spec hlinked hnodup hfree_nodup hfree hnewThis h
  have hnew_free : ∀ x ∈ new, x ∈ s.dzMemoryFreeList := fun x hx => by
    rw [hwalked.created.fields.1]
    exact List.mem_append_left _ (List.mem_reverse.mpr hx)
  unfold tiePrev
  split
  case h_1 heq =>
    refine ⟨s₁, rfl, left', old, new, rfl, ?_⟩
    rw [hend heq]
    exact hwalked.renewed_nil
  case h_2 c heq =>
    obtain ⟨hhead, howner⟩ := hstop c heq
    -- The walk stopped at `c`, the first node of `old` and `this`.
    obtain ⟨tail, htail⟩ := List.head?_eq_some_iff.mp hhead
    have hc_prev : (s.dz c).prev = left'.getLast? := by
      rw [List.append_assoc, htail] at hlinked
      simpa using hlinked.at_mem.1
    have hc_same : (s₁.dz c).prev = (s.dz c).prev ∧ (s₁.dz c).prevOwner = (s.dz c).prevOwner := by
      by_cases hmem : c ∈ old
      · rw [hwalked.invalid c hmem]
        exact ⟨rfl, rfl⟩
      · have hc_in : c ∈ old ++ [this] := htail ▸ List.mem_cons_self
        have hc_this : c = this := by simpa [hmem] using hc_in
        rw [hwalked.outer c hmem]
        · exact ⟨rfl, rfl⟩
        · exact fun hm => (hfree c (hnew_free c hm)).1 (by simp [hc_this])
        · exact fun heq => hnewThis (by simp [← heq, hc_this])
    split
    case h_1 hnone =>
      refine ⟨s₁, rfl, left', old, new, rfl, ?_⟩
      have hleft : left' = [] := by
        rw [hc_same.1, hc_prev] at hnone
        exact List.getLast?_eq_none_iff.mp hnone
      rw [hleft]
      exact hwalked.renewed_nil
    case h_2 p hsome =>
      rw [hc_same.1, hc_prev] at hsome
      -- Something was walked over, since the border of `this` is the caller's.
      have hold : old ≠ [] := by
        rintro rfl
        simp only [List.nil_append, List.cons.injEq] at htail
        rw [← htail.1, hsome] at hc_prev
        rcases hborder with hnone | hown
        · simp [hnone] at hc_prev
        · exact howner (htail.1 ▸ hown)
      obtain ⟨n, new, rfl⟩ : ∃ n l, new = n :: l := by
        cases new with
        | nil =>
          have hcopies := hwalked.copies
          simp only [List.map_nil] at hcopies
          exact absurd (List.map_eq_nil_iff.mp hcopies.symm) hold
        | cons n l => exact ⟨n, l, rfl⟩
      rw [hcurNew, List.head?_cons, Option.some_or]
      refine ⟨_, rfl, left', old, n :: new, rfl, ?_⟩
      have hp_mem : p ∈ left' := List.mem_of_getLast? hsome
      have hn := hfree n (hnew_free n List.mem_cons_self)
      have hnodup' := hnodup
      simp only [List.nodup_append, List.mem_append] at hnodup'
      refine hwalked.renewed_tie ?_ ⟨fun hm => ?_, fun hm => ?_, fun heq => ?_⟩
        ⟨fun hm => hn.1 (by simp [hm]), hn.2⟩ hsome ?_
      · have hfree_eq := hwalked.created.fields.1
        rw [hfree_eq, List.nodup_append, List.nodup_reverse] at hfree_nodup
        exact hfree_nodup.1
      · exact hnodup'.1.2.2 p hp_mem p hm rfl
      · exact (hfree p (hnew_free p hm)).1 (by simp [hp_mem])
      · exact hnewThis (by simp [← heq, hp_mem])
      · rw [hc_same.2]
        rw [List.append_assoc, htail, List.isChain_append] at howners
        exact howners.2.2 p hsome c rfl

/-! ## The mirrored chain -/

def DZMemoryProxy.mirror (m : DZMemoryProxy) : DZMemoryProxy :=
  { m with prev := m.next, next := m.prev, prevOwner := m.nextOwner, nextOwner := m.prevOwner }

/-- The chains read from the other end. -/
def Sys.mirror (s : Sys) : Sys := { s with dz := fun n => (s.dz n).mirror }

theorem set_mirror (s : Sys) (n : Nat) (f : DZMemoryProxy → DZMemoryProxy) :
    (s.set n f).mirror = s.mirror.set n fun m => (f m.mirror).mirror := by
  simp only [Sys.mirror, Sys.set, Sys.mk.injEq, and_true]
  funext m
  simp only [Function.update_apply]
  split <;> rfl

theorem createDZMemory_mirror {size mem n : Nat} {s t : Sys}
    (h : createDZMemory size mem s = .ok (n, t)) :
    createDZMemory size mem s.mirror = .ok (n, t.mirror) := by
  have hlist : s.mirror.dzMemoryFreeList = s.dzMemoryFreeList := rfl
  unfold createDZMemory at h ⊢
  rw [hlist]
  split at h
  · cases h
  case h_2 m rest heq =>
    cases h
    simp only [Except.ok.injEq, Prod.mk.injEq, true_and]
    simp only [Sys.mirror, Sys.mk.injEq, and_true]
    funext k
    simp only [Function.update_apply]
    split <;> rfl

theorem revokeNext_mirror {cdom fuel cur lastNew : Nat} {curNew : Option Nat} {s t : Sys} {w : Walk}
    (h : revokeNext cdom fuel cur curNew lastNew s = .ok (w, t)) :
    revokePrev cdom fuel cur curNew lastNew s.mirror = .ok (w, t.mirror) := by
  induction fuel generalizing cur lastNew curNew s with
  | zero => cases h
  | succ fuel ih =>
    unfold revokeNext at h
    have howners : (s.mirror.dz cur).prevOwner = (s.dz cur).nextOwner := rfl
    have hlinks : (s.mirror.dz cur).prev = (s.dz cur).next := rfl
    unfold revokePrev
    simp only [howners, hlinks]
    split at h
    case isFalse howner =>
      cases h
      rw [if_neg howner]
    case isTrue howner =>
      rw [if_pos howner]
      split at h
      case h_1 =>
        cases h
        rfl
      case h_2 =>
        simp only [bind_eq_ok, assert_eq_ok, Prod.exists] at h
        obtain ⟨new, s₀, h₀, -, -, h⟩ := h
        have hrec := ih h
        simp only [Sys.freeDZ, set_mirror] at hrec
        simp only [bind_eq_ok, Prod.exists]
        exact ⟨new, s₀.mirror, createDZMemory_mirror h₀, hrec⟩

theorem tieNext_mirror (w : Walk) (s : Sys) :
    tiePrev w s.mirror = (tieNext w s).map Sys.mirror := by
  obtain ⟨_ | c, curNew, last⟩ := w
  · rfl
  have hmirror : (s.mirror.dz c).prev = (s.dz c).next := rfl
  simp only [tiePrev, tieNext, hmirror]
  cases (s.dz c).next with
  | none => rfl
  | some p =>
    cases curNew with
    | none => rfl
    | some n =>
      simp only [Except.map, set_mirror]
      rfl

/-- The same as `Renewed` behind the node. -/
structure RenewedNext (cdom this : Nat) (s t : Sys) (old new right : List Nat) : Prop where
  created : Created s t new
  valid : ∀ x ∈ new, (t.dz x).valid = 1
  copies : (new.map fun x => ((t.dz x).mem, (t.dz x).size)) =
    old.map fun x => ((s.dz x).mem, (s.dz x).size)
  invalid : ∀ x ∈ old, (t.dz x).valid = 0
  linked : Linked (fun n => (t.dz n).prev) (fun n => (t.dz n).next) (some this) new right.head?
  prevOwner : ∀ x ∈ new, (t.dz x).prevOwner = cdom
  owners : new.IsChain fun x y => (t.dz x).nextOwner = (t.dz y).prevOwner
  owners_right : ∀ x ∈ new.getLast?, ∀ y ∈ right.head?, (t.dz x).nextOwner = (s.dz y).prevOwner
  first : t.dz this = if new = [] then s.dz this else
    { s.dz this with next := new.head?, nextOwner := cdom }
  outer : ∀ x, x ∉ old → x ∉ new → x ≠ this → t.dz x =
    { s.dz x with prev := if right.head? = some x then new.getLast? else (s.dz x).prev }
  nil : new = [] → right = []

theorem Renewed.of_mirror {cdom this : Nat} {s t : Sys} {right old new : List Nat}
    (h : Renewed cdom this s.mirror t.mirror right old new) :
    RenewedNext cdom this s t old.reverse new.reverse right.reverse where
  created := h.created
  valid x hx := h.valid x (List.mem_reverse.mp hx)
  copies := by
    have := h.copies
    simp only [List.map_reverse]
    congr 1
  invalid x hx := h.invalid x (List.mem_reverse.mp hx)
  linked := by
    rw [List.head?_reverse]
    exact h.linked.reverse
  prevOwner x hx := h.nextOwner x (List.mem_reverse.mp hx)
  owners := by
    rw [List.isChain_reverse]
    exact h.owners.imp fun x y hxy => hxy.symm
  owners_right x hx y hy := by
    rw [List.getLast?_reverse] at hx
    rw [List.head?_reverse] at hy
    exact (h.owners_left y hy x hx).symm
  first := by
    have hlast := congrArg DZMemoryProxy.mirror h.last
    rw [List.head?_reverse]
    by_cases hnil : new = []
    · rw [if_pos hnil] at hlast
      rw [if_pos (by simp [hnil])]
      exact hlast
    · rw [if_neg hnil] at hlast
      rw [if_neg (by simp [hnil])]
      exact hlast
  outer x hx hx' hne := by
    have houter := congrArg DZMemoryProxy.mirror (h.outer x (fun hm => hx (List.mem_reverse.mpr hm))
      (fun hm => hx' (List.mem_reverse.mpr hm)) hne)
    rw [List.head?_reverse, List.getLast?_reverse]
    exact houter
  nil hnil := by
    rw [List.reverse_eq_nil_iff] at hnil ⊢
    exact h.nil hnil

/-! ## Both sides -/

/-- The two sides together exchange the walked nodes and `this` for new ones. -/
theorem replaced_of_renewed {s s₁ s₃ s₅ : Sys} {cdom this n size mem : Nat}
    {left oldL newL oldR newR right : List Nat}
    (hseg : Segment s left (oldL ++ this :: oldR) right)
    (hsize : size = (s.dz this).size) (hmem : mem = (s.dz this).mem)
    (hc : Created s s₁ [n])
    (hdz : ∀ x, s₁.dz x = if x = n then .created size mem else s.dz x)
    (hL : Renewed cdom n s₁ s₃ left oldL newL) (hR : RenewedNext cdom n s₃ s₅ oldR newR right) :
    Replaced s (s₅.freeDZ this) left (oldL ++ this :: oldR) (newL ++ n :: newR) right := by
  have hfree : s.dzMemoryFreeList = (n :: newL.reverse ++ newR) ++ s₅.dzMemoryFreeList := by
    have := ((hc.trans hL.created).trans hR.created).fields.1
    simpa using this
  have hnodup := hseg.free_nodup
  rw [hfree] at hnodup
  have hnew_fresh : ∀ x ∈ newL ++ n :: newR, x ∉ oldL ++ this :: oldR ∧ left.getLast? ≠ some x ∧
      right.head? ≠ some x := fun x hx => by
    refine hseg.fresh ?_
    rw [hfree]
    simp at hx ⊢
    grind
  have hnewL : ∀ x ∈ newL, x ≠ n ∧ x ∉ newR ∧ x ≠ this ∧ x ∉ oldR ∧ right.head? ≠ some x := by
    simp only [List.nodup_append, List.nodup_cons, List.cons_append] at hnodup
    grind
  have hnewR : ∀ x ∈ newR, x ≠ n ∧ x ≠ this := by
    simp only [List.nodup_append, List.nodup_cons, List.cons_append] at hnodup
    grind
  have hn := hnew_fresh n (by simp)
  have hn_this : n ≠ this := fun heq => hn.1 (by simp [heq])
  have hold : ∀ x ∈ oldL ++ this :: oldR, x ≠ n ∧ x ∉ newL ∧ x ∉ newR := by
    grind
  have hmid := hseg.nodup
  simp only [List.nodup_append, List.nodup_cons] at hmid
  -- The fields of the new nodes, and of the old nodes behind `this` when their walk starts.
  have hu : ∀ x, x ≠ this → (s₅.freeDZ this).dz x = s₅.dz x := fun x hx => by
    rw [freeDZ_dz, if_neg hx]
  have hu_L : ∀ x ∈ newL, (s₅.freeDZ this).dz x = s₃.dz x := fun x hx => by
    obtain ⟨h1, h2, h3, h4, h5⟩ := hnewL x hx
    rw [hu x h3, hR.outer x h4 h2 h1, if_neg h5]
  have hu_R : ∀ x ∈ newR, (s₅.freeDZ this).dz x = s₅.dz x := fun x hx => hu x (hnewR x hx).2
  have hs₁ : ∀ x, x ≠ n → s₁.dz x = s.dz x := fun x hx => by rw [hdz x, if_neg hx]
  have hs₃ : ∀ x ∈ this :: oldR, s₃.dz x = s.dz x := fun x hx => by
    obtain ⟨h1, h2, -⟩ := hold x (List.mem_append_right _ hx)
    have h3 : left.getLast? ≠ some x := fun heq =>
      (hseg.left_last x heq).2 (List.mem_append_right _ hx)
    rw [hL.outer x (fun hm => hmid.2.2 x hm x hx rfl) h2 h1, if_neg h3, hs₁ x h1]
  have hnode : ((s₅.freeDZ this).dz n).valid = 1 ∧ ((s₅.freeDZ this).dz n).mem = mem ∧
      ((s₅.freeDZ this).dz n).size = size ∧ ((s₅.freeDZ this).dz n).prev = newL.getLast? ∧
      ((s₅.freeDZ this).dz n).next = newR.head? ∧
      (newL ≠ [] → ((s₅.freeDZ this).dz n).prevOwner = cdom) ∧
      (newR ≠ [] → ((s₅.freeDZ this).dz n).nextOwner = cdom) := by
    rw [hu n hn_this, hR.first, hL.last, hdz n, if_pos rfl]
    split <;> split <;> simp_all [DZMemoryProxy.created]
  obtain ⟨hvalid, hmem', hsize', hprev, hnext, hprevOwner, hnextOwner⟩ := hnode
  -- A neighbour outside is next to a node that was walked to.
  have hhead : ∀ x, left.getLast? = some x → (newL ++ n :: newR).head? = newL.head? ∧
      newL ≠ [] := fun x hx => by
    have hne : newL ≠ [] := fun hnil => by simp [hL.nil hnil] at hx
    obtain ⟨y, l, rfl⟩ := List.exists_cons_of_ne_nil hne
    exact ⟨rfl, hne⟩
  have hlast : ∀ x, right.head? = some x → (newL ++ n :: newR).getLast? = newR.getLast? ∧
      newR ≠ [] := fun x hx => by
    have hne : newR ≠ [] := fun hnil => by simp [hR.nil hnil] at hx
    refine ⟨?_, hne⟩
    rw [List.append_cons, List.getLast?_append_of_ne_nil _ hne]
  have hu_out : ∀ x, x ∉ newL ++ n :: newR → x ∉ this :: oldR → (s₅.freeDZ this).dz x =
      { s₃.dz x with prev := if right.head? = some x then newR.getLast? else (s₃.dz x).prev } :=
    fun x hx hm => by
      simp only [List.mem_append, List.mem_cons, not_or] at hx hm
      rw [hu x hm.1, hR.outer x hm.2 hx.2.2 hx.2.1]
  constructor
  case allocated =>
    exact (hR.created.fields.2.2.1.trans hL.created.fields.2.2.1).trans hc.fields.2.2.1
  case taken =>
    rw [hfree]
    refine List.Perm.append_right _ ?_
    rw [List.cons_append]
    refine List.perm_middle.trans (List.Perm.cons n ?_)
    exact List.Perm.append_right _ (List.reverse_perm newL).symm
  case proxies =>
    intro p hp
    refine .inl ?_
    change p ∈ s₅.proxies at hp
    rwa [hR.created.fields.2.1, hL.created.fields.2.1, hc.fields.2.1] at hp
  case new_ne => simp
  case linked =>
    rw [Linked.append_iff]
    refine ⟨?_, ?_, ?_, ?_⟩
    · exact hL.linked.congr (fun x hx => by rw [hu_L x hx]) fun x hx => by rw [hu_L x hx]
    · simp only [hprev]
      cases newL with
      | nil => simp [hL.nil rfl]
      | cons y l => simp [List.getLast?_cons]
    · simp only [hnext]
      cases newR with
      | nil => simp [hR.nil rfl]
      | cons y l => simp
    · exact hR.linked.congr (fun x hx => by rw [hu_R x hx]) fun x hx => by rw [hu_R x hx]
  case owners =>
    rw [List.isChain_append, List.isChain_cons]
    refine ⟨?_, ⟨fun y hy => ?_, ?_⟩, fun x hx y hy => ?_⟩
    · exact hL.owners.imp_of_mem_imp fun x y hx hy hxy => by rw [hu_L x hx, hu_L y hy, hxy]
    · have hy' := List.mem_of_mem_head? hy
      rw [hu_R y hy', hR.prevOwner y hy', hnextOwner (List.ne_nil_of_mem hy')]
    · exact hR.owners.imp_of_mem_imp fun x y hx hy hxy => by rw [hu_R x hx, hu_R y hy, hxy]
    · have hx' := List.mem_of_mem_getLast? hx
      simp only [List.head?_cons, Option.mem_def, Option.some.injEq] at hy
      rw [← hy, hu_L x hx', hL.nextOwner x hx', hprevOwner (List.ne_nil_of_mem hx')]
  case owners_left =>
    intro x hx y hy
    rw [(hhead x hx).1] at hy
    have hxn : x ≠ n := fun heq => hn.2.1 (heq ▸ hx)
    rw [hu_L y (List.mem_of_mem_head? hy), ← hL.owners_left x hx y hy, hs₁ x hxn]
  case owners_right =>
    intro x hx y hy
    rw [(hlast y hy).1] at hx
    have hy_mid := (hseg.right_head y hy).2
    have hy_new : y ∉ newL ++ n :: newR := fun hm => (hnew_fresh y hm).2.2 hy
    simp only [List.mem_append, List.mem_cons, not_or] at hy_mid hy_new
    rw [hu_R x (List.mem_of_mem_getLast? hx), hR.owners_right x hx y hy,
      hL.outer y hy_mid.1 hy_new.1 hy_new.2.1, hs₁ y hy_new.2.1]
  case tiled =>
    intro base top htiled
    refine htiled.of_map_eq ?_
    rw [List.map_append, List.map_append, List.map_cons, List.map_cons, hmem', hsize', hsize, hmem]
    congr 1
    · rw [List.map_congr_left fun x hx => by rw [hu_L x hx], hL.copies]
      exact List.map_congr_left fun x hx => by
        rw [hs₁ x (hold x (List.mem_append_left _ hx)).1]
    · congr 1
      rw [List.map_congr_left fun x hx => by rw [hu_R x hx], hR.copies]
      exact List.map_congr_left fun x hx => by rw [hs₃ x (List.mem_cons_of_mem this hx)]
  case valid =>
    intro x hx
    rcases List.mem_append.mp hx with hx | hx
    · rw [hu_L x hx]
      exact hL.valid x hx
    rcases List.mem_cons.mp hx with rfl | hx
    · exact hvalid
    · rw [hu_R x hx]
      exact hR.valid x hx
  case invalid =>
    intro x hx
    obtain ⟨hxn, hxL, hxR⟩ := hold x hx
    rcases List.mem_append.mp hx with hx | hx
    · have hx_mid : x ∉ this :: oldR := fun hm => hmid.2.2 x hx x hm rfl
      rw [hu_out x (by simp [hxn, hxL, hxR]) hx_mid]
      exact hL.invalid x hx
    rcases List.mem_cons.mp hx with rfl | hx
    · rw [freeDZ_dz, if_pos rfl]
      rfl
    · have hx_this : x ≠ this := fun heq => hmid.2.1.1 (heq ▸ hx)
      rw [hu x hx_this]
      exact hR.invalid x hx
  case outer =>
    intro x hx hm
    have hx' := hx
    have hm' := hm
    simp only [List.mem_append, List.mem_cons, not_or] at hx' hm'
    rw [hu_out x hx (by simp [hm'.2]), hL.outer x hm'.1 hx'.1 hx'.2.1, hs₁ x hx'.2.1]
    have hnext_eq : (if left.getLast? = some x then newL.head? else (s.dz x).next) =
        if left.getLast? = some x then (newL ++ n :: newR).head? else (s.dz x).next := by
      split
      case isTrue heq => rw [(hhead x heq).1]
      · rfl
    have hprev_eq : (if right.head? = some x then newR.getLast? else (s.dz x).prev) =
        if right.head? = some x then (newL ++ n :: newR).getLast? else (s.dz x).prev := by
      split
      case isTrue heq => rw [(hlast x heq).1]
      · rfl
    rw [hnext_eq, ← hprev_eq]

end JxCore.Region
