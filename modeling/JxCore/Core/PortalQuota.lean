import JxCore.Core.PortalCopy

/-!
# The quota of a portal call (`core/portal.c`)

`receive_portalcall` copies the parameters of a call with a quota of words, from which each copy
routine takes the size of the object that it is about to make. If a collection of the receiver's
heap comes between, the copy of the parameter is given up and started again, with the quota that is
left.

`measureReference` is the same copy without a quota. It counts the words of the copies instead, and
the copy with the quota is compared with it.
-/

namespace JxCore.PortalCopy

open Exec

/-! ## Receiving the parameters -/

/-- `RECEIVE_PORTAL_QUOTA` -/
def receivePortalQuota : Nat := 100000

def Sys.withQuota (s : Sys) (quota : Nat) : Sys := { s with quota }

/-- `curthr()->n_copied = 0` -/
def Sys.clearCopied (s : Sys) : Sys := { s with copied := [] }

/-- A collection neither looks at the quota nor changes it. -/
structure QuotaEnv extends Env where
  blind : ∀ d s quota, collect d (s.withQuota quota) = (collect d s).withQuota quota

/-- A parameter, which is read again for each attempt to copy it. -/
structure Param where
  /-- `isRef(argTypeMap, numberArgs, i - 1)` -/
  isRef : Bool
  /-- `source->depParams[i]` -/
  value : Sys → Nat
  blind : ∀ s quota, value (s.withQuota quota) = value s

structure Call where
  src : Nat
  dst : Nat
  /-- `curdom() == domainZero` -/
  toDomainZero : Bool
  /-- `source->portalParameter` -/
  portalParameter : Param
  params : List Param

/-- `restart:` and `restart0:`, where the parameter itself is checked for the mark. -/
def copyParam (env : Env) (c : Call) (fuel : Nat) (p : Param) (checked : Bool) :
    Nat → Sys → Exec (Nat × Sys)
  | 0, _ => loop none
  | attempts + 1, s => do
    assert (checked = true → p.value s ≠ restartMark) "source->depParams[i] != 0xffffffff"
    let (copy, s) ← copyReference env c.src c.dst fuel (p.value s) s.clearCopied
    if copy = restartMark then copyParam env c fuel p checked attempts s else pure (copy, s)

/-- One turn of the loop over the parameters. -/
def copyArg (env : Env) (c : Call) (fuel : Nat) (p : Param) (s : Sys) : Exec (Nat × Sys) :=
  if p.value s = 0 then pure (0, s)
  else if p.isRef = false ∨ c.toDomainZero = true then pure (p.value s, s)
  else copyParam env c fuel p true fuel s

def copyArgs (env : Env) (c : Call) (fuel : Nat) : List Param → Sys → Exec (List Nat × Sys)
  | [], s => pure ([], s)
  | p :: ps, s => do
    let (arg, s) ← copyArg env c fuel p s
    let (args, s) ← copyArgs env c fuel ps s
    pure (arg :: args, s)

/-- The implicit parameter; without one that of the receiver stays as it is. -/
def copyPortalParameter (env : Env) (c : Call) (fuel : Nat) (s : Sys) : Exec (Option Nat × Sys) :=
  if c.portalParameter.value s = 0 then pure (none, s)
  else do
    let (copy, s) ← copyParam env c fuel c.portalParameter false fuel s
    pure (some copy, s)

/-- `receive_portalcall` from the quota to the end of the parameters. -/
def receiveParams (env : Env) (c : Call) (fuel : Nat) (s : Sys) :
    Exec ((Option Nat × List Nat) × Sys) := do
  let (implicit, s) ← copyPortalParameter env c fuel (s.withQuota receivePortalQuota)
  let (args, s) ← copyArgs env c fuel c.params s
  pure ((implicit, args), s)

/-! ## Copying without a quota -/

/-- The words that an object takes. -/
def Obj.size (env : Env) : Obj → Nat
  | .object cl _ => GcNew.objsizeObject (env.classDesc cl).instanceSize
  | .array _ data => GcNew.objsizeArray32bit data.length
  | .portal _ _ _ _ => GcNew.objsizePortal
  | .memory _ _ => HeapWalk.objsizeMemory
  | .domain _ _ _ => HeapWalk.objsizeDomain
  | .foreignCpustate _ _ => HeapWalk.objsizeForeignThreaddesc
  | _ => 0

/-- One more copy is counted. -/
def Sys.count (s : Sys) (env : Env) (o : Obj) : Sys := s.withQuota (s.quota + o.size env)

def measureLeaf (env : Env) (dst obj : Nat) (o : Obj) (s : Sys) : Exec (Nat × Sys) := do
  let (target, collected, s) ← alloc env dst o (s.count env o)
  if collected then
    pure (restartMark, s)
  else
    let s ← addToRefTable obj target s
    pure (target, s)

def measurePortal (env : Env) (dst obj : Nat) (s : Sys) : Exec (Nat × Sys) :=
  if obj = 0 then
    pure (0, s)
  else
    match s.objs obj with
    | some (.portal vtable targetDomain targetDomainID index) =>
      if targetDomainID = env.domainId dst ∧
          ¬ (targetDomainID = 0 ∧ targetDomain = 0 ∧ index = 0) then
        match s.services dst index with
        | .dep d => pure (d.obj, s)
        | _ => throw .wild
      else
        measureLeaf env dst obj (.portal vtable targetDomain targetDomainID index) s
    | _ => throw (.panic "")

/-- The copy of an object or an array, whose words are copied by `copy`. -/
def measureWords (env : Env) (copy : Nat → Sys → Exec (Nat × Sys)) (dst obj : Nat) (o : Obj)
    (map : List Bool) (s : Sys) : Exec (Nat × Sys) := do
  let (target, collected, s) ← alloc env dst o (s.count env o)
  if collected then
    pure (restartMark, s)
  else
    let s ← addToRefTable obj target s
    let (done, s) ← copyWords copy obj target map 0 s
    if done then pure (target, s)
    else
      match o with
      | .array _ data => pure (restartMark, clearArray target data.length s)
      | _ => pure (restartMark, s)

def measureObject (env : Env) (copy : Nat → Sys → Exec (Nat × Sys)) (src dst obj cl : Nat)
    (s : Sys) : Exec (Nat × Sys) :=
  if (env.classDesc cl).isPortal then do
    let (proxy, s) ← portalAutoPromo env src obj cl s
    if env.loaded dst cl then
      throw (.throw .runtimeException "Target domain has loaded service class")
    measurePortal env dst proxy s
  else
    measureWords env copy dst obj (.object cl (List.replicate (env.classDesc cl).instanceSize 0))
      (objectMap env cl) s

def measureMemory (env : Env) (dst obj vtable dz : Nat) (s : Sys) : Exec (Nat × Sys) := do
  let (target, s) ← allocUnchecked env dst (.memory vtable dz) (s.count env (.memory vtable dz))
  let s ← addToRefTable obj target s
  pure (target, s)

def measureCpustate (env : Env) (src dst obj vtable : Nat) (s : Sys) : Exec (Nat × Sys) := do
  let (target, collected, s) ←
    alloc env dst (.foreignCpustate vtable obj) (s.count env (.foreignCpustate vtable obj))
  let (_, collected', s) ← alloc env dst (.domain 0 src (env.domainId src)) s
  if collected || collected' then
    pure (restartMark, s)
  else
    let s ← addToRefTable obj target s
    pure (target, s)

/-- An object that has not been copied yet, with `copy` for what it refers to. -/
def measureNew (env : Env) (copy : (room ref : Nat) → Sys → Exec (Nat × Sys))
    (src dst room ref : Nat) : Obj → Sys → Exec (Nat × Sys)
  | .object cl _, s => do
    let room := room - env.frames.object
    checkStackSize room 128
    measureObject env (copy (room - env.frames.field)) src dst ref cl s
  | .portal _ _ _ _, s => measurePortal env dst ref s
  | .memory vtable dz, s => measureMemory env dst ref vtable dz s
  | .domain vtable domain domainID, s => measureLeaf env dst ref (.domain vtable domain domainID) s
  | .array arrayClass data, s =>
    measureWords env (copy (room - env.frames.element)) dst ref
      (.array arrayClass (List.replicate data.length 0)) (arrayMap env arrayClass data.length) s
  | .external, s => pure (ref, s)
  | .cpustate vtable, s => measureCpustate env src dst ref vtable s
  | .foreignCpustate _ _, _ => throw (.panic "copy foreign cpustate not yet implemented")
  | .atomvar, _ =>
    throw (.throw .runtimeException "AtomicVariable cannot be copied between domains")
  | _, _ => throw (.panic "UNKNOWN OBJECT TYPE")

def measureReferenceInternal (env : Env) (src dst : Nat) :
    (fuel room ref : Nat) → Sys → Exec (Nat × Sys)
  | 0, _, _, _ => loop none
  | fuel + 1, room, ref, s =>
    if ref = 0 then
      pure (0, s)
    else do
      checkStackSize room 128
      if src = dst then
        pure (ref, s)
      else
        match s.copied.lookup ref with
        | some target => pure (target, s)
        | none =>
          if ¬ isValidHeapRef env s src ref then
            throw (.panic "invalref")
          else
            match s.objs ref with
            | some o => measureNew env (measureReferenceInternal env src dst fuel) src dst room ref o s
            | none => throw (.panic "UNKNOWN OBJECT TYPE")

/-- A copy that counts its words. -/
def measureReference (env : Env) (src dst fuel ref : Nat) (s : Sys) : Exec (Nat × Sys) := do
  checkStackSize env.room 128
  measureReferenceInternal env src dst fuel (env.room - env.frames.reference) ref s

/-- The words of the copies that the receiver gets, and of each attempt that was given up. -/
structure Words where
  copied : Nat
  abandoned : List Nat

namespace Words

def zero : Words := ⟨0, []⟩

def add (w w' : Words) : Words := ⟨w.copied + w'.copied, w.abandoned ++ w'.abandoned⟩

def total (w : Words) : Nat := w.copied + w.abandoned.sum

end Words

def measureParam (env : Env) (c : Call) (fuel : Nat) (p : Param) (checked : Bool) :
    Nat → Sys → Exec (Nat × Words × Sys)
  | 0, _ => loop none
  | attempts + 1, s => do
    assert (checked = true → p.value s ≠ restartMark) "source->depParams[i] != 0xffffffff"
    let (copy, s) ←
      measureReference env c.src c.dst fuel (p.value s) (s.clearCopied.withQuota 0)
    if copy = restartMark then
      let (copy, w, s') ← measureParam env c fuel p checked attempts s
      pure (copy, ⟨w.copied, s.quota :: w.abandoned⟩, s')
    else
      pure (copy, ⟨s.quota, []⟩, s)

def measureArg (env : Env) (c : Call) (fuel : Nat) (p : Param) (s : Sys) :
    Exec (Nat × Words × Sys) :=
  if p.value s = 0 then pure (0, .zero, s)
  else if p.isRef = false ∨ c.toDomainZero = true then pure (p.value s, .zero, s)
  else measureParam env c fuel p true fuel s

def measureArgs (env : Env) (c : Call) (fuel : Nat) :
    List Param → Sys → Exec (List Nat × Words × Sys)
  | [], s => pure ([], .zero, s)
  | p :: ps, s => do
    let (arg, w, s) ← measureArg env c fuel p s
    let (args, w', s) ← measureArgs env c fuel ps s
    pure (arg :: args, w.add w', s)

def measurePortalParameter (env : Env) (c : Call) (fuel : Nat) (s : Sys) :
    Exec (Option Nat × Words × Sys) :=
  if c.portalParameter.value s = 0 then pure (none, .zero, s)
  else do
    let (copy, w, s) ← measureParam env c fuel c.portalParameter false fuel s
    pure (some copy, w, s)

def measureParams (env : Env) (c : Call) (fuel : Nat) (s : Sys) :
    Exec ((Option Nat × List Nat) × Words × Sys) := do
  let (implicit, w, s) ← measurePortalParameter env c fuel s
  let (args, w', s) ← measureArgs env c fuel c.params s
  pure ((implicit, args), w.add w', s)

/-! ## What is asked for -/

/-- There is not enough quota. -/
def Refused {α : Type} (x : Exec α) : Prop :=
  x = throw (.panic "") ∨
    x = throw (.panic "PER-CALL QUOTA REACHED: TOO MANY OBJECTS COPIED DURING PORTAL CALL")

/-- A call whose copies have `copied` words is accepted if these are within the quota, and charged
with them; otherwise it is rejected. -/
structure Contract (env : Env) (c : Call) (fuel : Nat) (s : Sys) (result : Option Nat × List Nat)
    (copied : Nat) : Prop where
  accepted : copied ≤ receivePortalQuota →
    ∃ t, receiveParams env c fuel s = pure (result, t) ∧ t.quota + copied = receivePortalQuota
  rejected : receivePortalQuota < copied → Refused (receiveParams env c fuel s)

/-! ## Steps that do not look at the quota -/

section Blind

variable {env : QuotaEnv} {α : Type} {s t : Sys} {d a quota : Nat} {checked b : Bool} {o : Obj}

@[simp] theorem withQuota_quota : (s.withQuota quota).quota = quota := rfl

@[simp] theorem withQuota_withQuota {quota' : Nat} :
    (s.withQuota quota).withQuota quota' = s.withQuota quota' := rfl

theorem withQuota_self : s.withQuota s.quota = s := rfl

theorem Refused.bind {β : Type} {x : Exec α} {g : α → Exec β} (h : Refused x) :
    Refused (x >>= g) := by
  rcases h with rfl | rfl
  · exact .inl rfl
  · exact .inr rfl

/-- Without charge: the same with any quota, which is left as it is. -/
def Blind (f : Sys → Exec (α × Sys)) : Prop :=
  ∀ s r t, f s = pure (r, t) → t.quota = s.quota ∧
    ∀ quota, f (s.withQuota quota) = pure (r, t.withQuota quota)

theorem collect_quota : (env.collect d s).quota = s.quota := by
  have h := env.blind d s s.quota
  rw [withQuota_self] at h
  rw [h]
  rfl

/-- An allocation after the collection. -/
def allocAt (env : Env) (d : Nat) (place : Place) (o : Obj) (s : Sys) : Exec (Nat × Bool × Sys) :=
  if place.addr ≠ 0 ∧ place.addr ≠ restartMark ∧ env.heapOf place.addr = some d ∧
      s.objs place.addr = none then
    pure (place.addr, place.collects, { s with objs := Function.update s.objs place.addr (some o) })
  else
    throw (.panic "no more memory")

theorem allocIn_some {env : Env} {place : Place} (hplace : env.place d checked s.allocs = some place) :
    allocIn env d checked o s = allocAt env d place o
      (if place.collects then env.collect d { s with allocs := s.allocs + 1 }
        else { s with allocs := s.allocs + 1 }) := by
  unfold allocIn allocAt
  rw [hplace]

theorem allocAt_blind {place : Place} (h : allocAt env.toEnv d place o s = pure (a, b, t)) :
    t.quota = s.quota ∧ ∀ quota,
      allocAt env.toEnv d place o (s.withQuota quota) = pure (a, b, t.withQuota quota) := by
  unfold allocAt at h
  split at h
  next hfree =>
    cases h
    refine ⟨rfl, fun quota => ?_⟩
    have hfree' : place.addr ≠ 0 ∧ place.addr ≠ restartMark ∧ env.heapOf place.addr = some d ∧
      (s.withQuota quota).objs place.addr = none := hfree
    unfold allocAt
    rw [if_pos hfree']
    rfl
  next => cases h

theorem allocIn_blind (h : allocIn env.toEnv d checked o s = pure (a, b, t)) :
    t.quota = s.quota ∧ ∀ quota,
      allocIn env.toEnv d checked o (s.withQuota quota) = pure (a, b, t.withQuota quota) := by
  cases hplace : env.place d checked s.allocs with
  | none =>
    unfold allocIn at h
    rw [hplace] at h
    cases h
  | some place =>
    have hplace' : ∀ quota, env.place d checked (s.withQuota quota).allocs = some place :=
      fun _ => hplace
    rw [allocIn_some hplace] at h
    obtain ⟨hquota, hblind⟩ := allocAt_blind h
    cases hcollects : place.collects with
    | false =>
      rw [hcollects, if_neg Bool.false_ne_true] at hquota hblind
      refine ⟨hquota, fun quota => ?_⟩
      rw [allocIn_some (hplace' quota), hcollects, if_neg Bool.false_ne_true]
      exact hblind quota
    | true =>
      rw [hcollects, if_pos rfl] at hquota hblind
      refine ⟨hquota.trans collect_quota, fun quota => ?_⟩
      rw [allocIn_some (hplace' quota), hcollects, if_pos rfl]
      have hsame := hblind quota
      rw [← env.blind] at hsame
      exact hsame

theorem allocUnchecked_blind (d : Nat) (o : Obj) : Blind (allocUnchecked env.toEnv d o) := by
  intro s r t h
  obtain ⟨⟨a, b, u⟩, halloc, h⟩ := bind_eq_pure h
  cases h
  obtain ⟨hquota, hblind⟩ := allocIn_blind halloc
  refine ⟨hquota, fun quota => ?_⟩
  unfold allocUnchecked
  rw [hblind quota]
  rfl

theorem addToRefTable_blind {a b : Nat} (h : addToRefTable a b s = pure t) :
    t.quota = s.quota ∧
      ∀ quota, addToRefTable a b (s.withQuota quota) = pure (t.withQuota quota) := by
  unfold addToRefTable at h ⊢
  split at h
  · cases h
  next hroom =>
    cases h
    refine ⟨rfl, fun quota => ?_⟩
    have hroom' : ¬ (s.withQuota quota).copied.length = (s.withQuota quota).maxCopied := hroom
    rw [if_neg hroom']
    rfl

theorem createPromoted_blind (d obj ifclass : Nat) :
    Blind (createPromoted env.toEnv d obj ifclass) := by
  intro s r t h
  unfold createPromoted at h
  cases hfree : findFree s d with
  | none =>
    rw [hfree] at h
    cases h
  | some index =>
    rw [hfree] at h
    obtain ⟨⟨_, s₁⟩, h₁, h⟩ := bind_eq_pure h
    obtain ⟨⟨proxy, s₂⟩, h₂, h⟩ := bind_eq_pure h
    obtain ⟨⟨_, s₃⟩, h₃, h⟩ := bind_eq_pure h
    obtain ⟨rfl, rfl⟩ : proxy = r ∧ s₃ = t := by
      cases h
      exact ⟨rfl, rfl⟩
    obtain ⟨hq₁, hb₁⟩ := allocUnchecked_blind _ _ _ _ _ h₁
    obtain ⟨hq₂, hb₂⟩ := allocUnchecked_blind _ _ _ _ _ h₂
    obtain ⟨hq₃, hb₃⟩ := allocUnchecked_blind _ _ _ _ _ h₃
    refine ⟨hq₃.trans (hq₂.trans hq₁), fun quota => ?_⟩
    have hfree' : findFree (s.withQuota quota) d = some index := hfree
    unfold createPromoted
    rw [hfree']
    show (allocUnchecked env.toEnv d .service
      ((setService s d index .changing).withQuota quota) >>= _) = _
    rw [hb₁ quota, pure_bind]
    show (allocUnchecked env.toEnv d (.portal ifclass d (env.domainId d) index)
      ((setService s₁ d index (.dep ⟨obj, 0⟩)).withQuota quota) >>= _) = _
    rw [hb₂ quota, pure_bind]
    show (allocUnchecked env.toEnv d (.cpustate 0)
      ((setService s₂ d index (.dep ⟨obj, proxy⟩)).withQuota quota) >>= _) = _
    rw [hb₃ quota, pure_bind]

theorem portalAutoPromo_blind (d obj cl : Nat) : Blind (portalAutoPromo env.toEnv d obj cl) := by
  intro s r t h
  unfold portalAutoPromo at h
  cases hfind : findService s d obj with
  | some dep =>
    rw [hfind] at h
    cases h
    refine ⟨rfl, fun quota => ?_⟩
    have hfind' : findService (s.withQuota quota) d obj = some dep := hfind
    unfold portalAutoPromo
    rw [hfind']
  | none =>
    rw [hfind] at h
    cases hclass : (env.classDesc cl).ifclass with
    | none =>
      rw [hclass] at h
      cases h
    | some ifclass =>
      rw [hclass] at h
      obtain ⟨hquota, hblind⟩ := createPromoted_blind d obj ifclass s r t h
      refine ⟨hquota, fun quota => ?_⟩
      have hfind' : findService (s.withQuota quota) d obj = none := hfind
      unfold portalAutoPromo
      rw [hfind', hclass]
      exact hblind quota

end Blind

/-! ## Steps with a charge -/

section Meters

variable {α β : Type}

/-- `code` takes from the quota what `free` counts, or fails if there is not so much. -/
def MetersAt (code free : Sys → Exec (α × Sys)) (s : Sys) : Prop :=
  ∀ r t, free s = pure (r, t) → ∃ cost, t.quota = s.quota + cost ∧ ∀ quota,
    (cost ≤ quota → code (s.withQuota quota) = pure (r, t.withQuota (quota - cost))) ∧
    (quota < cost → Refused (code (s.withQuota quota)))

def Meters (code free : Sys → Exec (α × Sys)) : Prop := ∀ s, MetersAt code free s

/-- Only what happens at the state counts. -/
theorem Meters.at {code free code' free' : Sys → Exec (α × Sys)} (h : Meters code' free') (s : Sys)
    (hcode : ∀ quota, code (s.withQuota quota) = code' (s.withQuota quota))
    (hfree : free s = free' s) : MetersAt code free s := by
  intro r t hf
  simp only [hcode]
  exact h s r t (hfree ▸ hf)

/-- Nothing is said about a step that stops. -/
theorem metersAt_of_throw {code free : Sys → Exec (α × Sys)} {s : Sys} {e : Stop}
    (hfree : free s = throw e) : MetersAt code free s := by
  intro r t hf
  rw [hfree] at hf
  cases hf

/-- A check of the stack comes first. -/
theorem Meters.checked {code free : Sys → Exec (α × Sys)} (h : Meters code free) (room words : Nat) :
    Meters (fun s => checkStackSize room words >>= fun _ => code s)
      fun s => checkStackSize room words >>= fun _ => free s := by
  intro s
  by_cases hlt : room < 4 * words
  · refine metersAt_of_throw (e := .panic "") ?_
    simp only [checkStackSize_neg hlt]
    rfl
  · simp only [checkStackSize_pos (Nat.not_lt.mp hlt), pure_bind]
    exact h s

theorem Blind.meters {f : Sys → Exec (α × Sys)} (h : Blind f) : Meters f f := by
  intro s r t hf
  obtain ⟨hquota, hblind⟩ := h s r t hf
  exact ⟨0, hquota, fun quota => ⟨fun _ => hblind quota, fun hlt => absurd hlt (Nat.not_lt_zero _)⟩⟩

theorem Meters.bind {f f' : Sys → Exec (α × Sys)} {g g' : α → Sys → Exec (β × Sys)}
    (hf : Meters f f') (hg : ∀ a, Meters (g a) (g' a)) :
    Meters (fun s => f s >>= fun x => g x.1 x.2) fun s => f' s >>= fun x => g' x.1 x.2 := by
  intro s r t h
  obtain ⟨⟨a, u⟩, hfirst, hrest⟩ := bind_eq_pure h
  obtain ⟨cost, hcost, hcode⟩ := hf s a u hfirst
  obtain ⟨cost', hcost', hcode'⟩ := hg a u r t hrest
  refine ⟨cost + cost', by omega, fun quota => ?_⟩
  beta_reduce
  refine ⟨fun hle => ?_, fun hlt => ?_⟩
  · rw [(hcode quota).1 (by omega), pure_bind]
    rw [(hcode' (quota - cost)).1 (by omega), Nat.sub_sub]
  · by_cases hle : cost ≤ quota
    · rw [(hcode quota).1 hle, pure_bind]
      exact (hcode' (quota - cost)).2 (by omega)
    · exact ((hcode quota).2 (by omega)).bind

/-- The quota check and then the rest. -/
theorem Meters.takeQuota {g g' : Sys → Exec (α × Sys)} (hg : Meters g g') (size : Nat)
    {msg : String} (hmsg : Refused (throw (.panic msg) : Exec Sys)) :
    Meters (fun s => PortalCopy.takeQuota size msg s >>= g)
      fun s => g' (s.withQuota (s.quota + size)) := by
  intro s r t h
  obtain ⟨cost, hcost, hcode⟩ := hg _ r t h
  refine ⟨size + cost, ?_, fun quota => ⟨fun hle => ?_, fun hlt => ?_⟩⟩
  · rw [hcost, withQuota_quota]
    omega
  · unfold PortalCopy.takeQuota
    beta_reduce
    rw [withQuota_quota, if_neg (by omega), pure_bind]
    show g (s.withQuota (quota - size)) = _
    have hrest := (hcode (quota - size)).1 (by omega)
    rw [withQuota_withQuota] at hrest
    rw [hrest, Nat.sub_sub]
  · unfold PortalCopy.takeQuota
    beta_reduce
    rw [withQuota_quota]
    by_cases hsize : quota < size
    · rw [if_pos hsize]
      exact hmsg.bind
    · rw [if_neg hsize, pure_bind]
      show Refused (g (s.withQuota (quota - size)))
      have hrest := (hcode (quota - size)).2 (by omega)
      rwa [withQuota_withQuota] at hrest

/-- An allocation and then the rest. -/
theorem Meters.alloc (env : QuotaEnv) (d : Nat) (o : Obj) {g g' : Nat → Bool → Sys → Exec (α × Sys)}
    (hg : ∀ a b, Meters (g a b) (g' a b)) :
    Meters (fun s => PortalCopy.alloc env.toEnv d o s >>= fun x => g x.1 x.2.1 x.2.2)
      fun s => PortalCopy.alloc env.toEnv d o s >>= fun x => g' x.1 x.2.1 x.2.2 := by
  intro s r t h
  obtain ⟨⟨a, b, u⟩, halloc, hrest⟩ := bind_eq_pure h
  obtain ⟨hquota, hblind⟩ := allocIn_blind halloc
  obtain ⟨cost, hcost, hcode⟩ := hg a b u r t hrest
  refine ⟨cost, by omega, fun quota => ?_⟩
  beta_reduce
  have halloc' : PortalCopy.alloc env.toEnv d o (s.withQuota quota) =
    pure (a, b, u.withQuota quota) := hblind quota
  rw [halloc', pure_bind]
  exact hcode quota

/-- An entry into the table and then the rest. -/
theorem Meters.addToRefTable {g g' : Sys → Exec (α × Sys)} (hg : Meters g g') {a b : Nat} :
    Meters (fun s => PortalCopy.addToRefTable a b s >>= g)
      fun s => PortalCopy.addToRefTable a b s >>= g' := by
  intro s r t h
  obtain ⟨u, hadd, hrest⟩ := bind_eq_pure h
  obtain ⟨hquota, hblind⟩ := addToRefTable_blind hadd
  obtain ⟨cost, hcost, hcode⟩ := hg u r t hrest
  refine ⟨cost, by omega, fun quota => ?_⟩
  beta_reduce
  rw [hblind quota, pure_bind]
  exact hcode quota

theorem Meters.ite (cond : Prop) [Decidable cond] {f f' g g' : Sys → Exec (α × Sys)}
    (hf : Meters f f') (hg : Meters g g') :
    Meters (fun s => if cond then f s else g s) fun s => if cond then f' s else g' s := by
  by_cases hcond : cond
  · simp only [if_pos hcond]
    exact hf
  · simp only [if_neg hcond]
    exact hg

theorem Meters.update (a : α) {f : Sys → Sys}
    (hf : ∀ s quota, f (s.withQuota quota) = (f s).withQuota quota) :
    Meters (fun s => Pure.pure (a, f s)) fun s => Pure.pure (a, f s) := by
  refine Blind.meters ?_
  intro s r t h
  cases h
  refine ⟨?_, fun quota => ?_⟩
  · have hself := hf s s.quota
    rw [withQuota_self] at hself
    rw [hself]
    rfl
  · beta_reduce
    rw [hf]

theorem Meters.ret (a : α) : Meters (fun s => Pure.pure (a, s)) fun s => Pure.pure (a, s) :=
  Meters.update a fun _ _ => rfl

/-- The end of a copy: a new object is entered into the table. -/
theorem meters_enter (obj a : Nat) :
    Meters (fun s => PortalCopy.addToRefTable obj a s >>= fun s => Pure.pure (a, s))
      fun s => PortalCopy.addToRefTable obj a s >>= fun s => Pure.pure (a, s) :=
  (Meters.ret a).addToRefTable

end Meters

/-! ## The copy routines -/

section Routines

variable {env : QuotaEnv} {src dst obj : Nat} {o : Obj} {copy copy' : Nat → Sys → Exec (Nat × Sys)}

theorem copyLeaf_meters (env : QuotaEnv) (dst obj : Nat) (o : Obj) :
    Meters (copyLeaf env.toEnv dst (o.size env.toEnv) obj o) (measureLeaf env.toEnv dst obj o) := by
  have hrest := Meters.alloc env dst o fun a b =>
    Meters.ite (b = true) (Meters.ret restartMark) (meters_enter obj a)
  exact hrest.takeQuota _ (.inl rfl)

theorem copyMemory_meters {vtable dz : Nat} :
    Meters (copyMemory env.toEnv dst obj vtable dz)
      (measureMemory env.toEnv dst obj vtable dz) := by
  have hblind : Blind (allocUnchecked env.toEnv dst (.memory vtable dz)) :=
    allocUnchecked_blind dst (.memory vtable dz)
  have hrest := hblind.meters.bind fun a => meters_enter obj a
  exact hrest.takeQuota _ (.inl rfl)

theorem copyCpustate_meters {vtable : Nat} :
    Meters (copyCpustate env.toEnv src dst obj vtable)
      (measureCpustate env.toEnv src dst obj vtable) := by
  have hrest := Meters.alloc env dst (.foreignCpustate vtable obj) fun a b =>
    Meters.alloc env dst (.domain 0 src (env.domainId src)) fun _ b' =>
      Meters.ite ((b || b') = true) (Meters.ret restartMark) (meters_enter obj a)
  exact hrest.takeQuota _ (.inl rfl)

/-- The contents of an object or an array. -/
theorem copyWords_meters (hcopy : ∀ ref, Meters (copy ref) (copy' ref)) (target : Nat)
    (map : List Bool) (k : Nat) :
    Meters (copyWords copy obj target map k) (copyWords copy' obj target map k) := by
  induction map generalizing k with
  | nil => exact Meters.ret true
  | cons b map ih =>
    cases b with
    | false =>
      intro s r t h
      exact ih (k + 1) (s.setWord target k (s.word obj k)) r t h
    | true =>
      intro s r t h
      have hrest : ∀ ref, Meters
          (fun s => if ref = restartMark then pure (false, s)
            else copyWords copy obj target map (k + 1) (s.setWord target k ref))
          fun s => if ref = restartMark then pure (false, s)
            else copyWords copy' obj target map (k + 1) (s.setWord target k ref) := by
        intro ref
        refine Meters.ite (ref = restartMark) (Meters.ret false) ?_
        intro s r t h
        exact ih (k + 1) (s.setWord target k ref) r t h
      exact (hcopy (s.word obj k)).bind hrest s r t h

theorem copyPortal_meters :
    Meters (copyPortal env.toEnv dst obj) (measurePortal env.toEnv dst obj) := by
  intro s
  by_cases hzero : obj = 0
  · refine (Meters.ret 0).at s (fun quota => ?_) ?_
    · exact if_pos hzero
    · exact if_pos hzero
  cases hobj : s.objs obj with
  | none =>
    apply metersAt_of_throw
    unfold measurePortal
    rw [if_neg hzero, hobj]
  | some o =>
    cases o with
    | portal vtable targetDomain targetDomainID index =>
      by_cases hhome : targetDomainID = env.domainId dst ∧
          ¬ (targetDomainID = 0 ∧ targetDomain = 0 ∧ index = 0)
      · cases hentry : s.services dst index with
        | dep d =>
          refine (Meters.ret d.obj).at s (fun quota => ?_) ?_
          · have hobj' : (s.withQuota quota).objs obj = _ := hobj
            have hentry' : (s.withQuota quota).services dst index = _ := hentry
            simp only [copyPortal, if_neg hzero, hobj', if_pos hhome, hentry']
          · simp only [measurePortal, if_neg hzero, hobj, if_pos hhome, hentry]
        | free =>
          apply metersAt_of_throw
          simp only [measurePortal, if_neg hzero, hobj, if_pos hhome, hentry]
          rfl
        | changing =>
          apply metersAt_of_throw
          simp only [measurePortal, if_neg hzero, hobj, if_pos hhome, hentry]
          rfl
      · refine (copyLeaf_meters env dst obj
          (.portal vtable targetDomain targetDomainID index)).at s (fun quota => ?_) ?_
        · have hobj' : (s.withQuota quota).objs obj = _ := hobj
          simp only [copyPortal, if_neg hzero, hobj', if_neg hhome]
          rfl
        · simp only [measurePortal, if_neg hzero, hobj, if_neg hhome]
    | _ =>
      apply metersAt_of_throw
      unfold measurePortal
      rw [if_neg hzero, hobj]

theorem clearArray_blind (target size : Nat) (s : Sys) (quota : Nat) :
    clearArray target size (s.withQuota quota) = (clearArray target size s).withQuota quota := by
  unfold clearArray
  induction List.range size generalizing s with
  | nil => rfl
  | cons k l ih => exact ih (s.setWord target k 0)

theorem copyArray_meters (hcopy : ∀ ref, Meters (copy ref) (copy' ref)) (arrayClass size : Nat) :
    Meters (copyArray env.toEnv copy dst obj arrayClass size)
      (measureWords env.toEnv copy' dst obj (.array arrayClass (List.replicate size 0))
        (arrayMap env.toEnv arrayClass size)) := by
  have hlength : (List.replicate size 0).length = size := List.length_replicate
  have hend : ∀ target, Meters
      (fun s => copyWords copy obj target (arrayMap env.toEnv arrayClass size) 0 s >>= fun x =>
        if x.1 = true then pure (target, x.2)
        else pure (restartMark, clearArray target size x.2))
      fun s => copyWords copy' obj target (arrayMap env.toEnv arrayClass size) 0 s >>= fun x =>
        if x.1 = true then pure (target, x.2)
        else pure (restartMark, clearArray target size x.2) := by
    intro target
    exact (copyWords_meters hcopy target _ 0).bind fun done =>
      Meters.ite (done = true) (Meters.ret target)
        (Meters.update restartMark (clearArray_blind target size))
  have hrest := Meters.alloc env dst (.array arrayClass (List.replicate size 0)) fun a b =>
    Meters.ite (b = true) (Meters.ret restartMark) ((hend a).addToRefTable (a := obj) (b := a))
  have hcode := hrest.takeQuota (GcNew.objsizeArray32bit size) (.inr rfl)
  intro s
  refine hcode.at s (fun quota => rfl) ?_
  unfold measureWords Sys.count Obj.size
  simp only [hlength]

theorem copyObject_meters (hcopy : ∀ ref, Meters (copy ref) (copy' ref)) (cl : Nat) :
    Meters (copyObject env.toEnv copy src dst obj cl)
      (measureObject env.toEnv copy' src dst obj cl) := by
  intro s
  cases hportal : (env.classDesc cl).isPortal with
  | true =>
    have hblind : Blind (portalAutoPromo env.toEnv src obj cl) := portalAutoPromo_blind src obj cl
    cases hloaded : env.loaded dst cl with
    | true =>
      intro r t h
      unfold measureObject at h
      simp only [hportal, hloaded, if_true] at h
      obtain ⟨_, _, h⟩ := bind_eq_pure h
      obtain ⟨_, h, _⟩ := bind_eq_pure h
      cases h
    | false =>
      have hrest : ∀ proxy, Meters (copyPortal env.toEnv dst proxy)
          (measurePortal env.toEnv dst proxy) := fun _ => copyPortal_meters
      refine (hblind.meters.bind hrest).at s (fun quota => ?_) ?_
      · unfold copyObject
        simp only [hportal, hloaded, if_true, Bool.false_eq_true, if_false]
      · unfold measureObject
        simp only [hportal, hloaded, if_true, Bool.false_eq_true, if_false]
  | false =>
    have hend : ∀ target, Meters
        (fun s => copyWords copy obj target (objectMap env.toEnv cl) 0 s >>= fun x =>
          if x.1 = true then pure (target, x.2) else pure (restartMark, x.2))
        fun s => copyWords copy' obj target (objectMap env.toEnv cl) 0 s >>= fun x =>
          if x.1 = true then pure (target, x.2) else pure (restartMark, x.2) := by
      intro target
      exact (copyWords_meters hcopy target _ 0).bind fun done =>
        Meters.ite (done = true) (Meters.ret target) (Meters.ret restartMark)
    have hrest := Meters.alloc env dst
      (.object cl (List.replicate (env.classDesc cl).instanceSize 0)) fun a b =>
      Meters.ite (b = true) (Meters.ret restartMark) ((hend a).addToRefTable (a := obj) (b := a))
    refine (hrest.takeQuota (GcNew.objsizeObject (env.classDesc cl).instanceSize)
      (.inl rfl)).at s (fun quota => ?_) ?_
    · unfold copyObject
      simp only [hportal, Bool.false_eq_true, if_false]
    · unfold measureObject
      simp only [hportal, Bool.false_eq_true, if_false]
      rfl

/-- The part of `copy_reference_internal` for an object that has not been copied yet. -/
def copyNew (env : Env) (copy : (room ref : Nat) → Sys → Exec (Nat × Sys)) (src dst room ref : Nat) :
    Obj → Sys → Exec (Nat × Sys)
  | .object cl _, s => do
    let room := room - env.frames.object
    checkStackSize room 128
    copyObject env (copy (room - env.frames.field)) src dst ref cl s
  | .portal _ _ _ _, s => copyPortal env dst ref s
  | .memory vtable dz, s => copyMemory env dst ref vtable dz s
  | .domain vtable domain domainID, s =>
    copyLeaf env dst HeapWalk.objsizeDomain ref (.domain vtable domain domainID) s
  | .array arrayClass data, s =>
    copyArray env (copy (room - env.frames.element)) dst ref arrayClass data.length s
  | .external, s => pure (ref, s)
  | .cpustate vtable, s => copyCpustate env src dst ref vtable s
  | .foreignCpustate _ _, _ => throw (.panic "copy foreign cpustate not yet implemented")
  | .atomvar, _ =>
    throw (.throw .runtimeException "AtomicVariable cannot be copied between domains")
  | _, _ => throw (.panic "UNKNOWN OBJECT TYPE")

theorem copyReferenceInternal_new {env : Env} {fuel room ref : Nat} {s : Sys} (hzero : ref ≠ 0)
    (hsame : src ≠ dst) (hlookup : s.copied.lookup ref = none)
    (hvalid : isValidHeapRef env s src ref) (hobj : s.objs ref = some o) :
    copyReferenceInternal env src dst (fuel + 1) room ref s = checkStackSize room 128 >>= fun _ =>
      copyNew env (copyReferenceInternal env src dst fuel) src dst room ref o s := by
  rw [copyReferenceInternal, if_neg hzero]
  simp only [if_neg hsame, hlookup, hvalid, hobj, not_true_eq_false, if_false]
  cases o with
  | _ => rfl

theorem copyNew_meters (env : QuotaEnv) {copy copy' : (room ref : Nat) → Sys → Exec (Nat × Sys)}
    (hcopy : ∀ room ref, Meters (copy room ref) (copy' room ref)) (src dst room ref : Nat) (o : Obj) :
    Meters (copyNew env.toEnv copy src dst room ref o)
      (measureNew env.toEnv copy' src dst room ref o) := by
  cases o with
  | object cl data => exact (copyObject_meters (hcopy _) cl).checked _ _
  | portal vtable targetDomain targetDomainID index => exact copyPortal_meters
  | memory vtable dz => exact copyMemory_meters
  | domain vtable domain domainID => exact copyLeaf_meters env dst ref _
  | array arrayClass data => exact copyArray_meters (hcopy _) arrayClass data.length
  | external => exact Meters.ret ref
  | cpustate vtable => exact copyCpustate_meters
  | foreignCpustate vtable thread => exact fun s => metersAt_of_throw rfl
  | atomvar => exact fun s => metersAt_of_throw rfl
  | service => exact fun s => metersAt_of_throw rfl
  | other => exact fun s => metersAt_of_throw rfl

theorem copyReferenceInternal_meters (src dst fuel room ref : Nat) :
    Meters (copyReferenceInternal env.toEnv src dst fuel room ref)
      (measureReferenceInternal env.toEnv src dst fuel room ref) := by
  induction fuel generalizing room ref with
  | zero =>
    intro s r t h
    cases h
  | succ fuel ih =>
    intro s
    by_cases hzero : ref = 0
    · refine (Meters.ret 0).at s (fun quota => ?_) ?_
      · exact if_pos hzero
      · exact if_pos hzero
    by_cases hsame : src = dst
    · refine ((Meters.ret ref).checked room 128).at s (fun quota => ?_) ?_
      · simp only [copyReferenceInternal, if_neg hzero, if_pos hsame]
      · simp only [measureReferenceInternal, if_neg hzero, if_pos hsame]
    cases hlookup : s.copied.lookup ref with
    | some target =>
      refine ((Meters.ret target).checked room 128).at s (fun quota => ?_) ?_
      · have hlookup' : (s.withQuota quota).copied.lookup ref = some target := hlookup
        simp only [copyReferenceInternal, if_neg hzero, if_neg hsame, hlookup']
      · simp only [measureReferenceInternal, if_neg hzero, if_neg hsame, hlookup]
    | none =>
      have hmeasure : measureReferenceInternal env.toEnv src dst (fuel + 1) room ref s =
          checkStackSize room 128 >>= fun _ =>
            if ¬ isValidHeapRef env.toEnv s src ref then throw (.panic "invalref")
            else match s.objs ref with
              | some o => measureNew env.toEnv (measureReferenceInternal env.toEnv src dst fuel) src dst
                  room ref o s
              | none => throw (.panic "UNKNOWN OBJECT TYPE") := by
        simp only [measureReferenceInternal, if_neg hzero, if_neg hsame, hlookup]
      by_cases hvalid : isValidHeapRef env.toEnv s src ref
      · rw [if_neg (not_not.mpr hvalid)] at hmeasure
        cases hobj : s.objs ref with
        | none =>
          rw [hobj] at hmeasure
          intro r t h
          obtain ⟨_, -, h⟩ := bind_eq_pure (hmeasure ▸ h)
          cases h
        | some o =>
          rw [hobj] at hmeasure
          refine ((copyNew_meters env ih src dst room ref o).checked room 128).at s (fun quota => ?_) hmeasure
          exact copyReferenceInternal_new hzero hsame hlookup hvalid hobj
      · rw [if_pos hvalid] at hmeasure
        intro r t h
        obtain ⟨_, -, h⟩ := bind_eq_pure (hmeasure ▸ h)
        cases h

/-- A copy takes from the quota the words of the objects that it makes. -/
theorem copyReference_meters (src dst fuel ref : Nat) :
    Meters (copyReference env.toEnv src dst fuel ref)
      (measureReference env.toEnv src dst fuel ref) :=
  (copyReferenceInternal_meters src dst fuel _ ref).checked _ _

end Routines

/-! ## All parameters -/

section Params

variable {env : QuotaEnv} {α β γ : Type} {c : Call} {p : Param} {checked : Bool} {fuel : Nat}

theorem Words.total_add (w w' : Words) : (w.add w').total = w.total + w'.total := by
  unfold Words.total Words.add
  simp only [List.sum_append]
  omega

/-- The quota pays for all attempts. -/
def MetersWords (code : Sys → Exec (α × Sys)) (free : Sys → Exec (α × Words × Sys)) : Prop :=
  ∀ s r w t, free s = pure (r, w, t) → ∀ quota,
    (w.total ≤ quota → code (s.withQuota quota) = pure (r, t.withQuota (quota - w.total))) ∧
    (quota < w.total → Refused (code (s.withQuota quota)))

theorem MetersWords.ret (a : α) : MetersWords (fun s => Pure.pure (a, s))
    fun s => Pure.pure (a, Words.zero, s) := by
  intro s r w t h quota
  cases h
  exact ⟨fun _ => rfl, fun hlt => absurd hlt (Nat.not_lt_zero _)⟩

/-- Two parameters after each other. -/
theorem MetersWords.seq {f : Sys → Exec (α × Sys)} {f' : Sys → Exec (α × Words × Sys)}
    {g : Sys → Exec (β × Sys)} {g' : Sys → Exec (β × Words × Sys)} (hf : MetersWords f f')
    (hg : MetersWords g g') (pair : α → β → γ) :
    MetersWords (fun s => f s >>= fun x => g x.2 >>= fun y => pure (pair x.1 y.1, y.2))
      fun s => f' s >>= fun x => g' x.2.2 >>= fun y =>
        pure (pair x.1 y.1, x.2.1.add y.2.1, y.2.2) := by
  intro s r w t h quota
  obtain ⟨⟨a, w₁, u⟩, hfirst, h⟩ := bind_eq_pure h
  obtain ⟨⟨b, w₂, v⟩, hsecond, h⟩ := bind_eq_pure h
  cases h
  have hcode := hf s a w₁ u hfirst quota
  have hcode' := hg u b w₂ v hsecond (quota - w₁.total)
  beta_reduce
  simp only [Words.total_add]
  refine ⟨fun hle => ?_, fun hlt => ?_⟩
  · rw [hcode.1 (by omega), pure_bind, hcode'.1 (by omega), pure_bind, Nat.sub_sub]
  · by_cases hle : w₁.total ≤ quota
    · rw [hcode.1 hle, pure_bind]
      exact (hcode'.2 (by omega)).bind
    · exact (hcode.2 (by omega)).bind

theorem copyParam_meters (attempts : Nat) :
    MetersWords (copyParam env.toEnv c fuel p checked attempts)
      (measureParam env.toEnv c fuel p checked attempts) := by
  induction attempts with
  | zero =>
    intro s r w t h
    cases h
  | succ attempts ih =>
    intro s r w t h quota
    unfold measureParam at h
    unfold copyParam
    obtain ⟨_, hassert, h⟩ := bind_eq_pure h
    obtain ⟨⟨copy, u⟩, hcopy, h⟩ := bind_eq_pure h
    rw [p.blind, hassert, pure_bind]
    obtain ⟨cost, hcost, hcode⟩ := copyReference_meters c.src c.dst fuel (p.value s) _ _ _ hcopy
    have hcost : u.quota = cost := by rw [hcost, withQuota_quota, Nat.zero_add]
    have hcode : _ ∧ _ := hcode quota
    rw [withQuota_withQuota] at hcode
    have hsame : (s.withQuota quota).clearCopied = s.clearCopied.withQuota quota := rfl
    rw [hsame]
    by_cases hmark : copy = restartMark
    · simp only [if_pos hmark] at h
      obtain ⟨⟨copy', w', v⟩, hrest, h⟩ := bind_eq_pure h
      cases h
      have htotal : (⟨w'.copied, u.quota :: w'.abandoned⟩ : Words).total = cost + w'.total := by
        unfold Words.total
        simp only [List.sum_cons, hcost]
        omega
      have hagain := ih u copy' w' v hrest (quota - cost)
      rw [htotal]
      refine ⟨fun hle => ?_, fun hlt => ?_⟩
      · rw [hcode.1 (by omega), pure_bind]
        simp only [if_pos hmark]
        rw [hagain.1 (by omega), Nat.sub_sub]
      · by_cases hle : cost ≤ quota
        · rw [hcode.1 hle, pure_bind]
          simp only [if_pos hmark]
          exact hagain.2 (by omega)
        · exact (hcode.2 (by omega)).bind
    · simp only [if_neg hmark] at h
      cases h
      have htotal : (⟨t.quota, []⟩ : Words).total = cost := by
        unfold Words.total
        rw [List.sum_nil, hcost, Nat.add_zero]
      rw [htotal]
      refine ⟨fun hle => ?_, fun hlt => ?_⟩
      · rw [hcode.1 hle, pure_bind]
        simp only [if_neg hmark]
      · exact (hcode.2 hlt).bind

theorem copyArg_meters :
    MetersWords (copyArg env.toEnv c fuel p) (measureArg env.toEnv c fuel p) := by
  intro s r w t h quota
  unfold measureArg at h
  unfold copyArg
  rw [p.blind]
  by_cases hzero : p.value s = 0
  · rw [if_pos hzero] at h ⊢
    exact MetersWords.ret 0 s r w t h quota
  · rw [if_neg hzero] at h ⊢
    by_cases hnum : p.isRef = false ∨ c.toDomainZero = true
    · rw [if_pos hnum] at h ⊢
      exact MetersWords.ret (p.value s) s r w t h quota
    · rw [if_neg hnum] at h ⊢
      exact copyParam_meters fuel s r w t h quota

theorem copyArgs_meters (ps : List Param) :
    MetersWords (copyArgs env.toEnv c fuel ps) (measureArgs env.toEnv c fuel ps) := by
  induction ps with
  | nil => exact MetersWords.ret []
  | cons p ps ih => exact copyArg_meters.seq ih List.cons

theorem copyPortalParameter_meters :
    MetersWords (copyPortalParameter env.toEnv c fuel)
      (measurePortalParameter env.toEnv c fuel) := by
  intro s r w t h quota
  unfold measurePortalParameter at h
  unfold copyPortalParameter
  rw [c.portalParameter.blind]
  by_cases hzero : c.portalParameter.value s = 0
  · rw [if_pos hzero] at h ⊢
    exact MetersWords.ret none s r w t h quota
  · rw [if_neg hzero] at h ⊢
    obtain ⟨⟨copy, w', u⟩, hcopy, h⟩ := bind_eq_pure h
    cases h
    have hcode := copyParam_meters fuel s copy w t hcopy quota
    refine ⟨fun hle => ?_, fun hlt => ?_⟩
    · rw [hcode.1 hle, pure_bind]
    · exact (hcode.2 hlt).bind

/-- The quota has to pay for all attempts at all parameters. -/
theorem receiveParams_meters {s t : Sys} {result : Option Nat × List Nat} {w : Words}
    (h : measureParams env.toEnv c fuel s = pure (result, w, t)) :
    (w.total ≤ receivePortalQuota → receiveParams env.toEnv c fuel s =
      pure (result, t.withQuota (receivePortalQuota - w.total))) ∧
    (receivePortalQuota < w.total → Refused (receiveParams env.toEnv c fuel s)) :=
  (copyPortalParameter_meters.seq (copyArgs_meters c.params) Prod.mk) s result w t h
    receivePortalQuota

/-- **A call is accepted and charged for its copies exactly if nothing has been charged for attempts
that were given up**, or the copies are too large anyway. -/
theorem contract_iff_nothing_abandoned {s t : Sys} {result : Option Nat × List Nat} {w : Words}
    (h : measureParams env.toEnv c fuel s = pure (result, w, t)) :
    Contract env.toEnv c fuel s result w.copied ↔
      w.abandoned.sum = 0 ∨ receivePortalQuota < w.copied := by
  have hcode := receiveParams_meters h
  have htotal : w.total = w.copied + w.abandoned.sum := rfl
  constructor
  · intro hcontract
    by_cases hfits : w.copied ≤ receivePortalQuota
    · left
      obtain ⟨u, haccepted, hcharged⟩ := hcontract.accepted hfits
      by_cases hall : w.total ≤ receivePortalQuota
      · rw [hcode.1 hall] at haccepted
        obtain rfl : t.withQuota (receivePortalQuota - w.total) = u := by
          cases haccepted
          rfl
        rw [withQuota_quota] at hcharged
        omega
      · have hrefused := hcode.2 (by omega)
        rw [haccepted] at hrefused
        rcases hrefused with heq | heq
        · cases heq
        · cases heq
    · right
      omega
  · intro hcond
    refine ⟨fun hfits => ?_, fun hlarge => hcode.2 (by omega)⟩
    have hzero : w.abandoned.sum = 0 := by omega
    refine ⟨_, hcode.1 (by omega), ?_⟩
    rw [withQuota_quota]
    omega

end Params

/-! ## One array

Domain 1 passes an array of numbers to domain 2. -/

section OneArray

/-- The array is at address 100, and copies are put at 2000 and after. -/
def arrayEnv (collects : Nat → Bool) : QuotaEnv where
  frames := ⟨64, 64, 64, 64⟩
  room := 4096
  classDesc := fun _ => ⟨0, [], false, none⟩
  arrayName := fun _ => ['[', 'I']
  heapOf := fun addr => if addr < 1000 then some 1 else some 2
  domainId := id
  loaded := fun _ _ => false
  place := fun _ _ n => some ⟨2000 + n, collects n⟩
  collect := fun _ s => s
  blind := fun _ _ _ => rfl

def arraySys (size : Nat) : Sys where
  objs := fun addr => if addr = 100 then some (.array 0 (List.replicate size 0)) else none
  services := fun _ _ => .free
  copied := []
  maxCopied := 1000
  quota := 0
  allocs := 0

def constParam (isRef : Bool) (value : Nat) : Param := ⟨isRef, fun _ => value, fun _ _ => rfl⟩

def arrayCall : Call where
  src := 1
  dst := 2
  toDomainZero := false
  portalParameter := constParam true 0
  params := [constParam true 100]

/-- Numbers are copied without any effect on the quota. -/
theorem copyWords_numbers (copy : Nat → Sys → Exec (Nat × Sys)) (obj target size k : Nat)
    (s : Sys) :
    ∃ t, copyWords copy obj target (List.replicate size false) k s = pure (true, t) ∧
      t.quota = s.quota := by
  induction size generalizing k s with
  | zero => exact ⟨s, rfl, rfl⟩
  | succ size ih =>
    obtain ⟨t, ht, hquota⟩ := ih (k + 1) (s.setWord target k (s.word obj k))
    exact ⟨t, ht, hquota⟩

/-- The array is there, and there is room for copies. -/
structure ArrayAt (size : Nat) (s : Sys) : Prop where
  objs : s.objs 100 = some (.array 0 (List.replicate size 0))
  room : ∀ n ≥ s.allocs, s.objs (2000 + n) = none
  maxCopied : s.maxCopied = 1000
  allocs : s.allocs ≤ 1

/-- The object of an allocation. -/
def Sys.put (s : Sys) (o : Obj) : Sys :=
  { s with
    allocs := s.allocs + 1
    objs := Function.update s.objs (2000 + s.allocs) (some o) }

variable {collects : Nat → Bool} {size fuel : Nat} {s : Sys} {o : Obj}

theorem alloc_arrayEnv (h : ArrayAt size s) :
    alloc (arrayEnv collects).toEnv 2 o s =
      pure (2000 + s.allocs, collects s.allocs, s.put o) := by
  have hallocs := h.allocs
  have hplace : (arrayEnv collects).place 2 true s.allocs =
    some ⟨2000 + s.allocs, collects s.allocs⟩ := rfl
  have hstays : (if collects s.allocs = true then
      (arrayEnv collects).collect 2 { s with allocs := s.allocs + 1 }
      else { s with allocs := s.allocs + 1 }) = { s with allocs := s.allocs + 1 } := ite_self _
  have hheap : (arrayEnv collects).heapOf (2000 + s.allocs) = some 2 := if_neg (by omega)
  have hmark : 2000 + s.allocs ≠ restartMark := by
    unfold restartMark
    omega
  have hzero : 2000 + s.allocs ≠ 0 := by omega
  unfold alloc
  rw [allocIn_some hplace]
  simp only [hstays]
  unfold allocAt
  rw [if_pos ⟨hzero, hmark, hheap, h.room s.allocs (Nat.le_refl _)⟩]
  rfl

/-- An attempt up to the words of the array. -/
theorem measureReference_arrayEnv (h : ArrayAt size s) :
    measureReference (arrayEnv collects).toEnv 1 2 (fuel + 1) 100 (s.clearCopied.withQuota 0) =
      measureWords (arrayEnv collects).toEnv
        (measureReferenceInternal (arrayEnv collects).toEnv 1 2 fuel (4096 - 64 - 64)) 2 100
        (.array 0 (List.replicate size 0)) (List.replicate size false)
        (s.clearCopied.withQuota 0) := by
  have hobj : (s.clearCopied.withQuota 0).objs 100 = _ := h.objs
  have hvalid : isValidHeapRef (arrayEnv collects).toEnv (s.clearCopied.withQuota 0) 1 100 :=
    .inl rfl
  have hlookup : (s.clearCopied.withQuota 0).copied.lookup 100 = none := rfl
  have hroom : checkStackSize 4096 128 = pure () := rfl
  have hroom' : checkStackSize (4096 - 64) 128 = pure () := rfl
  show (checkStackSize 4096 128 >>= fun _ =>
    measureReferenceInternal (arrayEnv collects).toEnv 1 2 (fuel + 1) (4096 - 64) 100 _) = _
  rw [hroom, pure_bind, measureReferenceInternal, if_neg (by decide), hroom', pure_bind,
    if_neg (by decide), hlookup]
  simp only [hvalid, hobj, not_true_eq_false, if_false]
  unfold measureNew
  simp only [List.length_replicate]
  rfl

/-- The array is counted and its copy allocated. -/
theorem alloc_counted (h : ArrayAt size s) :
    alloc (arrayEnv collects).toEnv 2 (.array 0 (List.replicate size 0))
        ((s.clearCopied.withQuota 0).count (arrayEnv collects).toEnv
          (.array 0 (List.replicate size 0))) =
      pure (2000 + s.allocs, collects s.allocs,
        (s.clearCopied.withQuota (size + 5)).put (.array 0 (List.replicate size 0))) := by
  have hcount : (s.clearCopied.withQuota 0).count (arrayEnv collects).toEnv
      (.array 0 (List.replicate size 0)) = s.clearCopied.withQuota (size + 5) := by
    unfold Sys.count Obj.size GcNew.objsizeArray32bit
    simp only [List.length_replicate, withQuota_quota, withQuota_withQuota, Nat.zero_add]
  have hat : ArrayAt size (s.clearCopied.withQuota (size + 5)) :=
    ⟨h.objs, h.room, h.maxCopied, h.allocs⟩
  rw [hcount]
  exact alloc_arrayEnv hat

/-- The first allocation starts a collection. -/
theorem measureReference_given_up (h : ArrayAt size s) (hzero : s.allocs = 0)
    (hcollects : collects s.allocs = true) :
    ∃ t, measureReference (arrayEnv collects).toEnv 1 2 (fuel + 1) 100
        (s.clearCopied.withQuota 0) = pure (restartMark, t) ∧ t.quota = size + 5 ∧
      t.allocs = 1 ∧ ArrayAt size t := by
  refine ⟨(s.clearCopied.withQuota (size + 5)).put (.array 0 (List.replicate size 0)), ?_, rfl,
    congrArg Nat.succ hzero, ?_, ?_, h.maxCopied, ?_⟩
  · rw [measureReference_arrayEnv h]
    unfold measureWords
    rw [alloc_counted h, hcollects, pure_bind]
    rfl
  · show Function.update s.objs (2000 + s.allocs) _ 100 = _
    rw [Function.update_of_ne (by omega)]
    exact h.objs
  · intro n hn
    have hn : s.allocs + 1 ≤ n := hn
    show Function.update s.objs (2000 + s.allocs) _ (2000 + n) = none
    rw [Function.update_of_ne (by omega)]
    exact h.room n (by omega)
  · show s.allocs + 1 ≤ 1
    omega

/-- No collection. -/
theorem measureReference_done (h : ArrayAt size s) (hcollects : collects s.allocs = false) :
    ∃ t, measureReference (arrayEnv collects).toEnv 1 2 (fuel + 1) 100
        (s.clearCopied.withQuota 0) = pure (2000 + s.allocs, t) ∧ t.quota = size + 5 := by
  let u := (s.clearCopied.withQuota (size + 5)).put (.array 0 (List.replicate size 0))
  have hadd : addToRefTable 100 (2000 + s.allocs) u =
      pure { u with copied := [(100, 2000 + s.allocs)] } := by
    have hroom : ¬ u.copied.length = u.maxCopied := by
      rw [show u.maxCopied = 1000 from h.maxCopied]
      exact fun h => nomatch h
    exact if_neg hroom
  obtain ⟨t, hwords, hquota⟩ := copyWords_numbers
    (measureReferenceInternal (arrayEnv collects).toEnv 1 2 fuel (4096 - 64 - 64)) 100
    (2000 + s.allocs) size 0
    { u with copied := [(100, 2000 + s.allocs)] }
  refine ⟨t, ?_, hquota⟩
  rw [measureReference_arrayEnv h]
  unfold measureWords
  rw [alloc_counted h, hcollects, pure_bind]
  show (addToRefTable 100 (2000 + s.allocs) u >>= _) = _
  rw [hadd, pure_bind, hwords]
  rfl

theorem arrayAt_arraySys (size : Nat) : ArrayAt size (arraySys size) where
  objs := rfl
  room := fun n _ => if_neg (by omega)
  maxCopied := rfl
  allocs := Nat.zero_le 1

/-- A call with one parameter. -/
theorem measureParams_arrayCall {arg : Nat} {w : Words} {t : Sys}
    (h : measureParam (arrayEnv collects).toEnv arrayCall fuel (constParam true 100) true fuel s =
      pure (arg, w, t)) :
    measureParams (arrayEnv collects).toEnv arrayCall fuel s = pure ((none, [arg]), w, t) := by
  have harg : measureArg (arrayEnv collects).toEnv arrayCall fuel (constParam true 100) s =
      pure (arg, w, t) := h
  have hadd : Words.zero.add (w.add .zero) = w := by
    unfold Words.add Words.zero
    simp only [Nat.zero_add, Nat.add_zero, List.nil_append, List.append_nil]
  have hargs : measureArgs (arrayEnv collects).toEnv arrayCall fuel arrayCall.params s =
      pure ([arg], w.add .zero, t) := by
    show (measureArg (arrayEnv collects).toEnv arrayCall fuel (constParam true 100) s >>= _) = _
    rw [harg, pure_bind]
    rfl
  show (measureArgs (arrayEnv collects).toEnv arrayCall fuel arrayCall.params s >>= _) = _
  rw [hargs, pure_bind]
  exact congrArg (fun w => pure ((none, [arg]), w, t)) hadd

/-- Nothing is collected. -/
theorem measureParams_undisturbed (size : Nat) :
    ∃ t, measureParams (arrayEnv fun _ => false).toEnv arrayCall 2 (arraySys size) =
      pure ((none, [2000]), ⟨size + 5, []⟩, t) := by
  have hat := arrayAt_arraySys size
  obtain ⟨t, hdone, hquota⟩ : ∃ t, measureReference (arrayEnv fun _ => false).toEnv 1 2 2 100
      ((arraySys size).clearCopied.withQuota 0) = pure (2000, t) ∧ t.quota = size + 5 :=
    measureReference_done hat rfl
  refine ⟨t, measureParams_arrayCall ?_⟩
  show (measureReference (arrayEnv fun _ => false).toEnv 1 2 2 100
    ((arraySys size).clearCopied.withQuota 0) >>= _) = _
  rw [hdone, pure_bind, ← hquota]
  rfl

/-- The first allocation starts a collection. -/
theorem measureParams_collected (size : Nat) :
    ∃ t, measureParams (arrayEnv fun n => n == 0).toEnv arrayCall 2 (arraySys size) =
      pure ((none, [2001]), ⟨size + 5, [size + 5]⟩, t) := by
  have hat := arrayAt_arraySys size
  obtain ⟨u, hup, hwords, hone, hat'⟩ : ∃ u, measureReference (arrayEnv fun n => n == 0).toEnv 1 2 2
      100 ((arraySys size).clearCopied.withQuota 0) = pure (restartMark, u) ∧
      u.quota = size + 5 ∧ u.allocs = 1 ∧ ArrayAt size u :=
    measureReference_given_up hat rfl rfl
  obtain ⟨t, hdone, hquota⟩ : ∃ t, measureReference (arrayEnv fun n => n == 0).toEnv 1 2 2 100
      (u.clearCopied.withQuota 0) = pure (2001, t) ∧ t.quota = size + 5 := by
    have hcollects : (u.allocs == 0) = false := by rw [hone]; rfl
    have hplace : 2000 + u.allocs = 2001 := by rw [hone]
    rw [← hplace]
    exact measureReference_done hat' hcollects
  refine ⟨t, measureParams_arrayCall ?_⟩
  have hsecond : measureParam (arrayEnv fun n => n == 0).toEnv arrayCall 2 (constParam true 100)
      true 1 u = pure (2001, ⟨t.quota, []⟩, t) := by
    show (measureReference (arrayEnv fun n => n == 0).toEnv 1 2 2 100
      (u.clearCopied.withQuota 0) >>= _) = _
    rw [hdone, pure_bind]
    rfl
  have hup' : measureReference (arrayEnv fun n => n == 0).toEnv arrayCall.src arrayCall.dst 2
      ((constParam true 100).value (arraySys size)) ((arraySys size).clearCopied.withQuota 0) =
      pure (restartMark, u) := hup
  have hmark : (constParam true 100).value (arraySys size) ≠ restartMark :=
    show 100 ≠ restartMark by decide
  rw [measureParam, assert_pos (fun _ => hmark), pure_bind, hup', pure_bind]
  simp only [if_true]
  rw [hsecond, pure_bind, hquota, hwords]

/-- Without a collection an array of three numbers is accepted. -/
theorem contract_undisturbed :
    ∃ t, measureParams (arrayEnv fun _ => false).toEnv arrayCall 2 (arraySys 3) =
        pure ((none, [2000]), ⟨8, []⟩, t) ∧
      Contract (arrayEnv fun _ => false).toEnv arrayCall 2 (arraySys 3) (none, [2000]) 8 := by
  obtain ⟨t, h⟩ := measureParams_undisturbed 3
  exact ⟨t, h, (contract_iff_nothing_abandoned h).mpr (.inl rfl)⟩

/-- An array of 60000 numbers is within the quota, but not twice. -/
theorem not_contract_collected :
    ∃ t, measureParams (arrayEnv fun n => n == 0).toEnv arrayCall 2 (arraySys 60000) =
        pure ((none, [2001]), ⟨60005, [60005]⟩, t) ∧
      ¬ Contract (arrayEnv fun n => n == 0).toEnv arrayCall 2 (arraySys 60000) (none, [2001]) 60005 := by
  obtain ⟨t, h⟩ := measureParams_collected 60000
  refine ⟨t, h, fun hcontract => ?_⟩
  obtain ⟨u, haccepted, -⟩ := hcontract.accepted (by decide)
  have hrefused := (receiveParams_meters h).2 (by decide)
  rw [haccepted] at hrefused
  rcases hrefused with heq | heq
  · cases heq
  · cases heq

end OneArray

end JxCore.PortalCopy
