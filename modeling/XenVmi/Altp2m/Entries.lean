import XenVmi.Altp2m.Views

/-!
# The contents of the views: copies, remappings and propagated host changes

Model of `mm/p2m.c:325-366`, `439-472`, `600-633`, `2158-2208`, `2350-2511` and `2523-2586`, and of
the lookup in `hvm/hvm.c:3004-3028`. `p2m_pod_demand_populate` and `mem_sharing_unshare_page` are
parameters (`Config`) that return the writes they make; `Config.podRetries` bounds the rounds of a
lookup that populates.
-/

namespace XenVmi.Altp2m

open XenVmi.Ept

/-- A domain and the machine-to-phys table (`get_gpfn_from_mfn`). -/
structure Machine where
  dom : Domain
  m2p : Nat → Nat

def setGpfnFromMfn (cfg : Config) (m2p : Nat → Nat) (mfn gpfn : Nat) : Nat → Nat :=
  Function.update m2p mfn (if cfg.domCow mfn then sharedM2pEntry else gpfn)

/-! ## `p2m_set_entry` -/

/-- The order `p2m_set_entry` picks for the next piece. -/
def nextOrder (cfg : Config) (gfn mfn todo : Nat) : Nat :=
  if (gfn ||| mfn ||| todo) % 2 ^ 18 = 0 ∧ cfg.has1gb = true then 18
  else if (gfn ||| mfn ||| todo) % 2 ^ 9 = 0 ∧ cfg.has2mb = true then 9
  else 0

section SetEntry

variable {σ : Type} (cfg : Config) (set : σ → SetArgs → Int × σ)

/-- The loop of `p2m_set_entry` over `p2m->set_entry`. -/
def setEntryLoop (t : P2mType) (a : P2mAccess) :
    (fuel : Nat) → σ → (gfn mfn todo : Nat) → Int → Int × σ
  | 0, s, _, _, _, rc => (rc, s)
  | fuel + 1, s, gfn, mfn, todo, rc =>
    if todo = 0 then (rc, s)
    else
      let order := nextOrder cfg gfn mfn todo
      let r := set s { gfn := gfn, mfn := mfn, order := order, t := t, a := a, sve := -1 }
      setEntryLoop t a fuel r.2 (gfn + 2 ^ order)
        (if mfn ≠ invalidMfn then mfn + 2 ^ order else mfn) (todo - 2 ^ order)
        (if r.1 ≠ 0 then r.1 else rc)

def p2mSetEntry (s : σ) (gfn mfn pageOrder : Nat) (t : P2mType) (a : P2mAccess) : Int × σ :=
  setEntryLoop cfg set t a (2 ^ pageOrder) s gfn mfn (2 ^ pageOrder) 0

end SetEntry

/-- `ap2m->set_entry` on view `i`. -/
def altSetEntry (cfg : Config) (i : Nat) (d : Domain) (q : SetArgs) : Int × Domain :=
  let r := P2m.setEntry cfg d.freelist (d.altp2mP2m i) q
  (r.1, { d with freelist := r.2.1, altp2mP2m := Function.update d.altp2mP2m i r.2.2 })

/-! ## Host changes -/

/-- The second phase of `p2m_altp2m_propagate_change`: reset every valid view but `last`. -/
def resetAll (cfg : Config) (last : Nat) (d : Domain) : Domain :=
  (List.range maxAltp2m).foldl (fun d i =>
    if i = last ∨ d.altp2mEptp i = invalidMfn then d else p2mResetAltp2m cfg d i) d

def droppedInView (p : P2m) (q : SetArgs) : Bool :=
  decide (q.mfn = invalidMfn ∧ p.minRemappedGfn ≤ q.gfn ∧ q.gfn ≤ p.maxRemappedGfn)

/-- The loop of `p2m_altp2m_propagate_change`; `last` is `last_reset_idx`. -/
def propagateLoop (cfg : Config) (q : SetArgs) : List Nat → Domain → Option Nat → Domain
  | [], d, _ => d
  | i :: is, d, last =>
    if d.altp2mEptp i = invalidMfn then propagateLoop cfg q is d last
    else if droppedInView (d.altp2mP2m i) q then
      match last with
      | none => propagateLoop cfg q is (p2mResetAltp2m cfg d i) (some i)
      | some j => resetAll cfg j d
    else if ((d.altp2mP2m i).getGfnTypeAccess cfg q.gfn).mfn ≠ invalidMfn then
      propagateLoop cfg q is
        (p2mSetEntry cfg (altSetEntry cfg i) d q.gfn q.mfn q.order q.t q.a).2 last
    else propagateLoop cfg q is d last

def p2mAltp2mPropagateChange (cfg : Config) (d : Domain) (q : SetArgs) : Domain :=
  if d.altp2mActive then propagateLoop cfg q (List.range maxAltp2m) d none else d

/-- `ept_set_entry` on the host p2m. -/
def hostSetEntry (cfg : Config) (d : Domain) (q : SetArgs) : Int × Domain :=
  let r := P2m.setEntry cfg d.freelist d.hostp2m q
  let d := { d with freelist := r.2.1, hostp2m := r.2.2 }
  if r.1 = 0 then (0, p2mAltp2mPropagateChange cfg d q) else (r.1, d)

def HostWrite.apply (cfg : Config) (m : Machine) : HostWrite → Machine
  | .entry gfn mfn order t a =>
    { m with dom := (p2mSetEntry cfg (hostSetEntry cfg) m.dom gfn mfn order t a).2 }
  | .m2p mfn gpfn => { m with m2p := setGpfnFromMfn cfg m.m2p mfn gpfn }

/-! ## Host lookups that may populate or unshare -/

/-- `ept_get_entry` on the host p2m with `P2M_ALLOC`. -/
def hostGetEntryAlloc (cfg : Config) (gfn : Nat) :
    (fuel : Nat) → Machine → Except Fault (Lookup × Machine)
  | 0, _ => .error .spin
  | fuel + 1, m =>
    let r := m.dom.hostp2m.getEntry cfg gfn
    match r.pod with
    | none => .ok (r, m)
    | some order =>
      let w := cfg.podDemandPopulate m.dom gfn order
      let m := w.1.foldl (HostWrite.apply cfg) m
      if w.2 ≠ 0 then .ok (Lookup.none, m)
      else if 0 < order then hostGetEntryAlloc cfg gfn fuel m
      else
        -- a 4K entry is decoded as the population left it
        let p := m.dom.hostp2m
        match eptWalk gfn 3 p.root false with
        | .found level e recalc => .ok (Lookup.decode (p.env cfg) gfn level e recalc, m)
        | e => .ok (Lookup.ofWalk (p.env cfg) gfn e, m)

def hostGetEntry (cfg : Config) (m : Machine) (gfn : Nat) : Except Fault (Lookup × Machine) :=
  hostGetEntryAlloc cfg gfn (cfg.podRetries + 1) m

/-- The unsharing of `__get_gfn_type_access`: unshare a shared page and look it up again. -/
def unshareAndRetry (cfg : Config) (gfn : Nat) (unshare : Bool) (s : Lookup × Machine) :
    Except Fault (Lookup × Machine) :=
  if unshare && s.1.t.isShared then
    hostGetEntry cfg
      ((cfg.memSharingUnsharePage s.2.dom gfn).1.foldl (HostWrite.apply cfg) s.2) gfn
  else .ok s

/-- `__get_gfn_type_access` on the host p2m with `P2M_ALLOC`, and `P2M_UNSHARE` if `unshare`. -/
def hostGetGfnTypeAccess (cfg : Config) (m : Machine) (gfn : Nat) (unshare : Bool) :
    Except Fault (Lookup × Machine) := do
  let s ← hostGetEntry cfg m gfn
  let s ← unshareAndRetry cfg gfn unshare s
  pure (if s.1.t.isBroken then { s.1 with mfn := invalidMfn } else s.1, s.2)

/-! ## Filling a view -/

def roundDown (n order : Nat) : Nat := n - n % 2 ^ order

/-- `p2m_altp2m_lazy_copy`: its result and the view it used. A NULL view reads every gfn as itself.
-/
def p2mAltp2mLazyCopy (cfg : Config) (m : Machine) (v gfn : Nat) :
    Except Fault (Bool × Option Nat × Machine) := do
  match ← p2mGetAltp2m m.dom v with
  | none => pure (false, none, m)
  | some i =>
    if ((m.dom.altp2mP2m i).getGfnTypeAccess cfg gfn).mfn ≠ invalidMfn then
      pure (false, some i, m)
    else
      let h ← hostGetGfnTypeAccess cfg m gfn true
      if h.1.mfn = invalidMfn then pure (false, some i, h.2)
      else
        let s := p2mSetEntry cfg (altSetEntry cfg i) h.2.dom (roundDown gfn h.1.order)
          (roundDown h.1.mfn h.1.order) h.1.order h.1.t h.1.a
        pure (true, some i, { h.2 with dom := s.2 })

/-- The p2m part of `hvm_hap_nested_page_fault`: a lookup in the host p2m, then the lazy copy. -/
def hvmHapNestedPageFault (cfg : Config) (m : Machine) (v gfn : Nat) (write : Bool) :
    Except Fault Machine := do
  let h ← hostGetGfnTypeAccess cfg m gfn write
  if m.dom.altp2mActive then
    let r ← p2mAltp2mLazyCopy cfg h.2 v gfn
    pure r.2.2
  else pure h.2

/-- The table `memaccess` of `p2m_set_altp2m_mem_access`, with `XENMEM_access_default`. -/
def memaccess (dflt : P2mAccess) : Nat → Option P2mAccess
  | 0 => some .n
  | 1 => some .r
  | 2 => some .w
  | 3 => some .rw
  | 4 => some .x
  | 5 => some .rx
  | 6 => some .wx
  | 7 => some .rwx
  | 10 => some dflt
  | _ => none

/-- "Check host p2m if no valid entry in alternate": look `gfn` up in view `i`, fall back to the
host, and copy a superpage of the host first. `none` is `goto out`. -/
def lookupOrCopy (cfg : Config) (m : Machine) (i gfn : Nat) :
    Except Fault (Option Lookup × Machine) := do
  let r := (m.dom.altp2mP2m i).getEntry cfg gfn
  if cfg.mfnValid r.mfn then pure (some r, m)
  else
    let h ← hostGetEntry cfg m gfn
    if !cfg.mfnValid h.1.mfn || decide (h.1.t ≠ .ramRw) then pure (none, h.2)
    else if h.1.order ≠ 0 then
      let s := altSetEntry cfg i h.2.dom
        { gfn := roundDown gfn h.1.order, mfn := roundDown h.1.mfn h.1.order, order := h.1.order,
          t := h.1.t, a := h.1.a, sve := 1 }
      pure (if s.1 ≠ 0 then none else some h.1, { h.2 with dom := s.2 })
    else pure (some h.1, h.2)

/-- `p2m_set_altp2m_mem_access`; `remote` is `current->domain != d`. -/
def p2mSetAltp2mMemAccess (cfg : Config) (m : Machine) (remote : Bool) (idx gfn access : Nat) :
    Except Fault (Int × Machine) :=
  if maxAltp2m ≤ idx ∨ m.dom.altp2mEptp idx = invalidMfn then .ok (-EINVAL, m)
  else
    match memaccess (m.dom.altp2mP2m idx).defaultAccess access with
    | none => .ok (-EINVAL, m)
    | some reqA =>
      if gfn = invalidGfn then
        .ok (0, { m with dom := m.dom.modP2m idx fun p => { p with defaultAccess := reqA } })
      else do
        match ← lookupOrCopy cfg m idx gfn with
        | (none, m) => pure (-EINVAL, m)
        | (some r, m) =>
          let s := altSetEntry cfg idx m.dom
            { gfn := gfn, mfn := r.mfn, order := 0, t := r.t, a := reqA, sve := remote.toInt }
          pure (if s.1 = 0 then 0 else -EINVAL, { m with dom := s.2 })

/-- Frames of this type have their own M2P entry (`p2m_remove_page`). -/
def ownsM2p (t : P2mType) : Bool := !t.isGrant && !t.isShared && !t.isForeign

/-- `p2m_remove_page` on view `i`. -/
def altRemovePage (cfg : Config) (m : Machine) (i gfn mfn pageOrder : Nat) : Int × Machine :=
  let m := if cfg.mfnValid mfn then
      (List.range (2 ^ pageOrder)).foldl (fun m k =>
        if ownsM2p ((m.dom.altp2mP2m i).getEntry cfg (gfn + k)).t then
          { m with m2p := setGpfnFromMfn cfg m.m2p (mfn + k) invalidM2pEntry }
        else m) m
    else m
  let r := p2mSetEntry cfg (altSetEntry cfg i) m.dom gfn invalidMfn pageOrder .invalid
    (m.dom.altp2mP2m i).defaultAccess
  (r.1, { m with dom := r.2 })

/-- Widen `[min_remapped_gfn, max_remapped_gfn]` to hold `gfn`. -/
def noteRemapped (gfn : Nat) (p : P2m) : P2m :=
  { p with
    minRemappedGfn := if gfn < p.minRemappedGfn then gfn else p.minRemappedGfn
    maxRemappedGfn := if p.maxRemappedGfn < gfn then gfn else p.maxRemappedGfn }

def p2mChangeAltp2mGfn (cfg : Config) (m : Machine) (remote : Bool) (idx oldGfn newGfn : Nat) :
    Except Fault (Int × Machine) :=
  if maxAltp2m ≤ idx ∨ m.dom.altp2mEptp idx = invalidMfn then .ok (-EINVAL, m)
  else if newGfn = invalidGfn then
    let mfn := ((m.dom.altp2mP2m idx).getEntry cfg oldGfn).mfn
    .ok (0, if cfg.mfnValid mfn then (altRemovePage cfg m idx oldGfn mfn 0).2 else m)
  else do
    match ← lookupOrCopy cfg m idx oldGfn with
    | (none, m) => pure (-EINVAL, m)
    | (some _, m) =>
      let r := (m.dom.altp2mP2m idx).getEntry cfg newGfn
      let r := if cfg.mfnValid r.mfn then r else m.dom.hostp2m.getEntry cfg newGfn
      if !cfg.mfnValid r.mfn || decide (r.t ≠ .ramRw) then pure (-EINVAL, m)
      else
        let s := altSetEntry cfg idx m.dom
          { gfn := oldGfn, mfn := r.mfn, order := 0, t := r.t, a := r.a, sve := remote.toInt }
        if s.1 = 0 then pure (0, { m with dom := s.2.modP2m idx (noteRemapped newGfn) })
        else pure (-EINVAL, { m with dom := s.2 })

end XenVmi.Altp2m
