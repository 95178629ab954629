import XenVmi.Altp2m.State

/-!
# Switching views: the EPTP list, the counters and the vCPUs' view indices

Model of `mm/p2m.c:1897-1939`, `2096-2147`, `2210-2348`, `2513-2521`, of `mm/altp2m.c:23-66`,
`hvm/vmx/vmx.c:1774-1853` and `2910-2946`, and of the altp2m part of `hap_enable`
(`mm/hap/hap.c:501-525`). Four places move a vCPU from one view to another with the same three lines
(`moveVcpu`).
-/

namespace XenVmi.Altp2m

open XenVmi.Ept

def EBUSY : Int := 16

/-! ## The current view of a vCPU -/

/-- `p2m_get_altp2m`: the index of the vCPU's view, `none` for NULL. -/
def p2mGetAltp2m (d : Domain) (v : Nat) : Except Fault (Option Nat) :=
  let index := (d.vcpu v).p2midx
  if index = invalidAltp2m then .ok none
  else if maxAltp2m ≤ index then .error .bugOn
  else .ok (some index)

/-- `atomic_inc` / `atomic_dec` on `active_vcpus`. -/
def P2m.addActive (n : Int) (p : P2m) : P2m := { p with activeVcpus := p.activeVcpus + n }

/-- `atomic_inc` / `atomic_dec` through a pointer to a view. -/
def atomicAdd (d : Domain) (p : Option Nat) (n : Int) : Except Fault Domain :=
  match p with
  | none => .error .nullDeref
  | some i => .ok (d.modP2m i (P2m.addActive n))

/-- Write `vcpu_altp2m(v).p2midx`. -/
def Vcpu.setIdx (idx : Nat) (x : Vcpu) : Vcpu := { x with p2midx := idx }

@[inherit_doc Vcpu.setIdx]
def setP2midx (d : Domain) (v idx : Nat) : Domain := d.modVcpu v (Vcpu.setIdx idx)

def moveVcpu (d : Domain) (v idx : Nat) : Except Fault Domain := do
  let d ← atomicAdd d (← p2mGetAltp2m d v) (-1)
  let d := setP2midx d v idx
  atomicAdd d (← p2mGetAltp2m d v) 1

/-! ## The VMCS of a vCPU -/

def P2m.syncAsr (p : P2m) : P2m := { p with ept := { p.ept with asr := p.physTable } }

/-- The VMCS writes of `vmx_vcpu_update_eptp`. -/
def Vcpu.loadEptp (eptp : Nat) (x : Vcpu) : Vcpu :=
  { x with eptPointer := eptp
           eptpIndex := if x.virtExceptions then x.p2midx else x.eptpIndex }

/-- `vmx_vcpu_update_eptp` once it has picked its p2m: view `i`, or the host p2m. -/
def updateEptpFrom (d : Domain) (v : Nat) (p : Option Nat) : Domain :=
  match p with
  | some i =>
    let d := d.modP2m i P2m.syncAsr
    d.modVcpu v (Vcpu.loadEptp (d.altp2mP2m i).ept.eptp)
  | none =>
    let d := d.setHost d.hostp2m.syncAsr
    d.modVcpu v (Vcpu.loadEptp d.hostp2m.ept.eptp)

def vmxVcpuUpdateEptp (d : Domain) (v : Nat) : Except Fault Domain :=
  if d.altp2mActive then do
    let p ← p2mGetAltp2m d v
    pure (updateEptpFrom d v p)
  else .ok (updateEptpFrom d v none)

def getGfnQueryUnlocked (cfg : Config) (d : Domain) (gfn : Nat) : Nat :=
  (d.hostp2m.getGfnTypeAccess cfg gfn).mfn

/-- The controls `vmx_vcpu_update_vmfunc_ve` computes for a vCPU with the controls `c`. -/
def vmfuncVeControls (cfg : Config) (d : Domain) (veinfoGfn : Nat) (c : BitVec 32) : BitVec 32 :=
  let mask := if cfg.hasVirtExceptions then
      secondaryExecEnableVmFunctions ||| secondaryExecEnableVirtExceptions
    else secondaryExecEnableVmFunctions
  if !d.isDying && d.altp2mActive then
    if cfg.hasVirtExceptions && decide (getGfnQueryUnlocked cfg d veinfoGfn = invalidMfn) then
      (c ||| mask) &&& ~~~secondaryExecEnableVirtExceptions
    else c ||| mask
  else c &&& ~~~mask

/-- What `vmx_vcpu_update_vmfunc_ve` writes on a CPU with VMFUNC. -/
def Vcpu.updateVmfuncVe (cfg : Config) (d : Domain) (x : Vcpu) : Vcpu :=
  let c := vmfuncVeControls cfg d x.veinfoGfn x.secondaryExecControl
  let mfn := getGfnQueryUnlocked cfg d x.veinfoGfn
  if !d.isDying && d.altp2mActive then
    { x with
      secondaryExecControl := c
      vmcsSecondaryExecControl := c
      vmFunctionControl := 1
      eptpListAddr := d.altp2mEptpAddr
      virtExceptionInfo := if cfg.hasVirtExceptions && decide (mfn ≠ invalidMfn) then
          mfn * 4096 else x.virtExceptionInfo }
  else { x with secondaryExecControl := c, vmcsSecondaryExecControl := c }

def vmxVcpuUpdateVmfuncVe (cfg : Config) (d : Domain) (v : Nat) : Domain :=
  if !cfg.hasVmfunc then d else d.modVcpu v (Vcpu.updateVmfuncVe cfg d)

/-! ## Per-vCPU initialisation -/

/-- `altp2m_vcpu_reset`. -/
def Vcpu.reset (x : Vcpu) : Vcpu := { x with p2midx := invalidAltp2m, veinfoGfn := invalidGfn }

@[inherit_doc Vcpu.reset]
def altp2mVcpuReset (d : Domain) (v : Nat) : Domain := d.modVcpu v Vcpu.reset

def altp2mVcpuInitialise (d : Domain) (v : Nat) : Except Fault Domain := do
  let d := setP2midx (altp2mVcpuReset d v) v 0
  let d ← atomicAdd d (← p2mGetAltp2m d v) 1
  vmxVcpuUpdateEptp d v

def altp2mVcpuDestroy (cfg : Config) (d : Domain) (v : Nat) : Except Fault Domain := do
  let d ← match ← p2mGetAltp2m d v with
    | some i => atomicAdd d (some i) (-1)
    | none => pure d
  let d ← vmxVcpuUpdateEptp (altp2mVcpuReset d v) v
  pure (vmxVcpuUpdateVmfuncVe cfg d v)

/-! ## Flushing, creating and destroying views -/

/-- `p2m_flush_table`: the new free list and the new p2m. -/
def p2mFlushTable (freelist : List Nat) (p : P2m) : List Nat × P2m :=
  if p.np2mBase = p2mBaseEaddr then (freelist, p)
  else
    (freelist ++ p.pages.filter (· ≠ p.physTable),
      { p with
        np2mBase := p2mBaseEaddr
        root := fun _ => .leaf EptEntry.zero
        pages := [p.physTable] })

/-- `p2m_flush_table; ept_p2m_uninit; ept_p2m_init` on view `i`. -/
def flushView (cfg : Config) (d : Domain) (i : Nat) : Domain :=
  let r := p2mFlushTable d.freelist (d.altp2mP2m i)
  { d with
    freelist := r.1
    altp2mP2m := Function.update d.altp2mP2m i (eptP2mInit cfg r.2) }

def p2mResetAltp2m (cfg : Config) (d : Domain) (i : Nat) : Domain :=
  (flushView cfg d i).modP2m i fun p => { p with minRemappedGfn := invalidGfn, maxRemappedGfn := 0 }

/-- One round of the loop of `p2m_flush_altp2m`. -/
def flushSlot (cfg : Config) (d : Domain) (i : Nat) : Domain :=
  (flushView cfg d i).setEptp i invalidMfn

def p2mFlushAltp2m (cfg : Config) (d : Domain) : Domain :=
  (List.range maxAltp2m).foldl (flushSlot cfg) d

def p2mInitAltp2mHelper (d : Domain) (i : Nat) : Domain :=
  let d := d.modP2m i fun p =>
    P2m.syncAsr { p with minRemappedGfn := invalidGfn, maxRemappedGfn := 0 }
  d.setEptp i (d.altp2mP2m i).ept.eptp

def p2mInitAltp2mById (d : Domain) (idx : Nat) : Int × Domain :=
  if maxAltp2m ≤ idx then (-EINVAL, d)
  else if d.altp2mEptp idx = invalidMfn then (0, p2mInitAltp2mHelper d idx)
  else (-EINVAL, d)

/-- `p2m_init_next_altp2m`, with the index it hands out. -/
def p2mInitNextAltp2m (d : Domain) : Int × Option Nat × Domain :=
  match (List.range maxAltp2m).find? (fun i => d.altp2mEptp i = invalidMfn) with
  | some i => (0, some i, p2mInitAltp2mHelper d i)
  | none => (-EINVAL, none, d)

def p2mDestroyAltp2mById (cfg : Config) (d : Domain) (idx : Nat) : Int × Domain :=
  if idx = 0 ∨ maxAltp2m ≤ idx then (-EBUSY, d)
  else if d.altp2mEptp idx ≠ invalidMfn ∧ (d.altp2mP2m idx).activeVcpus = 0 then
    (0, flushSlot cfg d idx)
  else (-EBUSY, d)

/-! ## Switching -/

/-- The body of the loops and of the function that switch one vCPU to the valid view `idx`. -/
def switchVcpu (idx : Nat) (d : Domain) (v : Nat) : Except Fault Domain :=
  if idx ≠ (d.vcpu v).p2midx then do
    let d ← moveVcpu d v idx
    vmxVcpuUpdateEptp d v
  else .ok d

def p2mSwitchDomainAltp2mById (d : Domain) (idx : Nat) : Except Fault (Int × Domain) :=
  if maxAltp2m ≤ idx then .ok (-EINVAL, d)
  else if d.altp2mEptp idx ≠ invalidMfn then do
    let d ← (List.range d.vcpus.length).foldlM (switchVcpu idx) d
    pure (0, d)
  else .ok (-EINVAL, d)

def p2mSwitchVcpuAltp2mById (d : Domain) (v idx : Nat) : Except Fault (Bool × Domain) :=
  if maxAltp2m ≤ idx then .ok (false, d)
  else if d.altp2mEptp idx ≠ invalidMfn then do
    let d ← switchVcpu idx d v
    pure (true, d)
  else .ok (false, d)

/-- `p2m_altp2m_check`, what a vm_event response asks for. -/
def p2mAltp2mCheck (d : Domain) (v idx : Nat) : Except Fault Domain :=
  if d.altp2mActive then do
    let r ← p2mSwitchVcpuAltp2mById d v idx
    pure r.2
  else .ok d

/-- `vmx_vcpu_emulate_vmfunc`: whether the instruction completed (`X86EMUL_OKAY`). -/
def vmxVcpuEmulateVmfunc (cfg : Config) (d : Domain) (v eax ecx : Nat) :
    Except Fault (Bool × Domain) :=
  if !cfg.hasVmfunc && d.altp2mActive && decide (eax = 0) then p2mSwitchVcpuAltp2mById d v ecx
  else .ok (false, d)

def p2mFindAltp2mByEptp (d : Domain) (eptp : Nat) : Nat :=
  match (List.range maxAltp2m).find? (fun i =>
    decide (d.altp2mEptp i ≠ invalidMfn) && decide (eptp = (d.altp2mP2m i).ept.eptp)) with
  | some i => i
  | none => invalidAltp2m

/-- The view index `vmx_vmexit_handler` reads at an exit of `v`. -/
def vmexitIdx (d : Domain) (v : Nat) : Nat :=
  if (d.vcpu v).virtExceptions then (d.vcpu v).eptpIndex
  else p2mFindAltp2mByEptp d (d.vcpu v).eptPointer

/-- The altp2m part of `vmx_vmexit_handler`. -/
def vmexitResync (d : Domain) (v : Nat) : Except Fault Domain :=
  if d.altp2mActive && (d.vcpu v).vmFunctions then
    let idx := vmexitIdx d v
    if idx ≠ (d.vcpu v).p2midx then
      if maxAltp2m ≤ idx then .error .bugOn else moveVcpu d v idx
    else .ok d
  else .ok d

/-! ## Setting up: `p2m_init` and `hap_enable` -/

/-- `p2m_initialise` on zeroed memory, for a p2m of class `cls`. -/
def p2mInitialise (cfg : Config) (cls : P2mClass) : P2m :=
  eptP2mInit cfg
    { p2mClass := cls, physTable := 0, root := fun _ => .leaf EptEntry.zero,
      np2mBase := p2mBaseEaddr, activeVcpus := 0, pages := [], defaultAccess := .rwx,
      maxMappedPfn := 0, minRemappedGfn := 0, maxRemappedGfn := 0, globalLogdirty := false,
      logdirtyRanges := [], ept := { eptMt := 0, eptWl := 0, eptAd := false, asr := 0 } }

/-- Run `p2m->set_entry` of one p2m over the pool. -/
def P2m.setEntry (cfg : Config) (freelist : List Nat) (p : P2m) (q : SetArgs) :
    Int × List Nat × P2m :=
  let r := eptSetEntry (p.env cfg) p.ept.asr
    { root := p.root, maxMappedPfn := p.maxMappedPfn,
      pool := { freelist := freelist, pages := p.pages } } q
  (r.1, r.2.pool.freelist,
    { p with root := r.2.root, maxMappedPfn := r.2.maxMappedPfn, pages := r.2.pool.pages })

/-- `p2m_alloc_table`: the root page, and an empty entry for slot zero. -/
def p2mAllocTable (cfg : Config) (freelist : List Nat) (p : P2m) : Int × List Nat × P2m :=
  if p.physTable ≠ 0 then (-EINVAL, freelist, p)
  else
    match p2mAllocPtp { freelist := freelist, pages := p.pages } with
    | none => (-ENOMEM, freelist, p)
    | some (pg, st) =>
      P2m.setEntry cfg st.freelist { p with physTable := pg, pages := st.pages }
        { gfn := 0, mfn := invalidMfn, order := 0, t := .invalid, a := p.defaultAccess, sve := -1 }

/-- The loop of `hap_enable` over the views, leaving at the first failure. -/
def allocViews (cfg : Config) : List Nat → Domain → Int × Domain
  | [], d => (0, d)
  | i :: is, d =>
    let r := p2mAllocTable cfg d.freelist (d.altp2mP2m i)
    let d := { d with freelist := r.2.1, altp2mP2m := Function.update d.altp2mP2m i r.2.2 }
    if r.1 ≠ 0 then (r.1, d) else allocViews cfg is d

/-- The altp2m part of `hap_enable`. -/
def hapEnableAltp2m (cfg : Config) (d : Domain) : Int × Domain :=
  let d := { d with altp2mEptp := fun i => if i < maxEptp then invalidMfn else d.altp2mEptp i }
  let r := allocViews cfg (List.range maxAltp2m) d
  if r.1 ≠ 0 then r else (0, { r.2 with altp2mActive := false })

end XenVmi.Altp2m
