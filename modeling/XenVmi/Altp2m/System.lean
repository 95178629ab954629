import XenVmi.Altp2m.Hypercall
import XenVmi.Altp2m.Contents

/-!
# Runs of a domain with altp2m

The operations on one domain after `hap_enable` (`Fresh`), as one step function on a `Machine`.
`StepInvariant` lists what an invariant has to survive.
-/

namespace XenVmi.Altp2m

open XenVmi.Ept XenVmi.Lib

/-! ## Operations -/

inductive Op where
  | hypercall (c : Call) (remote : Bool) (a : Altp2mOp) (cmd : Altp2mCmd)
  | emulateVmfunc (v eax ecx : Nat)
  | vmEventResponse (v idx : Nat)
  /-- A VM exit that finds these values of `EPT_POINTER` and `EPTP_INDEX`. -/
  | vmexit (v eptp idx : Nat)
  | eptViolation (v gfn : Nat) (write : Bool)
  | hostSetEntry (q : SetArgs)
  | setGpfnFromMfn (mfn gpfn : Nat)

def Machine.onVcpu (m : Machine) (v : Nat) (f : Except Fault Domain) : Except Fault Machine :=
  if v < m.dom.vcpus.length then do
    let d ← f
    pure { m with dom := d }
  else .ok m

def Vcpu.exitWith (eptp idx : Nat) (x : Vcpu) : Vcpu :=
  { x with eptPointer := eptp, eptpIndex := idx }

def vmexit (d : Domain) (v eptp idx : Nat) : Except Fault Domain :=
  vmexitResync (d.modVcpu v (Vcpu.exitWith eptp idx)) v

def step (cfg : Config) (m : Machine) : Op → Except Fault Machine
  | .hypercall c remote a cmd => do
    let r ← altp2mOpLocked cfg m c remote a cmd
    pure r.2
  | .emulateVmfunc v eax ecx => m.onVcpu v do
    let r ← vmxVcpuEmulateVmfunc cfg m.dom v eax ecx
    pure r.2
  | .vmEventResponse v idx => m.onVcpu v (p2mAltp2mCheck m.dom v idx)
  | .vmexit v eptp idx => m.onVcpu v (vmexit m.dom v eptp idx)
  | .eptViolation v gfn write =>
    if v < m.dom.vcpus.length then hvmHapNestedPageFault cfg m v gfn write else .ok m
  | .hostSetEntry q => .ok { m with dom := (hostSetEntry cfg m.dom q).2 }
  | .setGpfnFromMfn mfn gpfn => .ok { m with m2p := setGpfnFromMfn cfg m.m2p mfn gpfn }

/-- The index an exit resynchronises to names a valid slot; a host write is of 4K, 2M or 1G. -/
def Op.Admissible (m : Machine) : Op → Prop
  | .vmexit v eptp idx =>
    let d := m.dom.modVcpu v (Vcpu.exitWith eptp idx)
    d.altp2mActive = true → (d.vcpu v).vmFunctions = true →
      vmexitIdx d v < maxAltp2m ∧ d.altp2mEptp (vmexitIdx d v) ≠ invalidMfn
  | .hostSetEntry q => q.order ≤ 18
  | _ => True

def Op.LooksUp : Op → Prop
  | .hypercall _ _ _ cmd => cmd = .setMemAccess ∨ cmd = .changeGfn
  | .eptViolation .. => True
  | _ => False

/-! ## The start -/

/-- The domain `hap_enable` starts from: p2ms as `p2m_init` leaves them, and a table for the host.
-/
structure NewDomain (cfg : Config) (d : Domain) : Prop where
  view : ∀ i < maxAltp2m, d.altp2mP2m i = p2mInitialise cfg .alternate
  host : ∃ fl fl', p2mAllocTable cfg fl (p2mInitialise cfg .host) = (0, fl', d.hostp2m)

/-- A domain straight after `hap_enable`. -/
def Fresh (cfg : Config) (d : Domain) : Prop :=
  ∃ d₀, NewDomain cfg d₀ ∧ hapEnableAltp2m cfg d₀ = (0, d)

/-- A CPU with the secondary controls `ctl`, 4K mappings only, no populate-on-demand and no sharing.
-/
def plainConfig (ctl : BitVec 32)
    (h : ctl &&& secondaryExecEnableVirtExceptions ≠ 0#32 →
      ctl &&& secondaryExecEnableVmFunctions ≠ 0#32) : Config where
  altp2mSupported := true
  vmxSecondaryExecControl := ctl
  ve_vmfunc := h
  hasPml := false
  caps := { hasAd := false, pml := false, snoop := false, mmioRo := fun _ => false }
  maxPage := 2 ^ 20
  maxPage_le := by decide
  pdxValid _ := true
  entryEmt _ _ _ _ := (some 6, false)
  foreignGet _ := 0
  domCow _ := false
  has2mb := false
  has1gb := false
  podDemandPopulate _ _ _ := ([], -1)
  memSharingUnsharePage _ _ := ([], -1)
  podRetries := 0

/-- A vCPU with the secondary controls `ctl`, as `construct_vmcs` leaves it. -/
def plainVcpu (ctl : BitVec 32) : Vcpu :=
  { p2midx := 0, veinfoGfn := 0, execControl := 0, secondaryExecControl := ctl,
    vmcsExecControl := 0, vmcsSecondaryExecControl := ctl, eptPointer := 0, eptpIndex := 0,
    vmFunctionControl := 0, eptpListAddr := 0, virtExceptionInfo := 0 }

def plainDomain (cfg : Config) (vcpus : List Vcpu) : Domain where
  domainId := 1
  guestType := .hvm
  isHardware := false
  isIdle := false
  isDying := false
  hvmParamAltp2m := 1
  nestedhvm := false
  altp2mActive := false
  altp2mEptp _ := 0
  altp2mEptpAddr := 0x1000
  altp2mP2m _ := p2mInitialise cfg .alternate
  hostp2m := (p2mAllocTable cfg [1, 2, 3, 4] (p2mInitialise cfg .host)).2.2
  vcpus := vcpus
  freelist := List.range' 5 200
  vtsc := false
  tscMode := 0
  tscKhz := 0
  incarnation := 0

theorem plainDomain_new {cfg : Config} {vcpus : List Vcpu}
    (h : (p2mAllocTable cfg [1, 2, 3, 4] (p2mInitialise cfg .host)).1 = 0) :
    NewDomain cfg (plainDomain cfg vcpus) :=
  ⟨fun _ _ => rfl, [1, 2, 3, 4], _, by rw [← h]; rfl⟩

/-- That domain after `hap_enable`. -/
def plainMachine (cfg : Config) (vcpus : List Vcpu) : Machine :=
  { dom := (hapEnableAltp2m cfg (plainDomain cfg vcpus)).2, m2p := fun _ => invalidM2pEntry }

theorem plainMachine_fresh {cfg : Config} {vcpus : List Vcpu}
    (h : (p2mAllocTable cfg [1, 2, 3, 4] (p2mInitialise cfg .host)).1 = 0)
    (h' : (hapEnableAltp2m cfg (plainDomain cfg vcpus)).1 = 0) :
    Fresh cfg (plainMachine cfg vcpus).dom :=
  ⟨plainDomain cfg vcpus, plainDomain_new h, by rw [← h']; rfl⟩

def vmfuncConfig : Config := plainConfig secondaryExecEnableVmFunctions (by decide)

def vmfuncMachine : Machine :=
  plainMachine vmfuncConfig
    [plainVcpu secondaryExecEnableVmFunctions, plainVcpu secondaryExecEnableVmFunctions]

theorem vmfuncMachine_fresh : Fresh vmfuncConfig vmfuncMachine.dom :=
  plainMachine_fresh (by decide +kernel) (by decide +kernel)

def veConfig : Config :=
  plainConfig (secondaryExecEnableVmFunctions ||| secondaryExecEnableVirtExceptions) (by decide)

def veMachine : Machine :=
  plainMachine veConfig
    [plainVcpu (secondaryExecEnableVmFunctions ||| secondaryExecEnableVirtExceptions)]

def plainOp : Altp2mOp :=
  { version := hvmopAltp2mInterfaceVersion, cmd := 1, domain := domidSelf, pad1 := 0, pad2 := 0,
    state := 0, notifyVcpuId := 0, notifyPad := 0, view := 0, accessView := 0, hvmmemAccess := 0,
    accessPad := 0, accessGfn := 0, gfnView := 0, gfnPad1 := 0, gfnPad2 := 0, oldGfn := 0,
    newGfn := 0 }

def plainCall (a : Altp2mOp) : Call :=
  { currDom := 0, currVcpu := 0, arg := some a, copyBack := true, xsm := 0 }

def plainHypercall (a : Altp2mOp) (cmd : Altp2mCmd) : Op := .hypercall (plainCall a) false a cmd

/-! ## Invariants -/

structure StepInvariant (cfg : Config) (ok : Machine → Op → Prop) (I : Domain → Prop) : Prop where
  writes : Writes cfg fun m => I m.dom
  ready : ∀ d, I d → Ready cfg d
  index : ∀ d v, I d → d.altp2mActive = true → v < d.vcpus.length → (d.vcpu v).p2midx < maxAltp2m
  setState : ∀ d s, I d → Ensures (fun _ => False) (setDomainState cfg d s) fun r => I r.2
  notify : ∀ d v, I d → d.altp2mActive = true → I (vmxVcpuUpdateVmfuncVe cfg d v)
  create : ∀ d, I d → d.altp2mActive = true → I (p2mInitNextAltp2m d).2.2
  destroy : ∀ d idx, I d → d.altp2mActive = true → I (p2mDestroyAltp2mById cfg d idx).2
  switch : ∀ d v idx, I d → d.altp2mActive = true → v < d.vcpus.length → idx < maxAltp2m →
    d.altp2mEptp idx ≠ invalidMfn → Ensures (fun _ => False) (switchVcpu idx d v)
      fun d' => I d' ∧ d'.altp2mActive = true ∧ d'.vcpus.length = d.vcpus.length ∧
        d'.altp2mEptp = d.altp2mEptp
  exit : ∀ m v eptp idx, I m.dom → ok m (.vmexit v eptp idx) → v < m.dom.vcpus.length →
    Ensures (fun _ => False) (vmexit m.dom v eptp idx) I
  order : ∀ m q, ok m (.hostSetEntry q) → q.order ≤ 18

namespace StepInvariant

variable {cfg : Config} {ok : Machine → Op → Prop} {I : Domain → Prop} {m : Machine}

variable {d : Domain} {v : Nat}

variable (S : StepInvariant cfg ok I)

include S

theorem switchDomain (h : I d) (ha : d.altp2mActive = true) (idx : Nat) :
    Ensures (fun _ => False) (p2mSwitchDomainAltp2mById d idx) fun r => I r.2 := by
  unfold p2mSwitchDomainAltp2mById
  split
  · exact h
  rename_i hlt
  split
  · rename_i hs
    refine Ensures.bind ?_ fun d' h' => Ensures.pure h'
    -- the loop keeps the flag, the vCPUs and the EPTP list, which the next switch needs
    have loop := Ensures.foldlM_range (E := fun _ : Fault => False) (f := switchVcpu idx)
      (n := d.vcpus.length)
      (fun _ d' => I d' ∧ d'.altp2mActive = true ∧ d'.vcpus.length = d.vcpus.length ∧
        d'.altp2mEptp = d.altp2mEptp)
      (fun k d' hk h' => ?_) ⟨h, ha, rfl, rfl⟩
    · exact loop.mono fun _ h' => h'.1
    · obtain ⟨h', ha', hl', he'⟩ := h'
      refine (S.switch d' k idx h' ha' (hl' ▸ hk) (Nat.lt_of_not_le hlt) (he' ▸ hs)).mono ?_
      rintro d₂ ⟨h₂, ha₂, hl₂, he₂⟩
      exact ⟨h₂, ha₂, hl₂.trans hl', he₂.trans he'⟩
  · exact h

theorem switchVcpuById (h : I d)
    (ha : d.altp2mActive = true) (hv : v < d.vcpus.length) (idx : Nat) :
    Ensures (fun _ => False) (p2mSwitchVcpuAltp2mById d v idx) fun r => I r.2 := by
  unfold p2mSwitchVcpuAltp2mById
  split
  · exact h
  rename_i hlt
  split
  · rename_i hs
    refine (S.switch d v idx h ha hv (Nat.lt_of_not_le hlt) hs).bind fun d' h' => ?_
    exact Ensures.pure h'.1
  · exact h

theorem hypercall (h : I m.dom) (c : Call) (remote : Bool) (a : Altp2mOp) (cmd : Altp2mCmd) :
    Ensures (fun f => f = .spin ∧ (cmd = .setMemAccess ∨ cmd = .changeGfn))
      (altp2mOpLocked cfg m c remote a cmd) fun r => I r.2.dom := by
  unfold altp2mOpLocked
  split
  · exact h
  split
  · exact h
  split
  · exact h
  have active : cmd ≠ .getDomainState → cmd ≠ .setDomainState →
      m.dom.altp2mActive = true := fun h₁ h₂ => by simp_all
  unfold altp2mCmd
  cases cmd with
  | getDomainState => exact h
  | setDomainState =>
    exact ((S.setState m.dom a.state h).weaken).bind fun r hr => Ensures.pure hr
  | vcpuEnableNotify => exact S.notify m.dom _ h (active (by simp) (by simp))
  | createP2m => exact S.create m.dom h (active (by simp) (by simp))
  | destroyP2m => exact S.destroy m.dom _ h (active (by simp) (by simp))
  | switchP2m =>
    have hs := S.switchDomain h (active (by simp) (by simp)) a.view
    exact hs.weaken.bind fun r hr => Ensures.pure hr
  | setMemAccess =>
    simp only
    split
    · exact h
    · exact (S.writes.setMemAccess _ _ _ _ h).mono_error fun f hf => ⟨hf, by simp⟩
  | changeGfn =>
    simp only
    split
    · exact h
    · exact (S.writes.changeGfn _ _ _ _ h).mono_error fun f hf => ⟨hf, by simp⟩

theorem eptViolation (h : I m.dom) (hv : v < m.dom.vcpus.length) (gfn : Nat) (write : Bool) :
    Ensures (· = .spin) (hvmHapNestedPageFault cfg m v gfn write) fun m' => I m'.dom := by
  have W := S.writes.and (writes_shell (S.ready m.dom h))
  refine (W.nestedPageFault (fun ha m' hm' => .inr ?_) gfn write ⟨h, rfl⟩).mono fun m' hm' => hm'.1
  exact S.index m'.dom v hm'.1 ((altp2mActive_of_shell hm'.2).trans ha) (vcpus_of_shell hm'.2 ▸ hv)

omit S

theorem onVcpu {f : Except Fault Domain} (h : I m.dom)
    (hf : v < m.dom.vcpus.length → Ensures (fun _ => False) f I) {E : Fault → Prop} :
    Ensures E (m.onVcpu v f) fun m' => I m'.dom := by
  unfold Machine.onVcpu
  split
  · rename_i hv
    exact (hf hv).weaken.bind fun d hd => Ensures.pure hd
  · exact h

theorem step (S : StepInvariant cfg ok I) (h : I m.dom) {op : Op} (hop : ok m op) :
    Ensures (fun f => f = .spin ∧ op.LooksUp) (step cfg m op) fun m' => I m'.dom := by
  unfold Altp2m.step
  cases op with
  | hypercall c remote a cmd =>
    exact (S.hypercall h c remote a cmd).bind fun r hr => Ensures.pure hr
  | emulateVmfunc v eax ecx =>
    refine onVcpu h fun hv => ?_
    unfold vmxVcpuEmulateVmfunc
    split
    · rename_i hc
      simp only [Bool.and_eq_true] at hc
      exact (S.switchVcpuById h hc.1.2 hv ecx).bind fun r hr => Ensures.pure hr
    · exact h
  | vmEventResponse v idx =>
    refine onVcpu h fun hv => ?_
    unfold p2mAltp2mCheck
    split
    · rename_i ha
      exact (S.switchVcpuById h ha hv idx).bind fun r hr => Ensures.pure hr
    · exact h
  | vmexit v eptp idx => exact onVcpu h fun hv => S.exit m v eptp idx h hop hv
  | eptViolation v gfn write =>
    simp only
    split
    · rename_i hv
      exact (S.eptViolation h hv gfn write).mono_error fun f hf => ⟨hf, trivial⟩
    · exact h
  | hostSetEntry q => exact S.writes.hostSetEntry (S.order m q hop) h
  | setGpfnFromMfn mfn gpfn => exact h

theorem run (S : StepInvariant cfg ok I) {m₀ : Machine} (h : I m₀.dom)
    (run : Reaches (Altp2m.step cfg) ok m₀ m) : I m.dom :=
  Reaches.invariant (P := fun m => I m.dom) (fun _ _ _ hop hs h => (S.step h hop).of_ok hs) run h

end StepInvariant

end XenVmi.Altp2m
