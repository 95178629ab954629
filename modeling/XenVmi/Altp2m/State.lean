import XenVmi.Ept.Table
import Mathlib.Tactic.Simps.Basic

/-!
# The state altp2m works on: p2m tables, vCPUs, domains

The fields of `struct p2m_domain`, `struct ept_data`, `struct altp2mvcpu`, `struct arch_vmx_struct`
and `struct domain` that the altp2m and TSC code uses. A vCPU is named by its position in
`Domain.vcpus`. `Fault` is what stops the hypervisor, `Config` what does not change.
-/

namespace XenVmi.Altp2m

open XenVmi.Ept

def maxAltp2m : Nat := 39

def invalidAltp2m : Nat := 0xffff

/-- `MAX_EPTP`, `PAGE_SIZE / sizeof(uint64_t)`. -/
def maxEptp : Nat := 512

def p2mBaseEaddr : Nat := 2 ^ 64 - 1

def eptDefaultMt : Nat := 6

def invalidM2pEntry : Nat := 2 ^ 64 - 1

/-- `SHARED_M2P_ENTRY`, `~0UL - 1`. -/
def sharedM2pEntry : Nat := 2 ^ 64 - 2

def secondaryExecEnableVmFunctions : BitVec 32 := 0x00002000#32

def secondaryExecEnableVirtExceptions : BitVec 32 := 0x00040000#32

inductive Fault where
  | bugOn
  | nullDeref
  | spin
  deriving Repr, DecidableEq

/-- `p2m_class_t`. -/
inductive P2mClass where
  | host
  | nested
  | alternate
  deriving Repr, DecidableEq

/-- `struct ept_data`: the fields the EPT pointer is made of. -/
structure EptData where
  eptMt : Nat
  eptWl : Nat
  eptAd : Bool
  asr : Nat
  deriving Repr, DecidableEq

/-- `ept_get_eptp`: the word that `ept_mt:3, ept_wl:3, ept_ad:1, rsvd:5, asr:52` overlay. -/
def EptData.eptp (e : EptData) : Nat :=
  e.eptMt % 8 + 8 * (e.eptWl % 8) + 64 * e.eptAd.toNat + 4096 * (e.asr % 2 ^ 52)

/-- `struct p2m_domain`. `root` is the content of the page `physTable` (`phys_table`). -/
structure P2m where
  p2mClass : P2mClass
  physTable : Nat
  root : EptTable
  np2mBase : Nat
  activeVcpus : Int
  pages : List Nat
  defaultAccess : P2mAccess
  maxMappedPfn : Nat
  minRemappedGfn : Nat
  maxRemappedGfn : Nat
  globalLogdirty : Bool
  logdirtyRanges : List (Nat × Nat)
  ept : EptData

/-- A vCPU: `vcpu_altp2m(v)`, the execution controls, and the VMCS fields altp2m uses. -/
structure Vcpu where
  p2midx : Nat
  veinfoGfn : Nat
  execControl : BitVec 32
  secondaryExecControl : BitVec 32
  vmcsExecControl : BitVec 32
  vmcsSecondaryExecControl : BitVec 32
  eptPointer : Nat
  eptpIndex : Nat
  vmFunctionControl : Nat
  eptpListAddr : Nat
  virtExceptionInfo : Nat
  deriving Repr, DecidableEq

/-- The VMFUNC bit of `secondary_exec_control`. -/
def Vcpu.vmFunctions (v : Vcpu) : Bool :=
  decide (v.secondaryExecControl &&& secondaryExecEnableVmFunctions ≠ 0#32)

/-- The `#VE` bit of `secondary_exec_control`. -/
def Vcpu.virtExceptions (v : Vcpu) : Bool :=
  decide (v.secondaryExecControl &&& secondaryExecEnableVirtExceptions ≠ 0#32)

/-- `enum guest_type`. -/
inductive GuestType where
  | pv
  | pvh
  | hvm
  deriving Repr, DecidableEq

/-- `struct domain` and `struct arch_domain`. -/
structure Domain where
  domainId : Nat
  guestType : GuestType
  isHardware : Bool
  isIdle : Bool
  isDying : Bool
  hvmParamAltp2m : Nat
  nestedhvm : Bool
  altp2mActive : Bool
  altp2mEptp : Nat → Nat
  altp2mEptpAddr : Nat
  altp2mP2m : Nat → P2m
  hostp2m : P2m
  vcpus : List Vcpu
  freelist : List Nat
  vtsc : Bool
  tscMode : Nat
  tscKhz : Nat
  incarnation : Nat

inductive HostWrite where
  | entry (gfn mfn order : Nat) (t : P2mType) (a : P2mAccess)
  | m2p (mfn gpfn : Nat)
  deriving Repr, DecidableEq

structure Config where
  altp2mSupported : Bool
  /-- `vmx_secondary_exec_control`, what the CPU offers. -/
  vmxSecondaryExecControl : BitVec 32
  /-- `vmx_init_vmcs_config` drops `#VE` on a CPU without VMFUNC. -/
  ve_vmfunc : vmxSecondaryExecControl &&& secondaryExecEnableVirtExceptions ≠ 0#32 →
    vmxSecondaryExecControl &&& secondaryExecEnableVmFunctions ≠ 0#32
  hasPml : Bool
  caps : EptCaps
  /-- `max_page`; frame numbers have 40 bits. -/
  maxPage : Nat
  maxPage_le : maxPage ≤ 2 ^ 40
  /-- The hole and group tests of `__mfn_valid`. -/
  pdxValid : Nat → Bool
  entryEmt : Nat → Nat → Nat → Bool → Option Nat × Bool
  foreignGet : Nat → Int
  /-- The frames owned by `dom_cow`. -/
  domCow : Nat → Bool
  has2mb : Bool
  has1gb : Bool
  /-- `p2m_pod_demand_populate(hp2m, gfn, order)`: its writes and its result. -/
  podDemandPopulate : Domain → Nat → Nat → List HostWrite × Int
  /-- `mem_sharing_unshare_page(d, gfn)`: its writes and its result. -/
  memSharingUnsharePage : Domain → Nat → List HostWrite × Int
  podRetries : Nat

namespace Config

def hasVmfunc (cfg : Config) : Bool :=
  decide (cfg.vmxSecondaryExecControl &&& secondaryExecEnableVmFunctions ≠ 0#32)

def hasVirtExceptions (cfg : Config) : Bool :=
  decide (cfg.vmxSecondaryExecControl &&& secondaryExecEnableVirtExceptions ≠ 0#32)

def mfnValid (cfg : Config) (mfn : Nat) : Bool := decide (mfn < cfg.maxPage) && cfg.pdxValid mfn

end Config

def P2m.isLogdirtyRange (p : P2m) (first last : Nat) : Int :=
  if p.globalLogdirty || p.logdirtyRanges.any (fun r => decide (r.1 ≤ first ∧ last ≤ r.2)) then 1
  else if p.logdirtyRanges.any (fun r => decide (r.1 ≤ last ∧ first ≤ r.2)) then -1
  else 0

def P2m.env (cfg : Config) (p : P2m) : EptEnv where
  caps := cfg.caps
  defaultAccess := p.defaultAccess
  mfnValid := cfg.mfnValid
  entryEmt := cfg.entryEmt
  logdirtyRange := p.isLogdirtyRange
  foreignGet := cfg.foreignGet

def P2m.getEntry (cfg : Config) (p : P2m) (gfn : Nat) : Lookup :=
  eptGetEntry (p.env cfg) p.maxMappedPfn p.root gfn

/-- `__get_gfn_type_access` with query `0`: a broken page reads as unmapped. -/
def P2m.getGfnTypeAccess (cfg : Config) (p : P2m) (gfn : Nat) : Lookup :=
  let r := p.getEntry cfg gfn
  if r.t.isBroken then { r with mfn := invalidMfn } else r

/-- The fields of `ept_data` that `ept_p2m_init` sets (`asr` stays). -/
def EptData.init (cfg : Config) (e : EptData) : EptData :=
  { e with eptMt := eptDefaultMt, eptWl := 3, eptAd := if cfg.hasPml then true else e.eptAd }

def eptP2mInit (cfg : Config) (p : P2m) : P2m := { p with ept := p.ept.init cfg }

namespace Domain

def vcpu (d : Domain) (v : Nat) : Vcpu :=
  d.vcpus.getD v
    { p2midx := 0, veinfoGfn := 0, execControl := 0, secondaryExecControl := 0,
      vmcsExecControl := 0, vmcsSecondaryExecControl := 0, eptPointer := 0, eptpIndex := 0,
      vmFunctionControl := 0, eptpListAddr := 0, virtExceptionInfo := 0 }

@[simps]
def modVcpu (d : Domain) (v : Nat) (f : Vcpu → Vcpu) : Domain :=
  { d with vcpus := d.vcpus.modify v f }

@[simps]
def modP2m (d : Domain) (i : Nat) (f : P2m → P2m) : Domain :=
  { d with altp2mP2m := Function.update d.altp2mP2m i (f (d.altp2mP2m i)) }

@[simps]
def setEptp (d : Domain) (i : Nat) (eptp : Nat) : Domain :=
  { d with altp2mEptp := Function.update d.altp2mEptp i eptp }

@[simps]
def setHost (d : Domain) (p : P2m) : Domain := { d with hostp2m := p }

theorem vcpu_eq_getElem (d : Domain) {v : Nat} (h : v < d.vcpus.length) :
    d.vcpu v = d.vcpus[v] := by
  simp [vcpu, List.getD, h]

theorem vcpu_modVcpu_self (d : Domain) {v : Nat} (f : Vcpu → Vcpu) (h : v < d.vcpus.length) :
    (d.modVcpu v f).vcpu v = f (d.vcpu v) := by
  simp [vcpu, modVcpu, List.getD, h]

theorem vcpu_modVcpu_of_ne (d : Domain) {v w : Nat} (f : Vcpu → Vcpu) (h : v ≠ w) :
    (d.modVcpu v f).vcpu w = d.vcpu w := by
  simp [vcpu, modVcpu, List.getD, h]

@[simp] theorem vcpu_modP2m (d : Domain) (i w : Nat) (f : P2m → P2m) :
    (d.modP2m i f).vcpu w = d.vcpu w := rfl

end Domain

end XenVmi.Altp2m
