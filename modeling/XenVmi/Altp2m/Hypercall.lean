import XenVmi.Altp2m.Entries

/-!
# `HVMOP_altp2m`

Model of `do_altp2m_op` (`hvm/hvm.c:6292-6460`). A `Call` is what the hypercall gets from outside.
In `HVMOP_altp2m_vcpu_enable_notify` the checks only set `rc`: the `return` is commented out.
-/

namespace XenVmi.Altp2m

open XenVmi.Ept

/-- `EFAULT`, `ESRCH`, `EOPNOTSUPP` of `xen/errno.h`. -/
def EFAULT : Int := 14

@[inherit_doc EFAULT]
def ESRCH : Int := 3

@[inherit_doc EFAULT]
def EOPNOTSUPP : Int := 95

def domidSelf : Nat := 0x7ff0

def hvmopAltp2mInterfaceVersion : Nat := 1

/-- `HVMOP_altp2m_get_domain_state` to `HVMOP_altp2m_change_gfn`. -/
inductive Altp2mCmd where
  | getDomainState
  | setDomainState
  | vcpuEnableNotify
  | createP2m
  | destroyP2m
  | switchP2m
  | setMemAccess
  | changeGfn
  deriving Repr, DecidableEq

/-- The command numbers; `none` is what the range test on `a.cmd` rejects. -/
def Altp2mCmd.decode : Nat → Option Altp2mCmd
  | 1 => some .getDomainState
  | 2 => some .setDomainState
  | 3 => some .vcpuEnableNotify
  | 4 => some .createP2m
  | 5 => some .destroyP2m
  | 6 => some .switchP2m
  | 7 => some .setMemAccess
  | 8 => some .changeGfn
  | _ => none

/-- `struct xen_hvm_altp2m_op`. -/
structure Altp2mOp where
  version : Nat
  cmd : Nat
  domain : Nat
  pad1 : Nat
  pad2 : Nat
  state : Nat
  notifyVcpuId : Nat
  notifyPad : Nat
  view : Nat
  accessView : Nat
  hvmmemAccess : Nat
  accessPad : Nat
  accessGfn : Nat
  gfnView : Nat
  gfnPad1 : Nat
  gfnPad2 : Nat
  oldGfn : Nat
  newGfn : Nat
  deriving Repr, DecidableEq

structure Call where
  /-- `current->domain`, by its position. -/
  currDom : Nat
  currVcpu : Nat
  arg : Option Altp2mOp
  /-- `__copy_to_guest(arg, &a, 1)` succeeds. -/
  copyBack : Bool
  xsm : Int
  deriving Repr, DecidableEq

structure Host where
  domains : List Domain
  m2p : Nat → Nat
  eptpIdx : Int
  eptpIdxLast : Int

/-! ## The commands -/

def setStateVcpus (cfg : Config) (ostate : Bool) (d : Domain) : Except Fault Domain :=
  (List.range d.vcpus.length).foldlM
    (fun d v => if ostate then altp2mVcpuDestroy cfg d v else altp2mVcpuInitialise d v) d

def setDomainState (cfg : Config) (d : Domain) (state : Nat) : Except Fault (Int × Domain) :=
  if d.hvmParamAltp2m = 0 ∨ d.nestedhvm = true then .ok (-EINVAL, d)
  else
    let ostate := d.altp2mActive
    let d := { d with altp2mActive := decide (state ≠ 0) }
    if d.altp2mActive = ostate then .ok (0, d)
    else if ostate then do
      let d ← setStateVcpus cfg true d
      pure (0, p2mFlushAltp2m cfg d)
    else
      let r := p2mInitAltp2mById d 0
      if r.1 ≠ 0 then .ok r
      else do
        let d ← setStateVcpus cfg false r.2
        pure (0, d)

/-- `HVMOP_altp2m_vcpu_enable_notify` by vCPU `v` of the domain. -/
def vcpuEnableNotify (cfg : Config) (d : Domain) (v : Nat) (a : Altp2mOp) : Int × Domain :=
  (if a.notifyPad ≠ 0 ∨ a.domain ≠ domidSelf ∨ a.notifyVcpuId ≠ v then -EINVAL else 0,
    vmxVcpuUpdateVmfuncVe cfg d v)

/-- The switch of `do_altp2m_op` on the locked domain; `remote` is `current->domain != d`. -/
def altp2mCmd (cfg : Config) (m : Machine) (c : Call) (remote : Bool) (a : Altp2mOp) :
    Altp2mCmd → Except Fault (Int × Machine)
  | .getDomainState =>
    .ok (if m.dom.hvmParamAltp2m = 0 then -EINVAL else if c.copyBack then 0 else -EFAULT, m)
  | .setDomainState => do
    let r ← setDomainState cfg m.dom a.state
    pure (r.1, { m with dom := r.2 })
  | .vcpuEnableNotify =>
    let r := vcpuEnableNotify cfg m.dom c.currVcpu a
    .ok (r.1, { m with dom := r.2 })
  | .createP2m =>
    let r := p2mInitNextAltp2m m.dom
    .ok (if r.1 ≠ 0 then r.1 else if c.copyBack then 0 else -EFAULT, { m with dom := r.2.2 })
  | .destroyP2m =>
    let r := p2mDestroyAltp2mById cfg m.dom a.view
    .ok (r.1, { m with dom := r.2 })
  | .switchP2m => do
    let r ← p2mSwitchDomainAltp2mById m.dom a.view
    pure (r.1, { m with dom := r.2 })
  | .setMemAccess =>
    if a.accessPad ≠ 0 then .ok (-EINVAL, m)
    else p2mSetAltp2mMemAccess cfg m remote a.accessView a.accessGfn a.hvmmemAccess
  | .changeGfn =>
    if a.gfnPad1 ≠ 0 ∨ a.gfnPad2 ≠ 0 then .ok (-EINVAL, m)
    else p2mChangeAltp2mGfn cfg m remote a.gfnView a.oldGfn a.newGfn

/-- The domain a command is about (`rcu_lock_current_domain`, `rcu_lock_domain_by_any_id`). -/
def lockDomain (h : Host) (c : Call) (a : Altp2mOp) (cmd : Altp2mCmd) : Option Nat :=
  if cmd = .vcpuEnableNotify ∨ a.domain = domidSelf then some c.currDom
  else h.domains.findIdx? (fun d => d.domainId = a.domain)

/-- `do_altp2m_op` once the domain is locked; `remote` is `current->domain != d`. -/
def altp2mOpLocked (cfg : Config) (m : Machine) (c : Call) (remote : Bool) (a : Altp2mOp)
    (cmd : Altp2mCmd) : Except Fault (Int × Machine) :=
  if m.dom.guestType ≠ .hvm then .ok (-EOPNOTSUPP, m)
  else if cmd ≠ .getDomainState ∧ cmd ≠ .setDomainState ∧ m.dom.altp2mActive = false then
    .ok (-EOPNOTSUPP, m)
  else if c.xsm ≠ 0 then .ok (c.xsm, m)
  else altp2mCmd cfg m c remote a cmd

def doAltp2mOp (cfg : Config) (h : Host) (c : Call) : Except Fault (Int × Host) :=
  if !cfg.altp2mSupported then .ok (-EOPNOTSUPP, h)
  else
    match c.arg with
    | none => .ok (-EFAULT, h)
    | some a =>
      match Altp2mCmd.decode a.cmd with
      | none => .ok (-EINVAL, h)
      | some cmd =>
        if a.pad1 ≠ 0 ∨ a.pad2 ≠ 0 ∨ a.version ≠ hvmopAltp2mInterfaceVersion then .ok (-EINVAL, h)
        else
          match lockDomain h c a cmd with
          | none => .ok (-ESRCH, h)
          | some k =>
            match h.domains[k]? with
            | none => .ok (-ESRCH, h)
            | some d => do
              let r ← altp2mOpLocked cfg ⟨d, h.m2p⟩ c (decide (c.currDom ≠ k)) a cmd
              pure (r.1, { h with domains := h.domains.set k r.2.dom, m2p := r.2.m2p })

end XenVmi.Altp2m
