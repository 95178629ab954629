import XenVmi.Altp2m.Controls
import XenVmi.Altp2m.System

/-!
# What a failed altp2m hypercall leaves behind

Three branches of `do_altp2m_op` write to the switching state before they fail (`LeavesMark`):
`set_domain_state` sets `altp2m_active` before `p2m_init_altp2m_by_id` can refuse slot 0,
`vcpu_enable_notify` updates the controls after a check has failed, and `create_p2m` has taken a
slot when the copy to the guest fails.
-/

namespace XenVmi.Altp2m

open XenVmi.Ept XenVmi.Lib

/-! ## The switching state -/

structure SwitchingState where
  active : Bool
  eptp : Nat → Nat
  /-- `p2midx` and `secondary_exec_control` of each vCPU. -/
  vcpus : List (Nat × BitVec 32)
  activeVcpus : Nat → Int

/-- `p2midx` and `secondary_exec_control`. -/
def Vcpu.switching (x : Vcpu) : Nat × BitVec 32 := (x.p2midx, x.secondaryExecControl)

def Domain.switchingState (d : Domain) : SwitchingState where
  active := d.altp2mActive
  eptp := d.altp2mEptp
  vcpus := d.vcpus.map Vcpu.switching
  activeVcpus i := (d.altp2mP2m i).activeVcpus

section

variable {cfg : Config} {d : Domain} {s : SwitchingState}

theorem switchingState_update (h : d.switchingState = s) (fl : List Nat) {i : Nat} {p : P2m}
    (hp : p.activeVcpus = (d.altp2mP2m i).activeVcpus) :
    Domain.switchingState { d with freelist := fl, altp2mP2m := Function.update d.altp2mP2m i p }
      = s := by
  have hcount : (fun j => (Function.update d.altp2mP2m i p j).activeVcpus)
      = fun j => (d.altp2mP2m j).activeVcpus := funext (view_update_eq P2m.activeVcpus hp)
  subst h
  unfold Domain.switchingState
  simp only [hcount]

theorem switchingState_modP2m (h : d.switchingState = s) {i : Nat} {f : P2m → P2m}
    (hf : ∀ p, (f p).activeVcpus = p.activeVcpus) : (d.modP2m i f).switchingState = s :=
  switchingState_update h d.freelist (hf _)

theorem activeVcpus_p2mFlushTable (fl : List Nat) (p : P2m) :
    (p2mFlushTable fl p).2.activeVcpus = p.activeVcpus := by
  unfold p2mFlushTable
  split <;> rfl

theorem writes_switchingState (cfg : Config) (s : SwitchingState) :
    Writes cfg fun m => m.dom.switchingState = s where
  view m i q _ h := by
    exact switchingState_update h _ rfl
  host m q _ h := h
  reset m i _ h := by
    have hflush : (flushView cfg m.dom i).switchingState = s :=
      switchingState_update h _ (activeVcpus_p2mFlushTable _ _)
    exact switchingState_modP2m hflush fun _ => rfl
  access m i a h := switchingState_modP2m h fun _ => rfl
  remapped m i gfn h := switchingState_modP2m h fun _ => rfl
  m2p m t h := h

end

/-! ## Where a mark can stay -/

/-- The argument block is `a`, its header is in order, it names `cmd`, and domain `k`, which is `d`,
gets locked. -/
structure Addressed (cfg : Config) (h : Host) (c : Call) (a : Altp2mOp) (cmd : Altp2mCmd) (k : Nat)
    (d : Domain) : Prop where
  supported : cfg.altp2mSupported = true
  arg : c.arg = some a
  decoded : Altp2mCmd.decode a.cmd = some cmd
  header : a.pad1 = 0 ∧ a.pad2 = 0 ∧ a.version = hvmopAltp2mInterfaceVersion
  locked : lockDomain h c a cmd = some k
  domain : h.domains[k]? = some d

structure Admitted (d : Domain) (c : Call) (cmd : Altp2mCmd) : Prop where
  hvm : d.guestType = .hvm
  active : cmd = .getDomainState ∨ cmd = .setDomainState ∨ d.altp2mActive = true
  allowed : c.xsm = 0

/-- The command writes to the switching state of `d` before it can fail. -/
def LeavesMark (cfg : Config) (d : Domain) (c : Call) (a : Altp2mOp) : Altp2mCmd → Prop
  | .setDomainState =>
    d.hvmParamAltp2m ≠ 0 ∧ d.nestedhvm = false ∧ a.state ≠ 0 ∧ d.altp2mActive = false ∧
      d.altp2mEptp 0 ≠ invalidMfn
  | .vcpuEnableNotify =>
    (a.notifyPad ≠ 0 ∨ a.domain ≠ domidSelf ∨ a.notifyVcpuId ≠ c.currVcpu) ∧
      cfg.hasVmfunc = true ∧ ∃ x, d.vcpus[c.currVcpu]? = some x ∧ ¬ ControlsSettled cfg d x
  | .createP2m => c.copyBack = false ∧ ∃ i < maxAltp2m, d.altp2mEptp i = invalidMfn
  | _ => False

section Commands

variable {cfg : Config} {m : Machine} {d : Domain} {c : Call} {a : Altp2mOp}

theorem map_modify_eq_iff {α β : Type} (l : List α) (g : α → β) (f : α → α) (v : Nat) :
    (l.modify v f).map g = l.map g ↔ ∀ x, l[v]? = some x → g (f x) = g x := by
  constructor
  · intro h x hx
    have hv := congrArg (fun l => l[v]?) h
    simpa [hx] using hv
  · intro h
    refine List.ext_getElem? fun j => ?_
    by_cases hj : v = j
    · subst hj
      cases hx : l[v]? with
      | none => simp [hx]
      | some x => simp [hx, h x hx]
    · simp [hj]

theorem setDomainState_mark {r : Int × Domain} (h : setDomainState cfg d a.state = .ok r)
    (hneg : r.1 < 0) :
    r.2.switchingState = d.switchingState ↔ ¬ LeavesMark cfg d c a .setDomainState := by
  unfold setDomainState at h
  split at h
  · rename_i hp
    cases h
    refine iff_of_true rfl fun hm => ?_
    rcases hp with hp | hp
    · exact hm.1 hp
    · rw [hm.2.1] at hp
      exact Bool.noConfusion hp
  rename_i hp
  rw [not_or] at hp
  simp only at h
  split at h
  · cases h
    exact absurd hneg (by simp)
  rename_i hne
  split at h
  · obtain ⟨d', _, h⟩ := exists_ok_of_bind h
    cases h
    exact absurd hneg (by simp)
  rename_i hoff
  have hoff : d.altp2mActive = false := by simpa using hoff
  rw [hoff] at hne
  have hon : a.state ≠ 0 := by simpa using hne
  split at h
  · rename_i hrc
    unfold p2mInitAltp2mById at h hrc
    rw [if_neg (by decide)] at h hrc
    split at h
    · rename_i hs
      rw [if_pos hs] at hrc
      exact absurd rfl hrc
    rename_i hs
    cases h
    -- the flag is up and slot 0 was not ours
    refine iff_of_false (fun heq => ?_) (not_not.2 ⟨hp.1, by simpa using hp.2, hon, hoff, hs⟩)
    have hflag := congrArg SwitchingState.active heq
    simp [Domain.switchingState, hoff, hon] at hflag
  · obtain ⟨d', _, h⟩ := exists_ok_of_bind h
    cases h
    exact absurd hneg (by simp)

theorem vcpuEnableNotify_mark (hneg : (vcpuEnableNotify cfg d c.currVcpu a).1 < 0) :
    (vcpuEnableNotify cfg d c.currVcpu a).2.switchingState = d.switchingState ↔
      ¬ LeavesMark cfg d c a .vcpuEnableNotify := by
  unfold vcpuEnableNotify at hneg ⊢
  have hbad : a.notifyPad ≠ 0 ∨ a.domain ≠ domidSelf ∨ a.notifyVcpuId ≠ c.currVcpu := by
    by_contra hok
    rw [if_neg hok] at hneg
    exact absurd hneg (by simp)
  simp only [LeavesMark, hbad, true_and, vmxVcpuUpdateVmfuncVe]
  split
  · rename_i hno
    exact iff_of_true rfl fun hm => by simp [hm.1] at hno
  rename_i hvm
  have hvm : cfg.hasVmfunc = true := by simpa using hvm
  have hmap := map_modify_eq_iff d.vcpus Vcpu.switching (Vcpu.updateVmfuncVe cfg d) c.currVcpu
  constructor
  · rintro heq ⟨-, x, hx, hns⟩
    have hsw := hmap.1 (congrArg SwitchingState.vcpus heq) x hx
    exact hns ((updateVmfuncVe_settled_iff x).1 (congrArg Prod.snd hsw))
  · intro hno
    have hvc := hmap.2 fun x hx => by
      refine Prod.ext x.updateVmfuncVe_p2midx ((updateVmfuncVe_settled_iff x).2 ?_)
      by_contra hns
      exact hno ⟨hvm, x, hx, hns⟩
    unfold Domain.switchingState
    simp only [Domain.modVcpu, hvc]

theorem eptp_ne_invalidMfn (e : EptData) : e.eptp ≠ invalidMfn := by
  unfold EptData.eptp invalidMfn
  cases e.eptAd <;> simp only [Bool.toNat_true, Bool.toNat_false] <;> omega

theorem createP2m_mark
    (hneg : (if (p2mInitNextAltp2m d).1 ≠ 0 then (p2mInitNextAltp2m d).1
      else if c.copyBack then 0 else -EFAULT) < 0) :
    (p2mInitNextAltp2m d).2.2.switchingState = d.switchingState ↔
      ¬ LeavesMark cfg d c a .createP2m := by
  unfold p2mInitNextAltp2m at hneg ⊢
  cases hfree : (List.range maxAltp2m).find? (fun i => d.altp2mEptp i = invalidMfn) with
  | none =>
    refine iff_of_true rfl ?_
    rintro ⟨-, i, hi, hs⟩
    have hno := List.find?_eq_none.1 hfree i (List.mem_range.2 hi)
    exact hno (by simp [hs])
  | some i =>
    have hi := List.mem_range.1 (List.mem_of_find?_eq_some hfree)
    have hs : d.altp2mEptp i = invalidMfn := by simpa using List.find?_some hfree
    have hcb : c.copyBack = false := by
      by_contra hcb
      rw [Bool.not_eq_false] at hcb
      simp [hfree, hcb] at hneg
    refine iff_of_false (fun heq => ?_) (not_not.2 ⟨hcb, i, hi, hs⟩)
    have hslot := congrFun (congrArg SwitchingState.eptp heq) i
    simp only [Domain.switchingState, p2mInitAltp2mHelper, Domain.setEptp_altp2mEptp,
      Function.update_self, hs] at hslot
    exact eptp_ne_invalidMfn _ hslot

theorem altp2mCmd_mark {remote : Bool} {cmd : Altp2mCmd} {r : Int × Machine}
    (h : altp2mCmd cfg m c remote a cmd = .ok r) (hneg : r.1 < 0) :
    r.2.dom.switchingState = m.dom.switchingState ↔ ¬ LeavesMark cfg m.dom c a cmd := by
  have W := writes_switchingState cfg m.dom.switchingState
  cases cmd with
  | getDomainState =>
    cases h
    exact iff_of_true rfl not_false
  | setDomainState =>
    obtain ⟨s, hs, h⟩ := exists_ok_of_bind h
    cases h
    exact setDomainState_mark hs hneg
  | vcpuEnableNotify =>
    cases h
    exact vcpuEnableNotify_mark hneg
  | createP2m =>
    cases h
    exact createP2m_mark hneg
  | destroyP2m =>
    cases h
    refine iff_of_true ?_ not_false
    unfold p2mDestroyAltp2mById at hneg ⊢
    split
    · rfl
    rename_i hidx
    rw [if_neg hidx] at hneg
    split
    · rename_i hfree
      rw [if_pos hfree] at hneg
      exact absurd hneg (by simp)
    · rfl
  | switchP2m =>
    obtain ⟨s, hs, h⟩ := exists_ok_of_bind h
    cases h
    refine iff_of_true ?_ not_false
    unfold p2mSwitchDomainAltp2mById at hs
    split at hs
    · cases hs
      rfl
    split at hs
    · obtain ⟨d', _, hs⟩ := exists_ok_of_bind hs
      cases hs
      exact absurd hneg (by simp)
    · cases hs
      rfl
  | setMemAccess =>
    refine iff_of_true ?_ not_false
    simp only [altp2mCmd] at h
    split at h
    · cases h
      rfl
    · exact (W.setMemAccess _ _ _ _ rfl).of_ok h
  | changeGfn =>
    refine iff_of_true ?_ not_false
    simp only [altp2mCmd] at h
    split at h
    · cases h
      rfl
    · exact (W.changeGfn _ _ _ _ rfl).of_ok h

end Commands

/-! ## The hypercall -/

theorem map_set_eq_iff {α β : Type} {l : List α} {k : Nat} {x : α} (hx : l[k]? = some x)
    (g : α → β) (y : α) : (l.set k y).map g = l.map g ↔ g y = g x := by
  rw [List.set_eq_modify, map_modify_eq_iff]
  constructor
  · exact fun h => h x hx
  · intro h z hz
    rw [hx] at hz
    cases hz
    exact h

theorem Addressed.unique {cfg : Config} {h : Host} {c : Call} {a a' : Altp2mOp}
    {cmd cmd' : Altp2mCmd} {k k' : Nat} {d d' : Domain} (A : Addressed cfg h c a cmd k d)
    (A' : Addressed cfg h c a' cmd' k' d') : a' = a ∧ cmd' = cmd ∧ k' = k ∧ d' = d := by
  cases A.arg.symm.trans A'.arg
  cases A.decoded.symm.trans A'.decoded
  cases A.locked.symm.trans A'.locked
  cases A.domain.symm.trans A'.domain
  exact ⟨rfl, rfl, rfl, rfl⟩

theorem doAltp2mOp_cases {cfg : Config} {h h' : Host} {c : Call} {rc : Int}
    (hrun : doAltp2mOp cfg h c = .ok (rc, h')) :
    (h' = h ∧ ∀ a cmd k d, ¬ Addressed cfg h c a cmd k d) ∨
      ∃ a cmd k d r, Addressed cfg h c a cmd k d ∧
        altp2mOpLocked cfg ⟨d, h.m2p⟩ c (decide (c.currDom ≠ k)) a cmd = .ok r ∧ rc = r.1 ∧
        h' = { h with domains := h.domains.set k r.2.dom, m2p := r.2.m2p } := by
  unfold doAltp2mOp at hrun
  split at hrun
  · rename_i hsup
    cases hrun
    exact .inl ⟨rfl, fun _ _ _ _ A => by simp [A.supported] at hsup⟩
  rename_i hsup
  split at hrun
  · rename_i harg
    cases hrun
    exact .inl ⟨rfl, fun _ _ _ _ A => by simp [A.arg] at harg⟩
  rename_i a harg
  split at hrun
  · rename_i hcmd
    cases hrun
    refine .inl ⟨rfl, fun _ _ _ _ A => ?_⟩
    cases harg.symm.trans A.arg
    simp [A.decoded] at hcmd
  rename_i cmd hcmd
  split at hrun
  · rename_i hpad
    cases hrun
    refine .inl ⟨rfl, fun _ _ _ _ A => ?_⟩
    cases harg.symm.trans A.arg
    simp [A.header] at hpad
  rename_i hpad
  split at hrun
  · rename_i hlock
    cases hrun
    refine .inl ⟨rfl, fun _ _ _ _ A => ?_⟩
    cases harg.symm.trans A.arg
    cases hcmd.symm.trans A.decoded
    simp [A.locked] at hlock
  rename_i k hlock
  split at hrun
  · rename_i hd
    cases hrun
    refine .inl ⟨rfl, fun _ _ _ _ A => ?_⟩
    cases harg.symm.trans A.arg
    cases hcmd.symm.trans A.decoded
    cases hlock.symm.trans A.locked
    simp [A.domain] at hd
  rename_i d hd
  obtain ⟨r, hr, hrun⟩ := exists_ok_of_bind hrun
  cases hrun
  refine .inr ⟨a, cmd, k, d, r, ⟨?_, harg, hcmd, ?_, hlock, hd⟩, hr, rfl, rfl⟩
  · simpa using hsup
  · simpa [not_or] using hpad

theorem altp2mOpLocked_mark {cfg : Config} {m : Machine} {c : Call} {remote : Bool} {a : Altp2mOp}
    {cmd : Altp2mCmd} {r : Int × Machine} (h : altp2mOpLocked cfg m c remote a cmd = .ok r)
    (hneg : r.1 < 0) :
    r.2.dom.switchingState = m.dom.switchingState ↔
      ¬ (Admitted m.dom c cmd ∧ LeavesMark cfg m.dom c a cmd) := by
  unfold altp2mOpLocked at h
  split at h
  · rename_i hg
    cases h
    exact iff_of_true rfl fun hm => hg hm.1.hvm
  rename_i hg
  split at h
  · rename_i hact
    cases h
    refine iff_of_true rfl fun hm => ?_
    rcases hm.1.active with hc | hc | ha
    · exact hact.1 hc
    · exact hact.2.1 hc
    · simp [ha] at hact
  rename_i hact
  split at h
  · rename_i hx
    cases h
    exact iff_of_true rfl fun hm => hx hm.1.allowed
  rename_i hx
  have hadm : Admitted m.dom c cmd := by
    refine ⟨not_not.1 hg, ?_, not_not.1 hx⟩
    by_contra hno
    simp only [not_or, Bool.not_eq_true] at hno
    exact hact hno
  rw [altp2mCmd_mark h hneg]
  exact ⟨fun hno hm => hno hm.2, fun hno hm => hno ⟨hadm, hm⟩⟩

/-- **A failed hypercall keeps the switching state of every domain, unless it is one of three**
(`LeavesMark`). -/
theorem failed_call_keeps_switching_iff (cfg : Config) (h h' : Host) (c : Call) (rc : Int)
    (hrun : doAltp2mOp cfg h c = .ok (rc, h')) (hneg : rc < 0) :
    h'.domains.map Domain.switchingState = h.domains.map Domain.switchingState ↔
      ¬ ∃ a cmd k d, Addressed cfg h c a cmd k d ∧ Admitted d c cmd ∧ LeavesMark cfg d c a cmd := by
  rcases doAltp2mOp_cases hrun with ⟨rfl, hno⟩ | ⟨a, cmd, k, d, r, A, hr, rfl, rfl⟩
  · exact iff_of_true rfl fun ⟨a, cmd, k, d, A, _⟩ => hno a cmd k d A
  rw [map_set_eq_iff A.domain, altp2mOpLocked_mark hr hneg]
  constructor
  · rintro hno ⟨a', cmd', k', d', A', hm⟩
    obtain ⟨rfl, rfl, rfl, rfl⟩ := A.unique A'
    exact hno hm
  · exact fun hno hm => hno ⟨a, cmd, k, d, A, hm⟩

/-! ## A refused `vcpu_enable_notify` that switches `#VE` off -/

def hostOf (m : Machine) : Host :=
  { domains := [m.dom], m2p := m.m2p, eptpIdx := 0, eptpIdxLast := 0 }

def turnOn : Op := plainHypercall { plainOp with state := 1 } .setDomainState

theorem turnOn_admissible : ∀ op ∈ [turnOn], ∀ m, op.Admissible m := by
  simp [turnOn, plainHypercall, Op.Admissible]

/-- `vcpu_enable_notify` for vCPU 7; vCPU 0 makes the call. -/
def notifySeven : Altp2mOp := { plainOp with cmd := 3, notifyVcpuId := 7 }

/-- The call returns `-EINVAL`, and the `#VE` bit of the calling vCPU is gone. -/
theorem refused_notify_clears_ve :
    ∃ m h', Reaches (step veConfig) Op.Admissible veMachine m ∧
      doAltp2mOp veConfig (hostOf m) (plainCall notifySeven) = .ok (-EINVAL, h') ∧
      m.dom.vcpus.map Vcpu.virtExceptions = [true] ∧
      h'.domains.map (fun d => d.vcpus.map Vcpu.virtExceptions) = [[false]] := by
  obtain ⟨m, run, hon, ⟨_, h'⟩, hr, rfl, hve⟩ :
      ∃ m, Reaches (step veConfig) Op.Admissible veMachine m ∧
        m.dom.vcpus.map Vcpu.virtExceptions = [true] ∧
        ∃ r, doAltp2mOp veConfig (hostOf m) (plainCall notifySeven) = .ok r ∧ r.1 = -EINVAL ∧
          r.2.domains.map (fun d => d.vcpus.map Vcpu.virtExceptions) = [[false]] :=
    Reaches.exists_of_foldlM turnOn_admissible (by decide +kernel)
  exact ⟨m, h', run, hr, hon, hve⟩

/-- `destroy_p2m` of view 0, which is refused. -/
def destroyZero : Altp2mOp := { plainOp with cmd := 5 }

theorem failed_call_keeps_switching_iff_destroy :
    ∃ m h', Reaches (step veConfig) Op.Admissible veMachine m ∧
      doAltp2mOp veConfig (hostOf m) (plainCall destroyZero) = .ok (-EBUSY, h') ∧
      h'.domains.map Domain.switchingState = (hostOf m).domains.map Domain.switchingState := by
  obtain ⟨m, run, ⟨_, h'⟩, hr, rfl⟩ : ∃ m, Reaches (step veConfig) Op.Admissible veMachine m ∧
      ∃ r, doAltp2mOp veConfig (hostOf m) (plainCall destroyZero) = .ok r ∧ r.1 = -EBUSY :=
    Reaches.exists_of_foldlM turnOn_admissible (by decide +kernel)
  refine ⟨m, h', run, hr, (failed_call_keeps_switching_iff veConfig _ h' _ _ hr (by decide)).2 ?_⟩
  rintro ⟨a, cmd, k, d, A, -, hmark⟩
  cases A.arg
  cases A.decoded
  exact hmark

end XenVmi.Altp2m
