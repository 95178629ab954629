import XenVmi.Altp2m.Views
import XenVmi.Lib.Words

/-!
# The VMFUNC and `#VE` controls of a vCPU

`vmx_vcpu_update_vmfunc_ve` (`hvm/vmx/vmx.c:1799-1840`), bit by bit.
-/

namespace XenVmi.Altp2m

open XenVmi.Ept XenVmi.Lib

variable {cfg : Config} {d : Domain}

/-! ## The two bits -/

theorem vmFunctions_eq (x : Vcpu) : x.vmFunctions = x.secondaryExecControl.getLsbD 13 :=
  maskSet_eq (i := 13) x.secondaryExecControl (by decide)

theorem virtExceptions_eq (x : Vcpu) : x.virtExceptions = x.secondaryExecControl.getLsbD 18 :=
  maskSet_eq (i := 18) x.secondaryExecControl (by decide)

theorem getLsbD_enableVmFunctions (i : Nat) :
    secondaryExecEnableVmFunctions.getLsbD i = decide (i = 13) := by
  have h : secondaryExecEnableVmFunctions = BitVec.twoPow 32 13 := by decide
  rw [h]
  by_cases hi : i = 13 <;> simp [hi, eq_comm]

theorem getLsbD_enableVirtExceptions (i : Nat) :
    secondaryExecEnableVirtExceptions.getLsbD i = decide (i = 18) := by
  have h : secondaryExecEnableVirtExceptions = BitVec.twoPow 32 18 := by decide
  rw [h]
  by_cases hi : i = 18 <;> simp [hi, eq_comm]

theorem getLsbD_vmfuncVeMask (cfg : Config) (i : Nat) :
    (if cfg.hasVirtExceptions = true then
      secondaryExecEnableVmFunctions ||| secondaryExecEnableVirtExceptions
      else secondaryExecEnableVmFunctions).getLsbD i
      = (decide (i = 13) || (cfg.hasVirtExceptions && decide (i = 18))) := by
  cases cfg.hasVirtExceptions <;> simp only [if_true, if_false, Bool.false_eq_true,
    BitVec.getLsbD_or, getLsbD_enableVmFunctions, getLsbD_enableVirtExceptions, Bool.false_and,
    Bool.true_and, Bool.or_false]

/-! ## What the function computes -/

def Domain.altp2mOn (d : Domain) : Bool := !d.isDying && d.altp2mActive

def infoMapped (cfg : Config) (d : Domain) (veinfoGfn : Nat) : Bool :=
  decide (getGfnQueryUnlocked cfg d veinfoGfn ≠ invalidMfn)

theorem getLsbD_vmfuncVeControls (gfn : Nat) (c : BitVec 32) {i : Nat} (hi : i < 32) :
    (vmfuncVeControls cfg d gfn c).getLsbD i =
      if i = 13 then d.altp2mOn
      else if i = 18 ∧ cfg.hasVirtExceptions = true then d.altp2mOn && infoMapped cfg d gfn
      else c.getLsbD i := by
  unfold vmfuncVeControls Domain.altp2mOn infoMapped
  have hmask := getLsbD_vmfuncVeMask cfg i
  generalize (if cfg.hasVirtExceptions = true then
    secondaryExecEnableVmFunctions ||| secondaryExecEnableVirtExceptions
    else secondaryExecEnableVmFunctions) = mask at hmask ⊢
  simp only [apply_ite (fun b : BitVec 32 => b.getLsbD i), BitVec.getLsbD_or, BitVec.getLsbD_and,
    BitVec.getLsbD_not, hmask, getLsbD_enableVirtExceptions, hi]
  -- on or off, with `#VE` or without, info page mapped or not
  cases !d.isDying && d.altp2mActive <;> cases cfg.hasVirtExceptions <;>
    by_cases hm : getGfnQueryUnlocked cfg d gfn = invalidMfn <;>
    by_cases h₁ : i = 13 <;> by_cases h₂ : i = 18 <;> simp [hm, h₁, h₂]

theorem vmFunctions_vmfuncVeControls (cfg : Config) (d : Domain) (gfn : Nat) (c : BitVec 32) :
    (vmfuncVeControls cfg d gfn c).getLsbD 13 = d.altp2mOn := by
  rw [getLsbD_vmfuncVeControls gfn c (by decide), if_pos rfl]

theorem virtExceptions_vmfuncVeControls (cfg : Config) (d : Domain) (gfn : Nat) (c : BitVec 32) :
    (vmfuncVeControls cfg d gfn c).getLsbD 18 =
      if cfg.hasVirtExceptions then d.altp2mOn && infoMapped cfg d gfn else c.getLsbD 18 := by
  rw [getLsbD_vmfuncVeControls gfn c (by decide)]
  simp

/-- The vCPU already has the controls `vmx_vcpu_update_vmfunc_ve` gives it. -/
def ControlsSettled (cfg : Config) (d : Domain) (x : Vcpu) : Prop :=
  x.vmFunctions = d.altp2mOn ∧
    (cfg.hasVirtExceptions = true → x.virtExceptions = (d.altp2mOn && infoMapped cfg d x.veinfoGfn))

theorem Vcpu.updateVmfuncVe_p2midx (x : Vcpu) : (x.updateVmfuncVe cfg d).p2midx = x.p2midx := by
  unfold Vcpu.updateVmfuncVe
  split <;> rfl

theorem secondaryExecControl_updateVmfuncVe (x : Vcpu) :
    (x.updateVmfuncVe cfg d).secondaryExecControl =
      vmfuncVeControls cfg d x.veinfoGfn x.secondaryExecControl := by
  unfold Vcpu.updateVmfuncVe
  split <;> rfl

theorem updateVmfuncVe_settled_iff (x : Vcpu) :
    (x.updateVmfuncVe cfg d).secondaryExecControl = x.secondaryExecControl ↔
      ControlsSettled cfg d x := by
  rw [secondaryExecControl_updateVmfuncVe]
  unfold ControlsSettled
  rw [vmFunctions_eq, virtExceptions_eq]
  constructor
  · intro h
    have hf := vmFunctions_vmfuncVeControls cfg d x.veinfoGfn x.secondaryExecControl
    have hv := virtExceptions_vmfuncVeControls cfg d x.veinfoGfn x.secondaryExecControl
    rw [h] at hf hv
    exact ⟨hf, fun hve => by rw [hv, if_pos hve]⟩
  · rintro ⟨hf, hv⟩
    refine BitVec.eq_of_getLsbD_eq fun i hi => ?_
    rw [getLsbD_vmfuncVeControls _ _ hi]
    split
    · rename_i h13
      rw [h13, hf]
    · split
      · rename_i h18
        rw [h18.1, hv h18.2]
      · rfl

end XenVmi.Altp2m
