import XenVmi.Altp2m.System

/-!
# What switching views leaves alone

The counterpart of `Writes` for `XenVmi.Altp2m.Views`, whose functions are sequences of six moves.
`Moves cfg P`: the predicate `P` survives each of them, and so each function, if it returns.
-/

namespace XenVmi.Altp2m

open XenVmi.Ept XenVmi.Lib

/-- The two p2ms have the same table: the page it starts in, its content and its extent. -/
structure P2m.SameTable (p p' : P2m) : Prop where
  physTable : p'.physTable = p.physTable
  root : p'.root = p.root
  max : p'.maxMappedPfn = p.maxMappedPfn

structure Moves (cfg : Config) (P : Domain → Prop) : Prop where
  vcpu : ∀ d v f, P d → P (d.modVcpu v f)
  view : ∀ d i f, (∀ p : P2m, p.SameTable (f p)) → P d → P (d.modP2m i f)
  host : ∀ d, P d → P (d.setHost d.hostp2m.syncAsr)
  flag : ∀ d b, P d → P { d with altp2mActive := b }
  slot : ∀ d i e, P d → P (d.setEptp i e)
  flush : ∀ d i, P d → P (flushView cfg d i)

namespace Moves

variable {cfg : Config} {P : Domain → Prop} {d : Domain}

/-! ## Moving a vCPU -/

theorem atomicAdd (M : Moves cfg P) (h : P d) (p : Option Nat) (n : Int) :
    Ensures (fun _ => True) (atomicAdd d p n) P := by
  cases p with
  | none => trivial
  | some i => exact M.view d i _ (fun _ => ⟨rfl, rfl, rfl⟩) h

theorem getAltp2m_bind {v : Nat} {f : Option Nat → Except Fault Domain}
    (hf : ∀ p, Ensures (fun _ => True) (f p) P) :
    Ensures (fun _ => True) (p2mGetAltp2m d v >>= f) P := by
  cases h : p2mGetAltp2m d v with
  | error e => trivial
  | ok p => exact hf p

theorem moveVcpu (M : Moves cfg P) (h : P d) (v i : Nat) :
    Ensures (fun _ => True) (moveVcpu d v i) P := by
  unfold Altp2m.moveVcpu
  refine getAltp2m_bind fun p => (M.atomicAdd h p (-1)).bind fun d₁ h₁ => ?_
  have h₂ : P (setP2midx d₁ v i) := M.vcpu d₁ v _ h₁
  exact getAltp2m_bind fun p => M.atomicAdd h₂ p 1

theorem updateEptp (M : Moves cfg P) (h : P d) (v : Nat) :
    Ensures (fun _ => True) (vmxVcpuUpdateEptp d v) P := by
  have picked : ∀ p, P (updateEptpFrom d v p) := by
    intro p
    cases p with
    | none => exact M.vcpu _ v _ (M.host d h)
    | some i => exact M.vcpu _ v _ (M.view d i _ (fun _ => ⟨rfl, rfl, rfl⟩) h)
  unfold vmxVcpuUpdateEptp
  split
  · exact getAltp2m_bind fun p => Ensures.pure (picked p)
  · exact picked none

theorem switchVcpu (M : Moves cfg P) (h : P d) (i v : Nat) :
    Ensures (fun _ => True) (switchVcpu i d v) P := by
  unfold Altp2m.switchVcpu
  split
  · exact (M.moveVcpu h v i).bind fun d' h' => M.updateEptp h' v
  · exact h

theorem loop {f : Domain → Nat → Except Fault Domain}
    (hf : ∀ d v, P d → Ensures (fun _ => True) (f d v) P) (h : P d) (n : Nat) :
    Ensures (fun _ => True) ((List.range n).foldlM f d) P :=
  Ensures.foldlM_range (fun _ => P) (fun v d _ h => hf d v h) h

variable (M : Moves cfg P)

include M

theorem switchDomain (h : P d) (idx : Nat) :
    Ensures (fun _ => True) (p2mSwitchDomainAltp2mById d idx) fun r => P r.2 := by
  unfold p2mSwitchDomainAltp2mById
  split
  · exact h
  · split
    · exact (loop (fun d v h => M.switchVcpu h idx v) h _).bind fun d' h' => Ensures.pure h'
    · exact h

theorem vmexitResync (h : P d) (v : Nat) : Ensures (fun _ => True) (vmexitResync d v) P := by
  unfold Altp2m.vmexitResync
  split
  · simp only
    split
    · split
      · trivial
      · exact M.moveVcpu h v _
    · exact h
  · exact h

theorem vmexit (h : P d) (v eptp idx : Nat) : Ensures (fun _ => True) (vmexit d v eptp idx) P :=
  M.vmexitResync (M.vcpu d v _ h) v

/-! ## Turning altp2m on and off -/

theorem updateVmfuncVe (h : P d) (v : Nat) : P (vmxVcpuUpdateVmfuncVe cfg d v) := by
  unfold vmxVcpuUpdateVmfuncVe
  split
  · exact h
  · exact M.vcpu d v _ h

theorem vcpuInitialise (h : P d) (v : Nat) :
    Ensures (fun _ => True) (altp2mVcpuInitialise d v) P := by
  have h₁ : P (setP2midx (altp2mVcpuReset d v) v 0) := M.vcpu _ v _ (M.vcpu d v _ h)
  exact getAltp2m_bind fun p => (M.atomicAdd h₁ p 1).bind fun d' h' => M.updateEptp h' v

theorem vcpuDestroy (h : P d) (v : Nat) :
    Ensures (fun _ => True) (altp2mVcpuDestroy cfg d v) P := by
  have tail : ∀ d₁ : Domain, P d₁ → Ensures (fun _ => True)
      (vmxVcpuUpdateEptp (altp2mVcpuReset d₁ v) v >>= fun d₂ =>
        pure (vmxVcpuUpdateVmfuncVe cfg d₂ v)) P := by
    intro d₁ h₁
    have h₂ : P (altp2mVcpuReset d₁ v) := M.vcpu d₁ v _ h₁
    exact (M.updateEptp h₂ v).bind fun d₃ h₃ => Ensures.pure (M.updateVmfuncVe h₃ v)
  refine getAltp2m_bind fun p => ?_
  cases p with
  | none => exact tail d h
  | some i => exact (M.atomicAdd h (some i) (-1)).bind tail

theorem initHelper (h : P d) (i : Nat) : P (p2mInitAltp2mHelper d i) :=
  M.slot _ i _ (M.view d i _ (fun _ => ⟨rfl, rfl, rfl⟩) h)

theorem initById (h : P d) (i : Nat) : P (p2mInitAltp2mById d i).2 := by
  unfold p2mInitAltp2mById
  split
  · exact h
  · split
    · exact M.initHelper h i
    · exact h

theorem create (h : P d) : P (p2mInitNextAltp2m d).2.2 := by
  unfold p2mInitNextAltp2m
  split
  · exact M.initHelper h _
  · exact h

theorem flushSlot (h : P d) (i : Nat) : P (flushSlot cfg d i) :=
  M.slot _ i _ (M.flush d i h)

theorem destroy (h : P d) (i : Nat) : P (p2mDestroyAltp2mById cfg d i).2 := by
  unfold p2mDestroyAltp2mById
  split
  · exact h
  · split
    · exact M.flushSlot h i
    · exact h

theorem setDomainState (h : P d) (state : Nat) :
    Ensures (fun _ => True) (setDomainState cfg d state) fun r => P r.2 := by
  have h₁ : P { d with altp2mActive := decide (state ≠ 0) } := M.flag d _ h
  unfold Altp2m.setDomainState
  split
  · exact h
  simp only
  split
  · exact h₁
  split
  · refine (loop (fun d v h => M.vcpuDestroy h v) h₁ _).bind fun d' h' => Ensures.pure ?_
    exact foldl_invariant P (fun d i _ h => M.flushSlot h i) h'
  · have h₂ := M.initById h₁ 0
    split
    · exact h₂
    · exact (loop (fun d v h => M.vcpuInitialise h v) h₂ _).bind fun d' h' => Ensures.pure h'

end Moves

theorem StepInvariant.and {cfg : Config} {ok : Machine → Op → Prop} {I P : Domain → Prop}
    (S : StepInvariant cfg ok I) (M : Moves cfg P) (W : Writes cfg fun m => P m.dom) :
    StepInvariant cfg ok fun d => I d ∧ P d where
  writes := S.writes.and W
  ready d h := S.ready d h.1
  index d v h := S.index d v h.1
  setState d s h := (S.setState d s h.1).and (M.setDomainState h.2 s)
  notify d v h ha := ⟨S.notify d v h.1 ha, M.updateVmfuncVe h.2 v⟩
  create d h ha := ⟨S.create d h.1 ha, M.create h.2⟩
  destroy d i h ha := ⟨S.destroy d i h.1 ha, M.destroy h.2 i⟩
  switch d v i h ha hv hi hs := by
    refine ((S.switch d v i h.1 ha hv hi hs).and (M.switchVcpu h.2 i v)).mono ?_
    rintro d' ⟨⟨h₁, h₂⟩, h₃⟩
    exact ⟨⟨h₁, h₃⟩, h₂⟩
  exit m v eptp idx h hop hv := (S.exit m v eptp idx h.1 hop hv).and (M.vmexit h.2 v eptp idx)
  order := S.order

end XenVmi.Altp2m
