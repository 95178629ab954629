import XenVmi.Altp2m.Tables

/-!
# The VMCS of a vCPU agrees with its view index

`Synced d v`: the EPT pointer, the EPTP index and the controls of the VMCS agree with `p2midx`, for
a vCPU without `#VE` info page, which nothing sets.
-/

namespace XenVmi.Altp2m

open XenVmi.Ept XenVmi.Lib

/-- The VMCS of vCPU `v` points to the valid slot `j`. -/
structure Loaded (d : Domain) (v j : Nat) : Prop where
  index : j < maxAltp2m
  slot : d.altp2mEptp j ≠ invalidMfn
  pointer : (d.vcpu v).eptPointer = d.altp2mEptp j
  eptpIndex : (d.vcpu v).virtExceptions = true → (d.vcpu v).eptpIndex = j
  noInfo : (d.vcpu v).veinfoGfn = invalidGfn

def Synced (d : Domain) (v : Nat) : Prop := Loaded d v (d.vcpu v).p2midx

def DistinctSlots (d : Domain) : Prop :=
  ∀ i < maxAltp2m, ∀ j < maxAltp2m, d.altp2mEptp i ≠ invalidMfn →
    d.altp2mEptp i = d.altp2mEptp j → i = j

section

variable {cfg : Config} {d d' : Domain} {v w i : Nat}

theorem Loaded.congr {j : Nat} (S : Loaded d v j) (hv : d'.vcpu v = d.vcpu v)
    (he : d'.altp2mEptp j = d.altp2mEptp j) : Loaded d' v j := by
  refine ⟨S.index, ?_, ?_, ?_, ?_⟩
  · rw [he]; exact S.slot
  · rw [he, hv]; exact S.pointer
  · rw [hv]; exact S.eptpIndex
  · rw [hv]; exact S.noInfo

theorem Synced.congr (S : Synced d v) (hv : d'.vcpu v = d.vcpu v)
    (he : d'.altp2mEptp (d.vcpu v).p2midx = d.altp2mEptp (d.vcpu v).p2midx) : Synced d' v := by
  unfold Synced
  rw [hv]
  exact Loaded.congr S hv he

/-! ## Loading an EPT pointer -/

theorem synced_loadEptp {x : Vcpu} (hx : d.vcpu v = x.loadEptp (d.altp2mEptp x.p2midx))
    (hi : x.p2midx < maxAltp2m) (hs : d.altp2mEptp x.p2midx ≠ invalidMfn)
    (hn : x.veinfoGfn = invalidGfn) : Synced d v := by
  refine ⟨?_, ?_, ?_, ?_, ?_⟩
  all_goals rw [hx]
  · exact hi
  · exact hs
  · rfl
  · intro hve
    have hve : x.virtExceptions = true := hve
    simp [Vcpu.loadEptp, hve]
  · exact hn

theorem altp2mVcpuInitialise_other (R : Ready cfg d) (ha : d.altp2mActive = true)
    (h0 : d.altp2mEptp 0 ≠ invalidMfn) (hv : v < d.vcpus.length) :
    Ensures (fun _ => False) (altp2mVcpuInitialise d v) fun d' =>
      ∀ w, w ≠ v → d'.vcpu w = d.vcpu w := by
  rw [altp2mVcpuInitialise_eq R ha h0 hv]
  intro w hw
  rw [Domain.vcpu_modVcpu_of_ne _ _ hw.symm, Domain.vcpu_modP2m, setP2midx,
    Domain.vcpu_modVcpu_of_ne _ _ hw.symm, altp2mVcpuReset,
    Domain.vcpu_modVcpu_of_ne _ _ hw.symm]

theorem altp2mVcpuInitialise_synced (R : Ready cfg d) (ha : d.altp2mActive = true)
    (h0 : d.altp2mEptp 0 ≠ invalidMfn) (hv : v < d.vcpus.length) :
    Ensures (fun _ => False) (altp2mVcpuInitialise d v) fun d' =>
      Synced d' v ∧ ∀ w, w ≠ v → Synced d w → Synced d' w := by
  have hother := altp2mVcpuInitialise_other R ha h0 hv
  rw [altp2mVcpuInitialise_eq R ha h0 hv] at hother ⊢
  have hv₁ : v < (altp2mVcpuReset d v).vcpus.length := by simpa [altp2mVcpuReset] using hv
  have hv₂ : v < ((setP2midx (altp2mVcpuReset d v) v 0).modP2m 0 (P2m.addActive 1)).vcpus.length :=
    by
    simpa [setP2midx] using hv₁
  refine ⟨?_, fun w hw S => ?_⟩
  · refine synced_loadEptp (x := ((d.vcpu v).reset).setIdx 0) ?_ (show 0 < maxAltp2m by decide)
      h0 rfl
    rw [Domain.vcpu_modVcpu_self _ _ hv₂, Domain.vcpu_modP2m, setP2midx,
      Domain.vcpu_modVcpu_self _ _ hv₁, altp2mVcpuReset, Domain.vcpu_modVcpu_self _ _ hv]
    rfl
  · exact S.congr (hother w hw) rfl

/-- The first `k` vCPUs are in view 0, and their VMCS says so. -/
structure Placed (d : Domain) (k : Nat) : Prop where
  placing : Placing d k
  synced : ∀ v < k, Synced d v

theorem altp2mVcpuInitialise_placed (R : Ready cfg d) (P : Placed d v) (hv : v < d.vcpus.length) :
    Ensures (fun _ => False) (altp2mVcpuInitialise d v)
      fun d' => (Ready cfg d' ∧ Placed d' (v + 1)) ∧ d'.vcpus.length = d.vcpus.length := by
  have h0 : d.altp2mEptp 0 ≠ invalidMfn := (P.placing.slot 0 (by decide)).2 rfl
  have hplace := altp2mVcpuInitialise_placing R P.placing hv
  have hsync := altp2mVcpuInitialise_synced R P.placing.active h0 hv
  refine (hplace.and hsync.weaken).mono ?_
  rintro d' ⟨⟨⟨R', P'⟩, hlen⟩, hself, hold⟩
  refine ⟨⟨R', P', fun w hw => ?_⟩, hlen⟩
  by_cases hwv : w = v
  · subst hwv
    exact hself
  · exact hold w hwv (P.synced w (by omega))

theorem enable_placed (R : Ready cfg d) (ha : d.altp2mActive = true)
    (hs : ∀ i < maxAltp2m, d.altp2mEptp i = invalidMfn)
    (hc : ∀ i < maxAltp2m, (d.altp2mP2m i).activeVcpus = 0) :
    Ensures (fun _ => False) (setStateVcpus cfg false (p2mInitAltp2mById d 0).2)
      fun d' => Placed d' d'.vcpus.length := by
  refine (enable_ensures (P := fun k d' => ∀ v < k, Synced d' v) R ha hs hc
    (fun v hv => absurd hv (Nat.not_lt_zero v)) fun k d' R' P' S hk => ?_).mono ?_
  · exact (altp2mVcpuInitialise_placed R' ⟨P', S⟩ hk).weaken.mono fun d₂ h => h.1.2.synced
  · rintro d' ⟨⟨-, P'⟩, S⟩
    exact ⟨P', S⟩

theorem switchVcpu_eq (R : Ready cfg d) (ha : d.altp2mActive = true) (hv : v < d.vcpus.length)
    (S : Synced d v) (hi : i < maxAltp2m) (hs : d.altp2mEptp i ≠ invalidMfn)
    (hne : i ≠ (d.vcpu v).p2midx) :
    switchVcpu i d v = .ok ((d.moved v i).modVcpu v (Vcpu.loadEptp (d.altp2mEptp i))) := by
  have hidx : ((d.moved v i).vcpu v).p2midx = i := by
    rw [vcpu_moved_self hv]
    rfl
  unfold switchVcpu
  rw [if_pos hne, moveVcpu_eq hv S.index hi, ok_bind,
    vmxVcpuUpdateEptp_eq (R.moved v i) ha (by rw [hidx]; exact hi) (by rw [hidx]; exact hs), hidx]
  rfl

theorem vcpu_switched_self (hv : v < d.vcpus.length) (e : Nat) :
    ((d.moved v i).modVcpu v (Vcpu.loadEptp e)).vcpu v = ((d.vcpu v).setIdx i).loadEptp e := by
  rw [Domain.vcpu_modVcpu_self _ _ (by simpa using hv), vcpu_moved_self hv]

theorem vcpu_switched_of_ne (h : w ≠ v) (e : Nat) :
    ((d.moved v i).modVcpu v (Vcpu.loadEptp e)).vcpu w = d.vcpu w := by
  rw [Domain.vcpu_modVcpu_of_ne _ _ h.symm, vcpu_moved_of_ne h]

theorem switchVcpu_synced (R : Ready cfg d) (ha : d.altp2mActive = true) (hv : v < d.vcpus.length)
    (S : Synced d v) (hi : i < maxAltp2m) (hs : d.altp2mEptp i ≠ invalidMfn) :
    Ensures (fun _ => False) (switchVcpu i d v) fun d' =>
      Synced d' v ∧ ∀ w, w ≠ v → Synced d w → Synced d' w := by
  by_cases hne : i = (d.vcpu v).p2midx
  · unfold switchVcpu
    rw [if_neg (not_not.2 hne)]
    exact ⟨S, fun _ _ Sw => Sw⟩
  · rw [switchVcpu_eq R ha hv S hi hs hne]
    refine ⟨?_, fun w hw Sw => ?_⟩
    · exact synced_loadEptp (vcpu_switched_self hv _) hi hs S.noInfo
    · exact Sw.congr (vcpu_switched_of_ne hw _) rfl

theorem infoMapped_invalidGfn (T : TablesWf cfg d) : infoMapped cfg d invalidGfn = false := by
  have hmfn : (d.hostp2m.getEntry cfg invalidGfn).mfn = invalidMfn :=
    P2m.getEntry_above (T.host.max.trans (by decide))
  unfold infoMapped getGfnQueryUnlocked P2m.getGfnTypeAccess
  simp only
  split
  · simp
  · simp [hmfn]

theorem Vcpu.updateVmfuncVe_fields (cfg : Config) (d : Domain) (x : Vcpu) :
    (x.updateVmfuncVe cfg d).eptPointer = x.eptPointer ∧
      (x.updateVmfuncVe cfg d).eptpIndex = x.eptpIndex ∧
      (x.updateVmfuncVe cfg d).veinfoGfn = x.veinfoGfn := by
  unfold Vcpu.updateVmfuncVe
  split <;> exact ⟨rfl, rfl, rfl⟩

theorem Synced.updateVmfuncVe (T : TablesWf cfg d) (S : Synced d w) (v : Nat) :
    Synced (vmxVcpuUpdateVmfuncVe cfg d v) w := by
  unfold vmxVcpuUpdateVmfuncVe
  split
  · exact S
  by_cases hw : v = w
  · subst hw
    by_cases hv : v < d.vcpus.length
    · obtain ⟨hp, hx, hn⟩ := (d.vcpu v).updateVmfuncVe_fields cfg d
      have hi : ((d.vcpu v).updateVmfuncVe cfg d).p2midx = (d.vcpu v).p2midx :=
        Vcpu.updateVmfuncVe_p2midx _
      refine ⟨?_, ?_, ?_, ?_, ?_⟩
      all_goals rw [Domain.vcpu_modVcpu_self _ _ hv]
      · rw [hi]; exact S.index
      · rw [hi]; exact S.slot
      · rw [hi, hp]; exact S.pointer
      · rw [hi, hx, virtExceptions_eq, secondaryExecControl_updateVmfuncVe,
          virtExceptions_vmfuncVeControls, S.noInfo, infoMapped_invalidGfn T]
        -- a CPU without `#VE` keeps the bit, one with `#VE` clears it
        split
        · exact fun h => absurd h (by simp)
        · rw [← virtExceptions_eq]
          exact S.eptpIndex
      · rw [hn]; exact S.noInfo
    · have hsame : d.modVcpu v (Vcpu.updateVmfuncVe cfg d) = d := by
        unfold Domain.modVcpu
        rw [List.modify_eq_self (Nat.le_of_not_lt hv)]
      rw [hsame]
      exact S
  · exact S.congr (Domain.vcpu_modVcpu_of_ne _ _ hw) rfl

/-! ## The exit -/

theorem p2mFindAltp2mByEptp_slot (R : Ready cfg d) (U : DistinctSlots d) (hi : i < maxAltp2m)
    (hs : d.altp2mEptp i ≠ invalidMfn) : p2mFindAltp2mByEptp d (d.altp2mEptp i) = i := by
  unfold p2mFindAltp2mByEptp
  cases hf : (List.range maxAltp2m).find? (fun j =>
      decide (d.altp2mEptp j ≠ invalidMfn) &&
        decide (d.altp2mEptp i = (d.altp2mP2m j).ept.eptp)) with
  | none =>
    have hno := List.find?_eq_none.1 hf i (List.mem_range.2 hi)
    rw [← (R.slot i hi hs).1] at hno
    simp [hs] at hno
  | some j =>
    have hj := List.mem_range.1 (List.mem_of_find?_eq_some hf)
    have hp := List.find?_some hf
    simp only [Bool.and_eq_true, decide_eq_true_eq] at hp
    rw [← (R.slot j hj hp.1).1] at hp
    exact (U i hi j hj hs hp.2).symm

theorem vmexitIdx_loaded (R : Ready cfg d) (U : DistinctSlots d) {j : Nat} (L : Loaded d v j) :
    vmexitIdx d v = j := by
  unfold vmexitIdx
  split
  · rename_i hve
    exact L.eptpIndex hve
  · rw [L.pointer]
    exact p2mFindAltp2mByEptp_slot R U L.index L.slot

theorem vmexitResync_inactive (ha : ¬ d.altp2mActive = true) : vmexitResync d v = .ok d := by
  unfold vmexitResync
  simp [ha]

theorem vmexitResync_synced (R : Ready cfg d) (U : DistinctSlots d) (S : Synced d v) :
    vmexitResync d v = .ok d := by
  unfold vmexitResync
  split
  · rw [vmexitIdx_loaded R U S, if_neg (not_not.2 rfl)]
  · rfl

end

end XenVmi.Altp2m
