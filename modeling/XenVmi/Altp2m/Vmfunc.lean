import XenVmi.Altp2m.Synced

/-!
# VMFUNC in the processor and VMFUNC by emulation

A processor with VM functions loads an entry of the EPTP list without an exit (`hardwareVmfunc`),
and `vmx_vmexit_handler` finds out at the next one, by `EPTP_INDEX` or by `p2m_find_altp2m_by_eptp`.
Without them `vmx_vcpu_emulate_vmfunc` (`hvm/vmx/vmx.c:1842-1853`) switches.
-/

namespace XenVmi.Altp2m

open XenVmi.Ept XenVmi.Lib

/-! ## The roots of the views -/

/-- The page-table roots of the views are pairwise distinct frames; a frame number has 52 bits. -/
structure DistinctRoots (d : Domain) : Prop where
  bound : ∀ i < maxAltp2m, (d.altp2mP2m i).physTable < 2 ^ 52
  inj : ∀ i < maxAltp2m, ∀ j < maxAltp2m,
    (d.altp2mP2m i).physTable = (d.altp2mP2m j).physTable → i = j

section Roots

variable {cfg : Config} {d : Domain}

theorem DistinctRoots.update (D : DistinctRoots d) (fl : List Nat) {i : Nat} {p : P2m}
    (hp : p.physTable = (d.altp2mP2m i).physTable) :
    DistinctRoots { d with freelist := fl, altp2mP2m := Function.update d.altp2mP2m i p } := by
  have hroot := view_update_eq P2m.physTable hp
  constructor
  · intro j hj
    rw [hroot]
    exact D.bound j hj
  · intro j hj k hk h
    rw [hroot, hroot] at h
    exact D.inj j hj k hk h

theorem DistinctRoots.flushView (D : DistinctRoots d) (i : Nat) :
    DistinctRoots (flushView cfg d i) := by
  refine D.update _ ?_
  unfold p2mFlushTable
  split <;> rfl

theorem moves_roots (cfg : Config) : Moves cfg DistinctRoots where
  vcpu _ _ _ D := ⟨D.bound, D.inj⟩
  view d _ _ hf D := D.update d.freelist (hf _).physTable
  host _ D := ⟨D.bound, D.inj⟩
  flag _ _ D := ⟨D.bound, D.inj⟩
  slot _ _ _ D := ⟨D.bound, D.inj⟩
  flush _ i D := D.flushView i

theorem writes_roots (cfg : Config) : Writes cfg fun m => DistinctRoots m.dom where
  view _ _ _ _ D := D.update _ rfl
  host _ _ _ D := ⟨D.bound, D.inj⟩
  reset _ i _ D := (D.flushView i).update _ rfl
  access m _ _ D := D.update m.dom.freelist rfl
  remapped m _ _ D := D.update m.dom.freelist rfl
  m2p _ _ D := D

theorem eptp_div (e : EptData) : e.eptp / 4096 = e.asr % 2 ^ 52 := by
  unfold EptData.eptp
  cases e.eptAd <;> simp only [Bool.toNat_true, Bool.toNat_false] <;> omega

theorem DistinctRoots.slots (D : DistinctRoots d) (R : Ready cfg d) : DistinctSlots d := by
  intro i hi j hj hs he
  obtain ⟨hei, hai⟩ := R.slot i hi hs
  obtain ⟨hej, haj⟩ := R.slot j hj (he ▸ hs)
  have hframe : (d.altp2mP2m i).physTable % 2 ^ 52 = (d.altp2mP2m j).physTable % 2 ^ 52 := by
    rw [← hai, ← haj, ← eptp_div, ← eptp_div, ← hei, ← hej, he]
  rw [Nat.mod_eq_of_lt (D.bound i hi), Nat.mod_eq_of_lt (D.bound j hj)] at hframe
  exact D.inj i hi j hj hframe

end Roots

/-! ## The instruction -/

/-- The processor loads entry `i` of the EPTP list, which is `eptp`. -/
def Vcpu.loadEntry (eptp i : Nat) (x : Vcpu) : Vcpu :=
  { x with eptPointer := eptp
           eptpIndex := if x.virtExceptions then i else x.eptpIndex }

/-- VMFUNC leaf 0 with `ECX = i` on vCPU `v`, in the processor. -/
def hardwareVmfunc (d : Domain) (v i : Nat) : Domain :=
  if (d.vcpu v).vmFunctions = true ∧ i < maxEptp ∧ d.altp2mEptp i ≠ invalidMfn then
    d.modVcpu v (Vcpu.loadEntry (d.altp2mEptp i) i)
  else d

/-- A VM exit finds what VMFUNC instructions have left in the VMCS; a host write is of 4K, 2M or
1G. -/
def Op.Hardware (m : Machine) : Op → Prop
  | .vmexit v eptp idx => ∃ is : List Nat,
    ((is.foldl (fun d i => hardwareVmfunc d v i) m.dom).vcpu v).eptPointer = eptp ∧
      ((is.foldl (fun d i => hardwareVmfunc d v i) m.dom).vcpu v).eptpIndex = idx
  | .hostSetEntry q => q.order ≤ 18
  | _ => True

section Instruction

variable {cfg : Config} {d : Domain} {v i j : Nat}

theorem lt_of_entry (R : Ready cfg d) (hi : i < maxEptp) (hs : d.altp2mEptp i ≠ invalidMfn) :
    i < maxAltp2m := by
  by_contra hge
  exact hs (R.upper i (Nat.le_of_not_lt hge) hi)

theorem loaded_modVcpu (L : Loaded d v j) (hv : v < d.vcpus.length) (hi : i < maxAltp2m)
    (hs : d.altp2mEptp i ≠ invalidMfn) :
    Loaded (d.modVcpu v (Vcpu.loadEntry (d.altp2mEptp i) i)) v i := by
  refine ⟨hi, hs, ?_, ?_, ?_⟩
  all_goals rw [Domain.vcpu_modVcpu_self _ _ hv]
  · rfl
  · intro hve
    have hve : (d.vcpu v).virtExceptions = true := hve
    simp [Vcpu.loadEntry, hve]
  · exact L.noInfo

/-- What VMFUNC instructions of `v` leave of a domain in which `v` agrees. -/
structure Executed (d : Domain) (v : Nat) (d' : Domain) : Prop where
  eptp : d'.altp2mEptp = d.altp2mEptp
  length : d'.vcpus.length = d.vcpus.length
  controls : (d'.vcpu v).secondaryExecControl = (d.vcpu v).secondaryExecControl
  loaded : ∃ j, Loaded d' v j ∧ ((d.vcpu v).vmFunctions = false → j = (d.vcpu v).p2midx)

theorem Executed.vmfunc {d' : Domain} (E : Executed d v d') (R : Ready cfg d)
    (hv : v < d.vcpus.length) (i : Nat) : Executed d v (hardwareVmfunc d' v i) := by
  obtain ⟨heptp, hlen, hctl, j, L, hj⟩ := E
  unfold hardwareVmfunc
  split
  · rename_i h
    obtain ⟨hf, hi, hs⟩ := h
    have hv' : v < d'.vcpus.length := hlen ▸ hv
    have hi' : i < maxAltp2m := lt_of_entry R hi (heptp ▸ hs)
    refine ⟨heptp, by simpa using hlen, ?_, i, loaded_modVcpu L hv' hi' hs, fun hoff => ?_⟩
    · rw [Domain.vcpu_modVcpu_self _ _ hv']
      exact hctl
    · -- VM functions are on, so they were on before
      rw [vmFunctions_eq] at hf hoff
      rw [hctl, hoff] at hf
      exact absurd hf (by simp)
  · exact ⟨heptp, hlen, hctl, j, L, hj⟩

theorem executed_foldl (R : Ready cfg d) (S : Synced d v) (hv : v < d.vcpus.length)
    (is : List Nat) : Executed d v (is.foldl (fun d i => hardwareVmfunc d v i) d) :=
  foldl_invariant (Executed d v) (fun _ i _ E => E.vmfunc R hv i)
    ⟨rfl, rfl, rfl, _, S, fun _ => rfl⟩

theorem exitWith_loaded {m : Machine} {eptp idx : Nat} (R : Ready cfg m.dom) (S : Synced m.dom v)
    (hv : v < m.dom.vcpus.length) (hop : Op.Hardware m (.vmexit v eptp idx)) :
    ∃ j, Loaded (m.dom.modVcpu v (Vcpu.exitWith eptp idx)) v j ∧
      ((m.dom.vcpu v).vmFunctions = false → j = (m.dom.vcpu v).p2midx) := by
  obtain ⟨is, rfl, rfl⟩ := hop
  obtain ⟨heptp, -, hctl, j, L, hj⟩ := executed_foldl R S hv is
  refine ⟨j, ⟨L.index, ?_, ?_, ?_, ?_⟩, hj⟩
  · exact heptp ▸ L.slot
  all_goals rw [Domain.vcpu_modVcpu_self _ _ hv]
  · exact heptp ▸ L.pointer
  · intro hve
    refine L.eptpIndex ?_
    rw [virtExceptions_eq, hctl, ← virtExceptions_eq]
    exact hve
  · exact S.noInfo

theorem vmexitResync_loaded (R : Ready cfg d) (U : DistinctSlots d) (hv : v < d.vcpus.length)
    (ha : d.altp2mActive = true) (hf : (d.vcpu v).vmFunctions = true) (L : Loaded d v j)
    (hi : (d.vcpu v).p2midx < maxAltp2m) :
    vmexitResync d v = .ok (if j ≠ (d.vcpu v).p2midx then d.moved v j else d) := by
  unfold vmexitResync
  rw [ha, hf]
  simp only [Bool.and_true, if_true]
  rw [vmexitIdx_loaded R U L]
  split
  · rw [if_neg (Nat.not_le.2 L.index), moveVcpu_eq hv hi L.index]
  · rfl

theorem Loaded.moved (L : Loaded d v j) (hv : v < d.vcpus.length) : Synced (d.moved v j) v := by
  refine ⟨?_, ?_, ?_, ?_, ?_⟩
  all_goals rw [vcpu_moved_self hv]
  · exact L.index
  · exact L.slot
  · exact L.pointer
  · exact L.eptpIndex
  · exact L.noInfo

end Instruction

/-! ## Between the operations -/

def Agreed (d : Domain) : Prop := d.altp2mActive = true → ∀ v < d.vcpus.length, Synced d v

section Agreement

variable {cfg : Config} {d d' : Domain} {b : Board} {v i : Nat}

theorem Agreed.of_shell (A : Agreed d) (h : d'.shell = d.shell) : Agreed d' := by
  intro ha v hv
  rw [altp2mActive_of_shell h] at ha
  rw [vcpus_of_shell h] at hv
  exact (A ha v hv).congr (vcpu_of_shell h v) (by rw [altp2mEptp_of_shell h])

theorem setDomainState_agreed (S : Switching cfg d) (A : Agreed d) (state : Nat) :
    Ensures (fun _ => False) (setDomainState cfg d state) fun r => Agreed r.2 := by
  refine setDomainState_ensures S state A (fun b B => ?_) fun O => ?_
  · refine (disable_off S.1 B).mono fun d' h ha => ?_
    rw [h.2.inactive] at ha
    exact absurd ha (by simp)
  · have R' : Ready cfg { d with altp2mActive := true } := ⟨S.1.init, S.1.np2m, S.1.slot, S.1.upper⟩
    exact (enable_placed R' rfl O.slot O.count).mono fun d' P _ => P.synced

theorem Agreed.updateVmfuncVe (A : Agreed d) (T : TablesWf cfg d) (v : Nat) :
    Agreed (vmxVcpuUpdateVmfuncVe cfg d v) := by
  intro ha w hw
  rw [(shape_updateVmfuncVe cfg d v).1] at ha
  rw [← length_indices, indices_updateVmfuncVe, length_indices] at hw
  exact (A ha w hw).updateVmfuncVe T v

theorem Agreed.create (A : Agreed d) : Agreed (p2mInitNextAltp2m d).2.2 := by
  unfold p2mInitNextAltp2m
  split
  · rename_i i h
    have hs := List.find?_some h
    simp only [decide_eq_true_eq] at hs
    intro ha v hv
    have S := A ha v hv
    refine S.congr rfl (Function.update_of_ne ?_ _ _)
    rintro heq
    exact S.slot (heq ▸ hs)
  · exact A

theorem Agreed.destroy (A : Agreed d) (R : Ready cfg d) (B : Rep d b) (idx : Nat) :
    Agreed (p2mDestroyAltp2mById cfg d idx).2 := by
  unfold p2mDestroyAltp2mById
  split
  · exact A
  rename_i hidx
  obtain ⟨-, hlt⟩ := not_or.1 hidx
  have hi := Nat.lt_of_not_le hlt
  split
  · rename_i h
    have hp : idx ∉ b.place := Board.count_eq_zero.1 (by rw [← B.count idx hi]; exact h.2)
    rw [flushSlot_eq R hi]
    intro ha v hv
    refine (A ha v hv).congr rfl (Function.update_of_ne ?_ _ _)
    intro heq
    exact hp (heq ▸ List.mem_of_getElem? (B.getElem_place hv))
  · exact A

theorem Agreed.switch (A : Agreed d) (R : Ready cfg d) (ha : d.altp2mActive = true)
    (hv : v < d.vcpus.length) (hi : i < maxAltp2m) (hs : d.altp2mEptp i ≠ invalidMfn) :
    Ensures (fun _ => False) (switchVcpu i d v)
      fun d' => d'.vcpus.length = d.vcpus.length → Agreed d' := by
  refine (switchVcpu_synced R ha hv (A ha v hv) hi hs).mono ?_
  rintro d' ⟨hself, hother⟩ hlen - w hw
  by_cases hwv : w = v
  · subst hwv
    exact hself
  · exact hother w hwv (A ha w (hlen ▸ hw))

variable {eptp idx : Nat} {m : Machine}

theorem Agreed.exitWith (A : Agreed d)
    (L : Loaded (d.modVcpu v (Vcpu.exitWith eptp idx)) v (d.vcpu v).p2midx)
    (hv : v < d.vcpus.length) : Agreed (d.modVcpu v (Vcpu.exitWith eptp idx)) := by
  intro ha w hw
  by_cases hwv : w = v
  · subst hwv
    unfold Synced
    rw [Domain.vcpu_modVcpu_self _ _ hv]
    exact L
  · refine (A ha w (by simpa using hw)).congr (Domain.vcpu_modVcpu_of_ne _ _ (Ne.symm hwv)) rfl

theorem Agreed.exit (A : Agreed m.dom) (R : Ready cfg m.dom) (D : DistinctRoots m.dom)
    (hv : v < m.dom.vcpus.length) (hop : Op.Hardware m (.vmexit v eptp idx)) :
    Ensures (fun _ => False) (vmexit m.dom v eptp idx) Agreed := by
  unfold vmexit
  set d₁ := m.dom.modVcpu v (Vcpu.exitWith eptp idx) with hd₁
  have hv₁ : v < d₁.vcpus.length := by simpa [hd₁] using hv
  have hvcpu : d₁.vcpu v = (m.dom.vcpu v).exitWith eptp idx := Domain.vcpu_modVcpu_self _ _ hv
  by_cases ha : m.dom.altp2mActive = true
  · have S := A ha v hv
    obtain ⟨j, L, hj⟩ := exitWith_loaded R S hv hop
    by_cases hf : (m.dom.vcpu v).vmFunctions = true
    · have hf₁ : (d₁.vcpu v).vmFunctions = true := by rw [hvcpu]; exact hf
      have hidx : (d₁.vcpu v).p2midx = (m.dom.vcpu v).p2midx := by rw [hvcpu]; rfl
      rw [vmexitResync_loaded (R.modVcpu v _) (D.slots R) hv₁ ha hf₁ L (hidx ▸ S.index), hidx]
      split
      · -- the vCPU has moved to view `j`
        intro _ w hw
        by_cases hwv : w = v
        · subst hwv
          exact L.moved hv₁
        · refine (A ha w (by simpa [hd₁] using hw)).congr ?_ rfl
          rw [vcpu_moved_of_ne hwv, Domain.vcpu_modVcpu_of_ne _ _ (Ne.symm hwv)]
      · rename_i heq
        exact A.exitWith ((not_not.1 heq) ▸ L) hv
    · have hf : (m.dom.vcpu v).vmFunctions = false := by simpa using hf
      have hoff : (d₁.vcpu v).vmFunctions = false := by rw [hvcpu]; exact hf
      have hnone : vmexitResync d₁ v = .ok d₁ := by
        unfold vmexitResync
        simp [hoff]
      rw [hnone]
      exact A.exitWith (hj hf ▸ L) hv
  · rw [vmexitResync_inactive (show ¬ d₁.altp2mActive = true from ha)]
    exact fun ha' => absurd ha' ha

theorem hardware_admissible (A : Agreed m.dom) (R : Ready cfg m.dom)
    (D : DistinctRoots m.dom) (hv : v < m.dom.vcpus.length)
    (hop : Op.Hardware m (.vmexit v eptp idx)) : Op.Admissible m (.vmexit v eptp idx) := by
  intro ha _
  obtain ⟨j, L, -⟩ := exitWith_loaded R (A ha v hv) hv hop
  rw [vmexitIdx_loaded (R.modVcpu v _) (D.slots R) L]
  exact ⟨L.index, L.slot⟩

def VmfuncInv (cfg : Config) (d : Domain) : Prop :=
  ((Switching cfg d ∧ TablesWf cfg d) ∧ DistinctRoots d) ∧ Agreed d

theorem agreed_invariant (cfg : Config) : StepInvariant cfg Op.Hardware (VmfuncInv cfg) :=
  have base := (tables_invariant cfg).and (moves_roots cfg) (writes_roots cfg)
  { writes := Writes.and_shell (B := fun d => (Switching cfg d ∧ TablesWf cfg d) ∧ DistinctRoots d)
      base.writes (fun _ h => h.1.1.1) fun _ _ h A => A.of_shell h
    ready := fun d h => h.1.1.1.1
    index := fun d v h => base.index d v h.1
    setState := fun d s h =>
      (base.setState d s h.1).and (setDomainState_agreed h.1.1.1 h.2 s).weaken
    notify := fun d v h ha => ⟨base.notify d v h.1 ha, h.2.updateVmfuncVe h.1.1.2 v⟩
    create := fun d h ha => ⟨base.create d h.1 ha, h.2.create⟩
    destroy := fun d idx h ha => by
      obtain ⟨b, B⟩ := h.1.1.1.rep ha
      exact ⟨base.destroy d idx h.1 ha, h.2.destroy h.1.1.1.1 B idx⟩
    switch := fun d v idx h ha hv hi hs => by
      refine ((base.switch d v idx h.1 ha hv hi hs).and
        (h.2.switch h.1.1.1.1 ha hv hi hs).weaken).mono ?_
      rintro d' ⟨⟨h', ha', hlen, he⟩, A'⟩
      exact ⟨⟨h', A' hlen⟩, ha', hlen, he⟩
    exit := fun m v eptp idx h hop hv => by
      have hadm := hardware_admissible h.2 h.1.1.1.1 h.1.2 hv hop
      exact (base.exit m v eptp idx h.1 hadm hv).and (h.2.exit h.1.1.1.1 h.1.2 hv hop).weaken
    order := fun m q hop => hop }

end Agreement

/-! ## The two ways -/

/-- The two domains have their vCPUs in the same views, with the same EPT pointers and counters. -/
structure SameViewOfAll (d₁ d₂ : Domain) : Prop where
  p2midx : ∀ w, (d₁.vcpu w).p2midx = (d₂.vcpu w).p2midx
  eptPointer : ∀ w, (d₁.vcpu w).eptPointer = (d₂.vcpu w).eptPointer
  activeVcpus : ∀ j, (d₁.altp2mP2m j).activeVcpus = (d₂.altp2mP2m j).activeVcpus

section Ways

variable {cfg : Config} {d : Domain} {v i : Nat}

theorem hardware_valid (R : Ready cfg d) (U : DistinctSlots d) (ha : d.altp2mActive = true)
    (hv : v < d.vcpus.length) (hf : (d.vcpu v).vmFunctions = true) (S : Synced d v)
    (hi : i < maxAltp2m) (hs : d.altp2mEptp i ≠ invalidMfn) :
    ∃ d₁ d₂, vmexitResync (d.modVcpu v (Vcpu.loadEntry (d.altp2mEptp i) i)) v = .ok d₁ ∧
      switchVcpu i d v = .ok d₂ ∧ SameViewOfAll d₁ d₂ ∧ (d₁.vcpu v).p2midx = i := by
  have L := loaded_modVcpu S hv hi hs
  have hvcpu : (d.modVcpu v (Vcpu.loadEntry (d.altp2mEptp i) i)).vcpu v
      = (d.vcpu v).loadEntry (d.altp2mEptp i) i := Domain.vcpu_modVcpu_self _ _ hv
  have hother : ∀ w, w ≠ v → (d.modVcpu v (Vcpu.loadEntry (d.altp2mEptp i) i)).vcpu w = d.vcpu w :=
    fun w hw => Domain.vcpu_modVcpu_of_ne _ _ hw.symm
  set d₀ := d.modVcpu v (Vcpu.loadEntry (d.altp2mEptp i) i) with hd₀
  have hv₀ : v < d₀.vcpus.length := by simpa [hd₀] using hv
  have hidx : (d₀.vcpu v).p2midx = (d.vcpu v).p2midx := by rw [hvcpu]; rfl
  have hf₀ : (d₀.vcpu v).vmFunctions = true := by rw [hvcpu]; exact hf
  have hexit := vmexitResync_loaded (R.modVcpu v _) U hv₀ ha hf₀ L (hidx ▸ S.index)
  rw [hidx] at hexit
  by_cases hne : i = (d.vcpu v).p2midx
  · -- the vCPU is in view `i` already, and the pointer was that of the slot
    rw [if_neg (not_not.2 hne)] at hexit
    refine ⟨d₀, d, hexit, if_neg (not_not.2 hne), ⟨fun w => ?_, fun w => ?_, fun _ => rfl⟩,
      hidx.trans hne.symm⟩
    · by_cases hw : w = v
      · rw [hw, hidx]
      · rw [hother w hw]
    · by_cases hw : w = v
      · rw [hw, hvcpu, S.pointer, ← hne]
        rfl
      · rw [hother w hw]
  · rw [if_pos hne] at hexit
    refine ⟨_, _, hexit, switchVcpu_eq R ha hv S hi hs hne, ⟨fun w => ?_, fun w => ?_, fun j => ?_⟩,
      ?_⟩
    · by_cases hw : w = v
      · subst hw
        rw [vcpu_moved_self hv₀, vcpu_switched_self hv]
        rfl
      · rw [vcpu_moved_of_ne hw, hother w hw, vcpu_switched_of_ne hw]
    · by_cases hw : w = v
      · subst hw
        rw [vcpu_moved_self hv₀, vcpu_switched_self hv, hvcpu]
        rfl
      · rw [vcpu_moved_of_ne hw, hother w hw, vcpu_switched_of_ne hw]
    · unfold Domain.moved
      rw [hidx]
      rfl
    · rw [vcpu_moved_self hv₀]
      rfl

theorem p2mSwitchVcpuAltp2mById_invalid (h : ¬ (i < maxAltp2m ∧ d.altp2mEptp i ≠ invalidMfn)) :
    p2mSwitchVcpuAltp2mById d v i = .ok (false, d) := by
  unfold p2mSwitchVcpuAltp2mById
  split
  · rfl
  · rename_i hi
    split
    · rename_i hs
      exact absurd ⟨Nat.lt_of_not_le hi, hs⟩ h
    · rfl

theorem hardwareVmfunc_invalid (R : Ready cfg d)
    (h : ¬ (i < maxAltp2m ∧ d.altp2mEptp i ≠ invalidMfn)) : hardwareVmfunc d v i = d := by
  unfold hardwareVmfunc
  rw [if_neg]
  rintro ⟨-, hi, hs⟩
  exact h ⟨lt_of_entry R hi hs, hs⟩

theorem vmxVcpuEmulateVmfunc_eq (S : Switching cfg d) {cfg' : Config}
    (hcpu : cfg'.hasVmfunc = false) :
    vmxVcpuEmulateVmfunc cfg' d v 0 i = p2mSwitchVcpuAltp2mById d v i := by
  unfold vmxVcpuEmulateVmfunc
  by_cases ha : d.altp2mActive = true
  · simp [hcpu, ha]
  · -- with altp2m off there is no valid slot
    rcases S.2 with O | ⟨b, B⟩
    · rw [p2mSwitchVcpuAltp2mById_invalid fun h => h.2 (O.slot i h.1)]
      simp [ha]
    · exact absurd B.active ha

/-- **VMFUNC in the processor and VMFUNC by emulation agree**, in every state that a domain with
distinct roots reaches: the instruction followed by an exit, and the emulation, end with the same
views, EPT pointers and counters. No exit stops at the `BUG_ON`. -/
theorem vmfunc_agrees_with_emulation (cfg : Config) (m₀ m : Machine) (fresh : Fresh cfg m₀.dom)
    (roots : DistinctRoots m₀.dom) (run : Reaches (step cfg) Op.Hardware m₀ m) :
    (∀ v i, v < m.dom.vcpus.length → (m.dom.vcpu v).vmFunctions = true →
      ∃ d₁ d₂ done, vmexitResync (hardwareVmfunc m.dom v i) v = .ok d₁ ∧
        p2mSwitchVcpuAltp2mById m.dom v i = .ok (done, d₂) ∧
        (∀ cfg' : Config, cfg'.hasVmfunc = false →
          vmxVcpuEmulateVmfunc cfg' m.dom v 0 i = .ok (done, d₂)) ∧
        SameViewOfAll d₁ d₂ ∧
        (m.dom.altp2mActive = true →
          p2mFindAltp2mByEptp (hardwareVmfunc m.dom v i)
              ((hardwareVmfunc m.dom v i).vcpu v).eptPointer = (d₁.vcpu v).p2midx ∧
            (d₁.vcpu v).p2midx < maxAltp2m)) ∧
    ∀ w eptp idx, Op.Hardware m (.vmexit w eptp idx) →
      ∃ m', step cfg m (.vmexit w eptp idx) = .ok m' := by
  have start : VmfuncInv cfg m₀.dom := by
    refine ⟨⟨fresh_tables fresh, roots⟩, fun ha => ?_⟩
    rw [fresh.start.1] at ha
    exact absurd ha (by simp)
  have I := (agreed_invariant cfg).run start run
  obtain ⟨⟨⟨S, T⟩, D⟩, A⟩ := I
  have R := S.1
  have U := D.slots R
  refine ⟨fun v i hv hf => ?_, fun w eptp idx hop => ?_⟩
  · by_cases h : i < maxAltp2m ∧ m.dom.altp2mEptp i ≠ invalidMfn
    · have ha : m.dom.altp2mActive = true := by
        rcases S.2 with O | ⟨b, B⟩
        · exact absurd (O.slot i h.1) h.2
        · exact B.active
      have Sv := A ha v hv
      have hload : hardwareVmfunc m.dom v i
          = m.dom.modVcpu v (Vcpu.loadEntry (m.dom.altp2mEptp i) i) :=
        if_pos ⟨hf, h.1.trans (by decide), h.2⟩
      obtain ⟨d₁, d₂, h₁, h₂, same, hidx⟩ := hardware_valid R U ha hv hf Sv h.1 h.2
      have hswitch : p2mSwitchVcpuAltp2mById m.dom v i = .ok (true, d₂) := by
        unfold p2mSwitchVcpuAltp2mById
        rw [if_neg (Nat.not_le.2 h.1), if_pos h.2, h₂]
        rfl
      refine ⟨d₁, d₂, true, by rw [hload]; exact h₁, hswitch, ?_, same, fun _ => ?_⟩
      · intro cfg' hcpu
        rw [vmxVcpuEmulateVmfunc_eq S hcpu, hswitch]
      · rw [hload, hidx]
        have hp := (loaded_modVcpu Sv hv h.1 h.2).pointer
        rw [hp]
        exact ⟨p2mFindAltp2mByEptp_slot (R.modVcpu v _) U h.1 h.2, h.1⟩
    · have hsame : hardwareVmfunc m.dom v i = m.dom := hardwareVmfunc_invalid R h
      have hswitch := p2mSwitchVcpuAltp2mById_invalid (v := v) h
      have hexit : vmexitResync m.dom v = .ok m.dom := by
        by_cases ha : m.dom.altp2mActive = true
        · exact vmexitResync_synced R U (A ha v hv)
        · exact vmexitResync_inactive ha
      refine ⟨m.dom, m.dom, false, by rw [hsame]; exact hexit, hswitch, ?_,
        ⟨fun _ => rfl, fun _ => rfl, fun _ => rfl⟩, fun ha => ?_⟩
      · intro cfg' hcpu
        rw [vmxVcpuEmulateVmfunc_eq S hcpu, hswitch]
      · have Sv := A ha v hv
        rw [hsame, Sv.pointer]
        exact ⟨p2mFindAltp2mByEptp_slot R U Sv.index Sv.slot, Sv.index⟩
  · cases hs : step cfg m (.vmexit w eptp idx) with
    | ok m' => exact ⟨m', rfl⟩
    | error f =>
      exact (((agreed_invariant cfg).step ⟨⟨⟨S, T⟩, D⟩, A⟩ hop).of_error hs).2.elim

end Ways

def enableCreate : List Op :=
  [plainHypercall { plainOp with state := 1 } .setDomainState, plainHypercall plainOp .createP2m]

theorem vmfuncMachine_roots : DistinctRoots vmfuncMachine.dom :=
  ⟨by decide +kernel, by decide +kernel⟩

theorem vmfunc_agrees_with_emulation_view_one :
    ∃ m d₁ d₂ done, Reaches (step vmfuncConfig) Op.Hardware vmfuncMachine m ∧
      vmexitResync (hardwareVmfunc m.dom 0 1) 0 = .ok d₁ ∧
      p2mSwitchVcpuAltp2mById m.dom 0 1 = .ok (done, d₂) ∧ SameViewOfAll d₁ d₂ ∧
      (m.dom.vcpu 0).p2midx = 0 ∧ (d₁.vcpu 0).p2midx = 1 := by
  obtain ⟨m, run, hlen, hf, hidx, d, hd, hone⟩ :
      ∃ m, Reaches (step vmfuncConfig) Op.Hardware vmfuncMachine m ∧ 0 < m.dom.vcpus.length ∧
        (m.dom.vcpu 0).vmFunctions = true ∧ (m.dom.vcpu 0).p2midx = 0 ∧
        ∃ d, vmexitResync (hardwareVmfunc m.dom 0 1) 0 = .ok d ∧ (d.vcpu 0).p2midx = 1 :=
    Reaches.exists_of_foldlM (l := enableCreate)
      (by simp [enableCreate, plainHypercall, Op.Hardware]) (by decide +kernel)
  obtain ⟨d₁, d₂, done, h₁, h₂, -, same, -⟩ :=
    (vmfunc_agrees_with_emulation vmfuncConfig vmfuncMachine m vmfuncMachine_fresh
      vmfuncMachine_roots run).1 0 1 hlen hf
  rw [h₁] at hd
  cases hd
  exact ⟨m, _, d₂, done, run, h₁, h₂, same, hidx, hone⟩

end XenVmi.Altp2m
