import XenVmi.Altp2m.Board
import XenVmi.Altp2m.Controls

/-!
# The switching code carries out the operations of the board

One lemma for each function of `mm/p2m.c`, `mm/altp2m.c` and `hvm/vmx/vmx.c` that changes the EPTP
list, a `p2midx` or a counter.
-/

namespace XenVmi.Altp2m

open XenVmi.Ept XenVmi.Lib List

section

variable {cfg : Config} {d d' : Domain} {b : Board} {v w i : Nat}

/-! ## Frames of the small updates -/

@[simp] theorem P2m.addActive_zero (p : P2m) : p.addActive 0 = p := by
  unfold P2m.addActive
  rw [Int.add_zero]

theorem altp2mP2m_addActive (d : Domain) (i : Nat) (n : Int) (x : Nat) :
    (d.modP2m i (P2m.addActive n)).altp2mP2m x
      = (d.altp2mP2m x).addActive (if x = i then n else 0) := by
  by_cases hx : x = i
  · subst hx; simp
  · simp [hx]

theorem Ready.addActive (R : Ready cfg d) (i : Nat) (n : Int) :
    Ready cfg (d.modP2m i (P2m.addActive n)) where
  init x hx := by rw [altp2mP2m_addActive]; exact R.init x hx
  np2m x hx := by rw [altp2mP2m_addActive]; exact R.np2m x hx
  slot x hx := by rw [altp2mP2m_addActive]; exact R.slot x hx
  upper := R.upper

theorem Ready.modVcpu (R : Ready cfg d) (v : Nat) (f : Vcpu → Vcpu) : Ready cfg (d.modVcpu v f) :=
  ⟨R.init, R.np2m, R.slot, R.upper⟩

theorem Rep.modVcpu (B : Rep d b) (v : Nat) {f : Vcpu → Vcpu} (h : ∀ x, (f x).p2midx = x.p2midx) :
    Rep (d.modVcpu v f) b :=
  ⟨B.active, B.lt, B.slot, (indices_modVcpu d v f h).trans B.place, B.count⟩

theorem Ready.eptp_ne (R : Ready cfg d) (hi : i < maxAltp2m) (asr : Nat) :
    EptData.eptp { (d.altp2mP2m i).ept with asr := asr } ≠ invalidMfn := by
  have hmt : (d.altp2mP2m i).ept.eptMt = 6 := by
    rw [← R.init i hi]
    rfl
  unfold EptData.eptp invalidMfn
  simp only [hmt]
  omega

theorem P2m.syncAsr_eq {p : P2m} (h : p.ept.asr = p.physTable) : p.syncAsr = p := by
  obtain ⟨_, physTable⟩ := p
  simp only at h
  subst h
  rfl

theorem Ready.syncAsr_eq (R : Ready cfg d) (hi : i < maxAltp2m)
    (hs : d.altp2mEptp i ≠ invalidMfn) : d.modP2m i P2m.syncAsr = d := by
  unfold Domain.modP2m
  rw [P2m.syncAsr_eq (R.slot i hi hs).2, Function.update_eq_self]

/-! ## Moving one vCPU -/

theorem p2mGetAltp2m_of_lt (h : (d.vcpu v).p2midx < maxAltp2m) :
    p2mGetAltp2m d v = .ok (some (d.vcpu v).p2midx) := by
  have hne : (d.vcpu v).p2midx ≠ invalidAltp2m := by
    unfold maxAltp2m at h
    unfold invalidAltp2m
    omega
  unfold p2mGetAltp2m
  simp [hne, Nat.not_le.2 h]

def Domain.moved (d : Domain) (v i : Nat) : Domain :=
  ((d.modP2m (d.vcpu v).p2midx (P2m.addActive (-1))).modVcpu v (Vcpu.setIdx i)).modP2m i
    (P2m.addActive 1)

@[simp] theorem length_moved (d : Domain) (v i : Nat) :
    (d.moved v i).vcpus.length = d.vcpus.length := by
  simp [Domain.moved]

theorem vcpu_moved_self (hv : v < d.vcpus.length) : (d.moved v i).vcpu v = (d.vcpu v).setIdx i :=
  Domain.vcpu_modVcpu_self _ _ hv

theorem vcpu_moved_of_ne (h : w ≠ v) : (d.moved v i).vcpu w = d.vcpu w :=
  Domain.vcpu_modVcpu_of_ne _ _ h.symm

theorem Ready.moved (R : Ready cfg d) (v i : Nat) : Ready cfg (d.moved v i) :=
  ((R.addActive _ _).modVcpu _ _).addActive _ _

theorem moveVcpu_eq (hv : v < d.vcpus.length) (hj : (d.vcpu v).p2midx < maxAltp2m)
    (hi : i < maxAltp2m) : moveVcpu d v i = .ok (d.moved v i) := by
  have hset : (setP2midx (d.modP2m (d.vcpu v).p2midx (P2m.addActive (-1))) v i).vcpu v
      = (d.vcpu v).setIdx i :=
    Domain.vcpu_modVcpu_self _ _ hv
  unfold moveVcpu
  rw [p2mGetAltp2m_of_lt hj]
  simp only [atomicAdd, ok_bind]
  rw [p2mGetAltp2m_of_lt (by rw [hset]; exact hi), hset]
  rfl

variable (R : Ready cfg d)

include R

theorem moveVcpu_rep (B : Rep d b) (hv : v < d.vcpus.length) (hi : i ∈ b.valid) :
    Ensures (fun _ => False) (moveVcpu d v i)
      fun d' => Ready cfg d' ∧ Rep d' (b.move v i hi) ∧ d'.altp2mEptp = d.altp2mEptp := by
  have hj := B.getElem_place hv
  rw [moveVcpu_eq hv (B.p2midx_lt hv) (B.lt i hi)]
  refine ⟨R.moved v i, ⟨B.active, B.lt, B.slot, ?_, ?_⟩, rfl⟩
  · show (Domain.modVcpu _ v (Vcpu.setIdx i)).indices = _
    rw [indices_modVcpu_set _ v i _ fun _ => rfl]
    show d.indices.set v i = _
    rw [B.place]
    rfl
  · intro x hx
    obtain ⟨hlen, hget⟩ := List.getElem?_eq_some_iff.1 hj
    unfold Domain.moved
    rw [b.count_move hi hlen, hget, altp2mP2m_addActive]
    show (((d.modP2m _ _).altp2mP2m x).addActive _).activeVcpus = _
    rw [altp2mP2m_addActive]
    show (d.altp2mP2m x).activeVcpus + _ + _ = _
    rw [B.count x hx]

theorem vmxVcpuUpdateEptp_eq (ha : d.altp2mActive = true)
    (hi : (d.vcpu v).p2midx < maxAltp2m) (hs : d.altp2mEptp (d.vcpu v).p2midx ≠ invalidMfn) :
    vmxVcpuUpdateEptp d v
      = .ok (d.modVcpu v (Vcpu.loadEptp (d.altp2mEptp (d.vcpu v).p2midx))) := by
  unfold vmxVcpuUpdateEptp
  rw [if_pos ha, p2mGetAltp2m_of_lt hi, ok_bind]
  unfold updateEptpFrom
  simp only [R.syncAsr_eq hi hs]
  rw [(R.slot _ hi hs).1]
  rfl

theorem switchVcpu_rep (B : Rep d b) (hv : v < d.vcpus.length) (hi : i ∈ b.valid) :
    Ensures (fun _ => False) (switchVcpu i d v)
      fun d' => Ready cfg d' ∧ Rep d' (b.move v i hi) ∧ d'.vcpus.length = d.vcpus.length ∧
        d'.altp2mEptp = d.altp2mEptp := by
  unfold switchVcpu
  split
  · refine (moveVcpu_rep R B hv hi).bind fun d₁ h₁ => ?_
    obtain ⟨R₁, B₁, he⟩ := h₁
    have hlen : d₁.vcpus.length = d.vcpus.length := by
      rw [← B₁.length_eq, ← B.length_eq]
      exact length_set
    have hv₁ : v < d₁.vcpus.length := hlen ▸ hv
    have hmem := B₁.p2midx_mem hv₁
    rw [vmxVcpuUpdateEptp_eq R₁ B₁.active (B₁.lt _ hmem) ((B₁.slot _ (B₁.lt _ hmem)).2 hmem)]
    exact ⟨R₁.modVcpu _ _, B₁.modVcpu _ fun _ => rfl, by simpa using hlen, he⟩
  · rename_i h
    rw [b.move_self hi (by rw [B.getElem_place hv, not_not.1 h])]
    exact ⟨R, B, rfl, rfl⟩

/-! ## Creating and destroying views -/

theorem Ready.modP2m {f : P2m → P2m}
    (hinit : (f (d.altp2mP2m i)).ept.init cfg = (f (d.altp2mP2m i)).ept)
    (hnp : (f (d.altp2mP2m i)).np2mBase = p2mBaseEaddr)
    (hslot : d.altp2mEptp i ≠ invalidMfn → d.altp2mEptp i = (f (d.altp2mP2m i)).ept.eptp ∧
      (f (d.altp2mP2m i)).ept.asr = (f (d.altp2mP2m i)).physTable) : Ready cfg (d.modP2m i f) := by
  refine ⟨fun x hx => ?_, fun x hx => ?_, fun x hx => ?_, R.upper⟩ <;>
    by_cases h : x = i
  · subst h; simpa using hinit
  · simpa [h] using R.init x hx
  · subst h; simpa using hnp
  · simpa [h] using R.np2m x hx
  · subst h; simpa using hslot
  · simpa [h] using R.slot x hx

theorem Ready.setEptp (hi : i < maxAltp2m) {e : Nat}
    (he : e ≠ invalidMfn →
      e = (d.altp2mP2m i).ept.eptp ∧ (d.altp2mP2m i).ept.asr = (d.altp2mP2m i).physTable) :
    Ready cfg (d.setEptp i e) := by
  refine ⟨R.init, R.np2m, fun x hx => ?_, fun x hx hx' => ?_⟩
  · by_cases h : x = i
    · subst h; simpa using he
    · simpa [h] using R.slot x hx
  · have h : x ≠ i := by omega
    simpa [h] using R.upper x hx hx'

theorem p2mInitAltp2mHelper_ready (hi : i < maxAltp2m)
    (hs : d.altp2mEptp i = invalidMfn) : Ready cfg (p2mInitAltp2mHelper d i) := by
  refine Ready.setEptp (R.modP2m ?_ (R.np2m i hi) fun h => absurd hs h) hi fun _ => ?_
  · exact congrArg (fun e : EptData => { e with asr := (d.altp2mP2m i).physTable }) (R.init i hi)
  · simp [P2m.syncAsr]

theorem p2mInitAltp2mHelper_slot (hi : i < maxAltp2m) (x : Nat) :
    (p2mInitAltp2mHelper d i).altp2mEptp x ≠ invalidMfn
      ↔ x = i ∨ d.altp2mEptp x ≠ invalidMfn := by
  unfold p2mInitAltp2mHelper
  by_cases h : x = i
  · subst h
    simpa [P2m.syncAsr] using R.eptp_ne hi (d.altp2mP2m x).physTable
  · simp [h]

omit R

theorem p2mInitAltp2mHelper_count (d : Domain) (i x : Nat) :
    ((p2mInitAltp2mHelper d i).altp2mP2m x).activeVcpus = (d.altp2mP2m x).activeVcpus := by
  unfold p2mInitAltp2mHelper
  by_cases h : x = i
  · subst h; simp [P2m.syncAsr]
  · simp [h]

variable (R : Ready cfg d)

include R

theorem p2mInitAltp2mHelper_rep (B : Rep d b) (hi : i < maxAltp2m) :
    Rep (p2mInitAltp2mHelper d i) (b.create i) := by
  refine ⟨B.active, fun x hx => ?_, fun x hx => ?_, B.place, fun x hx => ?_⟩
  · rcases Finset.mem_insert.1 hx with rfl | hx
    · exact hi
    · exact B.lt x hx
  · rw [p2mInitAltp2mHelper_slot R hi, B.slot x hx]
    exact Finset.mem_insert.symm
  · rw [p2mInitAltp2mHelper_count]
    exact B.count x hx

theorem p2mInitNextAltp2m_rep (B : Rep d b) :
    Ready cfg (p2mInitNextAltp2m d).2.2 ∧ ∃ b', Rep (p2mInitNextAltp2m d).2.2 b' := by
  unfold p2mInitNextAltp2m
  split
  · rename_i i h
    have hs := List.find?_some h
    have hi := mem_range.1 (mem_of_find?_eq_some h)
    simp only [decide_eq_true_eq] at hs
    exact ⟨p2mInitAltp2mHelper_ready R hi hs, b.create i, p2mInitAltp2mHelper_rep R B hi⟩
  · exact ⟨R, b, B⟩

theorem flushSlot_eq (hi : i < maxAltp2m) : flushSlot cfg d i = d.setEptp i invalidMfn := by
  unfold flushSlot
  rw [flushView_eq R hi]

theorem Ready.flushSlot (hi : i < maxAltp2m) : Ready cfg (flushSlot cfg d i) := by
  rw [flushSlot_eq R hi]
  exact R.setEptp hi fun h => absurd rfl h

theorem p2mDestroyAltp2mById_rep (B : Rep d b) (idx : Nat) :
    Ready cfg (p2mDestroyAltp2mById cfg d idx).2 ∧
      ∃ b', Rep (p2mDestroyAltp2mById cfg d idx).2 b' := by
  unfold p2mDestroyAltp2mById
  split
  · exact ⟨R, b, B⟩
  rename_i hidx
  obtain ⟨h0, hlt⟩ := not_or.1 hidx
  have hi := Nat.lt_of_not_le hlt
  split
  · rename_i h
    have hp : idx ∉ b.place := Board.count_eq_zero.1 (by rw [← B.count idx hi]; exact h.2)
    refine ⟨R.flushSlot hi, b.destroy idx h0 hp, ?_⟩
    rw [flushSlot_eq R hi]
    refine ⟨B.active, fun x hx => B.lt x (Finset.mem_of_mem_erase hx), fun x hx => ?_, B.place,
      B.count⟩
    by_cases hx' : x = idx
    · subst hx'
      simp [Board.destroy]
    · simpa [hx', Board.destroy] using B.slot x hx
  · exact ⟨R, b, B⟩

omit R

/-! ## Turning altp2m on -/

/-- The loop of `HVMOP_altp2m_set_domain_state` has initialised the first `k` vCPUs. -/
structure Placing (d : Domain) (k : Nat) : Prop where
  active : d.altp2mActive = true
  slot : ∀ i < maxAltp2m, d.altp2mEptp i ≠ invalidMfn ↔ i = 0
  place : ∀ w < k, d.indices[w]? = some 0
  count : ∀ i < maxAltp2m, (d.altp2mP2m i).activeVcpus = if i = 0 then (k : Int) else 0

theorem altp2mVcpuInitialise_eq (R : Ready cfg d) (ha : d.altp2mActive = true)
    (h0 : d.altp2mEptp 0 ≠ invalidMfn) (hv : v < d.vcpus.length) :
    altp2mVcpuInitialise d v
      = .ok (((setP2midx (altp2mVcpuReset d v) v 0).modP2m 0 (P2m.addActive 1)).modVcpu v
          (Vcpu.loadEptp (d.altp2mEptp 0))) := by
  have hv' : v < (altp2mVcpuReset d v).vcpus.length := by simpa [altp2mVcpuReset] using hv
  have hidx : ((setP2midx (altp2mVcpuReset d v) v 0).vcpu v).p2midx = 0 := by
    unfold setP2midx
    rw [Domain.vcpu_modVcpu_self _ _ hv']
    rfl
  have h0lt : 0 < maxAltp2m := by decide
  have R' : Ready cfg ((setP2midx (altp2mVcpuReset d v) v 0).modP2m 0 (P2m.addActive 1)) :=
    ((R.modVcpu v _).modVcpu v _).addActive 0 1
  unfold altp2mVcpuInitialise
  simp only
  rw [p2mGetAltp2m_of_lt (hidx.symm ▸ h0lt), hidx]
  simp only [atomicAdd, ok_bind]
  rw [vmxVcpuUpdateEptp_eq R' ha (by simpa [hidx] using h0lt)
    (by rw [Domain.vcpu_modP2m, hidx]; exact h0)]
  simp only [Domain.vcpu_modP2m, hidx]
  rfl

theorem altp2mVcpuInitialise_placing (R : Ready cfg d) (P : Placing d v) (hv : v < d.vcpus.length) :
    Ensures (fun _ => False) (altp2mVcpuInitialise d v)
      fun d' => (Ready cfg d' ∧ Placing d' (v + 1)) ∧ d'.vcpus.length = d.vcpus.length := by
  have h0 : d.altp2mEptp 0 ≠ invalidMfn := (P.slot 0 (by decide)).2 rfl
  rw [altp2mVcpuInitialise_eq R P.active h0 hv]
  refine ⟨⟨(((R.modVcpu v _).modVcpu v _).addActive 0 1).modVcpu v _, P.active, P.slot,
    fun w hw => ?_, fun i hi => ?_⟩, ?_⟩
  · rw [indices_modVcpu _ v (Vcpu.loadEptp _) fun _ => rfl]
    show (setP2midx (altp2mVcpuReset d v) v 0).indices[w]? = some 0
    unfold setP2midx altp2mVcpuReset
    rw [indices_modVcpu_set _ v 0 _ fun _ => rfl,
      indices_modVcpu_set _ v invalidAltp2m _ fun _ => rfl]
    by_cases h : v = w
    · subst h
      simp [length_indices, hv]
    · simpa [h] using P.place w (by omega)
  · show ((Domain.modP2m _ 0 (P2m.addActive 1)).altp2mP2m i).activeVcpus = _
    rw [altp2mP2m_addActive]
    show (d.altp2mP2m i).activeVcpus + _ = _
    rw [P.count i hi]
    split <;> simp
  · simp [setP2midx, altp2mVcpuReset]

theorem Placing.rep (P : Placing d d.vcpus.length) : Rep d (Board.start d.vcpus.length) := by
  refine ⟨P.active, fun i hi => ?_, fun i hi => ?_, ?_, fun i hi => ?_⟩
  · rw [Finset.mem_singleton.1 hi]
    decide
  · rw [P.slot i hi]
    exact Finset.mem_singleton.symm
  · refine eq_replicate_iff.2 ⟨length_indices d, fun j hj => ?_⟩
    obtain ⟨w, hw⟩ := mem_iff_getElem?.1 hj
    have hlt : w < d.indices.length := (List.getElem?_eq_some_iff.1 hw).1
    rw [P.place w (length_indices d ▸ hlt)] at hw
    exact (Option.some.inj hw).symm
  · rw [P.count i hi]
    unfold Board.count Board.start
    rw [count_replicate]
    by_cases h : i = 0
    · simp [h]
    · simp [h, Ne.symm h]

section Enable

variable (R : Ready cfg d) (ha : d.altp2mActive = true)
  (hs : ∀ i < maxAltp2m, d.altp2mEptp i = invalidMfn)
  (hc : ∀ i < maxAltp2m, (d.altp2mP2m i).activeVcpus = 0)

include R ha hs hc

theorem p2mInitAltp2mById_placing :
    p2mInitAltp2mById d 0 = (0, p2mInitAltp2mHelper d 0) ∧ Ready cfg (p2mInitAltp2mHelper d 0) ∧
      Placing (p2mInitAltp2mHelper d 0) 0 := by
  have h0 : 0 < maxAltp2m := by decide
  refine ⟨?_, p2mInitAltp2mHelper_ready R h0 (hs 0 h0), ha, fun i hi => ?_,
    fun w hw => absurd hw (Nat.not_lt_zero w), fun i hi => ?_⟩
  · unfold p2mInitAltp2mById
    rw [if_neg (Nat.not_le.2 h0), if_pos (hs 0 h0)]
  · rw [p2mInitAltp2mHelper_slot R h0]
    simp [hs i hi]
  · rw [p2mInitAltp2mHelper_count, hc i hi]
    simp

/-- `set_domain_state` on, after the flag is written. `P k` holds once the first `k` vCPUs are
initialised. -/
theorem enable_ensures {P : Nat → Domain → Prop} (start : P 0 (p2mInitAltp2mHelper d 0))
    (round : ∀ k d', Ready cfg d' → Placing d' k → P k d' → k < d'.vcpus.length →
      Ensures (fun _ => True) (altp2mVcpuInitialise d' k) (P (k + 1))) :
    Ensures (fun _ => False) (setStateVcpus cfg false (p2mInitAltp2mById d 0).2)
      fun d' => (Ready cfg d' ∧ Placing d' d'.vcpus.length) ∧ P d'.vcpus.length d' := by
  obtain ⟨hinit, R₀, P₀⟩ := p2mInitAltp2mById_placing R ha hs hc
  rw [hinit]
  refine Ensures.mono (Ensures.foldlM_range
    (fun k d' => ((Ready cfg d' ∧ Placing d' k) ∧ P k d') ∧
      d'.vcpus.length = (p2mInitAltp2mHelper d 0).vcpus.length) (fun k d' hk h => ?_)
    ⟨⟨⟨R₀, P₀⟩, start⟩, rfl⟩) ?_
  · obtain ⟨⟨⟨R', P'⟩, Q'⟩, hl⟩ := h
    have hk' : k < d'.vcpus.length := hl ▸ hk
    refine ((altp2mVcpuInitialise_placing R' P' hk').and (round k d' R' P' Q' hk')).mono ?_
    rintro d₂ ⟨⟨h₂, hl₂⟩, Q₂⟩
    exact ⟨⟨h₂, Q₂⟩, hl₂.trans hl⟩
  · rintro d' ⟨h, hl⟩
    rw [hl]
    exact h

theorem enable_rep :
    Ensures (fun _ => False) (setStateVcpus cfg false (p2mInitAltp2mById d 0).2)
      fun d' => Ready cfg d' ∧ Rep d' (Board.start d'.vcpus.length) := by
  refine (enable_ensures (P := fun _ _ => True) R ha hs hc trivial fun k d' _ _ _ _ => ?_).mono ?_
  · cases altp2mVcpuInitialise d' k <;> trivial
  · rintro d' ⟨⟨R', P'⟩, -⟩
    exact ⟨R', P'.rep⟩

end Enable

/-! ## Turning altp2m off -/

/-- The loop of `HVMOP_altp2m_set_domain_state` has destroyed the first `k` vCPUs. -/
structure Clearing (d : Domain) (k : Nat) : Prop where
  inactive : d.altp2mActive = false
  gone : ∀ w < k, ∀ j, d.indices[w]? = some j → j = invalidAltp2m
  here : ∀ w, k ≤ w → ∀ j, d.indices[w]? = some j → j < maxAltp2m
  count : ∀ i < maxAltp2m, (d.altp2mP2m i).activeVcpus = d.indices.count i

theorem vmxVcpuUpdateEptp_inactive (ha : d.altp2mActive = false) :
    vmxVcpuUpdateEptp d v = .ok ((d.setHost d.hostp2m.syncAsr).modVcpu v
      (Vcpu.loadEptp d.hostp2m.syncAsr.ept.eptp)) := by
  unfold vmxVcpuUpdateEptp
  rw [ha]
  rfl

theorem Ready.updateVmfuncVe (R : Ready cfg d) (v : Nat) :
    Ready cfg (vmxVcpuUpdateVmfuncVe cfg d v) := by
  unfold vmxVcpuUpdateVmfuncVe
  split
  · exact R
  · exact R.modVcpu v _

theorem indices_updateVmfuncVe (d : Domain) (v : Nat) :
    (vmxVcpuUpdateVmfuncVe cfg d v).indices = d.indices := by
  unfold vmxVcpuUpdateVmfuncVe
  split
  · rfl
  · exact indices_modVcpu d v _ Vcpu.updateVmfuncVe_p2midx

theorem shape_updateVmfuncVe (cfg : Config) (d : Domain) (v : Nat) :
    (vmxVcpuUpdateVmfuncVe cfg d v).altp2mActive = d.altp2mActive ∧
      (vmxVcpuUpdateVmfuncVe cfg d v).altp2mEptp = d.altp2mEptp ∧
      (vmxVcpuUpdateVmfuncVe cfg d v).altp2mP2m = d.altp2mP2m := by
  unfold vmxVcpuUpdateVmfuncVe
  split <;> exact ⟨rfl, rfl, rfl⟩

theorem Rep.updateVmfuncVe (B : Rep d b) (v : Nat) : Rep (vmxVcpuUpdateVmfuncVe cfg d v) b := by
  obtain ⟨h₁, h₂, h₃⟩ := shape_updateVmfuncVe cfg d v
  exact ⟨h₁.trans B.active, B.lt, by rw [h₂]; exact B.slot,
    (indices_updateVmfuncVe d v).trans B.place, by rw [h₃]; exact B.count⟩

theorem altp2mVcpuDestroy_eq (ha : d.altp2mActive = false) (hi : (d.vcpu v).p2midx < maxAltp2m) :
    altp2mVcpuDestroy cfg d v = .ok (vmxVcpuUpdateVmfuncVe cfg
      (((altp2mVcpuReset (d.modP2m (d.vcpu v).p2midx (P2m.addActive (-1))) v).setHost
        d.hostp2m.syncAsr).modVcpu v (Vcpu.loadEptp d.hostp2m.syncAsr.ept.eptp)) v) := by
  have ha' : (altp2mVcpuReset (d.modP2m (d.vcpu v).p2midx (P2m.addActive (-1))) v).altp2mActive
      = false := ha
  unfold altp2mVcpuDestroy
  rw [p2mGetAltp2m_of_lt hi]
  simp only [atomicAdd, ok_bind]
  rw [vmxVcpuUpdateEptp_inactive ha']
  rfl

theorem altp2mVcpuDestroy_clearing (R : Ready cfg d) (C : Clearing d v) (hv : v < d.vcpus.length) :
    Ensures (fun _ => False) (altp2mVcpuDestroy cfg d v)
      fun d' => (Ready cfg d' ∧ Clearing d' (v + 1)) ∧ d'.vcpus.length = d.vcpus.length := by
  have hget := getElem_indices hv
  have hidx := C.here v le_rfl _ hget
  obtain ⟨hlen, hget'⟩ := List.getElem?_eq_some_iff.1 hget
  rw [altp2mVcpuDestroy_eq C.inactive hidx]
  set d₁ := ((altp2mVcpuReset (d.modP2m (d.vcpu v).p2midx (P2m.addActive (-1))) v).setHost
    d.hostp2m.syncAsr).modVcpu v (Vcpu.loadEptp d.hostp2m.syncAsr.ept.eptp) with hd₁
  have R₁ : Ready cfg d₁ :=
    ⟨(R.addActive _ _).init, (R.addActive _ _).np2m, (R.addActive _ _).slot, R.upper⟩
  have hind : d₁.indices = d.indices.set v invalidAltp2m := by
    rw [indices_modVcpu _ v (Vcpu.loadEptp _) fun _ => rfl]
    exact indices_modVcpu_set d v invalidAltp2m Vcpu.reset fun _ => rfl
  obtain ⟨h₁, -, h₃⟩ := shape_updateVmfuncVe cfg d₁ v
  refine ⟨⟨R₁.updateVmfuncVe v, h₁.trans C.inactive, ?_, ?_, fun i hi => ?_⟩, ?_⟩
  · intro w hw j hj
    rw [indices_updateVmfuncVe, hind, List.getElem?_set] at hj
    split at hj
    · simp_all
    · exact C.gone w (by omega) j hj
  · intro w hw j hj
    rw [indices_updateVmfuncVe, hind, List.getElem?_set, if_neg (by omega)] at hj
    exact C.here w (by omega) j hj
  · have hne : i ≠ invalidAltp2m := by
      unfold maxAltp2m at hi
      unfold invalidAltp2m
      omega
    rw [h₃, indices_updateVmfuncVe, hind, count_set hlen, hget']
    show ((d.modP2m _ (P2m.addActive (-1))).altp2mP2m i).activeVcpus = _
    rw [altp2mP2m_addActive]
    show (d.altp2mP2m i).activeVcpus + _ = _
    rw [C.count i hi, if_neg hne, Int.add_zero]
  · rw [← length_indices, indices_updateVmfuncVe, hind, length_set, length_indices]

theorem p2mFlushAltp2m_eq (R : Ready cfg d) :
    p2mFlushAltp2m cfg d = { d with
      altp2mEptp := fun i => if i < maxAltp2m then invalidMfn else d.altp2mEptp i } := by
  have loop := foldl_range_invariant (f := flushSlot cfg) (n := maxAltp2m)
    (fun k d' => Ready cfg d' ∧
      d' = { d with altp2mEptp := fun i => if i < k then invalidMfn else d.altp2mEptp i })
    (fun k d' hk h => ?_) ⟨R, by simp⟩
  · exact loop.2
  · obtain ⟨R', rfl⟩ := h
    refine ⟨R'.flushSlot hk, ?_⟩
    rw [flushSlot_eq R' hk]
    unfold Domain.setEptp
    congr 1
    funext i
    by_cases h : i = k
    · subst h; simp
    · have : i < k + 1 ↔ i < k := by omega
      simp [h, this]

theorem Ready.flushAltp2m (R : Ready cfg d) : Ready cfg (p2mFlushAltp2m cfg d) := by
  exact foldl_invariant (Ready cfg) (fun d i hi R => R.flushSlot (mem_range.1 hi)) R

theorem Rep.clearing (B : Rep d b) : Clearing { d with altp2mActive := false } 0 := by
  refine ⟨rfl, fun w hw => absurd hw (Nat.not_lt_zero w), fun w _ j hj => ?_, fun i hi => ?_⟩
  · have hj : d.indices[w]? = some j := hj
    rw [B.place] at hj
    exact B.lt j (b.place_mem j (mem_of_getElem? hj))
  · show _ = ((d.indices.count i : Nat) : Int)
    rw [B.place]
    exact B.count i hi

theorem Clearing.off (R : Ready cfg d) (C : Clearing d d.vcpus.length) :
    Off (p2mFlushAltp2m cfg d) := by
  rw [p2mFlushAltp2m_eq R]
  refine ⟨C.inactive, fun i hi => if_pos hi, fun i hi => ?_⟩
  show (d.altp2mP2m i).activeVcpus = 0
  rw [C.count i hi, Int.natCast_eq_zero, count_eq_zero]
  intro hmem
  obtain ⟨w, hw⟩ := mem_iff_getElem?.1 hmem
  have hlt : w < d.vcpus.length := by
    rw [← length_indices]
    exact (List.getElem?_eq_some_iff.1 hw).1
  have hinv := C.gone w hlt i hw
  subst hinv
  exact absurd hi (by decide)

theorem disable_off (R : Ready cfg d) (B : Rep d b) :
    Ensures (fun _ => False) (setStateVcpus cfg true { d with altp2mActive := false })
      fun d' => Ready cfg (p2mFlushAltp2m cfg d') ∧ Off (p2mFlushAltp2m cfg d') := by
  refine Ensures.mono (Ensures.foldlM_range
    (fun k d' => (Ready cfg d' ∧ Clearing d' k) ∧ d'.vcpus.length = d.vcpus.length)
    (fun k d' hk h => ?_) ⟨⟨⟨R.init, R.np2m, R.slot, R.upper⟩, B.clearing⟩, rfl⟩) ?_
  · obtain ⟨⟨R', C'⟩, hl⟩ := h
    refine (altp2mVcpuDestroy_clearing R' C' (hl ▸ hk)).mono fun d₂ h₂ => ?_
    exact ⟨h₂.1, h₂.2.trans hl⟩
  · rintro d' ⟨⟨R', C'⟩, hl⟩
    exact ⟨R'.flushAltp2m, Clearing.off R' (hl ▸ C')⟩

end

end XenVmi.Altp2m
