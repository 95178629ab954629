import XenVmi.Altp2m.Switching

/-!
# The counters and the EPTP list over whole runs

`Switching` holds straight after `hap_enable` and survives every function of the altp2m code.
-/

namespace XenVmi.Altp2m

open XenVmi.Ept XenVmi.Lib

section

variable {cfg : Config} {d : Domain} {b : Board} {v : Nat}

/-! ## The remaining functions -/

variable (S : Switching cfg d)

include S

theorem Switching.rep (ha : d.altp2mActive = true) : ∃ b, Rep d b := by
  rcases S.2 with O | B
  · rw [O.inactive] at ha
    exact absurd ha (by simp)
  · exact B

theorem setDomainState_ensures {E : Fault → Prop} {Q : Domain → Prop} (state : Nat) (same : Q d)
    (off : ∀ b, Rep d b → Ensures E (setStateVcpus cfg true { d with altp2mActive := false })
      fun d' => Q (p2mFlushAltp2m cfg d'))
    (on : Off d → Ensures E
      (setStateVcpus cfg false (p2mInitAltp2mById { d with altp2mActive := true } 0).2) Q) :
    Ensures E (setDomainState cfg d state) fun r => Q r.2 := by
  unfold setDomainState
  split
  · exact same
  simp only
  split
  · rename_i heq
    rw [heq]
    exact same
  split
  · rename_i hon
    have hoff : decide (state ≠ 0) = false := by simp_all
    obtain ⟨b, B⟩ := S.rep hon
    rw [hoff]
    exact (off b B).bind fun d' h => Ensures.pure h
  rename_i hoff
  have hon : decide (state ≠ 0) = true := by
    cases hd : decide (state ≠ 0) with
    | true => rfl
    | false => simp_all
  rcases S.2 with O | ⟨b, B⟩
  · obtain ⟨hinit, -⟩ := p2mInitAltp2mById_placing (d := { d with altp2mActive := true })
      ⟨S.1.init, S.1.np2m, S.1.slot, S.1.upper⟩ rfl O.slot O.count
    rw [hon, if_neg (by simp [hinit])]
    exact (on O).bind fun d' h => Ensures.pure h
  · exact absurd B.active hoff

theorem setDomainState_switching (state : Nat) :
    Ensures (fun _ => False) (setDomainState cfg d state) fun r => Switching cfg r.2 := by
  refine setDomainState_ensures S state S (fun b B => ?_) fun O => ?_
  · exact (disable_off S.1 B).mono fun d' h => ⟨h.1, .inl h.2⟩
  · have R' : Ready cfg { d with altp2mActive := true } := ⟨S.1.init, S.1.np2m, S.1.slot, S.1.upper⟩
    exact (enable_rep R' rfl O.slot O.count).mono fun d' h => ⟨h.1, .inr ⟨_, h.2⟩⟩

theorem Switching.exitWith (v eptp idx : Nat) :
    Switching cfg (d.modVcpu v (Vcpu.exitWith eptp idx)) := by
  refine ⟨S.1.modVcpu v _, S.2.imp (fun O => ⟨O.inactive, O.slot, O.count⟩) ?_⟩
  rintro ⟨b, B⟩
  exact ⟨b, B.modVcpu v fun _ => rfl⟩

theorem vmexitResync_switching (hv : v < d.vcpus.length)
    (hidx : d.altp2mActive = true → (d.vcpu v).vmFunctions = true →
      vmexitIdx d v < maxAltp2m ∧ d.altp2mEptp (vmexitIdx d v) ≠ invalidMfn) :
    Ensures (fun _ => False) (vmexitResync d v) (Switching cfg) := by
  unfold vmexitResync
  split
  · rename_i h
    obtain ⟨ha, hf⟩ := Bool.and_eq_true_iff.1 h
    obtain ⟨hlt, hs⟩ := hidx ha hf
    obtain ⟨b, B⟩ := S.rep ha
    simp only
    split
    · rw [if_neg (Nat.not_le.2 hlt)]
      exact (moveVcpu_rep S.1 B hv ((B.slot _ hlt).1 hs)).mono fun d' h =>
        ⟨h.1, .inr ⟨_, h.2.1⟩⟩
    · exact S
  · exact S

omit S

theorem switching_invariant (cfg : Config) : StepInvariant cfg Op.Admissible (Switching cfg) where
  writes :=
    { view := fun m i q hq S => S.of_shell ((writes_shell S.1).view m i q hq rfl)
      host := fun m q hq S => S.of_shell ((writes_shell S.1).host m q hq rfl)
      reset := fun m i hi S => S.of_shell ((writes_shell S.1).reset m i hi rfl)
      access := fun m i a S => S.of_shell ((writes_shell S.1).access m i a rfl)
      remapped := fun m i gfn S => S.of_shell ((writes_shell S.1).remapped m i gfn rfl)
      m2p := fun m t S => S }
  ready d S := S.1
  index d v S ha hv := by
    obtain ⟨b, B⟩ := S.rep ha
    exact B.p2midx_lt hv
  setState d s S := setDomainState_switching S s
  notify d v S ha := by
    obtain ⟨b, B⟩ := S.rep ha
    exact ⟨S.1.updateVmfuncVe v, .inr ⟨b, B.updateVmfuncVe v⟩⟩
  create d S ha := by
    obtain ⟨b, B⟩ := S.rep ha
    obtain ⟨R', B'⟩ := p2mInitNextAltp2m_rep S.1 B
    exact ⟨R', .inr B'⟩
  destroy d idx S ha := by
    obtain ⟨b, B⟩ := S.rep ha
    obtain ⟨R', B'⟩ := p2mDestroyAltp2mById_rep S.1 B idx
    exact ⟨R', .inr B'⟩
  switch d v idx S ha hv hidx hs := by
    obtain ⟨b, B⟩ := S.rep ha
    refine (switchVcpu_rep S.1 B hv ((B.slot idx hidx).1 hs)).mono fun d' h => ?_
    obtain ⟨R', B', hl, he⟩ := h
    exact ⟨⟨R', .inr ⟨_, B'⟩⟩, B'.active, hl, he⟩
  exit m v eptp idx S hop hv :=
    vmexitResync_switching (S.exitWith v eptp idx) (by simpa using hv) hop
  order m q hop := hop

/-! ## Where runs start -/

/-- What `p2m_initialise` leaves in a view, and `p2m_alloc_table` keeps. -/
structure Blank (cfg : Config) (p : P2m) : Prop where
  init : p.ept.init cfg = p.ept
  np2m : p.np2mBase = p2mBaseEaddr
  count : p.activeVcpus = 0

theorem p2mInitialise_blank (cfg : Config) (cls : P2mClass) :
    Blank cfg (p2mInitialise cfg cls) := by
  refine ⟨?_, rfl, rfl⟩
  unfold p2mInitialise eptP2mInit EptData.init
  cases cfg.hasPml <;> rfl

theorem p2mAllocTable_blank {p : P2m} (h : Blank cfg p) (fl : List Nat) :
    Blank cfg (p2mAllocTable cfg fl p).2.2 := by
  unfold p2mAllocTable
  split
  · exact h
  · split
    · exact h
    · exact ⟨h.init, h.np2m, h.count⟩

theorem allocViews_keeps {Q : P2m → Prop} (hQ : ∀ fl p, Q p → Q (p2mAllocTable cfg fl p).2.2)
    (is : List Nat) (h : ∀ i < maxAltp2m, Q (d.altp2mP2m i)) :
    (∀ i < maxAltp2m, Q ((allocViews cfg is d).2.altp2mP2m i)) ∧
      (allocViews cfg is d).2.altp2mEptp = d.altp2mEptp ∧
      (allocViews cfg is d).2.hostp2m = d.hostp2m := by
  induction is generalizing d with
  | nil => exact ⟨h, rfl, rfl⟩
  | cons j is ih =>
    have h' : ∀ i < maxAltp2m, Q (Function.update d.altp2mP2m j
        (p2mAllocTable cfg d.freelist (d.altp2mP2m j)).2.2 i) := by
      intro i hi
      by_cases hij : i = j
      · subst hij
        rw [Function.update_self]
        exact hQ _ _ (h i hi)
      · rw [Function.update_of_ne hij]
        exact h i hi
    unfold allocViews
    simp only
    split
    · exact ⟨h', rfl, rfl⟩
    · exact ih h'

theorem Fresh.start (h : Fresh cfg d) :
    d.altp2mActive = false ∧ (∀ i < maxEptp, d.altp2mEptp i = invalidMfn) ∧
      (∀ Q : P2m → Prop, Q (p2mInitialise cfg .alternate) →
        (∀ fl p, Q p → Q (p2mAllocTable cfg fl p).2.2) → ∀ i < maxAltp2m, Q (d.altp2mP2m i)) ∧
      ∃ fl fl', p2mAllocTable cfg fl (p2mInitialise cfg .host) = (0, fl', d.hostp2m) := by
  obtain ⟨d₀, N, h⟩ := h
  set d₁ : Domain := { d₀ with
    altp2mEptp := fun i => if i < maxEptp then invalidMfn else d₀.altp2mEptp i } with hd₁
  have views : ∀ Q : P2m → Prop, Q (p2mInitialise cfg .alternate) →
      ∀ i < maxAltp2m, Q (d₁.altp2mP2m i) := by
    intro Q hQ i hi
    show Q (d₀.altp2mP2m i)
    rw [N.view i hi]
    exact hQ
  obtain ⟨-, heptp, hhost⟩ := allocViews_keeps (Q := Blank cfg)
    (fun fl _ hp => p2mAllocTable_blank hp fl)
    (List.range maxAltp2m) (views (Blank cfg) (p2mInitialise_blank cfg _))
  unfold hapEnableAltp2m at h
  simp only [← hd₁] at h
  split at h
  · rename_i hrc
    exact absurd (congrArg Prod.fst h) hrc
  obtain rfl := (Prod.mk.inj h).2
  refine ⟨rfl, fun i hi => ?_, fun Q hQ halloc => ?_, ?_⟩
  · show (allocViews cfg (List.range maxAltp2m) d₁).2.altp2mEptp i = invalidMfn
    rw [heptp]
    exact if_pos hi
  · exact (allocViews_keeps halloc (List.range maxAltp2m) (views Q hQ)).1
  · show ∃ fl fl', p2mAllocTable cfg fl (p2mInitialise cfg .host) =
      (0, fl', (allocViews cfg (List.range maxAltp2m) d₁).2.hostp2m)
    rw [hhost]
    exact N.host

theorem fresh_switching (h : Fresh cfg d) : Switching cfg d := by
  obtain ⟨hoff, hslots, hviews, -⟩ := h.start
  have hblank := hviews (Blank cfg) (p2mInitialise_blank cfg _) fun fl _ hp =>
    p2mAllocTable_blank hp fl
  have hlow : ∀ i < maxAltp2m, i < maxEptp := fun i hi => Nat.lt_trans hi (by decide)
  refine ⟨⟨fun i hi => (hblank i hi).init, fun i hi => (hblank i hi).np2m,
    fun i hi hs => absurd (hslots i (hlow i hi)) hs, fun i _ hi => hslots i hi⟩, .inl ?_⟩
  exact ⟨hoff, fun i hi => hslots i (hlow i hi), fun i hi => (hblank i hi).count⟩

/-- **The counters and the EPTP list are exact between any two operations**, in every run from
`hap_enable` on, and an operation that does not look up the host p2m ends without a `BUG_ON` or a
NULL view. -/
theorem counters_and_slots_exact (cfg : Config) (m₀ m : Machine) (fresh : Fresh cfg m₀.dom)
    (run : Reaches (step cfg) Op.Admissible m₀ m) :
    (m.dom.altp2mActive = true →
      (∀ i < maxAltp2m, (m.dom.altp2mP2m i).activeVcpus
        = ((m.dom.vcpus.countP fun x => x.p2midx = i : Nat) : Int)) ∧
      (∀ x ∈ m.dom.vcpus, x.p2midx < maxAltp2m ∧ m.dom.altp2mEptp x.p2midx ≠ invalidMfn) ∧
      m.dom.altp2mEptp 0 ≠ invalidMfn) ∧
    (m.dom.altp2mActive = false →
      (∀ i < maxAltp2m, (m.dom.altp2mP2m i).activeVcpus = 0) ∧
      ∀ i < maxEptp, m.dom.altp2mEptp i = invalidMfn) ∧
    ∀ op : Op, op.Admissible m → ¬ op.LooksUp → ∃ m', step cfg m op = .ok m' := by
  have S := (switching_invariant cfg).run (fresh_switching fresh) run
  refine ⟨fun ha => ?_, fun ha => ?_, fun op hop hl => ?_⟩
  · obtain ⟨b, B⟩ := S.rep ha
    refine ⟨fun i hi => ?_, fun x hx => ?_, (B.slot 0 (by decide)).2 b.zero_mem⟩
    · rw [B.count i hi]
      unfold Board.count
      rw [← B.place, Domain.indices, List.count_eq_countP, List.countP_map]
      congr 1
    · have hmem : x.p2midx ∈ b.valid := by
        refine b.place_mem _ (B.place ▸ ?_)
        exact List.mem_map_of_mem hx
      exact ⟨B.lt _ hmem, (B.slot _ (B.lt _ hmem)).2 hmem⟩
  · rcases S.2 with O | ⟨b, B⟩
    · refine ⟨O.count, fun i hi => ?_⟩
      rcases Nat.lt_or_ge i maxAltp2m with h | h
      · exact O.slot i h
      · exact S.1.upper i h hi
    · rw [B.active] at ha
      exact absurd ha (by simp)
  · cases hs : step cfg m op with
    | ok m' => exact ⟨m', rfl⟩
    | error f => exact absurd (((switching_invariant cfg).step S hop).of_error hs).2 hl

def enableCreateSwitch : List Op :=
  [plainHypercall { plainOp with state := 1 } .setDomainState, plainHypercall plainOp .createP2m,
    .vmEventResponse 1 1]

theorem counters_and_slots_exact_two_views :
    ∃ m, enableCreateSwitch.foldlM (step vmfuncConfig) vmfuncMachine = .ok m ∧
      m.dom.altp2mActive = true ∧ (m.dom.altp2mP2m 1).activeVcpus = 1 ∧
      (∀ i < maxAltp2m, (m.dom.altp2mP2m i).activeVcpus
        = ((m.dom.vcpus.countP fun x => x.p2midx = i : Nat) : Int)) ∧
      m.dom.altp2mEptp 0 ≠ invalidMfn := by
  obtain ⟨m, hm, ha, hc⟩ :
      ∃ m, enableCreateSwitch.foldlM (step vmfuncConfig) vmfuncMachine = .ok m ∧
      m.dom.altp2mActive = true ∧ (m.dom.altp2mP2m 1).activeVcpus = 1 := by decide +kernel
  have run : Reaches (step vmfuncConfig) Op.Admissible vmfuncMachine m :=
    .of_foldlM (by simp [enableCreateSwitch, plainHypercall, Op.Admissible]) hm
  obtain ⟨on, -, -⟩ := counters_and_slots_exact vmfuncConfig vmfuncMachine m vmfuncMachine_fresh run
  exact ⟨m, hm, ha, hc, (on ha).1, (on ha).2.2⟩

end

end XenVmi.Altp2m
