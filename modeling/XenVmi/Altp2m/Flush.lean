import XenVmi.Altp2m.Invariant

/-!
# What a flushed view still translates

`p2m_flush_table` (`mm/p2m.c:1897-1939`) was written for nested p2ms and returns at once when
`np2m_base` is `P2M_BASE_EADDR`, which `p2m_initialise` sets in every p2m. So no view is ever
flushed, and nothing gives a view its first default access back (`flush_empties_iff`).
-/

namespace XenVmi.Altp2m

open XenVmi.Ept XenVmi.Lib

/-- The view translates no gfn. -/
def P2m.Empty (cfg : Config) (p : P2m) : Prop := ∀ gfn, (p.getEntry cfg gfn).mfn = invalidMfn

/-- The view has no translation and no access rights but those `p2m_initialise` gave it. -/
def P2m.Blank (cfg : Config) (p : P2m) : Prop := p.Empty cfg ∧ p.defaultAccess = .rwx

section

variable {cfg : Config} {d : Domain} {i : Nat}

theorem p2mDestroyAltp2mById_views (R : Ready cfg d) (idx : Nat) :
    (p2mDestroyAltp2mById cfg d idx).2.altp2mP2m = d.altp2mP2m := by
  unfold p2mDestroyAltp2mById
  split
  · rfl
  · rename_i h
    split
    · rw [flushSlot_eq R (Nat.lt_of_not_le (not_or.1 h).2)]
      rfl
    · rfl

theorem p2mFlushAltp2m_views (R : Ready cfg d) :
    (p2mFlushAltp2m cfg d).altp2mP2m = d.altp2mP2m := by
  rw [p2mFlushAltp2m_eq R]

theorem p2mResetAltp2m_getEntry (R : Ready cfg d) (hi : i < maxAltp2m) (gfn : Nat) :
    ((p2mResetAltp2m cfg d i).altp2mP2m i).getEntry cfg gfn
      = (d.altp2mP2m i).getEntry cfg gfn := by
  rw [p2mResetAltp2m_eq R hi, Domain.modP2m_altp2mP2m, Function.update_self]
  rfl

theorem p2mInitAltp2mHelper_blank_iff (d : Domain) (i : Nat) :
    ((p2mInitAltp2mHelper d i).altp2mP2m i).Blank cfg ↔ (d.altp2mP2m i).Blank cfg := by
  unfold p2mInitAltp2mHelper P2m.Blank P2m.Empty
  simp only [Domain.setEptp_altp2mP2m, Domain.modP2m_altp2mP2m, Function.update_self]
  rfl

theorem p2mInitNextAltp2m_blank_iff {d : Domain} (h : (p2mInitNextAltp2m d).2.1 = some i) :
    ((p2mInitNextAltp2m d).2.2.altp2mP2m i).Blank cfg ↔ (d.altp2mP2m i).Blank cfg := by
  unfold p2mInitNextAltp2m at h ⊢
  split at h
  · cases h
    exact p2mInitAltp2mHelper_blank_iff d i
  · cases h

/-- **When a flushed view is empty**: in every reachable state, a view that is destroyed, flushed or
reset is empty if and only if it was before, and one that is handed out is blank if and only if it
was.
-/
theorem flush_empties_iff (cfg : Config) (m₀ m : Machine) (fresh : Fresh cfg m₀.dom)
    (run : Reaches (step cfg) Op.Admissible m₀ m) :
    (∀ idx, (p2mDestroyAltp2mById cfg m.dom idx).1 = 0 →
      (P2m.Empty cfg ((p2mDestroyAltp2mById cfg m.dom idx).2.altp2mP2m idx) ↔
        P2m.Empty cfg (m.dom.altp2mP2m idx))) ∧
    (∀ i < maxAltp2m, P2m.Empty cfg ((p2mFlushAltp2m cfg m.dom).altp2mP2m i) ↔
      P2m.Empty cfg (m.dom.altp2mP2m i)) ∧
    (∀ i < maxAltp2m, P2m.Empty cfg ((p2mResetAltp2m cfg m.dom i).altp2mP2m i) ↔
      P2m.Empty cfg (m.dom.altp2mP2m i)) ∧
    ∀ i, (p2mInitNextAltp2m m.dom).2.1 = some i →
      (P2m.Blank cfg ((p2mInitNextAltp2m m.dom).2.2.altp2mP2m i) ↔
        P2m.Blank cfg (m.dom.altp2mP2m i)) := by
  have R := ((switching_invariant cfg).run (fresh_switching fresh) run).1
  refine ⟨fun idx _ => ?_, fun i _ => ?_, fun i hi => ?_, fun i h => p2mInitNextAltp2m_blank_iff h⟩
  · rw [p2mDestroyAltp2mById_views R idx]
  · rw [p2mFlushAltp2m_views R]
  · unfold P2m.Empty
    simp only [p2mResetAltp2m_getEntry R hi]

/-- Map gfn 5 in the host, turn altp2m on, create view 1, let vCPU 1 fault on gfn 5 there and leave
it. -/
def copyIntoViewOne : List Op :=
  [.hostSetEntry { gfn := 5, mfn := 0x100, order := 0, t := .ramRw, a := .rwx, sve := -1 },
    plainHypercall { plainOp with state := 1 } .setDomainState, plainHypercall plainOp .createP2m,
    .vmEventResponse 1 1, .eptViolation 1 5 false, .vmEventResponse 1 0]

theorem copyIntoViewOne_admissible : ∀ op ∈ copyIntoViewOne, ∀ m, op.Admissible m := by
  simp [copyIntoViewOne, plainHypercall, Op.Admissible]

/-- View 1 is destroyed with result 0, and still maps gfn 5; handed out again, it maps it too. -/
theorem destroyed_view_translates :
    ∃ m, Reaches (step vmfuncConfig) Op.Admissible vmfuncMachine m ∧
      (p2mDestroyAltp2mById vmfuncConfig m.dom 1).1 = 0 ∧
      (((p2mDestroyAltp2mById vmfuncConfig m.dom 1).2.altp2mP2m 1).getEntry vmfuncConfig 5).mfn
        = 0x100 ∧
      (p2mInitNextAltp2m (p2mDestroyAltp2mById vmfuncConfig m.dom 1).2).2.1 = some 1 ∧
      (((p2mInitNextAltp2m (p2mDestroyAltp2mById vmfuncConfig m.dom 1).2).2.2.altp2mP2m 1).getEntry
        vmfuncConfig 5).mfn = 0x100 :=
  Reaches.exists_of_foldlM copyIntoViewOne_admissible (by decide +kernel)

theorem flush_empties_iff_view_one :
    ∃ m, Reaches (step vmfuncConfig) Op.Admissible vmfuncMachine m ∧
      ¬ P2m.Empty vmfuncConfig ((p2mFlushAltp2m vmfuncConfig m.dom).altp2mP2m 1) := by
  obtain ⟨m, run, hval⟩ : ∃ m, Reaches (step vmfuncConfig) Op.Admissible vmfuncMachine m ∧
      ((m.dom.altp2mP2m 1).getEntry vmfuncConfig 5).mfn = 0x100 :=
    Reaches.exists_of_foldlM copyIntoViewOne_admissible (by decide +kernel)
  refine ⟨m, run, fun h => ?_⟩
  have hbefore := ((flush_empties_iff vmfuncConfig vmfuncMachine m vmfuncMachine_fresh run).2.1 1
    (by decide)).1 h 5
  rw [hval] at hbefore
  exact absurd hbefore (by decide)

end

end XenVmi.Altp2m
