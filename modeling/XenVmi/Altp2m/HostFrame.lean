import XenVmi.Altp2m.Moves

/-!
# What the altp2m commands do to the host p2m and to the M2P

`afterOwnLookup`: two commands look up the host p2m, which may populate or unshare an entry. One
command writes the M2P: `change_gfn` with `INVALID_GFN` reverts through `p2m_remove_page`
(`mm/p2m.c:2451-2457`), which is written for the host.
-/

namespace XenVmi.Altp2m

open XenVmi.Ept XenVmi.Lib

/-! ## Translations and the EPT pointer -/

def P2m.unrooted (p : P2m) : P2m :=
  { p with ept := { eptMt := 0, eptWl := 0, eptAd := false, asr := 0 } }

theorem getEntry_of_unrooted {cfg : Config} {p p' : P2m} (h : p'.unrooted = p.unrooted)
    (gfn : Nat) :
    p'.getEntry cfg gfn = p.getEntry cfg gfn := by
  show p'.unrooted.getEntry cfg gfn = p.unrooted.getEntry cfg gfn
  rw [h]

def SameHost (d d' : Domain) : Prop := d'.hostp2m.unrooted = d.hostp2m.unrooted

theorem moves_sameHost (cfg : Config) (d : Domain) : Moves cfg (SameHost d) where
  vcpu _ _ _ h := h
  view _ _ _ _ h := h
  host _ h := h
  flag _ _ h := h
  slot _ _ _ h := h
  flush _ _ h := h

/-! ## The lookups a command makes -/

def ownLookup (cfg : Config) (m : Machine) (i gfn : Nat) : Except Fault Machine :=
  if cfg.mfnValid ((m.dom.altp2mP2m i).getEntry cfg gfn).mfn then .ok m
  else do
    let h ← hostGetEntry cfg m gfn
    pure h.2

def afterOwnLookup (cfg : Config) (m : Machine) (a : Altp2mOp) : Altp2mCmd → Except Fault Machine
  | .setMemAccess =>
    if a.accessPad ≠ 0 ∨ (maxAltp2m ≤ a.accessView ∨ m.dom.altp2mEptp a.accessView = invalidMfn) ∨
        memaccess (m.dom.altp2mP2m a.accessView).defaultAccess a.hvmmemAccess = none ∨
        a.accessGfn = invalidGfn then .ok m
    else ownLookup cfg m a.accessView a.accessGfn
  | .changeGfn =>
    if (a.gfnPad1 ≠ 0 ∨ a.gfnPad2 ≠ 0) ∨
        (maxAltp2m ≤ a.gfnView ∨ m.dom.altp2mEptp a.gfnView = invalidMfn) ∨
        a.newGfn = invalidGfn then .ok m
    else ownLookup cfg m a.gfnView a.oldGfn
  | _ => .ok m

def SameOutside (m m' : Machine) : Prop := SameHost m.dom m'.dom ∧ m'.m2p = m.m2p

section Commands

variable {cfg : Config} {m m' : Machine} {a : Altp2mOp}

theorem lookupOrCopy_outside {i gfn : Nat} {r : Option Lookup × Machine}
    (h : lookupOrCopy cfg m i gfn = .ok r) :
    ∃ m₁, ownLookup cfg m i gfn = .ok m₁ ∧ SameOutside m₁ r.2 := by
  unfold lookupOrCopy at h
  unfold ownLookup
  simp only at h
  split at h
  · rename_i hv
    cases h
    exact ⟨m, if_pos hv, rfl, rfl⟩
  rename_i hv
  rw [if_neg hv]
  obtain ⟨l, hl, h⟩ := exists_ok_of_bind h
  rw [hl]
  refine ⟨l.2, rfl, ?_⟩
  split at h
  · cases h; exact ⟨rfl, rfl⟩
  · split at h <;> cases h <;> exact ⟨rfl, rfl⟩

variable {remote : Bool} {r : Int × Machine}

theorem setMemAccess_outside (hp : a.accessPad = 0)
    (h : p2mSetAltp2mMemAccess cfg m remote a.accessView a.accessGfn a.hvmmemAccess = .ok r) :
    ∃ m₁, afterOwnLookup cfg m a .setMemAccess = .ok m₁ ∧ SameOutside m₁ r.2 := by
  unfold p2mSetAltp2mMemAccess at h
  unfold afterOwnLookup
  split at h
  · rename_i hv
    cases h
    exact ⟨m, if_pos (.inr (.inl hv)), rfl, rfl⟩
  rename_i hv
  split at h
  · rename_i ha
    cases h
    exact ⟨m, if_pos (.inr (.inr (.inl ha))), rfl, rfl⟩
  rename_i ha
  split at h
  · rename_i hg
    cases h
    exact ⟨m, if_pos (.inr (.inr (.inr hg))), rfl, rfl⟩
  rename_i hg
  simp only [hp, ne_eq, not_true_eq_false, hv, ha, hg, or_self, if_false, reduceCtorEq]
  obtain ⟨l, hl, h⟩ := exists_ok_of_bind h
  obtain ⟨m₁, hm₁, hs⟩ := lookupOrCopy_outside hl
  refine ⟨m₁, hm₁, ?_⟩
  obtain ⟨_ | x, m₂⟩ := l
  · cases h; exact hs
  · cases h; exact hs

theorem changeGfn_outside (hp : ¬ (a.gfnPad1 ≠ 0 ∨ a.gfnPad2 ≠ 0)) (hn : a.newGfn ≠ invalidGfn)
    (h : p2mChangeAltp2mGfn cfg m remote a.gfnView a.oldGfn a.newGfn = .ok r) :
    ∃ m₁, afterOwnLookup cfg m a .changeGfn = .ok m₁ ∧ SameOutside m₁ r.2 := by
  unfold p2mChangeAltp2mGfn at h
  unfold afterOwnLookup
  split at h
  · rename_i hv
    cases h
    exact ⟨m, if_pos (.inr (.inl hv)), rfl, rfl⟩
  rename_i hv
  simp only [hp, hv, hn, or_self, if_false]
  obtain ⟨l, hl, h⟩ := exists_ok_of_bind h
  obtain ⟨m₁, hm₁, hs⟩ := lookupOrCopy_outside hl
  refine ⟨m₁, hm₁, ?_⟩
  obtain ⟨_ | x, m₂⟩ := l
  · cases h; exact hs
  simp only at h
  generalize (if cfg.mfnValid ((m₂.dom.altp2mP2m a.gfnView).getEntry cfg a.newGfn).mfn = true
    then _ else m₂.dom.hostp2m.getEntry cfg a.newGfn) = l' at h
  split at h
  · cases h; exact hs
  · split at h <;> cases h <;> exact hs

/-! ## The revert -/

/-- `change_gfn` reverts `old_gfn`, which the view maps to a frame that has another M2P entry than
`p2m_remove_page` writes. -/
def RevertErasesM2p (cfg : Config) (m : Machine) (a : Altp2mOp) : Prop :=
  ¬ (a.gfnPad1 ≠ 0 ∨ a.gfnPad2 ≠ 0) ∧
    ¬ (maxAltp2m ≤ a.gfnView ∨ m.dom.altp2mEptp a.gfnView = invalidMfn) ∧ a.newGfn = invalidGfn ∧
    cfg.mfnValid ((m.dom.altp2mP2m a.gfnView).getEntry cfg a.oldGfn).mfn = true ∧
    ownsM2p ((m.dom.altp2mP2m a.gfnView).getEntry cfg a.oldGfn).t = true ∧
    m.m2p ((m.dom.altp2mP2m a.gfnView).getEntry cfg a.oldGfn).mfn ≠
      if cfg.domCow ((m.dom.altp2mP2m a.gfnView).getEntry cfg a.oldGfn).mfn then sharedM2pEntry
      else invalidM2pEntry

theorem altRemovePage_m2p (m : Machine) (i gfn : Nat) {mfn : Nat} (hv : cfg.mfnValid mfn = true) :
    SameHost m.dom (altRemovePage cfg m i gfn mfn 0).2.dom ∧
      (altRemovePage cfg m i gfn mfn 0).2.m2p =
        if ownsM2p ((m.dom.altp2mP2m i).getEntry cfg gfn).t then
          setGpfnFromMfn cfg m.m2p mfn invalidM2pEntry
        else m.m2p := by
  unfold altRemovePage
  simp only [hv, if_true, pow_zero, List.range_one, List.foldl_cons, List.foldl_nil, add_zero]
  have hset : ∀ d : Domain, SameHost m.dom d → ∀ mfn a,
      SameHost m.dom (p2mSetEntry cfg (altSetEntry cfg i) d gfn mfn 0 .invalid a).2 :=
        fun d h mfn a =>
    p2mSetEntry_keeps (fun _ _ _ h => h) _ _ _ _ _ _ h
  split
  · exact ⟨hset _ rfl _ _, rfl⟩
  · exact ⟨hset _ rfl _ _, rfl⟩

theorem setGpfnFromMfn_eq_iff {m2p : Nat → Nat} {mfn gpfn : Nat} :
    setGpfnFromMfn cfg m2p mfn gpfn = m2p ↔
      m2p mfn = if cfg.domCow mfn then sharedM2pEntry else gpfn := by
  unfold setGpfnFromMfn
  rw [Function.update_eq_self_iff, eq_comm]

theorem revert_outside (hp : ¬ (a.gfnPad1 ≠ 0 ∨ a.gfnPad2 ≠ 0)) (hn : a.newGfn = invalidGfn)
    (h : p2mChangeAltp2mGfn cfg m remote a.gfnView a.oldGfn a.newGfn = .ok r) :
    SameHost m.dom r.2.dom ∧ (r.2.m2p = m.m2p ↔ ¬ RevertErasesM2p cfg m a) := by
  unfold p2mChangeAltp2mGfn at h
  unfold RevertErasesM2p
  split at h
  · rename_i hv
    cases h
    exact ⟨rfl, iff_of_true rfl fun hr => hr.2.1 hv⟩
  rename_i hv
  cases h
  by_cases hm : cfg.mfnValid ((m.dom.altp2mP2m a.gfnView).getEntry cfg a.oldGfn).mfn = true
  · simp only [hm, if_true]
    obtain ⟨hh, ht⟩ := altRemovePage_m2p m a.gfnView a.oldGfn hm
    refine ⟨hh, ?_⟩
    rw [ht]
    split
    · rename_i ho
      rw [setGpfnFromMfn_eq_iff]
      simp only [hp, hv, hn, ho, not_false_eq_true, true_and, ne_eq, not_not]
    · rename_i ho
      exact iff_of_true rfl fun hr => ho hr.2.2.2.2.1
  · rw [if_neg hm]
    exact ⟨rfl, iff_of_true rfl fun hr => hm hr.2.2.2.1⟩

theorem altp2mCmd_host {c : Call} {cmd : Altp2mCmd} (h : altp2mCmd cfg m c remote a cmd = .ok r) :
    ∃ m₁, afterOwnLookup cfg m a cmd = .ok m₁ ∧ SameHost m₁.dom r.2.dom ∧
      (r.2.m2p = m₁.m2p ↔ ¬ (cmd = .changeGfn ∧ RevertErasesM2p cfg m a)) := by
  -- every command but `change_gfn` leaves the M2P where its lookup left it
  have keeps : cmd ≠ .changeGfn →
      (∃ m₁, afterOwnLookup cfg m a cmd = .ok m₁ ∧ SameOutside m₁ r.2) →
      ∃ m₁, afterOwnLookup cfg m a cmd = .ok m₁ ∧ SameHost m₁.dom r.2.dom ∧
        (r.2.m2p = m₁.m2p ↔ ¬ (cmd = .changeGfn ∧ RevertErasesM2p cfg m a)) := by
    rintro hc ⟨m₁, hm₁, hh, ht⟩
    exact ⟨m₁, hm₁, hh, iff_of_true ht fun hr => hc hr.1⟩
  cases cmd with
  | getDomainState =>
    cases h
    exact keeps (by simp) ⟨m, rfl, rfl, rfl⟩
  | setDomainState =>
    obtain ⟨s, hs, h⟩ := exists_ok_of_bind h
    cases h
    exact keeps (by simp)
      ⟨m, rfl, ((moves_sameHost cfg m.dom).setDomainState rfl a.state).of_ok hs, rfl⟩
  | vcpuEnableNotify =>
    cases h
    exact keeps (by simp) ⟨m, rfl, (moves_sameHost cfg m.dom).updateVmfuncVe rfl _, rfl⟩
  | createP2m =>
    cases h
    exact keeps (by simp) ⟨m, rfl, (moves_sameHost cfg m.dom).create rfl, rfl⟩
  | destroyP2m =>
    cases h
    exact keeps (by simp) ⟨m, rfl, (moves_sameHost cfg m.dom).destroy rfl _, rfl⟩
  | switchP2m =>
    obtain ⟨s, hs, h⟩ := exists_ok_of_bind h
    cases h
    exact keeps (by simp)
      ⟨m, rfl, ((moves_sameHost cfg m.dom).switchDomain rfl a.view).of_ok hs, rfl⟩
  | setMemAccess =>
    refine keeps (by simp) ?_
    simp only [altp2mCmd] at h
    split at h
    · rename_i hp
      cases h
      exact ⟨m, if_pos (.inl hp), rfl, rfl⟩
    · rename_i hp
      exact setMemAccess_outside (not_not.1 hp) h
  | changeGfn =>
    simp only [altp2mCmd] at h
    split at h
    · rename_i hp
      cases h
      exact ⟨m, if_pos (.inl hp), rfl, iff_of_true rfl fun hr => hr.2.1 hp⟩
    rename_i hp
    by_cases hn : a.newGfn = invalidGfn
    · obtain ⟨hh, ht⟩ := revert_outside hp hn h
      exact ⟨m, if_pos (.inr (.inr hn)), hh, by simpa using ht⟩
    · obtain ⟨m₁, hm₁, hh, ht⟩ := changeGfn_outside hp hn h
      exact ⟨m₁, hm₁, hh, iff_of_true ht fun hr => hn hr.2.2.2.1⟩

/-- **The host is undisturbed, except by a revert**: a command leaves the translations of the host
and the M2P as its own lookup left them, exactly when it does not revert a gfn that the view maps to
a frame with an M2P entry of its own. -/
theorem host_undisturbed_iff (cfg : Config) (m m' : Machine) (c : Call) (remote : Bool)
    (a : Altp2mOp) (cmd : Altp2mCmd) (rc : Int)
    (h : altp2mCmd cfg m c remote a cmd = .ok (rc, m')) :
    ∃ m₁, afterOwnLookup cfg m a cmd = .ok m₁ ∧
      (((∀ gfn, m'.dom.hostp2m.getEntry cfg gfn = m₁.dom.hostp2m.getEntry cfg gfn) ∧
          ∀ mfn, m'.m2p mfn = m₁.m2p mfn) ↔
        ¬ (cmd = .changeGfn ∧ RevertErasesM2p cfg m a)) := by
  obtain ⟨m₁, hm₁, hh, ht⟩ := altp2mCmd_host h
  refine ⟨m₁, hm₁, ?_⟩
  rw [← ht, funext_iff]
  exact ⟨fun hu => hu.2, fun hu => ⟨getEntry_of_unrooted hh, hu⟩⟩

end Commands

/-! ## A revert that loses the M2P entry of a page -/

/-- Give gfn 5 the frame 0x100, turn altp2m on, and let vCPU 0 fault on gfn 5 in view 0. -/
def copyIntoViewZero : List Op :=
  [.hostSetEntry { gfn := 5, mfn := 0x100, order := 0, t := .ramRw, a := .rwx, sve := -1 },
    .setGpfnFromMfn 0x100 5, plainHypercall { plainOp with state := 1 } .setDomainState,
    .eptViolation 0 5 false]

theorem copyIntoViewZero_admissible : ∀ op ∈ copyIntoViewZero, ∀ m, op.Admissible m := by
  simp [copyIntoViewZero, plainHypercall, Op.Admissible]

/-- `change_gfn` of gfn 5 in view 0 with `new_gfn = INVALID_GFN`. -/
def revertGfnFive : Altp2mOp := { plainOp with cmd := 8, oldGfn := 5, newGfn := invalidGfn }

theorem revertGfnFive_runs :
    ∃ m, Reaches (step vmfuncConfig) Op.Admissible vmfuncMachine m ∧ m.m2p 0x100 = 5 ∧
      (∃ r, altp2mOpLocked vmfuncConfig m (plainCall revertGfnFive) false revertGfnFive .changeGfn
          = .ok r ∧ r.1 = 0 ∧ (r.2.dom.hostp2m.getEntry vmfuncConfig 5).mfn = 0x100 ∧
        r.2.m2p 0x100 = invalidM2pEntry) ∧
      ∃ r, altp2mCmd vmfuncConfig m (plainCall revertGfnFive) false revertGfnFive .changeGfn =
        .ok r ∧
        r.1 = 0 ∧ r.2.m2p 0x100 = invalidM2pEntry :=
  Reaches.exists_of_foldlM copyIntoViewZero_admissible (by decide +kernel)

/-- The revert returns 0; the host still maps gfn 5 to frame 0x100, whose M2P entry is gone. -/
theorem revert_erases_m2p :
    ∃ m m', Reaches (step vmfuncConfig) Op.Admissible vmfuncMachine m ∧ m.m2p 0x100 = 5 ∧
      altp2mOpLocked vmfuncConfig m (plainCall revertGfnFive) false revertGfnFive .changeGfn
        = .ok (0, m') ∧
      (m'.dom.hostp2m.getEntry vmfuncConfig 5).mfn = 0x100 ∧ m'.m2p 0x100 = invalidM2pEntry := by
  obtain ⟨m, run, hfive, ⟨⟨_, m'⟩, hr, rfl, hhost, hm2p⟩, -⟩ := revertGfnFive_runs
  exact ⟨m, m', run, hfive, hr, hhost, hm2p⟩

theorem host_undisturbed_iff_revert :
    ∃ m m', Reaches (step vmfuncConfig) Op.Admissible vmfuncMachine m ∧
      altp2mCmd vmfuncConfig m (plainCall revertGfnFive) false revertGfnFive .changeGfn
        = .ok (0, m') ∧ RevertErasesM2p vmfuncConfig m revertGfnFive := by
  obtain ⟨m, run, hfive, -, ⟨_, m'⟩, hr, rfl, hm2p⟩ := revertGfnFive_runs
  refine ⟨m, m', run, hr, ?_⟩
  obtain ⟨m₁, hm₁, hiff⟩ := host_undisturbed_iff vmfuncConfig m m' _ _ _ _ _ hr
  -- the entry of frame 0x100 changed, so the revert must have erased it
  by_contra hno
  rw [afterOwnLookup, if_pos (.inr (.inr rfl))] at hm₁
  cases hm₁
  have hsame := (hiff.2 fun h => hno h.2).2 0x100
  rw [hm2p, hfive] at hsame
  exact absurd hsame (by decide)

end XenVmi.Altp2m
