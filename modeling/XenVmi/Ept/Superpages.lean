import XenVmi.Ept.Update
import XenVmi.P2m.Table

/-!
# Superpages without permissions

`ept_next_level` takes an entry without permission bits for a missing one. A superpage of RAM that
its type and access rights leave no permission bit is written, and then never found again.
-/

namespace XenVmi.Ept

open XenVmi.Lib

/-- The superpage `q` reads back, and a later 4K call on one of its gfns keeps the others. -/
structure SuperpageHolds (env : EptEnv) (s : EptState) (q : SetArgs) : Prop where
  reads : ∀ k < 2 ^ q.order, (s.lookup env (q.gfn + k)).mfn = q.mfn + k
  keeps : ∀ c : SetCall, c.env.caps = env.caps → c.q.order = 0 → q.Covers c.q.gfn →
    (eptSetEntry c.env c.asr s c.q).1 = 0 → ∀ g, q.Covers g → g ≠ c.q.gfn →
      (eptSetEntry c.env c.asr s c.q).2.lookup c.env g = s.lookup env g

variable {env : EptEnv} {asr : Nat} {q : SetArgs} {s : EptState}

/-- **When a superpage of RAM holds**: exactly when its type and access rights leave a permission
bit. -/
theorem superpage_holds_iff {s₀ : EptState} (h₀ : s₀.Empty)
    (run : Reaches EptState.set (SetCall.Admits env.caps) s₀ s) (ho : q.order = 9 ∨ q.order = 18)
    (ht : q.t.isRam = true) (hframes : ∀ m, env.mfnValid m = true → m < 2 ^ 40)
    (hv : env.mfnValid q.mfn = true) (hok : (eptSetEntry env asr s q).1 = 0) :
    SuperpageHolds env (eptSetEntry env asr s q).2 q ↔
      LeavesPermission env.caps (q.mfn % 2 ^ 40) q.t q.a := by
  have I := EptState.Inv.of_reaches h₀ run
  have ho' : q.order ≤ 18 := by omega
  have hpos : 0 < q.order / 9 := by omega
  have I' := I.set ho' hok
  obtain ⟨mid, h⟩ := eptSetEntry_ok I.leaves ho' hok
  obtain ⟨htm, htp, hti⟩ : q.t ≠ .mmioDirect ∧ q.t ≠ .populateOnDemand ∧ q.t ≠ .invalid := by
    cases hq : q.t <;> simp_all [P2mType.isRam]
  rw [← newEntry_isPresent hv hpos]
  have hvis : ∀ old, (newEntry env q (q.order / 9) old).visible (q.order / 9) = true ↔
      (newEntry env q (q.order / 9) EptEntry.zero).isPresent = true := fun old => by
    rw [newEntry_visible hv, or_iff_right hpos.ne', or_iff_left htp]
  generalize (eptSetEntry env asr s q).2 = s' at I' h
  constructor
  · intro H
    by_contra hp
    obtain ⟨old, hlook⟩ := lookup_covered h I' ho' (Nat.two_pow_pos _)
    rw [translate_of_not_visible (Bool.eq_false_iff.2 ((hvis old).not.2 hp)), ite_self] at hlook
    have hmfn := H.reads 0 (Nat.two_pow_pos _)
    rw [hlook] at hmfn
    have hlt := hframes _ hv
    have hbig : 2 ^ 40 < invalidMfn := by decide
    have : invalidMfn = q.mfn + 0 := hmfn
    omega
  · intro hp
    have hst := (stores_iff h I' ho' hframes (.inl hv)).2
      ⟨hti, hv, .inr (.inl ((newEntry_isPresent hv hpos).1 hp))⟩
    refine ⟨fun k hk => by rw [(hst k hk).2 htp], fun c hcaps hc hcov hokc g hg hne => ?_⟩
    have hIc : s'.Inv c.env.caps := hcaps ▸ I'
    obtain ⟨mid', h'⟩ := eptSetEntry_ok hIc.leaves (by omega) hokc
    have hIc' := hIc.set (by omega) hokc
    have hle := h.le_max hti hg
    have hg36 : g < 2 ^ 36 := hle.trans_lt I'.max_lt
    obtain ⟨old, hleaf⟩ := (h.written g).inside ((h.covers_iff ho' hg36).2 hg)
    have hout : ¬ Agree 512 g c.q.gfn (c.q.order / 9) 4 := by
      rw [h'.covers_iff (by omega) hg36, SetArgs.Covers, hc]
      omega
    -- the leaf of `g` is that of the superpage, which is no direct MMIO
    have hlost : ¬ LostPart c.env c.asr c.q (tableLeaf g 3 s'.root) g := by
      rw [hleaf]
      exact fun hl => htm ((newEntry_filled (SetArgs.fills_of_valid hv) _ old).saP2mt.symm.trans
        hl.2.2.1.1)
    have hkept := (translate_outside rfl h' hIc (.inl (by rw [hleaf]; exact (hvis old).2 hp))
      hg36 hout).2 hlost
    rw [lookup_eq hIc', lookup_eq I', if_neg (not_lt.2 hle),
      if_neg (not_lt.2 (hle.trans h'.max_le)), hkept]

theorem superpage_holds_iff_rwx :
    SuperpageHolds smallEnv (eptSetEntry smallEnv 1 emptyState setLow).2 setLow :=
  (superpage_holds_iff emptyState_empty .refl (.inl rfl) (by decide)
    (fun m hm => (of_decide_eq_true hm).trans (by decide)) (by decide) (by decide +kernel)).2
    (by simp [LeavesPermission, setLow])

/-- A 2M page with `p2m_access_n` is set, and gfn 0 has no frame. -/
theorem superpage_without_access_hidden :
    (eptSetEntry smallEnv 1 emptyState { setLow with a := .n }).1 = 0 ∧
      ((eptSetEntry smallEnv 1 emptyState { setLow with a := .n }).2.lookup smallEnv 0).mfn =
        invalidMfn ∧
      ¬ SuperpageHolds smallEnv (eptSetEntry smallEnv 1 emptyState { setLow with a := .n }).2
        { setLow with a := .n } := by
  have hlook : ((eptSetEntry smallEnv 1 emptyState { setLow with a := .n }).2.lookup
      smallEnv 0).mfn = invalidMfn := by decide +kernel
  refine ⟨by decide +kernel, hlook, fun H => ?_⟩
  exact absurd (hlook.symm.trans (H.reads 0 (by decide))) (by decide)

end XenVmi.Ept
