import XenVmi.Ept.Store

/-!
# When `ept_set_entry` is a map update

In a table as in `XenVmi.Ept.Store`, with every 2M and 1G leaf present or populate-on-demand, one
more successful call.
-/

namespace XenVmi.Ept

open XenVmi.Lib

/-! ## Parts without permission bits -/

/-- The 2M part of a 1G leaf `e` that `g` is in: direct MMIO with access `w`, in a read-only MMIO
range. -/
def ReadOnlyPart (caps : EptCaps) (e : EptEntry) (g : Nat) : Prop :=
  e.saP2mt = .mmioDirect ∧ e.access = .w ∧
    caps.mmioRo ((e.mfn + (eptIndex g 1 : Nat) * 512 ^ 1) % 2 ^ 40) = true

/-- The call breaks the 1G leaf `p` of `g` into 2M parts, and leaves the part of `g` without
permission bits. -/
def LostPart (env : EptEnv) (asr : Nat) (q : SetArgs) (p : Nat × EptEntry) (g : Nat) : Prop :=
  p.1 = 2 ∧ g / 512 ^ 2 = q.gfn / 512 ^ 2 ∧ ReadOnlyPart env.caps p.2 g ∧
    if asr ≠ 0 ∧ needsSplit env q.gfn 2 p.2 = true then
      eptIndex g 1 = eptIndex q.gfn 1 →
        needsSplit env q.gfn 1 (splitEntry env 1 p.2 (eptIndex g 1)) = false
    else q.order = 9

section Parts

variable {caps : EptCaps} {env : EptEnv} {gfn g level target : Nat} {e : EptEntry}
  {p p' : Nat × EptEntry}

theorem SetLeaf.sp_of_splits (w : SetLeaf caps level e) (h : 0 < level) (hs : e.Splits) :
    e.sp = true := by
  by_contra hsp
  exact nonzero_of_splits hs (w.empty h (Bool.eq_false_iff.2 hsp))

theorem isPresent_flags_mmioDirect {e' : EptEntry} {a : P2mAccess}
    (h : (eptP2mTypeToFlags caps e .mmioDirect a).isPresent = true) :
    (eptP2mTypeToFlags caps e' .mmioDirect a).isPresent = false ↔
      a = .w ∧ caps.mmioRo e'.mfn = true := by
  cases a <;> simp_all [eptP2mTypeToFlags, typeToFlags, accessToFlags, EptEntry.isPresent]

theorem part_visible (w : SetLeaf env.caps 2 e) (hv : e.visible 2 = true) (hs : e.Splits) :
    (splitEntry env 1 e (eptIndex g 1)).visible 1 = false ↔ ReadOnlyPart env.caps e g := by
  have hpart := splitEntry_splitOf env 1 e (eptIndex g 1)
  have hsp : e.sp = decide (0 < 1) := w.sp_of_splits (by decide) hs
  rw [← Bool.not_eq_true, visible_of_pos Nat.one_pos, not_or, hpart.saP2mt, Bool.not_eq_true,
    isPresent_congr (hpart.permissions
      { e with mfn := (e.mfn + (eptIndex g 1 : Nat) * 512 ^ 1) % 2 ^ 40 } hsp rfl)]
  by_cases hpod : e.saP2mt = .populateOnDemand
  · refine iff_of_false (fun h => h.2 hpod) fun h => ?_
    exact absurd (hpod.symm.trans h.1) (by decide)
  have hp : e.isPresent = true := ((visible_of_pos (by decide)).1 hv).resolve_right hpod
  have hflags := w.flags hp
  by_cases hm : e.saP2mt = .mmioDirect
  · rw [hm] at hflags ⊢
    rw [isPresent_flags_mmioDirect hflags, ReadOnlyPart, hm]
    exact ⟨fun h => ⟨rfl, h.1⟩, fun h => ⟨h.2, by decide⟩⟩
  · refine iff_of_false (fun h => ?_) fun h => hm h.1
    rw [isPresent_flags_of_ne (e := e) hm (by rfl), hflags] at h
    exact Bool.noConfusion h.1

theorem resolvedLeaf_le (env : EptEnv) (gfn g level : Nat) (e : EptEntry) :
    (resolvedLeaf env gfn g level e).1 ≤ level := by
  induction level generalizing e with
  | zero => exact le_rfl
  | succ l ih =>
    rw [resolvedLeaf]
    split
    · split
      · exact (ih _).trans (Nat.le_succ l)
      · exact Nat.le_succ l
    · exact le_rfl

theorem resolvedLeaf_ne_two (w : SetLeaf env.caps level e)
    (hneeds : needsSplit env gfn level e = true) : (resolvedLeaf env gfn g level e).1 ≠ 2 := by
  cases level with
  | zero => exact (Nat.succ_ne_zero 1).symm
  | succ l =>
    have hl : l + 1 < 3 := w.small (w.sp_of_splits (Nat.succ_pos l) (splits_of_needsSplit hneeds))
    rw [resolvedLeaf, if_pos hneeds]
    simp only
    split
    · have := resolvedLeaf_le env gfn g l (splitEntry env l e (eptIndex g l))
      omega
    · omega

theorem resolvedLeaf_visible (w : SetLeaf env.caps level e) (hl : level ≤ 3)
    (hv : e.visible level = true) :
    (resolvedLeaf env gfn g level e).2.visible (resolvedLeaf env gfn g level e).1 = false ↔
      level = 2 ∧ needsSplit env gfn 2 e = true ∧ ReadOnlyPart env.caps e g ∧
        (eptIndex g 1 = eptIndex gfn 1 →
          needsSplit env gfn 1 (splitEntry env 1 e (eptIndex g 1)) = false) := by
  by_cases hneeds : needsSplit env gfn level e = true
  · have hs := splits_of_needsSplit hneeds
    match level, w with
    | 0, w => exact iff_of_false Bool.noConfusion fun h => absurd h.1 (by decide)
    | 1, w =>
      refine iff_of_false ?_ fun h => absurd h.1 (by decide)
      simp only [resolvedLeaf, hneeds, if_true]
      split <;> exact Bool.noConfusion
    | 2, w =>
      have hpart := part_visible (g := g) w hv hs
      rw [resolvedLeaf, if_pos hneeds]
      simp only
      by_cases hi : eptIndex g 1 = eptIndex gfn 1
      · rw [if_pos hi, resolvedLeaf]
        by_cases hagain : needsSplit env gfn 1 (splitEntry env 1 e (eptIndex g 1)) = true
        · rw [if_pos hagain]
          refine iff_of_false ?_ fun h => ?_
          · split <;> exact Bool.noConfusion
          · exact Bool.noConfusion (hagain.symm.trans (h.2.2.2 hi))
        · rw [if_neg hagain]
          exact hpart.trans ⟨fun h => ⟨trivial, hneeds, h, fun _ => Bool.eq_false_iff.2 hagain⟩,
            fun h => h.2.2.1⟩
      · rw [if_neg hi]
        exact hpart.trans ⟨fun h => ⟨trivial, hneeds, h, fun h' => absurd h' hi⟩, fun h => h.2.2.1⟩
    | l + 3, w => exact absurd (w.small (w.sp_of_splits (Nat.succ_pos _) hs)) (by omega)
  · have hwhole : resolvedLeaf env gfn g level e = (level, e) := by
      cases level with
      | zero => rfl
      | succ l => exact if_neg hneeds
    rw [hwhole]
    refine iff_of_false ?_ fun h => ?_
    · rw [hv]
      exact Bool.noConfusion
    · obtain ⟨rfl, h2, -⟩ := h
      exact hneeds h2

def HiddenBySplit (caps : EptCaps) (target gfn : Nat) (p : Nat × EptEntry) (g : Nat) : Prop :=
  target = 1 ∧ p.1 = 2 ∧ Agree 512 g gfn 2 4 ∧ p.2.visible 2 = true ∧ ReadOnlyPart caps p.2 g

theorem Remains.translate (h : Remains env target gfn g 3 p p') (w : SetLeaf env.caps p.1 p.2)
    (hl : p.1 ≤ 3) :
    (HiddenBySplit env.caps target gfn p g → p'.2.translate p'.1 g = .none) ∧
      (¬ HiddenBySplit env.caps target gfn p g →
        p'.2.translate p'.1 g = p.2.translate p.1 g) := by
  cases h with
  | apart H =>
    refine ⟨fun hh => absurd ?_ H, fun _ => rfl⟩
    rw [hh.2.1]
    exact hh.2.2.1
  | @cleared L L' e _ ht hp hpod =>
    have hpos : 0 < L := by omega
    have hnone : (e.translate L g) = .none := by
      refine translate_of_not_visible (Bool.eq_false_iff.2 fun hv => ?_)
      rcases (visible_of_pos hpos).1 hv with hp' | hpod'
      · exact Bool.noConfusion (hp.symm.trans hp')
      · exact hpod hpod'
    have hnew : ({ EptEntry.zero with suppressVe := true } : EptEntry).translate L' g = .none := by
      unfold EptEntry.translate
      split <;> rfl
    exact ⟨fun _ => hnew, fun _ => hnew.trans hnone.symm⟩
  | @split L e H ht hs hseen =>
    have hpos : 0 < L := by omega
    have hL : L < 3 := w.small (w.sp_of_splits hpos hs)
    have hv : e.visible L = true := (visible_of_pos hpos).2 hseen
    have hmap : (partAt env g target L e).mapping target g = e.mapping L g :=
      mapping_partAt (le_of_lt ht) (by omega) w.toLeafWf (nonzero_of_splits hs)
    by_cases ht0 : target = 0
    · subst ht0
      refine ⟨fun hh => absurd hh.1 (by decide), fun _ => ?_⟩
      rw [translate_of_visible (visible_zero _), hmap, translate_of_visible hv]
    obtain rfl : target = 1 := by omega
    obtain rfl : L = 2 := by omega
    rw [partAt_succ le_rfl, partAt_self] at hmap ⊢
    have hpart := part_visible (g := g) w hv hs
    refine ⟨fun hh => translate_of_not_visible (hpart.2 hh.2.2.2.2), fun hh => ?_⟩
    have hpv : (splitEntry env 1 e (eptIndex g 1)).visible 1 = true := by
      rw [← Bool.not_eq_false, hpart]
      exact fun hro => hh ⟨rfl, rfl, H, hv, hro⟩
    rw [translate_of_visible hpv, hmap, translate_of_visible hv]

end Parts

/-! ## Outside the range -/

/-- The call loses what the leaf `p` of `g` maps, or the leaf `p'` of `g` afterwards says the
same. -/
def Survives (env : EptEnv) (asr : Nat) (q : SetArgs) (p p' : Nat × EptEntry) (g : Nat) : Prop :=
  (LostPart env asr q p g → p'.2.translate p'.1 g = .none) ∧
    (¬ LostPart env asr q p g → p'.2.translate p'.1 g = p.2.translate p.1 g)

section Others

variable {caps : EptCaps} {env : EptEnv} {asr : Nat} {q : SetArgs} {s s' : EptState} {g : Nat}
  {mid : EptTable} {p : Nat × EptEntry}

theorem translate_of_mapping_none {e : EptEntry} {level : Nat} (h : e.mapping level g = .none) :
    e.translate level g = .none := by
  unfold EptEntry.translate
  rw [h]
  exact ite_self _

variable (hp : tableLeaf g 3 s.root = p)

include hp

theorem EptState.Inv.seen_or_empty (I : s.Inv caps) (hseen : s.SuperpagesSeen) :
    p.2.visible p.1 = true ∨ ∃ sve, p.2 = { EptEntry.zero with suppressVe := sve } := by
  have w := I.leaves.leaf g
  have hs := TableAll.leaf hseen g
  rw [hp] at w hs
  by_cases h0 : p.1 = 0
  · rw [h0]
    exact .inl (visible_zero p.2)
  · have hpos := Nat.pos_of_ne_zero h0
    rcases w.splits_or_empty hpos with hsp | hz
    · exact .inl ((visible_of_pos hpos).2 (hs hpos (w.sp_of_splits hpos hsp)))
    · exact .inr hz

variable (h : SetOk env asr q s s' mid)

include h

theorem SetOk.alike_mid
    (hn : asr ≠ 0 → Agree 512 g q.gfn p.1 4 → needsSplit env q.gfn p.1 p.2 = false) :
    AlikeLeaf p (tableLeaf g 3 mid) := by
  by_cases hasr : asr = 0
  · rw [h.untouched hasr, hp]
    exact .refl _
  have R := h.resolved hasr g
  rw [hp] at R
  by_cases H : Agree 512 g q.gfn p.1 4
  · have hw := R.shared H
    have hneeds := hn hasr H
    obtain ⟨L, e⟩ := p
    cases L with
    | zero => exact hw
    | succ l =>
      simp only [resolvedLeaf, hneeds, Bool.false_eq_true, if_false] at hw
      exact hw
  · exact R.apart H

omit hp in
theorem agree_gigabyte_iff (hg : g < 2 ^ 36) :
    Agree 512 g q.gfn 2 4 ↔ g / 512 ^ 2 = q.gfn / 512 ^ 2 :=
  agree_iff_div_eq (by decide) (show g < 512 ^ 4 from hg) (show q.gfn < 512 ^ 4 from h.gfn_lt)

theorem translate_of_resolved (I : s.Inv env.caps) (hg : g < 2 ^ 36)
    (hout : ¬ Agree 512 g q.gfn (q.order / 9) 4)
    (hv : p.2.visible p.1 = true) (hasr : asr ≠ 0) (H : Agree 512 g q.gfn p.1 4)
    (hneeds : needsSplit env q.gfn p.1 p.2 = true) :
    Survives env asr q p (tableLeaf g 3 s'.root) g := by
  have w := I.leaves.leaf g
  have hle := I.leaves.leaf_le g
  have hmap := h.mapping_mid I g
  have R := h.resolved hasr g
  have hwalk := ((h.written g).outside hout).translate (h.leaves.leaf g) (h.leaves.leaf_le g)
  unfold Survives
  rw [translate_of_visible hv]
  rw [hp] at w hle hmap R
  obtain ⟨hL, ha⟩ := R.shared H
  obtain ⟨L, e⟩ := p
  have hlost : LostPart env asr q (L, e) g ↔
      (tableLeaf g 3 mid).2.visible (tableLeaf g 3 mid).1 = false := by
    rw [hL, ha.visible, resolvedLeaf_visible w hle hv]
    constructor
    · rintro ⟨rfl, -, hro, hif⟩
      rw [if_pos ⟨hasr, hneeds⟩] at hif
      exact ⟨rfl, hneeds, hro, hif⟩
    · rintro ⟨rfl, -, hro, hif⟩
      refine ⟨rfl, (agree_gigabyte_iff h hg).1 H, hro, ?_⟩
      rw [if_pos ⟨hasr, hneeds⟩]
      exact hif
  -- the leaf is smaller than 1G now, so the walk hides nothing more
  have hsmall : (tableLeaf g 3 mid).1 ≠ 2 := hL ▸ resolvedLeaf_ne_two w hneeds
  rw [hwalk.2 fun hh => hsmall hh.2.1, hlost]
  refine ⟨fun hhid => translate_of_not_visible hhid, fun hvis => ?_⟩
  rw [translate_of_visible (by simpa using hvis), hmap]

theorem translate_outside (I : s.Inv env.caps)
    (hseen : p.2.visible p.1 = true ∨ ∃ sve, p.2 = { EptEntry.zero with suppressVe := sve })
    (hg : g < 2 ^ 36) (hout : ¬ Agree 512 g q.gfn (q.order / 9) 4) :
    Survives env asr q p (tableLeaf g 3 s'.root) g := by
  rcases hseen with hv | ⟨sve, hz⟩
  · by_cases hsplit : asr ≠ 0 ∧ Agree 512 g q.gfn p.1 4 ∧ needsSplit env q.gfn p.1 p.2 = true
    · exact translate_of_resolved hp h I hg hout hv hsplit.1 hsplit.2.1 hsplit.2.2
    · obtain ⟨hL, ha⟩ := SetOk.alike_mid hp h fun hasr H =>
        Bool.eq_false_iff.2 fun hneeds => hsplit ⟨hasr, H, hneeds⟩
      have hwalk := ((h.written g).outside hout).translate (h.leaves.leaf g) (h.leaves.leaf_le g)
      have hsame : (tableLeaf g 3 mid).2.translate (tableLeaf g 3 mid).1 g =
          p.2.translate p.1 g := by
        unfold EptEntry.translate
        rw [hL, ha.visible, ha.mapping]
      have horder := h.order
      -- the walk breaks up the leaf as it was
      have hlost : LostPart env asr q p g ↔
          HiddenBySplit env.caps (q.order / 9) q.gfn (tableLeaf g 3 mid) g := by
        unfold LostPart HiddenBySplit ReadOnlyPart
        rw [hL, ha.visible, ha.saP2mt, ha.access, ha.mfn, agree_gigabyte_iff h hg]
        constructor
        · rintro ⟨h2, hdiv, hro, hif⟩
          rw [h2] at hv hsplit
          rw [if_neg fun hc => hsplit ⟨hc.1, (agree_gigabyte_iff h hg).2 hdiv, hc.2⟩] at hif
          exact ⟨by omega, h2, hdiv, hv, hro⟩
        · rintro ⟨ht, h2, hdiv, -, hro⟩
          rw [h2] at hsplit
          refine ⟨h2, hdiv, hro, ?_⟩
          rw [if_neg fun hc => hsplit ⟨hc.1, (agree_gigabyte_iff h hg).2 hdiv, hc.2⟩]
          omega
      unfold Survives
      rw [hlost, ← hsame]
      exact hwalk
  · -- nothing was mapped, and nothing is
    have hnone : p.2.mapping p.1 g = .none := by
      rw [hz]
      exact mapping_empty sve
    have hnew : (tableLeaf g 3 s'.root).2.mapping (tableLeaf g 3 s'.root).1 g = .none := by
      rcases ((h.written g).outside hout).mapping (h.leaves.leaf g) (h.leaves.leaf_le g) with
        heq | heq
      · rw [heq, h.mapping_mid I, hp, hnone]
      · exact heq
    unfold Survives
    rw [translate_of_mapping_none hnew, translate_of_mapping_none hnone]
    exact ⟨fun _ => rfl, fun _ => rfl⟩

omit hp h

theorem LostPart.mapping_ne_none (hlost : LostPart env asr q p g) : p.2.mapping p.1 g ≠ .none := by
  obtain ⟨h2, -, ⟨hm, -, -⟩, -⟩ := hlost
  have hz : { p.2 with suppressVe := false } ≠ EptEntry.zero := by
    intro hz
    have := congrArg EptEntry.saP2mt hz
    rw [hm] at this
    exact absurd this (by decide)
  intro hnone
  have ht := congrArg Translation.t hnone
  rw [EptEntry.mapping, isValid_of_nonzero hz, hm, if_neg (by decide)] at ht
  exact absurd (show P2mType.mmioDirect = .mmioDm from ht) (by decide)

end Others

/-! ## The whole call -/

def Stores (env : EptEnv) (s' : EptState) (q : SetArgs) : Prop :=
  ∀ k < 2 ^ q.order,
    (q.t = .populateOnDemand → (s'.lookup env (q.gfn + k)).t = .populateOnDemand) ∧
      (q.t ≠ .populateOnDemand → s'.lookup env (q.gfn + k) = ⟨q.mfn + k, q.t, q.a⟩)

def KeepsOthers (env : EptEnv) (s s' : EptState) (q : SetArgs) : Prop :=
  ∀ g, ¬ q.Covers g → s'.lookup env g = s.lookup env g

/-- The entry can be looked up again: it has a frame, and a superpage has a permission bit or is
PoD. -/
def SetArgs.Takes (env : EptEnv) (q : SetArgs) : Prop :=
  q.t ≠ .invalid ∧ env.mfnValid q.mfn = true ∧
    (q.order = 0 ∨ LeavesPermission env.caps (q.mfn % 2 ^ 40) q.t q.a ∨ q.t = .populateOnDemand)

section Whole

variable {caps : EptCaps} {env : EptEnv} {asr : Nat} {q : SetArgs} {s s' : EptState} {g : Nat}
  {mid : EptTable}

theorem lookup_eq (I : s.Inv caps) (env : EptEnv) (g : Nat) :
    s.lookup env g = if s.maxMappedPfn < g then .none
      else (tableLeaf g 3 s.root).2.translate (tableLeaf g 3 s.root).1 g :=
  eptGetEntry_translation I.leaves env s.maxMappedPfn g

theorem newEntry_isPresent (hv : env.mfnValid q.mfn = true) {level : Nat} (hl : 0 < level) :
    (newEntry env q level EptEntry.zero).isPresent = true ↔
      LeavesPermission env.caps (q.mfn % 2 ^ 40) q.t q.a := by
  unfold newEntry
  simp only [hv, Bool.true_or, if_true]
  exact isPresent_flags_iff (decide_eq_true hl)

variable (h : SetOk env asr q s s' mid)

include h

theorem lookup_covered (I' : s'.Inv env.caps) (ho : q.order ≤ 18) {k : Nat} (hk : k < 2 ^ q.order) :
    ∃ old, s'.lookup env (q.gfn + k) = if s'.maxMappedPfn < q.gfn + k then .none
      else (newEntry env q (q.order / 9) old).translate (q.order / 9) (q.gfn + k) := by
  have hcov : q.Covers (q.gfn + k) := ⟨Nat.le_add_right _ _, Nat.add_lt_add_left hk _⟩
  have htop : q.gfn + 2 ^ q.order ≤ 2 ^ 36 :=
    Nat.le_of_lt_add_of_dvd (Nat.add_lt_add_right h.gfn_lt _) (Nat.dvd_add h.gfn_dvd dvd_rfl)
      (pow_dvd_pow 2 (by omega))
  obtain ⟨old, hleaf⟩ := (h.written (q.gfn + k)).inside ((h.covers_iff ho (by omega)).2 hcov)
  refine ⟨old, ?_⟩
  rw [lookup_eq I', hleaf]

theorem stores_iff (I' : s'.Inv env.caps) (ho : q.order ≤ 18)
    (hframes : ∀ m, env.mfnValid m = true → m < 2 ^ 40)
    (hq : env.mfnValid q.mfn = true ∨ q.t = .populateOnDemand) : Stores env s' q ↔ q.Takes env := by
  have hpos : 0 < 2 ^ q.order := Nat.two_pow_pos _
  have hlevel : q.order / 9 = 0 ↔ q.order = 0 := by
    have := h.order
    omega
  have hperm : env.mfnValid q.mfn = true →
      ((q.order = 0 ∨ LeavesPermission env.caps (q.mfn % 2 ^ 40) q.t q.a ∨
        q.t = .populateOnDemand) ↔
        q.order / 9 = 0 ∨ (newEntry env q (q.order / 9) EptEntry.zero).isPresent = true ∨
          q.t = .populateOnDemand) := fun hv => by
    rw [hlevel]
    refine or_congr_right' fun h0 => or_congr_left ?_
    exact (newEntry_isPresent hv (Nat.pos_of_ne_zero (hlevel.not.2 h0))).symm
  constructor
  · intro hst
    obtain ⟨old, hlook⟩ := lookup_covered h I' ho hpos
    obtain ⟨hpod, hother⟩ := hst 0 hpos
    -- a lookup that finds nothing is not what was set
    have hsome : (newEntry env q (q.order / 9) old).translate (q.order / 9) (q.gfn + 0) ≠
        .none := by
      intro hnone
      rw [hnone, ite_self] at hlook
      by_cases ht : q.t = .populateOnDemand
      · have hbad := hpod ht
        rw [hlook] at hbad
        exact absurd hbad (by decide)
      · have hbad := congrArg Translation.mfn (hlook.symm.trans (hother ht))
        have hlt := hframes _ (hq.resolve_right ht)
        have hbig : 2 ^ 40 < invalidMfn := by decide
        have hmfn : invalidMfn = q.mfn + 0 := hbad
        omega
    have hmap : (newEntry env q (q.order / 9) old).mapping (q.order / 9) (q.gfn + 0) ≠ .none :=
      fun hm => hsome (translate_of_mapping_none hm)
    have ht : q.t ≠ .invalid := fun ht => hmap (newEntry_mapping_invalid ht)
    have hv : env.mfnValid q.mfn = true := by
      by_contra hv
      rw [Bool.not_eq_true] at hv
      exact hmap (newEntry_mapping_pod hv (hq.resolve_left (by rw [hv]; exact Bool.noConfusion)))
    refine ⟨ht, hv, ?_⟩
    rw [hperm hv, ← newEntry_visible hv _ old]
    by_contra hvis
    exact hsome (translate_of_not_visible (Bool.eq_false_iff.2 hvis))
  · rintro ⟨ht, hv, hvis⟩ k hk
    rw [hperm hv] at hvis
    obtain ⟨old, hlook⟩ := lookup_covered h I' ho hk
    have hcov : q.Covers (q.gfn + k) := ⟨Nat.le_add_right _ _, Nat.add_lt_add_left hk _⟩
    rw [if_neg (not_lt.2 (h.le_max ht hcov)),
      translate_of_visible ((newEntry_visible hv _ old).2 hvis), newEntry_mapping hv ht] at hlook
    rw [hlook]
    refine ⟨fun hpod => ?_, fun hpod => ?_⟩
    · rw [if_pos hpod]
      rfl
    · have hlen : 512 ^ (q.order / 9) = 2 ^ q.order := by
        rw [show 512 = 2 ^ 9 from rfl, ← pow_mul, ← h.order]
      obtain ⟨c, hc⟩ := h.gfn_dvd
      rw [if_neg hpod, Nat.mod_eq_of_lt (hframes _ hv), hlen, hc, Nat.mul_add_mod,
        Nat.mod_eq_of_lt hk]

theorem keepsOthers_iff (I : s.Inv env.caps) (I' : s'.Inv env.caps)
    (hseen : s.SuperpagesSeen) (ho : q.order ≤ 18) :
    KeepsOthers env s s' q ↔
      ∀ g, ¬ q.Covers g → ¬ LostPart env asr q (tableLeaf g 3 s.root) g := by
  refine forall_congr' fun g => forall_congr' fun hcov => ?_
  rw [lookup_eq I, lookup_eq I']
  have hmax := h.max_le
  by_cases hg : g < 2 ^ 36
  · have hout : ¬ Agree 512 g q.gfn (q.order / 9) 4 := fun H => hcov ((h.covers_iff ho hg).1 H)
    have hempty := EptState.Inv.seen_or_empty rfl I hseen (g := g)
    obtain ⟨hlost, hkept⟩ := translate_outside rfl h I hempty hg hout
    by_cases hle : g ≤ s.maxMappedPfn
    · rw [if_neg (not_lt.2 hle), if_neg (not_lt.2 (hle.trans hmax))]
      constructor
      · intro heq hl
        have hne := hl.mapping_ne_none
        have hv := hempty.resolve_right fun ⟨sve, hz⟩ => hne (by rw [hz]; exact mapping_empty sve)
        rw [hlost hl, translate_of_visible hv] at heq
        exact hne heq.symm
      · exact hkept
    -- beyond `max_mapped_pfn` there was nothing to lose
    rw [not_le] at hle
    have hnone := I.beyond g hg hle
    have hnl : ¬ LostPart env asr q (tableLeaf g 3 s.root) g := fun hl =>
      hl.mapping_ne_none hnone
    refine iff_of_true ?_ hnl
    rw [if_pos hle, hkept hnl, translate_of_mapping_none hnone, ite_self]
  · have hge : 2 ^ 36 ≤ g := not_lt.1 hg
    refine iff_of_true ?_ fun hl => ?_
    · rw [if_pos (I.max_lt.trans_le hge), if_pos (I'.max_lt.trans_le hge)]
    · have hdiv := hl.2.1
      have hlt : q.gfn / 512 ^ 2 < 512 ^ 2 := Nat.div_lt_of_lt_mul h.gfn_lt
      exact absurd hlt (by omega)

omit h

/-- **When `ept_set_entry` is a map update**: exactly when the entry written can be looked up and no
part of a 1G mapping is lost. -/
theorem set_is_update_iff {s₀ : EptState} (h₀ : s₀.Empty)
    (run : Reaches EptState.set (SetCall.Admits env.caps) s₀ s) (hseen : s.SuperpagesSeen)
    (ho : q.order ≤ 18) (hframes : ∀ m, env.mfnValid m = true → m < 2 ^ 40)
    (hq : env.mfnValid q.mfn = true ∨ q.t = .populateOnDemand)
    (hok : (eptSetEntry env asr s q).1 = 0) :
    Stores env (eptSetEntry env asr s q).2 q ∧ KeepsOthers env s (eptSetEntry env asr s q).2 q ↔
      q.Takes env ∧ ∀ g, ¬ q.Covers g → ¬ LostPart env asr q (tableLeaf g 3 s.root) g := by
  have I := EptState.Inv.of_reaches h₀ run
  have I' := I.set ho hok
  obtain ⟨mid, h⟩ := eptSetEntry_ok I.leaves ho hok
  exact and_congr (stores_iff h I' ho hframes hq) (keepsOthers_iff h I I' hseen ho)

end Whole

/-! ## On a small machine -/

def smallEnv : EptEnv where
  caps := { hasAd := true, pml := false, snoop := false, mmioRo := fun _ => false }
  defaultAccess := .rwx
  mfnValid m := decide (m < 4096)
  entryEmt _ _ _ _ := (some 6, false)
  logdirtyRange _ _ := 0
  foreignGet _ := 0

def emptyState : EptState := { root := freshTable, maxMappedPfn := 0, pool := ⟨[1, 2, 3, 4], []⟩ }

theorem emptyState_empty : emptyState.Empty := ⟨fun _ => ⟨true, rfl⟩, rfl⟩

def setLow : SetArgs := { gfn := 0, mfn := 512, order := 9, t := .ramRw, a := .rwx, sve := -1 }

def setMiddle : SetArgs := { gfn := 5, mfn := 7, order := 0, t := .ramRo, a := .rx, sve := -1 }

/-- Breaking up a 2M page for one 4K page changes no other lookup. -/
theorem set_is_update_iff_middle :
    let s := (eptSetEntry smallEnv 1 emptyState setLow).2
    Stores smallEnv (eptSetEntry smallEnv 1 s setMiddle).2 setMiddle ∧
      KeepsOthers smallEnv s (eptSetEntry smallEnv 1 s setMiddle).2 setMiddle := by
  have hset : (eptSetEntry smallEnv 1 emptyState setLow).1 = 0 := by decide +kernel
  have hstep : emptyState.set ⟨smallEnv, 1, setLow⟩
      = .ok (eptSetEntry smallEnv 1 emptyState setLow).2 := by
    unfold EptState.set
    exact if_pos hset
  refine (set_is_update_iff emptyState_empty
    (.single ⟨⟨smallEnv, 1, setLow⟩, ⟨rfl, by decide⟩, hstep⟩) (by decide +kernel) (by decide)
    (fun m hm => ?_) (.inl (by decide)) (by decide +kernel)).2
      ⟨⟨by decide, by decide, .inl rfl⟩, ?_⟩
  · have : m < 4096 := of_decide_eq_true hm
    omega
  · rintro g - ⟨-, -, ⟨-, -, hro⟩, -⟩
    exact Bool.noConfusion hro

/-- PoD for gfn 0 with `INVALID_MFN`. -/
def setPod : SetArgs :=
  { gfn := 0, mfn := invalidMfn, order := 0, t := .populateOnDemand, a := .rwx, sve := -1 }

/-- A lookup of gfn 0 reports `p2m_mmio_dm`: `ept_set_entry` leaves the entry of PoD without a frame
empty. -/
theorem pod_without_frame_is_dropped :
    emptyState.Empty ∧ emptyState.SuperpagesSeen ∧
      (eptSetEntry smallEnv 1 emptyState setPod).1 = 0 ∧
      ((eptSetEntry smallEnv 1 emptyState setPod).2.lookup smallEnv 0).t = .mmioDm ∧
      ¬ Stores smallEnv (eptSetEntry smallEnv 1 emptyState setPod).2 setPod := by
  have hlook : ((eptSetEntry smallEnv 1 emptyState setPod).2.lookup smallEnv 0).t = .mmioDm := by
    decide +kernel
  refine ⟨emptyState_empty, by decide +kernel, by decide +kernel, hlook, fun hst => ?_⟩
  have hbad := (hst 0 (by decide)).1 rfl
  exact absurd (hlook.symm.trans hbad) (by decide)

/-- **No call breaks the table**: through all calls of `ept_set_entry`, also those that run out of
memory on their way, the entries stay well formed and `max_mapped_pfn` stays in the address
space. -/
theorem calls_keep_table_wf {caps : EptCaps} {s₀ : EptState} (h₀ : s₀.Empty) {calls : List SetCall}
    (hcalls : ∀ c ∈ calls, c.Admits caps s₀) :
    let s := calls.foldl (fun s c => (eptSetEntry c.env c.asr s c.q).2) s₀
    TableWf caps 3 s.root ∧ s.maxMappedPfn < 2 ^ 36 := by
  refine foldl_invariant (fun s : EptState => TableWf caps 3 s.root ∧ s.maxMappedPfn < 2 ^ 36)
    (fun s c hc h => ?_) ⟨fun i => ?_, (h₀.inv caps).max_lt⟩
  · obtain ⟨rfl, ho⟩ := hcalls c hc
    exact ⟨eptSetEntry_wf c.asr h.1, eptSetEntry_maxMappedPfn c.asr (by omega) h.2⟩
  · obtain ⟨sve, hi⟩ := h₀.1 i
    rw [hi]
    exact leafWf_empty sve

/-- There is a page for the first table only. -/
theorem calls_keep_table_wf_enomem :
    let s : EptState := { emptyState with pool := ⟨[1], []⟩ }
    (eptSetEntry smallEnv 1 s setLow).1 ≠ 0 ∧
      TableWf smallEnv.caps 3 (eptSetEntry smallEnv 1 s setLow).2.root := by
  intro s
  have h := @calls_keep_table_wf smallEnv.caps s emptyState_empty [⟨smallEnv, 1, setLow⟩]
    (List.forall_mem_singleton.2 ⟨rfl, by decide⟩)
  exact ⟨by decide +kernel, h.1⟩

end XenVmi.Ept
