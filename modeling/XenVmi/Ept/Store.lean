import XenVmi.Ept.Effect
import XenVmi.Lib.Runs

/-!
# Runs of `ept_set_entry`

A table that was empty and that successful `ept_set_entry` calls have written since: beyond
`max_mapped_pfn` no leaf stands for a mapping.
-/

namespace XenVmi.Ept

open XenVmi.Lib

/-! ## Runs -/

/-- One `ept_set_entry` call, with what it reads of the machine. -/
structure SetCall where
  env : EptEnv
  asr : Nat
  q : SetArgs

def EptState.set (s : EptState) (c : SetCall) : Except Int EptState :=
  let r := eptSetEntry c.env c.asr s c.q
  if r.1 = 0 then .ok r.2 else .error r.1

/-- `ASSERT(target == 0 || target == 1 || target == 2)`, on a machine that stays as it is. -/
def SetCall.Admits (caps : EptCaps) (_ : EptState) (c : SetCall) : Prop :=
  c.env.caps = caps ∧ c.q.order ≤ 18

def EptState.Empty (s : EptState) : Prop :=
  (∀ i, ∃ sve, s.root i = .leaf { EptEntry.zero with suppressVe := sve }) ∧ s.maxMappedPfn = 0

abbrev SuperpageSeen (level : Nat) (e : EptEntry) : Prop :=
  0 < level → e.sp = true → e.isPresent = true ∨ e.saP2mt = .populateOnDemand

abbrev EptState.SuperpagesSeen (s : EptState) : Prop :=
  TableAll (fun _ => True) SuperpageSeen 3 s.root

/-- What `ept_get_entry` returns for `gfn`. -/
def EptState.lookup (env : EptEnv) (s : EptState) (gfn : Nat) : Translation :=
  (eptGetEntry env s.maxMappedPfn s.root gfn).translation

/-- What holds of a table that only `ept_set_entry` has written. -/
structure EptState.Inv (caps : EptCaps) (s : EptState) : Prop where
  leaves : TableAll EptEntry.Middle (SetLeaf caps) 3 s.root
  max_lt : s.maxMappedPfn < 2 ^ 36
  beyond : ∀ g < 2 ^ 36, s.maxMappedPfn < g →
    (tableLeaf g 3 s.root).2.mapping (tableLeaf g 3 s.root).1 g = .none

theorem EptState.Empty.inv {s : EptState} (h : s.Empty) (caps : EptCaps) : s.Inv caps where
  leaves i := by
    obtain ⟨sve, hi⟩ := h.1 i
    rw [hi]
    exact setLeaf_empty sve
  max_lt := by
    rw [h.2]
    exact Nat.two_pow_pos 36
  beyond g _ _ := by
    obtain ⟨sve, hi⟩ := h.1 (eptIndex g 3)
    rw [tableLeaf_of_leaf hi]
    exact mapping_empty sve

/-! ## Mappings under the two walks -/

section Mapping

variable {env : EptEnv} {gfn g level target : Nat} {e : EptEntry} {p p' : Nat × EptEntry}

theorem splits_of_needsSplit (h : needsSplit env gfn level e = true) : e.Splits := by
  unfold needsSplit at h
  rw [Bool.and_eq_true, Bool.and_eq_true] at h
  exact .inl h.1.1

theorem mapping_resolvedLeaf (w : LeafWf env.caps level e) (hl : level ≤ 3) :
    (resolvedLeaf env gfn g level e).2.mapping (resolvedLeaf env gfn g level e).1 g =
      e.mapping level g := by
  induction level generalizing e with
  | zero => rfl
  | succ l ih =>
    rw [resolvedLeaf]
    split
    · rename_i hneeds
      have hsp := splits_of_needsSplit hneeds
      have hpart : (splitEntry env l e (eptIndex g l)).mapping l g = e.mapping (l + 1) g :=
        mapping_splitEntry (by omega) w (nonzero_of_splits hsp)
      split
      · rw [ih (splitEntry_wf (by omega) w _) (by omega)]
        exact hpart
      · exact hpart
    · rfl

theorem ResolvesTo.mapping (h : ResolvesTo env gfn g level p p') (w : SetLeaf env.caps p.1 p.2)
    (hl : p.1 ≤ 3) : p'.2.mapping p'.1 g = p.2.mapping p.1 g := by
  by_cases H : Agree 512 g gfn p.1 (level + 1)
  · obtain ⟨hL, ha⟩ := h.shared H
    rw [hL, ha.mapping, mapping_resolvedLeaf w.toLeafWf hl]
  · obtain ⟨hL, ha⟩ := h.apart H
    rw [hL, ha.mapping]

theorem Remains.mapping (h : Remains env target gfn g level p p') (w : SetLeaf env.caps p.1 p.2)
    (hl : p.1 ≤ 3) : p'.2.mapping p'.1 g = p.2.mapping p.1 g ∨ p'.2.mapping p'.1 g = .none := by
  cases h with
  | apart _ => exact .inl rfl
  | split _ ht hs _ =>
    exact .inl (mapping_partAt (le_of_lt ht) (hl.trans (by decide)) w.toLeafWf
      (nonzero_of_splits hs))
  | cleared _ _ _ _ => exact .inr (mapping_empty true)

end Mapping

/-! ## One successful call -/

def SetArgs.Covers (q : SetArgs) (g : Nat) : Prop := q.gfn ≤ g ∧ g < q.gfn + 2 ^ q.order

/-- A successful call: `resolve_misconfig` leaves the page `mid`, and the walk goes on from there.
-/
structure SetOk (env : EptEnv) (asr : Nat) (q : SetArgs) (s s' : EptState) (mid : EptTable) :
    Prop where
  gfn_lt : q.gfn < 2 ^ 36
  gfn_dvd : 2 ^ q.order ∣ q.gfn
  mfn_dvd : 2 ^ q.order ∣ q.mfn
  order : q.order = 9 * (q.order / 9)
  leaves : TableAll EptEntry.Middle (SetLeaf env.caps) 3 mid
  untouched : asr = 0 → mid = s.root
  resolved : asr ≠ 0 → ∀ g, ResolvesTo env q.gfn g 3 (tableLeaf g 3 s.root) (tableLeaf g 3 mid)
  written : ∀ g, Written env q (q.order / 9) g 3 mid s'.root
  max : s'.maxMappedPfn = if q.t ≠ .invalid ∧ s.maxMappedPfn < q.gfn + 2 ^ q.order - 1
    then q.gfn + 2 ^ q.order - 1 else s.maxMappedPfn

section Call

variable {env : EptEnv} {asr : Nat} {q : SetArgs} {s : EptState} {g : Nat}

theorem eptSetEntry_ok (w : TableAll EptEntry.Middle (SetLeaf env.caps) 3 s.root)
    (ho : q.order ≤ 18) (hok : (eptSetEntry env asr s q).1 = 0) :
    ∃ mid, SetOk env asr q s (eptSetEntry env asr s q).2 mid := by
  have R := setLeaf_rule env
  unfold eptSetEntry at hok ⊢
  split at hok
  · exact absurd (show -EINVAL = 0 from hok) (by decide)
  rename_i hq
  rw [if_neg hq]
  rw [not_or, not_or, not_not, not_le] at hq
  obtain ⟨hdvd, hgfn, hmod⟩ := hq
  -- the first walk, if there is one
  have hm : ∀ m, m = (if asr = 0 then (0, s.root, s.pool)
      else resolveMisconfig env q.gfn 3 s.root s.pool 0) → ¬ m.1 < 0 →
      TableAll EptEntry.Middle (SetLeaf env.caps) 3 m.2.1 ∧ (asr = 0 → m.2.1 = s.root) ∧
        (asr ≠ 0 → ∀ g, ResolvesTo env q.gfn g 3 (tableLeaf g 3 s.root) (tableLeaf g 3 m.2.1)) := by
    rintro m rfl hpos
    by_cases hasr : asr = 0
    · rw [if_pos hasr]
      exact ⟨w, fun _ => rfl, fun h => absurd hasr h⟩
    · rw [if_neg hasr] at hpos ⊢
      exact ⟨R.resolveMisconfig_all q.gfn le_rfl w s.pool 0, fun h => absurd h hasr,
        fun _ g => resolveMisconfig_leafwise R le_rfl w (not_lt.1 hpos) g⟩
  generalize (if asr = 0 then (0, s.root, s.pool)
    else resolveMisconfig env q.gfn 3 s.root s.pool 0) = m at hm hok ⊢
  by_cases hneg : m.1 < 0
  · rw [if_pos hneg] at hok
    exact absurd hok (ne_of_lt hneg)
  rw [if_neg hneg] at hok ⊢
  obtain ⟨wm, hz, hr⟩ := hm m rfl hneg
  have hset : (setWalk env q (q.order / 9) 3 m.2.1 m.2.2 false).1 = 0 := hok
  refine ⟨m.2.1, hgfn, (dvd_of_or_mod hdvd).1, (dvd_of_or_mod hdvd).2, by omega, wm, hz, hr,
    fun g => setWalk_leafwise R (by omega) le_rfl wm hset g, ?_⟩
  simp only [hset, true_and]

theorem SetOk.covers_iff {s' : EptState} {mid : EptTable} (h : SetOk env asr q s s' mid)
    (ho : q.order ≤ 18) (hg : g < 2 ^ 36) : Agree 512 g q.gfn (q.order / 9) 4 ↔ q.Covers g := by
  have hlen : 512 ^ (q.order / 9) = 2 ^ q.order := by
    rw [show 512 = 2 ^ 9 from rfl, ← pow_mul, ← h.order]
  have hpos : 0 < 2 ^ q.order := Nat.two_pow_pos _
  obtain ⟨c, hc⟩ := h.gfn_dvd
  rw [agree_iff_div_eq (by omega) (show g < 512 ^ 4 from hg) (show q.gfn < 512 ^ 4 from h.gfn_lt),
    hlen, hc, Nat.mul_div_cancel_left _ hpos, Nat.div_eq_iff hpos, SetArgs.Covers]
  have hcomm : c * 2 ^ q.order = 2 ^ q.order * c := Nat.mul_comm _ _
  constructor
  · rintro ⟨hlo, hhi⟩
    omega
  · rintro ⟨hlo, hhi⟩
    omega

end Call

/-! ## The entry written -/

section New

variable {env : EptEnv} {q : SetArgs} {level g : Nat} {old : EptEntry}

theorem SetArgs.fills_of_valid (hv : env.mfnValid q.mfn = true) : q.fills env = true := by
  unfold SetArgs.fills
  rw [hv, Bool.true_or, Bool.true_or, Bool.true_or]

theorem newEntry_mapping (hv : env.mfnValid q.mfn = true) (ht : q.t ≠ .invalid) :
    (newEntry env q level old).mapping level g =
      if q.t = .populateOnDemand then .pod
      else ⟨q.mfn % 2 ^ 40 + g % 512 ^ level, q.t, q.a⟩ := by
  have F := newEntry_filled (SetArgs.fills_of_valid hv) level old
  unfold EptEntry.mapping
  rw [isValid_of_nonzero F.nonzero, F.mfn, F.saP2mt, F.access, decide_eq_true ht, if_pos rfl]

theorem newEntry_mapping_invalid (ht : q.t = .invalid) :
    (newEntry env q level old).mapping level g = .none := by
  cases hf : q.fills env with
  | true => exact mapping_invalid ((newEntry_filled hf level old).saP2mt.trans ht)
  | false =>
    obtain ⟨sve, hz⟩ := newEntry_empty hf level old
    rw [hz]
    exact mapping_empty sve

theorem newEntry_mapping_pod (hv : env.mfnValid q.mfn = false) (ht : q.t = .populateOnDemand) :
    (newEntry env q level old).mapping level g = .none := by
  unfold newEntry
  simp only [hv, ht]
  exact mapping_empty _

theorem newEntry_visible (hv : env.mfnValid q.mfn = true) (level : Nat) (old : EptEntry) :
    (newEntry env q level old).visible level = true ↔ level = 0 ∨
      (newEntry env q level EptEntry.zero).isPresent = true ∨ q.t = .populateOnDemand := by
  have hp : (newEntry env q level old).isPresent = (newEntry env q level EptEntry.zero).isPresent :=
    rfl
  unfold EptEntry.visible
  rw [hp, (newEntry_filled (SetArgs.fills_of_valid hv) level old).saP2mt, Bool.or_eq_true,
    Bool.or_eq_true, decide_eq_true_eq, decide_eq_true_eq, or_assoc]

end New

/-! ## Every state of a run -/

section Run

variable {caps : EptCaps} {env : EptEnv} {asr : Nat} {q : SetArgs} {s s' : EptState} {g : Nat}
  {mid : EptTable}

variable (h : SetOk env asr q s s' mid)

include h

theorem SetOk.mapping_mid (I : s.Inv env.caps) (g : Nat) :
    (tableLeaf g 3 mid).2.mapping (tableLeaf g 3 mid).1 g =
      (tableLeaf g 3 s.root).2.mapping (tableLeaf g 3 s.root).1 g := by
  by_cases hasr : asr = 0
  · rw [h.untouched hasr]
  · exact (h.resolved hasr g).mapping (I.leaves.leaf g) (I.leaves.leaf_le g)

theorem SetOk.max_le : s.maxMappedPfn ≤ s'.maxMappedPfn := by
  rw [h.max]
  split
  · rename_i hlt
    exact le_of_lt hlt.2
  · exact le_rfl

theorem SetOk.le_max (ht : q.t ≠ .invalid) (hg : q.Covers g) : g ≤ s'.maxMappedPfn := by
  have := hg.2
  rw [h.max]
  split
  · omega
  · rename_i hlt
    rw [not_and] at hlt
    have := hlt ht
    omega

omit h

theorem EptState.Inv.set (I : s.Inv env.caps) (ho : q.order ≤ 18)
    (hok : (eptSetEntry env asr s q).1 = 0) : (eptSetEntry env asr s q).2.Inv env.caps := by
  obtain ⟨mid, h⟩ := eptSetEntry_ok I.leaves ho hok
  refine ⟨?_, eptSetEntry_maxMappedPfn asr (by omega) I.max_lt, fun g hg hmax => ?_⟩
  · exact (setLeaf_rule env).eptSetEntry_all asr
      (fun k hk _ hdvd old => newEntry_setLeaf (by omega) hdvd old) I.leaves
  · by_cases hin : Agree 512 g q.gfn (q.order / 9) 4
    · obtain ⟨old, hleaf⟩ := (h.written g).inside hin
      by_cases ht : q.t = .invalid
      · rw [hleaf]
        exact newEntry_mapping_invalid ht
      · have := h.le_max ht ((h.covers_iff ho hg).1 hin)
        omega
    · rcases ((h.written g).outside hin).mapping (h.leaves.leaf g)
        (h.leaves.leaf_le g) with heq | heq
      · rw [heq, h.mapping_mid I]
        exact I.beyond g hg (lt_of_le_of_lt h.max_le hmax)
      · exact heq

theorem EptState.Inv.of_reaches {s₀ : EptState} (h₀ : s₀.Empty)
    (run : Reaches EptState.set (SetCall.Admits caps) s₀ s) : s.Inv caps := by
  refine run.invariant (fun s c s' hc hstep I => ?_) (h₀.inv caps)
  obtain ⟨rfl, ho⟩ := hc
  unfold EptState.set at hstep
  simp only at hstep
  split at hstep
  · rename_i hok
    cases hstep
    exact I.set ho hok
  · cases hstep

end Run

end XenVmi.Ept
