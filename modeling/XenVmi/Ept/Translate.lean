import XenVmi.Ept.Shape
import XenVmi.Lib.Words
import Mathlib.Tactic.Ring

/-!
# What a lookup returns of a leaf

In a table that only `ept_set_entry` has written, `ept_get_entry` returns what the leaf of the gfn
stands for (`EptEntry.mapping`), unless the walk stops above level 0 at an entry without permission
bits.
-/

namespace XenVmi.Ept

open XenVmi.Lib

/-! ## How far a walk goes -/

section Order

variable {env : EptEnv} {gfn level l L : Nat} {e : EptEntry} {t : EptTable}

variable {recalc rc : Bool} {caps : EptCaps}

theorem eptWalk_level_le (h : eptWalk gfn level t recalc = .found L e rc) : L ≤ level := by
  induction level generalizing t recalc with
  | zero =>
    cases h
    exact le_rfl
  | succ l ih =>
    unfold eptWalk at h
    generalize t (eptIndex gfn (l + 1)) = x at h
    simp only at h
    split at h
    · split at h <;> cases h
    split at h
    · cases h
      exact le_rfl
    · cases x with
      | leaf e => cases h
      | table e sub => exact (ih h).trans (Nat.le_succ l)

theorem decode_order_le (h : eptWalk gfn 3 t recalc = .found L e rc) :
    (Lookup.decode env gfn L e rc).order ≤ 27 := by
  have hL := eptWalk_level_le h
  unfold Lookup.decode
  split
  · show 9 * L ≤ 27
    omega
  · exact Nat.zero_le _

theorem ofWalk_order_le (recalc : Bool) :
    (Lookup.ofWalk env gfn (eptWalk gfn 3 t recalc)).order ≤ 27 := by
  cases h : eptWalk gfn 3 t recalc with
  | mapFailed | pod => exact Nat.zero_le _
  | found L e rc =>
    unfold Lookup.ofWalk
    simp only
    split
    · exact Nat.zero_le _
    · exact decode_order_le h

theorem eptGetEntry_order_le (maxMappedPfn : Nat) :
    (eptGetEntry env maxMappedPfn t gfn).order ≤ 27 := by
  unfold eptGetEntry
  split
  · exact Nat.zero_le _
  · exact ofWalk_order_le false

end Order

/-! ## Translations -/

/-- What `ept_get_entry` returns of a mapping. -/
structure Translation where
  mfn : Nat
  t : P2mType
  a : P2mAccess
  deriving Repr, DecidableEq

def Lookup.translation (r : Lookup) : Translation := ⟨r.mfn, r.t, r.a⟩

def Translation.none : Translation := Lookup.none.translation

def Translation.pod : Translation := { Translation.none with t := .populateOnDemand }

def EptEntry.mapping (e : EptEntry) (level gfn : Nat) : Translation :=
  if e.saP2mt = .populateOnDemand then .pod
  else if e.isValid then ⟨e.mfn + gfn % 512 ^ level, e.saP2mt, e.access⟩
  else .none

def EptEntry.visible (e : EptEntry) (level : Nat) : Bool :=
  decide (level = 0) || e.isPresent || decide (e.saP2mt = .populateOnDemand)

/-- What a lookup that ends at an entry of level `level` returns for `gfn`. -/
def EptEntry.translate (e : EptEntry) (level gfn : Nat) : Translation :=
  if e.visible level then e.mapping level gfn else .none

/-- The leaf on the path of `gfn` from entry `x` of level `level`, with its level. -/
def EptNode.leafAt (gfn : Nat) : EptNode → Nat → Nat × EptEntry
  | .leaf e, level => (level, e)
  | .table e _, 0 => (0, e)
  | .table _ sub, l + 1 => (sub (eptIndex gfn l)).leafAt gfn l

def tableLeaf (gfn level : Nat) (t : EptTable) : Nat × EptEntry :=
  (t (eptIndex gfn level)).leafAt gfn level

section Entry

variable {e : EptEntry} {level gfn : Nat}

theorem ofWalk_found_mfn (env : EptEnv) (recalc : Bool) :
    (Lookup.ofWalk env gfn (.found level e recalc)).mfn = (e.mapping level gfn).mfn := by
  unfold Lookup.ofWalk EptEntry.mapping
  by_cases hp : e.saP2mt = .populateOnDemand
  · simp [hp, Lookup.none, Translation.pod, Translation.none, Lookup.translation]
  · by_cases hv : e.isValid = true
    · simp [hp, hv, Lookup.decode]
    · simp [hp, hv, Lookup.decode, Lookup.none, Translation.none, Lookup.translation]

theorem translate_of_visible (h : e.visible level = true) :
    e.translate level gfn = e.mapping level gfn := if_pos h

theorem translate_of_not_visible (h : e.visible level = false) :
    e.translate level gfn = .none := if_neg (by rw [h]; exact Bool.false_ne_true)

theorem visible_zero (e : EptEntry) : e.visible 0 = true := rfl

theorem visible_of_pos (h : 0 < level) :
    e.visible level = true ↔ e.isPresent = true ∨ e.saP2mt = .populateOnDemand := by
  simp [EptEntry.visible, Nat.ne_of_gt h]

theorem mapping_empty (sve : Bool) :
    ({ EptEntry.zero with suppressVe := sve } : EptEntry).mapping level gfn = .none := rfl

theorem mapping_invalid (h : e.saP2mt = .invalid) : e.mapping level gfn = .none := by
  have hv : e.isValid = false := by
    unfold EptEntry.isValid
    rw [h, decide_eq_false (not_not.2 rfl), Bool.and_false]
  rw [EptEntry.mapping, h, hv]
  rfl

theorem isValid_of_nonzero (h : { e with suppressVe := false } ≠ EptEntry.zero) :
    e.isValid = decide (e.saP2mt ≠ .invalid) := by
  unfold EptEntry.isValid
  rw [decide_eq_true h, Bool.true_and]

theorem nonzero_of_isPresent (h : e.isPresent = true) :
    { e with suppressVe := false } ≠ EptEntry.zero := by
  intro hz
  have hp : ({ e with suppressVe := false } : EptEntry).isPresent = true := h
  rw [hz] at hp
  exact absurd hp (by decide)

theorem nonzero_of_splits (h : e.Splits) : { e with suppressVe := false } ≠ EptEntry.zero := by
  rintro hz
  rcases h with hs | hp
  · exact absurd (congrArg EptEntry.sp hz) (by rw [show e.sp = true from hs]; decide)
  · exact absurd (congrArg EptEntry.saP2mt hz) (by simp only [hp]; decide)

end Entry

section Tree

variable {T : EptEntry → Prop} {P : Nat → EptEntry → Prop} {gfn level l : Nat} {t : EptTable}

theorem EptNode.All.leafAt {x : EptNode} (h : x.All T P level) (gfn : Nat) :
    P (x.leafAt gfn level).1 (x.leafAt gfn level).2 ∧ (x.leafAt gfn level).1 ≤ level := by
  induction x generalizing level with
  | leaf e => exact ⟨h, le_rfl⟩
  | table e sub ih =>
    cases level with
    | zero => exact h.elim
    | succ l =>
      obtain ⟨hP, hle⟩ := ih (eptIndex gfn l) (h.2 _)
      exact ⟨hP, Nat.le_succ_of_le hle⟩

theorem TableAll.leaf (h : TableAll T P level t) (gfn : Nat) :
    P (tableLeaf gfn level t).1 (tableLeaf gfn level t).2 := ((h _).leafAt gfn).1

theorem TableAll.leaf_le (h : TableAll T P level t) (gfn : Nat) :
    (tableLeaf gfn level t).1 ≤ level := ((h _).leafAt gfn).2

theorem tableLeaf_of_leaf {e : EptEntry} (h : t (eptIndex gfn level) = .leaf e) :
    tableLeaf gfn level t = (level, e) := by
  rw [tableLeaf, h]
  rfl

theorem tableLeaf_of_table {e : EptEntry} {sub : EptTable}
    (h : t (eptIndex gfn (l + 1)) = .table e sub) :
    tableLeaf gfn (l + 1) t = tableLeaf gfn l sub := by
  rw [tableLeaf, h]
  rfl

theorem tableLeaf_update (t : EptTable) (i : Fin 512) (x : EptNode) :
    tableLeaf gfn level (Function.update t i x) =
      if eptIndex gfn level = i then x.leafAt gfn level else tableLeaf gfn level t := by
  unfold tableLeaf
  by_cases h : eptIndex gfn level = i
  · subst h
    rw [Function.update_self, if_pos rfl]
  · rw [Function.update_of_ne h, if_neg h]

/-- A walk that ends at the leaf `p` finds an entry there. -/
abbrev Mapped (p : Nat × EptEntry) : Prop :=
  p.1 = 0 ∨ p.2.isPresent = true ∧ p.2.isSuperpage = true

/-- The end of a walk that comes to the leaf `p`. -/
def walkEnd (p : Nat × EptEntry) (recalc : Bool) : WalkEnd :=
  if Mapped p then .found p.1 p.2 recalc
  else if p.2.isPresent = false ∧ p.2.saP2mt = .populateOnDemand then .pod p.1
  else .mapFailed

theorem eptWalk_eq (gfn : Nat) (hT : ∀ {e}, T e → e.Walked) (w : TableAll T P level t)
    (recalc : Bool) :
    ∃ rc, eptWalk gfn level t recalc = walkEnd (tableLeaf gfn level t) rc ∧
      ((∀ {e}, T e → e.recalc = false) → (∀ {k e}, P k e → e.recalc = false) → rc = recalc) := by
  induction level generalizing t recalc with
  | zero =>
    have hx := w (eptIndex gfn 0)
    unfold eptWalk
    cases hn : t (eptIndex gfn 0) with
    | table e sub => rw [hn] at hx; exact hx.elim
    | leaf e =>
      rw [tableLeaf_of_leaf hn]
      exact ⟨recalc, (if_pos (.inl rfl)).symm, fun _ _ => rfl⟩
  | succ l ih =>
    have hx := w (eptIndex gfn (l + 1))
    unfold eptWalk
    cases hn : t (eptIndex gfn (l + 1)) with
    | table e sub =>
      rw [hn] at hx
      obtain ⟨hp, hs, -⟩ := hT hx.1
      obtain ⟨rc, heq, hrc⟩ := ih hx.2 (recalc || e.recalc)
      simp only [EptNode.entry, hp, hs, Bool.not_true, Bool.false_eq_true, if_false]
      rw [tableLeaf_of_table hn]
      refine ⟨rc, heq, fun hT' hP => ?_⟩
      rw [hrc hT' hP, hT' hx.1, Bool.or_false]
    | leaf e =>
      rw [hn] at hx
      rw [tableLeaf_of_leaf hn]
      refine ⟨recalc || e.recalc, ?_, fun _ hP => by rw [hP hx, Bool.or_false]⟩
      by_cases hp : e.isPresent = true <;> by_cases hs : e.isSuperpage = true <;>
        by_cases hpod : e.saP2mt = .populateOnDemand <;>
        simp [walkEnd, Mapped, EptNode.entry, hp, hs, hpod]

end Tree

/-! ## The leaves that `ept_set_entry` writes -/

/-- An entry that `ept_set_middle_entry` wrote. -/
def EptEntry.Middle (e : EptEntry) : Prop := e.Walked ∧ e.recalc = false

/-- A leaf that `ept_set_entry` wrote. -/
structure SetLeaf (caps : EptCaps) (level : Nat) (e : EptEntry) : Prop extends
    LeafWf caps level e where
  empty : 0 < level → e.sp = false → { e with suppressVe := false } = EptEntry.zero
  small : e.sp = true → level < 3

section SetLeaf

variable {caps : EptCaps} {env : EptEnv} {q : SetArgs} {level gfn : Nat} {e : EptEntry}
  {t : EptTable}

theorem setLeaf_empty (sve : Bool) : SetLeaf caps level { EptEntry.zero with suppressVe := sve } :=
  ⟨leafWf_empty sve, fun _ _ => rfl, fun h => Bool.noConfusion h⟩

theorem newEntry_setLeaf (hl : level < 3) (h : 512 ^ level ∣ q.mfn) (old : EptEntry) :
    SetLeaf env.caps level (newEntry env q level old) := by
  refine ⟨newEntry_wf (by omega) h old, fun h0 hsp => ?_, fun _ => hl⟩
  cases hf : q.fills env with
  | true =>
    rw [(newEntry_filled hf level old).sp, decide_eq_true h0] at hsp
    exact Bool.noConfusion hsp
  | false =>
    obtain ⟨sve, hz⟩ := newEntry_empty hf level old
    rw [hz]
    rfl

theorem setLeaf_rule (env : EptEnv) : LeafRule env EptEntry.Middle (SetLeaf env.caps) where
  middle _ := ⟨⟨rfl, rfl, rfl⟩, rfl⟩
  walked h := h.1
  fresh _ := setLeaf_empty true
  recalc w := w.recalc
  setEmt {level e} w hs emt ipat :=
    { w.setEmt emt ipat with
      empty := fun h0 hsp => by
        have hsp' : e.sp = true := hs.resolve_left (Nat.ne_of_gt h0)
        exact Bool.noConfusion (hsp'.symm.trans hsp)
      small := w.small }
  split {l e} hl w _ i :=
    { splitEntry_wf (by omega) w.toLeafWf i with
      empty := fun h0 hsp => by
        rw [(splitEntry_splitOf env l e i).sp, decide_eq_true h0] at hsp
        exact Bool.noConfusion hsp
      small := fun _ => hl }

theorem SetLeaf.splits_or_empty (w : SetLeaf caps level e) (h : 0 < level) :
    e.Splits ∨ ∃ sve, e = { EptEntry.zero with suppressVe := sve } := by
  by_cases hs : e.sp = true
  · exact .inl (.inl hs)
  · refine .inr ⟨e.suppressVe, ?_⟩
    rw [← w.empty h (Bool.eq_false_iff.2 hs)]

theorem SetLeaf.sp_of_isPresent (w : SetLeaf caps level e) (h : 0 < level)
    (hp : e.isPresent = true) : e.isSuperpage = true := by
  by_contra hs
  have hz := w.empty h (Bool.eq_false_iff.2 hs)
  exact nonzero_of_isPresent hp hz

theorem ofWalk_found_translation (hr : e.recalc = false) :
    (Lookup.ofWalk env gfn (.found level e false)).translation = e.mapping level gfn := by
  unfold Lookup.ofWalk EptEntry.mapping
  by_cases hp : e.saP2mt = .populateOnDemand
  · simp only [hp, if_true]
    rfl
  · simp only [hp, if_false, Lookup.decode, hr]
    split <;> rfl

theorem ofWalk_translation (w : TableAll EptEntry.Middle (SetLeaf caps) level t) :
    (Lookup.ofWalk env gfn (eptWalk gfn level t false)).translation =
      (tableLeaf gfn level t).2.translate (tableLeaf gfn level t).1 gfn := by
  obtain ⟨rc, heq, hrc⟩ := eptWalk_eq gfn And.left w false
  obtain rfl := hrc And.right fun w => w.recalc
  have w := w.leaf gfn
  rw [heq, walkEnd]
  generalize tableLeaf gfn level t = p at w ⊢
  split
  · rename_i hm
    rw [translate_of_visible]
    · exact ofWalk_found_translation w.recalc
    · rcases hm with h0 | ⟨hp, -⟩
      · rw [h0]
        exact visible_zero p.2
      · simp [EptEntry.visible, hp]
  rename_i hm
  have hpos : 0 < p.1 := Nat.pos_of_ne_zero fun h0 => hm (.inl h0)
  have hp : ¬ p.2.isPresent = true := fun hp => hm (.inr ⟨hp, w.sp_of_isPresent hpos hp⟩)
  split
  · rename_i hpod
    rw [translate_of_visible ((visible_of_pos hpos).2 (.inr hpod.2)), EptEntry.mapping,
      if_pos hpod.2]
    rfl
  rename_i hpod
  rw [translate_of_not_visible]
  · rfl
  · rw [Bool.eq_false_iff]
    exact fun h => ((visible_of_pos hpos).1 h).elim hp fun h =>
      hpod ⟨Bool.eq_false_iff.2 hp, h⟩

theorem eptGetEntry_translation {root : EptTable}
    (w : TableAll EptEntry.Middle (SetLeaf caps) 3 root) (env : EptEnv) (maxMappedPfn gfn : Nat) :
    (eptGetEntry env maxMappedPfn root gfn).translation =
      if maxMappedPfn < gfn then .none
      else (tableLeaf gfn 3 root).2.translate (tableLeaf gfn 3 root).1 gfn := by
  unfold eptGetEntry
  split
  · rfl
  · exact ofWalk_translation w

end SetLeaf

/-! ## The parts of a superpage -/

/-- The part of level `target` on the path of `gfn` that a superpage of level `level` is split
into. -/
def partAt (env : EptEnv) (gfn target : Nat) : (level : Nat) → EptEntry → EptEntry
  | 0, e => e
  | l + 1, e =>
    if l + 1 = target then e else partAt env gfn target l (splitEntry env l e (eptIndex gfn l))

section Parts

variable {env : EptEnv} {gfn target level l : Nat} {e : EptEntry} {st st' : PtPool} {y : EptNode}

theorem partAt_self (env : EptEnv) (gfn target : Nat) (e : EptEntry) :
    partAt env gfn target target e = e := by
  cases target with
  | zero => rfl
  | succ target => exact if_pos rfl

theorem partAt_succ (h : target ≤ l) :
    partAt env gfn target (l + 1) e =
      partAt env gfn target l (splitEntry env l e (eptIndex gfn l)) :=
  if_neg (by omega)

theorem split_leafAt (gfn : Nat) (ht : target ≤ level)
    (h : eptSplitSuperPage env target level (.leaf e) st = (true, y, st')) :
    y.leafAt gfn level = (target, partAt env gfn target level e) := by
  induction level generalizing e y st st' with
  | zero =>
    obtain rfl : target = 0 := Nat.le_zero.1 ht
    cases h
    rfl
  | succ l ih =>
    by_cases hne : l + 1 = target
    · subst hne
      rw [split_self] at h
      cases h
      rw [partAt_self]
      rfl
    · obtain ⟨pg, sub, rfl, hsub⟩ := split_true hne h
      obtain ⟨s, s', hi⟩ := hsub (eptIndex gfn l)
      rw [partAt_succ (by omega)]
      exact ih (by omega) hi

theorem split_frame (hl : l + 1 ≤ 4) (w : LeafWf env.caps (l + 1) e) :
    (e.mfn + (eptIndex gfn l) * 512 ^ l) % 2 ^ 40 + gfn % 512 ^ l =
      e.mfn + gfn % 512 ^ (l + 1) := by
  have h40 : 512 ^ (l + 1) ∣ 2 ^ 40 := by
    rw [show 512 = 2 ^ 9 from rfl, ← pow_mul]
    exact pow_dvd_pow 2 (by omega)
  have hroom : e.mfn + 512 ^ (l + 1) ≤ 2 ^ 40 :=
    Nat.le_of_lt_add_of_dvd (Nat.add_lt_add_right w.lt _) (Nat.dvd_add w.aligned dvd_rfl) h40
  have hidx : ((eptIndex gfn l : Fin 512) : Nat) = gfn / 512 ^ l % 512 := rfl
  have hpart : gfn / 512 ^ l % 512 * 512 ^ l + gfn % 512 ^ l = gfn % 512 ^ (l + 1) := by
    rw [Nat.mod_pow_succ]
    ring
  rw [hidx]
  omega

theorem mapping_splitEntry (hl : l + 1 ≤ 4) (w : LeafWf env.caps (l + 1) e)
    (hz : { e with suppressVe := false } ≠ EptEntry.zero) :
    (splitEntry env l e (eptIndex gfn l)).mapping l gfn = e.mapping (l + 1) gfn := by
  have hs := splitEntry_splitOf env l e (eptIndex gfn l)
  unfold EptEntry.mapping
  rw [isValid_of_nonzero hs.nonzero, isValid_of_nonzero hz, hs.saP2mt, hs.access, hs.mfn,
    split_frame hl w]

theorem mapping_partAt (ht : target ≤ level) (hl : level ≤ 4) (w : LeafWf env.caps level e)
    (hz : { e with suppressVe := false } ≠ EptEntry.zero) :
    (partAt env gfn target level e).mapping target gfn = e.mapping level gfn := by
  induction level generalizing e with
  | zero =>
    obtain rfl : target = 0 := Nat.le_zero.1 ht
    rfl
  | succ l ih =>
    by_cases hne : l + 1 = target
    · subst hne
      rw [partAt_self]
    · rw [partAt_succ (by omega), ih (by omega) (by omega) (splitEntry_wf (by omega) w _)
        (splitEntry_splitOf env l e _).nonzero]
      exact mapping_splitEntry hl w hz

end Parts

end XenVmi.Ept
