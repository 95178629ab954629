import XenVmi.Ept.Translate

/-!
# What a call does to the leaf of a gfn

`ept_set_entry(gfn, …)` changes the leaf of another gfn `g` only where the two share it: where their
paths are the same down to the level `L` of the leaf (`Agree 512 g gfn L`).
-/

namespace XenVmi.Ept

open XenVmi.Lib

theorem eptIndex_eq_iff {g gfn l : Nat} :
    eptIndex g l = eptIndex gfn l ↔ g / 512 ^ l % 512 = gfn / 512 ^ l % 512 := Fin.ext_iff

theorem agree_shared {g gfn l : Nat} (hi : eptIndex g l = eptIndex gfn l) :
    Agree 512 g gfn l (l + 1) :=
  (agree_succ le_rfl).2 ⟨eptIndex_eq_iff.1 hi, agree_empty _ _ _ _⟩

theorem agree_up {g gfn l L : Nat} (hi : eptIndex g (l + 1) = eptIndex gfn (l + 1)) (hL : L ≤ l) :
    Agree 512 g gfn L (l + 1 + 1) ↔ Agree 512 g gfn L (l + 1) := by
  rw [agree_succ (Nat.le_succ_of_le hL)]
  exact and_iff_right (eptIndex_eq_iff.1 hi)

/-! ## Memory types -/

structure Alike (e e' : EptEntry) : Prop where
  mfn : e'.mfn = e.mfn
  sp : e'.sp = e.sp
  saP2mt : e'.saP2mt = e.saP2mt
  access : e'.access = e.access
  isPresent : e'.isPresent = e.isPresent
  isValid : e'.isValid = e.isValid

def AlikeLeaf (p p' : Nat × EptEntry) : Prop := p'.1 = p.1 ∧ Alike p.2 p'.2

section Alike

variable {e e' : EptEntry}

theorem Alike.refl (e : EptEntry) : Alike e e := ⟨rfl, rfl, rfl, rfl, rfl, rfl⟩

theorem AlikeLeaf.refl (p : Nat × EptEntry) : AlikeLeaf p p := ⟨rfl, .refl p.2⟩

theorem Alike.setEmt (h : e.isPresent = true ∨ e.sp = true) (emt : Nat) (ipat : Bool) :
    Alike e { e with emt := emt, ipat := ipat, recalc := false } := by
  have hz : ∀ e : EptEntry, e.isPresent = true ∨ e.sp = true →
      { e with suppressVe := false } ≠ EptEntry.zero := fun e h =>
    h.elim nonzero_of_isPresent fun hs => nonzero_of_splits (.inl hs)
  refine ⟨rfl, rfl, rfl, rfl, rfl, ?_⟩
  rw [isValid_of_nonzero (hz e h), isValid_of_nonzero (hz _ (by exact h))]

theorem Alike.mapping (h : Alike e e') (level gfn : Nat) :
    e'.mapping level gfn = e.mapping level gfn := by
  unfold EptEntry.mapping
  rw [h.saP2mt, h.isValid, h.mfn, h.access]

theorem Alike.visible (h : Alike e e') (level : Nat) : e'.visible level = e.visible level := by
  unfold EptEntry.visible
  rw [h.isPresent, h.saP2mt]

end Alike

/-! ## Resolving misconfigured entries -/

/-- The leaf of `g` after `resolve_misconfig(gfn)`, from a leaf of level `level` that `g` and `gfn`
share. -/
def resolvedLeaf (env : EptEnv) (gfn g : Nat) : (level : Nat) → EptEntry → Nat × EptEntry
  | 0, e => (0, e)
  | l + 1, e =>
    if needsSplit env gfn (l + 1) e then
      let part := splitEntry env l e (eptIndex g l)
      if eptIndex g l = eptIndex gfn l then resolvedLeaf env gfn g l part else (l, part)
    else (l + 1, e)

/-- What `resolve_misconfig(gfn)` makes of the leaf `p` of `g` in a page of level `level`. -/
structure ResolvesTo (env : EptEnv) (gfn g level : Nat) (p p' : Nat × EptEntry) : Prop where
  shared : Agree 512 g gfn p.1 (level + 1) → AlikeLeaf (resolvedLeaf env gfn g p.1 p.2) p'
  apart : ¬ Agree 512 g gfn p.1 (level + 1) → AlikeLeaf p p'

section Resolve

variable {env : EptEnv} {T : EptEntry → Prop} {P : Nat → EptEntry → Prop} {gfn g level l : Nat}
  {e e' : EptEntry} {t : EptTable} {p p' : Nat × EptEntry}

theorem ResolvesTo.whole (hr : resolvedLeaf env gfn g p.1 p.2 = p) (h : AlikeLeaf p p') :
    ResolvesTo env gfn g level p p' :=
  ⟨fun _ => hr.symm ▸ h, fun _ => h⟩

theorem ResolvesTo.other (hle : p.1 ≤ level) (hi : eptIndex g level ≠ eptIndex gfn level) :
    ResolvesTo env gfn g level p p :=
  ⟨fun h => absurd (eptIndex_eq_iff.2 ((agree_succ hle).1 h).1) hi, fun _ => .refl p⟩

theorem ResolvesTo.up (h : ResolvesTo env gfn g l p p') (hle : p.1 ≤ l)
    (hi : eptIndex g (l + 1) = eptIndex gfn (l + 1)) : ResolvesTo env gfn g (l + 1) p p' :=
  ⟨fun H => h.shared ((agree_up hi hle).1 H), fun H => h.apart fun H' => H ((agree_up hi hle).2 H')⟩

theorem ResolvesTo.split (hneeds : needsSplit env gfn (l + 1) e = true)
    (hi : eptIndex g (l + 1) = eptIndex gfn (l + 1))
    (h : ResolvesTo env gfn g l (l, splitEntry env l e (eptIndex g l)) p') :
    ResolvesTo env gfn g (l + 1) (l + 1, e) p' := by
  refine ⟨fun _ => ?_, fun H => absurd (agree_shared hi) H⟩
  rw [resolvedLeaf, if_pos hneeds]
  split
  · rename_i hl
    exact h.shared (agree_shared hl)
  · rename_i hl
    exact h.apart fun H => hl (eptIndex_eq_iff.2 ((agree_succ le_rfl).1 H).1)

theorem resolveMisconfig_leafwise_zero (R : LeafRule env T P) (w : TableAll T P 0 t) (st : PtPool)
    (rc : Int) (g : Nat) :
    ResolvesTo env gfn g 0 (tableLeaf g 0 t)
      (tableLeaf g 0 (resolveMisconfig env gfn 0 t st rc).2.1) := by
  have hx := w (eptIndex g 0)
  cases hn : t (eptIndex g 0) with
  | table e sub => rw [hn] at hx; exact hx.elim
  | leaf e =>
    rw [hn] at hx
    rw [tableLeaf_of_leaf hn]
    unfold resolveMisconfig
    split
    · rw [tableLeaf_of_leaf hn]
      exact .whole rfl (.refl _)
    have hnew : (t (eptIndex g 0)).mapEntry (resolve4k env (gfn - gfn % 512 + eptIndex g 0)) =
        .leaf (resolve4k env (gfn - gfn % 512 + eptIndex g 0) e) := by rw [hn]; rfl
    rw [tableLeaf_of_leaf hnew]
    refine .whole rfl ⟨rfl, ?_⟩
    rcases resolve4k_eq env (R.recalc hx) (gfn - gfn % 512 + eptIndex g 0) with
      heq | ⟨hp, emt, ipat, heq⟩
    · simp only [heq]
      exact .refl e
    · simp only [heq]
      exact .setEmt (.inl hp) emt ipat

theorem resolveMisconfig_leafwise (R : LeafRule env T P) (hl : level ≤ 3) (w : TableAll T P level t)
    {st : PtPool} {rc : Int} (hok : 0 ≤ (resolveMisconfig env gfn level t st rc).1) (g : Nat) :
    ResolvesTo env gfn g level (tableLeaf g level t)
      (tableLeaf g level (resolveMisconfig env gfn level t st rc).2.1) := by
  induction level generalizing t st rc with
  | zero => exact resolveMisconfig_leafwise_zero R w st rc g
  | succ l ih =>
    have hx := w (eptIndex gfn (l + 1))
    have hle := w.leaf_le g
    cases hn : t (eptIndex gfn (l + 1)) with
    | table e sub =>
      rw [hn] at hx
      obtain ⟨hp, hs, hm⟩ := R.walked hx.1
      rw [resolveMisconfig_table hn hp hs hm] at hok ⊢
      rw [tableLeaf_update]
      split
      · rename_i hi
        rw [tableLeaf_of_table (hi ▸ hn)]
        exact (ih (by omega) hx.2 hok).up (TableAll.leaf_le hx.2 g) hi
      · rename_i hi
        exact .other hle hi
    | leaf e =>
      rw [hn] at hx
      generalize hr : resolveMisconfig env gfn (l + 1) t st rc = r at hok
      have step : ResolvesLeaf env gfn l t st rc e r := hr ▸ resolveMisconfig_leaf hn (R.recalc hx)
      by_cases hi : eptIndex g (l + 1) = eptIndex gfn (l + 1)
      · rw [tableLeaf_of_leaf (hi ▸ hn)]
        cases step with
        | failed _ _ => exact absurd (show (0 : Int) ≤ -ENOMEM from hok) (by decide)
        | kept hneeds =>
          rw [tableLeaf_of_leaf (hi ▸ hn)]
          exact .whole (by simp only [resolvedLeaf, hneeds, Bool.false_eq_true, if_false]) (.refl _)
        | typed emt ipat hneeds hs =>
          rw [tableLeaf_update, if_pos hi]
          exact .whole (by simp only [resolvedLeaf, hneeds, Bool.false_eq_true, if_false])
            ⟨rfl, .setEmt (.inr hs) emt ipat⟩
        | split hneeds hsplit =>
          have hsp : e.Splits := .inl (by simp [needsSplit] at hneeds; exact hneeds.1.1)
          have wy := R.split_all (by omega) (by omega) hx (fun _ => hsp) hsplit
          have hpart := split_leafAt g (Nat.le_succ l) hsplit
          rw [partAt_succ le_rfl, partAt_self] at hpart
          have hsub := ih (by omega) wy.2 hok
          rw [show tableLeaf g l _ = _ from hpart] at hsub
          rw [tableLeaf_update, if_pos hi]
          exact .split hneeds hi hsub
      · have hsame : tableLeaf g (l + 1) r.2.1 = tableLeaf g (l + 1) t := by
          cases step with
          | failed _ _ => rfl
          | kept _ => rfl
          | typed | split => rw [tableLeaf_update, if_neg hi]
        rw [hsame]
        exact .other hle hi

end Resolve

/-! ## Writing the new entry -/

/-- What the walk of `ept_set_entry(gfn, …)` makes of the leaf of a `g` outside the range written.
-/
inductive Remains (env : EptEnv) (target gfn g level : Nat) : Nat × EptEntry → Nat × EptEntry → Prop
  | apart {p : Nat × EptEntry} : ¬ Agree 512 g gfn p.1 (level + 1) →
      Remains env target gfn g level p p
  | split {L : Nat} {e : EptEntry} : Agree 512 g gfn L (level + 1) → target < L → e.Splits →
      (e.isPresent = true ∨ e.saP2mt = .populateOnDemand) →
      Remains env target gfn g level (L, e) (target, partAt env g target L e)
  | cleared {L L' : Nat} {e : EptEntry} : Agree 512 g gfn L (level + 1) → target < L →
      e.isPresent = false → e.saP2mt ≠ .populateOnDemand →
      Remains env target gfn g level (L, e) (L', { EptEntry.zero with suppressVe := true })

section Set

variable {env : EptEnv} {T : EptEntry → Prop} {P : Nat → EptEntry → Prop} {q : SetArgs}
  {target g level l : Nat} {e : EptEntry} {t : EptTable} {p p' : Nat × EptEntry}

theorem Remains.up (h : Remains env target q.gfn g l p p') (hle : p.1 ≤ l)
    (hi : eptIndex g (l + 1) = eptIndex q.gfn (l + 1)) :
    Remains env target q.gfn g (l + 1) p p' := by
  cases h with
  | apart H => exact .apart fun H' => H ((agree_up hi hle).1 H')
  | split H ht hs hv => exact .split ((agree_up hi hle).2 H) ht hs hv
  | cleared H ht hp hpod => exact .cleared ((agree_up hi hle).2 H) ht hp hpod

theorem Remains.other (hle : p.1 ≤ level) (hi : eptIndex g level ≠ eptIndex q.gfn level) :
    Remains env target q.gfn g level p p :=
  .apart fun H => hi (eptIndex_eq_iff.2 ((agree_succ hle).1 H).1)

theorem Remains.eq_of_target (h : Remains env target q.gfn g level (target, e) p') :
    p' = (target, e) := by
  cases h with
  | apart _ => rfl
  | split _ ht | cleared _ ht => exact absurd ht (lt_irrefl target)

theorem Remains.empty
    (h : Remains env target q.gfn g level (l, { EptEntry.zero with suppressVe := true }) p') :
    ∃ L', p' = (L', { EptEntry.zero with suppressVe := true }) := by
  cases h with
  | apart _ => exact ⟨l, rfl⟩
  | split _ _ hs _ => exact absurd rfl (nonzero_of_splits hs)
  | cleared _ _ _ _ => exact ⟨_, rfl⟩

structure Written (env : EptEnv) (q : SetArgs) (target g level : Nat) (t t' : EptTable) : Prop where
  inside : Agree 512 g q.gfn target (level + 1) →
    ∃ old, tableLeaf g level t' = (target, newEntry env q target old)
  outside : ¬ Agree 512 g q.gfn target (level + 1) →
    Remains env target q.gfn g level (tableLeaf g level t) (tableLeaf g level t')

theorem Written.other {x : EptNode} (w : TableAll T P level t) (ht : target ≤ level)
    (hi : eptIndex g level ≠ eptIndex q.gfn level) :
    Written env q target g level t (Function.update t (eptIndex q.gfn level) x) := by
  refine ⟨fun H => absurd (eptIndex_eq_iff.2 ((agree_succ ht).1 H).1) hi, fun _ => ?_⟩
  rw [tableLeaf_update, if_neg hi]
  exact .other (w.leaf_le g) hi

variable {e₁ : EptEntry} {sub sub' : EptTable} {st : PtPool} {split : Bool}

theorem Written.descend (h : Written env q target g l sub sub') (ht : target ≤ l)
    (hi : eptIndex g (l + 1) = eptIndex q.gfn (l + 1))
    (hstep : ∀ p', Remains env target q.gfn g l (tableLeaf g l sub) p' →
      Remains env target q.gfn g (l + 1) (tableLeaf g (l + 1) t) p') :
    Written env q target g (l + 1) t
      (Function.update t (eptIndex q.gfn (l + 1)) (.table e₁ sub')) := by
  refine ⟨fun H => ?_, fun H => ?_⟩ <;> rw [tableLeaf_update, if_pos hi]
  · exact h.inside ((agree_up hi ht).1 H)
  · exact hstep _ (h.outside fun H' => H ((agree_up hi ht).2 H'))

theorem writeTarget_leafwise (w : TableAll T P target t)
    (hok : (writeTarget env q target t st split).1 = 0) (g : Nat) :
    Written env q target g target t (writeTarget env q target t st split).2.1 := by
  unfold writeTarget at hok ⊢
  simp only at hok ⊢
  generalize (if split then EptEntry.zero else (t (eptIndex q.gfn target)).entry) = old at hok ⊢
  split at hok
  · rename_i hrc
    exact absurd hok hrc
  rename_i hrc
  rw [if_neg hrc]
  by_cases hi : eptIndex g target = eptIndex q.gfn target
  · refine ⟨fun _ => ⟨old, ?_⟩, fun H => absurd (agree_shared hi) H⟩
    rw [tableLeaf_update, if_pos hi]
    rfl
  · exact .other w le_rfl hi

theorem setWalk_leafwise (R : LeafRule env T P) (ht : target ≤ level) (hl : level ≤ 3)
    (w : TableAll T P level t) (hok : (setWalk env q target level t st split).1 = 0) (g : Nat) :
    Written env q target g level t (setWalk env q target level t st split).2.1 := by
  induction level generalizing t st split with
  | zero =>
    obtain rfl : target = 0 := Nat.le_zero.1 ht
    exact writeTarget_leafwise w hok g
  | succ l ih =>
    by_cases htop : l + 1 ≤ target
    · obtain rfl : target = l + 1 := le_antisymm ht htop
      rw [setWalk, if_pos le_rfl] at hok ⊢
      exact writeTarget_leafwise w hok g
    have htl : target ≤ l := by omega
    have hx := w (eptIndex q.gfn (l + 1))
    cases hn : t (eptIndex q.gfn (l + 1)) with
    | table e sub =>
      rw [hn] at hx
      obtain ⟨hp, hs, -⟩ := R.walked hx.1
      rw [setWalk_table htl hn hp hs] at hok ⊢
      by_cases hi : eptIndex g (l + 1) = eptIndex q.gfn (l + 1)
      · refine (ih htl (by omega) hx.2 hok).descend htl hi fun p' h => ?_
        rw [tableLeaf_of_table (hi ▸ hn)]
        exact h.up (TableAll.leaf_le hx.2 g) hi
      · exact .other w ht hi
    | leaf e =>
      rw [hn] at hx
      generalize hr : setWalk env q target (l + 1) t st split = r at hok
      have step : SetsBelow env q target l t st split e r := hr ▸ setWalk_leaf htl hn
      cases step with
      | failed _ hne _ => exact absurd hok hne
      | split hsp hv hsplit =>
        by_cases hi : eptIndex g (l + 1) = eptIndex q.gfn (l + 1)
        · have wy := R.split_all (by omega) (by omega) hx (fun _ => hsp) hsplit
          have hpart := split_leafAt g (by omega) hsplit
          refine (ih htl (by omega) wy.2 hok).descend htl hi fun p' h => ?_
          rw [show tableLeaf g l _ = _ from hpart] at h
          rw [tableLeaf_of_leaf (hi ▸ hn), h.eq_of_target]
          exact .split (agree_shared hi) (by omega) hsp hv
        · exact .other w ht hi
      | fresh hp hpod =>
        by_cases hi : eptIndex g (l + 1) = eptIndex q.gfn (l + 1)
        · refine (ih htl (by omega) (R.freshTable l) hok).descend htl hi fun p' h => ?_
          obtain ⟨L', rfl⟩ := Remains.empty h
          rw [tableLeaf_of_leaf (hi ▸ hn)]
          exact .cleared (agree_shared hi) (by omega) hp hpod
        · exact .other w ht hi

end Set

end XenVmi.Ept
