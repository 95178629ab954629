import XenVmi.Ept.Store

/-!
# Removing one page

`ept_set_entry(gfn, INVALID_MFN, order 0)` on a well-formed table that maps `gfn`. Splitting a
superpage of level `L` takes `splitPages L` pages. One mapping is left aside: when a misconfigured
superpage of 1G or more is split level by level, a direct-MMIO part can lose all its permission
bits.
-/

namespace XenVmi.Ept

open Function XenVmi.Lib

/-- The page-table pages it takes to split a mapping of level `l` down to 4K. -/
def splitPages : Nat → Nat
  | 0 => 0
  | l + 1 => 1 + 512 * splitPages l

section Pages

variable {target level : Nat}

theorem p2mAllocPtp_of_pos (st : PtPool) (h : 0 < st.freelist.length) :
    ∃ pg st', p2mAllocPtp st = some (pg, st') ∧
      st'.freelist.length + 1 = st.freelist.length := by
  unfold p2mAllocPtp
  cases hf : st.freelist with
  | nil => rw [hf] at h; exact absurd h (lt_irrefl 0)
  | cons pg rest => exact ⟨pg, _, rfl, rfl⟩

theorem split_pages (env : EptEnv) (x : EptNode) (st : PtPool) (ht : target ≤ level)
    (hp : splitPages (level - target) ≤ st.freelist.length) :
    (eptSplitSuperPage env target level x st).1 = true ∧
      (eptSplitSuperPage env target level x st).2.2.freelist.length + splitPages (level - target)
        = st.freelist.length := by
  induction level generalizing x st with
  | zero =>
    obtain rfl : target = 0 := Nat.le_zero.1 ht
    exact ⟨rfl, rfl⟩
  | succ l ih =>
    by_cases hne : l + 1 = target
    · subst hne
      rw [split_self, Nat.sub_self]
      exact ⟨rfl, rfl⟩
    rw [Nat.succ_sub (by omega), splitPages] at hp ⊢
    obtain ⟨pg, st', ha, hlen⟩ := p2mAllocPtp_of_pos st (by omega)
    rw [split_eq hne, ha]
    -- each of the 512 entries takes the same number of pages
    have hfill := fill_true (fun st : PtPool => st.freelist.length)
      (g := fun st i => eptSplitSuperPage env target l (.leaf (splitEntry env l x.entry i)) st)
      (fun s i hs => ih _ s (by omega) hs) tableIndices (true, freshTable, st') rfl
      (by rw [length_tableIndices]; simp only; omega)
    rw [length_tableIndices] at hfill
    refine ⟨hfill.1, ?_⟩
    have := hfill.2
    simp only at this ⊢
    omega

end Pages

/-! ## The frame of a leaf -/

def leafFrame (gfn : Nat) (p : Nat × EptEntry) : Nat :=
  if Mapped p then (p.2.mapping p.1 gfn).mfn else invalidMfn

section Frame

variable {caps : EptCaps} {env : EptEnv} {gfn g level l L : Nat} {e : EptEntry} {t : EptTable}
  {p p' : Nat × EptEntry}

theorem eptGetEntry_mfn (w : TableWf caps 3 t) (env : EptEnv) (maxMappedPfn g : Nat) :
    (eptGetEntry env maxMappedPfn t g).mfn =
      if maxMappedPfn < g then invalidMfn else leafFrame g (tableLeaf g 3 t) := by
  unfold eptGetEntry
  split
  · rfl
  obtain ⟨rc, heq, -⟩ := eptWalk_eq g id w false
  rw [heq, walkEnd, leafFrame]
  split
  · exact ofWalk_found_mfn env rc
  · split <;> rfl

theorem AlikeLeaf.mapped_iff (h : AlikeLeaf p p') : Mapped p' ↔ Mapped p := by
  unfold Mapped EptEntry.isSuperpage
  rw [h.1, h.2.isPresent, h.2.sp]

theorem AlikeLeaf.leafFrame (h : AlikeLeaf p p') (g : Nat) : leafFrame g p' = leafFrame g p := by
  refine if_congr h.mapped_iff ?_ rfl
  rw [h.1, h.2.mapping]

theorem leafAt_of_agree {x : EptNode} (w : x.All EptEntry.Walked (LeafWf caps) level)
    (H : Agree 512 g gfn (x.leafAt g level).1 level) : x.leafAt gfn level = x.leafAt g level := by
  induction x generalizing level with
  | leaf e => rfl
  | table e sub ih =>
    cases level with
    | zero => exact w.elim
    | succ l =>
      obtain ⟨hi, H⟩ := (agree_succ ((w.2 _).leafAt g).2).1 H
      simp only [EptNode.leafAt, ← eptIndex_eq_iff.2 hi]
      exact ih _ (w.2 _) H

theorem tableLeaf_of_agree (w : TableWf caps level t)
    (H : Agree 512 g gfn (tableLeaf g level t).1 (level + 1)) :
    tableLeaf gfn level t = tableLeaf g level t := by
  obtain ⟨hi, H⟩ := (agree_succ (w.leaf_le g)).1 H
  rw [tableLeaf, ← eptIndex_eq_iff.2 hi]
  exact leafAt_of_agree (w _) H

theorem tableLeaf_of_walk {recalc rc : Bool} (w : TableWf caps level t)
    (h : eptWalk gfn level t recalc = .found L e rc) :
    tableLeaf gfn level t = (L, e) ∧ Mapped (L, e) := by
  obtain ⟨rc', heq, -⟩ := eptWalk_eq gfn id w recalc
  rw [heq, walkEnd] at h
  split at h
  · rename_i hm
    cases h
    exact ⟨rfl, hm⟩
  · split at h <;> cases h

theorem leaf_of_getEntry {maxMappedPfn : Nat} (w : TableWf caps 3 t)
    (h : (eptGetEntry env maxMappedPfn t gfn).mfn ≠ invalidMfn) :
    gfn ≤ maxMappedPfn ∧ ∃ L e, tableLeaf gfn 3 t = (L, e) ∧ Mapped (L, e) ∧
      (eptGetEntry env maxMappedPfn t gfn).order = 9 * L ∧
      (e.saP2mt = .mmioDirect → (eptGetEntry env maxMappedPfn t gfn).t = .mmioDirect) := by
  unfold eptGetEntry at h ⊢
  split at h
  · exact absurd rfl h
  rename_i hle
  rw [if_neg hle]
  refine ⟨Nat.le_of_not_lt hle, ?_⟩
  cases hw : eptWalk gfn 3 t false with
  | mapFailed | pod => rw [hw] at h; exact absurd rfl h
  | found L e rc =>
    rw [hw] at h
    obtain ⟨hleaf, hmap⟩ := tableLeaf_of_walk w hw
    refine ⟨L, e, hleaf, hmap, ?_⟩
    unfold Lookup.ofWalk at h ⊢
    simp only at h ⊢
    split at h
    · exact absurd rfl h
    rename_i hpod
    rw [if_neg hpod]
    unfold Lookup.decode at h ⊢
    split at h
    · rename_i hv
      rw [if_pos hv]
      refine ⟨rfl, fun hmmio => ?_⟩
      simp [hmmio, P2mType.isChangeable]
    · exact absurd rfl h

end Frame

/-! ## Resolving misconfigured entries on the way -/

section Resolve

variable {env : EptEnv} {gfn g level l L : Nat} {e : EptEntry} {t : EptTable} {st : PtPool}
  {rc : Int} {p p' : Nat × EptEntry}

theorem splitEntry_isPresent (h0 : 0 < l) (w : LeafWf env.caps (l + 1) e)
    (hp : e.isPresent = true) (hs : e.sp = true) (hm : e.saP2mt ≠ .mmioDirect) (i : Fin 512) :
    (splitEntry env l e i).isPresent = true := by
  have hsp : e.sp = decide (0 < l) := by rw [hs]; exact (decide_eq_true h0).symm
  rw [isPresent_congr ((splitEntry_splitOf env l e i).permissions
    { e with mfn := (e.mfn + i * 512 ^ l) % 2 ^ 40 } hsp rfl)]
  exact (isPresent_flags_of_ne hm (by rfl)).trans (w.flags hp)

theorem mapped_resolvedLeaf (w : LeafWf env.caps level e) (hl : level ≤ 3) (hp : Mapped (level, e))
    (hm : level ≤ 1 ∨ e.saP2mt ≠ .mmioDirect) : Mapped (resolvedLeaf env gfn g level e) := by
  induction level generalizing e with
  | zero => exact .inl rfl
  | succ l ih =>
    obtain ⟨hp, hs⟩ := hp.resolve_left (Nat.succ_ne_zero l)
    rw [resolvedLeaf]
    split
    · have hparts := splitEntry_splitOf env l e (eptIndex g l)
      have hpart : Mapped (l, splitEntry env l e (eptIndex g l)) := by
        rcases Nat.eq_zero_or_pos l with h0 | h0
        · exact .inl h0
        · exact .inr ⟨splitEntry_isPresent h0 w hp hs (hm.resolve_left (by omega)) _,
            hparts.sp.trans (decide_eq_true h0)⟩
      split
      · refine ih (splitEntry_wf (by omega) w _) (by omega) hpart ?_
        rw [hparts.saP2mt]
        exact hm.imp_left (by omega)
      · exact hpart
    · exact .inr ⟨hp, hs⟩

theorem ResolvesTo.leafFrame (h : ResolvesTo env gfn g level p p') (w : LeafWf env.caps p.1 p.2)
    (hl : p.1 ≤ 3) (hseen : Agree 512 g gfn p.1 (level + 1) →
      Mapped p ∧ (p.1 ≤ 1 ∨ p.2.saP2mt ≠ .mmioDirect)) : leafFrame g p' = leafFrame g p := by
  by_cases H : Agree 512 g gfn p.1 (level + 1)
  · obtain ⟨hp, hm⟩ := hseen H
    rw [(h.shared H).leafFrame g, Ept.leafFrame, if_pos (mapped_resolvedLeaf w hl hp hm),
      Ept.leafFrame, if_pos hp, mapping_resolvedLeaf w hl]
  · exact (h.apart H).leafFrame g

theorem resolveMisconfig_pages (hl : l ≤ 3) (w : TableWf env.caps l t)
    (hpages : splitPages (tableLeaf gfn l t).1 ≤ st.freelist.length) (hrc : 0 ≤ rc) :
    0 ≤ (resolveMisconfig env gfn l t st rc).1 ∧
      st.freelist.length + splitPages (tableLeaf gfn l (resolveMisconfig env gfn l t st rc).2.1).1 ≤
        (resolveMisconfig env gfn l t st rc).2.2.freelist.length + splitPages
          (tableLeaf gfn l t).1 := by
  have R := leafWf_rule env
  induction l generalizing t st rc with
  | zero =>
    have h0 := Nat.le_zero.1 ((R.resolveMisconfig_all gfn hl w st rc).leaf_le gfn)
    rw [h0]
    unfold resolveMisconfig
    split
    · exact ⟨hrc, Nat.le_add_right _ _⟩
    · exact ⟨Int.one_nonneg, Nat.le_add_right _ _⟩
  | succ l ih =>
    have hx := w (eptIndex gfn (l + 1))
    cases hn : t (eptIndex gfn (l + 1)) with
    | table e sub =>
      rw [hn] at hx
      rw [tableLeaf_of_table hn] at hpages ⊢
      rw [resolveMisconfig_table hn hx.1.1 hx.1.2.1 hx.1.2.2, tableLeaf_update, if_pos rfl]
      exact ih (by omega) hx.2 hpages hrc
    | leaf e =>
      rw [hn] at hx
      rw [tableLeaf_of_leaf hn] at hpages ⊢
      simp only at hpages ⊢
      generalize hr : resolveMisconfig env gfn (l + 1) t st rc = r
      have step : ResolvesLeaf env gfn l t st rc e r := hr ▸ resolveMisconfig_leaf hn (R.recalc hx)
      have hone : splitPages (l + 1 - l) = 1 := by rw [Nat.add_sub_cancel_left]; rfl
      have hcost : splitPages (l + 1) = 1 + 512 * splitPages l := rfl
      obtain ⟨hsplits, hlen⟩ := split_pages env (.leaf e) st (show l ≤ l + 1 by omega) (by omega)
      cases step with
      | kept _ => rw [tableLeaf_of_leaf hn]; exact ⟨hrc, le_rfl⟩
      | typed _ _ _ _ => rw [tableLeaf_update, if_pos rfl]; exact ⟨Int.one_nonneg, le_rfl⟩
      | failed _ hfail => rw [hsplits] at hfail; cases hfail
      | @split pg sub st' hneeds hsplit =>
        have wy := R.split_all (by omega) hl hx (fun _ => splits_of_needsSplit hneeds) hsplit
        have hpart := split_leafAt gfn (Nat.le_succ l) hsplit
        have hleaf : tableLeaf gfn l sub = _ := hpart
        rw [hsplit] at hlen
        simp only at hlen
        have hroom : splitPages l ≤ st'.freelist.length := by omega
        obtain ⟨hok, hsub⟩ := @ih sub st' rc (by omega) wy.2 (by rwa [hleaf]) hrc
        rw [hleaf] at hsub
        rw [tableLeaf_update, if_pos rfl]
        refine ⟨hok, ?_⟩
        change _ + splitPages (tableLeaf gfn l _).1 ≤ _
        simp only at hsub ⊢
        omega

end Resolve

/-! ## Writing the empty entry -/

section Write

variable {env : EptEnv} {gfn g level l L target : Nat} {e : EptEntry} {t : EptTable} {st : PtPool}
  {q : SetArgs} {p p' : Nat × EptEntry}

theorem newEntry_gone (hq : q.mfn = invalidMfn) (old : EptEntry) :
    2 ^ 40 - 1 ≤ ((newEntry env q 0 old).mapping 0 gfn).mfn := by
  cases hf : q.fills env with
  | true =>
    unfold EptEntry.mapping
    rw [(newEntry_filled hf 0 old).mfn, hq, pow_zero, Nat.mod_one]
    split_ifs
    · decide
    · exact (by decide : 2 ^ 40 - 1 ≤ invalidMfn % 2 ^ 40 + 0)
    · decide
  | false =>
    obtain ⟨sve, hz⟩ := newEntry_empty hf 0 old
    rw [hz]
    exact (by decide : 2 ^ 40 - 1 ≤ invalidMfn)

theorem atomicWriteRc_removal (hval : env.mfnValid q.mfn = false) (level : Nat)
    (old old' : EptEntry) : atomicWriteRc env level old (newEntry env q level old') = 0 := by
  have ht : (newEntry env q level old').saP2mt.isForeign = false := by
    cases hf : q.fills env with
    | true =>
      rw [(newEntry_filled hf level old').saP2mt]
      cases ht : q.t <;> first
        | rfl
        | (simp [SetArgs.fills, hval, ht, P2mType.isPaged] at hf)
    | false =>
      obtain ⟨sve, hz⟩ := newEntry_empty hf level old'
      rw [hz]
      rfl
  unfold atomicWriteRc
  rw [ht]
  split <;> rfl

theorem setWalk_pages (hval : env.mfnValid q.mfn = false) (hl : l ≤ 3)
    (w : TableWf env.caps l t) (hmap : Mapped (tableLeaf q.gfn l t))
    (hpages : splitPages (tableLeaf q.gfn l t).1 ≤ st.freelist.length) (split : Bool) :
    (setWalk env q 0 l t st split).1 = 0 ∧ st.freelist.length ≤
      (setWalk env q 0 l t st split).2.2.freelist.length + splitPages (tableLeaf q.gfn l t).1 := by
  induction l generalizing t st split with
  | zero =>
    unfold setWalk writeTarget
    simp only [atomicWriteRc_removal hval, ne_eq, not_true_eq_false, if_false]
    -- at level 0 nothing is freed
    exact ⟨trivial, by cases split <;> exact Nat.le_add_right _ _⟩
  | succ l ih =>
    have hx := w (eptIndex q.gfn (l + 1))
    cases hn : t (eptIndex q.gfn (l + 1)) with
    | table e sub =>
      rw [hn] at hx
      rw [tableLeaf_of_table hn] at hmap hpages ⊢
      rw [setWalk_table (Nat.zero_le l) hn hx.1.1 hx.1.2.1]
      exact ih (by omega) hx.2 hmap hpages split
    | leaf e =>
      rw [hn] at hx
      rw [tableLeaf_of_leaf hn] at hmap hpages ⊢
      obtain ⟨hp, hs⟩ := hmap.resolve_left (Nat.succ_ne_zero l)
      generalize hr : setWalk env q 0 (l + 1) t st split = r
      have step : SetsBelow env q 0 l t st split e r := hr ▸ setWalk_leaf (Nat.zero_le l) hn
      obtain ⟨hsplits, hlen⟩ := split_pages env (.leaf e) st (Nat.zero_le (l + 1)) hpages
      cases step with
      | failed _ _ hfail => rw [hfail hp hs] at hsplits; cases hsplits
      | fresh hp' _ => exact Bool.noConfusion (hp.symm.trans hp')
      | @split pg sub st' hsp _ hsplit =>
        have wy := (leafWf_rule env).split_all (Nat.zero_le _) hl hx (fun _ => hsp) hsplit
        have hpart := split_leafAt q.gfn (Nat.zero_le _) hsplit
        have hleaf : tableLeaf q.gfn l sub = _ := hpart
        rw [hsplit] at hlen
        obtain ⟨hok, hsub⟩ := @ih sub st' (by omega) wy.2 (by rw [hleaf]; exact .inl rfl)
          (by rw [hleaf]; exact Nat.zero_le _) true
        rw [hleaf] at hsub
        refine ⟨hok, hlen.ge.trans ?_⟩
        exact Nat.add_le_add_right hsub _

theorem Remains.leafFrame (h : Remains env 0 gfn g level p p') (w : LeafWf env.caps p.1 p.2)
    (hl : p.1 ≤ 3) : leafFrame g p' = leafFrame g p := by
  cases h with
  | apart _ => rfl
  | @split L e _ ht hs hv =>
    have hmap : (partAt env g 0 L e).mapping 0 g = e.mapping L g :=
      mapping_partAt (Nat.zero_le L) (hl.trans (by decide)) w (nonzero_of_splits hs)
    rw [Ept.leafFrame, if_pos (.inl rfl), hmap, Ept.leafFrame]
    split
    · rfl
    rename_i hn
    -- a place-holder has no frame either way
    have hpod : e.saP2mt = .populateOnDemand := by
      by_contra hpod
      exact hn (.inr ⟨hv.resolve_right hpod, hs.resolve_right hpod⟩)
    rw [EptEntry.mapping, if_pos hpod]
    rfl
  | @cleared L L' e _ ht hp _ =>
    have hn : ¬ Mapped (L, e) := fun h => h.elim (by simp only; omega) fun h =>
      Bool.noConfusion (hp.symm.trans h.1)
    rw [Ept.leafFrame, Ept.leafFrame, if_neg hn]
    split <;> rfl

/-- **The removal of a mapped page** succeeds, takes the frame of `gfn` only, and at most the pages
for one split. -/
theorem eptSetEntry_removal (env : EptEnv) {s : EptState} (asr : Nat) (hq : q.mfn = invalidMfn)
    (ho : q.order = 0) (hval : env.mfnValid q.mfn = false) (hgfn : q.gfn < 2 ^ 36)
    (hmax : q.gfn ≤ s.maxMappedPfn)
    (w : TableWf env.caps 3 s.root) (hleaf : tableLeaf q.gfn 3 s.root = (L, e))
      (hmap : Mapped (L, e))
    (hpages : splitPages L ≤ s.pool.freelist.length) (hm : L ≤ 1 ∨ e.saP2mt ≠ .mmioDirect) :
    (eptSetEntry env asr s q).1 = 0 ∧
      (eptSetEntry env asr s q).2.maxMappedPfn = s.maxMappedPfn ∧
      2 ^ 40 - 1 ≤ leafFrame q.gfn (tableLeaf q.gfn 3 (eptSetEntry env asr s q).2.root) ∧
      (∀ g < 2 ^ 36, g ≠ q.gfn →
        leafFrame g (tableLeaf g 3 (eptSetEntry env asr s q).2.root) =
          leafFrame g (tableLeaf g 3 s.root)) ∧
      s.pool.freelist.length ≤
        (eptSetEntry env asr s q).2.pool.freelist.length + splitPages L := by
  have R := leafWf_rule env
  unfold eptSetEntry
  rw [if_neg (by rw [ho, pow_zero]; simp; omega)]
  -- the first walk, if there is one
  obtain ⟨m, hmid, wm, hrc, hmapped, hroom, hframes⟩ : ∃ m, (if asr = 0 then (0, s.root, s.pool)
      else resolveMisconfig env q.gfn 3 s.root s.pool 0) = m ∧
      TableWf env.caps 3 m.2.1 ∧ 0 ≤ m.1 ∧ Mapped (tableLeaf q.gfn 3 m.2.1) ∧
      s.pool.freelist.length + splitPages (tableLeaf q.gfn 3 m.2.1).1 ≤
        m.2.2.freelist.length + splitPages L ∧
      ∀ g, leafFrame g (tableLeaf g 3 m.2.1) = leafFrame g (tableLeaf g 3 s.root) := by
    refine ⟨_, rfl, ?_⟩
    split
    · rw [hleaf]
      exact ⟨w, le_rfl, hmap, le_rfl, fun _ => rfl⟩
    obtain ⟨hok, hlen⟩ := @resolveMisconfig_pages env q.gfn 3 s.root s.pool 0 le_rfl w
      (by rwa [hleaf]) le_rfl
    have hto := resolveMisconfig_leafwise R le_rfl w hok
    have hown := (hto q.gfn).shared fun _ _ _ => rfl
    have wl := w.leaf q.gfn
    have hle := w.leaf_le q.gfn
    rw [hleaf] at hlen hown wl hle
    refine ⟨R.resolveMisconfig_all q.gfn le_rfl w _ _, hok,
      hown.mapped_iff.2 (mapped_resolvedLeaf wl hle hmap hm), hlen,
      fun g => (hto g).leafFrame (w.leaf g) (w.leaf_le g) fun H => ?_⟩
    rw [← tableLeaf_of_agree w H, hleaf]
    exact ⟨hmap, hm⟩
  simp only [hmid, if_neg (not_lt.2 hrc), ho, Nat.zero_div]
  obtain ⟨hok, hlen⟩ := setWalk_pages hval le_rfl wm hmapped
    (show _ ≤ m.2.2.freelist.length by omega) false
  have hwritten := setWalk_leafwise R (Nat.zero_le 3) le_rfl wm hok
  refine ⟨hok, if_neg fun h => ?_, ?_, fun g hg hne => ?_, by omega⟩
  · omega
  · obtain ⟨old, hnew⟩ := (hwritten q.gfn).inside fun _ _ _ => rfl
    rw [hnew, leafFrame]
    exact newEntry_gone hq old
  · rw [← hframes]
    refine ((hwritten g).outside fun H => hne ?_).leafFrame (wm.leaf g) (wm.leaf_le g)
    have := (agree_iff_div_eq (Nat.zero_le 4) (show g < 512 ^ 4 from hg)
      (show q.gfn < 512 ^ 4 from hgfn)).1 H
    rwa [pow_zero, Nat.div_one, Nat.div_one] at this

end Write

end XenVmi.Ept
