import XenVmi.Altp2m.Invariant
import XenVmi.Altp2m.Moves
import XenVmi.Ept.Removal

/-!
# The tables of a domain stay well formed

`TablesWf`: the host p2m and every view have a well-formed EPT, and no `max_mapped_pfn` exceeds the
guest physical address width. Every change of a table goes through `ept_set_entry`.
-/

namespace XenVmi.Altp2m

open XenVmi.Ept XenVmi.Lib

structure P2m.Wf (cfg : Config) (p : P2m) : Prop where
  table : TableWf cfg.caps 3 p.root
  max : p.maxMappedPfn < 2 ^ 36

structure TablesWf (cfg : Config) (d : Domain) : Prop where
  host : d.hostp2m.Wf cfg
  view : ∀ i < maxAltp2m, (d.altp2mP2m i).Wf cfg

section

variable {cfg : Config} {d : Domain} {p : P2m} {i : Nat}

/-! ## Every operation keeps them -/

theorem P2m.Wf.sameTable {p' : P2m} (w : p.Wf cfg) (h : p.SameTable p') : p'.Wf cfg :=
  ⟨h.root ▸ w.table, h.max ▸ w.max⟩

theorem P2m.Wf.setEntry (w : p.Wf cfg) (fl : List Nat) {q : SetArgs} (hq : q.order ≤ 36) :
    (P2m.setEntry cfg fl p q).2.2.Wf cfg where
  table := by
    show TableWf (p.env cfg).caps 3 (eptSetEntry (p.env cfg) p.ept.asr _ q).2.root
    exact eptSetEntry_wf _ w.table
  max := by
    show (eptSetEntry (p.env cfg) p.ept.asr _ q).2.maxMappedPfn < 2 ^ 36
    exact eptSetEntry_maxMappedPfn _ hq w.max

theorem P2m.Wf.flushTable (w : p.Wf cfg) (fl : List Nat) :
    (eptP2mInit cfg (p2mFlushTable fl p).2).Wf cfg := by
  unfold p2mFlushTable
  split
  · exact w.sameTable ⟨rfl, rfl, rfl⟩
  · exact ⟨fun _ => leafWf_empty false, w.max⟩

theorem TablesWf.updateView (T : TablesWf cfg d) (fl : List Nat) (h : i < maxAltp2m → p.Wf cfg) :
    TablesWf cfg { d with freelist := fl, altp2mP2m := Function.update d.altp2mP2m i p } where
  host := T.host
  view j hj := by
    by_cases hij : j = i
    · subst hij
      simp only [Function.update_self]
      exact h hj
    · simp only [Function.update_of_ne hij]
      exact T.view j hj

theorem TablesWf.modP2m (T : TablesWf cfg d) {f : P2m → P2m} (hf : ∀ p : P2m, p.SameTable (f p)) :
    TablesWf cfg (d.modP2m i f) :=
  T.updateView d.freelist fun hi => (T.view i hi).sameTable (hf _)

theorem TablesWf.flushView (T : TablesWf cfg d) (i : Nat) : TablesWf cfg (flushView cfg d i) :=
  T.updateView _ fun hi => (T.view i hi).flushTable _

theorem moves_tablesWf (cfg : Config) : Moves cfg (TablesWf cfg) where
  vcpu _ _ _ T := ⟨T.host, T.view⟩
  view _ _ _ hf T := T.modP2m hf
  host _ T := ⟨T.host.sameTable ⟨rfl, rfl, rfl⟩, T.view⟩
  flag _ _ T := ⟨T.host, T.view⟩
  slot _ _ _ T := ⟨T.host, T.view⟩
  flush _ i T := T.flushView i

theorem writes_tablesWf (cfg : Config) : Writes cfg fun m => TablesWf cfg m.dom where
  view m i q hq T := T.updateView _ fun hi => (T.view i hi).setEntry _ (hq.trans (by decide))
  host m q hq T := ⟨T.host.setEntry _ (hq.trans (by decide)), T.view⟩
  reset m i _ T := (T.flushView i).modP2m
    (f := fun p => { p with minRemappedGfn := invalidGfn, maxRemappedGfn := 0 })
    fun _ => ⟨rfl, rfl, rfl⟩
  access m i a T := T.modP2m (f := fun p => { p with defaultAccess := a }) fun _ => ⟨rfl, rfl, rfl⟩
  remapped m i gfn T := T.modP2m fun _ => ⟨rfl, rfl, rfl⟩
  m2p m t T := T

theorem tables_invariant (cfg : Config) :
    StepInvariant cfg Op.Admissible fun d => Switching cfg d ∧ TablesWf cfg d :=
  (switching_invariant cfg).and (moves_tablesWf cfg) (writes_tablesWf cfg)

theorem p2mInitialise_wf (cfg : Config) (cls : P2mClass) : (p2mInitialise cfg cls).Wf cfg :=
  ⟨fun _ => leafWf_empty false, Nat.two_pow_pos 36⟩

theorem p2mAllocTable_wf (w : p.Wf cfg) (fl : List Nat) : (p2mAllocTable cfg fl p).2.2.Wf cfg := by
  unfold p2mAllocTable
  split
  · exact w
  · split
    · exact w
    · rename_i pg st _
      have w' : P2m.Wf cfg { p with physTable := pg, pages := st.pages } := ⟨w.table, w.max⟩
      exact w'.setEntry _ (Nat.zero_le 36)

theorem fresh_tables (h : Fresh cfg d) : Switching cfg d ∧ TablesWf cfg d := by
  obtain ⟨-, -, hviews, fl, fl', hhost⟩ := h.start
  refine ⟨fresh_switching h, ?_, ?_⟩
  · have := p2mAllocTable_wf (p2mInitialise_wf cfg .host) fl
    rw [hhost] at this
    exact this
  · exact hviews (P2m.Wf cfg) (p2mInitialise_wf cfg _) fun fl p w => p2mAllocTable_wf w fl

/-! ## Removing a page from one of them -/

theorem P2m.getEntry_above {gfn : Nat} (h : p.maxMappedPfn < gfn) :
    (p.getEntry cfg gfn).mfn = invalidMfn := by
  unfold P2m.getEntry eptGetEntry
  rw [if_pos h]
  rfl

theorem mfnValid_invalidMfn (cfg : Config) : cfg.mfnValid invalidMfn = false := by
  have h : ¬ invalidMfn < cfg.maxPage := not_lt.2 (cfg.maxPage_le.trans (by decide))
  unfold Config.mfnValid
  rw [decide_eq_false h, Bool.false_and]

/-- `gfn` has no frame, and every other gfn the frame it had, if that is a frame of 40 bits. -/
structure Cleared (cfg : Config) (gfn : Nat) (p p' : P2m) : Prop where
  gone : 2 ^ 40 - 1 ≤ (p'.getEntry cfg gfn).mfn
  others : ∀ g, g ≠ gfn → (p'.getEntry cfg g).mfn = (p.getEntry cfg g).mfn

def P2m.removalPages (cfg : Config) (p : P2m) (gfn : Nat) : Nat :=
  splitPages ((p.getEntry cfg gfn).order / 9)

/-- The p2m does not map `gfn` by a mapping of direct MMIO of 1G or more. -/
def P2m.NoLargeMmio (cfg : Config) (p : P2m) (gfn : Nat) : Prop :=
  (p.getEntry cfg gfn).order ≤ 9 ∨ (p.getEntry cfg gfn).t ≠ .mmioDirect

theorem P2m.setEntry_removal (w : p.Wf cfg) (fl : List Nat) {q : SetArgs} (hq : q.mfn = invalidMfn)
    (ho : q.order = 0) (hmap : (p.getEntry cfg q.gfn).mfn ≠ invalidMfn)
    (hpages : p.removalPages cfg q.gfn ≤ fl.length) (hm : p.NoLargeMmio cfg q.gfn) :
    (P2m.setEntry cfg fl p q).1 = 0 ∧ Cleared cfg q.gfn p (P2m.setEntry cfg fl p q).2.2 ∧
      fl.length ≤ (P2m.setEntry cfg fl p q).2.1.length + p.removalPages cfg q.gfn := by
  obtain ⟨hmax, L, e, hleaf, hmapped, horder, hmmio⟩ := leaf_of_getEntry w.table hmap
  have hL : (p.getEntry cfg q.gfn).order / 9 = L := by
    show (eptGetEntry _ _ _ _).order / 9 = L
    omega
  have hm' : L ≤ 1 ∨ e.saP2mt ≠ .mmioDirect := by
    refine hm.imp (fun h => ?_) fun h h' => h (hmmio h')
    omega
  unfold P2m.removalPages at hpages ⊢
  rw [hL] at hpages ⊢
  have hgfn : q.gfn < 2 ^ 36 := lt_of_le_of_lt hmax w.max
  obtain ⟨hrc, hmax', hgone, hothers, hlen⟩ := eptSetEntry_removal (p.env cfg)
    (s := { root := p.root, maxMappedPfn := p.maxMappedPfn,
            pool := { freelist := fl, pages := p.pages } }) p.ept.asr hq ho
    (by rw [hq]; exact mfnValid_invalidMfn cfg) hgfn hmax w.table hleaf hmapped hpages hm'
  have hnew := eptGetEntry_mfn (w.setEntry fl (q := q) (by omega)).table
    ((P2m.setEntry cfg fl p q).2.2.env cfg)
  refine ⟨hrc, ⟨?_, fun g hg => ?_⟩, hlen⟩
  · refine le_of_le_of_eq ?_ (hnew _ _).symm
    split
    · decide
    · exact hgone
  · refine (hnew _ g).trans (.trans ?_ (eptGetEntry_mfn w.table _ _ g).symm)
    show (if (eptSetEntry _ _ _ _).2.maxMappedPfn < g then _ else _) = _
    rw [hmax']
    split
    · rfl
    · rename_i hle
      exact hothers g (lt_of_le_of_lt (not_lt.1 hle) w.max) hg

end

end XenVmi.Altp2m
