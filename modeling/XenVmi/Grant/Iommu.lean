import Mathlib.Algebra.BigOperators.Ring.Finset
import XenVmi.Grant.References

/-!
# Pins and IOMMU rights over whole runs

A frame is entered writable if one of its grant mappings is, and at all if there is one
(`RightsAt`). Unmap operations decide from `mapkind`, which looks at the mappings from one granting
domain only. If a frame is mapped from two domains, they take rights away that are needed;
`Exclusive` keeps such frames out.
-/

namespace XenVmi.Grant

open Function XenVmi.Lib

variable {c : Config} {env : PageEnv} {ld : Nat}

/-! ## Pins -/

theorem digit_eq_zero_iff {n a : Nat} :
    n / 2 ^ a % 2 ^ 8 = 0 ↔ ∀ j < 8, n.testBit (a + j) = false := by
  constructor
  · intro h j hj
    have hbit : (n / 2 ^ a % 2 ^ 8).testBit j = false := by
      rw [h]
      exact Nat.zero_testBit j
    rwa [Nat.testBit_mod_two_pow, decide_eq_true hj, Nat.testBit_div_two_pow,
      Nat.add_comm] at hbit
  · intro h
    refine Nat.eq_of_testBit_eq fun j => ?_
    rw [Nat.testBit_mod_two_pow, Nat.testBit_div_two_pow, Nat.zero_testBit]
    by_cases hj : j < 8
    · rw [Nat.add_comm, h j hj, Bool.and_false]
    · rw [decide_eq_false hj, Bool.false_and]

theorem writeMask_getLsbD (i : Nat) (h : gntpinWriteMask.getLsbD i = true) :
    i < 8 ∨ (16 ≤ i ∧ i < 24) := by
  have hlt : i < 32 := BitVec.lt_of_getLsbD h
  have hall : ∀ i : Fin 32, gntpinWriteMask.getLsbD i = true → i.1 < 8 ∨ (16 ≤ i.1 ∧ i.1 < 24) := by
    decide
  exact hall ⟨i, hlt⟩ h

theorem writeMask_ne_zero_iff (pin : BitVec 32) :
    pin &&& gntpinWriteMask ≠ 0 ↔ pinCount pin .hstw ≠ 0 ∨ pinCount pin .devw ≠ 0 := by
  have hhst : pinCount pin .hstw = 0 ↔ ∀ j < 8, pin.getLsbD j = false := by
    have h := digit_eq_zero_iff (n := pin.toNat) (a := 0)
    simpa [pinCount, BitVec.getLsbD] using h
  have hdev : pinCount pin .devw = 0 ↔ ∀ j < 8, pin.getLsbD (16 + j) = false := digit_eq_zero_iff
  rw [← not_and_or, not_iff_not, hhst, hdev]
  constructor
  · intro h
    have hbit : ∀ i, gntpinWriteMask.getLsbD i = true → pin.getLsbD i = false := by
      intro i hi
      have hand : (pin &&& gntpinWriteMask).getLsbD i = false := by
        rw [h]
        exact BitVec.getLsbD_zero
      rwa [BitVec.getLsbD_and, hi, Bool.and_true] at hand
    have hmask : ∀ j : Fin 8, gntpinWriteMask.getLsbD j = true ∧
        gntpinWriteMask.getLsbD (16 + j) = true := by decide
    exact ⟨fun j hj => hbit j (hmask ⟨j, hj⟩).1, fun j hj => hbit _ (hmask ⟨j, hj⟩).2⟩
  · rintro ⟨hlow, hhigh⟩
    refine BitVec.eq_of_getLsbD_eq fun i hi => ?_
    rw [BitVec.getLsbD_and]
    refine Eq.trans ?_ BitVec.getLsbD_zero.symm
    cases hm : gntpinWriteMask.getLsbD i with
    | false => rw [Bool.and_false]
    | true =>
      rcases writeMask_getLsbD i hm with h | ⟨h₁, h₂⟩
      · rw [hlow i h, Bool.false_and]
      · have := hhigh (i - 16) (by omega)
        rw [Nat.add_sub_cancel' h₁] at this
        rw [this, Bool.false_and]

section Pins

variable {s : State} {d ref : Nat}

theorem total_ne_zero_iff {w : Mapped → Nat} :
    s.total w ≠ 0 ↔ ∃ e x, s.live e = some x ∧ w x ≠ 0 := by
  constructor
  · intro h
    obtain ⟨e, -, he⟩ := Finset.exists_ne_zero_of_sum_ne_zero h
    cases hx : s.live e with
    | none =>
      rw [hx] at he
      exact absurd rfl he
    | some x =>
      rw [hx] at he
      exact ⟨e, x, hx, he⟩
  · rintro ⟨e, x, hx, hw⟩ h0
    have := le_total (w := w) hx
    omega

theorem pinsAt_ne_zero_iff {k : PinKind} {x : Mapped} :
    State.pinsAt d ref x k ≠ 0 ↔ (x.domid = d ∧ x.ref = ref) ∧ x.bits.pins k ≠ 0 := by
  unfold State.pinsAt
  split
  · rename_i h
    exact (and_iff_right h).symm
  · rename_i h
    exact iff_of_false (fun h0 => h0 rfl) fun hand => h hand.1

def State.mapCount (s : State) (d ref : Nat) (k : PinKind) : Nat :=
  ((Finset.range s.maptrack.limit).filter fun e =>
    ∃ x ∈ s.live e, x.domid = d ∧ x.ref = ref ∧ x.bits.pins k = 1).card

theorem total_eq_mapCount (s : State) (d ref : Nat) (k : PinKind) :
    s.total (State.pinsAt d ref) k = s.mapCount d ref k := by
  rw [total_apply, State.mapCount, Finset.card_filter]
  refine Finset.sum_congr rfl fun e _ => ?_
  cases hx : s.live e with
  | none => simp [share]
  | some x =>
    have hle := pins_le_one x.bits k
    by_cases hg : x.domid = d ∧ x.ref = ref
    · have hpins : x.bits.pins k = 0 ∨ x.bits.pins k = 1 := by omega
      rcases hpins with h | h <;> simp [share, State.pinsAt, hg, h]
    · have hno : ¬ (x.domid = d ∧ x.ref = ref ∧ x.bits.pins k = 1) := fun h => hg ⟨h.1, h.2.1⟩
      simp [share, State.pinsAt, hg, hno]

namespace State.PinInv

variable (inv : s.PinInv ld)

include inv

theorem pinCount_eq : pinCount (s.pinFor ld d ref) = s.total (State.pinsAt d ref) :=
  Grant.pinCount_eq (inv.word d ref) fun k => Nat.lt_of_le_of_lt (inv.few d ref k) (by decide)

theorem ne_zero_iff : s.pinFor ld d ref ≠ 0 ↔
    ∃ e x, s.live e = some x ∧ x.domid = d ∧ x.ref = ref := by
  constructor
  · intro h
    have hword := inv.word d ref
    have hne : pinWord (s.total (State.pinsAt d ref)) ≠ 0 := by
      rw [← hword]
      exact fun h0 => h (BitVec.eq_of_toNat_eq h0)
    have hk : ∃ k, s.total (State.pinsAt d ref) k ≠ 0 := by
      by_contra hno
      push Not at hno
      simp only [pinWord, hno] at hne
      exact hne rfl
    obtain ⟨k, hk⟩ := hk
    rw [total_apply] at hk
    obtain ⟨e, x, hx, hw⟩ := total_ne_zero_iff.1 hk
    exact ⟨e, x, hx, (pinsAt_ne_zero_iff.1 hw).1⟩
  · rintro ⟨e, x, hx, rfl, rfl⟩
    exact inv.pinned hx

theorem write_iff : s.pinFor ld d ref &&& gntpinWriteMask ≠ 0 ↔
    ∃ e x, s.live e = some x ∧ (x.domid = d ∧ x.ref = ref) ∧ x.bits.readonly = false := by
  rw [writeMask_ne_zero_iff, inv.pinCount_eq, total_apply, total_apply, total_ne_zero_iff,
    total_ne_zero_iff]
  constructor
  · rintro (⟨e, x, hx, hw⟩ | ⟨e, x, hx, hw⟩) <;>
    · obtain ⟨hg, hpins⟩ := pinsAt_ne_zero_iff.1 hw
      refine ⟨e, x, hx, hg, ?_⟩
      by_contra hr
      simp [MapBits.pins, hr] at hpins
  · rintro ⟨e, x, hx, hg, hr⟩
    rcases Bool.or_eq_true_iff.1 (any_of_live hx) with hh | hd
    · exact .inl ⟨e, x, hx, pinsAt_ne_zero_iff.2 ⟨hg, by simp [MapBits.pins, hh, hr]⟩⟩
    · exact .inr ⟨e, x, hx, pinsAt_ne_zero_iff.2 ⟨hg, by simp [MapBits.pins, hd, hr]⟩⟩

end State.PinInv

end Pins

/-! ## Rights -/

def State.MapsFrame (s : State) (f : Nat) : Prop :=
  ∃ e x, s.live e = some x ∧ s.frame x.domid x.ref = f

def State.WritesFrame (s : State) (f : Nat) : Prop :=
  ∃ e x, s.live e = some x ∧ s.frame x.domid x.ref = f ∧ x.bits.readonly = false

structure RightsAt (s : PageState) (f : Nat) : Prop where
  write : s.rights f = .write ↔ s.state.WritesFrame f
  read : s.rights f ≠ .none ↔ s.state.MapsFrame f

def State.OnlyFrom (s : State) (rd f : Nat) : Prop :=
  ∀ e x, s.live e = some x → s.frame x.domid x.ref = f → x.domid = rd

theorem State.WritesFrame.maps {s : State} {f : Nat} (h : s.WritesFrame f) : s.MapsFrame f := by
  obtain ⟨e, x, hx, hf, -⟩ := h
  exact ⟨e, x, hx, hf⟩

theorem exists_live_congr {live : Nat → Option Mapped} {P Q : Mapped → Prop}
    (h : ∀ e x, live e = some x → (P x ↔ Q x)) :
    (∃ e x, live e = some x ∧ P x) ↔ ∃ e x, live e = some x ∧ Q x :=
  exists_congr fun e => exists_congr fun x => and_congr_right (h e x)

theorem RightsAt.congr {s s' : PageState} {f : Nat} (h : RightsAt s f)
    (hrights : s'.rights f = s.rights f) (hmaps : s'.state.MapsFrame f ↔ s.state.MapsFrame f)
    (hwrites : s'.state.WritesFrame f ↔ s.state.WritesFrame f) : RightsAt s' f := by
  constructor
  · rw [hrights, hwrites]
    exact h.write
  · rw [hrights, hmaps]
    exact h.read

section Update

variable {live live' : Nat → Option Mapped} {e : Nat} {Q : Mapped → Prop}

theorem exists_live_insert {n : Mapped} (hfree : live e = none)
    (h : live' = update live e (some n)) :
    (∃ a x, live' a = some x ∧ Q x) ↔ (∃ a x, live a = some x ∧ Q x) ∨ Q n := by
  subst h
  constructor
  · rintro ⟨a, x, hx, hq⟩
    rw [update_apply] at hx
    split at hx
    · cases hx
      exact .inr hq
    · exact .inl ⟨a, x, hx, hq⟩
  · rintro (⟨a, x, hx, hq⟩ | hq)
    · refine ⟨a, x, ?_, hq⟩
      rw [update_of_ne, hx]
      rintro rfl
      rw [hfree] at hx
      cases hx
    · exact ⟨e, n, update_self _ _ _, hq⟩

end Update

theorem KindOf.iff {live : Nat → Option Mapped} {frame : Nat → Nat → Nat} {rd f : Nat}
    {kind : MapKind} (h : KindOf live frame rd f kind)
    (only : ∀ e x, live e = some x → frame x.domid x.ref = f → x.domid = rd) :
    (kind.write = true ↔
      ∃ e x, live e = some x ∧ frame x.domid x.ref = f ∧ x.bits.readonly = false) ∧
    ((kind.read = true ∨ kind.write = true) ↔ ∃ e x, live e = some x ∧
      frame x.domid x.ref = f) := by
  have hfrom : ∀ e x, live e = some x → (x.domid = rd ∧ frame rd x.ref = f ↔
      frame x.domid x.ref = f) := by
    intro e x hx
    constructor
    · rintro ⟨rfl, hf⟩
      exact hf
    · intro hf
      obtain rfl := only e x hx hf
      exact ⟨rfl, hf⟩
  refine ⟨h.write.trans (exists_live_congr fun e x hx => ?_), h.any.trans (exists_live_congr hfrom)⟩
  rw [← and_assoc, hfrom e x hx]

/-! ## Runs -/

/-- Pins and rights are those of the mappings, and no frame is mapped from two domains if the IOMMU
is needed. -/
structure RightsInv (c : Config) (s : PageState) : Prop where
  pins : s.state.PinInv c.domid
  rights : c.needIommu = true → ∀ f, RightsAt s f
  alone : c.needIommu = true → ∀ e x, s.state.live e = some x →
    s.state.OnlyFrom x.domid (s.state.frame x.domid x.ref)

section Steps

variable {s s' : PageState}

theorem mapsFrame_congr {s s' : State} (hlive : s'.live = s.live)
    (hframe : ∀ e x, s.live e = some x → s'.frame x.domid x.ref = s.frame x.domid x.ref) (f : Nat) :
    (s'.MapsFrame f ↔ s.MapsFrame f) ∧ (s'.WritesFrame f ↔ s.WritesFrame f) := by
  unfold State.MapsFrame State.WritesFrame
  rw [hlive]
  exact ⟨exists_live_congr fun e x hx => by rw [hframe e x hx],
    exists_live_congr fun e x hx => by rw [hframe e x hx]⟩

theorem RightsInv.same (inv : RightsInv c s) (hlive : s'.state.live = s.state.live)
    (same : SameGrants c.domid s.state s'.state)
    (hrights : s'.rights = s.rights) : RightsInv c s' := by
  have hframe : ∀ e x, s.state.live e = some x →
      s'.state.frame x.domid x.ref = s.state.frame x.domid x.ref :=
    fun e x hx => inv.pins.frame_of_live same hx
  refine ⟨inv.pins.congr hlive same, fun hneed f => ?_, fun hneed e x hx e' x' hx' hf => ?_⟩
  · obtain ⟨hmaps, hwrites⟩ := mapsFrame_congr hlive hframe f
    exact (inv.rights hneed f).congr (congrFun hrights f) hmaps hwrites
  · rw [hlive] at hx hx'
    rw [hframe e x hx, hframe e' x' hx'] at hf
    exact inv.alone hneed e x hx e' x' hx' hf

section Map

variable {x : PageMap} {e : Nat} {t : GrantTable} {act : Active}

theorem MapDone.mapsFrame_iff (done : MapDone c env x s s' e t act) (pins : s.state.PinInv c.domid)
    (f : Nat) :
    (s'.state.MapsFrame f ↔ s.state.MapsFrame f ∨ act.frame = f) ∧
      (s'.state.WritesFrame f ↔
        s.state.WritesFrame f ∨ act.frame = f ∧ (mapBits x.op.flags).readonly = false) := by
  unfold State.MapsFrame State.WritesFrame
  rw [exists_live_insert done.free done.live, exists_live_insert done.free done.live,
    done.frame_new]
  exact ⟨or_congr (exists_live_congr fun a y hy => by rw [done.frame_live pins hy]) Iff.rfl,
    or_congr (exists_live_congr fun a y hy => by rw [done.frame_live pins hy]) Iff.rfl⟩

/-- The pins of the grant before and after a map operation, in terms of the mappings of its
frame. -/
structure PinsTell (s : PageState) (x : PageMap) (old act : Active) : Prop where
  maps : old.pin ≠ 0 → s.state.MapsFrame act.frame
  writes : old.pin &&& gntpinWriteMask ≠ 0 → s.state.WritesFrame act.frame
  pinned : act.pin ≠ 0
  write : act.pin &&& gntpinWriteMask ≠ 0 ↔
    old.pin &&& gntpinWriteMask ≠ 0 ∨ (mapBits x.op.flags).readonly = false

theorem MapDone.pinsTell (done : MapDone c env x s s' e t act) (pins : s.state.PinInv c.domid)
    (pins' : s'.state.PinInv c.domid) : PinsTell s x (t.active x.op.ref) act := by
  have hold : s.state.pinFor c.domid x.op.dom x.op.ref = (t.active x.op.ref).pin := by
    rw [pinFor_eq done.table, done.new.mine]
  have hact : s'.state.pinFor c.domid x.op.dom x.op.ref = act.pin := by
    have hsame : SameGrants c.domid _ s'.state := .of_tables done.tables
    rw [hsame.pin, pinFor_setActive done.table, if_pos ⟨rfl, rfl⟩, Active.pinFor,
      if_pos done.new.domid]
  have hframe : (t.active x.op.ref).pin ≠ 0 → s.state.frame x.op.dom x.op.ref = act.frame :=
    fun h => (frame_eq done.table).trans (done.new.frame h).symm
  refine ⟨fun h => ?_, fun h => ?_, ?_, ?_⟩
  · obtain ⟨a, y, hy, hd, href⟩ := pins.ne_zero_iff.1 (hold ▸ h)
    exact ⟨a, y, hy, by rw [hd, href, hframe h]⟩
  · have hne : (t.active x.op.ref).pin ≠ 0 := by
      intro h0
      rw [h0] at h
      exact h rfl
    obtain ⟨a, y, hy, ⟨hd, href⟩, hr⟩ := pins.write_iff.1 (hold ▸ h)
    exact ⟨a, y, hy, by rw [hd, href, hframe hne], hr⟩
  · rw [← hact]
    refine pins'.ne_zero_iff.2 ⟨e, ⟨x.op.dom, x.op.ref, mapBits x.op.flags⟩, ?_, rfl, rfl⟩
    rw [done.live, update_self]
  · rw [← hact, ← hold, pins'.write_iff, pins.write_iff, exists_live_insert done.free done.live]
    exact or_congr Iff.rfl (and_iff_right ⟨rfl, rfl⟩)

theorem rightsAt_mapRequest {old : Active} {kind : MapKind} (tell : PinsTell s x old act)
    (h : RightsAt s act.frame) (hwrite : kind.write = true ↔ s.state.WritesFrame act.frame)
    (hany : (kind.read = true ∨ kind.write = true) ↔ s.state.MapsFrame act.frame) :
    (((s.enter act.frame (mapRequest act.pin old.pin kind)).rights act.frame = .write) ↔
        s.state.WritesFrame act.frame ∨ (mapBits x.op.flags).readonly = false) ∧
      (s.enter act.frame (mapRequest act.pin old.pin kind)).rights act.frame ≠ .none := by
  unfold mapRequest
  split
  · -- the first writable mapping of the grant
    rename_i hnew
    have hr : (mapBits x.op.flags).readonly = false :=
      (tell.write.1 hnew.1).resolve_left (not_not.2 hnew.2)
    split
    · rename_i hk
      have hw : s.rights act.frame = .write := h.write.2 (hwrite.1 hk)
      refine ⟨iff_of_true hw (.inr hr), ?_⟩
      show s.rights act.frame ≠ .none
      rw [hw]
      decide
    · simp [PageState.enter, hr]
  · rename_i hnot
    split
    · -- the first mapping of the grant, and a read-only one
      rename_i hfirst
      have hr : ¬ (mapBits x.op.flags).readonly = false := by
        intro hr
        refine hnot ⟨tell.write.2 (.inr hr), ?_⟩
        rw [hfirst.2]
        rfl
      split
      · rename_i hk
        refine ⟨h.write.trans (or_iff_left hr).symm, h.read.2 (hany.1 hk)⟩
      · rename_i hk
        have hno : ¬ s.state.WritesFrame act.frame := fun hw => hk (hany.2 hw.maps)
        simp [PageState.enter, hr, hno]
    · rename_i hfirst
      have hold : old.pin ≠ 0 := fun h0 => hfirst ⟨tell.pinned, h0⟩
      refine ⟨h.write.trans ?_, h.read.2 (tell.maps hold)⟩
      by_cases hr : (mapBits x.op.flags).readonly = false
      · have hw : old.pin &&& gntpinWriteMask ≠ 0 := fun h0 => hnot ⟨tell.write.2 (.inr hr), h0⟩
        exact iff_of_true (tell.writes hw) (.inr hr)
      · exact (or_iff_left hr).symm

theorem enter_other {f f' : Nat} (h : f' ≠ f) (r : Option Rights) :
    (s.enter f r).rights f' = s.rights f' := by
  cases r with
  | none => rfl
  | some r => exact update_of_ne h _ _

theorem RightsInv.map (inv : RightsInv c s)
    (only : c.needIommu = true → s.state.OnlyFrom x.op.dom act.frame)
    (done : MapDone c env x s s' e t act) : RightsInv c s' := by
  have pins' := inv.pins.map done.table done.new done.free done.live done.tables
  refine ⟨pins', fun hneed f => ?_, fun hneed a y hy a' y' hy' hf => ?_⟩
  · obtain ⟨kind, hof, hrights⟩ := done.rights hneed
    obtain ⟨hmaps, hwrites⟩ := done.mapsFrame_iff inv.pins f
    by_cases hf : act.frame = f
    · subst hf
      obtain ⟨hkw, hka⟩ := hof.iff fun a y hy hf =>
        only hneed a y hy ((done.frame_live inv.pins hy).symm.trans hf)
      have hwrite : kind.write = true ↔ s.state.WritesFrame act.frame :=
        hkw.trans (exists_live_congr fun a y hy => by rw [done.frame_live inv.pins hy])
      have hany : (kind.read = true ∨ kind.write = true) ↔ s.state.MapsFrame act.frame :=
        hka.trans (exists_live_congr fun a y hy => by rw [done.frame_live inv.pins hy])
      obtain ⟨hw, hr⟩ := rightsAt_mapRequest (done.pinsTell inv.pins pins')
        (inv.rights hneed act.frame) hwrite hany
      constructor
      · rw [hrights, hw, hwrites]
        exact or_congr Iff.rfl (and_iff_right rfl).symm
      · rw [hrights, hmaps]
        exact iff_of_true hr (.inr rfl)
    · refine (inv.rights hneed f).congr ?_ (hmaps.trans (or_iff_left hf))
        (hwrites.trans (or_iff_left fun h => hf h.1))
      rw [hrights, enter_other (Ne.symm hf)]
  · have hcases : ∀ b z, s'.state.live b = some z →
        z = ⟨x.op.dom, x.op.ref, mapBits x.op.flags⟩ ∨ s.state.live b = some z := by
      intro b z hz
      rw [done.live, update_apply] at hz
      split at hz
      · cases hz
        exact .inl rfl
      · exact .inr hz
    rcases hcases a y hy with rfl | hold <;> rcases hcases a' y' hy' with rfl | hold'
    · rfl
    · rw [done.frame_live inv.pins hold', done.frame_new] at hf
      exact only hneed a' y' hold' hf
    · rw [done.frame_live inv.pins hold, done.frame_new] at hf
      exact (only hneed a y hold hf.symm).symm
    · rw [done.frame_live inv.pins hold, done.frame_live inv.pins hold'] at hf
      exact inv.alone hneed a y hold a' y' hold' hf

end Map

section Unmap

variable {op : Unmap} {u : UnmapCommon}

theorem rightsAt_unmapRequest {f : Nat} {kind : MapKind} (h : RightsAt s f)
    (hsub : s'.state.WritesFrame f → s.state.WritesFrame f)
    (hrights : s'.rights = (s.enter f (unmapRequest kind)).rights)
    (hwrite : kind.write = true ↔ s'.state.WritesFrame f)
    (hany : (kind.read = true ∨ kind.write = true) ↔ s'.state.MapsFrame f) : RightsAt s' f := by
  unfold unmapRequest at hrights
  split at hrights
  · rename_i hno
    have hmaps : ¬ s'.state.MapsFrame f := fun hm => by
      rcases hany.2 hm with hk | hk
      · rw [hno.1] at hk
        cases hk
      · rw [hno.2] at hk
        cases hk
    have hnone : s'.rights f = .none := by
      rw [hrights]
      exact update_self _ _ _
    exact ⟨iff_of_false (by rw [hnone]; decide) fun hw => hmaps hw.maps,
      iff_of_false (not_not.2 hnone) hmaps⟩
  · rename_i hsome
    split at hrights
    · rename_i hk
      have hw := hwrite.1 hk
      have heq : s'.rights f = .write := by
        rw [hrights]
        exact h.write.2 (hsub hw)
      exact ⟨iff_of_true heq hw, iff_of_true (by rw [heq]; decide) hw.maps⟩
    rename_i hk
    have heq : s'.rights f = .read := by
      rw [hrights]
      exact update_self _ _ _
    have hr : kind.read = true := by
      by_contra hr
      exact hsome ⟨Bool.eq_false_iff.2 hr, Bool.eq_false_iff.2 hk⟩
    exact ⟨iff_of_false (by rw [heq]; decide) fun hw => hk (hwrite.2 hw),
      iff_of_true (by rw [heq]; decide) (hany.1 (.inl hr))⟩

section Unmapping

variable {st st' : State} {t : GrantTable} {map : GrantMapping}
  {x : (BitVec 16 × Active) × Nat × Status}

theorem left_any (op : Unmap) {b : MapBits} (h : (op.left b).any = true) : b.any = true := by
  rcases Bool.or_eq_true_iff.1 h with hh | hd
  · exact Bool.or_eq_true_iff.2 (.inl (Bool.and_eq_true_iff.1 hh).1)
  · exact Bool.or_eq_true_iff.2 (.inr (Bool.and_eq_true_iff.1 hd).1)

variable (un : Unmapping c st op t map x st' u)

include un

theorem Unmapping.live_sub {a : Nat} {z : Mapped} (h : st'.live a = some z) :
    ∃ z', st.live a = some z' ∧ z'.domid = z.domid ∧ z'.ref = z.ref ∧
      z'.bits.readonly = z.bits.readonly := by
  rw [un.live, update_apply] at h
  split at h
  · rename_i ha
    have hbits : (mapBits x.1.1).any = true → (mapBits map.flags).any = true ∧
        (mapBits map.flags).readonly = (mapBits x.1.1).readonly := by
      intro hany
      rcases un.bits with ⟨-, hx⟩ | ⟨-, hx, -⟩
      · rw [hx] at hany ⊢
        exact ⟨hany, rfl⟩
      · rw [hx] at hany ⊢
        exact ⟨left_any op hany, rfl⟩
    unfold GrantMapping.mapped at h
    split at h
    · rename_i hany
      cases h
      obtain ⟨hold, hr⟩ := hbits hany
      exact ⟨⟨map.domid, map.ref, mapBits map.flags⟩,
        by rw [ha, un.live_handle, Maptrack.mapped_of_any hold], rfl, rfl, hr⟩
    · cases h
  · exact ⟨z, h, rfl, rfl, rfl⟩

theorem Unmapping.mapsFrame_sub (f : Nat) :
    (st'.MapsFrame f → st.MapsFrame f) ∧ (st'.WritesFrame f → st.WritesFrame f) := by
  constructor
  · rintro ⟨a, z, hz, hf⟩
    obtain ⟨z', hz', hd, href, -⟩ := un.live_sub hz
    exact ⟨a, z', hz', by rw [hd, href, ← un.frame, hf]⟩
  · rintro ⟨a, z, hz, hf, hr⟩
    obtain ⟨z', hz', hd, href, hr'⟩ := un.live_sub hz
    exact ⟨a, z', hz', by rw [hd, href, ← un.frame, hf], hr'.trans hr⟩

theorem Unmapping.onlyFrom {rd f : Nat} (h : st.OnlyFrom rd f) : st'.OnlyFrom rd f := by
  intro a z hz hf
  obtain ⟨z', hz', hd, href, -⟩ := un.live_sub hz
  rw [← hd]
  exact h a z' hz' (by rw [hd, href, ← un.frame, hf])

theorem Unmapping.mapsFrame_iff {f : Nat}
    (h : ∀ z ∈ map.mapped, st.frame map.domid map.ref = f →
      ∃ z' ∈ (GrantMapping.mapped { map with flags := x.1.1 }),
        z'.bits.readonly = z.bits.readonly) :
    (st'.MapsFrame f ↔ st.MapsFrame f) ∧ (st'.WritesFrame f ↔ st.WritesFrame f) := by
  have hkeep : ∀ a z, st.live a = some z → st.frame z.domid z.ref = f →
      ∃ z', st'.live a = some z' ∧ st'.frame z'.domid z'.ref = f ∧
        z'.bits.readonly = z.bits.readonly := by
    intro a z hz hf
    by_cases ha : a = op.handle
    · subst ha
      rw [un.live_handle] at hz
      obtain ⟨hd, href⟩ := mapped_grant hz
      rw [hd, href] at hf
      obtain ⟨z', hz', hr⟩ := h z hz hf
      obtain ⟨hd', href'⟩ := mapped_grant hz'
      refine ⟨z', by rw [un.live, update_self]; exact hz', ?_, hr⟩
      rw [hd', href', un.frame]
      exact hf
    · exact ⟨z, by rw [un.live, update_of_ne ha, hz], by rw [un.frame, hf], rfl⟩
  obtain ⟨hmaps, hwrites⟩ := un.mapsFrame_sub f
  refine ⟨⟨hmaps, ?_⟩, ⟨hwrites, ?_⟩⟩
  · rintro ⟨a, z, hz, hf⟩
    obtain ⟨z', hz', hf', -⟩ := hkeep a z hz hf
    exact ⟨a, z', hz', hf'⟩
  · rintro ⟨a, z, hz, hf, hr⟩
    obtain ⟨z', hz', hf', hr'⟩ := hkeep a z hz hf
    exact ⟨a, z', hz', hf', hr'.trans hr⟩

end Unmapping

/-- An entry that has lost its map bits still knows the only domain that its frame is mapped from.
-/
structure RightsBatch (c : Config) (s : PageState) : Prop where
  inv : RightsInv c s
  only : c.needIommu = true → ∀ e < s.state.maptrack.limit, (s.state.maptrack.entry e).flags ≠ 0 →
    s.state.OnlyFrom (s.state.maptrack.entry e).domid
      (s.state.frame (s.state.maptrack.entry e).domid (s.state.maptrack.entry e).ref)

theorem Unmapping.failed {st st' : State} {t : GrantTable} {map : GrantMapping}
    {x : (BitVec 16 × Active) × Nat × Status} (un : Unmapping c st op t map x st' u)
    (hiommu : c.needIommu → op.iommu = true) (hstatus : u.status ≠ .okay) :
    ∀ z ∈ map.mapped, ∃ z' ∈ (GrantMapping.mapped { map with flags := x.1.1 }),
      z'.bits.readonly = z.bits.readonly := by
  intro z hz
  rcases un.bits with ⟨-, hx⟩ | ⟨-, hbits, hok⟩
  · rw [hx]
    exact ⟨z, hz, rfl⟩
  have hu : u.status = x.2.2 := by
    rw [un.noted]
    exact if_neg fun h => h.2.2 (hiommu h.2.1)
  rw [hu, hok] at hstatus
  split at hstatus
  · -- the host mapping could not be replaced
    rename_i hh
    have hleft : (op.left (mapBits map.flags)).host = true := by
      simp [Unmap.left, hh.2, hstatus]
    refine ⟨⟨map.domid, map.ref, mapBits x.1.1⟩, ?_, ?_⟩
    · refine Maptrack.mapped_of_any ?_
      show (mapBits x.1.1).any = true
      rw [hbits]
      exact Bool.or_eq_true_iff.2 (.inl hleft)
    · unfold GrantMapping.mapped at hz
      split at hz
      · cases hz
        show (mapBits x.1.1).readonly = (mapBits map.flags).readonly
        rw [hbits]
        rfl
      · cases hz
  · exact absurd rfl hstatus

theorem RightsBatch.unmap {t : GrantTable} {map : GrantMapping}
    {x : (BitVec 16 × Active) × Nat × Status} (h : RightsBatch c s)
    (un : Unmapping c s.state op t map x s'.state u) (hiommu : c.needIommu → op.iommu = true)
    (hrights : UnmapRights c s s' u) : RightsBatch c s' := by
  refine ⟨⟨un.pinInv h.inv.pins, fun hneed f => ?_, fun hneed a z hz => ?_⟩,
    fun hneed e he hf => ?_⟩
  · rcases hrights with ⟨hsame, hstatus⟩ | ⟨rd, kind, hrd, hok, hof, hrights⟩
    · have hrd : u.rd ≠ none := by
        rw [un.noted]
        exact Option.some_ne_none _
      have hkeep := un.failed hiommu (hstatus hneed hrd)
      obtain ⟨hmaps, hwrites⟩ := un.mapsFrame_iff fun z hz _ => hkeep z hz
      exact (h.inv.rights hneed f).congr (congrFun hsame f) hmaps hwrites
    · -- the frame is the right one, and its mappings are all from this domain
      have hrd' : map.domid = rd := by
        rw [un.noted] at hrd
        exact Option.some.inj hrd
      have huframe : u.frame = s.state.frame map.domid map.ref := by
        rcases un.bits with ⟨-, hx⟩ | ⟨hx, -⟩
        · rw [un.noted, hx] at hok
          simp at hok
        · rw [un.noted]
          exact hx
      by_cases hf : s.state.frame map.domid map.ref = f
      · subst hf
        have honly : s'.state.OnlyFrom map.domid (s.state.frame map.domid map.ref) := by
          have := h.only hneed op.handle un.lt
          rw [un.entry] at this
          exact un.onlyFrom (this un.flags)
        rw [huframe, ← hrd'] at hof
        rw [huframe] at hrights
        obtain ⟨hkw, hka⟩ := hof.iff honly
        exact rightsAt_unmapRequest (h.inv.rights hneed _) (un.mapsFrame_sub _).2 hrights hkw hka
      · obtain ⟨hmaps, hwrites⟩ := un.mapsFrame_iff fun z _ hf' => absurd hf' hf
        refine (h.inv.rights hneed f).congr ?_ hmaps hwrites
        rw [hrights, huframe, enter_other (Ne.symm hf)]
  · obtain ⟨z', hz', hd, href, -⟩ := un.live_sub hz
    rw [← hd, ← href, un.frame]
    exact un.onlyFrom (h.inv.alone hneed a z' hz')
  · have hentry : (s'.state.maptrack.entry e).domid = (s.state.maptrack.entry e).domid ∧
        (s'.state.maptrack.entry e).ref = (s.state.maptrack.entry e).ref ∧
        (s.state.maptrack.entry e).flags ≠ 0 := by
      rw [un.maptrack, Maptrack.entry_setEntry] at hf ⊢
      by_cases he' : e = op.handle
      · subst he'
        rw [if_pos rfl, un.entry]
        exact ⟨rfl, rfl, un.flags⟩
      · rw [if_neg he'] at hf ⊢
        exact ⟨rfl, rfl, hf⟩
    have hlimit : s'.state.maptrack.limit = s.state.maptrack.limit := by
      rw [un.maptrack]
      rfl
    obtain ⟨hd, href, hf'⟩ := hentry
    rw [hd, href, un.frame]
    exact un.onlyFrom (h.only hneed e (hlimit ▸ he) hf')

end Unmap

/-! ## The theorem -/

def Exclusive (c : Config) (s : PageState) (a : PageAction) : Prop :=
  Admits c s.state a.action ∧
    match a with
    -- no other domain's mapping is one of the frame
    | .map _ x => c.needIommu = true → ∀ t ∈ s.state.tables x.op.dom,
        ∀ act ∈ (mapPin c t x.op).toOption, ∀ e < s.state.maptrack.limit, ∀ y ∈ s.state.live e,
          s.state.frame y.domid y.ref = act.frame → y.domid = x.op.dom
    | .unmap _ => True
    | .initVcpu _ => True
    -- other domains leave the grants alone that are pinned for this one
    | .remote d t => SameGrants c.domid s.state
        { s.state with tables := update s.state.tables d t }

noncomputable instance (s : PageState) (a : PageAction) : Decidable (Exclusive c s a) :=
  match a with
  | .map _ x => inferInstanceAs (Decidable (_ ∧
      (c.needIommu = true → ∀ t ∈ s.state.tables x.op.dom,
        ∀ act ∈ (mapPin c t x.op).toOption, ∀ e < s.state.maptrack.limit, ∀ y ∈ s.state.live e,
          s.state.frame y.domid y.ref = act.frame → y.domid = x.op.dom)))
  | .unmap _ => inferInstanceAs (Decidable (_ ∧ True))
  | .initVcpu _ => inferInstanceAs (Decidable (_ ∧ True))
  | .remote _ _ => Classical.propDecidable _

theorem RightsInv.mapGrantRef {curr : Nat} {x : PageMap} (hinv : s.state.Inv) (inv : RightsInv c s)
    (ha : Exclusive c s (.map curr x)) :
    ∃ r, s.mapGrantRef c env curr x = .ok r ∧ r.1.state.Inv ∧ RightsInv c r.1 := by
  obtain ⟨⟨hcurr, hsteal⟩, honly⟩ := ha
  obtain ⟨r, hr, hinv', undone | ⟨e, t, act, done⟩⟩ := mapGrantRef_spec env hinv hcurr hsteal
  · exact ⟨r, hr, hinv', inv.same undone.live undone.same undone.rights⟩
  · refine ⟨r, hr, hinv', inv.map (fun hneed a y hy hf => ?_) done⟩
    exact honly hneed t done.table act (by rw [done.pin]; rfl) a (Maptrack.lt_of_live hy) y hy hf

theorem RightsInv.unmapBatch {ops : List Unmap} (hinv : s.state.Inv) (inv : RightsInv c s)
    (ha : Admits c s.state (.unmap ops)) :
    ∃ s', s.unmapBatch c env ops = .ok s' ∧ s'.state.Inv ∧ RightsInv c s' := by
  -- between two hypercalls an entry with flags is a mapping
  have hbatch : RightsBatch c s := by
    refine ⟨inv, fun hneed e he hf => ?_⟩
    obtain ⟨lists, hm⟩ := hinv.maptrack
    have hmaps : (s.state.maptrack.entry e).flags &&& gntmapMaps ≠ 0 := by
      rcases hm.used e he with ⟨v, hv⟩ | hempty | hmaps
      · exact absurd (hm.free v e hv).2.2.1 hf
      · exact hempty.elim
      · exact hmaps
    exact inv.alone hneed e _ (live_iff.2 ⟨he, hmaps, rfl⟩)
  obtain ⟨s₁, us, s', hs', batch, hend⟩ := unmapBatch_page env hinv ha
    (fun s op s' u hiommu h hrights hb => by
      rcases unmapCommon_cases h with ⟨hnone, heq⟩ | ⟨t, map, x, un⟩
      · rcases hrights with ⟨hsame, -⟩ | ⟨rd, kind, hrd, -⟩
        · have : s' = { s with refs := s'.refs } := by
            cases s'
            cases heq
            cases hsame
            rfl
          rw [this]
          exact ⟨⟨hb.inv.pins, fun hneed f => ⟨(hb.inv.rights hneed f).write,
            (hb.inv.rights hneed f).read⟩, hb.inv.alone⟩, hb.only⟩
        · rw [hnone] at hrd
          cases hrd
      · exact hb.unmap un hiommu hrights) hbatch
  exact ⟨s', hs', batch.state, hend.inv.same batch.live (.of_tables batch.tables) batch.rights⟩

theorem pageStep_rightsInv (env : PageEnv) {a : PageAction} (hinv : s.state.Inv)
    (inv : RightsInv c s) (ha : Exclusive c s a) : ∃ s', pageStep c env s a = .ok s' ∧
      s'.state.Inv ∧ RightsInv c s' := by
  cases a with
  | map curr x =>
    obtain ⟨r, hr, hinv', inv'⟩ := inv.mapGrantRef hinv ha
    exact ⟨r.1, by rw [pageStep, hr]; rfl, hinv', inv'⟩
  | unmap ops => exact inv.unmapBatch hinv ha.1
  | initVcpu v =>
    exact ⟨_, rfl, initVcpu_inv v hinv, inv.same (initVcpu_live _ v) (.of_tables rfl) rfl⟩
  | remote d t =>
    obtain ⟨st, hst, hinv'⟩ := step_inv hinv ha.1
    cases hst
    exact ⟨_, rfl, hinv', inv.same rfl ha.2 rfl⟩

theorem create_rightsInv {tables : Nat → Option GrantTable}
    (fresh : ∀ d ref, (State.create tables).pinFor c.domid d ref = 0) :
    RightsInv c (.create tables) := by
  refine ⟨create_pinInv fresh, fun _ f => ⟨?_, ?_⟩, nofun⟩
  · refine iff_of_false nofun ?_
    rintro ⟨e, x, hx, -⟩
    cases hx
  · refine iff_of_false (fun h => h rfl) ?_
    rintro ⟨e, x, hx, -⟩
    cases hx

end Steps

/-- **Pins and rights follow the mappings** in every run that `Exclusive` allows, and the next step
does not leave the tables it indexes. -/
theorem pins_and_rights_follow_mappings (c : Config) (env : PageEnv)
    {tables : Nat → Option GrantTable} {s : PageState}
    (fresh : ∀ d ref, (State.create tables).pinFor c.domid d ref = 0)
    (run : Reaches (pageStep c env) (Exclusive c) (.create tables) s) :
    (∀ d ref k, pinCount (s.state.pinFor c.domid d ref) k = s.state.mapCount d ref k) ∧
      (c.needIommu = true → ∀ f, (s.rights f = .write ↔ s.state.WritesFrame f) ∧
        (s.rights f ≠ .none ↔ s.state.MapsFrame f)) ∧
      ∀ a, Exclusive c s a → ∃ s', pageStep c env s a = .ok s' := by
  have inv := run.invariant_of_total
    (fun s a ha inv => pageStep_rightsInv env inv.1 inv.2 ha)
    ⟨create_inv tables, create_rightsInv fresh⟩
  refine ⟨fun d ref k => ?_, fun hneed f => ?_, fun a ha => ?_⟩
  · rw [inv.2.pins.pinCount_eq, total_eq_mapCount]
  · exact ⟨(inv.2.rights hneed f).write, (inv.2.rights hneed f).read⟩
  · obtain ⟨s', hs', -⟩ := pageStep_rightsInv env inv.1 inv.2 ha
    exact ⟨s', hs'⟩

def pvIommu : Config := { pvDomain with needIommu := true }

/-- A read-only and a writable mapping of one page; then the writable one ends. -/
theorem pins_and_rights_follow_mappings_two : ∃ s,
    Reaches (pageStep pvIommu ramOnly) (Exclusive pvIommu) (.create freshTables) s ∧
      s.state.live 0 = some ⟨2, 8, ⟨true, false, true⟩⟩ ∧ s.rights 8 = .read ∧
      s.state.MapsFrame 8 := by
  obtain ⟨s, run, hlive, hread⟩ : ∃ s,
      Reaches (pageStep pvIommu ramOnly) (Exclusive pvIommu) (.create freshTables) s ∧
        s.state.live 0 = some ⟨2, 8, ⟨true, false, true⟩⟩ ∧ s.rights 8 = .read :=
    Reaches.exists_of_checked (e := .noVcpu)
      (l := [.initVcpu 0, .map 0 (mapPage (gntmapHostMap ||| gntmapReadonly) 8),
        .map 0 (mapPage gntmapHostMap 8), .unmap [unmapHost 1]]) (by decide +kernel)
  refine ⟨s, run, hlive, hread, ?_⟩
  have h := (pins_and_rights_follow_mappings pvIommu ramOnly (fun _ _ => rfl) run).2.1 rfl 8
  exact h.2.1 (by rw [hread]; decide)

/-- A read-only mapping of a page of `dom_cow`. -/
def sharedPage (rd : Nat) : PageMap :=
  ⟨{ mapHost 8 with flags := gntmapHostMap ||| gntmapReadonly, dom := rd }, .cow, true, true,
    true, true⟩

/-- The domains that grant are HVM: only their pages can be shared. -/
def hvmGranters : PageEnv := ⟨fun _ => false, fun _ => true⟩

/-- A page is granted read-only by the domains 2 and 3: the end of the mapping from domain 2 takes
the rights that the other needs. -/
theorem unmap_takes_rights_of_shared_page : ∃ s,
    Reaches (pageStep pvIommu hvmGranters) (fun s a => Admits pvIommu s.state a.action)
      (.create freshTables) s ∧ s.state.live 1 = some ⟨3, 8, ⟨true, false, true⟩⟩ ∧
      s.state.frame 3 8 = 8 ∧ s.rights 8 = .none :=
  Reaches.exists_of_checked (e := .noVcpu)
    (l := [.initVcpu 0, .map 0 (sharedPage 2), .map 0 (sharedPage 3), .unmap [unmapHost 0]])
    (by decide +kernel)

end XenVmi.Grant
