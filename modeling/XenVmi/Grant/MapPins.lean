import Mathlib.Algebra.GroupWithZero.Nat
import Mathlib.Algebra.BigOperators.Pi
import Mathlib.Algebra.Order.BigOperators.Group.Finset
import XenVmi.Grant.Live

/-!
# The pins of mappings

`State.PinInv ld s`: the counters of each grant that is pinned for `ld` are the numbers of `ld`'s
mappings of it that have the host or the device bit, read-only or not, and at most 128:
`__gnttab_map_grant_ref` gives up if the top bit of one is set. `SameGrants` is what other domains
may do meanwhile.
-/

namespace XenVmi.Grant

open Function XenVmi.Lib

variable {c : Config} {s s' : State} {ld : Nat}

/-! ## Counters -/

inductive PinKind where
  | hstw | hstr | devw | devr
  deriving DecidableEq, Repr

def MapBits.pins (b : MapBits) : PinKind → Nat
  | .hstw => if b.host && !b.readonly then 1 else 0
  | .hstr => if b.host && b.readonly then 1 else 0
  | .devw => if b.device && !b.readonly then 1 else 0
  | .devr => if b.device && b.readonly then 1 else 0

def pinWord (n : PinKind → Nat) : Nat :=
  n .hstw + n .hstr * 2 ^ 8 + n .devw * 2 ^ 16 + n .devr * 2 ^ 24

def pinCount (pin : BitVec 32) : PinKind → Nat
  | .hstw => pin.toNat % 2 ^ 8
  | .hstr => pin.toNat / 2 ^ 8 % 2 ^ 8
  | .devw => pin.toNat / 2 ^ 16 % 2 ^ 8
  | .devr => pin.toNat / 2 ^ 24 % 2 ^ 8

theorem pinWord_add (n n' : PinKind → Nat) : pinWord (n + n') = pinWord n + pinWord n' := by
  simp only [pinWord, Pi.add_apply]
  omega

theorem toNat_pinInc {w : Nat} (flags : BitVec w) :
    (pinInc flags).toNat = pinWord (mapBits flags).pins := by
  unfold pinInc mapBits pinWord MapBits.pins
  by_cases hd : flags &&& gntmapDeviceMap = 0 <;> by_cases hh : flags &&& gntmapHostMap = 0 <;>
    by_cases hr : flags &&& gntmapReadonly = 0 <;>
    simp only [hd, hh, hr, ne_eq, not_true_eq_false, not_false_eq_true, decide_true, decide_false,
      Bool.not_true, Bool.not_false, Bool.and_true, Bool.and_false, if_true, if_false,
      Bool.false_eq_true] <;> rfl

theorem pins_split (b : MapBits) :
    MapBits.pins { b with host := false } + MapBits.pins { b with device := false } = b.pins := by
  funext k
  cases k <;> simp [MapBits.pins]

theorem pins_le_one (b : MapBits) (k : PinKind) : b.pins k ≤ 1 := by
  cases k <;> simp only [MapBits.pins] <;> split <;> omega

variable {d ref : Nat} {b : MapBits} {pin : BitVec 32}

theorem pins_of_not_any (h : b.any = false) : b.pins = 0 := by
  obtain ⟨hh, hd⟩ := Bool.or_eq_false_iff.1 h
  funext k
  cases k <;> simp [MapBits.pins, hh, hd]

theorem exists_pin_of_any (h : b.any = true) : ∃ k, b.pins k = 1 := by
  obtain ⟨host, device, readonly⟩ := b
  cases host <;> cases device <;> cases readonly <;>
    first
    | exact absurd h Bool.false_ne_true
    | exact ⟨.hstw, rfl⟩
    | exact ⟨.hstr, rfl⟩
    | exact ⟨.devw, rfl⟩
    | exact ⟨.devr, rfl⟩

theorem le_pinWord (n : PinKind → Nat) (k : PinKind) : n k ≤ pinWord n := by
  cases k <;> simp only [pinWord] <;> omega

theorem pinWord_mono {n n' : PinKind → Nat} (h : ∀ k, n k ≤ n' k) : pinWord n ≤ pinWord n' := by
  have h0 := h .hstw
  have h1 := h .hstr
  have h2 := h .devw
  have h3 := h .devr
  simp only [pinWord]
  omega

theorem pinCount_eq {n : PinKind → Nat} (h : pin.toNat = pinWord n)
    (few : ∀ k, n k < 2 ^ 8) : pinCount pin = n := by
  have h0 := few .hstw
  have h1 := few .hstr
  have h2 := few .devw
  simp only [pinWord] at h
  funext k
  cases k <;> simp only [pinCount] <;> omega

theorem pinCount_lt_of_spare (h : pin &&& 0x80808080 = 0) (k : PinKind) : pinCount pin k < 128 := by
  have hbit : ∀ i < 32, (0x80808080 : BitVec 32).getLsbD i = true → pin.getLsbD i = false := by
    intro i _ hi
    have hand : (pin &&& 0x80808080).getLsbD i = false := by
      rw [h]
      exact BitVec.getLsbD_zero
    rwa [BitVec.getLsbD_and, hi, Bool.and_true] at hand
  have hdigit : ∀ j, (0x80808080 : BitVec 32).getLsbD (j + 7) = true → j + 7 < 32 →
      pin.toNat / 2 ^ j % 2 ^ 8 < 128 := by
    intro j hj hlt
    have htest : pin.toNat / 2 ^ (j + 7) % 2 = 0 := by
      have := hbit (j + 7) hlt hj
      rw [BitVec.getLsbD, Nat.testBit_eq_decide_div_mod_eq, decide_eq_false_iff_not] at this
      omega
    rw [pow_add, ← Nat.div_div_eq_div_mul] at htest
    omega
  cases k with
  | hstw => simpa [pinCount] using hdigit 0 (by decide) (by decide)
  | hstr => exact hdigit 8 (by decide) (by decide)
  | devw => exact hdigit 16 (by decide) (by decide)
  | devr => exact hdigit 24 (by decide) (by decide)

/-! ## Pins for one domain -/

def Active.pinFor (ld : Nat) (act : Active) : BitVec 32 := if act.domid = ld then act.pin else 0

namespace State

def activeOf (s : State) (d ref : Nat) : Option Active := (s.tables d).map fun t => t.active ref

def pinFor (s : State) (ld d ref : Nat) : BitVec 32 := ((s.activeOf d ref).map (·.pinFor ld)).getD 0

def frame (s : State) (d ref : Nat) : Nat := ((s.activeOf d ref).map (·.frame)).getD 0

def pinsAt (d ref : Nat) (x : Mapped) : PinKind → Nat :=
  if x.domid = d ∧ x.ref = ref then x.bits.pins else 0

structure PinInv (ld : Nat) (s : State) : Prop where
  word : ∀ d ref, (s.pinFor ld d ref).toNat = pinWord (s.total (pinsAt d ref))
  few : ∀ d ref k, s.total (pinsAt d ref) k ≤ 128

end State

/-- The grants that are pinned for `ld` are left alone, and no others are pinned for it. -/
structure SameGrants (ld : Nat) (s s' : State) : Prop where
  pin : ∀ d ref, s'.pinFor ld d ref = s.pinFor ld d ref
  frame : ∀ d ref, s.pinFor ld d ref ≠ 0 → s'.frame d ref = s.frame d ref

theorem SameGrants.of_tables (h : s'.tables = s.tables) : SameGrants ld s s' := by
  have hact : ∀ d ref, s'.activeOf d ref = s.activeOf d ref := fun d ref => by
    rw [State.activeOf, h, State.activeOf]
  constructor
  · intro d ref
    rw [State.pinFor, hact, State.pinFor]
  · intro d ref _
    rw [State.frame, hact, State.frame]

theorem activeOf_eq {t : GrantTable} (h : s.tables d = some t) :
    s.activeOf d ref = some (t.active ref) := by
  rw [State.activeOf, h, Option.map_some]

theorem activeOf_setActive {t : GrantTable} {act : Active} (h : s.tables d = some t)
    (d' ref' : Nat) : (s.setTable d (t.setActive ref act)).activeOf d' ref' =
      if d' = d ∧ ref' = ref then some act else s.activeOf d' ref' := by
  unfold State.activeOf State.setTable GrantTable.setActive
  simp only [update_apply]
  by_cases hd : d' = d
  · subst hd
    rw [if_pos rfl, h, Option.map_some]
    simp only [update_apply, true_and]
    split <;> rfl
  · rw [if_neg hd, if_neg fun hand => hd hand.1]

theorem pinFor_setActive {t : GrantTable} {act : Active} (h : s.tables d = some t)
    (d' ref' : Nat) : (s.setTable d (t.setActive ref act)).pinFor ld d' ref' =
      if d' = d ∧ ref' = ref then act.pinFor ld else s.pinFor ld d' ref' := by
  rw [State.pinFor, activeOf_setActive h]
  split <;> rfl

theorem frame_setActive {t : GrantTable} {act : Active} (h : s.tables d = some t)
    (d' ref' : Nat) : (s.setTable d (t.setActive ref act)).frame d' ref' =
      if d' = d ∧ ref' = ref then act.frame else s.frame d' ref' := by
  rw [State.frame, activeOf_setActive h]
  split <;> rfl

theorem pinFor_eq {t : GrantTable} (h : s.tables d = some t) :
    s.pinFor ld d ref = (t.active ref).pinFor ld := by
  rw [State.pinFor, activeOf_eq h]
  rfl

theorem frame_eq {t : GrantTable} (h : s.tables d = some t) :
    s.frame d ref = (t.active ref).frame := by
  rw [State.frame, activeOf_eq h]
  rfl

section PinInv

open Finset

theorem total_apply {ι : Type} (w : Mapped → ι → Nat) (k : ι) :
    s.total w k = s.total fun x => w x k := by
  unfold State.total
  rw [Finset.sum_apply]
  refine sum_congr rfl fun e _ => ?_
  cases s.live e <;> rfl

variable {e : Nat}

theorem le_total {w : Mapped → Nat} {x : Mapped} (h : s.live e = some x) : w x ≤ s.total w := by
  have hle := single_le_sum (f := fun e => share w (s.live e))
    (fun _ _ => Nat.zero_le _) (mem_range.2 (Maptrack.lt_of_live h))
  simp only [h] at hle
  exact hle

theorem any_of_live {x : Mapped} (h : s.live e = some x) : x.bits.any = true := by
  have hlt : e < s.maptrack.limit := Maptrack.lt_of_live h
  unfold State.live Maptrack.live at h
  rw [if_pos hlt, GrantMapping.mapped] at h
  split at h
  · cases h
    assumption
  · cases h

theorem pins_le_total {x : Mapped} (h : s.live e = some x) (k : PinKind) :
    x.bits.pins k ≤ s.total (State.pinsAt x.domid x.ref) k := by
  rw [total_apply]
  refine Nat.le_trans (Nat.le_of_eq ?_) (le_total h)
  rw [State.pinsAt, if_pos ⟨rfl, rfl⟩]

theorem State.PinInv.pinned {x : Mapped} (inv : s.PinInv ld) (h : s.live e = some x) :
    s.pinFor ld x.domid x.ref ≠ 0 := by
  obtain ⟨k, hk⟩ := exists_pin_of_any (any_of_live h)
  have hle := pins_le_total h k
  have hword := inv.word x.domid x.ref
  have hpos := le_pinWord (s.total (State.pinsAt x.domid x.ref)) k
  intro h0
  rw [h0] at hword
  have : (0 : BitVec 32).toNat = 0 := rfl
  omega

theorem State.PinInv.frame_of_live {x : Mapped} (inv : s.PinInv ld)
    (same : SameGrants ld s s') (h : s.live e = some x) :
    s'.frame x.domid x.ref = s.frame x.domid x.ref := same.frame _ _ (inv.pinned h)

theorem State.PinInv.congr (inv : s.PinInv ld) (hlive : s'.live = s.live)
    (same : SameGrants ld s s') : s'.PinInv ld := by
  have htotal : ∀ d ref, s'.total (State.pinsAt d ref) = s.total (State.pinsAt d ref) :=
    fun d ref => total_congr hlive fun _ _ _ => rfl
  constructor
  · intro d ref
    rw [same.pin, htotal]
    exact inv.word d ref
  · intro d ref k
    rw [htotal]
    exact inv.few d ref k

theorem create_pinInv {tables : Nat → Option GrantTable}
    (fresh : ∀ d ref, (State.create tables).pinFor ld d ref = 0) :
    (State.create tables).PinInv ld := by
  have hnone : ∀ d ref, (State.create tables).total (State.pinsAt d ref) = 0 := fun _ _ => rfl
  constructor
  · intro d ref
    rw [fresh, hnone]
    rfl
  · intro d ref k
    exact Nat.zero_le 128

def handlePins (x : Option Mapped) : PinKind → Nat := share (fun x => x.bits.pins) x

theorem State.PinInv.update {e d ref : Nat} {y : Option Mapped} (inv : s.PinInv ld)
    (hlive : s'.live = update s.live e y)
    (hold : ∀ x ∈ s.live e, x.domid = d ∧ x.ref = ref) (hnew : ∀ x ∈ y, x.domid = d ∧ x.ref = ref)
    (hother : ∀ d' ref', ¬ (d' = d ∧ ref' = ref) → s'.pinFor ld d' ref' = s.pinFor ld d' ref')
    (hword : (s'.pinFor ld d ref).toNat + pinWord (handlePins (s.live e)) =
      (s.pinFor ld d ref).toNat + pinWord (handlePins y))
    (hfew : ∀ k, s.total (State.pinsAt d ref) k + handlePins y k ≤ 128 + handlePins (s.live e) k) :
    s'.PinInv ld := by
  have hshare : ∀ x : Option Mapped, (∀ z ∈ x, z.domid = d ∧ z.ref = ref) →
      share (State.pinsAt d ref) x = handlePins x := by
    intro x hx
    cases x with
    | none => rfl
    | some z => exact if_pos (hx z rfl)
  have hnone : ∀ d' ref', ¬ (d' = d ∧ ref' = ref) → ∀ x : Option Mapped,
      (∀ z ∈ x, z.domid = d ∧ z.ref = ref) → share (State.pinsAt d' ref') x = 0 := by
    intro d' ref' hne x hx
    cases x with
    | none => rfl
    | some z =>
      refine if_neg fun hz => hne ?_
      obtain ⟨hd, href⟩ := hx z rfl
      exact ⟨hz.1.symm.trans hd, hz.2.symm.trans href⟩
  have hsame : ∀ d' ref', ¬ (d' = d ∧ ref' = ref) →
      s'.total (State.pinsAt d' ref') = s.total (State.pinsAt d' ref') := by
    intro d' ref' hne
    have h := total_update (w := State.pinsAt d' ref') hlive
    rwa [hnone d' ref' hne _ hold, hnone d' ref' hne _ hnew, add_zero, add_zero] at h
  have hthis := total_update (w := State.pinsAt d ref) hlive
  rw [hshare _ hold, hshare _ hnew] at hthis
  constructor
  · intro d' ref'
    by_cases hne : d' = d ∧ ref' = ref
    · obtain ⟨rfl, rfl⟩ := hne
      have hsum := congrArg pinWord hthis
      rw [pinWord_add, pinWord_add] at hsum
      have := inv.word d' ref'
      omega
    · rw [hother d' ref' hne, hsame d' ref' hne]
      exact inv.word d' ref'
  · intro d' ref' k
    by_cases hne : d' = d ∧ ref' = ref
    · obtain ⟨rfl, rfl⟩ := hne
      have hsum := congrFun hthis k
      have := hfew k
      simp only [Pi.add_apply] at hsum
      omega
    · rw [hsame d' ref' hne]
      exact inv.few d' ref' k

end PinInv

/-! ## Mapping -/

section Map

variable {t : GrantTable} {op : MapOp} {act : Active}

/-- What `__gnttab_map_grant_ref` does to the active entry. -/
structure NewPin (c : Config) (op : MapOp) (old act : Active) : Prop where
  domid : act.domid = c.domid
  pin : act.pin = old.pin + pinInc op.flags
  mine : old.pinFor c.domid = old.pin
  spare : old.pin &&& 0x80808080 = 0
  frame : old.pin ≠ 0 → act.frame = old.frame

theorem mapClaim_spec {old : Active} (hdom : old.pin ≠ 0 → old.domid = c.domid)
    (h : mapClaim c op old = .ok act) :
    act.domid = c.domid ∧ act.pin = old.pin ∧ (old.pin ≠ 0 → act.frame = old.frame) := by
  by_cases hpin : old.pin = 0
  · rw [mapClaim, if_pos (.inl hpin)] at h
    split at h
    · cases h
    · split at h
      · cases h
      · cases h
        exact ⟨rfl, rfl, fun h0 => absurd hpin h0⟩
  have hsame : act = old := by
    unfold mapClaim at h
    split at h
    · split at h
      · cases h
      · cases h
        rfl
    · cases h
      rfl
  subst hsame
  exact ⟨hdom hpin, rfl, fun _ => rfl⟩

theorem mapPin_spec (h : mapPin c t op = .ok act) : NewPin c op (t.active op.ref) act := by
  unfold mapPin at h
  split at h
  · cases h
  simp only at h
  split at h
  · cases h
  rename_i hguard
  rw [not_and_or, not_not] at hguard
  have hdom : (t.active op.ref).pin ≠ 0 → (t.active op.ref).domid = c.domid ∧
      (t.active op.ref).pin &&& 0x80808080 = 0 := by
    intro hpin
    have hno := hguard.resolve_left hpin
    exact ⟨by_contra fun hd => hno (.inl hd), by_contra fun hp => hno (.inr (.inl hp))⟩
  split at h
  · cases h
  rename_i claimed hclaim
  cases h
  obtain ⟨hd, hp, hf⟩ := mapClaim_spec (fun hpin => (hdom hpin).1) hclaim
  refine ⟨hd, by rw [hp], ?_, ?_, hf⟩
  · unfold Active.pinFor
    by_cases hpin : (t.active op.ref).pin = 0
    · rw [hpin, ite_self]
    · rw [if_pos (hdom hpin).1]
  · by_cases hpin : (t.active op.ref).pin = 0
    · rw [hpin]
      rfl
    · exact (hdom hpin).2

theorem NewPin.frame_same {act' : Active} {d ref : Nat} (new : NewPin c op (t.active op.ref) act)
    (ht : s.tables op.dom = some t) (hact : act'.frame = act.frame)
    (hne : s.pinFor c.domid d ref ≠ 0) :
    (s.setTable op.dom (t.setActive op.ref act')).frame d ref = s.frame d ref := by
  rw [frame_setActive ht, hact]
  split
  · rename_i hd
    rw [hd.1, hd.2, pinFor_eq ht, new.mine] at hne
    rw [hd.1, hd.2, frame_eq ht]
    exact new.frame hne
  · rfl

theorem NewPin.undo (new : NewPin c op (t.active op.ref) act) (ht : s.tables op.dom = some t) :
    SameGrants c.domid s
      (s.setTable op.dom (t.setActive op.ref { act with pin := act.pin - pinInc op.flags })) := by
  have hpin : Active.pinFor c.domid { act with pin := act.pin - pinInc op.flags } =
      s.pinFor c.domid op.dom op.ref := by
    rw [pinFor_eq ht, new.mine, Active.pinFor, if_pos new.domid]
    rw [new.pin, BitVec.add_sub_cancel]
  constructor
  · intro d ref
    rw [pinFor_setActive ht]
    split
    · rename_i hd
      rw [hpin, hd.1, hd.2]
    · rfl
  · exact fun d ref => new.frame_same ht rfl

theorem State.PinInv.map {e : Nat} (inv : s.PinInv c.domid) (ht : s.tables op.dom = some t)
    (new : NewPin c op (t.active op.ref) act) (hfree : s.live e = none)
    (hlive : s'.live = Function.update s.live e (some ⟨op.dom, op.ref, mapBits op.flags⟩))
    (htables : s'.tables = (s.setTable op.dom (t.setActive op.ref act)).tables) :
    s'.PinInv c.domid := by
  have hword := inv.word op.dom op.ref
  have hpins : handlePins (some ⟨op.dom, op.ref, mapBits op.flags⟩) = (mapBits op.flags).pins := rfl
  have hpin' : ∀ d ref, s'.pinFor c.domid d ref =
      (s.setTable op.dom (t.setActive op.ref act)).pinFor c.domid d ref :=
    (SameGrants.of_tables htables).pin
  rw [pinFor_eq ht, new.mine] at hword
  -- no counter is at its limit, so one more pin of each kind does not carry over
  have hlt : ∀ k, s.total (State.pinsAt op.dom op.ref) k < 128 := by
    intro k
    have hcount := pinCount_eq hword fun k =>
      Nat.lt_of_le_of_lt (inv.few op.dom op.ref k) (by decide)
    rw [← hcount]
    exact pinCount_lt_of_spare new.spare k
  have hold : ∀ x ∈ s.live e, x.domid = op.dom ∧ x.ref = op.ref := by
    rw [hfree]
    intro x hx
    cases hx
  have hnew : ∀ x ∈ (some ⟨op.dom, op.ref, mapBits op.flags⟩ : Option Mapped),
      x.domid = op.dom ∧ x.ref = op.ref := by
    rintro x ⟨⟩
    exact ⟨rfl, rfl⟩
  refine inv.update hlive hold hnew (fun d ref hne => ?_) ?_ fun k => ?_
  · rw [hpin', pinFor_setActive ht, if_neg hne]
  · rw [hpin', pinFor_setActive ht, if_pos ⟨rfl, rfl⟩, Active.pinFor, if_pos new.domid, new.pin,
      pinFor_eq ht, new.mine, hfree, hpins, ← toNat_pinInc]
    have hsmall : (t.active op.ref).pin.toNat + (pinInc op.flags).toNat < 2 ^ 32 := by
      rw [hword, toNat_pinInc, ← pinWord_add]
      have hle : pinWord (s.total (State.pinsAt op.dom op.ref) + (mapBits op.flags).pins) ≤
          pinWord fun _ => 128 :=
        pinWord_mono fun k => Nat.add_le_add (Nat.le_of_lt_succ (hlt k)) (pins_le_one _ k)
      exact Nat.lt_of_le_of_lt hle (by decide)
    rw [BitVec.toNat_add_of_lt hsmall]
    rfl
  · rw [hpins]
    have := hlt k
    have := pins_le_one (mapBits op.flags) k
    omega

end Map

/-! ## Unmapping -/

section Unmap

variable {op : Unmap} {u : UnmapCommon}

def Unmap.left (op : Unmap) (b : MapBits) : MapBits where
  host := b.host && !(decide (op.hostAddr ≠ 0) && decide (op.replace = .okay))
  device := b.device && decide (op.devBusAddr / 4096 = 0)
  readonly := b.readonly

theorem left_pins_le (op : Unmap) (b : MapBits) (k : PinKind) : (op.left b).pins k ≤ b.pins k := by
  obtain ⟨host, device, readonly⟩ := b
  cases k <;> cases host <;> cases device <;> cases readonly <;>
    simp only [Unmap.left, MapBits.pins, Bool.false_and, Bool.true_and, Bool.and_false,
      Bool.and_true, Bool.not_true, Bool.not_false, if_true, if_false, Bool.false_eq_true,
        le_refl] <;>
    split <;> omega

def Unpins (b b' : MapBits) (pin pin' : BitVec 32) : Prop :=
  pinWord b.pins ≤ pin.toNat → pin'.toNat + pinWord b.pins = pin.toNat + pinWord b'.pins

theorem Unpins.refl (b : MapBits) (pin : BitVec 32) : Unpins b b pin pin := fun _ => rfl

theorem Unpins.trans {b b' b'' : MapBits} {pin pin' pin'' : BitVec 32} (h : Unpins b b' pin pin')
    (h' : Unpins b' b'' pin' pin'') : Unpins b b'' pin pin'' := by
  intro hle
  have h₁ := h hle
  have h₂ := h' (by omega)
  omega

theorem unpins_sub {b b' : MapBits} {pin inc : BitVec 32}
    (h : pinWord b.pins = inc.toNat + pinWord b'.pins) : Unpins b b' pin (pin - inc) := by
  intro hle
  rw [BitVec.toNat_sub_of_le (BitVec.le_def.2 (by omega))]
  omega

theorem unmapDevice_spec (op : Unmap) (flags : BitVec 16) (act : Active) :
    mapBits (unmapDevice op flags act).1 =
        { mapBits flags with device :=
          (mapBits flags).device && decide (op.devBusAddr / 4096 = 0) } ∧
      Unpins (mapBits flags) (mapBits (unmapDevice op flags act).1) act.pin
        (unmapDevice op flags act).2.pin := by
  unfold unmapDevice
  split
  · rename_i h
    have hbits := mapBits_drop_device flags
    refine ⟨?_, ?_⟩
    · simp [dropMap, hbits, h.1]
    · simp only [dropMap, hbits]
      refine unpins_sub ?_
      rw [toNat_pinInc, mapBits_only_device, ← pinWord_add, pins_split]
  rename_i h
  refine ⟨?_, Unpins.refl _ _⟩
  by_cases h0 : op.devBusAddr / 4096 = 0
  · simp [h0]
  · have hdev : (mapBits flags).device = false := by
      simpa [mapBits, h0] using h
    rw [hdev, Bool.false_and, ← hdev]

theorem unmapPins_spec (op : Unmap) (flags : BitVec 16) (act : Active) :
    Unpins (mapBits flags) (mapBits (unmapPins op flags act).1.1) act.pin
        (unmapPins op flags act).1.2.pin ∧
      ((op.devBusAddr / 4096 ≠ 0 ∧ op.devBusAddr / 4096 ≠ act.frame ∧
          unmapPins op flags act = ((flags, act), op.devBusAddr / 4096, .generalError)) ∨
        ((unmapPins op flags act).2.1 = act.frame ∧
          mapBits (unmapPins op flags act).1.1 = op.left (mapBits flags) ∧
          (unmapPins op flags act).2.2 =
            if op.hostAddr ≠ 0 ∧ (mapBits flags).host then op.replace else .okay)) := by
  obtain ⟨hbits, hpins⟩ := unmapDevice_spec op flags act
  unfold unmapPins
  split
  · rename_i h
    exact ⟨Unpins.refl _ _, .inl ⟨h.1, h.2, rfl⟩⟩
  have hhost : (mapBits flags).host = decide (flags &&& gntmapHostMap ≠ 0) := rfl
  split
  · rename_i h
    have hhost' : (mapBits flags).host = true := by rw [hhost, decide_eq_true h.2]
    split
    · rename_i hreplace
      refine ⟨hpins, .inr ⟨rfl, ?_, ?_⟩⟩
      · simp [hbits, Unmap.left, hreplace]
      · simp [h.1, hhost']
    rename_i hreplace
    rw [not_not] at hreplace
    have hdrop : mapBits ((unmapDevice op flags act).1 &&& ~~~gntmapHostMap) =
        { mapBits (unmapDevice op flags act).1 with host := false } := mapBits_drop_host _
    refine ⟨hpins.trans ?_, .inr ⟨rfl, ?_, ?_⟩⟩
    · simp only [dropMap, hdrop]
      refine unpins_sub ?_
      rw [toNat_pinInc, mapBits_only_host, ← pinWord_add, ← pins_split, add_comm]
      rw [hbits]
    · simp [dropMap, hdrop, hbits, Unmap.left, h.1, hreplace]
    · simp [h.1, hhost', hreplace]
  · rename_i h
    refine ⟨hpins, .inr ⟨rfl, ?_, ?_⟩⟩
    · have hno : (mapBits flags).host = false ∨ op.hostAddr = 0 := by
        by_cases h0 : op.hostAddr = 0
        · exact .inr h0
        · exact .inl (decide_eq_false fun hne => h ⟨h0, hne⟩)
      rw [hbits, Unmap.left]
      rcases hno with hno | hno <;> simp [hno]
    · rw [if_neg]
      rintro ⟨h0, hne⟩
      exact h ⟨h0, of_decide_eq_true hne⟩

/-- `__gnttab_unmap_common` that found the entry `map` and the table `t`, and what it made of them.
-/
structure Unmapping (c : Config) (s : State) (op : Unmap) (t : GrantTable) (map : GrantMapping)
    (x : (BitVec 16 × Active) × Nat × Status) (s' : State) (u : UnmapCommon) : Prop where
  entry : s.maptrack.entry op.handle = map
  lt : op.handle < s.maptrack.limit
  flags : map.flags ≠ 0
  table : s.tables map.domid = some t
  pins : unmapPins op map.flags (t.active map.ref) = x
  tables : s'.tables = (s.setTable map.domid (t.setActive map.ref x.1.2)).tables
  maptrack : s'.maptrack = s.maptrack.setEntry op.handle { map with flags := x.1.1 }
  noted : u = ⟨op.hostAddr, op.handle,
    if x.2.2 = .okay ∧ c.needIommu ∧ ¬ op.iommu then .generalError else x.2.2,
    map.flags, x.2.1, some map.domid⟩

theorem unmapCommon_cases (h : unmapCommon c s op = .ok (s', u)) :
    (u.rd = none ∧ s' = s) ∨ ∃ t map x, Unmapping c s op t map x s' u := by
  unfold unmapCommon at h
  split at h
  · cases h
    exact .inl ⟨rfl, rfl⟩
  rename_i hlt
  simp only at h
  split at h
  · cases h
    exact .inl ⟨rfl, rfl⟩
  rename_i hflags
  split at h
  · cases h
    exact .inl ⟨rfl, rfl⟩
  rename_i t ht
  split at h
  · cases h
    exact .inl ⟨rfl, rfl⟩
  · obtain ⟨act, hact, h⟩ := exists_ok_of_bind h
    obtain rfl := GrantTable.activeEntryAcquire_eq hact
    cases h
    exact .inr ⟨t, _, _, rfl, Nat.lt_of_not_le hlt, hflags, ht, rfl, rfl, rfl, rfl⟩

theorem handlePins_mapped (x : GrantMapping) : handlePins x.mapped = (mapBits x.flags).pins := by
  unfold GrantMapping.mapped
  split
  · rfl
  · rename_i h
    rw [pins_of_not_any (Bool.eq_false_iff.2 h)]
    rfl

theorem mapped_grant {x : GrantMapping} {z : Mapped} (h : z ∈ x.mapped) :
    z.domid = x.domid ∧ z.ref = x.ref := by
  unfold GrantMapping.mapped at h
  split at h
  · cases h
    exact ⟨rfl, rfl⟩
  · cases h

namespace Unmapping

variable {t : GrantTable} {map : GrantMapping} {x : (BitVec 16 × Active) × Nat × Status}
  (un : Unmapping c s op t map x s' u)

include un

theorem unpinned : x.1.2.unpinned = (t.active map.ref).unpinned := by
  rw [← un.pins]
  exact unpinned_unmapPins op map.flags (t.active map.ref)

theorem frame (d ref : Nat) : s'.frame d ref = s.frame d ref := by
  rw [State.frame, State.activeOf, un.tables]
  refine (frame_setActive un.table d ref).trans ?_
  split
  · rename_i hd
    have hframe := congrArg Active.frame un.unpinned
    rw [hd.1, hd.2, frame_eq un.table]
    exact hframe
  · rfl

theorem live : s'.live = update s.live op.handle
    (GrantMapping.mapped { map with flags := x.1.1 }) := by
  rw [State.live, un.maptrack]
  exact Maptrack.live_setEntry un.lt

theorem live_handle : s.live op.handle = map.mapped := (if_pos un.lt).trans (by rw [un.entry])

theorem bits : (x.2.1 ≠ s.frame map.domid map.ref ∧ x = ((map.flags, t.active map.ref), x.2.1,
      .generalError)) ∨
    (x.2.1 = s.frame map.domid map.ref ∧ mapBits x.1.1 = op.left (mapBits map.flags) ∧
      x.2.2 = if op.hostAddr ≠ 0 ∧ (mapBits map.flags).host then op.replace else .okay) := by
  have hspec := (unmapPins_spec op map.flags (t.active map.ref)).2
  rw [un.pins] at hspec
  rw [frame_eq un.table]
  rcases hspec with ⟨-, hne, hx⟩ | hx
  · refine .inl ?_
    rw [hx]
    exact ⟨hne, rfl⟩
  · exact .inr hx

theorem pins_le (k : PinKind) : (mapBits x.1.1).pins k ≤ (mapBits map.flags).pins k := by
  rcases un.bits with ⟨-, hx⟩ | ⟨-, hx, -⟩
  · rw [hx]
  · rw [hx]
    exact left_pins_le op _ k

theorem pinned (inv : s.PinInv ld) (h : (mapBits map.flags).any = true) :
    (t.active map.ref).domid = ld ∧
      pinWord (mapBits map.flags).pins ≤ (t.active map.ref).pin.toNat := by
  have hlive : s.live op.handle = some ⟨map.domid, map.ref, mapBits map.flags⟩ := by
    rw [un.live_handle, Maptrack.mapped_of_any h]
  have hword := inv.word map.domid map.ref
  have hne := inv.pinned hlive
  rw [pinFor_eq un.table, Active.pinFor] at hword hne
  have hdom : (t.active map.ref).domid = ld := by
    by_contra hd
    exact hne (if_neg hd)
  rw [if_pos hdom] at hword
  rw [hword]
  exact ⟨hdom, pinWord_mono (pins_le_total hlive)⟩

theorem pinInv (inv : s.PinInv ld) : s'.PinInv ld := by
  have hunpins : Unpins (mapBits map.flags) (mapBits x.1.1) (t.active map.ref).pin x.1.2.pin := by
    rw [← un.pins]
    exact (unmapPins_spec op map.flags (t.active map.ref)).1
  have hdomid : x.1.2.domid = (t.active map.ref).domid := by
    have h := congrArg Active.domid un.unpinned
    exact h
  have hle : ∀ k, (mapBits x.1.1).pins k ≤ (mapBits map.flags).pins k := un.pins_le
  have hpin' : ∀ d ref, s'.pinFor ld d ref =
      (s.setTable map.domid (t.setActive map.ref x.1.2)).pinFor ld d ref :=
    (SameGrants.of_tables un.tables).pin
  have hold : ∀ z ∈ s.live op.handle, z.domid = map.domid ∧ z.ref = map.ref := by
    rw [un.live_handle]
    exact fun z => mapped_grant
  refine inv.update un.live hold (fun z => mapped_grant) (fun d ref hne => ?_) ?_ fun k => ?_
  · rw [hpin', pinFor_setActive un.table, if_neg hne]
  · rw [hpin', pinFor_setActive un.table, if_pos ⟨rfl, rfl⟩, pinFor_eq un.table, un.live_handle,
      handlePins_mapped, handlePins_mapped, Active.pinFor, Active.pinFor, hdomid]
    by_cases hany : (mapBits map.flags).any = true
    · obtain ⟨hdom, hle⟩ := un.pinned inv hany
      rw [if_pos hdom, if_pos hdom]
      exact hunpins hle
    -- no map bit was left, so nothing is taken away
    have hnone := pins_of_not_any (Bool.eq_false_iff.2 hany)
    have hnone' : (mapBits x.1.1).pins = 0 :=
      funext fun k => Nat.le_zero.1 (Nat.le_trans (hle k) (Nat.le_of_eq (congrFun hnone k)))
    have hpin := hunpins (by rw [hnone]; exact Nat.zero_le _)
    rw [hnone, hnone'] at hpin ⊢
    split
    · exact hpin
    · rfl
  · rw [un.live_handle, handlePins_mapped, handlePins_mapped]
    have := inv.few map.domid map.ref k
    have := hle k
    simp only at this ⊢
    omega

end Unmapping

end Unmap

end XenVmi.Grant
