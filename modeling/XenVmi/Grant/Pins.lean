import XenVmi.Grant.Copy

/-!
# The pins of a grant copy

An active entry counts its users in the four bytes of `pin`; a copy takes `hstr` for its source and
`hstw` for its destination. Releasing a destination takes `hstw` of the grant and of the grant
behind it, and the counters of the readers stay only if both have such a pin (`Tables.Nested`).
-/

namespace XenVmi.Grant

open Function

variable {physmap : Nat → Nat → Nat → Prop}

/-! ## Counters -/

/-- The counter of `GNTPIN_hstw_mask` -/
def hstw (pin : BitVec 32) : Nat := pin.toNat % 256

/-- The counter of `GNTPIN_hstr_mask` -/
def hstr (pin : BitVec 32) : Nat := pin.toNat / 256 % 256

def hst (readonly : Bool) (pin : BitVec 32) : Nat := if readonly then hstr pin else hstw pin

theorem lt_of_and_eq_zero {pin : BitVec 32} (h : pin &&& 0x80808080 = 0) :
    hstw pin < 128 ∧ hstr pin < 128 ∧ pin.toNat < 2 ^ 31 := by
  have bit : ∀ i, (0x80808080 : BitVec 32).getLsbD i = true → pin.toNat / 2 ^ i % 2 = 0 := by
    intro i hi
    have hzero : (pin &&& 0x80808080).getLsbD i = false := by
      rw [h]
      exact BitVec.getLsbD_zero
    rw [BitVec.getLsbD_and, hi, Bool.and_true, BitVec.getLsbD, Nat.testBit_eq_decide_div_mod_eq,
      decide_eq_false_iff_not] at hzero
    omega
  have h7 := bit 7 rfl
  have h15 := bit 15 rfl
  have h31 := bit 31 rfl
  rw [hstw, hstr]
  omega

theorem ne_zero_of_hst {readonly : Bool} {pin : BitVec 32} (h : 1 ≤ hst readonly pin) :
    pin ≠ 0 := by
  rintro rfl
  cases readonly <;> exact absurd h (by decide)

theorem writeMask_of_hstw {pin : BitVec 32} (h : 1 ≤ hstw pin) : pin &&& gntpinWriteMask ≠ 0 := by
  intro h0
  have hmask : pin &&& gntpinWriteMask &&& 0xFF = pin &&& 0xFF := by
    rw [BitVec.and_assoc]
    rfl
  have hval : (pin &&& 0xFF).toNat = hstw pin := by
    exact Nat.and_two_pow_sub_one_eq_mod pin.toNat 8
  rw [← hval, ← hmask, h0] at h
  exact absurd h (by decide)

section Counters

variable {readonly : Bool} {pin : BitVec 32}

theorem hst_add (h : pin &&& 0x80808080 = 0) :
    hst readonly (pin + pinHst readonly) = hst readonly pin + 1 ∧
      hst (!readonly) (pin + pinHst readonly) = hst (!readonly) pin ∧
        pin + pinHst readonly ≠ 0 := by
  obtain ⟨hw, hr, hlt⟩ := lt_of_and_eq_zero h
  rw [hstw] at hw
  rw [hstr] at hr
  cases readonly with
  | false =>
    have hval : (pin + pinHst false).toNat = pin.toNat + 1 := by
      exact Nat.mod_eq_of_lt (show pin.toNat + 1 < 2 ^ 32 by omega)
    refine ⟨?_, ?_, fun h0 => ?_⟩
    · simp only [hst, hstw, hval]
      exact show (pin.toNat + 1) % 256 = pin.toNat % 256 + 1 by omega
    · simp only [hst, hstr, hval]
      exact show (pin.toNat + 1) / 256 % 256 = pin.toNat / 256 % 256 by omega
    · rw [h0] at hval
      exact absurd hval.symm (Nat.succ_ne_zero _)
  | true =>
    have hval : (pin + pinHst true).toNat = pin.toNat + 256 := by
      exact Nat.mod_eq_of_lt (show pin.toNat + 256 < 2 ^ 32 by omega)
    refine ⟨?_, ?_, fun h0 => ?_⟩
    · simp only [hst, hstr, hval]
      exact show (pin.toNat + 256) / 256 % 256 = pin.toNat / 256 % 256 + 1 by omega
    · simp only [hst, hstw, hval]
      exact show (pin.toNat + 256) % 256 = pin.toNat % 256 by omega
    · rw [h0] at hval
      exact absurd hval (show (0 : Nat) ≠ pin.toNat + 256 by omega)

theorem hstw_sub_read : hstw (pin - pinHst true) = hstw pin := by
  have hval : (pin - pinHst true).toNat = (2 ^ 32 - 256 + pin.toNat) % 2 ^ 32 := BitVec.toNat_sub ..
  rw [hstw, hstw]
  omega

theorem hstr_sub_write (h : 1 ≤ hstw pin) : hstr (pin - pinHst false) = hstr pin := by
  have hval : (pin - pinHst false).toNat = (2 ^ 32 - 1 + pin.toNat) % 2 ^ 32 := BitVec.toNat_sub ..
  rw [hstw] at h
  rw [hstr, hstr]
  omega

end Counters

/-! ## Tables -/

namespace Tables

variable {tables tables' : Tables} {d e : Nat} {act : Active}

theorem active_setActive (d' e' : Nat) : (tables.setActive d e act).active d' e' =
    if d' = d ∧ e' = e then act else tables.active d' e' := by
  by_cases hd : d' = d
  · subst hd
    simp only [active, setActive, update_self, GrantTable.setActive, true_and]
    exact update_apply _ _ _ _
  · rw [if_neg fun h => hd h.1, active, setActive, update_of_ne hd]
    rfl

theorem active_setActive_self : (tables.setActive d e act).active d e = act := by
  rw [active_setActive, if_pos ⟨rfl, rfl⟩]

theorem version_setActive (d' : Nat) :
    ((tables.setActive d e act) d').version = (tables d').version := by
  by_cases hd : d' = d
  · subst hd
    rw [setActive, update_self]
    rfl
  · rw [setActive, update_of_ne hd]

end Tables

structure Active.Grew (a b : Active) : Prop where
  kept : a.pin ≠ 0 → b = { a with pin := b.pin, gfn := b.gfn }
  pinned : a.pin ≠ 0 → b.pin ≠ 0
  counters : ∀ readonly, hst readonly a.pin ≤ hst readonly b.pin

theorem Active.Grew.refl (a : Active) : a.Grew a :=
  ⟨fun _ => rfl, fun h => h, fun _ => Nat.le_refl _⟩

structure Tables.Grew (tables tables' : Tables) : Prop where
  version : ∀ d, (tables' d).version = (tables d).version
  entries : ∀ d e, (tables.active d e).Grew (tables'.active d e)

theorem Tables.Grew.refl (tables : Tables) : tables.Grew tables :=
  ⟨fun _ => rfl, fun _ _ => .refl _⟩

theorem Tables.Grew.setActive {tables tables' : Tables} {d e : Nat} {act : Active}
    (h : tables.Grew tables') (hact : (tables.active d e).Grew act) :
    tables.Grew (tables'.setActive d e act) where
  version d' := by
    rw [version_setActive, h.version]
  entries d' e' := by
    rw [active_setActive]
    split
    · rename_i he
      obtain ⟨rfl, rfl⟩ := he
      exact hact
    · exact h.entries d' e'

structure Tables.Pins (tables : Tables) (rd gref ldom : Nat) (readonly : Bool) (g : Acquired) :
    Prop where
  domid : (tables.active rd gref).domid = ldom
  counter : 1 ≤ hst readonly (tables.active rd gref).pin
  frame : (tables.active rd gref).frame = g.frame
  start : (tables.active rd gref).start = g.pageOff
  length : (tables.active rd gref).length = g.length

/-! ## Acquiring -/

section Acquire

variable {env : CopyEnv physmap} {tables tables' : Tables} {rd gref ldom : Nat} {readonly : Bool}
  {g : Acquired} {nested : (transDomid transGref : Nat) → Except Status (Tables × Acquired)}

theorem pin_record (act : Active) (ldom : Nat) (g : Granted) :
    (act.record ldom g).pin = act.pin := by
  rw [Active.record]
  split <;> rfl

theorem grew_pin {act act' : Active} (h : act.pin &&& 0x80808080 = 0) (hpin : act'.pin = act.pin)
    (hkept : act.pin ≠ 0 → act' = { act with gfn := act'.gfn }) :
    act.Grew { act' with pin := act'.pin + pinHst readonly } := by
  rw [hpin]
  obtain ⟨hadd, hother, hne⟩ := @hst_add readonly act.pin h
  refine ⟨fun hne => ?_, fun _ => hne, fun r => ?_⟩
  · rw [hkept hne]
  · by_cases hr : r = readonly
    · rw [hr]
      exact Nat.le_of_lt (Nat.lt_of_lt_of_eq (Nat.lt_succ_self _) hadd.symm)
    · rw [(Bool.eq_not_of_ne hr : r = !readonly)]
      exact Nat.le_of_eq hother.symm

theorem readShared_cases {g : Granted}
    (h : readShared env nested tables rd gref readonly = .ok (tables', g)) :
    (tables' = tables ∧ g.td = rd ∧
      ((tables rd).version = 1 ∨ ∀ td tg, env.sharedV2 rd gref ≠ .transitive td tg)) ∨
    ∃ a, env.sharedV2 rd gref = .transitive g.td g.transGref ∧
      nested g.td g.transGref = .ok (tables', a) := by
  have own : ∀ {gfn sub off len}, (ownGrant env rd gref readonly gfn sub off len).map (tables, ·) =
      .ok (tables', g) → tables' = tables ∧ g.td = rd := by
    intro gfn sub off len hown
    rw [ownGrant] at hown
    split at hown
    · cases hown
    · cases hown
      exact ⟨rfl, rfl⟩
  rw [readShared] at h
  split at h
  · rename_i hver
    exact .inl ⟨(own h).1, (own h).2, .inl hver⟩
  split at h
  · rename_i hshared
    exact .inl ⟨(own h).1, (own h).2, .inr fun td tg => by rw [hshared]; simp⟩
  · rename_i hshared
    exact .inl ⟨(own h).1, (own h).2, .inr fun td tg => by rw [hshared]; simp⟩
  rename_i td tg hshared
  split at h
  · cases h
  · rename_i t a hnest
    cases h
    exact .inr ⟨a, hshared, hnest⟩

theorem readShared_grew {g : Granted} (hn : ∀ td tg t a, nested td tg = .ok (t, a) → tables.Grew t)
    (h : readShared env nested tables rd gref readonly = .ok (tables', g)) :
    tables.Grew tables' := by
  rcases readShared_cases h with ⟨rfl, -, -⟩ | ⟨a, -, hnest⟩
  · exact .refl _
  · exact hn _ _ _ a hnest

theorem acquireActive_cases {act : Active} {page : Nat}
    (h : acquireActive env nested tables rd gref ldom readonly = .ok (tables', act, page)) :
    (∃ g, readShared env nested tables rd gref readonly = .ok (tables', g) ∧
      act = (tables.active rd gref).record ldom g) ∨
    (¬ ((tables.active rd gref).pin = 0 ∨
        (readonly = false ∧ (tables.active rd gref).pin &&& gntpinWriteMask = 0)) ∧
      tables' = tables ∧ act = tables.active rd gref) := by
  rw [acquireActive] at h
  split at h
  · split at h
    · cases h
    · split at h
      · cases h
      · rename_i t g hr
        cases h
        exact .inl ⟨g, hr, rfl⟩
  · rename_i hpin
    cases h
    exact .inr ⟨hpin, rfl, rfl⟩

theorem acquireActive_spec {act : Active} {page : Nat}
    (hn : ∀ td tg t a, nested td tg = .ok (t, a) → tables.Grew t)
    (h : acquireActive env nested tables rd gref ldom readonly = .ok (tables', act, page)) :
    tables.Grew tables' ∧ act.pin = (tables.active rd gref).pin ∧
      ((tables.active rd gref).pin ≠ 0 → act = { tables.active rd gref with gfn := act.gfn }) ∧
      ((tables.active rd gref).pin = 0 → act.domid = ldom) := by
  rcases acquireActive_cases h with ⟨g, hread, rfl⟩ | ⟨hpin, rfl, rfl⟩
  · refine ⟨readShared_grew hn hread, pin_record _ _ _, fun hne => ?_, fun h0 => ?_⟩
    · rw [Active.record, if_neg hne]
    · rw [Active.record, if_pos h0]
  · exact ⟨.refl _, rfl, fun _ => rfl, fun h0 => absurd (.inl h0) hpin⟩

theorem acquireWith_eq
    (h : acquireWith env nested tables rd gref ldom readonly = .ok (tables', g)) :
    ∃ t act, acquireActive env nested tables rd gref ldom readonly = .ok (t, act, g.page) ∧
      tables' = t.setActive rd gref { act with pin := act.pin + pinHst readonly } ∧
      g = ⟨act.frame, g.page, act.start, act.length⟩ ∧
      ¬ ((tables.active rd gref).pin ≠ 0 ∧ ((tables.active rd gref).domid ≠ ldom ∨
        (tables.active rd gref).pin &&& 0x80808080 ≠ 0)) := by
  rw [acquireWith] at h
  split at h
  · cases h
  split at h
  · cases h
  rename_i hcheck
  split at h
  · cases h
  · rename_i t act page ha
    cases h
    exact ⟨t, act, ha, rfl, rfl, hcheck⟩

theorem acquireWith_spec (hn : ∀ td tg t a, nested td tg = .ok (t, a) → tables.Grew t)
    (h : acquireWith env nested tables rd gref ldom readonly = .ok (tables', g)) :
    tables.Grew tables' ∧ tables'.Pins rd gref ldom readonly g := by
  obtain ⟨t, act, ha, rfl, hg, hcheck⟩ := acquireWith_eq h
  have hover : (tables.active rd gref).pin &&& 0x80808080 = 0 := by
    by_contra hne
    refine hcheck ⟨fun h0 => ?_, .inr hne⟩
    rw [h0] at hne
    exact hne rfl
  obtain ⟨hgrew, hpin, hkept, hdomid⟩ := acquireActive_spec hn ha
  have hself := @Tables.active_setActive_self t rd gref
    { act with pin := act.pin + pinHst readonly }
  refine ⟨hgrew.setActive (grew_pin hover hpin hkept), ?_, ?_, ?_, ?_, ?_⟩
  · rw [hself]
    by_cases h0 : (tables.active rd gref).pin = 0
    · exact hdomid h0
    · rw [hkept h0]
      by_contra hne
      exact hcheck ⟨h0, .inl hne⟩
  · rw [hself, hpin, (hst_add hover).1]
    exact Nat.le_add_left 1 _
  · rw [hself, hg]
  · rw [hself, hg]
  · rw [hself, hg]

theorem acquireDirect_spec (h : acquireDirect env tables rd gref ldom readonly = .ok (tables', g)) :
    tables.Grew tables' ∧ tables'.Pins rd gref ldom readonly g :=
  acquireWith_spec (fun _ _ _ _ hn => by cases hn) h

theorem acquireNested_eq {td tg : Nat}
    (h : acquireNested env tables rd readonly td tg = .ok (tables', g)) :
    td ≠ rd ∧ acquireDirect env tables td tg rd readonly = .ok (tables', g) := by
  rw [acquireNested] at h
  split at h
  · cases h
  · rename_i hne
    exact ⟨fun heq => hne (.inl heq), h⟩

theorem acquireGrantForCopy_spec
    (h : acquireGrantForCopy env tables rd gref ldom readonly = .ok (tables', g)) :
    tables.Grew tables' ∧ tables'.Pins rd gref ldom readonly g :=
  acquireWith_spec (fun _ _ _ _ hn => (acquireDirect_spec (acquireNested_eq hn).2).1) h

/-! ### Pins for writing -/

/-- If the grant is transitive, the grant behind it has a pin for writing too, and is not
transitive. -/
def Tables.Nested (tables : Tables) (rd gref : Nat) : Prop :=
  let td := (tables.active rd gref).transDomain
  let behind := tables.active td (tables.active rd gref).transGref
  (tables rd).version ≠ 1 → td ≠ rd →
    1 ≤ hstw behind.pin ∧ ((tables td).version = 1 ∨ behind.transDomain = td)

/-- An entry pinned as a transitive grant has no pin for writing, and its shared entry is still the
same. -/
def Steady (env : CopyEnv physmap) (tables : Tables) (rd gref : Nat) : Prop :=
  let act := tables.active rd gref
  (tables rd).version = 1 ∨ act.pin = 0 ∨ act.transDomain = rd ∨
    (act.pin &&& gntpinWriteMask = 0 ∧
      env.sharedV2 rd gref = .transitive act.transDomain act.transGref)

instance : Decidable (Steady env tables rd gref) := inferInstanceAs (Decidable (_ ∨ _ ∨ _ ∨ _))

def SteadyBehind (env : CopyEnv physmap) (tables : Tables) : SharedV2 → Prop
  | .transitive td tg => Steady env tables td tg
  | _ => True

instance : ∀ shared, Decidable (SteadyBehind env tables shared)
  | .transitive td tg => inferInstanceAs (Decidable (Steady env tables td tg))
  | .fullPage _ => inferInstanceAs (Decidable True)
  | .subPage _ _ _ => inferInstanceAs (Decidable True)

def SteadyClaim (env : CopyEnv physmap) (tables : Tables) (rd gref : Nat) : Prop :=
  Steady env tables rd gref ∧ SteadyBehind env tables (env.sharedV2 rd gref)

instance : Decidable (SteadyClaim env tables rd gref) := inferInstanceAs (Decidable (_ ∧ _))

theorem acquireDirect_plain (hs : Steady env tables rd gref)
    (h : acquireDirect env tables rd gref ldom false = .ok (tables', g)) :
    (tables' rd).version = 1 ∨ (tables'.active rd gref).transDomain = rd := by
  have hversion := (acquireDirect_spec h).1.version rd
  rw [hversion]
  obtain ⟨t, act, ha, rfl, -, -⟩ := acquireWith_eq h
  rw [Tables.active_setActive_self]
  by_cases hver : (tables rd).version = 1
  · exact .inl hver
  refine .inr ?_
  rcases acquireActive_cases ha with ⟨g, hread, rfl⟩ | ⟨hpin, -, rfl⟩
  · obtain ⟨-, hown, hplain⟩ : t = tables ∧ g.td = rd ∧ _ :=
      (readShared_cases hread).resolve_right fun ⟨_, _, hn⟩ => by cases hn
    by_cases h0 : (tables.active rd gref).pin = 0
    · rw [Active.record, if_pos h0]
      exact hown
    rw [Active.record, if_neg h0]
    rcases hs with hv | hz | hd | ⟨-, hshared⟩
    · exact absurd hv hver
    · exact absurd hz h0
    · exact hd
    · exact absurd hshared ((hplain.resolve_left hver) _ _)
  · rcases hs with hv | hz | hd | ⟨hmask, -⟩
    · exact absurd hv hver
    · exact absurd (.inl hz) hpin
    · exact hd
    · exact absurd (.inr ⟨rfl, hmask⟩) hpin

theorem nested_of_steadyClaim (hs : SteadyClaim env tables rd gref)
    (h : acquireGrantForCopy env tables rd gref ldom false = .ok (tables', g)) :
    tables'.Nested rd gref := by
  have hversion := (acquireGrantForCopy_spec h).1.version
  obtain ⟨t, act, ha, rfl, -, -⟩ := acquireWith_eq h
  rw [Tables.Nested]
  simp only [hversion, Tables.active_setActive_self]
  intro hver hne
  -- the grant behind it, once it was acquired
  have behind : ∀ {a : Acquired}, env.sharedV2 rd gref = .transitive act.transDomain act.transGref →
      acquireNested env tables rd false act.transDomain act.transGref = .ok (t, a) →
      1 ≤ hstw ((t.setActive rd gref { act with pin := act.pin + pinHst false }).active
        act.transDomain act.transGref).pin ∧ ((tables act.transDomain).version = 1 ∨
      ((t.setActive rd gref { act with pin := act.pin + pinHst false }).active
        act.transDomain act.transGref).transDomain = act.transDomain) := by
    intro a hshared hn
    obtain ⟨-, hdirect⟩ := acquireNested_eq hn
    have hsteady : Steady env tables act.transDomain act.transGref := by
      have hs' := hs.2
      rw [hshared] at hs'
      exact hs'
    obtain ⟨hgrew, hpins⟩ := acquireDirect_spec hdirect
    rw [Tables.active_setActive, if_neg fun h => hne h.1]
    refine ⟨hpins.counter, ?_⟩
    have hplain := acquireDirect_plain hsteady hdirect
    rwa [hgrew.version] at hplain
  rcases acquireActive_cases ha with ⟨g, hread, rfl⟩ | ⟨hpin, rfl, rfl⟩
  · by_cases h0 : (tables.active rd gref).pin = 0
    · have htd : ((tables.active rd gref).record ldom g).transDomain = g.td := by
        rw [Active.record, if_pos h0]
      have htg : ((tables.active rd gref).record ldom g).transGref = g.transGref := by
        rw [Active.record, if_pos h0]
      rcases readShared_cases hread with ⟨-, hown, -⟩ | ⟨a, hshared, hn⟩
      · exact absurd (htd.trans hown) hne
      · refine behind (a := a) ?_ ?_
        · rw [htd, htg, hshared]
        · rw [htd, htg, hn]
    · have hrec : (tables.active rd gref).record ldom g =
          { tables.active rd gref with gfn := g.gfn } := by
        rw [Active.record, if_neg h0]
      rw [hrec] at hne
      rcases hs.1 with hv | hz | hd | ⟨-, hshared⟩
      · exact absurd hv hver
      · exact absurd hz h0
      · exact absurd hd hne
      · rcases readShared_cases hread with ⟨-, -, hown⟩ | ⟨a, hshared', hn⟩
        · exact absurd hshared ((hown.resolve_left hver) _ _)
        · rw [hshared] at hshared'
          injection hshared' with htd htg
          rw [← htd, ← htg] at hn
          refine behind (a := a) ?_ ?_
          · rw [hrec]
            exact hshared
          · rw [hrec]
            exact hn
  · rcases hs.1 with hv | hz | hd | ⟨hmask, -⟩
    · exact absurd hv hver
    · exact absurd (.inl hz) hpin
    · exact absurd hd hne
    · exact absurd (.inr ⟨rfl, hmask⟩) hpin

end Acquire

/-! ## Releasing -/

structure Tables.Shed (readonly : Bool) (tables tables' : Tables) : Prop where
  version : ∀ d, (tables' d).version = (tables d).version
  entries : ∀ d e, tables'.active d e = { tables.active d e with pin := (tables'.active d e).pin }
  counters : ∀ d e, hst (!readonly) (tables'.active d e).pin =
    hst (!readonly) (tables.active d e).pin

namespace Tables

variable {readonly : Bool} {tables tables' tables'' : Tables} {rd gref n : Nat}

theorem Shed.refl (readonly : Bool) (tables : Tables) : tables.Shed readonly tables :=
  ⟨fun _ => rfl, fun _ _ => rfl, fun _ _ => rfl⟩

theorem Shed.trans (h : tables.Shed readonly tables') (h' : tables'.Shed readonly tables'') :
    tables.Shed readonly tables'' where
  version d := (h'.version d).trans (h.version d)
  entries d e := by
    rw [h'.entries d e, h.entries d e]
  counters d e := (h'.counters d e).trans (h.counters d e)

theorem shed_pin {pin : BitVec 32}
    (h : hst (!readonly) pin = hst (!readonly) (tables.active rd gref).pin) :
    tables.Shed readonly (tables.setActive rd gref { tables.active rd gref with pin := pin }) where
  version d := version_setActive d
  entries d e := by
    rw [active_setActive]
    split
    · rename_i he
      obtain ⟨rfl, rfl⟩ := he
      rfl
    · rfl
  counters d e := by
    rw [active_setActive]
    split
    · rename_i he
      obtain ⟨rfl, rfl⟩ := he
      exact h
    · rfl

end Tables

section Release

variable {tables tables' : Tables} {rd gref n : Nat}

theorem releaseGrantForCopy_read (h : releaseGrantForCopy n tables rd gref true = .ok tables') :
    tables.Shed true tables' := by
  induction n generalizing tables rd gref with
  | zero => cases h
  | succ n ih =>
    rw [releaseGrantForCopy] at h
    have first : tables.Shed true (tables.setActive rd gref
        { tables.active rd gref with pin := (tables.active rd gref).pin - pinHst true }) :=
      Tables.shed_pin hstw_sub_read
    generalize (if (tables rd).version = 1 then rd else (tables.active rd gref).transDomain) =
      td at h
    split at h
    · cases h
      exact first
    split at h
    · rename_i hw
      cases hw.1
    · split at h
      · exact first.trans (ih h)
      · cases h
        exact first

theorem releaseGrantForCopy_plain (hpin : 1 ≤ hstw (tables.active rd gref).pin)
    (hplain : (tables rd).version = 1 ∨ (tables.active rd gref).transDomain = rd)
    (h : releaseGrantForCopy n tables rd gref false = .ok tables') : tables.Shed false tables' := by
  cases n with
  | zero => cases h
  | succ n =>
    rw [releaseGrantForCopy] at h
    have htd : (if (tables rd).version = 1 then rd else (tables.active rd gref).transDomain) =
        rd := by
      split
      · rfl
      · rename_i hver
        exact hplain.resolve_left hver
    rw [if_pos htd] at h
    cases h
    exact Tables.shed_pin (hstr_sub_write hpin)

theorem releaseGrantForCopy_write (hpin : 1 ≤ hstw (tables.active rd gref).pin)
    (hnested : tables.Nested rd gref)
    (h : releaseGrantForCopy n tables rd gref false = .ok tables') : tables.Shed false tables' := by
  by_cases hver : (tables rd).version = 1
  · exact releaseGrantForCopy_plain hpin (.inl hver) h
  by_cases htd : (tables.active rd gref).transDomain = rd
  · exact releaseGrantForCopy_plain hpin (.inr htd) h
  cases n with
  | zero => cases h
  | succ n =>
    rw [releaseGrantForCopy] at h
    simp only [if_neg hver, if_neg htd] at h
    have first : tables.Shed false (tables.setActive rd gref
        { tables.active rd gref with pin := (tables.active rd gref).pin - pinHst false }) :=
      Tables.shed_pin (hstr_sub_write hpin)
    obtain ⟨hbehind, hplain⟩ := hnested hver htd
    split at h
    · refine first.trans (releaseGrantForCopy_plain ?_ ?_ h)
      · rw [Tables.active_setActive, if_neg fun he => htd he.1]
        exact hbehind
      · rw [Tables.version_setActive, Tables.active_setActive, if_neg fun he => htd he.1]
        exact hplain
    split at h
    · rename_i hw h0
      -- without any pin there is no pin for writing either
      refine absurd ⟨trivial, ?_⟩ hw
      rw [h0]
      rfl
    · cases h
      exact first

end Release

end XenVmi.Grant
