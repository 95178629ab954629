import XenVmi.Grant.MapPages

/-!
# What one operation does to references and rights

The operations of `Grant/MapPages.lean` in terms of the mappings of the maptrack.
-/

namespace XenVmi.Grant

open Function XenVmi.Lib List

variable {c : Config} {env : PageEnv}

/-! ## `mapkind` -/

/-- There are mappings of `mfn` from the domain `rd`, and writable ones. -/
structure KindOf (live : Nat → Option Mapped) (frame : Nat → Nat → Nat) (rd mfn : Nat)
    (kind : MapKind) : Prop where
  write : kind.write = true ↔ ∃ e x, live e = some x ∧ x.domid = rd ∧ frame rd x.ref = mfn ∧
    x.bits.readonly = false
  any : (kind.read = true ∨ kind.write = true) ↔ ∃ e x, live e = some x ∧ x.domid = rd ∧
    frame rd x.ref = mfn

def Maptrack.Finds (m : Maptrack) (t : GrantTable) (rd mfn handle : Nat) : Prop :=
  (m.entry handle).flags &&& gntmapMaps ≠ 0 ∧ (m.entry handle).domid = rd ∧
    (t.active (m.entry handle).ref).frame = mfn

theorem mapkindFrom_spec {m : Maptrack} {t : GrantTable} {rd : Nat} (mfn : Nat)
    {handles : List Nat} (kind : MapKind)
    (hback : ∀ e ∈ handles, (m.entry e).flags &&& gntmapMaps ≠ 0 → (m.entry e).domid = rd →
      (m.entry e).ref < t.nrActiveEntries) :
    ∃ kind', m.mapkindFrom t rd mfn kind handles = .ok kind' ∧
      (kind'.write = true ↔ kind.write = true ∨ ∃ e ∈ handles, m.Finds t rd mfn e ∧
        (m.entry e).flags &&& gntmapReadonly = 0) ∧
      ((kind'.read = true ∨ kind'.write = true) ↔ (kind.read = true ∨ kind.write = true) ∨
        ∃ e ∈ handles, m.Finds t rd mfn e) := by
  induction handles generalizing kind with
  | nil => exact ⟨kind, rfl, by simp, by simp⟩
  | cons e handles ih =>
    have hback' : ∀ a ∈ handles, (m.entry a).flags &&& gntmapMaps ≠ 0 → (m.entry a).domid = rd →
        (m.entry a).ref < t.nrActiveEntries := fun a ha => hback a (mem_cons_of_mem e ha)
    rw [Maptrack.mapkindFrom]
    split
    · rename_i hw
      exact ⟨kind, rfl, by simp [hw], by simp [hw]⟩
    simp only
    split
    · rename_i hskip
      have hno : ¬ m.Finds t rd mfn e := fun h => hskip.elim h.1 fun hd => hd h.2.1
      obtain ⟨kind', h, hwrite, hany⟩ := ih kind hback'
      exact ⟨kind', h, by simp [hwrite, hno], by simp [hany, hno]⟩
    rename_i hw hskip
    rw [not_or, not_not] at hskip
    rw [GrantTable.activeEntryAcquire_ok (hback e mem_cons_self hskip.1 hskip.2), ok_bind]
    split
    · rename_i hframe
      have hyes : m.Finds t rd mfn e := ⟨hskip.1, hskip.2, hframe⟩
      by_cases hr : (m.entry e).flags &&& gntmapReadonly = 0
      · rw [if_neg (not_not.2 hr)]
        obtain ⟨kind', h, hwrite, hany⟩ := ih { kind with write := true } hback'
        refine ⟨kind', h, ?_, ?_⟩
        · rw [hwrite]
          exact iff_of_true (.inl rfl) (.inr ⟨e, mem_cons_self, hyes, hr⟩)
        · rw [hany]
          exact iff_of_true (.inl (.inr rfl)) (.inr ⟨e, mem_cons_self, hyes⟩)
      rw [if_pos hr]
      obtain ⟨kind', h, hwrite, hany⟩ := ih { kind with read := true } hback'
      refine ⟨kind', h, ?_, ?_⟩
      · rw [hwrite, exists_mem_cons_iff]
        exact or_congr Iff.rfl (by rw [or_iff_right fun h => hr h.2])
      · rw [hany]
        exact iff_of_true (.inl (.inl rfl)) (.inr ⟨e, mem_cons_self, hyes⟩)
    · rename_i hframe
      have hno : ¬ m.Finds t rd mfn e := fun h => hframe h.2.2
      obtain ⟨kind', h, hwrite, hany⟩ := ih kind hback'
      exact ⟨kind', h, by simp [hwrite, hno], by simp [hany, hno]⟩

theorem live_iff {s : State} {e : Nat} {x : Mapped} : s.live e = some x ↔
    e < s.maptrack.limit ∧ (s.maptrack.entry e).flags &&& gntmapMaps ≠ 0 ∧
      x = ⟨(s.maptrack.entry e).domid, (s.maptrack.entry e).ref,
        mapBits (s.maptrack.entry e).flags⟩ := by
  unfold State.live Maptrack.live GrantMapping.mapped
  rw [any_mapBits (by decide)]
  constructor
  · intro h
    split at h
    · rename_i he
      split at h
      · rename_i hf
        exact ⟨he, of_decide_eq_true hf, (Option.some.inj h).symm⟩
      · cases h
    · cases h
  · rintro ⟨he, hf, rfl⟩
    rw [if_pos he, if_pos (decide_eq_true hf)]

theorem mapkind_spec {s : State} {t : GrantTable} {rd : Nat} (hback : s.Backed)
    (ht : s.tables rd = some t) (mfn : Nat) :
    ∃ kind, s.maptrack.mapkind t rd mfn = .ok kind ∧ KindOf s.live s.frame rd mfn kind := by
  have hrefs : ∀ e ∈ List.range s.maptrack.limit, (s.maptrack.entry e).flags &&& gntmapMaps ≠ 0 →
      (s.maptrack.entry e).domid = rd → (s.maptrack.entry e).ref < t.nrActiveEntries := by
    intro e he hf hd
    refine (hback e (mem_range.1 he) (fun h0 => hf ?_) t (hd ▸ ht)).2
    rw [h0]
    rfl
  have hfinds : ∀ e, (e ∈ List.range s.maptrack.limit ∧ s.maptrack.Finds t rd mfn e) ↔
      ∃ x, s.live e = some x ∧ x.domid = rd ∧ s.frame rd x.ref = mfn := by
    intro e
    rw [mem_range]
    constructor
    · rintro ⟨he, hf, hd, hframe⟩
      exact ⟨_, live_iff.2 ⟨he, hf, rfl⟩, hd, (frame_eq ht).trans hframe⟩
    · rintro ⟨x, hx, hd, hframe⟩
      obtain ⟨he, hf, rfl⟩ := live_iff.1 hx
      exact ⟨he, hf, hd, (frame_eq ht).symm.trans hframe⟩
  obtain ⟨kind, h, hwrite, hany⟩ := mapkindFrom_spec mfn ⟨false, false⟩ hrefs
  refine ⟨kind, h, ?_, ?_⟩
  · rw [hwrite]
    simp only [Bool.false_eq_true, false_or]
    constructor
    · rintro ⟨e, he, hf, hr⟩
      obtain ⟨x, hx, hd, hframe⟩ := (hfinds e).1 ⟨he, hf⟩
      refine ⟨e, x, hx, hd, hframe, ?_⟩
      obtain ⟨-, -, rfl⟩ := live_iff.1 hx
      exact decide_eq_false (not_not.2 hr)
    · rintro ⟨e, x, hx, hd, hframe, hr⟩
      obtain ⟨he, hf⟩ := (hfinds e).2 ⟨x, hx, hd, hframe⟩
      refine ⟨e, he, hf, ?_⟩
      obtain ⟨-, -, rfl⟩ := live_iff.1 hx
      exact not_not.1 (of_decide_eq_false hr)
  · rw [hany]
    simp only [Bool.false_eq_true, false_or]
    constructor
    · rintro ⟨e, he, hf⟩
      exact ⟨e, (hfinds e).1 ⟨he, hf⟩⟩
    · rintro ⟨e, hx⟩
      obtain ⟨he, hf⟩ := (hfinds e).2 hx
      exact ⟨e, he, hf⟩

/-! ## Mapping -/

/-- A map operation gave up: of the references it took those for `nr_gets` are given back. -/
structure MapUndone (c : Config) (env : PageEnv) (x : PageMap) (s s' : PageState) : Prop where
  live : s'.state.live = s.state.live
  same : SameGrants c.domid s.state s'.state
  rights : s'.rights = s.rights
  refs : s'.refs = s.refs ∨ ∃ f, s'.refs = s.refs + Pi.single f (mapPages c env x f).refs
    + Pi.single f (-mapPuts c env x.op (mapPages c env x f).nrGets)

structure MapDone (c : Config) (env : PageEnv) (x : PageMap) (s s' : PageState) (e : Nat)
    (t : GrantTable) (act : Active) : Prop where
  table : s.state.tables x.op.dom = some t
  new : NewPin c x.op (t.active x.op.ref) act
  pin : mapPin c t x.op = .ok act
  free : s.state.live e = none
  live : s'.state.live =
    update s.state.live e (some ⟨x.op.dom, x.op.ref, mapBits x.op.flags⟩)
  tables : s'.state.tables = (s.state.setTable x.op.dom (t.setActive x.op.ref act)).tables
  got : (mapPages c env x act.frame).status = .okay
  refs : s'.refs = s.refs + Pi.single act.frame (mapPages c env x act.frame).refs
  rights : c.needIommu = true → ∃ kind, KindOf s.state.live s'.state.frame x.op.dom act.frame kind ∧
    s'.rights = (s.enter act.frame (mapRequest act.pin (t.active x.op.ref).pin kind)).rights

section Done

variable {x : PageMap} {s s' : PageState} {e : Nat} {t : GrantTable} {act : Active}

variable (done : MapDone c env x s s' e t act)

include done

theorem MapDone.frame (d ref : Nat) : s'.state.frame d ref =
    (s.state.setTable x.op.dom (t.setActive x.op.ref act)).frame d ref := by
  rw [State.frame, State.activeOf, done.tables]
  rfl

theorem MapDone.frame_new : s'.state.frame x.op.dom x.op.ref = act.frame := by
  rw [done.frame, frame_setActive done.table, if_pos ⟨rfl, rfl⟩]

theorem MapDone.frame_live {a : Nat} {y : Mapped}
    (pins : s.state.PinInv c.domid) (h : s.state.live a = some y) :
    s'.state.frame y.domid y.ref = s.state.frame y.domid y.ref := by
  rw [done.frame, done.new.frame_same done.table rfl (pins.pinned h)]

end Done

theorem enter_refs (s : PageState) (f : Nat) (r : Option Rights) : (s.enter f r).refs = s.refs := by
  cases r <;> rfl

theorem enter_rights {s s' : PageState} {f : Nat} (r : Option Rights) (h : s'.rights = s.rights) :
    (s'.enter f r).rights = (s.enter f r).rights := by
  cases r with
  | none => exact h
  | some r => exact congrArg (update · f r) h

theorem live_of_flags {s : State} {e : Nat} (h : (s.maptrack.entry e).flags = 0) :
    s.live e = none := by
  unfold State.live Maptrack.live
  rw [Maptrack.mapped_of_flags_zero h, ite_self]

section Map

variable {s : PageState} {t : GrantTable} {x : PageMap} {e : Nat} {lists : Nat → List Nat}

theorem mapUndo_spec {act : Active} {gets : Gets} (rc : Status)
    (inv : s.state.maptrack.Inv (insert e ∅) lists) (hflags : (s.state.maptrack.entry e).flags = 0)
    (hback : s.state.Backed) (ht : s.state.tables x.op.dom = some t)
    (new : NewPin c x.op (t.active x.op.ref) act) (hgets : mapPages c env x act.frame = gets) :
    ∃ r, (s.get act.frame gets.refs).mapUndo c env t x.op e act gets.nrGets rc = .ok r ∧
      r.1.state.Inv ∧ MapUndone c env x s r.1 := by
  obtain ⟨m, hput, hinv⟩ := putBack_inv (s := s.state.setTable x.op.dom (t.setActive x.op.ref
    { act with pin := act.pin - pinInc x.op.flags })) inv hflags (hback.setTable ht rfl rfl)
  have hput' : s.state.maptrack.putMaptrackHandle e = .ok m := hput
  have hlive : m.live = s.state.maptrack.live := inv.put_live (Set.mem_insert e ∅) hflags hput'
  have hundo := new.undo ht
  have hr : (s.get act.frame gets.refs).mapUndo c env t x.op e act gets.nrGets rc =
      .ok (((s.get act.frame gets.refs).get act.frame (-mapPuts c env x.op gets.nrGets)).setState
        { s.state.setTable x.op.dom (t.setActive x.op.ref
            { act with pin := act.pin - pinInc x.op.flags }) with maptrack := m }, rc) := by
    unfold PageState.mapUndo PageState.get
    simp only [hput', ok_bind]
    rfl
  refine ⟨_, hr, hinv, hlive, ⟨hundo.pin, hundo.frame⟩, rfl, .inr ⟨act.frame, ?_⟩⟩
  rw [hgets]
  rfl

theorem mapIommu_spec {st : State} {op : MapOp} (act : Active) (oldPin : BitVec 32)
    (hback : st.Backed) (ht : st.tables op.dom = some t) :
    ∃ request, mapIommu c st.maptrack (t.setActive op.ref act) op.dom act oldPin = .ok request ∧
      (c.needIommu = true → ∃ kind,
        KindOf st.live (st.setTable op.dom (t.setActive op.ref act)).frame op.dom act.frame kind ∧
        request = mapRequest act.pin oldPin kind) := by
  have hback' : (st.setTable op.dom (t.setActive op.ref act)).Backed := hback.setTable ht rfl rfl
  obtain ⟨kind, hkind, hof⟩ := mapkind_spec hback' (update_self _ _ _) act.frame
  have hkind' : st.maptrack.mapkind (t.setActive op.ref act) op.dom act.frame = .ok kind := hkind
  unfold mapIommu
  split
  · exact ⟨_, by rw [hkind']; rfl, fun _ => ⟨kind, hof, rfl⟩⟩
  · rename_i hneed
    exact ⟨none, rfl, fun h => absurd h hneed⟩

theorem mapSuccess_inv {act : Active} (inv : s.state.maptrack.Inv (insert e ∅) lists)
    (hflags : (s.state.maptrack.entry e).flags = 0) (hback : s.state.Backed)
    (ht : s.state.tables x.op.dom = some t) (hmaps : x.op.flags &&& gntmapMaps ≠ 0)
    (hpin : mapPin c t x.op = .ok act) :
    State.Inv { s.state.setTable x.op.dom (t.setActive x.op.ref act) with
      maptrack := s.state.maptrack.setEntry e { s.state.maptrack.entry e with
        domid := x.op.dom, ref := x.op.ref, flags := x.op.flags.setWidth 16 } } := by
  have hbase : ∃ r, Grant.mapWithHandle c s.state t
      { x.op with hostMapping := .okay, iommu := true } e = .ok r ∧ r.1.Inv :=
    mapWithHandle_inv inv hflags hback ht hmaps
  have hpin' : mapPin c t { x.op with hostMapping := .okay, iommu := true } = .ok act := hpin
  have hout : mapOutcome c { x.op with hostMapping := .okay, iommu := true } = .okay := by
    simp [mapOutcome]
  unfold Grant.mapWithHandle at hbase
  simp only [hpin', hout, if_true] at hbase
  obtain ⟨r, hr, hinv⟩ := hbase
  cases hr
  exact hinv

theorem mapWithHandle_spec (inv : s.state.maptrack.Inv (insert e ∅) lists)
    (hflags : (s.state.maptrack.entry e).flags = 0) (hback : s.state.Backed)
    (ht : s.state.tables x.op.dom = some t) (hmaps : x.op.flags &&& gntmapMaps ≠ 0) :
    ∃ r, s.mapWithHandle c env t x e = .ok r ∧ r.1.state.Inv ∧
      (MapUndone c env x s r.1 ∨ ∃ e t act, MapDone c env x s r.1 e t act) := by
  unfold PageState.mapWithHandle
  cases hpin : mapPin c t x.op with
  | error rc =>
    obtain ⟨m, hput, hinv⟩ := putBack_inv inv hflags hback
    have hlive := inv.put_live (Set.mem_insert e ∅) hflags hput
    simp only [hput, ok_bind]
    exact ⟨_, rfl, hinv, .inl ⟨hlive, .of_tables rfl, rfl, .inl rfl⟩⟩
  | ok act =>
    have new := mapPin_spec hpin
    simp only
    obtain ⟨gets, hgets⟩ : ∃ gets, mapPages c env x act.frame = gets := ⟨_, rfl⟩
    rw [hgets]
    have hundo : ∀ rc, ∃ r, (s.get act.frame gets.refs).mapUndo c env t x.op e act gets.nrGets rc =
        .ok r ∧ r.1.state.Inv ∧
          (MapUndone c env x s r.1 ∨ ∃ e t act, MapDone c env x s r.1 e t act) := by
      intro rc
      obtain ⟨r, hr, hinv, hundone⟩ := mapUndo_spec rc inv hflags hback ht new hgets
      exact ⟨r, hr, hinv, .inl hundone⟩
    split
    · exact hundo _
    rename_i hstatus
    obtain ⟨request, hrequest, hkind⟩ :=
      mapIommu_spec act (t.active x.op.ref).pin hback ht
    have hrequest' : mapIommu c (s.get act.frame gets.refs).state.maptrack
        (t.setActive x.op.ref act) x.op.dom act (t.active x.op.ref).pin = .ok request := hrequest
    rw [hrequest', ok_bind]
    split
    · exact hundo _
    refine ⟨_, rfl, mapSuccess_inv inv hflags hback ht hmaps hpin, .inr ⟨e, t, act, ht, new, hpin,
      live_of_flags hflags, ?_, rfl, ?_, ?_, fun hneed => ?_⟩⟩
    · refine (Maptrack.live_setEntry (inv.transit e (Set.mem_insert e ∅))).trans ?_
      rw [Maptrack.mapped_of_any]
      · simp only [mapBits_setWidth]
        rfl
      · rw [any_mapBits (by decide), decide_eq_true_eq]
        exact setWidth_and_gntmapMaps_ne_zero hmaps
    · rw [hgets]
      exact not_not.1 hstatus
    · rw [hgets]
      exact enter_refs _ _ _
    · obtain ⟨kind, hof, rfl⟩ := hkind hneed
      exact ⟨kind, hof, enter_rights _ rfl⟩

theorem mapGrantRef_spec (env : PageEnv) {curr : Nat} (inv : s.state.Inv)
    (hcurr : s.state.maptrack.vcpu curr ≠ none)
    (hs : s.state.maptrack.stealsSentinel c curr x.op.luck = false) :
    ∃ r, s.mapGrantRef c env curr x = .ok r ∧ r.1.state.Inv ∧
      (MapUndone c env x s r.1 ∨ ∃ e t act, MapDone c env x s r.1 e t act) := by
  have hsame : MapUndone c env x s s := ⟨rfl, .of_tables rfl, rfl, .inl rfl⟩
  unfold PageState.mapGrantRef
  split
  · exact ⟨_, rfl, inv, .inl hsame⟩
  rename_i hmaps
  split
  · exact ⟨_, rfl, inv, .inl hsame⟩
  cases ht : s.state.tables x.op.dom with
  | none => exact ⟨_, rfl, inv, .inl hsame⟩
  | some t =>
    simp only
    split
    · exact ⟨_, rfl, inv, .inl hsame⟩
    obtain ⟨lists, hm⟩ := inv.maptrack
    rcases hm.getMaptrackHandle hcurr hs with hget | ⟨e, m, hget, took⟩
    · simp only [hget]
      exact ⟨_, rfl, inv, .inl hsame⟩
    simp only [hget]
    obtain ⟨lists', hinv⟩ := took.inv
    have hlive : m.live = s.state.maptrack.live := Maptrack.getMaptrackHandle_live hget
    have hback : State.Backed { s.state with maptrack := m } := by
      refine inv.backed.mono_of_eq (fun a ha hf => took.other a ?_ ha hf) rfl
      rintro rfl
      exact hf took.flags
    let s₁ := s.setState { s.state with maptrack := m }
    have hspec : ∃ r, s₁.mapWithHandle c env t x e = .ok r ∧ r.1.state.Inv ∧
        (MapUndone c env x s₁ r.1 ∨ ∃ e t act, MapDone c env x s₁ r.1 e t act) :=
      mapWithHandle_spec hinv took.flags hback ht hmaps
    obtain ⟨r, hr, hinv', heffect⟩ := hspec
    refine ⟨r, hr, hinv', ?_⟩
    -- the handle is taken, which is not seen in the mappings
    rcases heffect with h | ⟨e', t', act, h⟩
    · exact .inl ⟨h.live.trans hlive, ⟨h.same.pin, h.same.frame⟩, h.rights, h.refs⟩
    refine .inr ⟨e', t', act, h.table, h.new, h.pin, ?_, ?_, h.tables, h.got, h.refs, ?_⟩
    · exact (congrFun hlive e').symm.trans h.free
    · rw [h.live]
      exact congrArg (update · e' _) hlive
    · intro hneed
      obtain ⟨kind, hof, hrights⟩ := h.rights hneed
      refine ⟨kind, ?_, hrights.trans (enter_rights _ rfl)⟩
      have hlive' : s₁.state.live = s.state.live := hlive
      rwa [hlive'] at hof

end Map

/-! ## Unmapping -/

section Unmap

variable {s : PageState} {op : Unmap}

theorem unmapCommon_iommu (st : State) (h : c.needIommu → op.iommu = true) :
    Grant.unmapCommon c st { op with iommu := true } = Grant.unmapCommon c st op := by
  by_cases hneed : c.needIommu = true
  · rw [← h hneed]
  · have hpins : ∀ flags act, unmapPins { op with iommu := true } flags act =
        unmapPins op flags act := fun _ _ => rfl
    unfold Grant.unmapCommon
    simp only [hneed, hpins, Bool.false_eq_true, false_and, and_false, if_false]

def UnmapRights (c : Config) (s s' : PageState) (u : UnmapCommon) : Prop :=
  (s'.rights = s.rights ∧ (c.needIommu = true → u.rd ≠ none → u.status ≠ .okay)) ∨
    ∃ rd kind, u.rd = some rd ∧ u.status = .okay ∧
      KindOf s'.state.live s'.state.frame rd u.frame kind ∧
      s'.rights = (s.enter u.frame (unmapRequest kind)).rights

theorem unmapCommon_page (hback : s.state.Backed) (hiommu : c.needIommu → op.iommu = true) :
    ∃ s' u, s.unmapCommon c op = .ok (s', u) ∧ Grant.unmapCommon c s.state op = .ok (s'.state, u) ∧
      s'.refs = s.refs ∧ UnmapRights c s s' u := by
  obtain ⟨st, u, hst, drop, -⟩ := unmapCommon_spec hback op
  unfold PageState.unmapCommon
  rw [unmapCommon_iommu _ hiommu, hst, ok_bind]
  simp only
  cases hrd : u.rd with
  | none => exact ⟨_, _, rfl, rfl, rfl, .inl ⟨rfl, fun _ h => absurd hrd h⟩⟩
  | some rd =>
    obtain ⟨t, ht⟩ : ∃ t, st.tables rd = some t := by
      rcases unmapCommon_cases hst with ⟨hnone, -⟩ | ⟨t, map, x, un⟩
      · rw [hrd] at hnone
        cases hnone
      · rw [un.noted] at hrd
        cases hrd
        rw [un.tables]
        exact ⟨_, update_self _ _ _⟩
    simp only [ht]
    split
    · rename_i hok
      obtain ⟨kind, hkind, hof⟩ := mapkind_spec (drop.backed hback) ht u.frame
      rw [hkind, ok_bind, if_neg fun h => absurd (hiommu hok.2) (by rw [h.2]; decide)]
      exact ⟨_, _, rfl, rfl, enter_refs _ _ _, .inr ⟨rd, kind, hrd, hok.1, hof, rfl⟩⟩
    · rename_i hno
      exact ⟨_, _, rfl, rfl, rfl, .inl ⟨rfl, fun hneed _ hok => hno ⟨hok, hneed⟩⟩⟩

variable {ops : List Unmap} {P : PageState → Prop}

theorem unmapBatchCommon_page (hback : s.state.Backed)
    (hiommu : ∀ op ∈ ops, c.needIommu → op.iommu = true)
    (keeps : ∀ s op s' u, (c.needIommu → op.iommu = true) →
      Grant.unmapCommon c s.state op = .ok (s'.state, u) → UnmapRights c s s' u → P s → P s')
        (init : P s) :
    ∃ s' us, s.unmapBatchCommon c ops = .ok (s', us) ∧
      Grant.unmapBatchCommon c s.state ops = .ok (s'.state, us) ∧ s'.refs = s.refs ∧ P s' := by
  induction ops generalizing s with
  | nil => exact ⟨s, [], rfl, rfl, rfl, init⟩
  | cons op ops ih =>
    obtain ⟨s₁, u, h₁, hst, hrefs, hrights⟩ := unmapCommon_page hback (hiommu op mem_cons_self)
    obtain ⟨st, u', hst', drop, -⟩ := unmapCommon_spec hback op
    rw [hst] at hst'
    cases hst'
    obtain ⟨s', us, h', hst', hrefs', hP⟩ := ih (drop.backed hback)
      (fun op hop => hiommu op (mem_cons_of_mem _ hop))
        (keeps s op s₁ u (hiommu op mem_cons_self) hst hrights init)
    refine ⟨s', u :: us, ?_, ?_, hrefs'.trans hrefs, hP⟩
    · rw [PageState.unmapBatchCommon, h₁]
      simp only [h', ok_bind]
      rfl
    · rw [Grant.unmapBatchCommon, hst]
      simp only [hst', ok_bind]
      rfl

theorem puts_congr {st st' : State} {u : UnmapCommon} (htables : st'.tables = st.tables)
    (h : u.rd ≠ none → st'.maptrack.entry u.handle = st.maptrack.entry u.handle) :
    u.puts c env st' = u.puts c env st := by
  unfold UnmapCommon.puts
  cases hrd : u.rd with
  | none => rfl
  | some rd => rw [htables, h (by rw [hrd]; exact Option.some_ne_none rd)]

theorem foldlM_complete_page (env : PageEnv) {us : List UnmapCommon}
    (comp : Completing s.state us) :
    ∃ s', us.foldlM (PageState.unmapCommonComplete c env) s = .ok s' ∧ s'.state.Inv ∧
      s'.state.live = s.state.live ∧ s'.state.tables = s.state.tables ∧ s'.rights = s.rights ∧
      s'.refs = s.refs - (us.map fun u => u.puts c env s.state).sum := by
  induction us generalizing s with
  | nil =>
    obtain ⟨st, hst, inv⟩ := comp.foldlM
    cases hst
    exact ⟨s, rfl, inv, rfl, rfl, rfl, by simp⟩
  | cons u us ih =>
    obtain ⟨st, hst, comp'⟩ := comp.unmapCommonComplete
    have done := comp.completed hst
    let s₁ : PageState := { s with state := st, refs := s.refs - u.puts c env s.state }
    have h₁ : PageState.unmapCommonComplete c env s u = .ok s₁ := by
      unfold PageState.unmapCommonComplete
      rw [hst]
      rfl
    obtain ⟨s', h', inv, hlive, htables, hrights, hrefs⟩ := ih (s := s₁) comp'
    have hsum : (us.map fun v => v.puts c env s₁.state) = us.map fun v => v.puts c env s.state :=
      map_congr_left fun v hv => puts_congr done.tables (done.entry v hv)
    refine ⟨s', by rw [foldlM_cons, h₁, ok_bind, h'], inv, hlive.trans done.live,
      htables.trans done.tables, hrights, ?_⟩
    rw [hrefs, hsum, map_cons, sum_cons, sub_add_eq_sub_sub]

/-- A batch of unmap operations, with the state `s₁` between its phases. -/
structure UnmapBatch (c : Config) (env : PageEnv) (s : PageState) (ops : List Unmap)
    (s₁ : PageState) (us : List UnmapCommon) (s' : PageState) : Prop where
  common : Grant.unmapBatchCommon c s.state ops = .ok (s₁.state, us)
  state : s'.state.Inv
  live : s'.state.live = s₁.state.live
  tables : s'.state.tables = s₁.state.tables
  rights : s'.rights = s₁.rights
  refs : s'.refs = s.refs - (us.map fun u => u.puts c env s₁.state).sum

theorem unmapBatch_page (env : PageEnv) (inv : s.state.Inv) (ha : Admits c s.state (.unmap ops))
    (keeps : ∀ s op s' u, (c.needIommu → op.iommu = true) →
      Grant.unmapCommon c s.state op = .ok (s'.state, u) → UnmapRights c s s' u → P s → P s')
        (init : P s) :
    ∃ s₁ us s', s.unmapBatch c env ops = .ok s' ∧ UnmapBatch c env s ops s₁ us s' ∧ P s₁ := by
  obtain ⟨hiommu, hrep⟩ := ha
  obtain ⟨s₁, us, h₁, hst, hrefs, hP⟩ := unmapBatchCommon_page inv.backed hiommu keeps init
  obtain ⟨st, us', hst', drop, live, same, settled⟩ := unmapBatchCommon_spec inv.backed hiommu
  rw [hst] at hst'
  cases hst'
  have hapart : us.Pairwise s₁.state.Apart := (unmapBatchCommon_leaves inv.backed hst).2.2 hrep
  obtain ⟨s', h', inv', hlive, htables, hrights, hrefs'⟩ := foldlM_complete_page env
    (drop.completing inv live same hapart (settled hapart))
  refine ⟨s₁, us, s', ?_, ⟨hst, inv', hlive, htables, hrights, by rw [hrefs', hrefs]⟩, hP⟩
  rw [PageState.unmapBatch, h₁]
  exact h'

end Unmap

theorem initVcpu_live (m : Maptrack) (v : Nat) : (m.initVcpu v).live = m.live := by
  unfold Maptrack.initVcpu
  split <;> rfl

end XenVmi.Grant
