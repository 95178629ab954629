import XenVmi.Grant.Pins

/-!
# Grant copies are authorised

`gnttab_copy` decides what may be accessed when it locks a domain and claims a buffer, and not again
when it reuses them. `gnttab_copy_lock_domain` refuses a frame number of another domain, but is not
called if the domain is locked already; `gnttab_copy_buf_valid` takes a buffer with a grant for a
frame number equal to the grant reference. `CopyState.Admits` keeps both out, and grants whose
shared entry changed while pinned.
-/

namespace XenVmi.Grant

open XenVmi.Lib

variable {physmap : Nat → Nat → Nat → Prop} {caller n : Nat}

def domainOf (caller domid : Nat) : Nat := if domid = domidSelf then caller else domid

/-- The calling domain names a frame of its own, or the grant is pinned for it and contains the
bytes. -/
def Authorised (physmap : Nat → Nat → Nat → Prop) (caller : Nat) (tables : Tables) (readOnly : Bool)
    (ptr : CopyPtr) (gref : Bool) (len frame : Nat) : Prop :=
  let act := tables.active (domainOf caller ptr.domid) (refOf ptr.u)
  (gref = false ∧ ptr.domid = domidSelf ∧ physmap caller ptr.u frame) ∨
    (gref = true ∧ act.domid = caller ∧
      (if readOnly then act.pin ≠ 0 else act.pin &&& gntpinWriteMask ≠ 0) ∧
      act.frame = frame ∧ act.start ≤ ptr.offset ∧ ptr.offset + len ≤ act.start + act.length)

/-! ## Buffers -/

namespace CopyBuf

structure Holds (caller : Nat) (tables : Tables) (readOnly : Bool) (d : Nat) (buf : CopyBuf) :
    Prop where
  domid : (tables.active d (refOf buf.u)).domid = caller
  counter : 1 ≤ hst readOnly (tables.active d (refOf buf.u)).pin
  frame : (tables.active d (refOf buf.u)).frame = buf.frame
  start : (tables.active d (refOf buf.u)).start = buf.offset
  length : (tables.active d (refOf buf.u)).length = buf.len

structure Inv (physmap : Nat → Nat → Nat → Prop) (caller : Nat) (readOnly : Bool) (tables : Tables)
    (buf : CopyBuf) : Prop where
  domain : ∀ d, buf.domain = some d → d = domainOf caller buf.domid
  grant : buf.haveGrant = true → buf.readOnly = readOnly ∧
    ∃ d, buf.domain = some d ∧ buf.Holds caller tables readOnly d
  frame : buf.virt = true → buf.haveGrant = false →
    ∃ d, buf.domain = some d ∧ physmap d buf.u buf.frame

variable {readOnly : Bool} {tables tables' : Tables} {buf buf' : CopyBuf} {d : Nat}

theorem inv_empty : Inv physmap caller readOnly tables .empty where
  domain d h := by cases h
  grant h := by cases h
  frame h := by cases h

theorem Inv.released (inv : buf.Inv physmap caller readOnly tables) (tables' : Tables) :
    buf.released.Inv physmap caller readOnly tables' where
  domain := inv.domain
  grant h := by cases h
  frame h := by cases h

theorem Holds.grew (h : buf.Holds caller tables readOnly d) (hgrew : tables.Grew tables') :
    buf.Holds caller tables' readOnly d := by
  have hentry := hgrew.entries d (refOf buf.u)
  have hkept := hentry.kept (ne_zero_of_hst h.counter)
  refine ⟨?_, Nat.le_trans h.counter (hentry.counters readOnly), ?_, ?_, ?_⟩
  · rw [hkept]
    exact h.domid
  · rw [hkept]
    exact h.frame
  · rw [hkept]
    exact h.start
  · rw [hkept]
    exact h.length

theorem Holds.shed (h : buf.Holds caller tables readOnly d)
    (hshed : tables.Shed (!readOnly) tables') :
    buf.Holds caller tables' readOnly d := by
  have hkept := hshed.entries d (refOf buf.u)
  have hcounter := hshed.counters d (refOf buf.u)
  rw [Bool.not_not] at hcounter
  refine ⟨?_, Nat.le_trans h.counter (Nat.le_of_eq hcounter.symm), ?_, ?_, ?_⟩
  · rw [hkept]
    exact h.domid
  · rw [hkept]
    exact h.frame
  · rw [hkept]
    exact h.start
  · rw [hkept]
    exact h.length

variable (inv : buf.Inv physmap caller readOnly tables)

include inv

theorem Inv.mono
    (holds : ∀ d, buf.Holds caller tables readOnly d → buf.Holds caller tables' readOnly d) :
    buf.Inv physmap caller readOnly tables' where
  domain := inv.domain
  grant hg := by
    obtain ⟨hro, d, hd, hh⟩ := inv.grant hg
    exact ⟨hro, d, hd, holds d hh⟩
  frame := inv.frame

theorem Inv.grew (h : tables.Grew tables') :
    buf.Inv physmap caller readOnly tables' := inv.mono fun _ hh => hh.grew h

theorem Inv.shed (h : tables.Shed (!readOnly) tables') :
    buf.Inv physmap caller readOnly tables' := inv.mono fun _ hh => hh.shed h

omit inv

def Nested (tables : Tables) (buf : CopyBuf) : Prop :=
  buf.haveGrant = true → ∀ d, buf.domain = some d → tables.Nested d (refOf buf.u)

theorem release_cases (h : buf.release n tables = .ok (tables', buf')) :
    buf' = buf.released ∧ ((buf.haveGrant = false ∧ tables' = tables) ∨ (buf.haveGrant = true ∧
      ∃ d, buf.domain = some d ∧
        releaseGrantForCopy n tables d (refOf buf.u) buf.readOnly = .ok tables')) := by
  rw [release] at h
  split at h
  · rename_i hg
    split at h
    · cases h
    · rename_i d hd
      obtain ⟨t, hr, h⟩ := exists_ok_of_except_map h
      cases h
      exact ⟨rfl, .inr ⟨hg, d, hd, hr⟩⟩
  · rename_i hg
    cases h
    exact ⟨rfl, .inl ⟨eq_false_of_ne_true hg, rfl⟩⟩

theorem Inv.release_source (inv : buf.Inv physmap caller true tables)
    (h : buf.release n tables = .ok (tables', buf')) : tables.Shed true tables' := by
  obtain ⟨-, ⟨-, rfl⟩ | ⟨hg, d, -, hr⟩⟩ := release_cases h
  · exact .refl _ _
  · rw [(inv.grant hg).1] at hr
    exact releaseGrantForCopy_read hr

theorem Inv.release_dest (inv : buf.Inv physmap caller false tables) (hn : buf.Nested tables)
    (h : buf.release n tables = .ok (tables', buf')) : tables.Shed false tables' := by
  obtain ⟨-, ⟨-, rfl⟩ | ⟨hg, d, hd, hr⟩⟩ := release_cases h
  · exact .refl _ _
  · obtain ⟨hro, d', hd', hholds⟩ := inv.grant hg
    cases hd.symm.trans hd'
    rw [hro] at hr
    exact releaseGrantForCopy_write hholds.counter (hn hg d hd) hr

def Names (ptr : CopyPtr) (gref : Bool) (buf : CopyBuf) : Prop :=
  buf.virt = true ∧ if gref then buf.haveGrant = true ∧ refOf buf.u = refOf ptr.u
    else buf.haveGrant = false ∧ buf.u = ptr.u

variable {env : CopyEnv physmap} {ptr : CopyPtr} {gref : Bool}

theorem map_eq {rc : Rc} (h : map env tables buf = ((tables', buf'), rc)) :
    tables' = tables ∧ buf' = { buf with virt := buf'.virt, haveType := buf'.haveType } ∧
      (rc = .ok () → buf'.virt = true) := by
  rw [map] at h
  split at h
  · cases h
    exact ⟨rfl, rfl, fun _ => rfl⟩
  · split at h
    · cases h
      exact ⟨rfl, rfl, fun _ => rfl⟩
    · cases h
      exact ⟨rfl, rfl, nofun⟩

theorem refOf_setRef (u v : Nat) : refOf (setRef u (refOf v)) = refOf v := by
  simp only [refOf, setRef]
  omega

/-- What `gnttab_copy_claim_buf` leaves. -/
structure Claimed (physmap : Nat → Nat → Nat → Prop) (caller : Nat) (readOnly : Bool)
    (ptr : CopyPtr) (gref : Bool) (tables : Tables) (buf buf' : CopyBuf) (rc : Rc) : Prop where
  inv : buf'.Inv physmap caller readOnly tables
  domain : buf'.domain = buf.domain
  domid : buf'.domid = buf.domid
  names : rc = .ok () → buf'.Names ptr gref

theorem claimed_map {rc : Rc} (h : map env tables buf = ((tables', buf'), rc))
    (hdomain : ∀ d, buf.domain = some d → d = domainOf caller buf.domid) (hd : buf.domain = some d)
    (hgrant : buf.haveGrant = gref)
    (holds : gref = true → buf.readOnly = readOnly ∧ buf.Holds caller tables readOnly d ∧
      refOf buf.u = refOf ptr.u)
    (hframe : gref = false → physmap d buf.u buf.frame ∧ buf.u = ptr.u) :
    Claimed physmap caller readOnly ptr gref tables' buf buf' rc := by
  obtain ⟨rfl, hmap, hok⟩ := map_eq h
  refine ⟨⟨?_, fun hg => ?_, fun _ hg => ?_⟩, ?_, ?_, fun hrc => ⟨hok hrc, ?_⟩⟩
  · rw [hmap]
    exact hdomain
  · rw [hmap] at hg ⊢
    obtain ⟨hro, hh, -⟩ := holds (hgrant.symm.trans hg)
    exact ⟨hro, d, hd, hh.domid, hh.counter, hh.frame, hh.start, hh.length⟩
  · rw [hmap] at hg ⊢
    exact ⟨d, hd, (hframe (hgrant.symm.trans hg)).1⟩
  · rw [hmap]
  · rw [hmap]
  · rw [hmap]
    cases gref with
    | true => exact ⟨hgrant, (holds rfl).2.2⟩
    | false => exact ⟨hgrant, (hframe rfl).2⟩

theorem claim_spec {rc : Rc} (hdomain : ∀ d, buf.domain = some d → d = domainOf caller buf.domid)
    (hd : buf.domain = some d) (hfree : buf.haveGrant = false) (hvirt : buf.virt = false)
    (h : buf.claim caller env readOnly ptr gref tables d = ((tables', buf'), rc)) :
    tables.Grew tables' ∧ Claimed physmap caller readOnly ptr gref tables' buf buf' rc ∧
      (readOnly = false → (gref = true → SteadyClaim env tables d (refOf ptr.u)) →
        buf'.Nested tables') := by
  -- a claim that fails leaves an empty buffer
  have failed : ∀ {e : Status}, ((tables, { buf with readOnly := readOnly }), .error e) =
      ((tables', buf'), rc) → tables.Grew tables' ∧
        Claimed physmap caller readOnly ptr gref tables' buf buf' rc ∧
        (readOnly = false → (gref = true → SteadyClaim env tables d (refOf ptr.u)) →
          buf'.Nested tables') := by
    intro e heq
    cases heq
    refine ⟨.refl _, ⟨⟨hdomain, fun hg => ?_, fun hv => ?_⟩, rfl, rfl, nofun⟩,
      fun _ _ hg => ?_⟩
    · exact absurd (hfree.symm.trans hg) Bool.false_ne_true
    · exact absurd (hvirt.symm.trans hv) Bool.false_ne_true
    · exact absurd (hfree.symm.trans hg) Bool.false_ne_true
  rw [claim] at h
  cases gref with
  | true =>
    cases ha : acquireGrantForCopy env tables d (refOf ptr.u) caller readOnly with
    | error e =>
      rw [ha] at h
      exact failed h
    | ok r =>
      obtain ⟨t, g⟩ := r
      rw [ha] at h
      obtain ⟨hgrew, hpins⟩ := acquireGrantForCopy_spec ha
      have href := refOf_setRef buf.u ptr.u
      have hmap := map_eq h
      have hc := @claimed_map physmap caller readOnly t tables' _ buf' d env ptr true rc h
        hdomain hd rfl (fun _ => ⟨rfl, ⟨?_, ?_, ?_, ?_, ?_⟩, href⟩) nofun
      · refine ⟨hmap.1 ▸ hgrew, ⟨hc.inv, hc.domain, hc.domid, hc.names⟩, fun hro hs hg d' hd' => ?_⟩
        rw [hc.domain] at hd'
        cases hd.symm.trans hd'
        subst hro
        rw [hmap.1, hmap.2.1]
        simp only [href]
        exact nested_of_steadyClaim (hs rfl) ha
      all_goals simp only [href]
      · exact hpins.domid
      · exact hpins.counter
      · exact hpins.frame
      · exact hpins.start
      · exact hpins.length
  | false =>
    cases hp : env.pagedFrame d ptr.u readOnly with
    | error e =>
      rw [hp] at h
      exact failed h
    | ok f =>
      rw [hp] at h
      have hmap := map_eq h
      have hc := @claimed_map physmap caller readOnly tables tables' _ buf' d env ptr false rc h
        hdomain hd hfree nofun (fun _ => ⟨env.paged _ _ _ _ hp, rfl⟩)
      refine ⟨hmap.1 ▸ .refl _, ⟨hc.inv, hc.domain, hc.domid, hc.names⟩, fun _ _ hg => ?_⟩
      rw [hmap.2.1] at hg
      exact absurd (hfree.symm.trans hg) Bool.false_ne_true

structure Ready (caller : Nat) (ptr : CopyPtr) (gref : Bool) (buf : CopyBuf) : Prop where
  domain : buf.domain = some (domainOf caller ptr.domid)
  allowed : ptr.domid = domidSelf ∨ gref = true
  fresh : gref = false → valid ptr false buf = true → buf.haveGrant = false

theorem valid_of_virt_false (h : buf.virt = false) : valid ptr gref buf = false := by
  rw [valid, h, Bool.false_and]

theorem Ready.names_of_valid (ready : buf.Ready caller ptr gref)
    (h : valid ptr gref buf = true) : buf.Names ptr gref := by
  have hfresh := ready.fresh
  rw [valid, Bool.and_eq_true] at h
  obtain ⟨hvirt, h⟩ := h
  refine ⟨hvirt, ?_⟩
  cases gref with
  | true =>
    obtain ⟨hg, href⟩ := (Bool.and_eq_true _ _).mp h
    exact ⟨hg, (of_decide_eq_true href).symm⟩
  | false =>
    have hu : ptr.u = buf.u := of_decide_eq_true h
    refine ⟨hfresh rfl ?_, hu.symm⟩
    rw [valid, hvirt]
    exact h

theorem drop_cases (h : buf.drop n ptr gref tables = .ok (tables', buf')) :
    (valid ptr gref buf = true ∧ tables' = tables ∧ buf' = buf) ∨
      buf.release n tables = .ok (tables', buf') := by
  rw [drop] at h
  split at h
  · rename_i hvalid
    cases h
    exact .inl ⟨hvalid, rfl, rfl⟩
  · exact .inr h

theorem take_cases {rc : Rc}
    (h : buf.take caller env readOnly ptr gref tables = .ok ((tables', buf'), rc)) :
    (valid ptr gref buf = true ∧ tables' = tables ∧ buf' = buf ∧ rc = .ok ()) ∨
      ∃ d, valid ptr gref buf = false ∧ buf.domain = some d ∧
        buf.claim caller env readOnly ptr gref tables d = ((tables', buf'), rc) := by
  rw [take] at h
  split at h
  · rename_i hvalid
    cases h
    exact .inl ⟨hvalid, rfl, rfl, rfl⟩
  · rename_i hvalid
    split at h
    · cases h
    · rename_i d hd
      exact .inr ⟨d, eq_false_of_ne_true hvalid, hd, Except.ok.inj h⟩

theorem Inv.authorised {len : Nat} (inv : buf.Inv physmap caller readOnly tables)
    (names : buf.Names ptr gref) (hd : buf.domain = some (domainOf caller ptr.domid))
    (allowed : ptr.domid = domidSelf ∨ gref = true) (hoff : buf.offset ≤ ptr.offset)
    (hlen : ptr.offset + len ≤ buf.offset + buf.len) :
    Authorised physmap caller tables readOnly ptr gref len buf.frame := by
  obtain ⟨hvirt, names⟩ := names
  cases gref with
  | false =>
    obtain ⟨hg, hu⟩ := names
    have hself := allowed.resolve_right Bool.false_ne_true
    obtain ⟨d, hd', hmap⟩ := inv.frame hvirt hg
    rw [hd, domainOf, if_pos hself] at hd'
    cases hd'
    exact .inl ⟨rfl, hself, hu ▸ hmap⟩
  | true =>
    obtain ⟨hg, href⟩ := names
    obtain ⟨-, d, hd', hh⟩ := inv.grant hg
    rw [hd] at hd'
    cases hd'
    obtain ⟨hdomid, hcounter, hframe, hstart, hlength⟩ := hh
    rw [href] at hdomid hcounter hframe hstart hlength
    refine .inr ⟨rfl, hdomid, ?_, hframe, ?_, ?_⟩
    · cases readOnly with
      | true => exact ne_zero_of_hst hcounter
      | false => exact writeMask_of_hstw hcounter
    · rwa [hstart]
    · rwa [hstart, hlength]

end CopyBuf

/-! ## Operations -/

namespace CopyState

variable {s s' : CopyState} {op : CopyOp physmap} {rc : Rc}

structure Inv (physmap : Nat → Nat → Nat → Prop) (caller : Nat) (s : CopyState) : Prop where
  src : s.src.Inv physmap caller true s.tables
  dest : s.dest.Inv physmap caller false s.tables
  nested : s.dest.Nested s.tables

/-- What the operation may find. If the domains are locked already, each side names the caller or a
grant, and a side that names a frame does not get a buffer with a grant. The destination is claimed
after the source, so the last part is about the tables with the pins that the source has left. -/
def Admits (n caller : Nat) (s : CopyState) (op : CopyOp physmap) : Prop :=
  (s.locked op = true →
    (op.source.domid = domidSelf ∨ op.sourceGref = true) ∧
    (op.dest.domid = domidSelf ∨ op.destGref = true) ∧
    (op.sourceGref = false → s.src.valid op.source false = true → s.src.haveGrant = false) ∧
    (op.destGref = false → s.dest.valid op.dest false = true → s.dest.haveGrant = false)) ∧
  ∀ r ∈ (s.prepare n caller op).toOption, r.2 = .ok () → op.destGref = true →
    r.1.dest.valid op.dest true = false →
      SteadyClaim op.destEnv r.1.tables (domainOf caller op.dest.domid) (refOf op.dest.u)

instance : Decidable (Admits n caller s op) := inferInstanceAs (Decidable (_ ∧ _))

theorem nested_of_kept {tables tables' : Tables} {d e gfn : Nat} {pin : BitVec 32}
    (h : tables.Nested d e) (version : ∀ d, (tables' d).version = (tables d).version)
    (kept : tables'.active d e = { tables.active d e with pin := pin, gfn := gfn })
    (behind : ∀ d e, 1 ≤ hstw (tables.active d e).pin → 1 ≤ hstw (tables'.active d e).pin ∧
      (tables'.active d e).transDomain = (tables.active d e).transDomain) : tables'.Nested d e := by
  intro hver hne
  rw [version] at hver
  rw [kept] at hne
  obtain ⟨hw, hplain⟩ := h hver hne
  obtain ⟨hw', htrans⟩ := behind _ _ hw
  rw [kept, version, htrans]
  exact ⟨hw', hplain⟩

theorem nested_grew {tables tables' : Tables} {d e : Nat} (h : tables.Nested d e)
    (hpin : (tables.active d e).pin ≠ 0) (hgrew : tables.Grew tables') : tables'.Nested d e :=
  nested_of_kept h hgrew.version ((hgrew.entries d e).kept hpin) fun d e hw =>
    ⟨Nat.le_trans hw ((hgrew.entries d e).counters false), by
      rw [(hgrew.entries d e).kept (@ne_zero_of_hst false _ hw)]⟩

theorem nested_shed {tables tables' : Tables} {d e : Nat} (h : tables.Nested d e)
    (hshed : tables.Shed true tables') : tables'.Nested d e :=
  nested_of_kept h hshed.version (hshed.entries d e) fun d e hw =>
    ⟨Nat.le_trans hw (Nat.le_of_eq (hshed.counters d e).symm), by rw [hshed.entries d e]⟩

variable (inv : s.Inv physmap caller)

include inv

theorem Inv.dest_grew {tables' : Tables} (h : s.tables.Grew tables') :
    s.dest.Inv physmap caller false tables' ∧ s.dest.Nested tables' := by
  refine ⟨inv.dest.grew h, fun hg d hd => ?_⟩
  obtain ⟨-, d', hd', hh⟩ := inv.dest.grant hg
  cases hd.symm.trans hd'
  exact nested_grew (inv.nested hg d hd) (ne_zero_of_hst hh.counter) h

theorem Inv.dest_shed {tables' : Tables} (h : s.tables.Shed true tables') :
    s.dest.Inv physmap caller false tables' ∧ s.dest.Nested tables' :=
  ⟨inv.dest.shed h, fun hg d hd => nested_shed (inv.nested hg d hd) h⟩

theorem Inv.releaseBufs (h : s.releaseBufs n = .ok s') :
    s'.Inv physmap caller ∧ s'.src = s.src.released ∧ s'.dest = s.dest.released := by
  obtain ⟨⟨t, src⟩, hsrc, h⟩ := exists_ok_of_bind h
  obtain ⟨⟨t', dest⟩, hdest, h⟩ := exists_ok_of_bind h
  cases h
  have hshed := inv.src.release_source hsrc
  obtain ⟨hdinv, hdnested⟩ := inv.dest_shed hshed
  obtain ⟨rfl, -⟩ := CopyBuf.release_cases hsrc
  obtain ⟨rfl, -⟩ := CopyBuf.release_cases hdest
  exact ⟨⟨inv.src.released _, hdinv.released _, nofun⟩, rfl, rfl⟩

omit inv

theorem inv_of_released {buf : CopyBuf} {readOnly : Bool} {tables : Tables}
    (hd : ∀ d, buf.domain = some d → d = domainOf caller buf.domid) (hg : buf.haveGrant = false)
    (hv : buf.virt = false) : buf.Inv physmap caller readOnly tables :=
  ⟨hd, fun h => absurd (hg.symm.trans h) Bool.false_ne_true,
    fun h => absurd (hv.symm.trans h) Bool.false_ne_true⟩

theorem lockDomain_spec {env : CopyEnv physmap} {ptr : CopyPtr} {gref : Bool} {buf buf' : CopyBuf}
    (hd : buf.domain = none) (hg : buf.haveGrant = false) (hv : buf.virt = false)
    (h : buf.lockDomain caller env ptr.domid gref = (buf', rc)) :
    buf'.haveGrant = false ∧ buf'.virt = false ∧
      (∀ d, buf'.domain = some d → d = domainOf caller buf'.domid) ∧
      (rc = .ok () → buf'.Ready caller ptr gref) := by
  rw [CopyBuf.lockDomain] at h
  split at h
  · cases h
    exact ⟨hg, hv, fun d hd' => (by rw [hd] at hd'; cases hd'), nofun⟩
  rename_i hallowed
  have allowed : ptr.domid = domidSelf ∨ gref = true := by
    by_cases hself : ptr.domid = domidSelf
    · exact .inl hself
    · exact .inr (eq_true_of_ne_false fun hgref => hallowed ⟨hself, hgref⟩)
  split at h
  · rename_i hself
    cases h
    have hdom : domainOf caller ptr.domid = caller := if_pos hself
    refine ⟨hg, hv, fun d hd' => ?_, fun _ => ⟨?_, allowed, fun _ _ => hg⟩⟩
    · cases hd'
      exact hdom.symm
    · rw [hdom]
  rename_i hself
  have hdom : domainOf caller ptr.domid = ptr.domid := if_neg hself
  split at h
  · cases h
    refine ⟨hg, hv, fun d hd' => ?_, fun _ => ⟨?_, allowed, fun _ _ => hg⟩⟩
    · cases hd'
      exact hdom.symm
    · rw [hdom]
  · cases h
    exact ⟨hg, hv, fun d hd' => (by cases hd'), nofun⟩

structure Ready (caller : Nat) (op : CopyOp physmap) (s : CopyState) : Prop where
  src : s.src.Ready caller op.source op.sourceGref
  dest : s.dest.Ready caller op.dest op.destGref

theorem lockDomains_spec (hd : s.src.domain = none) (hd' : s.dest.domain = none)
    (hg : s.src.haveGrant = false) (hg' : s.dest.haveGrant = false) (hv : s.src.virt = false)
    (hv' : s.dest.virt = false) (h : s.lockDomains caller op = (s', rc)) :
    s'.Inv physmap caller ∧ (rc = .ok () → s'.Ready caller op) := by
  -- after an error no domain is locked
  have unlocked : ∀ {t : CopyState}, t.src.haveGrant = false → t.dest.haveGrant = false →
      t.src.virt = false → t.dest.virt = false → t.unlockDomains.Inv physmap caller := by
    intro t hg hg' hv hv'
    exact ⟨inv_of_released nofun hg hv,
      inv_of_released nofun hg' hv',
      fun h => absurd (hg'.symm.trans h) Bool.false_ne_true⟩
  rw [lockDomains] at h
  obtain ⟨⟨src, rc₁⟩, hsrc⟩ : ∃ r, s.src.lockDomain caller op.sourceEnv op.source.domid
    op.sourceGref = r := ⟨_, rfl⟩
  obtain ⟨⟨dest, rc₂⟩, hdest⟩ : ∃ r, s.dest.lockDomain caller op.destEnv op.dest.domid
    op.destGref = r := ⟨_, rfl⟩
  obtain ⟨hg₁, hv₁, hd₁, hready₁⟩ := lockDomain_spec hd hg hv hsrc
  obtain ⟨hg₂, hv₂, hd₂, hready₂⟩ := lockDomain_spec hd' hg' hv' hdest
  simp only [hsrc, hdest] at h
  cases rc₁ with
  | error e =>
    cases h
    exact ⟨unlocked hg₁ hg' hv₁ hv', nofun⟩
  | ok _ =>
    cases rc₂ with
    | error e =>
      cases h
      exact ⟨unlocked hg₁ hg₂ hv₁ hv₂, nofun⟩
    | ok _ =>
      simp only at h
      split at h
      · cases h
        exact ⟨⟨inv_of_released hd₁ hg₁ hv₁, inv_of_released hd₂ hg₂ hv₂,
          fun h => absurd (hg₂.symm.trans h) Bool.false_ne_true⟩,
          fun _ => ⟨hready₁ rfl, hready₂ rfl⟩⟩
      · cases h
        exact ⟨unlocked hg₁ hg₂ hv₁ hv₂, nofun⟩

theorem Inv.relock (inv : s.Inv physmap caller) (ha : s.Admits n caller op)
    (h : s.relock n caller op = .ok (s', rc)) :
    s'.Inv physmap caller ∧ (rc = .ok () → s'.Ready caller op) := by
  rw [CopyState.relock] at h
  split at h
  · rename_i hlocked
    cases h
    obtain ⟨hsrc, hdest, hfresh, hfresh'⟩ := ha.1 hlocked
    simp only [locked, Bool.and_eq_true, decide_eq_true_eq] at hlocked
    obtain ⟨⟨⟨hs, hd⟩, hsd⟩, hdd⟩ := hlocked
    refine ⟨inv, fun _ => ⟨⟨?_, hsrc, hfresh⟩, ⟨?_, hdest, hfresh'⟩⟩⟩
    · obtain ⟨d, hd⟩ := Option.isSome_iff_exists.mp hs
      rw [hd, inv.src.domain d hd, hsd]
    · obtain ⟨d, hd⟩ := Option.isSome_iff_exists.mp hd
      rw [hd, inv.dest.domain d hd, hdd]
  · obtain ⟨t, ht, h⟩ := exists_ok_of_bind h
    obtain ⟨-, hsrc, hdest⟩ := inv.releaseBufs ht
    refine lockDomains_spec rfl rfl ?_ ?_ ?_ ?_ (Except.ok.inj h)
    · exact congrArg CopyBuf.haveGrant hsrc
    · exact congrArg CopyBuf.haveGrant hdest
    · exact congrArg CopyBuf.virt hsrc
    · exact congrArg CopyBuf.virt hdest

structure SourceReady (caller : Nat) (op : CopyOp physmap) (s : CopyState) : Prop where
  names : s.src.Names op.source op.sourceGref
  domain : s.src.domain = some (domainOf caller op.source.domid)
  allowed : op.source.domid = domidSelf ∨ op.sourceGref = true
  dest : s.dest.Ready caller op.dest op.destGref

variable (inv : s.Inv physmap caller)

include inv

theorem Inv.claimSource (ready : s.Ready caller op) (h : s.claimSource n caller op = .ok (s', rc)) :
    s'.Inv physmap caller ∧ (rc = .ok () → s'.SourceReady caller op) := by
  obtain ⟨⟨t, src⟩, hdrop, h⟩ := exists_ok_of_bind h
  obtain ⟨⟨⟨t', src'⟩, rc'⟩, htake, h⟩ := exists_ok_of_bind h
  cases h
  rcases CopyBuf.drop_cases hdrop with ⟨hvalid, rfl, rfl⟩ | hrel
  · rcases CopyBuf.take_cases htake with ⟨-, rfl, rfl, rfl⟩ | ⟨d, hinvalid, -, -⟩
    · exact ⟨inv, fun _ => ⟨ready.src.names_of_valid hvalid, ready.src.domain, ready.src.allowed,
        ready.dest⟩⟩
    · exact absurd (hvalid.symm.trans hinvalid) (by decide)
  have hshed := inv.src.release_source hrel
  obtain ⟨rfl, -⟩ := CopyBuf.release_cases hrel
  obtain ⟨hdinv, hdnested⟩ := inv.dest_shed hshed
  rcases CopyBuf.take_cases htake with ⟨hvalid, -, -, -⟩ | ⟨d, -, hd, hclaim⟩
  · exact absurd (hvalid.symm.trans (CopyBuf.valid_of_virt_false rfl)) (by decide)
  obtain ⟨hgrew, hc, -⟩ := CopyBuf.claim_spec (inv.src.released t).domain hd rfl rfl hclaim
  have hdest := Inv.dest_grew (s := ⟨t, s.src.released, s.dest⟩)
    ⟨inv.src.released _, hdinv, hdnested⟩ hgrew
  refine ⟨⟨hc.inv, hdest.1, hdest.2⟩, fun hrc => ⟨hc.names hrc, ?_, ready.src.allowed,
    ready.dest⟩⟩
  exact hc.domain.trans ready.src.domain

theorem Inv.dropDest (ready : s.SourceReady caller op) (h : s.dropDest n op = .ok (s', rc)) :
    s'.Inv physmap caller ∧ s'.SourceReady caller op ∧
      (s'.dest.valid op.dest op.destGref = false →
        s'.dest.haveGrant = false ∧ s'.dest.virt = false) := by
  obtain ⟨⟨t, dest⟩, hdrop, h⟩ := exists_ok_of_bind h
  cases h
  rcases CopyBuf.drop_cases hdrop with ⟨hvalid, rfl, rfl⟩ | hrel
  · exact ⟨inv, ready, fun hinvalid => absurd (hvalid.symm.trans hinvalid) (by decide)⟩
  · have hshed := inv.dest.release_dest inv.nested hrel
    obtain ⟨rfl, -⟩ := CopyBuf.release_cases hrel
    refine ⟨⟨inv.src.shed hshed, inv.dest.released _, nofun⟩,
      ⟨ready.names, ready.domain, ready.allowed, ready.dest.domain, ready.dest.allowed,
        fun _ _ => rfl⟩, fun _ => ⟨rfl, rfl⟩⟩

theorem Inv.claimDest (ready : s.SourceReady caller op)
    (hempty : s.dest.valid op.dest op.destGref = false →
      s.dest.haveGrant = false ∧ s.dest.virt = false)
    (hsteady : op.destGref = true → s.dest.valid op.dest true = false →
      SteadyClaim op.destEnv s.tables (domainOf caller op.dest.domid) (refOf op.dest.u))
    (h : s.claimDest caller op = .ok (s', rc)) :
    s'.Inv physmap caller ∧ (rc = .ok () → s'.SourceReady caller op ∧
      s'.dest.Names op.dest op.destGref) := by
  obtain ⟨⟨⟨t, dest⟩, rc'⟩, htake, h⟩ := exists_ok_of_bind h
  cases h
  rcases CopyBuf.take_cases htake with ⟨hvalid, rfl, rfl, rfl⟩ | ⟨d, hinvalid, hd, hclaim⟩
  · exact ⟨inv, fun _ => ⟨ready, ready.dest.names_of_valid hvalid⟩⟩
  obtain ⟨hg, hv⟩ := hempty hinvalid
  obtain ⟨hgrew, hc, hnested⟩ := CopyBuf.claim_spec inv.dest.domain hd hg hv hclaim
  have hdom : d = domainOf caller op.dest.domid := by
    rw [ready.dest.domain] at hd
    exact (Option.some.inj hd).symm
  refine ⟨⟨inv.src.grew hgrew, hc.inv, hnested rfl fun hgref => ?_⟩, fun hrc =>
    ⟨⟨ready.names, ready.domain, ready.allowed, ?_⟩, hc.names hrc⟩⟩
  · rw [hgref] at hinvalid
    exact hdom ▸ hsteady hgref hinvalid
  · refine ⟨hc.domain.trans ready.dest.domain, ready.dest.allowed, fun hgref _ => ?_⟩
    have hn := (hc.names hrc).2
    rw [hgref] at hn
    exact hn.1

omit inv

theorem andThen_cases {r : Except CopyFault (CopyState × Rc)}
    {next : CopyState → Except CopyFault (CopyState × Rc)} (h : andThen r next = .ok (s', rc)) :
    (∃ s, r = .ok (s, .ok ()) ∧ next s = .ok (s', rc)) ∨ (r = .ok (s', rc) ∧ rc ≠ .ok ()) := by
  cases r with
  | error f => cases h
  | ok p =>
    obtain ⟨s, rc'⟩ := p
    cases rc' with
    | ok _ => exact .inl ⟨s, rfl, h⟩
    | error e =>
      cases h
      exact .inr ⟨rfl, nofun⟩

theorem Inv.prepare (inv : s.Inv physmap caller) (ha : s.Admits n caller op)
    (h : s.prepare n caller op = .ok (s', rc)) :
    s'.Inv physmap caller ∧ (rc = .ok () → s'.SourceReady caller op ∧
      (s'.dest.valid op.dest op.destGref = false →
        s'.dest.haveGrant = false ∧ s'.dest.virt = false)) := by
  rcases andThen_cases h with ⟨s₂, h₂, hdrop⟩ | ⟨h, hne⟩
  · rcases andThen_cases h₂ with ⟨s₁, h₁, hsource⟩ | ⟨-, hne⟩
    · obtain ⟨inv₁, ready₁⟩ := inv.relock ha h₁
      obtain ⟨inv₂, ready₂⟩ := inv₁.claimSource (ready₁ rfl) hsource
      obtain ⟨inv₃, ready₃, hempty⟩ := inv₂.dropDest (ready₂ rfl) hdrop
      exact ⟨inv₃, fun _ => ⟨ready₃, hempty⟩⟩
    · exact absurd rfl hne
  · refine ⟨?_, fun hrc => absurd hrc hne⟩
    rcases andThen_cases h with ⟨s₁, h₁, hsource⟩ | ⟨h₁, -⟩
    · obtain ⟨inv₁, ready₁⟩ := inv.relock ha h₁
      exact (inv₁.claimSource (ready₁ rfl) hsource).1
    · exact (inv.relock ha h₁).1

variable {r : Except Status (Nat × Nat)} (inv : s.Inv physmap caller)

include inv

theorem Inv.copyOne (ha : s.Admits n caller op) (h : s.copyOne n caller op = .ok (s', r)) :
    s'.Inv physmap caller ∧ ∀ f g, r = .ok (f, g) →
      Authorised physmap caller s'.tables true op.source op.sourceGref op.len f ∧
      Authorised physmap caller s'.tables false op.dest op.destGref op.len g := by
  obtain ⟨⟨t, rc⟩, hclaimed, h⟩ := exists_ok_of_bind h
  cases h
  rcases andThen_cases hclaimed with ⟨s₁, h₁, hdest⟩ | ⟨h₁, hne⟩
  · obtain ⟨inv₁, ready₁⟩ := inv.prepare ha h₁
    obtain ⟨ready, hempty⟩ := ready₁ rfl
    obtain ⟨inv₂, ready₂⟩ := inv₁.claimDest ready hempty
      (ha.2 (s₁, .ok ()) (by rw [h₁]; rfl) rfl) hdest
    refine ⟨inv₂, fun f g hr => ?_⟩
    cases rc with
    | error e => cases hr
    | ok _ =>
      obtain ⟨ready₃, names⟩ := ready₂ rfl
      rw [finish, copyBuf] at hr
      split at hr
      · cases hr
      split at hr
      · cases hr
      split at hr
      · cases hr
      · cases hr
        exact ⟨inv₂.src.authorised ready₃.names ready₃.domain ready₃.allowed (by omega) (by omega),
          inv₂.dest.authorised names ready₃.dest.domain ready₃.dest.allowed (by omega) (by omega)⟩
  · refine ⟨(inv.prepare ha h₁).1, fun f g hr => ?_⟩
    cases rc with
    | error e => cases hr
    | ok _ => exact absurd rfl hne

theorem Inv.copyRound (ha : s.Admits n caller op) (h : s.copyRound n caller op = .ok (s', r)) :
    s'.Inv physmap caller ∧ ∀ f g, r = .ok (f, g) →
      Authorised physmap caller s'.tables true op.source op.sourceGref op.len f ∧
      Authorised physmap caller s'.tables false op.dest op.destGref op.len g := by
  obtain ⟨⟨t, r'⟩, hone, h⟩ := exists_ok_of_bind h
  obtain ⟨inv', hauth⟩ := inv.copyOne ha hone
  cases r' with
  | ok frames =>
    cases h
    exact ⟨inv', hauth⟩
  | error e =>
    obtain ⟨u, hrel, h⟩ := exists_ok_of_except_map h
    cases h
    exact ⟨(inv'.releaseBufs hrel).1, nofun⟩

theorem Inv.step (ha : s.Admits n caller op)
    (h : s.step n caller op = .ok s') : s'.Inv physmap caller := by
  obtain ⟨⟨t, r⟩, hround, h⟩ := exists_ok_of_bind h
  cases h
  exact (inv.copyRound ha hround).1

omit inv

theorem inv_start (tables : Tables) : (start tables).Inv physmap caller :=
  ⟨CopyBuf.inv_empty, CopyBuf.inv_empty, nofun⟩

end CopyState

/-- **Copies are authorised** in every batch that `Admits` allows. -/
theorem copies_authorised (n caller : Nat) (tables : Tables) {s s' : CopyState}
    {op : CopyOp physmap} {f g : Nat}
    (run : Reaches (@CopyState.step physmap n caller) (CopyState.Admits n caller) (.start tables) s)
    (ha : s.Admits n caller op) (h : s.copyRound n caller op = .ok (s', .ok (f, g))) :
    Authorised physmap caller s'.tables true op.source op.sourceGref op.len f ∧
      Authorised physmap caller s'.tables false op.dest op.destGref op.len g := by
  have inv : s.Inv physmap caller :=
    run.invariant (fun _ _ _ ha h inv => inv.step ha h) (CopyState.inv_start tables)
  exact (inv.copyRound ha h).2 f g rfl

def linear (d gfn f : Nat) : Prop := f = 1000 * d + gfn

def generous : CopyEnv linear where
  domainExists _ := true
  setStatus _ _ _ := .okay
  sharedV1 _ ref := ref
  sharedV2 _ ref := .fullPage ref
  pagedFrame d gfn _ := .ok (1000 * d + gfn)
  writable _ := true
  paged _ _ _ _ h := (Except.ok.inj h).symm

def copyFrom (source : CopyPtr) (gref : Bool) : CopyOp linear where
  source := source
  dest := ⟨5, domidSelf, 0⟩
  len := 64
  sourceGref := gref
  destGref := false
  xsm := true
  sourceEnv := generous
  destEnv := generous

def unpinnedTables : Tables := fun _ => ⟨1, 1, fun _ => .cleared⟩

/-- The second copy from a grant reuses both buffers. -/
theorem copies_authorised_reused : ∃ s s',
    Reaches (@CopyState.step linear 3 1) (CopyState.Admits 3 1) (.start unpinnedTables) s ∧
      s.copyRound 3 1 (copyFrom ⟨8, 2, 128⟩ true) = .ok (s', .ok (2008, 1005)) ∧
      Authorised linear 1 s'.tables true ⟨8, 2, 128⟩ true 64 2008 ∧
      Authorised linear 1 s'.tables false ⟨5, domidSelf, 0⟩ false 64 1005 := by
  obtain ⟨s, hstep, hadmits, ⟨s', _⟩, hround, _, rfl, rfl⟩ :
      ∃ s, (CopyState.start unpinnedTables).step 3 1 (copyFrom ⟨8, 2, 0⟩ true) = .ok s ∧
        s.Admits 3 1 (copyFrom ⟨8, 2, 128⟩ true) ∧
        ∃ r, s.copyRound 3 1 (copyFrom ⟨8, 2, 128⟩ true) = .ok r ∧
          ∃ p, r.2 = .ok p ∧ p = (2008, 1005) := by decide +kernel
  have run : Reaches (@CopyState.step linear 3 1) (CopyState.Admits 3 1)
      (.start unpinnedTables) s :=
    .single ⟨copyFrom ⟨8, 2, 0⟩ true, by decide +kernel, hstep⟩
  exact ⟨s, s', run, hround,
    copies_authorised 3 1 unpinnedTables run hadmits hround⟩

/-- After a copy from a grant of domain 2, one from a frame number of domain 2 succeeds: the domain
is locked already. -/
theorem copy_reads_other_domain : ∃ s s',
    (CopyState.start unpinnedTables).step 3 1 (copyFrom ⟨8, 2, 0⟩ true) = .ok s ∧
      s.copyRound 3 1 (copyFrom ⟨77, 2, 0⟩ false) = .ok (s', .ok (2077, 1005)) ∧
      linear 2 77 2077 ∧ ¬ Authorised linear 1 s'.tables true ⟨77, 2, 0⟩ false 64 2077 := by
  obtain ⟨s, hstep, ⟨s', _⟩, hround, _, rfl, rfl⟩ :
      ∃ s, (CopyState.start unpinnedTables).step 3 1 (copyFrom ⟨8, 2, 0⟩ true) = .ok s ∧
        ∃ r, s.copyRound 3 1 (copyFrom ⟨77, 2, 0⟩ false) = .ok r ∧
          ∃ p, r.2 = .ok p ∧ p = (2077, 1005) := by decide +kernel
  refine ⟨s, s', hstep, hround, rfl, ?_⟩
  rintro (⟨-, hself, -⟩ | ⟨hgref, -⟩)
  · exact absurd hself (by decide)
  · exact absurd hgref (by decide)

end XenVmi.Grant
