import XenVmi.Lib.Census
import XenVmi.P2m.Physmap

/-!
# The counter of paged-out pages

Model of the paging operations of the host p2m (`mm/p2m.c:1127-1496`) and of `guest_remove_page`
(`common/memory.c:184-266`). Steps that may not count right (`PagingOp.Counts`):
`p2m_mem_paging_drop_page` returns before it counts when there is no slot on the ring, and counts a
`p2m_ram_paging_in` page down that has a frame; `guest_physmap_add_entry` counts `p2m_ram_paged`
gfns down also if it then fails, and unbacked `p2m_ram_paging_in` gfns not at all.
-/

namespace XenVmi.P2m

open Function XenVmi.Ept XenVmi.Lib

/-- `EBUSY`, `EFAULT` of `xen/errno.h`. -/
def EBUSY : Int := 16

@[inherit_doc EBUSY]
def EFAULT : Int := 14

/-! ## The operations -/

/-- `vm_event_claim_slot` on the paging ring: `-ENOSYS`, another error, or a slot. -/
inductive Slot where
  | noRing
  | busy
  | claimed
  deriving Repr, DecidableEq

/-- The buffer of `p2m_mem_paging_prep`: none, one that fails the check, or one to copy from. -/
inductive Buffer where
  | none
  | bad
  | given
  deriving Repr, DecidableEq

def State.setEntry (env : Env) (setRc : Nat → Int) (s : State) (gfn mfn : Nat) (t : P2mType)
    (a : P2mAccess) : Int × State :=
  let r := p2mSetEntry env setRc s.table ⟨gfn, mfn, t, a⟩ 0
  (r.1, { s with table := r.2 })

def State.freePage (s : State) (mfn : Nat) : State :=
  { s with
    owner := update s.owner mfn .free
    m2p := update s.m2p mfn .invalid }

/-- `p2m_mem_paging_nominate`; `idle` is the check of page count and type. -/
def pagingNominate (env : Env) (setRc : Nat → Int) (s : State) (gfn : Nat) (iomem idle : Bool) :
    Int × State :=
  let e := s.table gfn
  if !env.mfnValid e.mfn || !e.t.isPageable || iomem || !idle then (-EBUSY, s)
  else s.setEntry env setRc gfn e.mfn .ramPagingOut e.a

/-- `p2m_mem_paging_evict`; `idle` is the second check of page count and type. -/
def pagingEvict (env : Env) (setRc : Nat → Int) (s : State) (gfn : Nat) (getPage idle : Bool) :
    Int × State :=
  let e := s.table gfn
  if !env.mfnValid e.mfn || decide (e.t ≠ .ramPagingOut) || !getPage || !idle then (-EBUSY, s)
  else
    let r := s.setEntry env setRc gfn invalidMfn .ramPaged e.a
    (r.1, { r.2 with pagedPages := r.2.pagedPages + 1 }.freePage e.mfn)

def pagingDropPage (s : State) (t : P2mType) (slot : Slot) : State :=
  if slot ≠ .claimed then s
  else if t ≠ .ramPagingOut then { s with pagedPages := s.pagedPages - 1 }
  else s

def pagingPopulate (env : Env) (setRc : Nat → Int) (s : State) (gfn : Nat) (slot : Slot) : State :=
  let e := s.table gfn
  if slot ≠ .claimed then s
  else if e.t = .ramPagingOut ∨ e.t = .ramPaged then
    (s.setEntry env setRc gfn e.mfn .ramPagingIn e.a).2
  else s

def Env.pagedInType (env : Env) : P2mType := if env.logDirty then .ramLogdirty else .ramRw

/-- `p2m_mem_paging_prep`; `page` is what `alloc_domheap_page` returns. -/
def pagingPrep (env : Env) (setRc : Nat → Int) (s : State) (gfn : Nat) (buffer : Buffer)
    (page : Option Nat) (copied : Bool) : Int × State :=
  let e := s.table gfn
  if buffer = .bad then (-EINVAL, s)
  else if e.t ≠ .ramPagingIn ∧ e.t ≠ .ramPaged then (-ENOENT, s)
  else if env.mfnValid e.mfn then
    let r := s.setEntry env setRc gfn e.mfn env.pagedInType e.a
    (r.1, r.2.setGpfnFromMfn e.mfn (.gfn gfn))
  else if buffer = .none then (-EINVAL, s)
  else
    match page with
    | none => (-ENOMEM, s)
    | some mfn =>
      if !copied then (-EFAULT, s)
      else
        let r := { s with owner := update s.owner mfn .self }.setEntry env setRc gfn mfn
          env.pagedInType e.a
        (r.1, { r.2.setGpfnFromMfn mfn (.gfn gfn) with pagedPages := s.pagedPages - 1 })

/-- `p2m_mem_paging_resume`; `dropped` is the flag `MEM_PAGING_DROP_PAGE` of the response. -/
def pagingResume (env : Env) (setRc : Nat → Int) (s : State) (gfn : Nat) (dropped : Bool) : State :=
  let e := s.table gfn
  if dropped then s
  else if env.mfnValid e.mfn && decide (e.t = .ramPagingIn) then
    (s.setEntry env setRc gfn e.mfn env.pagedInType e.a).2.setGpfnFromMfn e.mfn (.gfn gfn)
  else s

/-- `clear_mmio_p2m_entry` with the frame found at `gfn`. -/
def clearMmioP2mEntry (env : Env) (setRc : Nat → Int) (s : State) (gfn : Nat) : Int × State :=
  let e := s.table gfn
  if e.mfn = invalidMfn ∨ e.t ≠ .mmioDirect then (-EINVAL, s)
  else s.setEntry env setRc gfn invalidMfn .invalid env.defaultAccess

/-- The end of `guest_remove_page` for a page that is there. -/
def removeBacked (env : Env) (o : Outcomes) (s : State) (gfn : Nat) (getPage lastRef : Bool) :
    Int × State :=
  let mfn := (s.table gfn).mfn
  if !getPage then (0, s)
  else
    let s := (guestPhysmapRemovePage env o s gfn mfn 0).2
    (1, if lastRef then s.freePage mfn else s)

/-- `guest_remove_page`; `lastRef` says whether the page is free once it is given up. -/
def guestRemovePage (env : Env) (o : Outcomes) (s : State) (gfn : Nat) (slot : Slot)
    (getPage lastRef : Bool) : Int × State :=
  let e := s.table gfn
  if e.t.isPaging then
    let s := (guestPhysmapRemovePage env o s gfn e.mfn 0).2
    let s := if decide (e.t = .ramPagingOut) && lastRef then s.freePage e.mfn else s
    (1, pagingDropPage s e.t slot)
  else if e.t = .mmioDirect then (1, (clearMmioP2mEntry env o.removeRc s gfn).2)
  else if !env.mfnValid e.mfn then (0, s)
  else if e.t.isShared then
    let r := s.unsharePage env gfn (o.unshare gfn)
    if r.1 ≠ 0 then (0, s) else removeBacked env o r.2 gfn getPage lastRef
  else removeBacked env o s gfn getPage lastRef

inductive PagingOp where
  | nominate (gfn : Nat) (iomem idle : Bool)
  | evict (gfn : Nat) (getPage idle : Bool)
  | populate (gfn : Nat) (slot : Slot)
  | prep (gfn : Nat) (buffer : Buffer) (page : Option Nat) (copied : Bool)
  | resume (gfn : Nat) (dropped : Bool)
  | removePage (gfn : Nat) (slot : Slot) (getPage lastRef : Bool)
  | addEntry (gfn mfn pageOrder : Nat) (t : P2mType)

def PagingOp.run (env : Env) (o : Outcomes) (s : State) : PagingOp → State
  | .nominate gfn iomem idle => (pagingNominate env o.mapRc s gfn iomem idle).2
  | .evict gfn getPage idle => (pagingEvict env o.mapRc s gfn getPage idle).2
  | .populate gfn slot => pagingPopulate env o.mapRc s gfn slot
  | .prep gfn buffer page copied => (pagingPrep env o.mapRc s gfn buffer page copied).2
  | .resume gfn dropped => pagingResume env o.mapRc s gfn dropped
  | .removePage gfn slot getPage lastRef => (guestRemovePage env o s gfn slot getPage lastRef).2
  | .addEntry gfn mfn pageOrder t => (guestPhysmapAddEntry env o s gfn mfn pageOrder t).2

/-! ## The count -/

abbrev Unbacked (env : Env) (e : Translation) : Prop :=
  e.t = .ramPaged ∨ e.t = .ramPagingIn ∧ env.mfnValid e.mfn = false

/-- `d->paged_pages` is the number of unbacked gfns. -/
def State.PagedExact (env : Env) (s : State) : Prop := s.pagedPages = census (Unbacked env) s.table

structure State.NoPaging (s : State) : Prop where
  types : ∀ x, (s.table x).t.isPaging = false
  paged : s.pagedPages = 0

structure PagingOk (env : Env) (e : Translation) : Prop where
  noFrame : e.t = .ramPaged → env.mfnValid e.mfn = false
  frame : e.t = .ramPagingOut → env.mfnValid e.mfn = true

structure State.PagingInv (env : Env) (s : State) : Prop where
  exact : s.PagedExact env
  sparse : Sparse (Unbacked env) s.table
  ok : ∀ x, PagingOk env (s.table x)

section Single

variable {env : Env} {s s' : State} {gfn : Nat} {e : Translation} {d : Int}

theorem PagingOk.of_not_paging (h : e.t.isPaging = false) : PagingOk env e := by
  constructor <;> intro ht <;> rw [ht] at h <;> cases h

theorem State.NoPaging.inv (h : s.NoPaging) (env : Env) : s.PagingInv env := by
  have hno : ∀ x, ¬ Unbacked env (s.table x) := by
    rintro x (ht | ⟨ht, -⟩) <;> exact absurd (h.types x) (by rw [ht]; decide)
  obtain ⟨hzero, hsparse⟩ := census_eq_zero hno
  refine ⟨?_, hsparse, fun x => .of_not_paging (h.types x)⟩
  rw [State.PagedExact, hzero, h.paged]
  rfl

theorem pagedExact_iff_of_update (inv : s.PagingInv env)
    (htab : s'.table = update s.table gfn e) (hd : s'.pagedPages = s.pagedPages + d) :
    s'.PagedExact env ↔
      d = (if Unbacked env e then 1 else 0) - (if Unbacked env (s.table gfn) then 1 else 0) := by
  have hexact : s.pagedPages = census (Unbacked env) s.table := inv.exact
  rw [State.PagedExact, htab, census_update inv.sparse, hd]
  omega

theorem State.PagingInv.update (inv : s.PagingInv env) (hexact : s'.PagedExact env)
    (htab : s'.table = update s.table gfn e) (he : PagingOk env e) : s'.PagingInv env := by
  refine ⟨hexact, htab ▸ inv.sparse.update gfn e, fun x => ?_⟩
  rw [htab]
  by_cases hx : x = gfn
  · subst hx
    rwa [update_self]
  · rw [update_of_ne hx]
    exact inv.ok x

inductive CountedStep (env : Env) (s s' : State) : Prop
  | same (table : s'.table = s.table) (paged : s'.pagedPages = s.pagedPages)
  | update (gfn : Nat) (e : Translation) (ok : PagingOk env e)
      (table : s'.table = update s.table gfn e)
      (paged : s'.pagedPages = s.pagedPages +
        ((if Unbacked env e then 1 else 0) - (if Unbacked env (s.table gfn) then 1 else 0)))

theorem CountedStep.inv (h : CountedStep env s s') (inv : s.PagingInv env) : s'.PagingInv env := by
  cases h with
  | same htab hd =>
    refine ⟨?_, htab ▸ inv.sparse, htab ▸ inv.ok⟩
    rw [State.PagedExact, htab, hd]
    exact inv.exact
  | update gfn e ok htab hd =>
    exact inv.update ((pagedExact_iff_of_update inv htab hd).2 rfl) htab ok

theorem CountedStep.of_eq (ok : PagingOk env e)
    (table : s'.table = Function.update s.table gfn e) (paged : s'.pagedPages = s.pagedPages)
    (h : Unbacked env e ↔ Unbacked env (s.table gfn)) : CountedStep env s s' := by
  refine .update gfn e ok table ?_
  rw [if_congr h rfl rfl]
  omega

theorem setEntry_ok {setRc : Nat → Int} (h : setRc gfn = 0) (mfn : Nat) (t : P2mType)
    (a : P2mAccess) :
    s.setEntry env setRc gfn mfn t a =
      (0, { s with table := update s.table gfn (stored mfn t a) }) := by
  unfold State.setEntry
  rw [p2mSetEntry_zero]
  simp only [h, if_true]
  unfold Mapping.at frameAt
  rw [Nat.sub_self, Nat.add_zero, ite_self]

theorem not_unbacked_of_not_paging (h : e.t.isPaging = false) : ¬ Unbacked env e := by
  rintro (ht | ⟨ht, -⟩) <;> rw [ht] at h <;> cases h

theorem not_unbacked_of_valid (ht : e.t ≠ .ramPaged) (hv : env.mfnValid e.mfn = true) :
    ¬ Unbacked env e := by
  rintro (h | ⟨-, h⟩)
  · exact ht h
  · rw [hv] at h
    cases h

theorem CountedStep.of_backed (hold : ¬ Unbacked env (s.table gfn)) (hnew : e.t.isPaging = false)
    (table : s'.table = Function.update s.table gfn e) (paged : s'.pagedPages = s.pagedPages) :
    CountedStep env s s' :=
  .of_eq (.of_not_paging hnew) table paged (iff_of_false (not_unbacked_of_not_paging hnew) hold)

theorem pagedInType_cases (env : Env) : env.pagedInType = .ramLogdirty ∨
    env.pagedInType = .ramRw := by
  unfold Env.pagedInType
  split
  · exact .inl rfl
  · exact .inr rfl

theorem pagedIn_not_paging (env : Env) (mfn : Nat) (a : P2mAccess) :
    (stored mfn env.pagedInType a).t.isPaging = false := by
  rcases pagedInType_cases env with h | h <;> rw [h] <;> rfl

variable {setRc : Nat → Int} (h : setRc gfn = 0)

include h

theorem pagingNominate_counted (iomem idle : Bool) :
    CountedStep env s (pagingNominate env setRc s gfn iomem idle).2 := by
  unfold pagingNominate
  simp only
  split
  · exact .same rfl rfl
  rename_i hc
  simp only [Bool.or_eq_true, Bool.not_eq_true', not_or, Bool.not_eq_false] at hc
  rw [setEntry_ok h]
  refine .of_eq ?_ rfl rfl ?_
  · exact ⟨nofun, fun _ => hc.1.1.1⟩
  · have hold : (s.table gfn).t.isPaging = false := by
      have hp := hc.1.1.2
      cases ht : (s.table gfn).t <;> rw [ht] at hp <;> first | rfl | cases hp
    refine iff_of_false ?_ (not_unbacked_of_not_paging hold)
    rintro (ht | ⟨ht, -⟩) <;> cases ht

theorem pagingEvict_counted (getPage idle : Bool) :
    CountedStep env s (pagingEvict env setRc s gfn getPage idle).2 := by
  unfold pagingEvict
  simp only
  split
  · exact .same rfl rfl
  rename_i hc
  simp only [Bool.or_eq_true, Bool.not_eq_true', not_or, Bool.not_eq_false, decide_eq_true_eq,
    not_not] at hc
  rw [setEntry_ok h]
  refine .update gfn (stored invalidMfn .ramPaged (s.table gfn).a) ?_ rfl ?_
  · exact ⟨fun _ => env.mfnValid_invalidMfn, nofun⟩
  · have hold : ¬ Unbacked env (s.table gfn) := by
      rintro (ht | ⟨ht, -⟩) <;> rw [hc.1.1.2] at ht <;> cases ht
    have hnew : Unbacked env (stored invalidMfn .ramPaged (s.table gfn).a) := .inl rfl
    rw [if_neg hold]
    rfl

theorem pagingPopulate_counted (inv : s.PagingInv env) (slot : Slot) :
    CountedStep env s (pagingPopulate env setRc s gfn slot) := by
  unfold pagingPopulate
  simp only
  split
  · exact .same rfl rfl
  split
  · rename_i ht
    rw [setEntry_ok h]
    refine .of_eq ?_ rfl rfl ?_
    · constructor <;> intro h <;> cases h
    · -- a nominated page takes its frame along, a paged-out one has none
      rcases ht with ht | ht
      · have hv := (inv.ok gfn).frame ht
        refine iff_of_false (not_unbacked_of_valid nofun hv) (not_unbacked_of_valid ?_ hv)
        rw [ht]
        decide
      · exact iff_of_true (.inr ⟨rfl, (inv.ok gfn).noFrame ht⟩) (.inl ht)
  · exact .same rfl rfl

theorem pagingPrep_counted (inv : s.PagingInv env) (buffer : Buffer) (page : Option Nat)
    (copied : Bool) : CountedStep env s (pagingPrep env setRc s gfn buffer page copied).2 := by
  unfold pagingPrep
  simp only
  split
  · exact .same rfl rfl
  split
  · exact .same rfl rfl
  rename_i ht
  split
  · rename_i hv
    rw [setEntry_ok h]
    refine .of_backed (not_unbacked_of_valid (fun hp => ?_) hv)
      (pagedIn_not_paging env (s.table gfn).mfn (s.table gfn).a) rfl rfl
    rw [(inv.ok gfn).noFrame hp] at hv
    cases hv
  rename_i hv
  split
  · exact .same rfl rfl
  cases page with
  | none => exact .same rfl rfl
  | some mfn =>
    simp only
    split
    · exact .same rfl rfl
    rw [setEntry_ok h]
    refine .update gfn _ (.of_not_paging (pagedIn_not_paging env mfn (s.table gfn).a)) rfl ?_
    have hold : Unbacked env (s.table gfn) := by
      by_cases hp : (s.table gfn).t = .ramPaged
      · exact .inl hp
      · refine .inr ⟨?_, Bool.eq_false_iff.2 hv⟩
        by_contra hi
        exact ht ⟨hi, hp⟩
    rw [if_neg (not_unbacked_of_not_paging (pagedIn_not_paging env _ _)), if_pos hold]
    rfl

theorem pagingResume_counted (dropped : Bool) :
    CountedStep env s (pagingResume env setRc s gfn dropped) := by
  unfold pagingResume
  simp only
  split
  · exact .same rfl rfl
  split
  · rename_i hc
    rw [Bool.and_eq_true, decide_eq_true_eq] at hc
    rw [setEntry_ok h]
    refine .of_backed (not_unbacked_of_valid ?_ hc.1)
      (pagedIn_not_paging env (s.table gfn).mfn (s.table gfn).a) rfl rfl
    rw [hc.2]
    decide
  · exact .same rfl rfl

end Single

/-! ## Removing a page -/

section Remove

variable {env : Env} {o : Outcomes} {s : State} {gfn : Nat}

theorem removeBacked_counted (ho : o.Succeeds) (s₁ : State) {e : Translation}
    (h₁ : s₁.table = update s.table gfn e) (hp : s₁.pagedPages = s.pagedPages)
    (hold : ¬ Unbacked env (s.table gfn)) (hnew : e.t.isPaging = false) (getPage lastRef : Bool) :
    CountedStep env s (removeBacked env o s₁ gfn getPage lastRef).2 := by
  unfold removeBacked
  cases getPage with
  | false => exact .of_backed hold hnew h₁ hp
  | true =>
    obtain ⟨htab, hpaged, -⟩ := p2mRemovePage_zero env (ho.remove gfn) s₁ (s₁.table gfn).mfn
    have htab := htab.trans (by rw [h₁, update_idem])
    have hnone : Translation.none.t.isPaging = false := rfl
    cases lastRef with
    | true | false => exact .of_backed hold hnone htab (hpaged.trans hp)

theorem guestRemovePage_other (ho : o.Succeeds) (hold : (s.table gfn).t.isPaging = false)
    (slot : Slot) (getPage lastRef : Bool) :
    CountedStep env s (guestRemovePage env o s gfn slot getPage lastRef).2 := by
  have hself : s.table = update s.table gfn (s.table gfn) :=
    (update_eq_self _ _).symm
  have hback : ¬ Unbacked env (s.table gfn) := not_unbacked_of_not_paging hold
  unfold guestRemovePage
  simp only [hold, Bool.false_eq_true, if_false]
  split
  · unfold clearMmioP2mEntry
    simp only
    split
    · exact .same rfl rfl
    · rw [setEntry_ok (ho.remove gfn)]
      exact .of_backed hback rfl rfl rfl
  split
  · exact .same rfl rfl
  split
  · cases hu : o.unshare gfn with
    | nomem => exact .same rfl rfl
    | keep =>
      exact removeBacked_counted ho (s.privatise env gfn (s.table gfn).mfn) rfl rfl hback rfl _ _
    | copy mfn => exact removeBacked_counted ho (s.privatise env gfn mfn) rfl rfl hback rfl _ _
  · exact removeBacked_counted ho s hself rfl hback hold _ _

theorem pagingDropPage_spec (s : State) (t : P2mType) (slot : Slot) :
    (pagingDropPage s t slot).table = s.table ∧
    (pagingDropPage s t slot).pagedPages =
      s.pagedPages + if slot = .claimed ∧ t ≠ .ramPagingOut then -1 else 0 := by
  unfold pagingDropPage
  by_cases hslot : slot = .claimed
  · by_cases hout : t = .ramPagingOut
    · simp [hslot, hout]
    · simp [hslot, hout]
      rfl
  · simp [hslot]

theorem guestRemovePage_paging {slot : Slot} {getPage lastRef : Bool} {r : Int × State}
    (inv : s.PagingInv env) (ho : o.Succeeds) (hold : (s.table gfn).t.isPaging = true)
    (hr : guestRemovePage env o s gfn slot getPage lastRef = r) :
    (r.2.PagedExact env ↔
      (slot = .claimed ∧ (s.table gfn).t ≠ .ramPagingOut ↔ Unbacked env (s.table gfn))) ∧
    r.2.table = update s.table gfn .none := by
  obtain ⟨htab, hpaged, -⟩ := p2mRemovePage_zero env (ho.remove gfn) s (s.table gfn).mfn
  have hval : r.2.table = update s.table gfn .none ∧ r.2.pagedPages = s.pagedPages +
      if slot = .claimed ∧ (s.table gfn).t ≠ .ramPagingOut then -1 else 0 := by
    unfold guestRemovePage at hr
    simp only [hold, if_true] at hr
    cases hr
    have hfree : ∀ (c : Bool) (s : State) (f : Nat),
        (if c = true then s.freePage f else s).table = s.table ∧
        (if c = true then s.freePage f else s).pagedPages = s.pagedPages := by
      intro c s f
      cases c <;> exact ⟨rfl, rfl⟩
    obtain ⟨hdt, hdp⟩ := pagingDropPage_spec
      (if (decide ((s.table gfn).t = .ramPagingOut) && lastRef) = true then
        (guestPhysmapRemovePage env o s gfn (s.table gfn).mfn 0).2.freePage (s.table gfn).mfn
      else (guestPhysmapRemovePage env o s gfn (s.table gfn).mfn 0).2) (s.table gfn).t slot
    rw [(hfree _ _ _).1] at hdt
    rw [(hfree _ _ _).2] at hdp
    exact ⟨hdt.trans htab, hdp.trans (congrArg (· + _) hpaged)⟩
  refine ⟨(pagedExact_iff_of_update inv hval.1 hval.2).trans ?_, hval.1⟩
  have hnone : ¬ Unbacked env .none := not_unbacked_of_not_paging rfl
  rw [if_neg hnone]
  by_cases hc : slot = .claimed ∧ (s.table gfn).t ≠ .ramPagingOut <;>
    by_cases hu : Unbacked env (s.table gfn) <;> simp only [hc, hu, if_true, if_false] <;> simp

end Remove

section Add

variable {env : Env} {o : Outcomes} {s : State} {gfn mfn pageOrder : Nat} {t : P2mType}

/-- A range that is plugged has no unbacked `p2m_ram_paging_in` gfn; a call that stops came across
no `p2m_ram_paged` one. -/
def AddCounts (env : Env) (o : Outcomes) (s : State) (gfn mfn pageOrder : Nat) : Prop :=
  (o.Admits env s gfn mfn pageOrder → ∀ x ∈ gfns gfn pageOrder,
    ¬ ((s.table x).t = .ramPagingIn ∧ env.mfnValid (s.table x).mfn = false)) ∧
  (¬ o.Admits env s gfn mfn pageOrder → ∀ x ∈ examined o s gfn pageOrder,
    (s.table x).t ≠ .ramPaged)

theorem addEntry_paged {r : Int × State} (inv : s.PagingInv env) (ho : o.Succeeds)
    (ht : t.isForeign = false) (hp : t.isPaging = false)
    (hfits : env.mfnValid mfn = true → mfn + 2 ^ pageOrder ≤ invalidMfn)
    (hr : guestPhysmapAddEntry env o s gfn mfn pageOrder t = r) :
    (r.2.PagedExact env ↔ AddCounts env o s gfn mfn pageOrder) ∧
    Sparse (Unbacked env) r.2.table ∧ ∀ x, PagingOk env (r.2.table x) := by
  have eff : AddEffect env o s gfn mfn pageOrder t _ := addEntry_effect ho ht hfits
  rw [hr] at eff
  unfold AddCounts
  rw [← eff.rc]
  have hexact : s.pagedPages = census (Unbacked env) s.table := inv.exact
  have halias : ∀ {e e'}, WasAlias env e e' → PagingOk env e' ∧
      (Unbacked env e' ↔ Unbacked env e) := by
    rintro e e' ⟨rfl, hr, hv⟩
    refine ⟨.of_not_paging rfl, iff_of_false (not_unbacked_of_not_paging rfl)
      (not_unbacked_of_valid (fun h => ?_) hv)⟩
    rw [h] at hr
    cases hr
  have hout : ∀ x, x ∉ gfns gfn pageOrder → PagingOk env (r.2.table x) ∧
      (Unbacked env (r.2.table x) ↔ Unbacked env (s.table x)) := by
    intro x hx
    rcases eff.outside x hx with h | h
    · rw [h]
      exact ⟨inv.ok x, Iff.rfl⟩
    · exact halias h
  by_cases hrc : r.1 = 0
  · have hnew : ∀ x ∈ gfns gfn pageOrder, (r.2.table x).t.isPaging = false := by
      intro x hx
      rw [eff.mapped hrc x hx]
      split
      · unfold Mapping.at stored
        split
        · rfl
        · split
          · rfl
          · exact hp
      · rfl
    refine ⟨?_, inv.sparse.of_agree fun x hx => (hout x hx).2, fun x => ?_⟩
    · have hzero : ((gfns gfn pageOrder).countP fun x => Unbacked env (r.2.table x)) = 0 :=
        List.countP_eq_zero.2 fun x hx => by
          simpa using not_unbacked_of_not_paging (hnew x hx)
      simp only [hrc, forall_const, not_true_eq_false, false_imp_iff, and_true]
      rw [State.PagedExact,
        census_of_agree (nodup_gfns gfn pageOrder) inv.sparse fun x hx => (hout x hx).2,
        eff.paged, eff.whole hrc]
      have hcount := countP_eq_iff (l := gfns gfn pageOrder)
        (q := fun x => decide ((s.table x).t = .ramPaged))
        (r := fun x => decide (Unbacked env (s.table x))) fun x _ hq => by
          rw [decide_eq_true_eq] at hq ⊢
          exact .inl hq
      refine (show _ ↔ _ by omega).trans (hcount.trans (forall₂_congr fun x _ => ?_))
      simp only [decide_eq_true_eq]
      constructor
      · rintro h ⟨hi, hv⟩
        rw [h (.inr ⟨hi, hv⟩)] at hi
        cases hi
      · exact fun h hu => hu.resolve_right h
    · by_cases hx : x ∈ gfns gfn pageOrder
      · exact .of_not_paging (hnew x hx)
      · exact (hout x hx).1
  · have hin : ∀ x, PagingOk env (r.2.table x) ∧
        (Unbacked env (r.2.table x) ↔ Unbacked env (s.table x)) := by
      intro x
      by_cases hx : x ∈ gfns gfn pageOrder
      · rcases eff.stopped hrc x hx with h | ⟨hs, h⟩
        · rw [h]
          exact ⟨inv.ok x, Iff.rfl⟩
        · have hnew : (r.2.table x).t.isPaging = false := by rw [h]; rfl
          have hold : (s.table x).t.isPaging = false := by
            cases hto : (s.table x).t <;> rw [hto] at hs <;> first | rfl | cases hs
          exact ⟨.of_not_paging hnew, iff_of_false (not_unbacked_of_not_paging hnew)
            (not_unbacked_of_not_paging hold)⟩
      · exact hout x hx
    refine ⟨?_, inv.sparse.of_agree (l := []) fun x _ => (hin x).2, fun x => (hin x).1⟩
    have hcount : ((examined o s gfn pageOrder).countP fun x => (s.table x).t = .ramPaged) = 0 ↔
        ∀ x ∈ examined o s gfn pageOrder, (s.table x).t ≠ .ramPaged := by
      simp
    simp only [hrc, false_imp_iff, not_false_eq_true, forall_const, true_and]
    rw [← hcount, State.PagedExact, census_congr fun x => (hin x).2, eff.paged]
    omega

end Add

/-! ## Runs -/

/-- The updates of the p2m succeed; a new mapping is not of a paging type and has frame numbers. -/
def PagingOp.Sound (env : Env) (o : Outcomes) : PagingOp → Prop
  | .addEntry _ mfn pageOrder t => o.Succeeds ∧ t.isPaging = false ∧
      (env.mfnValid mfn = true → mfn + 2 ^ pageOrder ≤ invalidMfn)
  | _ => o.Succeeds

/-- The step counts the unbacked gfns that it makes and those that it takes away. -/
def PagingOp.Counts (env : Env) (o : Outcomes) (s : State) : PagingOp → Prop
  | .removePage gfn slot _ _ => (s.table gfn).t.isPaging = true →
      (slot = .claimed ∧ (s.table gfn).t ≠ .ramPagingOut ↔ Unbacked env (s.table gfn))
  | .addEntry gfn mfn pageOrder t => t.isForeign = false → AddCounts env o s gfn mfn pageOrder
  | _ => True

def pagingStep (env : Env) (s : State) (a : Outcomes × PagingOp) : Except Empty State :=
  .ok (a.2.run env a.1 s)

section Runs

variable {env : Env} {o : Outcomes} {s : State}

theorem PagingOp.exact_iff (inv : s.PagingInv env) {op : PagingOp} (hs : op.Sound env o) :
    ((op.run env o s).PagedExact env ↔ op.Counts env o s) ∧
      ((op.run env o s).PagedExact env → (op.run env o s).PagingInv env) := by
  have counted : ∀ {s' : State}, CountedStep env s s' →
      (s'.PagedExact env ↔ True) ∧ (s'.PagedExact env → s'.PagingInv env) := fun h =>
    ⟨iff_true_intro (h.inv inv).exact, fun _ => h.inv inv⟩
  cases op with
  | nominate gfn iomem idle => exact counted (pagingNominate_counted (hs.map gfn) iomem idle)
  | evict gfn getPage idle => exact counted (pagingEvict_counted (hs.map gfn) getPage idle)
  | populate gfn slot => exact counted (pagingPopulate_counted (hs.map gfn) inv slot)
  | prep gfn buffer page copied =>
    exact counted (pagingPrep_counted (hs.map gfn) inv buffer page copied)
  | resume gfn dropped => exact counted (pagingResume_counted (hs.map gfn) dropped)
  | removePage gfn slot getPage lastRef =>
    cases hold : (s.table gfn).t.isPaging with
    | true =>
      obtain ⟨hiff, htab⟩ := guestRemovePage_paging inv hs hold rfl
      exact ⟨hiff.trans ⟨fun h _ => h, fun h => h hold⟩,
        fun h => inv.update h htab (.of_not_paging rfl)⟩
    | false =>
      obtain ⟨hiff, hinv⟩ := counted (guestRemovePage_other hs hold slot getPage lastRef)
      refine ⟨hiff.trans (iff_of_true trivial fun h => ?_), hinv⟩
      rw [hold] at h
      cases h
  | addEntry gfn mfn pageOrder t =>
    obtain ⟨ho, hp, hfits⟩ := hs
    cases ht : t.isForeign with
    | true =>
      have hsame : PagingOp.run env o s (.addEntry gfn mfn pageOrder t) = s := by
        show (guestPhysmapAddEntry env o s gfn mfn pageOrder t).2 = s
        rw [guestPhysmapAddEntry, if_pos ht]
      rw [hsame]
      refine ⟨iff_of_true inv.exact fun h => ?_, fun _ => inv⟩
      rw [ht] at h
      cases h
    | false =>
      obtain ⟨hiff, hsparse, hok⟩ := addEntry_paged inv ho ht hp hfits rfl
      exact ⟨hiff.trans ⟨fun h _ => h, fun h => h ht⟩, fun h => ⟨h, hsparse, hok⟩⟩

/-- **Paged-out pages are counted exactly** along every run whose steps count what they change, and
a further step keeps it so exactly if it does. -/
theorem paged_pages_exact {s₀ : State} (h₀ : s₀.NoPaging)
    (run : Reaches (pagingStep env) (fun s a => a.2.Sound env a.1 ∧ a.2.Counts env a.1 s) s₀ s) :
    s.PagedExact env ∧ ∀ (o : Outcomes) (op : PagingOp), op.Sound env o →
      ((op.run env o s).PagedExact env ↔ op.Counts env o s) := by
  have inv : s.PagingInv env := by
    refine run.invariant (fun s a s' hg hs hinv => ?_) (h₀.inv env)
    cases hs
    obtain ⟨hiff, hinv'⟩ := PagingOp.exact_iff hinv hg.1
    exact hinv' (hiff.2 hg.2)
  exact ⟨inv.exact, fun o op hs => (PagingOp.exact_iff inv hs).1⟩

def oneFrame : State where
  table := update (fun _ => .none) 3 ⟨2, .ramRw, .rwx⟩
  m2p := update (fun _ => .invalid) 2 (.gfn 3)
  owner := update (fun _ => .other) 2 .self
  pagedPages := 0
  pod := ⟨0, 0, [], [], 0, 0, fun _ => 0, 0⟩
  freed := []

theorem oneFrame_noPaging : oneFrame.NoPaging where
  types x := by
    by_cases hx : x = 3
    · subst hx
      rfl
    · show (update (fun _ => Translation.none) 3 _ x).t.isPaging = false
      rw [update_of_ne hx]
      rfl
  paged := rfl

def pagingGood : Outcomes := ⟨fun _ => .keep, fun _ => 0, fun _ => 0⟩

theorem pagingGood_succeeds : pagingGood.Succeeds := ⟨fun _ => rfl, fun _ => rfl⟩

/-- Nominated and evicted: one page out. -/
theorem paged_pages_exact_evicted :
    let s := PagingOp.run smallMachine pagingGood
      (PagingOp.run smallMachine pagingGood oneFrame (.nominate 3 false true)) (.evict 3 true true)
    s.pagedPages = 1 ∧ s.PagedExact smallMachine :=
  ⟨by decide, (paged_pages_exact oneFrame_noPaging (.tail (.single
    ⟨(pagingGood, .nominate 3 false true), ⟨pagingGood_succeeds, trivial⟩, rfl⟩)
    ⟨(pagingGood, .evict 3 true true), ⟨pagingGood_succeeds, trivial⟩, rfl⟩)).1⟩

/-- Nominated, populated before it was evicted, and given back: the counter goes to `-1`. -/
theorem nominated_page_given_back :
    let s := PagingOp.run smallMachine pagingGood
      (PagingOp.run smallMachine pagingGood
        (PagingOp.run smallMachine pagingGood oneFrame (.nominate 3 false true))
        (.populate 3 .claimed))
      (.removePage 3 .claimed true true)
    oneFrame.NoPaging ∧ s.pagedPages = -1 ∧ census (Unbacked smallMachine) s.table = 0 := by
  refine ⟨oneFrame_noPaging, by decide, (census_eq_zero fun x => ?_).1⟩
  show ¬ Unbacked smallMachine (Table.setBlock (Table.setBlock (Table.setBlock oneFrame.table
    ⟨3, 2, .ramPagingOut, .rwx⟩ 1) ⟨3, 2, .ramPagingIn, .rwx⟩ 1)
      ⟨3, invalidMfn, .invalid, .rwx⟩ 1 x)
  refine not_unbacked_of_not_paging ?_
  by_cases hx : x = 3
  · subst hx
    rfl
  · have hne : ∀ q : Mapping, q.gfn = 3 → ∀ tab : Table, tab.setBlock q 1 x = tab x :=
      fun q hq tab => if_neg (by omega)
    rw [hne _ rfl, hne _ rfl, hne _ rfl]
    exact oneFrame_noPaging.types x

end Runs

end XenVmi.P2m
