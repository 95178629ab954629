import Mathlib.Data.List.TakeWhile
import XenVmi.P2m.Table
import XenVmi.Lib.Runs

/-!
# Adding and removing guest frames

Model of `guest_physmap_add_entry` and `guest_physmap_remove_page` (`mm/p2m.c:600-807`) for a
translated domain. The first goes over its range three times: `clearOld` clears the M2P entries of
the frames mapped so far, `dropAliases` removes the gfns at which the new frames are mapped, and
`p2m_set_entry` writes the mapping, after which the M2P entries follow.
-/

namespace XenVmi.P2m

open Function XenVmi.Ept XenVmi.Lib List

/-! ## The operations -/

/-- What `mem_sharing_unshare_page` comes to: no memory, the page becomes private, or a copy. -/
inductive Unshare where
  | nomem
  | keep
  | copy (mfn : Nat)
  deriving Repr, DecidableEq

structure Outcomes where
  unshare : Nat → Unshare
  removeRc : Nat → Int
  /-- `set_entry` for the new mapping. -/
  mapRc : Nat → Int

/-- `mem_sharing_unshare_page` of a shared gfn once it has its private frame `mfn`. -/
def State.privatise (env : Env) (s : State) (gfn mfn : Nat) : State :=
  { s with
    table := update s.table gfn ⟨mfn, .ramRw, env.defaultAccess⟩
    owner := update s.owner mfn .self
    m2p := update s.m2p mfn (.gfn gfn) }

def State.unsharePage (env : Env) (s : State) (gfn : Nat) : Unshare → Int × State
  | .nomem => (-ENOMEM, s)
  | .keep => (0, s.privatise env gfn (s.table gfn).mfn)
  | .copy mfn => (0, s.privatise env gfn mfn)

def mapsRam (t : P2mType) : Bool := t.isRam && !t.isPaged

def State.giveUp (s : State) (gfn : Nat) : State :=
  let old := s.table gfn
  if mapsRam old.t then s.setGpfnFromMfn old.mfn .invalid
  else if old.t = .populateOnDemand then s
  else if old.t.isPaging && decide (old.t ≠ .ramPagingOut) then
    { s with pagedPages := s.pagedPages - 1 }
  else s

/-- The first pass: error code, number of populate-on-demand entries, state. -/
def clearOld (env : Env) (o : Outcomes) : List Nat → State → Int × Nat × State
  | [], s => (0, 0, s)
  | x :: xs, s =>
    let r := if (s.table x).t.isShared then s.unsharePage env x (o.unshare x) else (0, s)
    if r.1 ≠ 0 then (r.1, 0, r.2)
    else
      let ot := (r.2.table x).t
      if ot.isGrant || ot.isForeign then (-EINVAL, 0, r.2)
      else
        let next := clearOld env o xs (r.2.giveUp x)
        (next.1, next.2.1 + (if ot = .populateOnDemand then 1 else 0), next.2.2)

/-- `p2m_remove_page` of a translated domain. -/
def p2mRemovePage (env : Env) (setRc : Nat → Int) (s : State) (gfn mfn pageOrder : Nat) :
    Int × State :=
  let clear (s : State) (i : Nat) : State :=
    let t := (s.table (gfn + i)).t
    if !t.isGrant && !t.isShared && !t.isForeign then s.setGpfnFromMfn (mfn + i) .invalid else s
  let s := if env.mfnValid mfn then (List.range (2 ^ pageOrder)).foldl clear s else s
  let r := p2mSetEntry env setRc s.table ⟨gfn, invalidMfn, .invalid, env.defaultAccess⟩ pageOrder
  (r.1, { s with table := r.2 })

def guestPhysmapRemovePage (env : Env) (o : Outcomes) (s : State) (gfn mfn pageOrder : Nat) :
    Int × State :=
  p2mRemovePage env o.removeRc s gfn mfn pageOrder

/-- The gfn at which `mfn` is mapped so far, if that is RAM and not `gfn`. -/
def State.aliasOf (s : State) (gfn mfn : Nat) : Option Nat :=
  match s.m2p mfn with
  | .gfn ogfn =>
    if ogfn ≠ gfn ∧ mapsRam (s.table ogfn).t = true ∧ (s.table ogfn).mfn = mfn then some ogfn
    else none
  | _ => none

/-- `page_get_owner(mfn_to_page(mfn))`, where there is a page. -/
def State.ownerOf (env : Env) (s : State) (mfn : Nat) : Owner :=
  if env.mfnValid mfn then s.owner mfn else .other

def dropAliases (env : Env) (o : Outcomes) (gfn mfn : Nat) : List Nat → State → Int × State
  | [], s => (0, s)
  | i :: is, s =>
    if s.ownerOf env (mfn + i) = .cow then (-EINVAL, s)
    else if s.ownerOf env (mfn + i) ≠ .self then dropAliases env o gfn mfn is s
    else
      match s.aliasOf (gfn + i) (mfn + i) with
      | some ogfn =>
        dropAliases env o gfn mfn is (p2mRemovePage env o.removeRc s ogfn (mfn + i) 0).2
      | none => dropAliases env o gfn mfn is s

/-- The last loop of `guest_physmap_add_entry`. -/
def State.setM2p (s : State) (gfn mfn n : Nat) : State :=
  (List.range n).foldl (fun s i => s.setGpfnFromMfn (mfn + i) (.gfn (gfn + i))) s

def mapRange (env : Env) (o : Outcomes) (s : State) (gfn mfn pageOrder : Nat) (t : P2mType)
    (podCount : Nat) : Int × State :=
  if env.mfnValid mfn then
    let r := p2mSetEntry env o.mapRc s.table ⟨gfn, mfn, t, env.defaultAccess⟩ pageOrder
    let s := { s with table := r.2 }
    if r.1 ≠ 0 then (r.1, s)
    else (0, if t.isGrant then s else s.setM2p gfn mfn (2 ^ pageOrder))
  else
    let r := p2mSetEntry env o.mapRc s.table ⟨gfn, invalidMfn, .invalid, env.defaultAccess⟩
      pageOrder
    let s := { s with table := r.2 }
    (r.1, if r.1 = 0 then
        { s with pod := { s.pod with entryCount := s.pod.entryCount - podCount } }
      else s)

def gfns (gfn pageOrder : Nat) : List Nat := (List.range (2 ^ pageOrder)).map (gfn + ·)

/-- `guest_physmap_add_entry` of a translated domain. -/
def guestPhysmapAddEntry (env : Env) (o : Outcomes) (s : State) (gfn mfn pageOrder : Nat)
    (t : P2mType) : Int × State :=
  if t.isForeign then (-EINVAL, s)
  else
    let r := clearOld env o (gfns gfn pageOrder) s
    if r.1 ≠ 0 then (r.1, r.2.2)
    else
      let r' := dropAliases env o gfn mfn (List.range (2 ^ pageOrder)) r.2.2
      if r'.1 ≠ 0 then r'
      else mapRange env o r'.2 gfn mfn pageOrder t r.2.1

/-! ## The first pass -/

def Outcomes.privateFrame (o : Outcomes) (s : State) (x : Nat) : Option Nat :=
  match o.unshare x with
  | .nomem => none
  | .keep => some (s.table x).mfn
  | .copy mfn => some mfn

def Outcomes.oldFrame (o : Outcomes) (s : State) (x : Nat) : Option Nat :=
  if (s.table x).t.isShared then o.privateFrame s x
  else if mapsRam (s.table x).t then some (s.table x).mfn
  else none

def Outcomes.passes (o : Outcomes) (s : State) (x : Nat) : Bool :=
  if (s.table x).t.isShared then decide (o.unshare x ≠ .nomem)
  else !(s.table x).t.isGrant && !(s.table x).t.isForeign

def examined (o : Outcomes) (s : State) (gfn pageOrder : Nat) : List Nat :=
  (gfns gfn pageOrder).takeWhile (o.passes s)

/-- Going over `xs` makes `f` a private frame of the domain. -/
def Unshares (o : Outcomes) (s : State) (xs : List Nat) (f : Nat) : Prop :=
  ∃ x ∈ xs, (s.table x).t.isShared = true ∧ o.oldFrame s x = some f

/-- What the first pass has done once it went over `xs`. -/
structure Cleared (env : Env) (o : Outcomes) (s : State) (xs : List Nat) (s' : State) : Prop where
  kept : ∀ x, x ∉ xs ∨ (s.table x).t.isShared = false → s'.table x = s.table x
  unshared : ∀ x ∈ xs, (s.table x).t.isShared = true →
    ∃ mfn, o.oldFrame s x = some mfn ∧ s'.table x = ⟨mfn, .ramRw, env.defaultAccess⟩
  m2p_kept : ∀ mfn, (∀ x ∈ xs, o.oldFrame s x ≠ some mfn) → s'.m2p mfn = s.m2p mfn
  m2p_cleared : ∀ mfn, ∀ x ∈ xs, o.oldFrame s x = some mfn → ∀ g, s'.m2p mfn ≠ .gfn g
  owner : ∀ mfn, s'.owner mfn = s.owner mfn ∨ s'.owner mfn = .self ∧ Unshares o s xs mfn
  owned : ∀ mfn, Unshares o s xs mfn → s'.owner mfn = .self
  paged : s'.pagedPages = s.pagedPages - xs.countP fun x => (s.table x).t = .ramPaged
  pod : s'.pod = s.pod
  freed : s'.freed = s.freed

def Clears (o : Outcomes) (s : State) (xs : List Nat) (f : Nat) : Prop :=
  ∃ x ∈ xs, o.oldFrame s x = some f

section FirstPass

variable {env : Env} {o : Outcomes} {s s₁ s₂ : State} {x : Nat} {xs : List Nat}

theorem Cleared.refl (env : Env) (o : Outcomes) (s : State) : Cleared env o s [] s where
  kept _ _ := rfl
  unshared _ hx := absurd hx not_mem_nil
  m2p_kept _ _ := rfl
  m2p_cleared _ _ hx := absurd hx not_mem_nil
  owner _ := .inl rfl
  owned _ h := h.elim fun _ hx => absurd hx.1 not_mem_nil
  paged := (Int.sub_zero _).symm
  pod := rfl
  freed := rfl

theorem oldFrame_congr (h : s₁.table x = s.table x) : o.oldFrame s₁ x = o.oldFrame s x := by
  unfold Outcomes.oldFrame Outcomes.privateFrame
  rw [h]

theorem passes_congr (h : s₁.table x = s.table x) : o.passes s₁ x = o.passes s x := by
  unfold Outcomes.passes
  rw [h]

theorem Cleared.cons (h : Cleared env o s [x] s₁) (h' : Cleared env o s₁ xs s₂) (hx : x ∉ xs) :
    Cleared env o s (x :: xs) s₂ := by
  have same : ∀ y ∈ xs, s₁.table y = s.table y := fun y hy =>
    h.kept y (.inl fun hyx => hx (mem_singleton.1 hyx ▸ hy))
  refine ⟨fun y hy => ?_, fun y hy hshared => ?_, fun f hf => ?_, fun f y hy hf g => ?_,
    fun f => ?_, ?_, ?_, h'.pod.trans h.pod, h'.freed.trans h.freed⟩
  · have h1 : s₁.table y = s.table y := h.kept y <| hy.imp_left fun hn hyx =>
      hn (mem_singleton.1 hyx ▸ mem_cons_self)
    refine (h'.kept y ?_).trans h1
    rw [h1]
    exact hy.imp_left fun hn hyx => hn (mem_cons_of_mem _ hyx)
  · rcases mem_cons.1 hy with rfl | hyx
    · obtain ⟨f, hf, ht⟩ := h.unshared y mem_cons_self hshared
      exact ⟨f, hf, (h'.kept y (.inl hx)).trans ht⟩
    · rw [← same y hyx] at hshared
      obtain ⟨f, hf, ht⟩ := h'.unshared y hyx hshared
      exact ⟨f, (oldFrame_congr (same y hyx)).symm.trans hf, ht⟩
  · refine (h'.m2p_kept f fun y hy => ?_).trans (h.m2p_kept f fun y hy => ?_)
    · rw [oldFrame_congr (same y hy)]
      exact hf y (mem_cons_of_mem _ hy)
    · exact hf y (mem_singleton.1 hy ▸ mem_cons_self)
  · by_cases hlater : ∃ z ∈ xs, o.oldFrame s₁ z = some f
    · obtain ⟨z, hz, hzf⟩ := hlater
      exact h'.m2p_cleared f z hz hzf g
    · have hnone : ∀ z ∈ xs, o.oldFrame s₁ z ≠ some f := fun z hz hzf => hlater ⟨z, hz, hzf⟩
      rw [h'.m2p_kept f hnone]
      rcases mem_cons.1 hy with rfl | hyx
      · exact h.m2p_cleared f y mem_cons_self hf g
      · exact absurd ((oldFrame_congr (same y hyx)).trans hf) (hnone y hyx)
  · rcases h'.owner f with ho | ⟨ho, y, hy, hshared, hf⟩
    · rcases h.owner f with ho' | ⟨ho', y, hy, hshared, hf⟩
      · exact .inl (ho.trans ho')
      · exact .inr ⟨ho.trans ho', y, mem_singleton.1 hy ▸ mem_cons_self, hshared, hf⟩
    · rw [same y hy] at hshared
      exact .inr ⟨ho, y, mem_cons_of_mem _ hy, hshared,
        (oldFrame_congr (same y hy)).symm.trans hf⟩
  · rintro f ⟨y, hy, hshared, hf⟩
    rcases mem_cons.1 hy with rfl | hyx
    · have hself := h.owned f ⟨y, mem_cons_self, hshared, hf⟩
      exact (h'.owner f).elim (fun ho => ho.trans hself) And.left
    · rw [← same y hyx] at hshared
      exact h'.owned f ⟨y, hyx, hshared, (oldFrame_congr (same y hyx)).trans hf⟩
  · have hcount : (xs.countP fun y => (s₁.table y).t = .ramPaged) =
        xs.countP fun y => (s.table y).t = .ramPaged :=
      countP_congr fun y hy => by rw [same y hy]
    rw [h'.paged, h.paged, countP_cons, countP_cons, countP_nil]
    omega

def State.clearAt (env : Env) (o : Outcomes) (s : State) (x : Nat) : State :=
  (if (s.table x).t.isShared then s.unsharePage env x (o.unshare x) else (0, s)).2.giveUp x

theorem privatise_giveUp (env : Env) (s : State) (x mfn : Nat) :
    (s.privatise env x mfn).giveUp x =
      { s.privatise env x mfn with m2p := update s.m2p mfn .invalid } := by
  unfold State.giveUp State.privatise State.setGpfnFromMfn
  simp [mapsRam, P2mType.isRam, P2mType.isPaged]

theorem unsharePage_eq {mfn : Nat} (hf : o.privateFrame s x = some mfn) :
    s.unsharePage env x (o.unshare x) = (0, s.privatise env x mfn) := by
  unfold Outcomes.privateFrame at hf
  cases hu : o.unshare x <;> rw [hu] at hf <;> cases hf <;> rfl

theorem clearAt_shared {mfn : Nat} (hs : (s.table x).t.isShared = true)
    (hf : o.privateFrame s x = some mfn) :
    s.clearAt env o x =
      { s.privatise env x mfn with m2p := update s.m2p mfn .invalid } := by
  rw [State.clearAt, if_pos hs, unsharePage_eq hf, privatise_giveUp]

theorem clearAt_private (hs : (s.table x).t.isShared = false) : s.clearAt env o x = s.giveUp x := by
  rw [State.clearAt, hs]
  rfl

theorem privateFrame_of_passes (hs : (s.table x).t.isShared = true) (h : o.passes s x = true) :
    ∃ mfn, o.privateFrame s x = some mfn := by
  rw [Outcomes.passes, if_pos hs, decide_eq_true_eq] at h
  unfold Outcomes.privateFrame
  cases hu : o.unshare x with
  | nomem => exact absurd hu h
  | keep => exact ⟨_, rfl⟩
  | copy mfn => exact ⟨mfn, rfl⟩

theorem cleared_shared {mfn : Nat} (hs : (s.table x).t.isShared = true)
    (hf : o.privateFrame s x = some mfn) : Cleared env o s [x] (s.clearAt env o x) := by
  have hold : o.oldFrame s x = some mfn := by rw [Outcomes.oldFrame, if_pos hs, hf]
  rw [clearAt_shared hs hf]
  refine ⟨fun y hy => ?_, fun y hy _ => ?_, fun f hm => ?_, fun f y hy hm g => ?_, fun f =>
    ?_, ?_, ?_, rfl, rfl⟩
  · have hyx : y ≠ x := by
      rintro rfl
      exact hy.elim (fun h => h mem_cons_self) (by rw [hs]; exact Bool.noConfusion)
    exact update_of_ne hyx _ _
  · obtain rfl := mem_singleton.1 hy
    exact ⟨mfn, hold, update_self ..⟩
  · have hfm : f ≠ mfn := fun h => hm x mem_cons_self (h ▸ hold)
    exact update_of_ne hfm _ _
  · obtain rfl := mem_singleton.1 hy
    obtain rfl : mfn = f := Option.some.inj (hold.symm.trans hm)
    show update s.m2p mfn M2p.invalid mfn ≠ _
    rw [update_self]
    exact M2p.noConfusion
  · by_cases hfm : f = mfn
    · subst hfm
      exact .inr ⟨update_self .., x, mem_cons_self, hs, hold⟩
    · exact .inl (update_of_ne hfm _ _)
  · rintro f ⟨y, hy, -, hm⟩
    obtain rfl := mem_singleton.1 hy
    obtain rfl : mfn = f := Option.some.inj (hold.symm.trans hm)
    exact update_self ..
  · have hne : (s.table x).t ≠ .ramPaged := by
      intro h
      rw [h] at hs
      cases hs
    show s.pagedPages = _
    simp [hne]

theorem not_unshares (hs : (s.table x).t.isShared = false) (f : Nat) : ¬ Unshares o s [x] f := by
  rintro ⟨y, hy, h, -⟩
  rw [mem_singleton.1 hy, hs] at h
  cases h

theorem cleared_ram (hs : (s.table x).t.isShared = false) (hr : mapsRam (s.table x).t = true) :
    Cleared env o s [x] (s.giveUp x) := by
  have hold : o.oldFrame s x = some (s.table x).mfn := by
    rw [Outcomes.oldFrame, hs, if_neg Bool.false_ne_true, if_pos hr]
  have hval : s.giveUp x = s.setGpfnFromMfn (s.table x).mfn .invalid := if_pos hr
  rw [hval]
  refine ⟨fun _ _ => rfl, fun y hy h => ?_, fun f hm => ?_, fun f y hy hm g => ?_,
    fun _ => .inl rfl, fun f h => absurd h (not_unshares hs f), ?_, rfl, rfl⟩
  · obtain rfl := mem_singleton.1 hy
    rw [hs] at h
    cases h
  · have hfm : f ≠ (s.table x).mfn := fun h => hm x mem_cons_self (h ▸ hold)
    exact update_of_ne hfm _ _
  · obtain rfl := mem_singleton.1 hy
    obtain rfl : (s.table y).mfn = f := Option.some.inj (hold.symm.trans hm)
    show update s.m2p _ _ _ ≠ _
    rw [update_self]
    split <;> exact M2p.noConfusion
  · have hne : (s.table x).t ≠ .ramPaged := by
      intro h
      rw [h] at hr
      cases hr
    show s.pagedPages = _
    simp [hne]

theorem cleared_other (hr : mapsRam (s.table x).t = false) : Cleared env o s [x] (s.giveUp x) := by
  have hs : (s.table x).t.isShared = false := by
    cases h : (s.table x).t <;> rw [h] at hr <;> first | rfl | cases hr
  have hold : o.oldFrame s x = none := by
    rw [Outcomes.oldFrame, hs, hr]
    rfl
  have hval : s.giveUp x =
      { s with pagedPages := s.pagedPages - if (s.table x).t = .ramPaged then 1 else 0 } := by
    unfold State.giveUp
    rw [if_neg (Bool.eq_false_iff.1 hr)]
    cases h : (s.table x).t <;> rw [h] at hr <;> simp [P2mType.isPaging]
    cases hr
  rw [hval]
  refine ⟨fun _ _ => rfl, fun y hy h => ?_, fun _ _ => rfl, fun f y hy hm => ?_,
    fun _ => .inl rfl, fun f h => absurd h (not_unshares hs f), ?_, rfl, rfl⟩
  · obtain rfl := mem_singleton.1 hy
    rw [hs] at h
    cases h
  · obtain rfl := mem_singleton.1 hy
    rw [hold] at hm
    cases hm
  · simp

theorem cleared_clearAt (h : o.passes s x = true) : Cleared env o s [x] (s.clearAt env o x) := by
  cases hs : (s.table x).t.isShared with
  | true =>
    obtain ⟨mfn, hf⟩ := privateFrame_of_passes hs h
    exact cleared_shared hs hf
  | false =>
    rw [clearAt_private hs]
    cases hr : mapsRam (s.table x).t with
    | true => exact cleared_ram hs hr
    | false => exact cleared_other hr

theorem takeWhile_congr {p q : Nat → Bool} {l : List Nat} (h : ∀ x ∈ l, p x = q x) :
    l.takeWhile p = l.takeWhile q := by
  induction l with
  | nil => rfl
  | cons x l ih =>
    rw [takeWhile_cons, takeWhile_cons, h x mem_cons_self,
      ih fun y hy => h y (mem_cons_of_mem _ hy)]

theorem clearOld_cons (env : Env) (o : Outcomes) (s : State) (x : Nat) (xs : List Nat) :
    (o.passes s x = true ∧ clearOld env o (x :: xs) s =
      ((clearOld env o xs (s.clearAt env o x)).1,
        (clearOld env o xs (s.clearAt env o x)).2.1 +
          (if (s.table x).t = .populateOnDemand then 1 else 0),
        (clearOld env o xs (s.clearAt env o x)).2.2)) ∨
    (o.passes s x = false ∧ (clearOld env o (x :: xs) s).1 ≠ 0 ∧
      (clearOld env o (x :: xs) s).2.2 = s) := by
  cases hs : (s.table x).t.isShared with
  | true =>
    cases hp : o.passes s x with
    | true =>
      obtain ⟨mfn, hf⟩ := privateFrame_of_passes hs hp
      have hpod : (s.table x).t ≠ .populateOnDemand := by
        intro h
        rw [h] at hs
        cases hs
      refine .inl ⟨rfl, ?_⟩
      rw [State.clearAt, clearOld, if_pos hs, unsharePage_eq hf, if_neg hpod]
      simp [State.privatise, P2mType.isGrant, P2mType.isForeign]
    | false =>
      have hu : o.unshare x = .nomem := by
        rw [Outcomes.passes, if_pos hs, decide_eq_false_iff_not, not_not] at hp
        exact hp
      refine .inr ⟨rfl, ?_⟩
      rw [clearOld, if_pos hs, hu]
      exact ⟨show (-ENOMEM : Int) ≠ 0 by decide, rfl⟩
  | false =>
    have hpass : o.passes s x = !((s.table x).t.isGrant || (s.table x).t.isForeign) := by
      rw [Outcomes.passes, hs, if_neg Bool.false_ne_true, Bool.not_or]
    rw [hpass, clearAt_private hs, clearOld, hs]
    cases hg : (s.table x).t.isGrant || (s.table x).t.isForeign with
    | true => exact .inr ⟨rfl, by simp [hg, EINVAL]⟩
    | false => exact .inl ⟨rfl, by simp [hg]⟩

theorem clearOld_spec (env : Env) (o : Outcomes) (s : State) (hxs : xs.Nodup) :
    ((clearOld env o xs s).1 = 0 ↔ ∀ x ∈ xs, o.passes s x = true) ∧
    Cleared env o s (xs.takeWhile (o.passes s)) (clearOld env o xs s).2.2 ∧
    ((clearOld env o xs s).1 = 0 →
      (clearOld env o xs s).2.1 = xs.countP fun x => (s.table x).t = .populateOnDemand) := by
  induction xs generalizing s with
  | nil => exact ⟨⟨fun _ _ hx => absurd hx not_mem_nil, fun _ => rfl⟩, .refl env o s,
      fun _ => rfl⟩
  | cons x xs ih =>
    obtain ⟨hx, hxs⟩ := nodup_cons.1 hxs
    rcases clearOld_cons env o s x xs with ⟨hp, heq⟩ | ⟨hp, hrc, hst⟩
    · have hone : Cleared env o s [x] (s.clearAt env o x) := cleared_clearAt hp
      obtain ⟨hrc, hcl, hpod⟩ := ih (s.clearAt env o x) hxs
      have same : ∀ y ∈ xs, (s.clearAt env o x).table y = s.table y := fun y hy =>
        hone.kept y (.inl fun hyx => hx (mem_singleton.1 hyx ▸ hy))
      have hpass : ∀ y ∈ xs, o.passes (s.clearAt env o x) y = o.passes s y := fun y hy =>
        passes_congr (same y hy)
      rw [heq]
      refine ⟨hrc.trans ?_, ?_, fun h => ?_⟩
      · rw [forall_mem_cons, and_iff_right hp]
        exact forall₂_congr fun y hy => by rw [hpass y hy]
      · rw [takeWhile_cons_of_pos hp]
        rw [takeWhile_congr hpass] at hcl
        exact hone.cons hcl fun h => hx (takeWhile_subset _ h)
      · show (clearOld env o xs (s.clearAt env o x)).2.1 + _ = _
        rw [hpod h, countP_cons, countP_congr fun y hy => by rw [same y hy]]
        simp
    · refine ⟨⟨fun h => absurd h hrc, fun h => ?_⟩, ?_, fun h => absurd h hrc⟩
      · rw [h x mem_cons_self] at hp
        cases hp
      · rw [takeWhile_cons_of_neg (Bool.eq_false_iff.1 hp), hst]
        exact .refl env o s

end FirstPass

/-! ## The second pass -/

structure Unaliased (env : Env) (o : Outcomes) (gfn mfn : Nat) (s : State) (is : List Nat)
    (s' : State) : Prop where
  removed : ∀ x, ∀ i ∈ is, s.ownerOf env (mfn + i) = .self →
    s.aliasOf (gfn + i) (mfn + i) = some x →
    s'.table x = if o.removeRc x = 0 then .none else s.table x
  kept : ∀ x, (∀ i ∈ is, s.ownerOf env (mfn + i) = .self →
    s.aliasOf (gfn + i) (mfn + i) ≠ some x) → s'.table x = s.table x
  m2p_cleared : ∀ x, ∀ i ∈ is, s.ownerOf env (mfn + i) = .self →
    s.aliasOf (gfn + i) (mfn + i) = some x → (s.table x).t.isShared = false →
    s'.m2p (mfn + i) = .invalid
  m2p_kept : ∀ f, (∀ x, ∀ i ∈ is, f = mfn + i → s.ownerOf env f = .self →
    s.aliasOf (gfn + i) f = some x → (s.table x).t.isShared = true) → s'.m2p f = s.m2p f
  owner : s'.owner = s.owner
  paged : s'.pagedPages = s.pagedPages
  pod : s'.pod = s.pod
  freed : s'.freed = s.freed

section SecondPass

variable {env : Env} {o : Outcomes} {s s₁ : State} {gfn mfn i x f : Nat} {is : List Nat}

theorem aliasOf_eq_some :
    s.aliasOf gfn f = some x ↔
      s.m2p f = .gfn x ∧ x ≠ gfn ∧ mapsRam (s.table x).t = true ∧ (s.table x).mfn = f := by
  unfold State.aliasOf
  cases hm : s.m2p f with
  | invalid => simp
  | shared => simp
  | gfn y =>
    by_cases hy : y ≠ gfn ∧ mapsRam (s.table y).t = true ∧ (s.table y).mfn = f
    · refine (Eq.congr_left (if_pos hy)).trans ⟨fun h => ?_, fun h => ?_⟩
      · cases h
        exact ⟨rfl, hy⟩
      · rw [M2p.gfn.inj h.1]
    · refine (Eq.congr_left (if_neg hy)).trans ⟨nofun, fun h => ?_⟩
      rw [M2p.gfn.inj h.1] at hy
      exact absurd h.2 hy

theorem p2mRemovePage_single (setRc : Nat → Int) (hv : env.mfnValid f = true)
    (ho : s.owner f = .self) (hr : mapsRam (s.table x).t = true) :
    (p2mRemovePage env setRc s x f 0).2 =
      { s with
        m2p := if (s.table x).t.isShared then s.m2p else update s.m2p f .invalid
        table := if setRc x = 0 then update s.table x .none else s.table } := by
  have hg : (s.table x).t.isGrant = false ∧ (s.table x).t.isForeign = false := by
    cases h : (s.table x).t <;> rw [h] at hr <;> first | exact ⟨rfl, rfl⟩ | cases hr
  have hset : ∀ s' : State, s'.table = s.table →
      (p2mSetEntry env setRc s'.table ⟨x, invalidMfn, .invalid, env.defaultAccess⟩ 0).2 =
        if setRc x = 0 then update s.table x .none else s.table := by
    intro s' h
    rw [p2mSetEntry_zero, h]
    rfl
  unfold p2mRemovePage
  simp only [hv, if_true, pow_zero, range_one, foldl_cons, foldl_nil, Nat.add_zero,
    hg.1, hg.2, Bool.not_false, Bool.and_true, Bool.true_and]
  cases hs : (s.table x).t.isShared with
  | true => simp [hset s rfl]
  | false => simp [hset _ rfl, State.setGpfnFromMfn, ho]

theorem Unaliased.refl (env : Env) (o : Outcomes) (gfn mfn : Nat) (s : State) :
    Unaliased env o gfn mfn s [] s where
  removed _ _ hi := absurd hi not_mem_nil
  kept _ _ := rfl
  m2p_cleared _ _ hi := absurd hi not_mem_nil
  m2p_kept _ _ := rfl
  owner := rfl
  paged := rfl
  pod := rfl
  freed := rfl

variable {s' : State} {y j : Nat}

theorem Unaliased.cons_none (h : Unaliased env o gfn mfn s is s')
    (hi : s.ownerOf env (mfn + i) = .self → s.aliasOf (gfn + i) (mfn + i) = none) :
    Unaliased env o gfn mfn s (i :: is) s' := by
  have hno : ∀ x, ∀ j ∈ i :: is, s.ownerOf env (mfn + j) = .self →
      s.aliasOf (gfn + j) (mfn + j) = some x → j ∈ is := by
    intro x j hj ho ha
    rcases mem_cons.1 hj with rfl | hj
    · rw [hi ho] at ha
      cases ha
    · exact hj
  refine ⟨fun x j hj ho ha => h.removed x j (hno x j hj ho ha) ho ha, fun x hx => ?_,
    fun x j hj ho ha hs => h.m2p_cleared x j (hno x j hj ho ha) ho ha hs, fun f hf => ?_,
    h.owner, h.paged, h.pod, h.freed⟩
  · exact h.kept x fun j hj => hx j (mem_cons_of_mem _ hj)
  · exact h.m2p_kept f fun x j hj => hf x j (mem_cons_of_mem _ hj)

/-- The state after a round that removes the alias `x` of the frame `mfn + i`. -/
def State.removeAlias (o : Outcomes) (s : State) (x f : Nat) : State :=
  { s with
    m2p := if (s.table x).t.isShared then s.m2p else update s.m2p f .invalid
    table := if o.removeRc x = 0 then update s.table x .none else s.table }

theorem removeAlias_table_of_ne (hy : y ≠ x) : (s.removeAlias o x f).table y = s.table y := by
  show (if _ then update s.table x Translation.none else s.table) y = _
  split
  · exact update_of_ne hy _ _
  · rfl

theorem removeAlias_table_self :
    (s.removeAlias o x f).table x = if o.removeRc x = 0 then .none else s.table x := by
  show (if _ then update s.table x Translation.none else s.table) x = _
  split
  · exact update_self ..
  · rfl

theorem aliasOf_removeAlias (ha : s.aliasOf (gfn + i) (mfn + i) = some x) (hj : j ≠ i) :
    (s.removeAlias o x (mfn + i)).aliasOf (gfn + j) (mfn + j) = s.aliasOf (gfn + j) (mfn + j) := by
  obtain ⟨hm, -, hr, hf⟩ := aliasOf_eq_some.1 ha
  have hm2p : (s.removeAlias o x (mfn + i)).m2p (mfn + j) = s.m2p (mfn + j) := by
    show (if _ then s.m2p else update s.m2p (mfn + i) M2p.invalid) (mfn + j) = _
    split
    · rfl
    · exact update_of_ne (by omega) _ _
  -- a second frame whose M2P entry is `x` is not the one mapped there, before and after
  have hx : mapsRam ((s.removeAlias o x (mfn + i)).table x).t = true →
      ((s.removeAlias o x (mfn + i)).table x).mfn ≠ mfn + j := by
    rw [removeAlias_table_self]
    split
    · exact fun h => absurd h (by decide)
    · intro _
      omega
  refine Option.ext fun y => ?_
  rw [aliasOf_eq_some, aliasOf_eq_some, hm2p]
  by_cases hy : y = x
  · subst hy
    exact ⟨fun h => absurd h.2.2.2 (hx h.2.2.1), fun h => absurd (h.2.2.2.symm.trans hf) (by omega)⟩
  · rw [removeAlias_table_of_ne hy]

theorem aliasOf_ne (hi : s.aliasOf (gfn + i) (mfn + i) = some x)
    (hj : s.aliasOf (gfn + j) (mfn + j) = some y) (hne : j ≠ i) : y ≠ x := by
  rintro rfl
  have h := (aliasOf_eq_some.1 hi).2.2.2
  rw [(aliasOf_eq_some.1 hj).2.2.2] at h
  omega

theorem Unaliased.cons_some (ho : s.ownerOf env (mfn + i) = .self)
    (ha : s.aliasOf (gfn + i) (mfn + i) = some x)
    (h : Unaliased env o gfn mfn (s.removeAlias o x (mfn + i)) is s') (hi : i ∉ is) :
    Unaliased env o gfn mfn s (i :: is) s' := by
  have hne : ∀ j ∈ is, j ≠ i := fun j hj hji => hi (hji ▸ hj)
  have same : ∀ j ∈ is, (s.removeAlias o x (mfn + i)).aliasOf (gfn + j) (mfn + j) =
      s.aliasOf (gfn + j) (mfn + j) := fun j hj => aliasOf_removeAlias ha (hne j hj)
  have hx : s'.table x = (s.removeAlias o x (mfn + i)).table x :=
    h.kept x fun j hj _ ha' => aliasOf_ne ha ((same j hj).symm.trans ha') (hne j hj) rfl
  refine ⟨fun y j hj hoj haj => ?_, fun y hy => ?_, fun y j hj hoj haj hs => ?_, fun f hf => ?_,
    h.owner, h.paged, h.pod, h.freed⟩
  · rcases mem_cons.1 hj with rfl | hj
    · obtain rfl : x = y := Option.some.inj (ha.symm.trans haj)
      exact hx.trans removeAlias_table_self
    · have hyx := aliasOf_ne ha haj (hne j hj)
      rw [h.removed y j hj hoj ((same j hj).trans haj), removeAlias_table_of_ne hyx]
  · have hyx : y ≠ x := by
      rintro rfl
      exact hy i mem_cons_self ho ha
    refine (h.kept y fun j hj hoj haj => ?_).trans (removeAlias_table_of_ne hyx)
    exact hy j (mem_cons_of_mem _ hj) hoj ((same j hj).symm.trans haj)
  · rcases mem_cons.1 hj with rfl | hj
    · obtain rfl : x = y := Option.some.inj (ha.symm.trans haj)
      rw [h.m2p_kept (mfn + j) fun y k hk hjk => absurd (by omega) (hne k hk)]
      show (if (s.table x).t.isShared then s.m2p else update s.m2p (mfn + j) .invalid) _ = _
      rw [hs, if_neg Bool.false_ne_true, update_self]
    · have hyx := aliasOf_ne ha haj (hne j hj)
      refine h.m2p_cleared y j hj hoj ((same j hj).trans haj) ?_
      rwa [removeAlias_table_of_ne hyx]
  · have hstep : (s.removeAlias o x (mfn + i)).m2p f = s.m2p f := by
      show (if (s.table x).t.isShared then s.m2p else update s.m2p (mfn + i) .invalid) f = _
      by_cases hfi : f = mfn + i
      · subst hfi
        rw [if_pos (hf x i mem_cons_self rfl ho ha)]
      · split
        · rfl
        · exact update_of_ne hfi _ _
    refine (h.m2p_kept f fun y j hj hfj hoj haj => ?_).trans hstep
    subst hfj
    rw [same j hj] at haj
    rw [removeAlias_table_of_ne (aliasOf_ne ha haj (hne j hj))]
    exact hf y j (mem_cons_of_mem _ hj) rfl hoj haj

theorem dropAliases_spec (env : Env) (o : Outcomes) (gfn mfn : Nat) (s : State) (his : is.Nodup) :
    ((dropAliases env o gfn mfn is s).1 = 0 ↔ ∀ i ∈ is, s.ownerOf env (mfn + i) ≠ .cow) ∧
    Unaliased env o gfn mfn s (is.takeWhile fun i => s.ownerOf env (mfn + i) ≠ .cow)
      (dropAliases env o gfn mfn is s).2 := by
  induction is generalizing s with
  | nil => exact ⟨⟨fun _ _ hi => absurd hi not_mem_nil, fun _ => rfl⟩, .refl env o gfn mfn s⟩
  | cons i is ih =>
    obtain ⟨hi, his⟩ := nodup_cons.1 his
    rw [dropAliases]
    by_cases hcow : s.ownerOf env (mfn + i) = .cow
    · rw [if_pos hcow, takeWhile_cons_of_neg (by simp [hcow])]
      refine ⟨⟨fun h => absurd h (show ¬ (-EINVAL : Int) = 0 by decide), fun h =>
        absurd hcow (h i mem_cons_self)⟩, ?_⟩
      exact .refl env o gfn mfn s
    rw [takeWhile_cons_of_pos (by simpa using hcow)]
    simp only [forall_mem_cons, ne_eq, hcow, not_false_eq_true, true_and]
    by_cases hself : s.ownerOf env (mfn + i) = .self
    · rw [if_neg (not_not.2 hself)]
      cases ha : s.aliasOf (gfn + i) (mfn + i) with
      | none =>
        obtain ⟨hrc, hst⟩ := ih s his
        exact ⟨hrc, hst.cons_none fun _ => ha⟩
      | some x =>
        have hv : env.mfnValid (mfn + i) = true := by
          by_contra hv
          rw [State.ownerOf, if_neg hv] at hself
          cases hself
        have howner : s.owner (mfn + i) = .self := by
          rwa [State.ownerOf, if_pos hv] at hself
        have hstep : (p2mRemovePage env o.removeRc s x (mfn + i) 0).2 =
            s.removeAlias o x (mfn + i) :=
          p2mRemovePage_single _ hv howner (aliasOf_eq_some.1 ha).2.2.1
        obtain ⟨hrc, hst⟩ := ih (s.removeAlias o x (mfn + i)) his
        simp only [hstep]
        exact ⟨hrc, .cons_some hself ha hst fun h => hi (takeWhile_subset _ h)⟩
    · rw [if_pos hself]
      obtain ⟨hrc, hst⟩ := ih s his
      exact ⟨hrc, hst.cons_none fun h => absurd h hself⟩

end SecondPass

/-! ## The M2P entries of the new mapping -/

/-- The M2P table once the frames from `mfn` point at the gfns from `gfn`. -/
def State.m2pAfter (s : State) (gfn mfn n f : Nat) : M2p :=
  if mfn ≤ f ∧ f < mfn + n then (if s.owner f = .cow then .shared else .gfn (gfn + (f - mfn)))
  else s.m2p f

theorem setM2p_eq (s : State) (gfn mfn n : Nat) :
    s.setM2p gfn mfn n = { s with m2p := s.m2pAfter gfn mfn n } := by
  refine foldl_range_invariant (fun k s' => s' = { s with m2p := s.m2pAfter gfn mfn k })
    (fun k s' _ hs' => ?_) ?_
  · subst hs'
    unfold State.setGpfnFromMfn
    congr 1
    funext f
    unfold State.m2pAfter
    by_cases hf : f = mfn + k
    · subst hf
      have hk : mfn ≤ mfn + k ∧ mfn + k < mfn + (k + 1) := by omega
      rw [update_self, if_pos hk, Nat.add_sub_cancel_left]
    · rw [update_of_ne hf]
      exact if_congr (by omega) rfl rfl
  · have hnone : s.m2pAfter gfn mfn 0 = s.m2p := funext fun f => if_neg (by omega)
    rw [hnone]

theorem mem_gfns {gfn pageOrder x : Nat} :
    x ∈ gfns gfn pageOrder ↔ gfn ≤ x ∧ x < gfn + 2 ^ pageOrder := by
  simp only [gfns, mem_map, mem_range]
  constructor
  · rintro ⟨i, hi, rfl⟩
    omega
  · exact fun h => ⟨x - gfn, by omega, by omega⟩

/-- No update of the p2m fails. -/
structure Outcomes.Succeeds (o : Outcomes) : Prop where
  remove : ∀ x, o.removeRc x = 0
  map : ∀ x, o.mapRc x = 0

/-- Neither of the first two passes stops: no gfn of the range is a grant or foreign, or shared
without memory for a copy, and no new frame belongs to `dom_cow` and stays there. -/
structure Outcomes.Admits (env : Env) (o : Outcomes) (s : State) (gfn mfn pageOrder : Nat) :
    Prop where
  passes : ∀ x ∈ gfns gfn pageOrder, o.passes s x = true
  cow : ∀ i < 2 ^ pageOrder, s.ownerOf env (mfn + i) = .cow →
    Unshares o s (gfns gfn pageOrder) (mfn + i)

def WasAlias (env : Env) (e e' : Translation) : Prop :=
  e' = .none ∧ mapsRam e.t = true ∧ env.mfnValid e.mfn = true

/-- What a call of `guest_physmap_add_entry` has done when no p2m update failed. -/
structure AddEffect (env : Env) (o : Outcomes) (s : State) (gfn mfn pageOrder : Nat) (t : P2mType)
    (r : Int × State) : Prop where
  rc : r.1 = 0 ↔ o.Admits env s gfn mfn pageOrder
  whole : r.1 = 0 → examined o s gfn pageOrder = gfns gfn pageOrder
  outside : ∀ x, x ∉ gfns gfn pageOrder →
    r.2.table x = s.table x ∨ WasAlias env (s.table x) (r.2.table x)
  mapped : r.1 = 0 → ∀ x ∈ gfns gfn pageOrder, r.2.table x =
    if env.mfnValid mfn then (⟨gfn, mfn, t, env.defaultAccess⟩ : Mapping).at x else .none
  stopped : r.1 ≠ 0 → ∀ x ∈ gfns gfn pageOrder, r.2.table x = s.table x ∨
    (s.table x).t.isShared = true ∧ (r.2.table x).t = .ramRw
  paged : r.2.pagedPages =
    s.pagedPages - (examined o s gfn pageOrder).countP fun x => (s.table x).t = .ramPaged
  podCount : r.2.pod.entryCount = s.pod.entryCount -
    if r.1 = 0 ∧ env.mfnValid mfn = false then
      ((gfns gfn pageOrder).countP fun x => (s.table x).t = .populateOnDemand : Int)
    else 0

theorem nodup_gfns (gfn pageOrder : Nat) : (gfns gfn pageOrder).Nodup :=
  nodup_range.map fun _ _ h => Nat.add_left_cancel h

section Effect

variable {env : Env} {o : Outcomes} {s s₁ s₂ : State} {gfn mfn pageOrder : Nat} {t : P2mType}

theorem Cleared.of_gfn (hc : Cleared env o s xs s₁) (h : s₁.m2p f = .gfn g) :
    ¬ Clears o s xs f ∧ s.m2p f = .gfn g := by
  have hn : ¬ Clears o s xs f := fun ⟨y, hy, hf⟩ => hc.m2p_cleared f y hy hf g h
  exact ⟨hn, (hc.m2p_kept f fun y hy hf => hn ⟨y, hy, hf⟩).symm.trans h⟩

theorem Cleared.aliasOf_iff (hc : Cleared env o s (gfns gfn pageOrder) s₁) {i : Nat} :
    s₁.aliasOf (gfn + i) (mfn + i) = some x ↔
      x ∉ gfns gfn pageOrder ∧ s.aliasOf (gfn + i) (mfn + i) = some x ∧
        ¬ Clears o s (gfns gfn pageOrder) (mfn + i) := by
  constructor
  · intro h
    obtain ⟨hm, hne, hr, hf⟩ := aliasOf_eq_some.1 h
    obtain ⟨hn, hm'⟩ := hc.of_gfn hm
    have hx : x ∉ gfns gfn pageOrder := by
      intro hx
      refine hn ⟨x, hx, ?_⟩
      cases hs : (s.table x).t.isShared with
      | true =>
        obtain ⟨f', hold, ht⟩ := hc.unshared x hx hs
        rw [hold, ← hf, ht]
      | false =>
        rw [hc.kept x (.inr hs)] at hr hf
        rw [Outcomes.oldFrame, hs, if_neg Bool.false_ne_true, if_pos hr, hf]
    rw [hc.kept x (.inl hx)] at hr hf
    exact ⟨hx, aliasOf_eq_some.2 ⟨hm', hne, hr, hf⟩, hn⟩
  · rintro ⟨hx, h, hn⟩
    obtain ⟨hm, hne, hr, hf⟩ := aliasOf_eq_some.1 h
    rw [← hc.kept x (.inl hx)] at hr hf
    refine aliasOf_eq_some.2 ⟨?_, hne, hr, hf⟩
    exact (hc.m2p_kept _ fun y hy hf => hn ⟨y, hy, hf⟩).trans hm

theorem Cleared.cow_iff (hc : Cleared env o s xs s₁) :
    s₁.ownerOf env f = .cow ↔ s.ownerOf env f = .cow ∧ ¬ Unshares o s xs f := by
  unfold State.ownerOf
  by_cases hu : Unshares o s xs f
  · have := hc.owned f hu
    grind
  · have := (hc.owner f).resolve_right fun h => hu h.2
    grind

theorem Unaliased.cases {is : List Nat} (hc : Cleared env o s (gfns gfn pageOrder) s₁)
    (hu : Unaliased env o gfn mfn s₁ is s₂) (x : Nat) :
    s₂.table x = s₁.table x ∨
      x ∉ gfns gfn pageOrder ∧ WasAlias env (s₁.table x) (s₂.table x) := by
  by_cases h : ∃ i ∈ is, s₁.ownerOf env (mfn + i) = .self ∧ s₁.aliasOf (gfn + i) (mfn + i) = some x
  · obtain ⟨i, hi, ho, ha⟩ := h
    have hr := hu.removed x i hi ho ha
    obtain ⟨-, -, hram, hf⟩ := aliasOf_eq_some.1 ha
    split at hr
    · refine .inr ⟨(hc.aliasOf_iff.1 ha).1, hr, hram, ?_⟩
      rw [hf]
      by_contra hv
      rw [State.ownerOf, if_neg hv] at ho
      cases ho
    · exact .inl hr
  · exact .inl (hu.kept x fun i hi ho ha => h ⟨i, hi, ho, ha⟩)

theorem Cleared.cases {xs : List Nat} (hc : Cleared env o s xs s₁) (x : Nat) :
    s₁.table x = s.table x ∨ x ∈ xs ∧ (s.table x).t.isShared = true ∧ (s₁.table x).t = .ramRw := by
  by_cases hx : x ∈ xs
  · cases hs : (s.table x).t.isShared with
    | true =>
      obtain ⟨f, -, ht⟩ := hc.unshared x hx hs
      exact .inr ⟨hx, rfl, by rw [ht]⟩
    | false => exact .inl (hc.kept x (.inr hs))
  · exact .inl (hc.kept x (.inl hx))

theorem mapRange_ok (gfn : Nat) (t : P2mType) (ho : o.Succeeds)
    (hfits : env.mfnValid mfn = true → mfn + 2 ^ pageOrder ≤ invalidMfn) (s : State) (k : Nat) :
    (mapRange env o s gfn mfn pageOrder t k).1 = 0 ∧
    (∀ x, (mapRange env o s gfn mfn pageOrder t k).2.table x =
      if x ∈ gfns gfn pageOrder then
        if env.mfnValid mfn then (⟨gfn, mfn, t, env.defaultAccess⟩ : Mapping).at x else .none
      else s.table x) ∧
    (mapRange env o s gfn mfn pageOrder t k).2.pagedPages = s.pagedPages ∧
    (mapRange env o s gfn mfn pageOrder t k).2.pod.entryCount =
      s.pod.entryCount - if env.mfnValid mfn = false then (k : Int) else 0 := by
  unfold mapRange
  by_cases hv : env.mfnValid mfn = true
  · have hq : (⟨gfn, mfn, t, env.defaultAccess⟩ : Mapping).Fits (2 ^ pageOrder) :=
      .inr (.inr (.inr (.inl (Nat.le_succ_of_le (hfits hv)))))
    rw [p2mSetEntry_ok hq ho.map]
    simp only [setM2p_eq, hv, if_true, ne_eq, not_true_eq_false, if_false]
    have hblock : ∀ x, s.table.setBlock ⟨gfn, mfn, t, env.defaultAccess⟩ (2 ^ pageOrder) x =
        if x ∈ gfns gfn pageOrder then (⟨gfn, mfn, t, env.defaultAccess⟩ : Mapping).at x
        else s.table x := fun x => if_congr mem_gfns.symm rfl rfl
    cases t.isGrant with
    | true | false => exact ⟨trivial, hblock, rfl, by simp⟩
  · rw [if_neg hv, p2mSetEntry_ok (.inr (.inl rfl)) ho.map]
    simp only [hv, if_true]
    exact ⟨trivial, fun x => if_congr mem_gfns.symm rfl rfl, trivial, by simp⟩

theorem p2mRemovePage_zero (env : Env) {setRc : Nat → Int} (h : setRc gfn = 0) (s : State)
    (mfn : Nat) :
    (p2mRemovePage env setRc s gfn mfn 0).2.table = update s.table gfn .none ∧
    (p2mRemovePage env setRc s gfn mfn 0).2.pagedPages = s.pagedPages ∧
    (p2mRemovePage env setRc s gfn mfn 0).2.pod = s.pod := by
  unfold p2mRemovePage
  simp only [p2mSetEntry_zero, h, if_true, pow_zero, range_one, foldl_cons,
    foldl_nil]
  refine ⟨?_, ?_, ?_⟩ <;> split <;> first | rfl | (split <;> rfl)

theorem addEntry_effect (ho : o.Succeeds) (ht : t.isForeign = false)
    (hfits : env.mfnValid mfn = true → mfn + 2 ^ pageOrder ≤ invalidMfn) :
    AddEffect env o s gfn mfn pageOrder t (guestPhysmapAddEntry env o s gfn mfn pageOrder t) := by
  obtain ⟨hrc, hc, hpod⟩ := clearOld_spec env o s (nodup_gfns gfn pageOrder)
  unfold guestPhysmapAddEntry
  rw [ht, if_neg Bool.false_ne_true]
  by_cases h1 : (clearOld env o (gfns gfn pageOrder) s).1 = 0
  · have hall : (gfns gfn pageOrder).takeWhile (o.passes s) = gfns gfn pageOrder :=
      takeWhile_eq_self_iff.2 (hrc.1 h1)
    have hex : examined o s gfn pageOrder = gfns gfn pageOrder := hall
    rw [hall] at hc
    rw [if_neg (not_not.2 h1), hpod h1]
    generalize (clearOld env o (gfns gfn pageOrder) s).2.2 = s₁ at hc ⊢
    obtain ⟨hcow, hu⟩ := dropAliases_spec env o gfn mfn s₁ (nodup_range (n := 2 ^ pageOrder))
    simp only [mem_range, ne_eq, hc.cow_iff, not_and, not_not] at hcow
    have hout : ∀ x, x ∉ gfns gfn pageOrder → s₁.table x = s.table x := fun x hx =>
      hc.kept x (.inl hx)
    generalize dropAliases env o gfn mfn (List.range (2 ^ pageOrder)) s₁ = r at hu hcow ⊢
    by_cases h2 : r.1 = 0
    · rw [if_neg (not_not.2 h2)]
      obtain ⟨hrc3, htab, hpaged, hcount⟩ := mapRange_ok gfn t ho hfits r.2
        ((gfns gfn pageOrder).countP fun x => (s.table x).t = .populateOnDemand)
      refine ⟨iff_of_true hrc3 ⟨hrc.1 h1, hcow.1 h2⟩, fun _ => hex, fun x hx => ?_,
        fun _ x hx => ?_, fun h => absurd hrc3 h, ?_, ?_⟩
      · rw [htab, if_neg hx, ← hout x hx]
        exact (hu.cases hc x).imp_right fun h => h.2
      · rw [htab, if_pos hx]
      · rw [hpaged, hu.paged, hc.paged, hex]
      · rw [hcount, hu.pod, hc.pod]
        simp [hrc3]
    · rw [if_pos h2]
      refine ⟨iff_of_false h2 fun h => h2 (hcow.2 h.cow), fun _ => hex, fun x hx => ?_,
        fun h => absurd h h2, fun _ x hx => ?_, ?_, ?_⟩
      · rw [← hout x hx]
        exact (hu.cases hc x).imp_right fun h => h.2
      · rw [(hu.cases hc x).resolve_right fun h => h.1 hx]
        exact (hc.cases x).imp_right fun h => h.2
      · rw [hu.paged, hc.paged, hex]
      · rw [hu.pod, hc.pod]
        simp [h2]
  · rw [if_pos h1]
    refine ⟨iff_of_false h1 fun h => h1 (hrc.2 h.passes), fun h => absurd h h1,
      fun x hx => .inl (hc.kept x (.inl fun h => hx (takeWhile_subset _ h))),
      fun h => absurd h h1, fun _ x _ => (hc.cases x).imp_right fun h => h.2, hc.paged, ?_⟩
    show (clearOld env o (gfns gfn pageOrder) s).2.2.pod.entryCount = _
    rw [hc.pod]
    simp [h1]

end Effect

end XenVmi.P2m
