import XenVmi.Lib.Census
import XenVmi.P2m.Pod

/-!
# The number of populate-on-demand entries

`State.PodPending s n`: the table has `n` populate-on-demand gfns more than were counted. The
operations keep `n = 0`, but for `guest_physmap_add_entry` with a valid frame, which forgets the
entries it replaces, and `guest_physmap_remove_page` (`PodOp.Counts`).
-/

namespace XenVmi.P2m

open Function XenVmi.Ept XenVmi.Lib List

/-! ## The count -/

abbrev IsPod (e : Translation) : Prop := e.t = .populateOnDemand

structure State.PodPending (s : State) (n : Nat) : Prop where
  count : s.pod.entryCount + n = census IsPod s.table
  sparse : Sparse IsPod s.table

/-- `pod.entry_count` is the number of populate-on-demand gfns. -/
def State.PodExact (s : State) : Prop := s.pod.entryCount = census IsPod s.table

structure PodOutcomes.Succeeds (o : PodOutcomes) : Prop where
  super : ∀ x, o.superRc x = 0
  superBack : ∀ x, o.superBackRc x = 0
  mark : ∀ x, o.markRc x = 0
  markBack : ∀ x, o.markBackRc x = 0
  drop : ∀ x, o.dropRc x = 0
  clear : ∀ x, o.clearRc x = 0
  steal : ∀ x, o.stealRc x = 0
  populate : ∀ x, o.populateRc x = 0
  split : ∀ x, o.splitRc x = 0

section Block

variable {env : Env} {s s' : State} {q : Mapping} {k n : Nat}

variable {setRc : Nat → Int} {x : Nat} {tab : Table}

theorem setRange_ok (hq : q.Fits (2 ^ k)) (h : ∀ x, setRc x = 0) :
    s.setRange env setRc q k = (0, { s with table := s.table.setBlock q (2 ^ k) }) := by
  unfold State.setRange
  rw [p2mSetEntry_ok hq h]

theorem isPod_stored {mfn : Nat} {t : P2mType} {a : P2mAccess} :
    IsPod (stored mfn t a) ↔ t = .populateOnDemand := by
  unfold stored IsPod
  split
  · rename_i h
    exact iff_of_true rfl h
  · rename_i h
    refine iff_of_false (fun hp => ?_) h
    split at hp
    · cases hp
    · exact h hp

theorem isPod_at : IsPod (q.at x) ↔ q.t = .populateOnDemand := isPod_stored

theorem setBlock_of_mem (hx : x ∈ gfns q.gfn k) :
    tab.setBlock q (2 ^ k) x = q.at x := if_pos (mem_gfns.1 hx)

theorem setBlock_of_not_mem (hx : x ∉ gfns q.gfn k) :
    tab.setBlock q (2 ^ k) x = tab x := if_neg (mt mem_gfns.2 hx)

theorem length_gfns (gfn k : Nat) : (gfns gfn k).length = 2 ^ k := by
  rw [gfns, length_map, length_range]

theorem countP_eq_all_or_none {gfn : Nat} (p : Prop) [Decidable p] :
    (((gfns gfn k).countP fun x => IsPod (s.table x)) = if p then 2 ^ k else 0) ↔
      ∀ x ∈ gfns gfn k, (IsPod (s.table x) ↔ p) := by
  by_cases hp : p
  · rw [if_pos hp, ← length_gfns gfn k, countP_eq_length]
    simp only [decide_eq_true_eq, hp, iff_true]
  · rw [if_neg hp, countP_eq_zero]
    simp only [decide_eq_true_eq, hp, iff_false]

theorem isPod_setRange (env : Env) (s : State) (q : Mapping) (k : Nat)
    (h : ∀ x, setRc x = 0) (x : Nat) :
    IsPod ((s.setRange env setRc q k).2.table x) ↔
      if x ∈ gfns q.gfn k then q.t = .populateOnDemand else IsPod (s.table x) := by
  obtain ⟨f, -, hf⟩ := p2mSetEntry_type env setRc s.table q k x
  have hset : (s.setRange env setRc q k).2.table x = _ := hf
  rw [hset]
  by_cases hx : x ∈ gfns q.gfn k
  · rw [if_pos hx, if_pos ⟨mem_gfns.1 hx, h _⟩]
    exact isPod_stored
  · rw [if_neg hx, if_neg fun hc => hx (mem_gfns.2 hc.1)]

theorem State.PodPending.range (env : Env) (k : Nat) (h : s.PodPending n) (q : Mapping)
    (ho : ∀ x, setRc x = 0) (ht : s'.table = (s.setRange env setRc q k).2.table)
    (he : s'.pod.entryCount = s.pod.entryCount +
      ((if q.t = .populateOnDemand then 2 ^ k else 0 : Nat) : Int) -
      ((gfns q.gfn k).countP fun x => IsPod (s.table x))) : s'.PodPending n := by
  have hiff := fun x => isPod_setRange env s q k ho x
  have hout : ∀ x ∉ gfns q.gfn k, (IsPod (s'.table x) ↔ IsPod (s.table x)) := fun x hx => by
    rw [ht, hiff, if_neg hx]
  have hnew : ((gfns q.gfn k).countP fun x => IsPod (s'.table x)) =
      if q.t = .populateOnDemand then 2 ^ k else 0 :=
    (countP_eq_all_or_none _).2 fun x hx => by rw [ht, hiff, if_pos hx]
  refine ⟨?_, h.sparse.of_agree hout⟩
  have hc := h.count
  rw [census_of_agree (nodup_gfns q.gfn k) h.sparse hout]
  omega

theorem State.PodPending.congr (h : s.PodPending n) (he : s'.pod.entryCount = s.pod.entryCount)
    (ht : ∀ x, (IsPod (s'.table x) ↔ IsPod (s.table x))) : s'.PodPending n where
  count := by rw [he, h.count, census_congr ht]
  sparse := h.sparse.of_agree (l := []) fun x _ => ht x

end Block

/-! ## Reclaiming -/

/-- From a state where the count is right but for `n`, the pending count stays, and
populate-on-demand gfns stay so. -/
structure Reclaims (s s' : State) : Prop where
  pending : ∀ n, s.PodPending n → s'.PodPending n
  isPod : ∀ n, s.PodPending n → ∀ x, IsPod (s.table x) → IsPod (s'.table x)

theorem Reclaims.refl (s : State) : Reclaims s s := ⟨fun _ h => h, fun _ _ _ h => h⟩

theorem Reclaims.trans {s s' s'' : State} (h : Reclaims s s') (h' : Reclaims s' s'') :
    Reclaims s s'' :=
  ⟨fun n hn => h'.pending n (h.pending n hn),
    fun n hn x hx => h'.isPod n (h.pending n hn) x (h.isPod n hn x hx)⟩

theorem Reclaims.of_frame {s s' : State} (he : s'.pod.entryCount = s.pod.entryCount)
    (ht : s'.table = s.table) : Reclaims s s' :=
  ⟨fun _ h => h.congr he fun x => by rw [ht], fun _ _ x h => by rw [ht]; exact h⟩

/-- Gfns of `l` that satisfy `P` become populate-on-demand, and are counted. -/
theorem Reclaims.of_taken {s s' : State} {l : List Nat} (hl : l.Nodup) (P : Nat → Bool)
    (hpod : ∀ x, IsPod (s'.table x) ↔ (x ∈ l ∧ P x = true) ∨ IsPod (s.table x))
    (hnot : ∀ x ∈ l, P x = true → ¬ IsPod (s.table x))
    (he : s'.pod.entryCount = s.pod.entryCount + l.countP P) : Reclaims s s' := by
  have hcount : (l.countP fun x => IsPod (s'.table x)) = l.countP P + l.countP fun x =>
      IsPod (s.table x) := by
    refine countP_eq_add fun x hx => ⟨?_, fun hp => ?_⟩
    · simp [hpod, hx]
    · simpa using hnot x hx hp
  have hout : ∀ x ∉ l, (IsPod (s'.table x) ↔ IsPod (s.table x)) := fun x hx => by simp [hpod, hx]
  refine ⟨fun n hs => ⟨?_, hs.sparse.of_agree hout⟩, fun _ _ x hx => (hpod x).2 (.inr hx)⟩
  rw [census_of_agree hl hs.sparse hout, ← hs.count]
  omega

section Super

variable {env : Env} {o : PodOutcomes} {s : State} {gfn : Nat}

theorem not_isPod_of_isRam {e : Translation} (h : e.t.isRam = true) : ¬ IsPod e := by
  intro hp
  rw [hp] at h
  cases h

theorem isRam_of_reclaimable {e : Translation} (h : reclaimable env o e = true) :
    e.t.isRam = true := by
  simp only [reclaimable, Bool.and_eq_true] at h
  exact h.1.1.1.1

theorem reclaimableSuper_spec (h : reclaimableSuper env o s gfn = true) {x : Nat}
    (hx : x ∈ gfns gfn 9) :
    (s.table x).t.isRam = true ∧ (s.table x).t = (s.table gfn).t ∧
      (s.table x).mfn = (s.table gfn).mfn + (x - gfn) ∧ (s.table gfn).mfn % 512 = 0 := by
  obtain ⟨hle, hlt⟩ := mem_gfns.1 hx
  simp only [reclaimableSuper, Bool.and_eq_true, all_eq_true, mem_range,
    decide_eq_true_eq] at h
  have hi := h.2 (x - gfn) (by show x - gfn < 512; omega)
  rw [Nat.add_sub_cancel' hle] at hi
  exact ⟨isRam_of_reclaimable hi.1.1, hi.1.2, hi.2, h.1⟩

/-- The page is taken out to be looked at. -/
def tried (env : Env) (o : PodOutcomes) (e : Translation) : Bool :=
  reclaimable env o e && o.quickZero e.mfn

/-- Nobody else has the page. -/
def alone (o : PodOutcomes) (e : Translation) : Bool := decide (o.countAfter e.mfn ≤ 1)

def restored (env : Env) (e : Translation) : Translation := ⟨e.mfn, e.t, env.defaultAccess⟩

def reclaimed (env : Env) (o : PodOutcomes) (e : Translation) : Bool :=
  tried env o e && alone o e && o.zero e.mfn

/-- The entry at a gfn that is not reclaimed. -/
def putBack (env : Env) (o : PodOutcomes) (gfn : Nat) (e : Translation) : Translation :=
  if o.markBackRc gfn = 0 then restored env e else .pod

/-- The entry at a gfn that was looked at. -/
def checked (env : Env) (o : PodOutcomes) (gfn : Nat) (e : Translation) : Translation :=
  if reclaimed env o e then .pod else if tried env o e then putBack env o gfn e else e

theorem at_of_isRam {mfn x : Nat} {t : P2mType} {a : P2mAccess} (ht : t.isRam = true)
    (hm : mfn ≠ invalidMfn) : (⟨gfn, mfn, t, a⟩ : Mapping).at x = ⟨mfn + (x - gfn), t, a⟩ := by
  unfold Mapping.at stored frameAt
  rw [if_neg (by rintro rfl; cases ht), if_neg (by rintro rfl; cases ht), if_neg hm]

/-- The superpage is taken out to be looked at. -/
def triedSuper (env : Env) (o : PodOutcomes) (s : State) (gfn : Nat) : Prop :=
  gfn % superpagePages = 0 ∧ reclaimableSuper env o s gfn = true ∧
    (superFrames (s.table gfn).mfn).all o.quickZero = true

def spareSuper (o : PodOutcomes) (s : State) (gfn : Nat) : Prop :=
  ∀ x ∈ gfns gfn 9, alone o (s.table x) = true ∧ o.zero (s.table x).mfn = true

/-- `p2m_pod_zero_check_superpage` when no `p2m_set_entry` fails. -/
theorem zeroCheckSuperpage_spec (ho : o.Succeeds) {r : State}
    (hr : (zeroCheckSuperpage env o s gfn).2 = r) :
    ¬ triedSuper env o s gfn ∧ r = s ∨ triedSuper env o s gfn ∧
      (spareSuper o s gfn ∧ (∀ x, r.table x = if x ∈ gfns gfn 9 then .pod else s.table x) ∧
        r.pod.entryCount = s.pod.entryCount + superpagePages ∧
          r.pod.count = s.pod.count + superpagePages ∨
      ¬ spareSuper o s gfn ∧
        (∀ x, r.table x = if x ∈ gfns gfn 9 then restored env (s.table x) else s.table x) ∧
        r.pod = s.pod) := by
  unfold zeroCheckSuperpage at hr
  simp only at hr
  split at hr
  · rename_i h
    exact .inl ⟨fun ht => h ht.1, hr.symm⟩
  split at hr
  · rename_i h
    exact .inl ⟨fun ht => by simp [ht.2.1] at h, hr.symm⟩
  rename_i hal hrec
  rw [Bool.not_eq_true', Bool.not_eq_false] at hrec
  split at hr
  · rename_i h
    exact .inl ⟨fun ht => by simp [ht.2.2] at h, hr.symm⟩
  rename_i hq
  rw [Bool.not_eq_true', Bool.not_eq_false] at hq
  have hspec := fun {x} => reclaimableSuper_spec (x := x) hrec
  refine .inr ⟨⟨not_not.1 hal, hrec, hq⟩, ?_⟩
  -- the frames are those of the gfns of the range
  have hframes : ∀ P : Nat → Prop, (∀ f ∈ superFrames (s.table gfn).mfn, P f) ↔
      ∀ x ∈ gfns gfn 9, P (s.table x).mfn := by
    intro P
    simp only [superFrames, gfns, forall_mem_map]
    refine forall₂_congr fun i hi => ?_
    rw [(hspec (mem_map_of_mem hi)).2.2.1, Nat.add_sub_cancel_left]
  rw [setRange_ok (.inl rfl) ho.super] at hr
  have hspare : spareSuper o s gfn ↔
      ¬ ((superFrames (s.table gfn).mfn).any (fun f => decide (1 < o.countAfter f)) ||
        !(superFrames (s.table gfn).mfn).all o.zero) = true := by
    simp only [spareSuper, alone, decide_eq_true_eq]
    rw [← hframes fun f => o.countAfter f ≤ 1 ∧ o.zero f = true]
    simp [forall_and]
  split at hr
  · rename_i hback
    have hself := hspec (x := gfn) (mem_gfns.2 (by omega))
    have hmod := hself.2.2.2
    have hfits : (⟨gfn, (s.table gfn).mfn, (s.table gfn).t, env.defaultAccess⟩ : Mapping).Fits
        (2 ^ 9) := by
      refine .inr (.inr (.inr ?_))
      show (s.table gfn).mfn + 512 ≤ invalidMfn + 1 ∨ invalidMfn < (s.table gfn).mfn
      unfold invalidMfn
      omega
    rw [setRange_ok hfits ho.superBack] at hr
    subst hr
    refine .inr ⟨fun h => hspare.1 h hback, fun x => ?_, rfl⟩
    by_cases hx : x ∈ gfns gfn 9
    · have hxs := hspec hx
      simp only [if_pos hx, setBlock_of_mem (q := ⟨gfn, _, _, _⟩) hx]
      rw [at_of_isRam hself.1 (by unfold invalidMfn; omega), restored, hxs.2.1, hxs.2.2.1]
    · simp only [if_neg hx, setBlock_of_not_mem (q := ⟨gfn, _, _, _⟩) hx,
        setBlock_of_not_mem (q := podMapping env gfn) hx]
  · rename_i hback
    subst hr
    refine .inl ⟨hspare.2 hback, fun x => ?_, rfl, rfl⟩
    exact if_congr mem_gfns.symm rfl rfl

theorem zeroCheckSuperpage_reclaims (env : Env) (ho : o.Succeeds) (s : State) (gfn : Nat) :
    Reclaims s (zeroCheckSuperpage env o s gfn).2 := by
  generalize hr : (zeroCheckSuperpage env o s gfn).2 = r
  rcases zeroCheckSuperpage_spec ho hr with ⟨-, rfl⟩ | ⟨ht, hcases⟩
  · exact .refl r
  have hnot : ∀ x ∈ gfns gfn 9, ¬ IsPod (s.table x) := fun x hx =>
    not_isPod_of_isRam (reclaimableSuper_spec ht.2.1 hx).1
  rcases hcases with ⟨-, htab, hentry, -⟩ | ⟨-, htab, hpod⟩
  · refine .of_taken (nodup_gfns gfn 9) (fun _ => true) (fun x => ?_) (fun x hx _ => hnot x hx) ?_
    · grind [Translation.pod]
    · rw [hentry, countP_true, length_gfns]
      rfl
  · refine .of_taken (nodup_gfns gfn 9) (fun _ => false) (fun x => ?_) (fun x hx _ => hnot x hx) ?_
    · grind [restored]
    · rw [hpod, countP_false]
      exact (Int.add_zero _).symm

end Super

section Singles

variable {env : Env} {o : PodOutcomes} {s : State} {gfn n : Nat} {e : Translation}

theorem gfns_zero (gfn : Nat) : gfns gfn 0 = [gfn] := rfl

theorem setRange_zero {setRc : Nat → Int} (q : Mapping) (h : setRc q.gfn = 0) :
    s.setRange env setRc q 0 =
      (0, { s with table := update s.table q.gfn (q.at q.gfn) }) := by
  unfold State.setRange
  rw [p2mSetEntry_zero, h, if_pos rfl]

theorem State.PodPending.update {s' : State} {d : Int} {n' : Nat} (h : s.PodPending n)
    (ht : s'.table = update s.table gfn e) (hd : s'.pod.entryCount = s.pod.entryCount + d)
    (hn : d + n' = n + (if IsPod e then 1 else 0) - (if IsPod (s.table gfn) then 1 else 0)) :
    s'.PodPending n' where
  count := by
    have hc := h.count
    rw [ht, census_update h.sparse, hd]
    omega
  sparse := ht ▸ h.sparse.update gfn e

def State.setAt (s : State) (gfn : Nat) (e : Translation) : State :=
  { s with table := update s.table gfn e }

theorem isRam_of_tried (h : tried env o e = true) : e.t.isRam = true := by
  rw [tried, Bool.and_eq_true] at h
  exact isRam_of_reclaimable h.1

theorem setRange_putBack (he : e.t.isRam = true) (hs : o.markBackRc gfn ≠ 0 → s.table gfn = .pod) :
    (s.setRange env o.markBackRc ⟨gfn, e.mfn, e.t, env.defaultAccess⟩ 0).2 =
      s.setAt gfn (putBack env o gfn e) := by
  have hat : (⟨gfn, e.mfn, e.t, env.defaultAccess⟩ : Mapping).at gfn = restored env e := by
    unfold Mapping.at stored frameAt
    rw [if_neg (not_isPod_of_isRam he), if_neg (by rintro (h : e.t = _); rw [h] at he; cases he),
      Nat.sub_self, Nat.add_zero, ite_self]
    rfl
  unfold State.setRange State.setAt putBack
  rw [p2mSetEntry_zero]
  split
  · rw [hat]
  · rename_i hrc
    rw [← hs hrc, update_eq_self]

variable (T : Nat → Translation) (hmark : ∀ x, o.markRc x = 0) {xs : List Nat}

include hmark

theorem markZero_eq (s : State) (gfn : Nat) (e : Translation) :
    markZero env o s gfn e = if tried env o e then
      (alone o e, s.setAt gfn (if alone o e then .pod else putBack env o gfn e))
        else (false, s) := by
  unfold markZero tried
  cases hr : reclaimable env o e with
  | false => rfl
  | true =>
    cases hq : o.quickZero e.mfn with
    | false => rfl
    | true =>
      have hset : (s.setRange env o.markRc (podMapping env gfn) 0).2 = s.setAt gfn .pod := by
        rw [setRange_zero (podMapping env gfn) (hmark gfn)]
        rfl
      have hpod : o.markBackRc gfn ≠ 0 → (s.setAt gfn .pod).table gfn = .pod := fun _ =>
        update_self gfn _ s.table
      simp only [hset, setRange_putBack (isRam_of_reclaimable hr) hpod, alone]
      by_cases hc : 1 < o.countAfter e.mfn
      · simp [hc, Nat.not_le.2 hc, State.setAt]
      · simp [hc, Nat.not_lt.1 hc]

theorem markZeros_eq (xs : List Nat) (s : State) :
    markZeros env o (xs.map fun x => (x, T x)) s =
      ((xs.filter fun x => tried env o (T x) && alone o (T x)).map fun x => (x, T x),
      { s with table := fun x => if x ∈ xs ∧ tried env o (T x) = true then
        if alone o (T x) then .pod else putBack env o x (T x) else s.table x }) := by
  induction xs generalizing s with
  | nil => simp [markZeros]
  | cons y xs ih =>
    rw [map_cons, markZeros, markZero_eq hmark]
    cases hy : tried env o (T y) with
    | false =>
      simp only [ih, filter_cons, hy, Bool.false_eq_true, if_false, Bool.false_and]
      refine Prod.ext rfl ?_
      simp only [State.mk.injEq, and_true]
      grind
    | true =>
      simp only [ih, filter_cons, hy, if_true, Bool.true_and, State.setAt]
      refine Prod.ext (by split <;> simp) ?_
      simp only [State.mk.injEq, and_true]
      grind [update_apply]

/-- `frames` go to the cache. -/
def State.cacheSingles (s : State) (table : Table) (frames : List Nat) : State :=
  { s with
    table
    pod := { s.pod with
      single := s.pod.single ++ frames
      count := s.pod.count + frames.length
      entryCount := s.pod.entryCount + frames.length } }

omit hmark in
theorem takeZeros_eq (s : State)
    (hT : ∀ x ∈ xs, (T x).t.isRam = true ∧ (o.markBackRc x ≠ 0 → s.table x = .pod)) :
    (xs.map fun x => (x, T x)).foldl (fun s p => takeZero env o s p.1 p.2) s =
      s.cacheSingles (fun x => if x ∈ xs ∧ o.zero (T x).mfn = false then putBack env o x (T x)
        else s.table x) ((xs.filter fun x => o.zero (T x).mfn).map fun x => (T x).mfn) := by
  induction xs generalizing s with
  | nil => simp [State.cacheSingles]
  | cons y xs ih =>
    have hy := hT y mem_cons_self
    have htl := fun x hx => hT x (mem_cons_of_mem _ hx)
    rw [map_cons, foldl_cons]
    cases hz : o.zero (T y).mfn with
    | true =>
      have htake : takeZero env o s y (T y) = s.cacheSingles s.table [(T y).mfn] := by
        unfold takeZero
        rw [hz]
        rfl
      rw [htake, ih (s.cacheSingles s.table [(T y).mfn]) htl]
      simp only [State.cacheSingles, filter_cons, hz, if_true, map_cons, append_assoc,
        singleton_append, length_cons, length_nil, State.mk.injEq, Pod.mk.injEq]
      grind
    | false =>
      have htake : takeZero env o s y (T y) = s.setAt y (putBack env o y (T y)) := by
        unfold takeZero
        rw [hz]
        exact setRange_putBack hy.1 hy.2
      rw [htake, ih (s.setAt y (putBack env o y (T y))) fun x hx => ⟨(htl x hx).1, fun hrc => ?_⟩]
      · simp only [State.cacheSingles, filter_cons, hz, Bool.false_eq_true, if_false, State.setAt,
          State.mk.injEq, and_true]
        grind [update_apply]
      · simp only [State.setAt, update_apply]
        grind [putBack]

/-- `p2m_pod_zero_check` when the gfns it looks at can be taken out. -/
theorem zeroCheck_eq (s : State) (xs : List Nat) :
    zeroCheck env o s xs =
      s.cacheSingles (fun x => if x ∈ xs then checked env o x (s.table x) else s.table x)
        ((xs.filter fun x => reclaimed env o (s.table x)).map fun x => (s.table x).mfn) := by
  have htried : ∀ x ∈ xs.filter fun x => tried env o (s.table x) && alone o (s.table x),
      x ∈ xs ∧ (tried env o (s.table x) = true ∧ alone o (s.table x) = true) ∧
        (s.table x).t.isRam = true := fun x hx => by
    have ht := (mem_filter.1 hx).2
    rw [Bool.and_eq_true] at ht
    exact ⟨(mem_filter.1 hx).1, ht, isRam_of_tried ht.1⟩
  unfold zeroCheck
  rw [markZeros_eq s.table hmark]
  rw [takeZeros_eq s.table _ fun x hx => ⟨(htried x hx).2.2, fun _ => ?_⟩]
  · have htaken : ∀ x, (o.zero (s.table x).mfn &&
        (tried env o (s.table x) && alone o (s.table x))) =
        reclaimed env o (s.table x) := fun _ => Bool.and_comm _ _
    simp only [State.cacheSingles, filter_filter, htaken, State.mk.injEq, and_true]
    grind [checked, reclaimed]
  · obtain ⟨hx, ht, -⟩ := htried x hx
    simp only [hx, ht, and_self, if_true]

omit hmark in
theorem zeroCheck_reclaims (ho : o.Succeeds) (s : State) (hxs : xs.Nodup) :
    Reclaims s (zeroCheck env o s xs) := by
  rw [zeroCheck_eq ho.mark]
  have hnot : ∀ e, tried env o e = true → ¬ IsPod e :=
    fun e he => not_isPod_of_isRam (isRam_of_tried he)
  refine .of_taken hxs (fun x => reclaimed env o (s.table x)) (fun x => ?_) (fun x _ hx => ?_) ?_
  · simp only [State.cacheSingles, checked, putBack, ho.markBack]
    grind [reclaimed, restored, Translation.pod]
  · rw [reclaimed, Bool.and_eq_true, Bool.and_eq_true] at hx
    exact hnot _ hx.1.1
  · simp only [State.cacheSingles, length_map, countP_eq_length_filter]

end Singles

section Sweep

variable {env : Env} {o : PodOutcomes}

theorem checkLastSuper_reclaims (env : Env) (ho : o.Succeeds) (s : State) (gfn : Nat) :
    Reclaims s (checkLastSuper env o s gfn) := by
  refine .trans ?_ (zeroCheckSuperpage_reclaims env ho _ _)
  exact .of_frame rfl rfl

theorem sweepLoop_invariant (P : State → Prop)
    (hz : ∀ s xs, xs.Nodup → P s → P (zeroCheck env o s xs)) (limit i : Nat) {batch : List Nat}
    {s : State} (hs : P s) (hb : batch.Nodup) (hi : ∀ x ∈ batch, i < x) :
    P (sweepLoop env o limit i batch s).2.2 ∧ (sweepLoop env o limit i batch s).2.1.Nodup := by
  induction i generalizing batch s with
  | zero => exact ⟨hs, hb⟩
  | succ i ih =>
    unfold sweepLoop
    have hbatch : (if (s.table (i + 1)).t.isRam then batch ++ [i + 1] else batch).Nodup ∧
        ∀ x ∈ (if (s.table (i + 1)).t.isRam then batch ++ [i + 1] else batch), i < x := by
      split
      · refine ⟨nodup_append.2 ⟨hb, nodup_singleton _, fun x hx y hy => ?_⟩,
          fun x hx => ?_⟩
        · rw [mem_singleton.1 hy]
          exact (hi x hx).ne'
        · rcases mem_append.1 hx with h | h
          · exact (Nat.lt_succ_self i).trans (hi x h)
          · rw [mem_singleton.1 h]
            exact Nat.lt_succ_self i
      · exact ⟨hb, fun x hx => (Nat.lt_succ_self i).trans (hi x hx)⟩
    generalize (if (s.table (i + 1)).t.isRam then batch ++ [i + 1] else batch) = batch'
      at hbatch ⊢
    by_cases hfull : batch'.length = 16
    · simp only [hfull, decide_true, if_true]
      have hs' := hz s batch' hbatch.1 hs
      split
      · exact ⟨hs', nodup_nil⟩
      · exact ih hs' nodup_nil fun x hx => absurd hx not_mem_nil
    · simp only [hfull, decide_false, Bool.false_eq_true, if_false]
      split
      · exact ⟨hs, hbatch.1⟩
      · exact ih hs hbatch.1 hbatch.2

theorem emergencySweep_invariant (P : State → Prop)
    (hz : ∀ s xs, xs.Nodup → P s → P (zeroCheck env o s xs))
    (hp : ∀ s n, P s → P { s with pod := { s.pod with reclaimSingle := n } }) {s : State}
    (hs : P s) : P (emergencySweep env o s) := by
  unfold emergencySweep
  simp only
  generalize (if s.pod.reclaimSingle = 0 then s.pod.maxGuest else s.pod.reclaimSingle) = start
  obtain ⟨hr, hnd⟩ := sweepLoop_invariant P hz (start - 1024) start hs nodup_nil
    fun x hx => absurd hx not_mem_nil
  split
  · exact hp _ _ (hz _ _ hnd hr)
  · exact hp _ _ hr

theorem emergencySweep_reclaims (env : Env) (ho : o.Succeeds) (s : State) :
    Reclaims s (emergencySweep env o s) :=
  emergencySweep_invariant (Reclaims s)
    (fun s' _ hxs h => h.trans (zeroCheck_reclaims ho s' hxs))
    (fun _ _ h => h.trans (.of_frame rfl rfl)) (.refl s)

end Sweep

/-! ## The cache -/

section Cache

variable {o : PodOutcomes} {s : State}

structure CacheOnly (s s' : State) : Prop where
  table : s'.table = s.table
  entryCount : s'.pod.entryCount = s.pod.entryCount

theorem CacheOnly.refl (s : State) : CacheOnly s s := ⟨rfl, rfl⟩

theorem CacheOnly.trans {s s' s'' : State} (h : CacheOnly s s') (h' : CacheOnly s' s'') :
    CacheOnly s s'' :=
  ⟨h'.table.trans h.table, h'.entryCount.trans h.entryCount⟩

theorem CacheOnly.reclaims {s s' : State} (h : CacheOnly s s') : Reclaims s s' :=
  .of_frame h.entryCount h.table

theorem cacheAdd_cacheOnly (s : State) (page order : Nat) :
    CacheOnly s (s.cacheAdd page order) := by
  unfold State.cacheAdd
  split <;> exact ⟨rfl, rfl⟩

theorem takePages_ok {page order : Nat} {pod : Pod} {r : Option Nat × State}
    (h : s.takePages page order pod = .ok r) : r = (some page, { s with pod := pod }) := by
  unfold State.takePages at h
  split at h
  · exact (Except.ok.inj h).symm
  · cases h

def Pod.frames (p : Pod) : List Nat := p.super.flatMap superFrames ++ p.single

theorem breakSuper_ok {s' : State} (h : s.breakSuper = .ok s') :
    ∃ pod, s' = { s with pod := pod } ∧ pod.frames.Perm s.pod.frames ∧ pod.count = s.pod.count ∧
      pod.entryCount = s.pod.entryCount := by
  unfold State.breakSuper at h
  split at h <;> cases h
  · exact ⟨s.pod, rfl, .refl _, rfl, rfl⟩
  · rename_i p rest hsingle hsuper
    refine ⟨_, rfl, perm_iff_count.2 fun f => ?_, rfl, rfl⟩
    simp only [Pod.frames, hsingle, hsuper, flatMap_cons, count_append, count_nil]
    omega

/-- Pages come out of the cache, or there is no superpage. -/
theorem cacheGet_ok {order : Nat} {r : Option Nat × State} (h : s.cacheGet order = .ok r) :
    r = (none, s) ∨ ∃ page pod, r = (some page, { s with pod := pod }) ∧
      (gfns page order ++ pod.frames).Perm s.pod.frames ∧
      pod.count = s.pod.count - (2 ^ order : Nat) ∧ pod.entryCount = s.pod.entryCount := by
  unfold State.cacheGet at h
  split at h
  · rename_i h9
    subst h9
    split at h
    · cases h
      exact .inl rfl
    · rename_i p rest hsuper
      refine .inr ⟨p, _, takePages_ok h, perm_iff_count.2 fun f => ?_, rfl, rfl⟩
      have hp : superFrames p = gfns p 9 := rfl
      simp only [Pod.frames, hsuper, flatMap_cons, hp, count_append]
      omega
  split at h
  · rename_i h0
    subst h0
    split at h
    · cases h
    rename_i s₁ hb
    obtain ⟨pod, rfl, hperm, hcount, hentry⟩ := breakSuper_ok hb
    simp only at h
    split at h
    · cases h
    rename_i p rest hsingle
    refine .inr ⟨p, _, takePages_ok h, .trans (perm_iff_count.2 fun f => ?_) hperm, ?_, hentry⟩
    · simp only [Pod.frames, hsingle, gfns_zero, count_append, count_cons, count_nil]
      omega
    · rw [← hcount]
      rfl
  · cases h

theorem cacheGet_cacheOnly {order : Nat} {r : Option Nat × State} (h : s.cacheGet order = .ok r) :
    CacheOnly s r.2 := by
  rcases cacheGet_ok h with rfl | ⟨page, pod, rfl, -, -, hentry⟩
  · exact .refl s
  · exact ⟨rfl, hentry⟩

variable {target : Nat} {preemptible : Bool} {fuel : Nat} {r : Int × State}

theorem growCache_invariant (P : State → Prop)
    (hadd : ∀ s page k, (k = 9 ∨ k = 0) → o.alloc s.pod.count k = some page → P s →
      P ((s.allocate page k).cacheAdd page k)) (hs : P s) :
    P (growCache o target preemptible fuel s).2 := by
  induction fuel generalizing s with
  | zero => exact hs
  | succ fuel ih =>
    unfold growCache
    simp only
    split
    · split
      · exact hs
      · rename_i page k hgot
        have hk : (k = 9 ∨ k = 0) ∧ o.alloc s.pod.count k = some page := by
          rcases Option.or_eq_some_iff.1 hgot with hgot | ⟨-, hgot⟩
          · obtain ⟨p, hp, heq⟩ := Option.map_eq_some_iff.1 hgot
            cases heq
            refine ⟨?_, hp⟩
            split
            · exact .inl rfl
            · exact .inr rfl
          · split at hgot
            · obtain ⟨p, hp, heq⟩ := Option.map_eq_some_iff.1 hgot
              cases heq
              exact ⟨.inr rfl, hp⟩
            · cases hgot
        have hs' := hadd s page k hk.1 hk.2 hs
        split
        · exact hs'
        · exact ih hs'
    · exact hs

theorem freePages_cacheOnly (target : Nat) (preemptible : Bool) (fs : List Nat) (s : State) :
    CacheOnly s (freePages o target preemptible fs s).2 := by
  induction fs generalizing s with
  | nil => exact .refl s
  | cons f fs ih =>
    unfold freePages
    simp only
    split
    · exact .refl s
    · split
      · exact ⟨rfl, rfl⟩
      · exact (show CacheOnly s (s.release f) from ⟨rfl, rfl⟩).trans (ih _)

theorem shrinkCache_invariant (P : State → Prop)
    (hfree : ∀ s s' page k, s.cacheGet k = .ok (some page, s') → P s →
      P (freePages o target preemptible (gfns page k) s').2) (hs : P s)
    (h : shrinkCache o target preemptible fuel s = .ok r) : P r.2 := by
  induction fuel generalizing s with
  | zero =>
    cases h
    exact hs
  | succ fuel ih =>
    rw [shrinkCache] at h
    split at h
    · simp only at h
      generalize (if (superpagePages : Int) < s.pod.count - target ∧ s.pod.super ≠ [] then 9
        else 0) = order at h
      split at h
      · cases h
      · cases h
      rename_i page s' hg
      have hs' := hfree s s' page order hg hs
      split at h
      · cases h
        exact hs'
      · exact ih hs' h
    · cases h
      exact hs

theorem setCacheTarget_cacheOnly (h : setCacheTarget o s target preemptible = .ok r) :
    CacheOnly s r.2 := by
  have hgrow : CacheOnly s (growCache o target preemptible (target - s.pod.count).toNat s).2 :=
    growCache_invariant (CacheOnly s) (fun s' page k _ _ hs' => hs'.trans
      ((show CacheOnly s' (s'.allocate page k) from ⟨rfl, rfl⟩).trans (cacheAdd_cacheOnly _ _ _)))
      (.refl s)
  unfold setCacheTarget at h
  simp only at h
  split at h
  · cases h
    exact hgrow
  · exact shrinkCache_invariant (CacheOnly s) (fun _ _ _ _ hg hs' =>
      (hs'.trans (cacheGet_cacheOnly hg)).trans (freePages_cacheOnly _ _ _ _)) hgrow h

variable {dying : Bool} {totPages : Nat} {ret : Int}

theorem setMemTarget_cases (h : setMemTarget o s dying totPages target = .ok r) :
    r.2 = s ∨ ∃ target, setCacheTarget o s target true = .ok r := by
  unfold setMemTarget at h
  simp only at h
  split at h
  · cases h
    exact .inl rfl
  split at h
  · cases h
    exact .inl rfl
  split at h
  · cases h
    exact .inl rfl
  exact .inr ⟨_, h⟩

theorem setMemTarget_cacheOnly
    (h : setMemTarget o s dying totPages target = .ok r) : CacheOnly s r.2 := by
  rcases setMemTarget_cases h with hs | ⟨target, h⟩
  · rw [hs]
    exact .refl s
  · exact setCacheTarget_cacheOnly h

theorem trimCache_cases (h : trimCache o ret s = .ok r) :
    r.2 = s ∨ s.pod.entryCount < s.pod.count ∧
      ∃ r', setCacheTarget o s s.pod.entryCount.toNat false = .ok r' ∧ r.2 = r'.2 := by
  unfold trimCache at h
  split at h
  · rename_i hlt
    split at h
    · cases h
    · rename_i r' hr
      cases h
      exact .inr ⟨hlt, r', hr, rfl⟩
  · cases h
    exact .inl rfl

theorem trimCache_cacheOnly (h : trimCache o ret s = .ok r) : CacheOnly s r.2 := by
  rcases trimCache_cases h with hs | ⟨-, r', hr, hs⟩
  · rw [hs]
    exact .refl s
  · rw [hs]
    exact setCacheTarget_cacheOnly hr

end Cache

/-! ## Giving back -/

/-- `P` is kept where `p2m_pod_decrease_reservation` changes the state. -/
structure DecreaseRule (env : Env) (o : PodOutcomes) (P : State → Prop) : Prop where
  drop : ∀ s gfn order, (∀ x ∈ gfns gfn order, IsPod (s.table x)) → P s →
    P { (s.setRange env o.dropRc (noMapping env gfn) order).2 with
      pod := { s.pod with entryCount := s.pod.entryCount - 2 ^ order } }
  super : ∀ s gfn, P s → P (zeroCheckSuperpage env o s gfn).2
  clear : ∀ s x, IsPod (s.table x) → P s →
    P { (s.setRange env o.clearRc (noMapping env x) 0).2 with
      pod := { s.pod with entryCount := s.pod.entryCount - 1 } }
  steal : ∀ s x, (s.table x).t.isRam = true → P s →
    P (((s.setRange env o.stealRc (noMapping env x) 0).2.setGpfnFromMfn (s.table x).mfn
      .invalid).cacheAdd (s.table x).mfn 0)
  trim : ∀ s ret r, trimCache o ret s = .ok r → P s → P r.2

section Decrease

variable {env : Env} {P : State → Prop} {s : State} {gfn order : Nat} {r : Int × State}

theorem DecreaseRule.stealLoop {o : PodOutcomes} (R : DecreaseRule env o P) {xs : List Nat}
    {c : Counts} {steal : Bool} {p : Counts × State} (hs : P s)
    (h : stealLoop env o xs c steal s = .ok p) : P p.2 := by
  induction xs generalizing s c steal with
  | nil =>
    cases h
    exact hs
  | cons x xs ih =>
    rw [P2m.stealLoop] at h
    split at h
    · cases h
      exact hs
    simp only at h
    split at h
    · rename_i hx
      split at h
      · cases h
      · exact ih (R.clear s x hx hs) h
    split at h
    · rename_i hram
      split at h
      · cases h
      · exact ih (R.steal s x (Bool.and_eq_true_iff.1 hram).2 hs) h
    · exact ih hs h

theorem decreaseLoop_invariant {os : List PodOutcomes} (R : ∀ o ∈ os, DecreaseRule env o P)
    (hs : P s) (h : decreaseLoop env gfn order os s = .ok r) : P r.2 := by
  induction os generalizing s with
  | nil => cases h
  | cons o os ih =>
    obtain ⟨R, Rs⟩ := forall_mem_cons.1 R
    rw [decreaseLoop] at h
    simp only at h
    split at h
    · cases h
      exact hs
    split at h
    · rename_i hnon
      split at h
      · cases h
      -- nothing else is in the range
      refine R.trim _ _ _ h (R.drop s gfn order (fun x hx => ?_) hs)
      simpa using countP_eq_zero.1 (Int.natCast_eq_zero.1 hnon) x hx
    have hz : P (if decide (s.pod.count < s.pod.entryCount) = true then
        zeroCheckSuperpage env o s (gfn / superpagePages * superpagePages) else (0, s)).2 := by
      split
      · exact R.super s _ hs
      · exact hs
    generalize (if decide (s.pod.count < s.pod.entryCount) = true then
      zeroCheckSuperpage env o s (gfn / superpagePages * superpagePages) else (0, s)) = z at h hz
    split at h
    · exact ih Rs hz h
    · split at h
      · cases h
      · rename_i hloop
        exact R.trim _ _ _ h (R.stealLoop hz hloop)

theorem decreaseReservation_invariant {os : List PodOutcomes} {dying : Bool}
    (R : ∀ o ∈ os, DecreaseRule env o P) (hs : P s)
    (h : decreaseReservation env os s dying gfn order = .ok r) : P r.2 := by
  unfold decreaseReservation at h
  split at h
  · cases h
    exact hs
  · exact decreaseLoop_invariant R hs h

end Decrease

/-! ## The operations -/

section Ops

variable {env : Env} {o : PodOutcomes} {s s' : State} {gfn order n : Nat} {r : Int × State}

theorem State.PodPending.range_of_all {setRc : Nat → Int} (hs : s.PodPending n) (q : Mapping)
    (hrc : ∀ x, setRc x = 0) (hpod : ∀ x ∈ gfns q.gfn order, IsPod (s.table x))
    (ht : s'.table = (s.setRange env setRc q order).2.table)
    (he : s'.pod.entryCount =
      s.pod.entryCount - if q.t = .populateOnDemand then 0 else 2 ^ order) : s'.PodPending n := by
  refine hs.range env order q hrc ht ?_
  have hall := (countP_eq_all_or_none True).2 fun x hx => iff_true_intro (hpod x hx)
  rw [he, hall]
  split <;> simp

theorem setRange_pod {setRc : Nat → Int} (hs : s.PodPending n) (hrc : ∀ x, setRc x = 0)
    (hpod : ∀ x ∈ gfns gfn order, IsPod (s.table x)) :
    (s.setRange env setRc (podMapping env gfn) order).2.PodPending n :=
  hs.range_of_all (podMapping env gfn) hrc hpod rfl (Int.sub_zero _).symm

theorem gfns_mono {k x : Nat} (hk : k ≤ order) (hx : x ∈ gfns gfn k) : x ∈ gfns gfn order := by
  have hle : 2 ^ k ≤ 2 ^ order := Nat.pow_le_pow_right Nat.two_pos hk
  rw [mem_gfns] at hx ⊢
  omega

variable (hs : s.PodPending 0) (ho : o.Succeeds)
include hs ho

theorem markPopulateOnDemand_exact
    (h : markPopulateOnDemand env o s gfn order = .ok r) : r.2.PodPending 0 := by
  unfold markPopulateOnDemand at h
  split at h
  · cases h
    exact hs
  simp only at h
  split at h
  · split at h
    · cases h
    · cases h
      refine hs.range env order (podMapping env gfn) ho.mark rfl ?_
      rfl
  · rename_i hne
    rw [setRange_ok (.inl rfl) ho.mark] at hne
    exact absurd rfl hne

theorem populate_exact {page : Nat} {allocate : Bool}
    (hpod : ∀ x ∈ gfns (gfn / 2 ^ order * 2 ^ order) order, IsPod (s.table x))
    (h : populate env o s gfn order page allocate = .ok r) : r.2.PodPending 0 := by
  unfold populate at h
  simp only [setM2p_eq] at h
  split at h
  · cases h
  split at h
  · cases h
  have hnext : ∀ s' : State, s'.table = (s.setRange env o.populateRc
      ⟨gfn / 2 ^ order * 2 ^ order, page, .ramRw, env.defaultAccess⟩ order).2.table →
      s'.pod.entryCount = s.pod.entryCount - 2 ^ order → s'.PodPending 0 := by
    intro s' ht he
    exact hs.range_of_all _ ho.populate hpod ht he
  split at h
  · cases h
    exact (checkLastSuper_reclaims env ho _ _).pending 0 (hnext _ rfl rfl)
  · cases h
    exact hnext _ rfl rfl

theorem remapSingles_exact (hpod : ∀ x ∈ gfns gfn order, IsPod (s.table x)) :
    (remapSingles env o s gfn order).PodPending 0 := by
  have hinv : (remapSingles env o s gfn order).PodPending 0 ∧
      ∀ x ∈ gfns gfn order, IsPod ((remapSingles env o s gfn order).table x) := by
    refine foldl_invariant
      (fun s : State => s.PodPending 0 ∧ ∀ x ∈ gfns gfn order, IsPod (s.table x))
      (fun s i hi h => ⟨setRange_pod h.1 ho.split fun x hx => ?_, fun x hx => ?_⟩) ⟨hs, hpod⟩
    · rw [gfns_zero, mem_singleton] at hx
      rw [hx]
      exact h.2 _ (mem_map_of_mem hi)
    · refine (isPod_setRange env s _ 0 ho.split x).2 ?_
      split
      · rfl
      · exact h.2 x hx
  exact hinv.1

theorem demandPopulate_exact {dying allocate : Bool}
    (hpod : ∀ x ∈ gfns (gfn / 2 ^ order * 2 ^ order) order, IsPod (s.table x))
    (h : demandPopulate env o s dying gfn order allocate = .ok r) : r.2.PodPending 0 := by
  unfold demandPopulate at h
  simp only at h
  split at h
  · cases h
    exact hs
  split at h
  · rename_i h18
    subst h18
    cases h
    exact setRange_pod hs ho.split fun x hx => hpod x (gfns_mono (by decide) hx)
  -- the cache may have to be filled first
  have hsweep : Reclaims s (if s.pod.count = 0 then emergencySweep env o s else s) := by
    split
    · exact emergencySweep_reclaims env ho s
    · exact .refl s
  generalize (if s.pod.count = 0 then emergencySweep env o s else s) = s₁ at h hsweep
  split at h
  · cases h
    exact hsweep.pending 0 hs
  have hmax : Reclaims s { s₁ with pod := { s₁.pod with maxGuest := max s₁.pod.maxGuest gfn } } :=
    hsweep.trans (.of_frame rfl rfl)
  split at h
  · cases h
  · rename_i hg
    have hget := hmax.trans (cacheGet_cacheOnly hg).reclaims
    exact populate_exact (hget.pending 0 hs) ho (fun x hx => hget.isPod 0 hs x (hpod x hx)) h
  rename_i hg
  have hget := hmax.trans (cacheGet_cacheOnly hg).reclaims
  split at h
  · cases h
  · cases h
    exact remapSingles_exact (hget.pending 0 hs) ho fun x hx => hget.isPod 0 hs x (hpod x hx)

omit hs in
theorem decreaseRule_exact : DecreaseRule env o fun s => s.PodPending 0 where
  drop s gfn order hpod hs := hs.range_of_all (noMapping env gfn) ho.drop hpod rfl rfl
  super s gfn := (zeroCheckSuperpage_reclaims env ho s gfn).pending 0
  clear s x hx hs := by
    rw [setRange_zero (noMapping env x) (ho.clear x)]
    refine hs.update (e := .none) rfl rfl ?_
    rw [if_pos (show IsPod (s.table (noMapping env x).gfn) from hx)]
    rfl
  steal s x hx hs := by
    rw [setRange_zero (noMapping env x) (ho.steal x)]
    refine (cacheAdd_cacheOnly _ _ _).reclaims.pending 0
      (hs.update (e := .none) rfl (Int.add_zero _).symm ?_)
    rw [if_neg (show ¬ IsPod (s.table (noMapping env x).gfn) from not_isPod_of_isRam hx)]
    rfl
  trim s ret r h := (trimCache_cacheOnly h).reclaims.pending 0

end Ops

/-! ## Plugging and removing a range -/

section Physmap

variable {env : Env} {o : Outcomes} {s : State} {gfn mfn pageOrder : Nat} {t : P2mType}

theorem addEntry_pod (hs : s.PodPending 0) (ho : o.Succeeds) (ht : t.isForeign = false)
    (hfits : env.mfnValid mfn = true → mfn + 2 ^ pageOrder ≤ invalidMfn) {r : Int × State}
    (hr : guestPhysmapAddEntry env o s gfn mfn pageOrder t = r) :
    (r.2.PodExact ↔ (o.Admits env s gfn mfn pageOrder → env.mfnValid mfn = true →
      ∀ x ∈ gfns gfn pageOrder, (IsPod (s.table x) ↔ t = .populateOnDemand))) ∧
    Sparse IsPod r.2.table := by
  have eff : AddEffect env o s gfn mfn pageOrder t _ := addEntry_effect ho ht hfits
  rw [hr] at eff
  rw [← eff.rc]
  have hexact := hs.count
  have hout : ∀ x ∉ gfns gfn pageOrder, (IsPod (r.2.table x) ↔ IsPod (s.table x)) := by
    intro x hx
    rcases eff.outside x hx with h | ⟨h, hr, -⟩
    · rw [h]
    refine iff_of_false ?_ fun hp => ?_
    · rw [h]
      intro hp
      cases hp
    · rw [hp] at hr
      cases hr
  refine ⟨?_, hs.sparse.of_agree hout⟩
  by_cases hrc : r.1 = 0
  · have hnew : ((gfns gfn pageOrder).countP fun x => IsPod (r.2.table x)) =
        if env.mfnValid mfn = true ∧ t = .populateOnDemand then 2 ^ pageOrder else 0 := by
      refine (countP_eq_all_or_none _).2 fun x hx => ?_
      rw [eff.mapped hrc x hx]
      split
      · rename_i hv
        exact isPod_at.trans (and_iff_right hv).symm
      · rename_i hv
        exact iff_of_false nofun fun h => hv h.1
    have hcensus := census_of_agree (nodup_gfns gfn pageOrder) hs.sparse hout
    rw [hnew] at hcensus
    rw [State.PodExact, eff.podCount, hcensus, ← hexact]
    cases hv : env.mfnValid mfn with
    | true =>
      simp only [hrc, true_and, forall_const, Bool.true_eq_false, if_false, ← countP_eq_all_or_none]
      omega
    | false =>
      refine iff_of_true ?_ nofun
      simp [hrc]
  · have hin : ∀ x, (IsPod (r.2.table x) ↔ IsPod (s.table x)) := by
      intro x
      by_cases hx : x ∈ gfns gfn pageOrder
      · rcases eff.stopped hrc x hx with h | ⟨hshared, h⟩
        · rw [h]
        · refine iff_of_false (fun hp => ?_) fun hp => ?_
          · cases h.symm.trans hp
          · rw [hp] at hshared
            cases hshared
      · exact hout x hx
    refine iff_of_true ?_ fun h => absurd h hrc
    rw [State.PodExact, census_congr hin, eff.podCount, ← hexact]
    simp [hrc]

theorem p2mRemovePage_frame (env : Env) (setRc : Nat → Int) (s : State) (gfn mfn pageOrder : Nat) :
    (p2mRemovePage env setRc s gfn mfn pageOrder).2.table =
      (s.setRange env setRc (noMapping env gfn) pageOrder).2.table ∧
    (p2mRemovePage env setRc s gfn mfn pageOrder).2.pod = s.pod := by
  have hclear : ∀ is : List Nat, let s' := is.foldl (fun (s : State) i =>
      if !(s.table (gfn + i)).t.isGrant && !(s.table (gfn + i)).t.isShared &&
        !(s.table (gfn + i)).t.isForeign then s.setGpfnFromMfn (mfn + i) .invalid else s) s
      s'.table = s.table ∧ s'.pod = s.pod := by
    intro is
    refine foldl_invariant (fun s' : State => s'.table = s.table ∧ s'.pod = s.pod)
      (fun s' i _ h => ?_) ⟨rfl, rfl⟩
    split <;> exact h
  unfold p2mRemovePage State.setRange
  simp only
  split
  · obtain ⟨ht, hp⟩ := hclear (List.range (2 ^ pageOrder))
    exact ⟨by rw [ht]; rfl, hp⟩
  · exact ⟨rfl, rfl⟩

theorem removePage_pod (hs : s.PodPending 0) (ho : o.Succeeds) (gfn mfn pageOrder : Nat) :
    ((guestPhysmapRemovePage env o s gfn mfn pageOrder).2.PodExact ↔
      ∀ x ∈ gfns gfn pageOrder, ¬ IsPod (s.table x)) ∧
    Sparse IsPod (guestPhysmapRemovePage env o s gfn mfn pageOrder).2.table := by
  obtain ⟨ht, hp⟩ := p2mRemovePage_frame env o.removeRc s gfn mfn pageOrder
  -- the table that is left, with the count that it should have
  have hleft : State.PodPending { s with
      table := (s.setRange env o.removeRc (noMapping env gfn) pageOrder).2.table
      pod := { s.pod with entryCount := s.pod.entryCount + (0 : Nat) -
        ((gfns gfn pageOrder).countP fun x => IsPod (s.table x)) } } 0 :=
    hs.range env pageOrder (noMapping env gfn) ho.remove rfl (by rfl)
  have hcount : ((gfns gfn pageOrder).countP fun x => IsPod (s.table x)) = 0 ↔
      ∀ x ∈ gfns gfn pageOrder, ¬ IsPod (s.table x) := by
    rw [countP_eq_zero]
    simp only [decide_eq_true_eq]
  unfold guestPhysmapRemovePage
  refine ⟨?_, ht ▸ hleft.sparse⟩
  have := hleft.count
  simp only at this
  rw [State.PodExact, ht, hp, ← hcount]
  omega

end Physmap

/-! ## Runs -/

inductive PodOp where
  | mark (o : PodOutcomes) (gfn order : Nat)
  | demandPopulate (o : PodOutcomes) (dying : Bool) (gfn order : Nat) (allocate : Bool)
  | decreaseReservation (os : List PodOutcomes) (dying : Bool) (gpfn order : Nat)
  | zeroCheckSuperpage (o : PodOutcomes) (gfn : Nat)
  | zeroCheck (o : PodOutcomes) (gfns : List Nat)
  | emergencySweep (o : PodOutcomes)
  | setMemTarget (o : PodOutcomes) (dying : Bool) (totPages target : Nat)
  | addEntry (o : Outcomes) (gfn mfn pageOrder : Nat) (t : P2mType)
  | removePage (o : Outcomes) (gfn mfn pageOrder : Nat)

def podStep (env : Env) (s : State) : PodOp → Except PodFault State
  | .mark o gfn order => (markPopulateOnDemand env o s gfn order).map Prod.snd
  | .demandPopulate o dying gfn order allocate =>
    (P2m.demandPopulate env o s dying gfn order allocate).map Prod.snd
  | .decreaseReservation os dying gpfn order =>
    (P2m.decreaseReservation env os s dying gpfn order).map Prod.snd
  | .zeroCheckSuperpage o gfn => .ok (P2m.zeroCheckSuperpage env o s gfn).2
  | .zeroCheck o gfns => .ok (P2m.zeroCheck env o s gfns)
  | .emergencySweep o => .ok (P2m.emergencySweep env o s)
  | .setMemTarget o dying totPages target =>
    (P2m.setMemTarget o s dying totPages target).map Prod.snd
  | .addEntry o gfn mfn pageOrder t => .ok (guestPhysmapAddEntry env o s gfn mfn pageOrder t).2
  | .removePage o gfn mfn pageOrder => .ok (guestPhysmapRemovePage env o s gfn mfn pageOrder).2

def PodOp.Sound (env : Env) (s : State) : PodOp → Prop
  | .mark o _ _ => o.Succeeds
  | .demandPopulate o _ gfn order _ =>
    o.Succeeds ∧ ∀ x ∈ gfns (gfn / 2 ^ order * 2 ^ order) order, IsPod (s.table x)
  | .decreaseReservation os _ _ _ => ∀ o ∈ os, o.Succeeds
  | .zeroCheckSuperpage o _ => o.Succeeds
  | .zeroCheck o gfns => o.Succeeds ∧ gfns.Nodup
  | .emergencySweep o => o.Succeeds
  | .setMemTarget _ _ _ _ => True
  | .addEntry o _ mfn pageOrder _ =>
    o.Succeeds ∧ (env.mfnValid mfn = true → mfn + 2 ^ pageOrder ≤ invalidMfn)
  | .removePage o _ _ _ => o.Succeeds

/-- A range that is plugged has populate-on-demand gfns only if all become and were so, and a range
that is removed has none. -/
def PodOp.Counts (env : Env) (s : State) : PodOp → Prop
  | .addEntry o gfn mfn pageOrder t => t.isForeign = false →
      o.Admits env s gfn mfn pageOrder → env.mfnValid mfn = true →
      ∀ x ∈ gfns gfn pageOrder, (IsPod (s.table x) ↔ t = .populateOnDemand)
  | .removePage _ gfn _ pageOrder => ∀ x ∈ gfns gfn pageOrder, ¬ IsPod (s.table x)
  | _ => True

section Runs

variable {env : Env} {s : State}

theorem State.PodPending.exact (h : s.PodPending 0) : s.PodExact :=
  (Int.add_zero _).symm.trans h.count

theorem State.PodExact.pending (h : s.PodExact) (hs : Sparse IsPod s.table) : s.PodPending 0 :=
  ⟨(Int.add_zero _).trans h, hs⟩

theorem podStep_exact_iff (hs : s.PodPending 0) {op : PodOp} (hop : op.Sound env s) {s' : State}
    (h : podStep env s op = .ok s') :
    (s'.PodExact ↔ op.Counts env s) ∧ (s'.PodExact → s'.PodPending 0) := by
  have counted : s'.PodPending 0 → (s'.PodExact ↔ True) ∧ (s'.PodExact → s'.PodPending 0) :=
    fun h => ⟨iff_true_intro h.exact, fun _ => h⟩
  cases op with
  | mark o gfn order =>
    obtain ⟨r, hr, rfl⟩ := exists_ok_of_except_map h
    exact counted (markPopulateOnDemand_exact hs hop hr)
  | demandPopulate o dying gfn order allocate =>
    obtain ⟨r, hr, rfl⟩ := exists_ok_of_except_map h
    exact counted (demandPopulate_exact hs hop.1 hop.2 hr)
  | decreaseReservation os dying gpfn order =>
    obtain ⟨r, hr, rfl⟩ := exists_ok_of_except_map h
    exact counted (decreaseReservation_invariant (fun o ho => decreaseRule_exact (hop o ho)) hs hr)
  | zeroCheckSuperpage o gfn =>
    cases h
    exact counted ((zeroCheckSuperpage_reclaims env hop s gfn).pending 0 hs)
  | zeroCheck o gfns =>
    cases h
    exact counted ((zeroCheck_reclaims hop.1 s hop.2).pending 0 hs)
  | emergencySweep o =>
    cases h
    exact counted ((emergencySweep_reclaims env hop s).pending 0 hs)
  | setMemTarget o dying totPages target =>
    obtain ⟨r, hr, rfl⟩ := exists_ok_of_except_map h
    exact counted ((setMemTarget_cacheOnly hr).reclaims.pending 0 hs)
  | addEntry o gfn mfn pageOrder t =>
    cases h
    cases ht : t.isForeign with
    | true =>
      have hsame : (guestPhysmapAddEntry env o s gfn mfn pageOrder t).2 = s := by
        rw [guestPhysmapAddEntry, if_pos ht]
      rw [hsame]
      refine ⟨iff_of_true hs.exact fun h => ?_, fun _ => hs⟩
      rw [ht] at h
      cases h
    | false =>
      obtain ⟨hiff, hsparse⟩ := addEntry_pod hs hop.1 ht hop.2 rfl
      exact ⟨hiff.trans ⟨fun h _ => h, fun h => h ht⟩, fun h => h.pending hsparse⟩
  | removePage o gfn mfn pageOrder =>
    cases h
    obtain ⟨hiff, hsparse⟩ := removePage_pod hs hop gfn mfn pageOrder
    exact ⟨hiff, fun h => h.pending hsparse⟩

/-- **The debt is counted exactly** along every run whose steps count what they change, and a
further step keeps it so exactly if it does. -/
theorem pod_entry_count_exact {s₀ : State} (h₀ : s₀.PodPending 0)
    (run : Reaches (podStep env) (fun s op => op.Sound env s ∧ op.Counts env s) s₀ s) :
    s.PodExact ∧ ∀ op s', op.Sound env s → podStep env s op = .ok s' →
      (s'.PodExact ↔ op.Counts env s) := by
  have inv : s.PodPending 0 := by
    refine run.invariant (P := fun s => s.PodPending 0) (fun s op s' hg hs hinv => ?_) h₀
    obtain ⟨hiff, hinv'⟩ := podStep_exact_iff hinv hg.1 hs
    exact hinv' (hiff.2 hg.2)
  exact ⟨inv.exact, fun op s' hop hs => (podStep_exact_iff inv hop hs).1⟩

def noMemory : State where
  table := fun _ => .none
  m2p := fun _ => .invalid
  owner := fun _ => .self
  pagedPages := 0
  pod := ⟨0, 0, [], [], 0, 0, fun _ => 0, 0⟩
  freed := []

theorem noMemory_podPending : noMemory.PodPending 0 := by
  obtain ⟨hzero, hsparse⟩ := census_eq_zero (p := IsPod) (f := noMemory.table) nofun
  exact ⟨by rw [hzero]; rfl, hsparse⟩

def podGood : PodOutcomes where
  page _ := ⟨true, false, false, 1⟩
  countAfter _ := 1
  quickZero _ := false
  zero _ := false
  superRc _ := 0
  superBackRc _ := 0
  markRc _ := 0
  markBackRc _ := 0
  dropRc _ := 0
  clearRc _ := 0
  stealRc _ := 0
  populateRc _ := 0
  splitRc _ := 0
  getPage _ := true
  preemptGrow _ := false
  preemptShrink _ := false
  alloc _ _ := none

theorem podGood_succeeds : podGood.Succeeds := by
  constructor <;> exact fun _ => rfl

/-- Calls of `guest_physmap_add_entry` that succeed. -/
def addGood : Outcomes := ⟨fun _ => .keep, fun _ => 0, fun _ => 0⟩

theorem addGood_succeeds : addGood.Succeeds := ⟨fun _ => rfl, fun _ => rfl⟩

def onePromised : State :=
  { noMemory with
    table := update (fun _ => .none) 3 .pod
    pod := { noMemory.pod with entryCount := 1 } }

theorem mark_onePromised : podStep smallMachine noMemory (.mark podGood 3 0) = .ok onePromised := by
  have hset : noMemory.setRange smallMachine podGood.markRc (podMapping smallMachine 3) 0 =
      (0, { noMemory with table := update (fun _ => .none) 3 .pod }) :=
    setRange_zero _ rfl
  show (markPopulateOnDemand smallMachine podGood noMemory 3 0).map Prod.snd = _
  rw [markPopulateOnDemand, hset]
  rfl

/-- One page is promised, and counted. -/
theorem pod_entry_count_exact_promised : onePromised.pod.entryCount = 1 ∧ onePromised.PodExact :=
  ⟨rfl, (pod_entry_count_exact noMemory_podPending (.single
    ⟨.mark podGood 3 0, ⟨podGood_succeeds, trivial⟩, mark_onePromised⟩)).1⟩

/-- A frame is plugged where a page was promised: the counter still says 1. -/
theorem promised_page_plugged :
    podStep smallMachine noMemory (.mark podGood 3 0) = .ok onePromised ∧
    ∃ s, podStep smallMachine onePromised (.addEntry addGood 3 2 0 .ramRw) = .ok s ∧
      s.pod.entryCount = 1 ∧ census IsPod s.table = 0 := by
  have hrc : (guestPhysmapAddEntry smallMachine addGood onePromised 3 2 0 .ramRw).1 = 0 := by decide
  have eff : AddEffect smallMachine addGood onePromised 3 2 0 .ramRw _ :=
    addEntry_effect addGood_succeeds rfl fun _ => by decide
  refine ⟨mark_onePromised, _, rfl, by decide, (census_eq_zero fun x hp => ?_).1⟩
  by_cases hx : x ∈ gfns 3 0
  · rw [eff.mapped hrc x hx] at hp
    cases hp
  have hx3 : x ≠ 3 := fun h => hx (by rw [h]; exact mem_singleton_self 3)
  have hnone : onePromised.table x = .none := by
    show update (fun _ => Translation.none) 3 Translation.pod x = .none
    rw [update_of_ne hx3]
  rcases eff.outside x hx with h | ⟨h, -, -⟩
  · rw [h, hnone] at hp
    cases hp
  · rw [h] at hp
    cases hp

end Runs

end XenVmi.P2m
