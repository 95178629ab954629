import XenVmi.Altp2m.Tables
import Mathlib.Tactic.IntervalCases

/-!
# Host removals and the views

When `gfn` leaves the host p2m, `p2m_altp2m_propagate_change` (`mm/p2m.c:2523-2586`) removes it from
the views that map it (`clearedViews`). But a view with `gfn` in its remapped window is *reset*,
which flushes nothing, and at the second such view all views are reset and the loop is left.
-/

namespace XenVmi.Altp2m

open Function XenVmi.Ept XenVmi.Lib List

/-! ## Views the loop clears -/

def windowed (d : Domain) (q : SetArgs) (i : Nat) : Bool :=
  decide (d.altp2mEptp i ≠ invalidMfn) && droppedInView (d.altp2mP2m i) q

def mapped (cfg : Config) (d : Domain) (q : SetArgs) (i : Nat) : Bool :=
  decide (((d.altp2mP2m i).getGfnTypeAccess cfg q.gfn).mfn ≠ invalidMfn)

/-- The views from which the loop removes `gfn`; `seen` is `reset_count != 0`. -/
def clearedViews (cfg : Config) (d : Domain) (q : SetArgs) : List Nat → Bool → List Nat
  | [], _ => []
  | i :: is, seen =>
    if d.altp2mEptp i = invalidMfn then clearedViews cfg d q is seen
    else if droppedInView (d.altp2mP2m i) q then
      if seen then [] else clearedViews cfg d q is true
    else if mapped cfg d q i then i :: clearedViews cfg d q is seen
    else clearedViews cfg d q is seen

section

variable {cfg : Config} {d d' : Domain} {q : SetArgs} {is : List Nat} {i j : Nat}

theorem clearedViews_congr (hs : d'.altp2mEptp = d.altp2mEptp)
    (hv : ∀ i ∈ is, d'.altp2mP2m i = d.altp2mP2m i) (seen : Bool) :
    clearedViews cfg d' q is seen = clearedViews cfg d q is seen := by
  induction is generalizing seen with
  | nil => rfl
  | cons i is ih =>
    have ih := ih fun j hj => hv j (mem_cons_of_mem i hj)
    have hi := hv i mem_cons_self
    have hm : mapped cfg d' q i = mapped cfg d q i := by
      unfold mapped
      rw [hi]
    simp only [clearedViews, hs, hi, hm, ih]

/-- View `j` is valid, `gfn` is outside its window, and it maps `gfn`. -/
def Clearable (cfg : Config) (d : Domain) (q : SetArgs) (j : Nat) : Prop :=
  d.altp2mEptp j ≠ invalidMfn ∧ droppedInView (d.altp2mP2m j) q = false ∧ mapped cfg d q j = true

theorem mem_clearedViews {k n : Nat} (seen : Bool) :
    j ∈ clearedViews cfg d q (List.range' k n) seen ↔ (k ≤ j ∧ j < k + n) ∧ Clearable cfg d q j ∧
      (List.range' k (j - k)).countP (windowed d q) + seen.toNat ≤ 1 := by
  induction n generalizing k seen with
  | zero => exact iff_of_false not_mem_nil fun h => by omega
  | succ n ih =>
    rw [List.range'_succ, clearedViews]
    by_cases hj : j = k
    · -- the later views are no reason for `k` to be in the list
      subst hj
      have hseen : seen.toNat ≤ 1 := by cases seen <;> decide
      have hright : ((j ≤ j ∧ j < j + (n + 1)) ∧ Clearable cfg d q j ∧
          (List.range' j (j - j)).countP (windowed d q) + seen.toNat ≤ 1) ↔
            Clearable cfg d q j := by
        simp [hseen]
      rw [Clearable]
      split
      · simp [*]
      · split
        · split <;> simp [*]
        · split <;> simp [*]
    · have hrange : (k ≤ j ∧ j < k + (n + 1)) ↔ k + 1 ≤ j ∧ j < k + 1 + n := by omega
      have hcount : k + 1 ≤ j → (List.range' k (j - k)).countP (windowed d q) =
          (List.range' (k + 1) (j - (k + 1))).countP (windowed d q) + (windowed d q k).toNat :=
            fun h => by
        rw [show j - k = j - (k + 1) + 1 by omega, List.range'_succ, countP_cons]
        cases windowed d q k <;> rfl
      rw [hrange]
      refine Iff.trans ?_ (and_congr_right fun h => and_congr_right fun _ => by rw [hcount h.1])
      split
      · simp [windowed, *]
      · split
        · split <;> simp [windowed, *]
        · split <;> simp [windowed, *]

theorem mem_clearedViews_range {n : Nat} :
    j ∈ clearedViews cfg d q (List.range n) false ↔
      j < n ∧ Clearable cfg d q j ∧ (List.range j).countP (windowed d q) ≤ 1 := by
  rw [range_eq_range', range_eq_range', mem_clearedViews]
  simp

/-! ## The loop -/

def SameViews (cfg : Config) (d d' : Domain) : Prop :=
  ∀ j g, (d'.altp2mP2m j).getEntry cfg g = (d.altp2mP2m j).getEntry cfg g

theorem reset_sameViews (R : Ready cfg d) (hi : i < maxAltp2m) :
    SameViews cfg d (p2mResetAltp2m cfg d i) := by
  intro j g
  rw [p2mResetAltp2m_eq R hi]
  by_cases hj : j = i
  · subst hj
    simp only [Domain.modP2m_altp2mP2m, update_self]
    rfl
  · simp only [Domain.modP2m_altp2mP2m, update_of_ne hj]

theorem reset_ready (R : Ready cfg d) (hi : i < maxAltp2m) : Ready cfg (p2mResetAltp2m cfg d i) :=
  R.of_shell ((writes_shell R).reset ⟨d, fun _ => 0⟩ i hi rfl)

theorem resetAll_sameViews (R : Ready cfg d) (last : Nat) :
    SameViews cfg d (resetAll cfg last d) := by
  refine (foldl_invariant (fun d' => Ready cfg d' ∧ SameViews cfg d d') (fun d' i hi h => ?_)
    ⟨R, fun _ _ => rfl⟩).2
  split
  · exact h
  · have hi := mem_range.1 hi
    exact ⟨reset_ready h.1 hi, fun j g => (reset_sameViews h.1 hi j g).trans (h.2 j g)⟩

theorem p2mSetEntry_removal {σ : Type} (set : σ → SetArgs → Int × σ) (s : σ) (gfn : Nat)
    (t : P2mType) (a : P2mAccess) :
    (p2mSetEntry cfg set s gfn invalidMfn 0 t a).2 =
      (set s { gfn := gfn, mfn := invalidMfn, order := 0, t := t, a := a, sve := -1 }).2 := by
  have hodd : ∀ n, 0 < n → (gfn ||| invalidMfn ||| 1) % 2 ^ n ≠ 0 := by
    intro n hn h
    have := (dvd_of_or_mod h).2
    have := Nat.le_of_dvd Nat.one_pos this
    have := Nat.one_lt_two_pow (n := n) (by omega)
    omega
  have horder : nextOrder cfg gfn invalidMfn (2 ^ 0) = 0 := by
    unfold nextOrder
    rw [if_neg fun h => hodd 18 (by decide) h.1, if_neg fun h => hodd 9 (by decide) h.1]
  exact p2mSetEntry_whole set s t a horder

/-- The pages it takes to remove `gfn` from view `i`, if it is valid. -/
def viewPages (cfg : Config) (d : Domain) (gfn i : Nat) : Nat :=
  if d.altp2mEptp i = invalidMfn then 0 else (d.altp2mP2m i).removalPages cfg gfn

/-- The loop has removed `gfn` from the listed views and changed no other translation. -/
def Clears (cfg : Config) (gfn : Nat) (cleared : List Nat) (d d' : Domain) : Prop :=
  ∀ j, (j ∈ cleared → Cleared cfg gfn (d.altp2mP2m j) (d'.altp2mP2m j)) ∧
    (j ∉ cleared → ∀ g, (d'.altp2mP2m j).getEntry cfg g = (d.altp2mP2m j).getEntry cfg g)

variable {gfn : Nat} {cleared : List Nat} {d₁ : Domain}

theorem Clears.of_sameViews
    (h : SameViews cfg d d₁) (C : Clears cfg gfn cleared d₁ d') : Clears cfg gfn cleared d d' := by
  intro j
  refine ⟨fun hj => ?_, fun hj g => ((C j).2 hj g).trans (h j g)⟩
  have hc := (C j).1 hj
  exact ⟨hc.gone, fun g hg => (hc.others g hg).trans (congrArg Lookup.mfn (h j g))⟩

theorem Clears.cons
    (C : Clears cfg gfn cleared d₁ d') (hc : Cleared cfg gfn (d.altp2mP2m i) (d₁.altp2mP2m i))
    (hv : ∀ j ≠ i, d₁.altp2mP2m j = d.altp2mP2m j) (hi : i ∉ cleared) :
    Clears cfg gfn (i :: cleared) d d' := by
  intro j
  by_cases hj : j = i
  · subst hj
    have hsame := (C j).2 hi
    refine ⟨fun _ => ⟨?_, fun g hg => ?_⟩, fun h => absurd mem_cons_self h⟩
    · rw [hsame gfn]
      exact hc.gone
    · rw [hsame g]
      exact hc.others g hg
  · rw [← hv j hj, mem_cons, or_iff_right hj]
    exact C j

theorem clears_nil (h : SameViews cfg d d') : Clears cfg gfn [] d d' :=
  fun j => ⟨fun hj => absurd hj not_mem_nil, fun _ => h j⟩

theorem mem_of_mem_clearedViews {seen : Bool} (h : j ∈ clearedViews cfg d q is seen) : j ∈ is := by
  fun_induction clearedViews cfg d q is seen with
  | case1 => exact h
  | case3 => cases h
  | case2 _ _ _ _ ih | case4 _ _ _ _ _ _ ih | case6 _ _ _ _ _ _ ih => exact mem_cons_of_mem _ (ih h)
  | case5 _ _ _ _ _ _ ih =>
    rcases mem_cons.1 h with rfl | h
    · exact mem_cons_self
    · exact mem_cons_of_mem _ (ih h)

theorem getEntry_of_mapped (h : mapped cfg d q i = true) :
    ((d.altp2mP2m i).getEntry cfg q.gfn).t.isBroken = false ∧
      ((d.altp2mP2m i).getEntry cfg q.gfn).mfn ≠ invalidMfn := by
  unfold mapped P2m.getGfnTypeAccess at h
  have h := of_decide_eq_true h
  simp only at h
  split at h
  · exact absurd rfl h
  · rename_i hb
    exact ⟨by simpa using hb, h⟩

theorem altSetEntry_removal (w : (d.altp2mP2m i).Wf cfg)
    (hmap : mapped cfg d q i = true) (hmmio : (d.altp2mP2m i).NoLargeMmio cfg q.gfn)
    (hpages : (d.altp2mP2m i).removalPages cfg q.gfn ≤ d.freelist.length) :
    let d₁ := (p2mSetEntry cfg (altSetEntry cfg i) d q.gfn invalidMfn 0 q.t q.a).2
    Cleared cfg q.gfn (d.altp2mP2m i) (d₁.altp2mP2m i) ∧
      (∀ j ≠ i, d₁.altp2mP2m j = d.altp2mP2m j) ∧ d₁.altp2mEptp = d.altp2mEptp ∧
      d.freelist.length ≤ d₁.freelist.length + (d.altp2mP2m i).removalPages cfg q.gfn := by
  simp only [p2mSetEntry_removal]
  obtain ⟨-, hc, hlen⟩ := P2m.setEntry_removal w d.freelist
    (q := { gfn := q.gfn, mfn := invalidMfn, order := 0, t := q.t, a := q.a, sve := -1 }) rfl rfl
    (getEntry_of_mapped hmap).2 hpages hmmio
  unfold altSetEntry
  refine ⟨?_, fun j hj => update_of_ne hj _ _, rfl, hlen⟩
  simp only [update_self]
  exact hc

/-- **The loop of `p2m_altp2m_propagate_change`** removes `gfn` from the views of `clearedViews`
only. -/
theorem propagateLoop_removal (hq : q.mfn = invalidMfn) (ho : q.order = 0) (hnd : is.Nodup)
    (hlt : ∀ i ∈ is, i < maxAltp2m) (R : Ready cfg d) (w : ∀ i ∈ is, (d.altp2mP2m i).Wf cfg)
    (hmmio : ∀ i ∈ is, d.altp2mEptp i ≠ invalidMfn → (d.altp2mP2m i).NoLargeMmio cfg q.gfn)
    (hpages : (is.map (viewPages cfg d q.gfn)).sum ≤ d.freelist.length) (last : Option Nat) :
    Clears cfg q.gfn (clearedViews cfg d q is last.isSome) d (propagateLoop cfg q is d last) := by
  induction is generalizing d last with
  | nil => exact clears_nil fun _ _ => rfl
  | cons i is ih =>
    obtain ⟨hni, hnd⟩ := nodup_cons.1 hnd
    have hi := hlt i mem_cons_self
    rw [map_cons, sum_cons] at hpages
    -- the rest of the loop, from a domain that differs from `d` in view `i` at most
    have rest : ∀ (d₁ : Domain) (last : Option Nat), Ready cfg d₁ → d₁.altp2mEptp = d.altp2mEptp →
        (∀ j ≠ i, d₁.altp2mP2m j = d.altp2mP2m j) →
        (is.map (viewPages cfg d q.gfn)).sum ≤ d₁.freelist.length →
        Clears cfg q.gfn (clearedViews cfg d q is last.isSome) d₁
          (propagateLoop cfg q is d₁ last) := by
      intro d₁ last R₁ hs hv hp
      have hv' : ∀ j ∈ is, d₁.altp2mP2m j = d.altp2mP2m j := fun j hj =>
        hv j fun h => hni (h ▸ hj)
      rw [← clearedViews_congr hs hv']
      refine ih hnd (fun j hj => hlt j (mem_cons_of_mem i hj)) R₁ (fun j hj => ?_)
        (fun j hj hsj => ?_) ?_ last
      · rw [hv' j hj]
        exact w j (mem_cons_of_mem i hj)
      · rw [hv' j hj]
        exact hmmio j (mem_cons_of_mem i hj) (hs ▸ hsj)
      · have hcost : is.map (viewPages cfg d₁ q.gfn) = is.map (viewPages cfg d q.gfn) :=
          map_congr_left fun j hj => by unfold viewPages; rw [hs, hv' j hj]
        rw [hcost]
        exact hp
    unfold propagateLoop clearedViews
    by_cases hs : d.altp2mEptp i = invalidMfn
    · rw [if_pos hs, if_pos hs]
      exact rest d last R rfl (fun _ _ => rfl) (by omega)
    rw [if_neg hs, if_neg hs]
    by_cases hd : droppedInView (d.altp2mP2m i) q = true
    · rw [if_pos hd, if_pos hd]
      cases last with
      | some j => exact clears_nil (resetAll_sameViews R j)
      | none =>
        refine Clears.of_sameViews (reset_sameViews R hi) ?_
        have hval := p2mResetAltp2m_eq R hi
        refine rest _ (some i) (reset_ready R hi) (by rfl) (fun j hj => ?_) ?_
        · rw [hval]
          exact update_of_ne hj _ _
        · rw [hval]
          simp only [Domain.modP2m_freelist]
          omega
    · rw [if_neg hd, if_neg hd]
      by_cases hm : mapped cfg d q i = true
      · have hcost : viewPages cfg d q.gfn i = (d.altp2mP2m i).removalPages cfg q.gfn := if_neg hs
        obtain ⟨hc, hv, hs₁, hlen⟩ := altSetEntry_removal (w i mem_cons_self) hm
          (hmmio i mem_cons_self hs) (by omega)
        rw [if_pos hm, if_pos (of_decide_eq_true hm), hq, ho]
        have R₁ : Ready cfg (p2mSetEntry cfg (altSetEntry cfg i) d q.gfn invalidMfn 0 q.t q.a).2 :=
          R.of_shell ((writes_shell R).viewSetEntry (t := fun _ => 0) i q.gfn invalidMfn 0 q.t q.a
            rfl)
        exact (rest _ last R₁ hs₁ hv (by omega)).cons hc hv fun h =>
          hni (mem_of_mem_clearedViews h)
      · rw [if_neg hm, if_neg (fun h => hm (decide_eq_true h))]
        exact rest d last R rfl (fun _ _ => rfl) (by omega)

/-! ## The whole change -/

theorem order_eq_zero_of_removal (hq : q.mfn = invalidMfn) (h : (hostSetEntry cfg d q).1 = 0) :
    q.order = 0 := by
  by_contra ho
  have hbad : (q.gfn ||| q.mfn) % 2 ^ q.order ≠ 0 := by
    intro hmod
    have h2 : 2 ∣ q.mfn := (dvd_pow_self 2 ho).trans (dvd_of_or_mod hmod).2
    rw [hq] at h2
    exact absurd h2 (by decide)
  have hrc : (P2m.setEntry cfg d.freelist d.hostp2m q).1 = -EINVAL := by
    unfold P2m.setEntry eptSetEntry
    rw [if_pos (.inl hbad)]
  unfold hostSetEntry at h
  simp only [hrc] at h
  exact absurd (show (-EINVAL : Int) = 0 from h) (by decide)

/-- The pool has the pages to remove `gfn` from the host and every view, and no large mapping of
direct MMIO is in the way. -/
structure RoomToSplit (cfg : Config) (d : Domain) (gfn : Nat) : Prop where
  pages : d.hostp2m.removalPages cfg gfn + ((List.range maxAltp2m).map (viewPages cfg d gfn)).sum
    ≤ d.freelist.length
  host : d.hostp2m.NoLargeMmio cfg gfn
  view : ∀ i < maxAltp2m, d.altp2mEptp i ≠ invalidMfn → (d.altp2mP2m i).NoLargeMmio cfg gfn

theorem hostSetEntry_eq (h : (P2m.setEntry cfg d.freelist d.hostp2m q).1 = 0) :
    hostSetEntry cfg d q = (0, p2mAltp2mPropagateChange cfg (hostWriteEntry cfg d q) q) := by
  exact if_pos h

theorem hostSetEntry_clears (R : Ready cfg d) (T : TablesWf cfg d) (ha : d.altp2mActive = true)
    (hq : q.mfn = invalidMfn) (hok : (hostSetEntry cfg d q).1 = 0)
    (hhost : (d.hostp2m.getEntry cfg q.gfn).mfn ≠ invalidMfn) (room : RoomToSplit cfg d q.gfn) :
    Clears cfg q.gfn (clearedViews cfg d q (List.range maxAltp2m) false) d
      (hostSetEntry cfg d q).2 := by
  have ho := order_eq_zero_of_removal hq hok
  have hroom := room.pages
  obtain ⟨hrc, -, hlen⟩ := P2m.setEntry_removal T.host d.freelist hq ho hhost (by omega)
    room.host
  have hpages : ((List.range maxAltp2m).map (viewPages cfg (hostWriteEntry cfg d q) q.gfn)).sum ≤
      (hostWriteEntry cfg d q).freelist.length := by
    show ((List.range maxAltp2m).map (viewPages cfg d q.gfn)).sum ≤
      (P2m.setEntry cfg d.freelist d.hostp2m q).2.1.length
    omega
  have loop := propagateLoop_removal (d := hostWriteEntry cfg d q) hq ho nodup_range
    (fun i hi => mem_range.1 hi) ⟨R.init, R.np2m, R.slot, R.upper⟩
    (fun i hi => T.view i (mem_range.1 hi))
    (fun i hi hs => room.view i (mem_range.1 hi) hs) hpages none
  -- the views and the slots are those of `d`
  have hclr : clearedViews cfg (hostWriteEntry cfg d q) q (List.range maxAltp2m) false =
      clearedViews cfg d q (List.range maxAltp2m) false :=
    clearedViews_congr rfl (fun _ _ => rfl) false
  rw [hostSetEntry_eq hrc]
  unfold p2mAltp2mPropagateChange
  rw [if_pos (show (hostWriteEntry cfg d q).altp2mActive = true from ha)]
  exact loop.of_sameViews fun _ _ => rfl

/-- Frame `f` was mapped by the host, and only in the range that is removed. -/
structure DroppedFrame (cfg : Config) (d : Domain) (q : SetArgs) (f : Nat) : Prop where
  frame : f < 2 ^ 40 - 1
  mapped : ∃ gfn, (d.hostp2m.getEntry cfg gfn).mfn = f
  only : ∀ gfn, (d.hostp2m.getEntry cfg gfn).mfn = f → q.gfn ≤ gfn ∧ gfn < q.gfn + 2 ^ q.order

end

/-- **When no view keeps a dropped frame**: exactly when before the removal every valid view that
had such a frame had it at the removed gfn, in a page that is not broken, with the gfn outside the
view's remapped window and inside the window of at most one valid view before it. -/
theorem dropped_frame_gone_iff (cfg : Config) (m₀ m : Machine) (fresh : Fresh cfg m₀.dom)
    (run : Reaches (step cfg) Op.Admissible m₀ m) (q : SetArgs) (hq : q.mfn = invalidMfn)
    (hok : (hostSetEntry cfg m.dom q).1 = 0) (room : RoomToSplit cfg m.dom q.gfn) :
    (∀ f, DroppedFrame cfg m.dom q f → ∀ i < maxAltp2m,
        (hostSetEntry cfg m.dom q).2.altp2mEptp i ≠ invalidMfn →
        ∀ gfn, (((hostSetEntry cfg m.dom q).2.altp2mP2m i).getEntry cfg gfn).mfn ≠ f) ↔
      ∀ f, DroppedFrame cfg m.dom q f → ∀ i < maxAltp2m, m.dom.altp2mEptp i ≠ invalidMfn →
        ∀ gfn, ((m.dom.altp2mP2m i).getEntry cfg gfn).mfn = f →
          gfn = q.gfn ∧ ((m.dom.altp2mP2m i).getEntry cfg gfn).t.isBroken = false ∧
          droppedInView (m.dom.altp2mP2m i) q = false ∧
          (List.range i).countP (windowed m.dom q) ≤ 1 := by
  obtain ⟨S, T⟩ := (tables_invariant cfg).run (fresh_tables fresh) run
  have hslots : (hostSetEntry cfg m.dom q).2.altp2mEptp = m.dom.altp2mEptp := by
    have hshell := (writes_shell S.1).hostSetEntry
      (by rw [order_eq_zero_of_removal hq hok]; decide) rfl
    exact altp2mEptp_of_shell hshell
  rw [hslots]
  refine forall₂_congr fun f hf => forall₂_congr fun i hi => forall_congr' fun hs => ?_
  have ha : m.dom.altp2mActive = true := by
    rcases S.2 with O | ⟨b, B⟩
    · exact absurd (O.slot i hi) hs
    · exact B.active
  -- the host maps the removed gfn, since it mapped `f` there and nowhere else
  have hhost : (m.dom.hostp2m.getEntry cfg q.gfn).mfn = f := by
    obtain ⟨g, hg⟩ := hf.mapped
    obtain ⟨h₁, h₂⟩ := hf.only g hg
    rw [order_eq_zero_of_removal hq hok] at h₂
    rwa [show q.gfn = g by omega]
  have hne : f ≠ invalidMfn := by
    intro h
    have := hf.frame
    rw [h] at this
    exact absurd this (by decide)
  have C := hostSetEntry_clears S.1 T ha hq hok (hhost ▸ hne) room i
  by_cases hc : i ∈ clearedViews cfg m.dom q (List.range maxAltp2m) false
  · obtain ⟨-, ⟨-, hd, hm⟩, hcount⟩ := mem_clearedViews_range.1 hc
    have hclear := C.1 hc
    constructor
    · intro h gfn hgfn
      have heq : gfn = q.gfn := by
        by_contra hg
        exact h gfn ((hclear.others gfn hg).trans hgfn)
      exact ⟨heq, heq ▸ (getEntry_of_mapped hm).1, hd, hcount⟩
    · intro h gfn hgfn
      by_cases hg : gfn = q.gfn
      · have := hclear.gone
        rw [← hg, hgfn] at this
        exact absurd hf.frame (not_lt.2 this)
      · exact hg (h gfn ((hclear.others gfn hg).symm.trans hgfn)).1
  · have hsame := C.2 hc
    constructor
    · intro h gfn hgfn
      exact absurd ((congrArg Lookup.mfn (hsame gfn)).trans hgfn) (h gfn)
    · intro h gfn hgfn
      rw [hsame gfn] at hgfn
      obtain ⟨rfl, hb, hd, hcount⟩ := h gfn hgfn
      refine hc (mem_clearedViews_range.2 ⟨hi, ⟨hs, hd, ?_⟩, hcount⟩)
      unfold mapped P2m.getGfnTypeAccess
      simp only [hb, Bool.false_eq_true, if_false, hgfn]
      exact decide_eq_true hne

/-! ## A remapped gfn -/

/-- Map gfns 5 and 6 in the host, turn altp2m on, and give gfn 5 the frame of gfn 6 in view 0. -/
def remapFiveToSix : List Op :=
  [.hostSetEntry { gfn := 5, mfn := 0x100, order := 0, t := .ramRw, a := .rwx, sve := -1 },
    .hostSetEntry { gfn := 6, mfn := 0x200, order := 0, t := .ramRw, a := .rwx, sve := -1 },
    plainHypercall { plainOp with state := 1 } .setDomainState,
    plainHypercall { plainOp with oldGfn := 5, newGfn := 6 } .changeGfn]

theorem remapFiveToSix_admissible : ∀ op ∈ remapFiveToSix, ∀ m, op.Admissible m := by
  simp [remapFiveToSix, plainHypercall, Op.Admissible]

def removeSix : SetArgs :=
  { gfn := 6, mfn := invalidMfn, order := 0, t := .invalid, a := .rwx, sve := -1 }

theorem remapFiveToSix_state :
    ∃ m, Reaches (step vmfuncConfig) Op.Admissible vmfuncMachine m ∧
      DroppedFrame vmfuncConfig m.dom removeSix 0x200 ∧
        (hostSetEntry vmfuncConfig m.dom removeSix).1 = 0 ∧
      m.dom.altp2mEptp 0 ≠ invalidMfn ∧
      ((m.dom.altp2mP2m 0).getEntry vmfuncConfig 5).mfn = 0x200 ∧
      (hostSetEntry vmfuncConfig m.dom removeSix).2.altp2mEptp 0 ≠ invalidMfn ∧
      (((hostSetEntry vmfuncConfig m.dom removeSix).2.altp2mP2m 0).getEntry vmfuncConfig 5).mfn
        = 0x200 ∧
      RoomToSplit vmfuncConfig m.dom 6 := by
  obtain ⟨m, hm, ⟨hmax, hhost⟩, ⟨hok, hs, h5, hs', h5'⟩, hp, hh, hv⟩ :
      ∃ m, Reaches (step vmfuncConfig) Op.Admissible vmfuncMachine m ∧
      (m.dom.hostp2m.maxMappedPfn = 6 ∧
        (List.range 7).map (fun g => (m.dom.hostp2m.getEntry vmfuncConfig g).mfn) =
          [invalidMfn, invalidMfn, invalidMfn, invalidMfn, invalidMfn, 0x100, 0x200]) ∧
      ((hostSetEntry vmfuncConfig m.dom removeSix).1 = 0 ∧ m.dom.altp2mEptp 0 ≠ invalidMfn ∧
        ((m.dom.altp2mP2m 0).getEntry vmfuncConfig 5).mfn = 0x200 ∧
        (hostSetEntry vmfuncConfig m.dom removeSix).2.altp2mEptp 0 ≠ invalidMfn ∧
        (((hostSetEntry vmfuncConfig m.dom removeSix).2.altp2mP2m 0).getEntry vmfuncConfig 5).mfn
          = 0x200) ∧
      m.dom.hostp2m.removalPages vmfuncConfig 6 +
          ((List.range maxAltp2m).map (viewPages vmfuncConfig m.dom 6)).sum
        ≤ m.dom.freelist.length ∧
      (m.dom.hostp2m.getEntry vmfuncConfig 6).order ≤ 9 ∧
      ∀ i < maxAltp2m, ((m.dom.altp2mP2m i).getEntry vmfuncConfig 6).order ≤ 9 :=
    Reaches.exists_of_foldlM remapFiveToSix_admissible (by decide +kernel)
  have hmfn : ∀ g < 7, (m.dom.hostp2m.getEntry vmfuncConfig g).mfn =
      [invalidMfn, invalidMfn, invalidMfn, invalidMfn, invalidMfn, 0x100, 0x200].getD g 0 := by
    intro g hg
    rw [← hhost]
    simp [hg]
  refine ⟨m, hm, ⟨by decide, ⟨6, hmfn 6 (by decide)⟩, ?_⟩, hok, hs, h5, hs', h5', hp, .inl hh,
    fun i hi _ => .inl (hv i hi)⟩
  intro g hg
  by_cases hlt : g < 7
  · rw [hmfn g hlt] at hg
    interval_cases g <;> first | exact absurd hg (by decide) | decide
  · rw [P2m.getEntry_above (by omega)] at hg
    exact absurd hg (by decide)

/-- The host drops frame 0x200; view 0 still gives it to gfn 5. -/
theorem remapped_view_keeps_dropped_frame :
    ∃ m, Reaches (step vmfuncConfig) Op.Admissible vmfuncMachine m ∧
      DroppedFrame vmfuncConfig m.dom removeSix 0x200 ∧
      (hostSetEntry vmfuncConfig m.dom removeSix).1 = 0 ∧
      (hostSetEntry vmfuncConfig m.dom removeSix).2.altp2mEptp 0 ≠ invalidMfn ∧
      (((hostSetEntry vmfuncConfig m.dom removeSix).2.altp2mP2m 0).getEntry vmfuncConfig 5).mfn
        = 0x200 := by
  obtain ⟨m, hm, hdrop, hok, -, -, hs, h5, -⟩ := remapFiveToSix_state
  exact ⟨m, hm, hdrop, hok, hs, h5⟩

theorem dropped_frame_gone_iff_remapped :
    ∃ m, Reaches (step vmfuncConfig) Op.Admissible vmfuncMachine m ∧
      ¬ ∀ f, DroppedFrame vmfuncConfig m.dom removeSix f → ∀ i < maxAltp2m,
        (hostSetEntry vmfuncConfig m.dom removeSix).2.altp2mEptp i ≠ invalidMfn →
        ∀ gfn, (((hostSetEntry vmfuncConfig m.dom removeSix).2.altp2mP2m i).getEntry vmfuncConfig
          gfn).mfn ≠ f := by
  obtain ⟨m, hm, hdrop, hok, hs, h5, -, -, room⟩ := remapFiveToSix_state
  refine ⟨m, hm, fun h => ?_⟩
  have hbefore := (dropped_frame_gone_iff vmfuncConfig vmfuncMachine m vmfuncMachine_fresh hm
    removeSix rfl hok room).1 h 0x200 hdrop 0 (by decide) hs 5 h5
  exact absurd hbefore.1 (by decide)

end XenVmi.Altp2m
