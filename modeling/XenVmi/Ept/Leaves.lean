import XenVmi.Ept.Table
import XenVmi.Lib.Fill
import Mathlib.Algebra.Order.Ring.Nat
import Mathlib.Data.Nat.ModEq

/-!
# What holds of every leaf

A property of leaves that `ept_set_entry` keeps where it builds them (`LeafRule`) is kept by every
call, whether it succeeds or not.
-/

namespace XenVmi.Ept

open Function XenVmi.Lib

/-! ## Leaves and tables -/

/-- Every entry below `x` that points at a page meets `T`, and every leaf of level `k` meets `P
k`. -/
def EptNode.All (T : EptEntry → Prop) (P : Nat → EptEntry → Prop) : EptNode → Nat → Prop
  | .leaf e, level => P level e
  | .table _ _, 0 => False
  | .table e sub, l + 1 => T e ∧ ∀ i, (sub i).All T P l

def TableAll (T : EptEntry → Prop) (P : Nat → EptEntry → Prop) (level : Nat) (t : EptTable) :
    Prop :=
  ∀ i, (t i).All T P level

section Decidable

variable {T : EptEntry → Prop} {P : Nat → EptEntry → Prop} [DecidablePred T]
  [∀ l, DecidablePred (P l)]

def EptNode.decideAll : (x : EptNode) → (level : Nat) → Decidable (x.All T P level)
  | .leaf e, level => inferInstanceAs (Decidable (P level e))
  | .table _ _, 0 => isFalse id
  | .table e sub, l + 1 =>
    have : ∀ i, Decidable ((sub i).All T P l) := fun i => (sub i).decideAll l
    inferInstanceAs (Decidable (T e ∧ ∀ i, (sub i).All T P l))

instance (level : Nat) (t : EptTable) : Decidable (TableAll T P level t) :=
  have : ∀ i, Decidable ((t i).All T P level) := fun i => (t i).decideAll level
  inferInstanceAs (Decidable (∀ i, (t i).All T P level))

end Decidable

section All

variable {T T' : EptEntry → Prop} {P P' : Nat → EptEntry → Prop} {level : Nat} {t : EptTable}

theorem TableAll.update (h : TableAll T P level t) {x : EptNode} (hx : x.All T P level)
    (i : Fin 512) : TableAll T P level (update t i x) := by
  intro j
  by_cases hj : j = i
  · subst hj
    rwa [update_self]
  · rw [update_of_ne hj]
    exact h j

end All

/-! ## Splitting a superpage -/

section Split

variable {env : EptEnv} {l : Nat}

theorem mem_tableIndices (i : Fin 512) : i ∈ tableIndices := by
  unfold tableIndices
  exact List.mem_finRange i

theorem length_tableIndices : tableIndices.length = 512 := by
  unfold tableIndices
  exact List.length_finRange

theorem split_self (env : EptEnv) (target : Nat) (x : EptNode) (st : PtPool) :
    eptSplitSuperPage env target target x st = (true, x, st) := by
  cases target with
  | zero => rfl
  | succ target => unfold eptSplitSuperPage; exact if_pos rfl

theorem split_eq {target : Nat} (hne : l + 1 ≠ target) (x : EptNode) (st : PtPool) :
    eptSplitSuperPage env target (l + 1) x st =
      match p2mAllocPtp st with
      | none => (false, x, st)
      | some (pg, st) =>
        let res := fill
          (fun st i => eptSplitSuperPage env target l (.leaf (splitEntry env l x.entry i)) st)
          tableIndices (true, freshTable, st)
        (res.1, .table (middleEntry env pg) res.2.1, res.2.2) := by
  rw [eptSplitSuperPage, if_neg hne]
  unfold eptSetMiddleEntry
  cases p2mAllocPtp st with
  | none => rfl
  | some r =>
    obtain ⟨pg, st⟩ := r
    refine congrArg (fun f => let res := tableIndices.foldl f (true, freshTable, st)
      (res.1, EptNode.table (middleEntry env pg) res.2.1, res.2.2)) (funext₂ fun acc i => ?_)
    unfold fillStep
    -- the branch for the target level is the recursive call there
    by_cases ht : l = target
    · subst ht
      simp only [if_true, split_self]
    · simp only [if_neg ht]

theorem split_true {target : Nat} (hne : l + 1 ≠ target) {x y : EptNode} {st st' : PtPool}
    (h : eptSplitSuperPage env target (l + 1) x st = (true, y, st')) :
    ∃ pg sub, y = .table (middleEntry env pg) sub ∧ ∀ i, ∃ s s',
      eptSplitSuperPage env target l (.leaf (splitEntry env l x.entry i)) s =
        (true, sub i, s') := by
  rw [split_eq hne] at h
  cases ha : p2mAllocPtp st with
  | none => rw [ha] at h; cases h
  | some r =>
    obtain ⟨pg, st₁⟩ := r
    rw [ha] at h
    simp only [Prod.mk.injEq] at h
    obtain ⟨hok, rfl, -⟩ := h
    exact ⟨pg, _, rfl, fun i => (fill_of_true _ hok).2.1 i (mem_tableIndices i)⟩

end Split

/-! ## One level of the two walks -/

/-- An entry that `ept_set_entry` breaks up: a superpage, or a PoD place-holder. -/
def EptEntry.Splits (e : EptEntry) : Prop := e.isSuperpage = true ∨ e.saP2mt = .populateOnDemand

/-- `resolve_misconfig` splits this superpage: it is misconfigured, and its frames have no one
memory type. -/
def needsSplit (env : EptEnv) (gfn level : Nat) (e : EptEntry) : Bool :=
  e.isSuperpage && decide (e.emt = mtrrNumTypes) &&
    (env.entryEmt gfn e.mfn (9 * level) (e.saP2mt = .mmioDirect)).1.isNone

/-- What `resolve_misconfig` does at a leaf `e` of level `l + 1`. -/
inductive ResolvesLeaf (env : EptEnv) (gfn l : Nat) (t : EptTable) (st : PtPool) (rc : Int)
    (e : EptEntry) : Int × EptTable × PtPool → Prop
  | kept : needsSplit env gfn (l + 1) e = false → ResolvesLeaf env gfn l t st rc e (rc, t, st)
  | typed (emt : Nat) (ipat : Bool) : needsSplit env gfn (l + 1) e = false →
      e.isSuperpage = true → ResolvesLeaf env gfn l t st rc e
        (1, update t (eptIndex gfn (l + 1))
          (.leaf { e with emt := emt, ipat := ipat, recalc := false }), st)
  | failed (st' : PtPool) : (eptSplitSuperPage env l (l + 1) (.leaf e) st).1 = false →
      ResolvesLeaf env gfn l t st rc e (-ENOMEM, t, st')
  | split {pg : Nat} {sub : EptTable} {st' : PtPool} : needsSplit env gfn (l + 1) e = true →
      eptSplitSuperPage env l (l + 1) (.leaf e) st
        = (true, .table (middleEntry env pg) sub, st') →
      ResolvesLeaf env gfn l t st rc e
        ((resolveMisconfig env gfn l sub st' rc).1,
          update t (eptIndex gfn (l + 1))
            (.table (middleEntry env pg) (resolveMisconfig env gfn l sub st' rc).2.1),
          (resolveMisconfig env gfn l sub st' rc).2.2)

/-- What the walk of `ept_set_entry` does at a leaf `e` of level `l + 1`, above its target. -/
inductive SetsBelow (env : EptEnv) (q : SetArgs) (target l : Nat) (t : EptTable) (st : PtPool)
    (split : Bool) (e : EptEntry) : Int × EptTable × PtPool → Prop
  | failed {rc : Int} (st' : PtPool) : rc ≠ 0 →
      (e.isPresent = true → e.isSuperpage = true →
        (eptSplitSuperPage env target (l + 1) (.leaf e) st).1 = false) →
      SetsBelow env q target l t st split e (rc, t, st')
  | split {pg : Nat} {sub : EptTable} {st' : PtPool} : e.Splits →
      (e.isPresent = true ∨ e.saP2mt = .populateOnDemand) →
      eptSplitSuperPage env target (l + 1) (.leaf e) st
        = (true, .table (middleEntry env pg) sub, st') →
      SetsBelow env q target l t st split e
        ((setWalk env q target l sub st' true).1,
          update t (eptIndex q.gfn (l + 1))
            (.table (middleEntry env pg) (setWalk env q target l sub st' true).2.1),
          (setWalk env q target l sub st' true).2.2)
  | fresh {pg : Nat} {st' : PtPool} : e.isPresent = false → e.saP2mt ≠ .populateOnDemand →
      SetsBelow env q target l t st split e
        ((setWalk env q target l freshTable st' split).1,
          update t (eptIndex q.gfn (l + 1))
            (.table (middleEntry env pg) (setWalk env q target l freshTable st' split).2.1),
          (setWalk env q target l freshTable st' split).2.2)

section Steps

variable {env : EptEnv} {gfn target level l : Nat} {e : EptEntry} {t sub : EptTable} {q : SetArgs}
  {st : PtPool} {rc : Int} {split : Bool}

theorem resolveSuperpage_eq (h : e.recalc = false) (gfn : Nat) :
    resolveSuperpage env gfn level e =
      match (env.entryEmt gfn e.mfn (9 * level) (e.saP2mt = .mmioDirect)).1 with
      | none => .inr e
      | some emt => .inl { e with
          emt := emt
          ipat := (env.entryEmt gfn e.mfn (9 * level) (e.saP2mt = .mmioDirect)).2
          recalc := false } := by
  unfold resolveSuperpage
  cases hem : (env.entryEmt gfn e.mfn (9 * level) (e.saP2mt = .mmioDirect)).1 with
  | none | some => simp [h, hem]

theorem resolve4k_eq (env : EptEnv) (h : e.recalc = false) (gfn : Nat) :
    resolve4k env gfn e = e ∨ e.isPresent = true ∧ ∃ emt ipat,
      resolve4k env gfn e = { e with emt := emt, ipat := ipat, recalc := false } := by
  obtain ⟨n, hn⟩ : ∃ n, (if e.emt = mtrrNumTypes then { e with emt := 0 } else e)
      = { e with emt := n } := by
    split
    · exact ⟨0, rfl⟩
    · exact ⟨e.emt, rfl⟩
  unfold resolve4k
  simp only [hn]
  split
  · exact .inl rfl
  · rename_i hv
    rw [Bool.or_eq_true, not_or] at hv
    have hp : ({ e with emt := n } : EptEntry).isPresent = true := by simpa using hv.2
    simp only [h, Bool.false_and, Bool.false_eq_true, if_false]
    exact .inr ⟨hp, _, _, rfl⟩

theorem resolveMisconfig_table (hx : t (eptIndex gfn (l + 1)) = .table e sub)
    (hp : e.isPresent = true) (hs : e.isSuperpage = false) (hm : e.emt = 0) :
    resolveMisconfig env gfn (l + 1) t st rc =
      ((resolveMisconfig env gfn l sub st rc).1,
        update t (eptIndex gfn (l + 1))
          (.table e (resolveMisconfig env gfn l sub st rc).2.1),
        (resolveMisconfig env gfn l sub st rc).2.2) := by
  have h7 : ¬ (0 = mtrrNumTypes) := by decide
  rw [resolveMisconfig]
  simp only [hx, EptNode.entry, hs, hm, hp, h7, Bool.false_eq_true, if_false, decide_true,
    Bool.and_self, if_true]

theorem resolveMisconfig_leaf (hx : t (eptIndex gfn (l + 1)) = .leaf e) (hr : e.recalc = false) :
    ResolvesLeaf env gfn l t st rc e (resolveMisconfig env gfn (l + 1) t st rc) := by
  rw [resolveMisconfig]
  simp only [hx, EptNode.entry]
  by_cases hs : e.isSuperpage = true
  · by_cases hm : e.emt = mtrrNumTypes
    · rw [if_pos hs, if_neg (not_not.2 hm), resolveSuperpage_eq hr]
      cases hem : (env.entryEmt gfn e.mfn (9 * (l + 1)) (e.saP2mt = .mmioDirect)).1 with
      | some emt => exact .typed emt _ (by simp [needsSplit, hem]) hs
      | none =>
        have hneeds : needsSplit env gfn (l + 1) e = true := by simp [needsSplit, hs, hm, hem]
        simp only
        generalize hsplit : eptSplitSuperPage env l (l + 1) (.leaf e) st = r
        obtain ⟨ok, y, st'⟩ := r
        cases ok with
        | false => exact .failed _ (by rw [hsplit])
        | true =>
          obtain ⟨pg, sub, rfl, -⟩ := split_true (by omega) hsplit
          exact .split hneeds hsplit
    · rw [if_pos hs, if_pos hm]
      exact .kept (by simp [needsSplit, hm])
  · rw [if_neg hs]
    exact .kept (by simp [needsSplit, hs])

theorem setWalk_table (ht : target ≤ l) (hx : t (eptIndex q.gfn (l + 1)) = .table e sub)
    (hp : e.isPresent = true) (hs : e.isSuperpage = false) :
    setWalk env q target (l + 1) t st split =
      ((setWalk env q target l sub st split).1,
        update t (eptIndex q.gfn (l + 1))
          (.table e (setWalk env q target l sub st split).2.1),
        (setWalk env q target l sub st split).2.2) := by
  rw [setWalk, if_neg (by omega)]
  simp only [hx, EptNode.entry, hp, hs, Bool.not_true, Bool.false_and, Bool.and_false, Bool.or_self,
    Bool.false_eq_true, if_false]

theorem setWalk_leaf (ht : target ≤ l) (hx : t (eptIndex q.gfn (l + 1)) = .leaf e) :
    SetsBelow env q target l t st split e (setWalk env q target (l + 1) t st split) := by
  rw [setWalk, if_neg (by omega)]
  simp only [hx, EptNode.entry]
  by_cases hsp : (!e.isPresent && decide (e.saP2mt = .populateOnDemand) ||
      e.isPresent && e.isSuperpage) = true
  · rw [if_pos hsp]
    rw [Bool.or_eq_true, Bool.and_eq_true, Bool.and_eq_true, decide_eq_true_eq] at hsp
    generalize hsplit : eptSplitSuperPage env target (l + 1) (.leaf e) st = r
    obtain ⟨ok, y, st'⟩ := r
    cases ok with
    | false => exact .failed _ (by decide) fun _ _ => by rw [hsplit]
    | true =>
      obtain ⟨pg, sub, rfl, -⟩ := split_true (by omega) hsplit
      exact .split (hsp.symm.imp And.right And.right) (hsp.symm.imp And.left And.right) hsplit
  · rw [if_neg hsp]
    by_cases hp : e.isPresent = true
    · rw [if_neg (by simp [hp])]
      exact .failed _ (by decide) fun _ hs => absurd (by simp [hp, hs]) hsp
    rw [Bool.not_eq_true] at hp
    simp only [hp, Bool.not_false, Bool.true_and, Bool.false_and, Bool.or_false,
      decide_eq_true_eq] at hsp
    rw [if_pos (by rw [hp]; rfl)]
    unfold eptSetMiddleEntry
    cases p2mAllocPtp st with
    | none => exact .failed _ (by decide) fun hp' _ => Bool.noConfusion (hp.symm.trans hp')
    | some r => exact .fresh hp hsp

end Steps

/-! ## The rule -/

/-- `T` holds of the entries that point at pages and `P` of the leaves, however they are built. -/
structure LeafRule (env : EptEnv) (T : EptEntry → Prop) (P : Nat → EptEntry → Prop) : Prop where
  middle : ∀ pg, T (middleEntry env pg)
  walked : ∀ {e}, T e → e.isPresent = true ∧ e.isSuperpage = false ∧ e.emt = 0
  fresh : ∀ level, P level { EptEntry.zero with suppressVe := true }
  recalc : ∀ {level e}, P level e → e.recalc = false
  setEmt : ∀ {level e}, P level e → (level = 0 ∨ e.isSuperpage = true) → ∀ emt ipat,
    P level { e with emt := emt, ipat := ipat, recalc := false }
  split : ∀ {l e}, l < 3 → P (l + 1) e → e.Splits → ∀ i, P l (splitEntry env l e i)

section Rule

variable {env : EptEnv} {T : EptEntry → Prop} {P : Nat → EptEntry → Prop} {level l : Nat}
  {e : EptEntry} {t : EptTable} {q : SetArgs}

theorem splits_splitEntry (h : 0 < l) (i : Fin 512) : (splitEntry env l e i).Splits := by
  refine .inl ?_
  unfold splitEntry
  simp only [EptEntry.isSuperpage]
  rw [(sameMapping_flags env.caps _ _ _).sp]
  exact decide_eq_true h

variable (R : LeafRule env T P)

include R

theorem LeafRule.freshTable (level : Nat) :
    TableAll T P level freshTable := fun _ => R.fresh level

theorem LeafRule.split_all {target : Nat} {y : EptNode} {st st' : PtPool}
    (ht : target ≤ level) (hl : level ≤ 3) (w : P level e) (hs : 0 < level → e.Splits)
    (h : eptSplitSuperPage env target level (.leaf e) st = (true, y, st')) : y.All T P level := by
  induction level generalizing e y st st' with
  | zero =>
    cases h
    exact w
  | succ l ih =>
    by_cases hne : l + 1 = target
    · subst hne
      rw [split_self] at h
      cases h
      exact w
    · obtain ⟨pg, sub, rfl, hsub⟩ := split_true hne h
      refine ⟨R.middle pg, fun i => ?_⟩
      obtain ⟨s, s', hi⟩ := hsub i
      exact ih (by omega) (by omega) (R.split (by omega) w (hs (Nat.succ_pos l)) i)
        (fun h0 => splits_splitEntry h0 i) hi

theorem LeafRule.resolve4k {x : EptNode} (w : x.All T P 0) (gfn : Nat) :
    (x.mapEntry (resolve4k env gfn)).All T P 0 := by
  cases x with
  | table e sub => exact w.elim
  | leaf e =>
    rcases resolve4k_eq env (R.recalc w) gfn with heq | ⟨-, emt, ipat, heq⟩
    · simp only [EptNode.mapEntry, heq]
      exact w
    · simp only [EptNode.mapEntry, heq]
      exact R.setEmt w (.inl rfl) emt ipat

theorem LeafRule.resolveMisconfig_all (gfn : Nat) (hl : level ≤ 3)
    (w : TableAll T P level t) (st : PtPool) (rc : Int) :
    TableAll T P level (resolveMisconfig env gfn level t st rc).2.1 := by
  induction level generalizing t st rc with
  | zero =>
    unfold resolveMisconfig
    split
    · exact w
    · exact fun i => R.resolve4k (w i) _
  | succ l ih =>
    have hx := w (eptIndex gfn (l + 1))
    cases hn : t (eptIndex gfn (l + 1)) with
    | table e sub =>
      rw [hn] at hx
      obtain ⟨hp, hs, hm⟩ := R.walked hx.1
      rw [resolveMisconfig_table hn hp hs hm]
      exact w.update (x := .table e _) ⟨hx.1, ih (by omega) hx.2 st rc⟩ _
    | leaf e =>
      rw [hn] at hx
      generalize hr : resolveMisconfig env gfn (l + 1) t st rc = r
      have step : ResolvesLeaf env gfn l t st rc e r := hr ▸ resolveMisconfig_leaf hn (R.recalc hx)
      cases step with
      | kept _ => exact w
      | failed _ _ => exact w
      | typed emt ipat _ hs => exact w.update (x := .leaf _) (R.setEmt hx (.inr hs) emt ipat) _
      | split hneeds hsplit =>
        have hsp : e.Splits := .inl (by simp [needsSplit] at hneeds; exact hneeds.1.1)
        have wy := R.split_all (by omega) (by omega) hx (fun _ => hsp) hsplit
        exact w.update (x := .table _ _) ⟨wy.1, ih (by omega) wy.2 _ rc⟩ _

omit R

theorem writeTarget_all (hnew : ∀ old, P level (newEntry env q level old))
    (w : TableAll T P level t) (st : PtPool) (split : Bool) :
    TableAll T P level (writeTarget env q level t st split).2.1 := by
  unfold writeTarget
  simp only
  generalize (if split then EptEntry.zero else (t (eptIndex q.gfn level)).entry) = old
  by_cases hrc : atomicWriteRc env level (t (eptIndex q.gfn level)).entry
      (newEntry env q level old) = 0
  · rw [if_neg (not_not.2 hrc)]
    exact w.update (x := .leaf _) (hnew old) _
  · rw [if_pos hrc]
    exact w

theorem LeafRule.setWalk_all (R : LeafRule env T P) {target : Nat}
    (hnew : ∀ k ≤ target, k ≤ 3 → ∀ old, P k (newEntry env q k old)) (hl : level ≤ 3)
    (w : TableAll T P level t) (st : PtPool) (split : Bool) :
    TableAll T P level (setWalk env q target level t st split).2.1 := by
  induction level generalizing t st split with
  | zero => exact writeTarget_all (hnew 0 (Nat.zero_le _) hl) w st split
  | succ l ih =>
    have hx := w (eptIndex q.gfn (l + 1))
    by_cases ht : l + 1 ≤ target
    · rw [setWalk, if_pos ht]
      exact writeTarget_all (hnew _ ht hl) w st split
    cases hn : t (eptIndex q.gfn (l + 1)) with
    | table e sub =>
      rw [hn] at hx
      obtain ⟨hp, hs, -⟩ := R.walked hx.1
      rw [setWalk_table (by omega) hn hp hs]
      exact w.update (x := .table e _) ⟨hx.1, ih (by omega) hx.2 st split⟩ _
    | leaf e =>
      rw [hn] at hx
      generalize hr : setWalk env q target (l + 1) t st split = r
      have step : SetsBelow env q target l t st split e r := hr ▸ setWalk_leaf (by omega) hn
      cases step with
      | failed _ _ _ => exact w
      | split hsp _ hsplit =>
        have wy := R.split_all (by omega) (by omega) hx (fun _ => hsp) hsplit
        exact w.update (x := .table _ _) ⟨wy.1, ih (by omega) wy.2 _ true⟩ _
      | fresh _ _ =>
        exact w.update (x := .table _ _) ⟨R.middle _, ih (by omega) (R.freshTable l) _ split⟩ _

theorem dvd_of_or_mod {gfn mfn n : Nat} (h : (gfn ||| mfn) % 2 ^ n = 0) :
    2 ^ n ∣ gfn ∧ 2 ^ n ∣ mfn := by
  rw [Nat.or_mod_two_pow, Nat.or_eq_zero_iff] at h
  exact ⟨Nat.dvd_of_mod_eq_zero h.1, Nat.dvd_of_mod_eq_zero h.2⟩

theorem LeafRule.eptSetEntry_all (R : LeafRule env T P) {s : EptState} (asr : Nat)
    (hnew : ∀ k ≤ q.order / 9, k ≤ 3 → 512 ^ k ∣ q.mfn → ∀ old, P k (newEntry env q k old))
    (w : TableAll T P 3 s.root) : TableAll T P 3 (eptSetEntry env asr s q).2.root := by
  unfold eptSetEntry
  split
  · exact w
  rename_i hq
  rw [not_or] at hq
  have hm : TableAll T P 3 (if asr = 0 then (0, s.root, s.pool)
      else resolveMisconfig env q.gfn 3 s.root s.pool 0).2.1 := by
    split
    · exact w
    · exact R.resolveMisconfig_all q.gfn le_rfl w _ _
  -- `mfn` is a multiple of `2 ^ order`
  have ha : ∀ k ≤ q.order / 9, 512 ^ k ∣ q.mfn := by
    intro k hk
    refine dvd_trans ?_ (dvd_of_or_mod (not_not.1 hq.1)).2
    rw [show 512 = 2 ^ 9 from rfl, ← pow_mul]
    exact pow_dvd_pow 2 (by omega)
  simp only
  generalize (if asr = 0 then _ else resolveMisconfig env q.gfn 3 s.root s.pool 0) = m at hm
  split
  · exact hm
  · exact R.setWalk_all (fun k hk hk3 => hnew k hk hk3 (ha k hk)) le_rfl hm _ _

end Rule

end XenVmi.Ept
