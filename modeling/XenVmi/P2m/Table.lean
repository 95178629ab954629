import XenVmi.Ept.Translate

/-!
# The host p2m as its callers see it

The table is what `get_entry` returns, and a successful `set_entry` replaces it for one page of 4K,
2M or 1G. `p2mSetEntry` (`mm/p2m.c:439-472`) writes a range page by page: a failure is remembered,
the pages after it are still written. `setRc` gives the result of `set_entry` by gfn.
-/

namespace XenVmi.Ept.P2mType

def isRam : P2mType → Bool
  | ramRw | ramLogdirty | ramRo | ramPagingOut | ramPaged | ramPagingIn | ramShared => true
  | _ => false

def isPaging : P2mType → Bool
  | ramPagingOut | ramPaged | ramPagingIn => true
  | _ => false

def isPageable : P2mType → Bool
  | ramRw | ramLogdirty => true
  | _ => false

end XenVmi.Ept.P2mType

namespace XenVmi.P2m

open Function XenVmi.Ept

/-! ## State -/

/-- What `p2m->get_entry` returns, by gfn. -/
abbrev Table := Nat → Translation

/-- `page_get_owner`: the domain of the p2m, `dom_cow`, nobody, or another domain. -/
inductive Owner where
  | self
  | cow
  | free
  | other
  deriving Repr, DecidableEq

/-- An entry of the M2P table: `INVALID_M2P_ENTRY`, `SHARED_M2P_ENTRY` or a gfn. -/
inductive M2p where
  | invalid
  | shared
  | gfn (gfn : Nat)
  deriving Repr, DecidableEq

/-- `p2m->pod`. -/
structure Pod where
  entryCount : Int
  count : Int
  super : List Nat
  single : List Nat
  maxGuest : Nat
  reclaimSingle : Nat
  lastPopulated : Nat → Nat
  lastPopulatedIndex : Nat

structure State where
  table : Table
  m2p : Nat → M2p
  owner : Nat → Owner
  pagedPages : Int
  pod : Pod
  freed : List Nat

structure Env where
  mfnValid : Nat → Bool
  mfnValid_lt : ∀ mfn, mfnValid mfn = true → mfn < invalidMfn
  hap : Bool
  has1gb : Bool
  has2mb : Bool
  defaultAccess : P2mAccess
  logDirty : Bool

theorem Env.mfnValid_invalidMfn (env : Env) : env.mfnValid invalidMfn = false :=
  Bool.eq_false_iff.2 fun h => absurd (env.mfnValid_lt _ h) (Nat.lt_irrefl _)

def smallMachine : Env where
  mfnValid mfn := decide (mfn < 16)
  mfnValid_lt mfn h := (of_decide_eq_true h).trans (by decide)
  hap := false
  has1gb := false
  has2mb := false
  defaultAccess := .rwx
  logDirty := false

/-- `set_gpfn_from_mfn`: the entry of a shared frame stays `SHARED_M2P_ENTRY`. -/
def State.setGpfnFromMfn (s : State) (mfn : Nat) (pfn : M2p) : State :=
  { s with m2p := update s.m2p mfn (if s.owner mfn = .cow then .shared else pfn) }

/-! ## `p2m_set_entry` -/

/-- What `get_entry` returns once `set_entry` has stored this mapping. -/
def stored (mfn : Nat) (t : P2mType) (a : P2mAccess) : Translation :=
  if t = .populateOnDemand then .pod else if t = .invalid then .none else ⟨mfn, t, a⟩

def frameAt (mfn i : Nat) : Nat := if mfn = invalidMfn then mfn else mfn + i

/-- The mapping that a call of `p2m_set_entry` asks for. -/
structure Mapping where
  gfn : Nat
  mfn : Nat
  t : P2mType
  a : P2mAccess

def Mapping.at (q : Mapping) (x : Nat) : Translation := stored (frameAt q.mfn (x - q.gfn)) q.t q.a

/-- `p2m->set_entry` on the `n` gfns from `q.gfn`. -/
def Table.setBlock (tab : Table) (q : Mapping) (n : Nat) : Table :=
  fun x => if q.gfn ≤ x ∧ x < q.gfn + n then q.at x else tab x

def pageAligned (order gfn mfn todo : Nat) : Bool :=
  decide (gfn % 2 ^ order = 0) && decide (mfn % 2 ^ order = 0) && decide (todo % 2 ^ order = 0)

/-- The order of the next page: `PAGE_ORDER_1G`, `PAGE_ORDER_2M` or `PAGE_ORDER_4K`. -/
def chunkOrder (env : Env) (gfn mfn todo : Nat) : Nat :=
  if !env.hap then 0
  else if pageAligned 18 gfn mfn todo && env.has1gb then 18
  else if pageAligned 9 gfn mfn todo && env.has2mb then 9
  else 0

/-- The loop of `p2m_set_entry`, with `fuel` rounds. -/
def setEntryLoop (env : Env) (setRc : Nat → Int) : (fuel : Nat) → Mapping → (todo : Nat) →
    (rc : Int) → Table → Int × Table
  | 0, _, _, rc, tab => (rc, tab)
  | fuel + 1, q, todo, rc, tab =>
    if todo = 0 then (rc, tab)
    else
      let n := 2 ^ chunkOrder env q.gfn q.mfn todo
      let setRc' := setRc q.gfn
      setEntryLoop env setRc fuel { q with gfn := q.gfn + n, mfn := frameAt q.mfn n } (todo - n)
        (if setRc' ≠ 0 then setRc' else rc) (if setRc' ≠ 0 then tab else tab.setBlock q n)

/-- `p2m_set_entry`: every round writes a page, so `1 << page_order` rounds are enough. -/
def p2mSetEntry (env : Env) (setRc : Nat → Int) (tab : Table) (q : Mapping) (pageOrder : Nat) :
    Int × Table :=
  setEntryLoop env setRc (2 ^ pageOrder) q (2 ^ pageOrder) 0 tab

/-- `p2m_set_entry` on the p2m of a domain. -/
def State.setRange (env : Env) (setRc : Nat → Int) (s : State) (q : Mapping) (pageOrder : Nat) :
    Int × State :=
  let r := p2mSetEntry env setRc s.table q pageOrder
  (r.1, { s with table := r.2 })

/-! ## What a call of `p2m_set_entry` writes -/

def pageOf (env : Env) : (fuel : Nat) → (gfn mfn todo x : Nat) → Nat
  | 0, gfn, _, _, _ => gfn
  | fuel + 1, gfn, mfn, todo, x =>
    let n := 2 ^ chunkOrder env gfn mfn todo
    if x < gfn + n then gfn else pageOf env fuel (gfn + n) (frameAt mfn n) (todo - n) x

/-- The result of `set_entry` for the page in which `x` lies. -/
def Mapping.rcAt (env : Env) (setRc : Nat → Int) (q : Mapping) (pageOrder x : Nat) : Int :=
  setRc (pageOf env (2 ^ pageOrder) q.gfn q.mfn (2 ^ pageOrder) x)

def Mapping.Covers (q : Mapping) (n x : Nat) : Prop := q.gfn ≤ x ∧ x < q.gfn + n

instance (q : Mapping) (n x : Nat) : Decidable (q.Covers n x) := inferInstanceAs (Decidable (_ ∧ _))

/-- Counting up from `q.mfn` reaches `INVALID_MFN` at the last of `n` pages at the earliest. -/
def Mapping.Fits (q : Mapping) (n : Nat) : Prop :=
  q.t = .populateOnDemand ∨ q.t = .invalid ∨ q.mfn = invalidMfn ∨ q.mfn + n ≤ invalidMfn + 1 ∨
    invalidMfn < q.mfn

section Loop

variable {env : Env} {gfn mfn todo n : Nat}

theorem chunk_pos (env : Env) (gfn mfn todo : Nat) : 0 < 2 ^ chunkOrder env gfn mfn todo :=
  Nat.two_pow_pos _

theorem le_of_pageAligned {order : Nat} (h : pageAligned order gfn mfn todo = true)
    (hpos : 0 < todo) : 2 ^ order ≤ todo := by
  simp only [pageAligned, Bool.and_eq_true, decide_eq_true_eq] at h
  exact Nat.le_of_dvd hpos (Nat.dvd_of_mod_eq_zero h.2)

theorem chunk_le (env : Env) (gfn mfn : Nat) (hpos : 0 < todo) :
    2 ^ chunkOrder env gfn mfn todo ≤ todo := by
  unfold chunkOrder
  split
  · exact hpos
  split
  · rename_i h
    exact le_of_pageAligned (Bool.and_eq_true_iff.1 h).1 hpos
  · split
    · rename_i h
      exact le_of_pageAligned (Bool.and_eq_true_iff.1 h).1 hpos
    · exact hpos

theorem frameAt_add {i j : Nat} (h : mfn = invalidMfn ∨ mfn + i ≠ invalidMfn ∨ j = 0) :
    frameAt (frameAt mfn i) j = frameAt mfn (i + j) := by
  unfold frameAt
  split_ifs <;> omega

def Mapping.rest (q : Mapping) (n : Nat) : Mapping :=
  { q with gfn := q.gfn + n, mfn := frameAt q.mfn n }

theorem not_covers_zero (q : Mapping) (x : Nat) : ¬ q.Covers 0 x := by
  unfold Mapping.Covers
  omega

variable {x fuel pageOrder : Nat} {q : Mapping} {setRc : Nat → Int} {rc : Int} {tab : Table}

theorem covers_rest_iff (hn : n ≤ todo) (hx : ¬ x < q.gfn + n) :
    (q.rest n).Covers (todo - n) x ↔ q.Covers todo x := by
  show (q.gfn + n ≤ x ∧ x < q.gfn + n + (todo - n)) ↔ q.gfn ≤ x ∧ x < q.gfn + todo
  omega

theorem Mapping.Fits.rest (h : q.Fits todo) (hn : n ≤ todo) : (q.rest n).Fits (todo - n) := by
  refine Or.imp_right (Or.imp_right ?_) h
  show q.mfn = invalidMfn ∨ q.mfn + todo ≤ invalidMfn + 1 ∨ invalidMfn < q.mfn →
    frameAt q.mfn n = invalidMfn ∨ frameAt q.mfn n + (todo - n) ≤ invalidMfn + 1 ∨
      invalidMfn < frameAt q.mfn n
  unfold frameAt
  split
  · exact fun _ => .inl ‹_›
  · omega

theorem rest_at (h : q.Fits todo) (hc : q.Covers todo x)
    (hx : ¬ x < q.gfn + n) : (q.rest n).at x = q.at x := by
  show stored (frameAt (frameAt q.mfn n) (x - (q.gfn + n))) q.t q.a =
    stored (frameAt q.mfn (x - q.gfn)) q.t q.a
  rcases h with ht | ht | hm
  · rw [ht]
    rfl
  · rw [ht]
    rfl
  · unfold Mapping.Covers at hc
    rw [frameAt_add (by omega), show n + (x - (q.gfn + n)) = x - q.gfn by omega]

theorem setEntryLoop_spec (hfuel : todo ≤ fuel) :
    ((setEntryLoop env setRc fuel q todo rc tab).1 = 0 ↔
      rc = 0 ∧ ∀ x, q.Covers todo x → setRc (pageOf env fuel q.gfn q.mfn todo x) = 0) ∧
    ∀ x, ∃ f, (q.Fits todo → q.Covers todo x → stored f q.t q.a = q.at x) ∧
      (setEntryLoop env setRc fuel q todo rc tab).2 x =
        if q.Covers todo x ∧ setRc (pageOf env fuel q.gfn q.mfn todo x) = 0 then stored f q.t q.a
        else tab x := by
  -- the rounds are the induction; `n` is the size of the first page, the rest is one call more
  induction fuel generalizing q todo rc tab with
  | zero =>
    obtain rfl : todo = 0 := Nat.le_zero.1 hfuel
    exact ⟨⟨fun h => ⟨h, fun x hx => absurd hx (not_covers_zero q x)⟩, fun h => h.1⟩,
      fun x => ⟨_, fun _ _ => rfl, (if_neg fun h => not_covers_zero q x h.1).symm⟩⟩
  | succ fuel ih =>
    by_cases htodo : todo = 0
    · subst htodo
      exact ⟨⟨fun h => ⟨h, fun x hx => absurd hx (not_covers_zero q x)⟩, fun h => h.1⟩,
        fun x => ⟨_, fun _ _ => rfl, (if_neg fun h => not_covers_zero q x h.1).symm⟩⟩
    unfold setEntryLoop pageOf
    rw [if_neg htodo]
    have hn := chunk_le env q.gfn q.mfn (Nat.pos_of_ne_zero htodo)
    have hpos := chunk_pos env q.gfn q.mfn todo
    generalize 2 ^ chunkOrder env q.gfn q.mfn todo = n at hn hpos ⊢
    obtain ⟨hrc, htab⟩ := @ih (todo - n) (q.rest n)
      (if setRc q.gfn ≠ 0 then setRc q.gfn else rc)
      (if setRc q.gfn ≠ 0 then tab else tab.setBlock q n) (by omega)
    refine ⟨hrc.trans ⟨fun h => ?_, fun h => ?_⟩, fun x => ?_⟩
    · have hfirst : setRc q.gfn = 0 := by
        by_contra hne
        rw [if_pos hne] at h
        exact hne h.1
      rw [if_neg (not_not.2 hfirst)] at h
      refine ⟨h.1, fun x hx => ?_⟩
      by_cases hxn : x < q.gfn + n
      · rw [if_pos hxn]
        exact hfirst
      · rw [if_neg hxn]
        exact h.2 x ((covers_rest_iff hn hxn).2 hx)
    · have hfirst : setRc q.gfn = 0 := by
        have hx := h.2 q.gfn ⟨le_rfl, by omega⟩
        rwa [if_pos (by omega)] at hx
      rw [if_neg (not_not.2 hfirst)]
      refine ⟨h.1, fun x hx => ?_⟩
      have hxn : ¬ x < q.gfn + n := Nat.not_lt.2 hx.1
      have hx' := h.2 x ((covers_rest_iff hn hxn).1 hx)
      rwa [if_neg hxn] at hx'
    · obtain ⟨f, hf, hx⟩ := htab x
      by_cases hxn : x < q.gfn + n
      · refine ⟨_, fun _ _ => rfl, hx.trans ?_⟩
        rw [if_neg fun h => absurd h.1.1 (Nat.not_le.2 hxn), if_pos hxn]
        by_cases hfirst : setRc q.gfn = 0
        · rw [if_neg (not_not.2 hfirst), Table.setBlock]
          by_cases hx : q.gfn ≤ x
          · rw [if_pos ⟨hx, hxn⟩, if_pos ⟨⟨hx, by omega⟩, hfirst⟩]
            rfl
          · rw [if_neg fun h => hx h.1, if_neg fun h => hx h.1.1]
        · rw [if_pos hfirst, if_neg fun h => hfirst h.2]
      · have hkept : (if setRc q.gfn ≠ 0 then tab else tab.setBlock q n) x = tab x := by
          split
          · rfl
          · exact if_neg fun h => hxn h.2
        refine ⟨f, fun hq hc => ?_, hx.trans ?_⟩
        · exact (hf (hq.rest hn) ((covers_rest_iff hn hxn).2 hc)).trans (rest_at hq hc hxn)
        · rw [if_neg hxn, hkept]
          simp only [covers_rest_iff hn hxn]
          rfl

theorem p2mSetEntry_rc :
    (p2mSetEntry env setRc tab q pageOrder).1 = 0 ↔
      ∀ x, q.Covers (2 ^ pageOrder) x → q.rcAt env setRc pageOrder x = 0 :=
  (setEntryLoop_spec le_rfl).1.trans (and_iff_right rfl)

theorem p2mSetEntry_type (env : Env) (setRc : Nat → Int) (tab : Table) (q : Mapping)
    (pageOrder x : Nat) : ∃ f, (q.Fits (2 ^ pageOrder) → q.Covers (2 ^ pageOrder) x →
        stored f q.t q.a = q.at x) ∧
      (p2mSetEntry env setRc tab q pageOrder).2 x =
        if q.Covers (2 ^ pageOrder) x ∧ q.rcAt env setRc pageOrder x = 0 then stored f q.t q.a
        else tab x :=
  (setEntryLoop_spec le_rfl).2 x

theorem p2mSetEntry_table (hq : q.Fits (2 ^ pageOrder)) (x : Nat) :
    (p2mSetEntry env setRc tab q pageOrder).2 x =
      if q.Covers (2 ^ pageOrder) x ∧ q.rcAt env setRc pageOrder x = 0 then q.at x else tab x := by
  obtain ⟨f, hf, hx⟩ := p2mSetEntry_type env setRc tab q pageOrder x
  rw [hx]
  split
  · rename_i hc
    exact hf hq hc.1
  · rfl

theorem p2mSetEntry_ok (hq : q.Fits (2 ^ pageOrder)) (h : ∀ x, setRc x = 0) :
    p2mSetEntry env setRc tab q pageOrder = (0, tab.setBlock q (2 ^ pageOrder)) := by
  refine Prod.ext (p2mSetEntry_rc.2 fun x _ => h _) (funext fun x => ?_)
  rw [p2mSetEntry_table hq]
  by_cases hx : q.Covers (2 ^ pageOrder) x
  · exact (if_pos ⟨hx, h _⟩).trans (if_pos hx).symm
  · exact (if_neg fun h => hx h.1).trans (if_neg hx).symm

theorem p2mSetEntry_zero (env : Env) (setRc : Nat → Int) (tab : Table) (q : Mapping) :
    p2mSetEntry env setRc tab q 0 =
      (setRc q.gfn, if setRc q.gfn = 0 then update tab q.gfn (q.at q.gfn) else tab) := by
  have hn : chunkOrder env q.gfn q.mfn 1 = 0 := by
    have h := chunk_le env q.gfn q.mfn Nat.one_pos
    by_contra hne
    exact absurd h (Nat.not_le.2 (Nat.one_lt_two_pow hne))
  have hblock : tab.setBlock q 1 = update tab q.gfn (q.at q.gfn) := by
    funext x
    by_cases hx : x = q.gfn
    · subst hx
      rw [update_self]
      exact if_pos ⟨le_rfl, Nat.lt_succ_self _⟩
    · rw [update_of_ne hx]
      exact if_neg (by omega)
  show setEntryLoop env setRc 1 q 1 0 tab = _
  unfold setEntryLoop
  rw [hn]
  by_cases h : setRc q.gfn = 0
  · simp [setEntryLoop, h, hblock]
  · simp [setEntryLoop, h]

end Loop

end XenVmi.P2m
