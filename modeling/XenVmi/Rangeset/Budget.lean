import XenVmi.Rangeset.Union
import Mathlib.Data.List.Induction

/-!
# The budget of a rangeset

`nr_ranges` counts down what a set may still allocate, so its sum with the length of the list stays.
`rangeset_swap` exchanges the lists of two sets and leaves `nr_ranges` where it is. The
counterexample is the history of `late_hwdom_init` (`common/domain.c:219-226`).
-/

namespace XenVmi.Rangeset

open XenVmi.Lib List

variable {r : Rangeset} {mem : Bool} {s e x y : Nat}

def budget (r : Rangeset) : Int := r.nrRanges + r.ranges.length

/-! ## Single ranges -/

@[simp] theorem budget_setStart : (r.setStart x s).budget = r.budget := by
  simp [budget, setStart]

@[simp] theorem budget_setEnd : (r.setEnd x e).budget = r.budget := by
  simp [budget, setEnd]

@[simp] theorem length_setStart : (r.setStart x s).ranges.length = r.ranges.length := by
  simp [setStart]

@[simp] theorem length_setEnd : (r.setEnd x e).ranges.length = r.ranges.length := by
  simp [setEnd]

theorem length_destroyRange (h : x < r.ranges.length) :
    (r.destroyRange x).ranges.length = r.ranges.length - 1 :=
  length_eraseIdx_of_lt h

theorem budget_destroyRange (h : x < r.ranges.length) : (r.destroyRange x).budget = r.budget := by
  have hnr : (r.destroyRange x).nrRanges = r.nrRanges + 1 := rfl
  rw [budget, length_destroyRange h, budget]
  omega

theorem budget_insertRange {x : Option Nat} {z : Range} (hx : placeAfter x ≤ r.ranges.length) :
    (r.insertRange x z).budget = r.budget + 1 := by
  simp only [budget, insertRange, length_insertIdx_of_le_length hx]
  omega

variable {r' : Rangeset} {i : Nat} {x₀ : Option Nat}

theorem allocRange_eq (h : r.allocRange mem = some r') :
    r' = { r with nrRanges := r.nrRanges - 1 } := by
  rcases allocRange_cases r mem with ⟨hnone, -⟩ | hsome
  · rw [hnone] at h
    cases h
  · rw [hsome] at h
    cases h
    rfl

theorem budget_allocRange (h : r.allocRange mem = some r') : r'.budget = r.budget - 1 := by
  rw [allocRange_eq h]
  simp only [budget]
  omega

/-! ## Places that are found -/

theorem findFrom_le (l : List Range) (h₀ : ∀ j, x₀ = some j → j < i)
    (h : findFrom s l i x₀ = some x) : x < i + l.length := by
  induction l generalizing i x₀ with
  | nil => exact Nat.lt_of_lt_of_le (h₀ x h) (Nat.le_add_right _ _)
  | cons z l ih =>
    rw [findFrom] at h
    split at h
    · exact Nat.lt_of_lt_of_le (h₀ x h) (Nat.le_add_right _ _)
    · have := ih (fun j hj => by cases hj; omega) h
      rw [length_cons]
      omega

theorem findRange_lt (h : r.findRange s = some x) : x < r.ranges.length := by
  have := findFrom_le r.ranges (by simp) h
  omega

theorem findFrom_ge (l : List Range) {i k : Nat} (hk : k < i) :
    ∃ k', findFrom s l i (some k) = some k' ∧ k ≤ k' := by
  induction l generalizing i k with
  | nil => exact ⟨k, rfl, Nat.le_refl k⟩
  | cons z l ih =>
    rw [findFrom]
    split
    · exact ⟨k, rfl, Nat.le_refl k⟩
    · obtain ⟨k', hk', hle⟩ := ih (Nat.lt_succ_self i)
      exact ⟨k', hk', by omega⟩

theorem findFrom_mono (l : List Range) (hse : s ≤ e)
    (h₀ : ∀ j, x₀ = some j → j < i) (h : findFrom s l i x₀ = some x) :
    ∃ k, findFrom e l i x₀ = some k ∧ x ≤ k := by
  induction l generalizing i x₀ with
  | nil => exact ⟨x, h, Nat.le_refl x⟩
  | cons z l ih =>
    rw [findFrom] at h
    split at h
    · rw [h]
      exact findFrom_ge (z :: l) (h₀ x h)
    · rw [findFrom, if_neg (by omega)]
      exact ih (by simp) h

theorem findRange_mono (hse : s ≤ e) (h : r.findRange s = some x) :
    ∃ y, r.findRange e = some y ∧ x ≤ y := findFrom_mono r.ranges hse (by simp) h

theorem le_of_findRange_none (h : r.findRange s = none) (hne : 0 < r.ranges.length) :
    ¬ (r.range 0).s < s := by
  obtain ⟨l, nr⟩ := r
  cases l with
  | nil => exact absurd hne (by simp)
  | cons z l =>
    intro hlt
    have hlt : z.s < s := hlt
    obtain ⟨k, hk, -⟩ := findFrom_ge l (Nat.lt_succ_self 0)
    rw [findRange, findFrom, if_neg (by omega), hk] at h
    cases h

/-! ## Operations -/

theorem nextRange_lt (h : r.nextRange x = some y) : y < r.ranges.length := by
  unfold nextRange at h
  split at h
  · cases h
    assumption
  · cases h

theorem swallow_budget (fuel : Nat) : (swallow x fuel r).budget = r.budget := by
  induction fuel generalizing r with
  | zero => rfl
  | succ fuel ih =>
    unfold swallow
    cases hn : r.nextRange x with
    | none => rfl
    | some y =>
      simp only
      split
      · rfl
      · rw [ih, budget_destroyRange (nextRange_lt hn)]

theorem joinNext_budget : (r.joinNext x).budget = r.budget := by
  unfold joinNext
  cases hn : r.nextRange x with
  | none => rfl
  | some y =>
    simp only
    split
    · rw [budget_destroyRange (by simpa using nextRange_lt hn), budget_setEnd]
    · rfl

theorem widen_budget (h : r.widen mem s e = some (x, r')) : r'.budget = r.budget := by
  unfold widen at h
  simp only at h
  split at h
  · split at h
    · obtain ⟨r₁, halloc, heq⟩ := Option.map_eq_some_iff.1 h
      cases heq
      rw [budget_insertRange (Nat.zero_le _), budget_allocRange halloc, Int.sub_add_cancel]
    · rename_i i hi
      split at h
      · obtain ⟨r₁, halloc, heq⟩ := Option.map_eq_some_iff.1 h
        cases heq
        have hplace : placeAfter (some i) ≤ r₁.ranges.length := by
          rw [allocRange_eq halloc]
          exact findRange_lt hi
        rw [hi, budget_insertRange hplace, budget_allocRange halloc, Int.sub_add_cancel]
      · split at h
        · cases h
          exact budget_setEnd
        · cases h
          rfl
  · cases h
    rw [swallow_budget, budget_setEnd]
    split
    · exact budget_setStart
    · rfl

theorem addRange_budget : (r.addRange mem s e).2.budget = r.budget := by
  unfold addRange
  cases h : r.widen mem s e with
  | none => rfl
  | some p =>
    obtain ⟨x, r'⟩ := p
    rw [joinNext_budget, widen_budget h]

theorem destroyUpTo_budget {n : Nat} (h : x + n ≤ r.ranges.length) :
    (destroyUpTo x n r).budget = r.budget ∧
      (destroyUpTo x n r).ranges.length = r.ranges.length - n := by
  induction n generalizing r with
  | zero => exact ⟨rfl, rfl⟩
  | succ n ih =>
    have hlen := length_destroyRange (r := r) (x := x) (by omega)
    obtain ⟨hb, hl⟩ := ih (r := r.destroyRange x) (by omega)
    rw [destroyUpTo, hb, hl, budget_destroyRange (by omega)]
    exact ⟨rfl, by omega⟩

theorem removeWithin_budget (hx : x < r.ranges.length) :
    (r.removeWithin mem x s e).2.budget = r.budget := by
  unfold removeWithin
  simp only
  split_ifs
  · rfl
  · cases halloc : r.allocRange mem with
    | none => rfl
    | some r' =>
      have hplace : placeAfter (some x) ≤ (r'.setEnd x (ulongPred s)).ranges.length := by
        rw [length_setEnd, allocRange_eq halloc]
        exact hx
      rw [budget_insertRange hplace, budget_setEnd, budget_allocRange halloc, Int.sub_add_cancel]
  · exact budget_destroyRange hx
  · exact budget_setStart
  · exact budget_setEnd
  · rfl

theorem cutTo_budget (hi : i ≤ y) (hy : y < r.ranges.length) :
    (let r' := (destroyUpTo i (y - i) r).setStart i (ulong (e + 1))
      if (r'.range i).e < (r'.range i).s then r'.destroyRange i else r').budget = r.budget := by
  obtain ⟨hb, hl⟩ := destroyUpTo_budget (x := i) (n := y - i) (r := r) (by omega)
  simp only
  split
  · rw [budget_destroyRange (by rw [length_setStart]; omega), budget_setStart, hb]
  · rw [budget_setStart, hb]

theorem removeAcross_budget {x : Option Nat} (hx : ∀ i, x = some i → i < y)
    (hnone : x = none → ¬ (r.range 0).s < s) (hy : y < r.ranges.length) :
    (r.removeAcross x y s e).budget = r.budget := by
  unfold removeAcross
  simp only
  by_cases hcut : (r.range (x.getD 0)).s < s
  · rw [if_pos hcut, if_pos hcut]
    have hi : x.getD 0 + 1 ≤ y := by
      cases x with
      | none => exact absurd hcut (hnone rfl)
      | some i => exact hx i rfl
    exact (cutTo_budget hi (by rwa [length_setEnd])).trans budget_setEnd
  rw [if_neg hcut, if_neg hcut]
  have hi : x.getD 0 ≤ y := by
    cases x with
    | none => exact Nat.zero_le y
    | some i => exact (hx i rfl).le
  exact cutTo_budget hi hy

theorem removeRange_budget (hse : s ≤ e) : (r.removeRange mem s e).2.budget = r.budget := by
  unfold removeRange
  simp only
  split
  · cases hx : r.findRange s with
    | none => rfl
    | some x => exact removeWithin_budget (findRange_lt hx)
  rename_i hne
  -- `y` is found whenever `x` is, and `x` is not `y`
  cases hy : r.findRange e with
  | none =>
    cases hx : r.findRange s with
    | none => exact absurd (hx.trans hy.symm) hne
    | some x =>
      obtain ⟨y, hy', -⟩ := findRange_mono hse hx
      rw [hy] at hy'
      cases hy'
  | some y =>
    refine removeAcross_budget (fun i hi => ?_) (fun hx => ?_) (findRange_lt hy)
    · obtain ⟨y', hy', hle⟩ := findRange_mono hse hi
      rw [hy] at hy'
      cases hy'
      refine Nat.lt_of_le_of_ne hle ?_
      rintro rfl
      exact hne (hi.trans hy.symm)
    · exact le_of_findRange_none hx (Nat.zero_lt_of_lt (findRange_lt hy))

/-! ## Histories -/

structure Managed where
  set : Rangeset
  limit : Option (BitVec 32)
  deriving DecidableEq, Repr

def Managed.configured (m : Managed) : Int :=
  match m.limit with
  | none => -1
  | some l => l.toNat

/-- `nr_ranges` is what is left of the limit, and allocating a range fails just when the limit is
reached. -/
structure Managed.Accounted (m : Managed) : Prop where
  sum : m.set.nrRanges + m.set.ranges.length = m.configured
  fails_iff : m.set.allocRange true = none ↔ ∃ l, m.limit = some l ∧ m.set.ranges.length = l.toNat

/-- One call. Sets are known by the order of their creation; `ASSERT(s <= e)` is part of the
call. -/
inductive Op where
  /-- `rangeset_new`, and `rangeset_limit` if a limit is given -/
  | create (limit : Option (BitVec 32))
  | add (i s e : Nat) (le : s ≤ e) (mem : Bool)
  | remove (i s e : Nat) (le : s ≤ e) (mem : Bool)
  | swap (i j : Nat)

def step (sets : List Managed) : Op → List Managed
  | .create none => sets ++ [{ set := new, limit := none }]
  | .create (some l) => sets ++ [{ set := new.limit l, limit := some l }]
  | .add i s e _ mem => sets.modify i fun m => { m with set := (m.set.addRange mem s e).2 }
  | .remove i s e _ mem => sets.modify i fun m => { m with set := (m.set.removeRange mem s e).2 }
  | .swap i j =>
    match sets[i]?, sets[j]? with
    | some a, some b =>
      (sets.set i { a with set := (a.set.swap b.set).1 }).set j { b with set :=
        (a.set.swap b.set).2 }
    | _, _ => sets

def run (ops : List Op) : List Managed := ops.foldl step []

def Op.Balanced (sets : List Managed) : Op → Prop
  | .swap i j => ∀ a b, sets[i]? = some a → sets[j]? = some b →
    a.set.ranges.length = b.set.ranges.length
  | _ => True

variable {m : Managed} {sets : List Managed}

theorem accounted_of_sum (h : m.set.budget = m.configured) : m.Accounted := by
  refine ⟨h, ?_⟩
  unfold budget at h
  have hnone : m.set.allocRange true = none ↔ m.set.nrRanges = 0 := by
    unfold allocRange
    split <;> simp [*]
  rw [hnone]
  unfold Managed.configured at h
  cases hl : m.limit with
  | none =>
    rw [hl] at h
    simp only [reduceCtorEq, false_and, exists_false, iff_false]
    simp only at h
    omega
  | some l =>
    rw [hl] at h
    simp only [Option.some.injEq, exists_eq_left']
    simp only at h
    omega

def Sums (sets : List Managed) : Prop := ∀ m ∈ sets, m.set.budget = m.configured

theorem sums_append (h : Sums sets) (hm : m.set.budget = m.configured) : Sums (sets ++ [m]) := by
  intro m' hm'
  rcases mem_append.1 hm' with hm' | hm'
  · exact h m' hm'
  · rw [mem_singleton.1 hm']
    exact hm

theorem sums_modify (h : Sums sets) (i : Nat) {f : Managed → Managed}
    (hf : ∀ m, (f m).set.budget = m.set.budget ∧ (f m).limit = m.limit) :
      Sums (sets.modify i f) := by
  intro m hm
  obtain ⟨j, hj⟩ := mem_iff_getElem?.1 hm
  rw [List.getElem?_modify] at hj
  obtain ⟨m', hm', rfl⟩ := Option.map_eq_some_iff.1 hj
  have hsum := h m' (mem_of_getElem? hm')
  split
  · rw [(hf m').1, hsum, Managed.configured, Managed.configured, (hf m').2]
  · exact hsum

theorem step_sums (h : Sums sets) (op : Op) : Sums (step sets op) ↔ op.Balanced sets := by
  cases op with
  | create limit =>
    refine iff_of_true ?_ trivial
    cases limit with
    | none => exact sums_append h rfl
    | some l => exact sums_append h (by simp [budget, new, Rangeset.limit, Managed.configured])
  | add i s e hle mem => exact iff_of_true (sums_modify h i fun m => ⟨addRange_budget, rfl⟩) trivial
  | remove i s e hle mem =>
    exact iff_of_true (sums_modify h i fun m => ⟨removeRange_budget hle, rfl⟩) trivial
  | swap i j =>
    cases hi : sets[i]? with
    | none =>
      simp only [step, Op.Balanced, hi]
      exact iff_of_true h (by simp)
    | some a =>
      cases hj : sets[j]? with
      | none =>
        simp only [step, Op.Balanced, hi, hj]
        exact iff_of_true h (by simp)
      | some b =>
        have ha : a.set.nrRanges + a.set.ranges.length = a.configured :=
          h a (mem_of_getElem? hi)
        have hb : b.set.nrRanges + b.set.ranges.length = b.configured :=
          h b (mem_of_getElem? hj)
        simp only [step, Op.Balanced, hi, hj]
        constructor
        · rintro hsums _ _ ⟨⟩ ⟨⟩
          have hlt := (List.getElem?_eq_some_iff.1 hj).1
          have hb' : b.set.nrRanges + a.set.ranges.length = b.configured :=
            hsums _ (mem_set (by simpa using hlt) _)
          omega
        · intro hbalanced m hm
          have hlen := hbalanced a b rfl rfl
          rcases mem_or_eq_of_mem_set hm with hm | rfl
          · rcases mem_or_eq_of_mem_set hm with hm | rfl
            · exact h m hm
            · change a.set.nrRanges + (b.set.ranges.length : Int) = a.configured
              omega
          · change b.set.nrRanges + (a.set.ranges.length : Int) = b.configured
            omega

theorem run_concat (ops : List Op) (op : Op) : run (ops ++ [op]) = step (run ops) op := by
  rw [run, foldl_append]
  rfl

/-- **The budget accounting of rangesets** is right just when every swap exchanges lists of the same
length. -/
theorem accounted_iff (ops : List Op) :
    (∀ pre, pre <+: ops → ∀ m ∈ run pre, m.Accounted) ↔
      ∀ pre op, pre ++ [op] <+: ops → op.Balanced (run pre) := by
  constructor
  · intro h pre op hpre
    have hsums : Sums (run pre) := fun m hm =>
      (h pre ((prefix_append _ _).trans hpre) m hm).sum
    refine (step_sums hsums op).1 fun m hm => (h _ hpre m ?_).sum
    rwa [run_concat]
  · intro h pre
    have hsums : pre <+: ops → Sums (run pre) := by
      induction pre using List.reverseRecOn with
      | nil => exact fun _ m hm => absurd hm (by simp [run])
      | append_singleton pre op ih =>
        intro hpre
        rw [run_concat]
        exact (step_sums (ih ((prefix_append _ _).trans hpre)) op).2 (h pre op hpre)
    exact fun hpre m hm => accounted_of_sum (hsums hpre m hm)

/-- The hardware domain takes over the one range of domain 0, by a swap of unlimited sets. When the
range has been removed again, no range can be added. -/
theorem swapped_set_out_of_budget :
    run [.create none, .create none, .add 1 0 1 (by decide) true, .swap 0 1,
        .remove 0 0 1 (by decide) true] =
        [{ set := { ranges := [], nrRanges := 0 }, limit := none },
          { set := { ranges := [], nrRanges := -2 }, limit := none }] ∧
      addRange { ranges := [], nrRanges := 0 } true 5 6 =
        (enomem, { ranges := [], nrRanges := 0 }) ∧
      ¬ Managed.Accounted { set := { ranges := [], nrRanges := 0 }, limit := none } := by
  refine ⟨by decide, by decide, fun h => ?_⟩
  have := h.sum
  cases this

end XenVmi.Rangeset
