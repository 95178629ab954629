import Mathlib.Data.Set.Card

/-!
# Counting the keys of a table by their value

A table over an infinite type of keys, in which finitely many keys have a value of interest.

* `census p f`: the number of keys whose value in `f` satisfies `p`.
-/

namespace XenVmi.Lib

open Function List

variable {ι α : Type} (p : α → Prop)

noncomputable def census (f : ι → α) : Nat := Set.ncard {i | p (f i)}

def Sparse (f : ι → α) : Prop := Set.Finite {i | p (f i)}

variable {p} {f f' : ι → α} {l : List ι}

theorem Sparse.of_agree (hf : Sparse p f) (h : ∀ i ∉ l, (p (f' i) ↔ p (f i))) : Sparse p f' := by
  refine (hf.union l.finite_toSet).subset fun i hi => ?_
  by_cases hl : i ∈ l
  · exact .inr hl
  · exact .inl ((h i hl).1 hi)

theorem census_congr (h : ∀ i, (p (f' i) ↔ p (f i))) : census p f' = census p f :=
  congrArg Set.ncard (Set.ext h)

theorem Sparse.update [DecidableEq ι] (hf : Sparse p f) (i : ι) (a : α) : Sparse p (update f i a) :=
  hf.of_agree (l := [i]) fun j hj => by rw [update_of_ne (mt mem_singleton.2 hj)]

theorem census_eq_zero (h : ∀ i, ¬ p (f i)) : census p f = 0 ∧ Sparse p f := by
  have hempty : {i | p (f i)} = ∅ := Set.eq_empty_of_forall_notMem h
  exact ⟨by rw [census, hempty, Set.ncard_empty], by rw [Sparse, hempty]; exact Set.finite_empty⟩

variable [DecidablePred p]

theorem census_eq_add (hl : l.Nodup) (hf : Sparse p f) :
    census p f = Set.ncard {i | i ∉ l ∧ p (f i)} + l.countP fun i => p (f i) := by
  classical
  have hunion : {i | p (f i)} = {i | i ∉ l ∧ p (f i)} ∪ ↑(l.filter fun i => p (f i)).toFinset := by
    ext i
    by_cases hi : i ∈ l <;> simp [hi]
  have hdisj : Disjoint {i | i ∉ l ∧ p (f i)} (↑(l.filter fun i => p (f i)).toFinset : Set ι) := by
    rw [Set.disjoint_left]
    intro i hi hmem
    simp only [coe_toFinset, Set.mem_ofPred_eq, mem_filter] at hmem
    exact hi.1 hmem.1
  have hcard : Set.ncard (↑(l.filter fun i => p (f i)).toFinset : Set ι) =
      l.countP fun i => p (f i) := by
    rw [Set.ncard_coe_finset, toFinset_card_of_nodup (hl.filter _), countP_eq_length_filter]
  have hfin : Set.Finite {i | i ∉ l ∧ p (f i)} := hf.subset fun i hi => hi.2
  rw [census, hunion, Set.ncard_union_eq hdisj hfin (Finset.finite_toSet _), hcard]

theorem census_of_agree (hl : l.Nodup) (hf : Sparse p f) (h : ∀ i ∉ l, (p (f' i) ↔ p (f i))) :
    (census p f' : Int) =
      census p f + (l.countP fun i => p (f' i)) - (l.countP fun i => p (f i)) := by
  have hrest : {i | i ∉ l ∧ p (f' i)} = {i | i ∉ l ∧ p (f i)} :=
    Set.ext fun i => and_congr_right (h i)
  rw [census_eq_add hl (hf.of_agree h), census_eq_add hl hf, hrest]
  omega

theorem census_update [DecidableEq ι] (hf : Sparse p f) (i : ι) (a : α) :
    (census p (update f i a) : Int) =
      census p f + (if p a then 1 else 0) - (if p (f i) then 1 else 0) := by
  have h : ∀ j ∉ [i], (p (update f i a j) ↔ p (f j)) := fun j hj => by
    rw [update_of_ne (mt mem_singleton.2 hj)]
  rw [census_of_agree (nodup_singleton i) hf h]
  by_cases ha : p a <;> by_cases hi : p (f i) <;> simp [ha, hi]

theorem countP_eq_iff {q r : ι → Bool} (h : ∀ i ∈ l, q i = true → r i = true) :
    l.countP q = l.countP r ↔ ∀ i ∈ l, r i = true → q i = true := by
  induction l with
  | nil => simp
  | cons i l ih =>
    have hle : l.countP q ≤ l.countP r :=
      countP_mono_left fun j hj => h j (mem_cons_of_mem _ hj)
    have ih := ih fun j hj => h j (mem_cons_of_mem _ hj)
    have hi := h i mem_cons_self
    rw [forall_mem_cons, ← ih]
    cases hq : q i <;> cases hr : r i <;> simp [hq, hr] at hi ⊢
    omega

theorem countP_eq_add {q r t : ι → Bool}
    (h : ∀ i ∈ l, t i = (q i || r i) ∧ (q i = true → r i = false)) :
    l.countP t = l.countP q + l.countP r := by
  induction l with
  | nil => rfl
  | cons i l ih =>
    rw [countP_cons, ih fun j hj => h j (mem_cons_of_mem _ hj)]
    grind

theorem countP_update [DecidableEq ι] (q : α → Bool) {i : ι} (hl : l.Nodup) (hi : i ∈ l) (a : α) :
    (l.countP fun j => q (update f i a j)) + (if q (f i) then 1 else 0) =
      (l.countP fun j => q (f j)) + if q a then 1 else 0 := by
  have hperm := perm_cons_erase hi
  have hrest : ((l.erase i).countP fun j => q (update f i a j)) =
      (l.erase i).countP fun j => q (f j) :=
    countP_congr fun j hj => by
      rw [update_of_ne (hl.mem_erase_iff.1 hj).1]
  rw [hperm.countP_eq, hperm.countP_eq, countP_cons, countP_cons, update_self]
  omega

end XenVmi.Lib
