import Mathlib.Logic.Function.Basic

/-!
# Filling a table by a step that may run out of a resource

A table is filled index by index. Each index takes what it needs from a state and either succeeds or
makes the whole loop stop.
-/

namespace XenVmi.Lib

open Function

variable {ι α σ : Type} [DecidableEq ι]

def fillStep (g : σ → ι → Bool × α × σ) (acc : Bool × (ι → α) × σ) (i : ι) : Bool × (ι → α) × σ :=
  if !acc.1 then acc
  else
    let r := g acc.2.2 i
    (r.1, update acc.2.1 i r.2.1, r.2.2)

def fill (g : σ → ι → Bool × α × σ) (is : List ι) (acc : Bool × (ι → α) × σ) : Bool × (ι → α) × σ :=
  is.foldl (fillStep g) acc

variable {g : σ → ι → Bool × α × σ}

theorem fillStep_of_true {acc : Bool × (ι → α) × σ} (h : acc.1 = true) (i : ι) :
    fillStep g acc i =
      ((g acc.2.2 i).1, update acc.2.1 i (g acc.2.2 i).2.1, (g acc.2.2 i).2.2) := by
  unfold fillStep
  rw [h]
  rfl

theorem fill_of_true {is : List ι} (acc : Bool × (ι → α) × σ) (h : (fill g is acc).1 = true) :
    acc.1 = true ∧
      (∀ i ∈ is, ∃ s s', g s i = (true, (fill g is acc).2.1 i, s')) ∧
      ∀ i ∉ is, (fill g is acc).2.1 i = acc.2.1 i := by
  induction is generalizing acc with
  | nil => exact ⟨h, fun i hi => absurd hi List.not_mem_nil, fun i _ => rfl⟩
  | cons a is ih =>
    obtain ⟨hstep, hin, hout⟩ := ih (fillStep g acc a) h
    by_cases hacc : acc.1 = true
    · have hval := fillStep_of_true (g := g) hacc a
      have hok : (g acc.2.2 a).1 = true := by rw [hval] at hstep; exact hstep
      refine ⟨hacc, fun i hi => ?_, fun i hi => ?_⟩
      · by_cases his : i ∈ is
        · exact hin i his
        · obtain rfl : i = a := (List.mem_cons.1 hi).resolve_right his
          refine ⟨acc.2.2, (g acc.2.2 i).2.2, ?_⟩
          show g acc.2.2 i = (true, (fill g is (fillStep g acc i)).2.1 i, _)
          rw [hout i his, hval, ← hok]
          simp only [update_self]
      · rw [List.mem_cons, not_or] at hi
        show (fill g is (fillStep g acc a)).2.1 i = acc.2.1 i
        rw [hout i hi.2, hval]
        exact update_of_ne hi.1 _ _
    · have hval : fillStep g acc a = acc := by
        unfold fillStep
        rw [Bool.eq_false_iff.2 hacc]
        rfl
      rw [hval] at hstep
      exact absurd hstep hacc

theorem fill_true (size : σ → Nat) {c : Nat}
    (hg : ∀ s i, c ≤ size s → (g s i).1 = true ∧ size (g s i).2.2 + c = size s) (is : List ι)
    (acc : Bool × (ι → α) × σ) (hacc : acc.1 = true) (hs : is.length * c ≤ size acc.2.2) :
    (fill g is acc).1 = true ∧ size (fill g is acc).2.2 + is.length * c = size acc.2.2 := by
  induction is generalizing acc with
  | nil => exact ⟨hacc, by rw [List.length_nil, Nat.zero_mul]; rfl⟩
  | cons a is ih =>
    rw [List.length_cons, Nat.succ_mul] at hs ⊢
    obtain ⟨hok, husage⟩ := hg acc.2.2 a (by omega)
    have hval := fillStep_of_true (g := g) hacc a
    have hsize : size (fillStep g acc a).2.2 + c = size acc.2.2 := by rw [hval]; exact husage
    obtain ⟨hfill, hrest⟩ := ih (fillStep g acc a) (by rw [hval]; exact hok) (by omega)
    refine ⟨hfill, ?_⟩
    show size (fill g is (fillStep g acc a)).2.2 + _ = _
    omega

end XenVmi.Lib
