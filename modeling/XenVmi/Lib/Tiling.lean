import Mathlib.Data.Set.Card
import Mathlib.Data.Nat.Bitwise
import Mathlib.Order.Interval.Finset.Nat
import Mathlib.Tactic.Linarith
import Mathlib.Tactic.Ring
import Mathlib.Order.CompletePartialOrder

/-!
# Blocks of `2 ^ k` cells

A block `(b, k)` has the `2 ^ k` cells from `b`. A set of blocks *tiles* a set of cells when every
cell of the set lies in exactly one block, and no block has other cells.
-/

namespace XenVmi.Lib

def cells (t : Nat × Nat) : Set Nat := {x | t.1 ≤ x ∧ x < t.1 + 2 ^ t.2}

theorem mem_cells {b k x : Nat} : x ∈ cells (b, k) ↔ b ≤ x ∧ x < b + 2 ^ k := Iff.rfl

theorem self_mem_cells (b k : Nat) : b ∈ cells (b, k) :=
  ⟨le_rfl, Nat.lt_add_of_pos_right (Nat.two_pow_pos k)⟩

theorem cells_eq_Ico (t : Nat × Nat) : cells t = ↑(Finset.Ico t.1 (t.1 + 2 ^ t.2)) := by
  ext x
  simp only [cells, Finset.coe_Ico, Set.mem_Ico, Set.mem_ofPred_eq]

theorem finite_cells (t : Nat × Nat) : (cells t).Finite := by
  rw [cells_eq_Ico]
  exact Finset.finite_toSet _

theorem ncard_cells (t : Nat × Nat) : (cells t).ncard = 2 ^ t.2 := by
  rw [cells_eq_Ico, Set.ncard_coe_finset, Nat.card_Ico, Nat.add_sub_cancel_left]

theorem cells_zero (b : Nat) : cells (b, 0) = {b} := by
  ext x
  rw [mem_cells, Set.mem_singleton_iff]
  omega

theorem cells_succ (b k : Nat) : cells (b, k + 1) = cells (b, k) ∪ cells (b + 2 ^ k, k) := by
  ext x
  have hpow : 2 ^ (k + 1) = 2 ^ k + 2 ^ k := by rw [Nat.pow_succ, Nat.mul_two]
  simp only [cells, Set.mem_union, Set.mem_ofPred_eq, hpow]
  omega

theorem disjoint_halves (b k : Nat) : Disjoint (cells (b, k)) (cells (b + 2 ^ k, k)) := by
  rw [Set.disjoint_left]
  intro x hx hx'
  simp only [cells, Set.mem_ofPred_eq] at hx hx'
  omega

/-- Every cell of `F` is in exactly one block, and blocks have no other cells. -/
structure Tiles (B : Set (Nat × Nat)) (F : Set Nat) : Prop where
  sub : ∀ t ∈ B, cells t ⊆ F
  cover : ∀ x ∈ F, ∃ t ∈ B, x ∈ cells t
  unique : ∀ t ∈ B, ∀ t' ∈ B, ∀ x, x ∈ cells t → x ∈ cells t' → t = t'

section Tiles

variable {B : Set (Nat × Nat)} {F : Set Nat} {t : Nat × Nat}

theorem Tiles.erase (h : Tiles B F) (ht : t ∈ B) : Tiles (B \ {t}) (F \ cells t) where
  sub t' ht' x hx := ⟨h.sub t' ht'.1 hx, fun hxt => ht'.2 (h.unique t' ht'.1 t ht x hx hxt)⟩
  cover x hx := by
    obtain ⟨t', ht', hxt'⟩ := h.cover x hx.1
    exact ⟨t', ⟨ht', fun he => hx.2 (he ▸ hxt')⟩, hxt'⟩
  unique t₁ h₁ t₂ h₂ := h.unique t₁ h₁.1 t₂ h₂.1

theorem Tiles.insert (h : Tiles B F) (hd : Disjoint (cells t) F) :
    Tiles (insert t B) (F ∪ cells t) := by
  have hout : ∀ t' ∈ B, ∀ x, x ∈ cells t' → x ∉ cells t := fun t' ht' x hx hxt =>
    Set.disjoint_left.1 hd hxt (h.sub t' ht' hx)
  refine ⟨fun t' ht' x hx => ?_, fun x hx => ?_, fun t₁ h₁ t₂ h₂ x hx₁ hx₂ => ?_⟩
  · rcases ht' with rfl | ht'
    · exact .inr hx
    · exact .inl (h.sub t' ht' hx)
  · rcases hx with hx | hx
    · obtain ⟨t', ht', hxt'⟩ := h.cover x hx
      exact ⟨t', .inr ht', hxt'⟩
    · exact ⟨t, .inl rfl, hx⟩
  · rcases h₁ with rfl | h₁ <;> rcases h₂ with rfl | h₂
    · rfl
    · exact absurd hx₁ (hout t₂ h₂ x hx₂)
    · exact absurd hx₂ (hout t₁ h₁ x hx₁)
    · exact h.unique t₁ h₁ t₂ h₂ x hx₁ hx₂

end Tiles

/-! ## Buddies -/

def Aligned (t : Nat × Nat) : Prop := 2 ^ t.2 ∣ t.1

instance (t : Nat × Nat) : Decidable (Aligned t) := inferInstanceAs (Decidable (_ ∣ _))

/-- The first cell of the block next to `t` with which it makes up a larger block. -/
def buddy (t : Nat × Nat) : Nat := if t.1.testBit t.2 then t.1 - 2 ^ t.2 else t.1 + 2 ^ t.2

def parent (t : Nat × Nat) : Nat × Nat := (min t.1 (buddy t), t.2 + 1)

section Buddy

variable {b k : Nat} {t t' : Nat × Nat}

theorem two_pow_le_of_testBit (h : b.testBit k = true) : 2 ^ k ≤ b := Nat.ge_two_pow_of_testBit h

theorem cells_parent (t : Nat × Nat) : cells (parent t) = cells t ∪ cells (buddy t, t.2) := by
  obtain ⟨b, k⟩ := t
  unfold parent buddy
  split
  · rename_i hbit
    have hle := two_pow_le_of_testBit hbit
    rw [Nat.min_eq_right (Nat.sub_le b _), cells_succ, Nat.sub_add_cancel hle, Set.union_comm]
  · rw [Nat.min_eq_left (Nat.le_add_right b _), cells_succ]

theorem disjoint_buddy (t : Nat × Nat) : Disjoint (cells t) (cells (buddy t, t.2)) := by
  obtain ⟨b, k⟩ := t
  unfold buddy
  split
  · rename_i hbit
    have hd := disjoint_halves (b - 2 ^ k) k
    rw [Nat.sub_add_cancel (two_pow_le_of_testBit hbit)] at hd
    exact hd.symm
  · exact disjoint_halves b k

theorem aligned_cases (h : Aligned (b, k)) :
    (∃ c, b = c * 2 ^ (k + 1) ∧ b.testBit k = false) ∨
      ∃ c, b = c * 2 ^ (k + 1) + 2 ^ k ∧ b.testBit k = true := by
  obtain ⟨q, hq⟩ : ∃ q, b = 2 ^ k * q := h
  have hbit : b.testBit k = decide (q % 2 = 1) := by
    rw [Nat.testBit_eq_decide_div_mod_eq, hq, Nat.mul_div_cancel_left _ (Nat.two_pow_pos k)]
  have hpow : 2 ^ (k + 1) = 2 ^ k * 2 := Nat.pow_succ ..
  rcases Nat.mod_two_eq_zero_or_one q with h0 | h1
  · left
    refine ⟨q / 2, ?_, by rw [hbit, h0]; rfl⟩
    have : q = 2 * (q / 2) := by omega
    calc b = 2 ^ k * (2 * (q / 2)) := by rw [← this, hq]
      _ = q / 2 * 2 ^ (k + 1) := by ring
  · right
    refine ⟨q / 2, ?_, by rw [hbit, h1]; rfl⟩
    have : q = 2 * (q / 2) + 1 := by omega
    calc b = 2 ^ k * (2 * (q / 2) + 1) := by rw [← this, hq]
      _ = q / 2 * 2 ^ (k + 1) + 2 ^ k := by ring

theorem aligned_parent (h : Aligned t) : Aligned (parent t) := by
  obtain ⟨b, k⟩ := t
  unfold parent buddy Aligned
  rcases aligned_cases h with ⟨c, hc, hbit⟩ | ⟨c, hc, hbit⟩
  · rw [hbit, if_neg Bool.false_ne_true, Nat.min_eq_left (Nat.le_add_right b _), hc]
    exact Nat.dvd_mul_left _ _
  · rw [hbit, if_pos rfl, Nat.min_eq_right (Nat.sub_le b _), hc, Nat.add_sub_cancel]
    exact Nat.dvd_mul_left _ _

theorem aligned_buddy (h : Aligned t) : Aligned (buddy t, t.2) := by
  obtain ⟨b, k⟩ := t
  unfold buddy Aligned
  split
  · exact Nat.dvd_sub h (Nat.dvd_refl _)
  · exact Nat.dvd_add h (Nat.dvd_refl _)

theorem buddy_buddy (h : Aligned t) : buddy (buddy t, t.2) = t.1 := by
  obtain ⟨b, k⟩ := t
  have hself := aligned_cases h
  have hother := aligned_cases (aligned_buddy h)
  have hpos := Nat.two_pow_pos k
  have hpow : 2 ^ (k + 1) = 2 * 2 ^ k := by rw [Nat.pow_succ, Nat.mul_comm]
  unfold buddy at hother ⊢
  -- the two bits differ: otherwise an odd multiple of `2 ^ k` would be an even one
  rcases hself with ⟨c, hc, hbit⟩ | ⟨c, hc, hbit⟩
  · rw [hbit, if_neg Bool.false_ne_true] at hother ⊢
    rcases hother with ⟨d, hd, -⟩ | ⟨d, hd, hbit'⟩
    · rw [hc, hpow] at hd
      have : (2 * c + 1) * 2 ^ k = (2 * d) * 2 ^ k := by linarith
      have := Nat.eq_of_mul_eq_mul_right hpos this
      omega
    · rw [hbit', if_pos rfl, Nat.add_sub_cancel]
  have hle := two_pow_le_of_testBit hbit
  rw [hbit, if_pos rfl] at hother ⊢
  rcases hother with ⟨d, hd, hbit'⟩ | ⟨d, hd, -⟩
  · rw [hbit', if_neg Bool.false_ne_true, Nat.sub_add_cancel hle]
  · rw [hc, Nat.add_sub_cancel, hpow] at hd
    have : (2 * c) * 2 ^ k = (2 * d + 1) * 2 ^ k := by linarith
    have := Nat.eq_of_mul_eq_mul_right hpos this
    omega

theorem aligned_nested (h : Aligned t) (h' : Aligned t') (hle : t.2 ≤ t'.2) {x : Nat}
    (hx : x ∈ cells t) (hx' : x ∈ cells t') : cells t ⊆ cells t' := by
  obtain ⟨b, k⟩ := t
  obtain ⟨b', k'⟩ := t'
  obtain ⟨c, hc⟩ : ∃ c, b = 2 ^ k * c := h
  obtain ⟨d, hd⟩ : ∃ d, b' = 2 ^ k * d := (Nat.pow_dvd_pow 2 hle).trans h'
  obtain ⟨e, he⟩ : ∃ e, 2 ^ k' = 2 ^ k * e := Nat.pow_dvd_pow 2 hle
  simp only [cells, Set.mem_ofPred_eq, hc, hd, he] at hx hx' ⊢
  -- in units of `2 ^ k` the smaller block is one cell
  have hlo : d ≤ c := by
    by_contra hlt
    have : 2 ^ k * (c + 1) ≤ 2 ^ k * d := Nat.mul_le_mul_left _ (by omega)
    rw [Nat.mul_add] at this
    omega
  have hhi : c + 1 ≤ d + e := by
    by_contra hlt
    have : 2 ^ k * (d + e) ≤ 2 ^ k * c := Nat.mul_le_mul_left _ (by omega)
    rw [Nat.mul_add] at this
    omega
  have hlo' : 2 ^ k * d ≤ 2 ^ k * c := Nat.mul_le_mul_left _ hlo
  have hhi' : 2 ^ k * (c + 1) ≤ 2 ^ k * (d + e) := Nat.mul_le_mul_left _ hhi
  rw [Nat.mul_add, Nat.mul_add] at hhi'
  intro y hy
  simp only [Set.mem_ofPred_eq] at hy ⊢
  omega

theorem Tiles.head_of_buddy {B : Set (Nat × Nat)} {F : Set Nat} (h : Tiles B F)
    (hB : ∀ t ∈ B, Aligned t) (ht : Aligned t) (hd : Disjoint (cells t) F) (hF : buddy t ∈ F) :
    ∃ j ≤ t.2, (buddy t, j) ∈ B := by
  obtain ⟨t', ht', hx⟩ := h.cover _ hF
  have hself : buddy t ∈ cells (buddy t, t.2) := self_mem_cells _ _
  rcases Nat.lt_or_ge t.2 t'.2 with hlt | hge
  · -- a larger block would have the cells of `t` as well
    have hpar : buddy t ∈ cells (parent t) := by
      rw [cells_parent]
      exact .inr hself
    have hsub := aligned_nested (aligned_parent ht) (hB t' ht')
      (show t.2 + 1 ≤ t'.2 by omega) hpar hx
    have hmem : t.1 ∈ cells t' := hsub (by
      rw [cells_parent]
      exact .inl (self_mem_cells t.1 t.2))
    exact absurd (h.sub t' ht' hmem) (Set.disjoint_left.1 hd (self_mem_cells t.1 t.2))
  · refine ⟨t'.2, hge, ?_⟩
    have hsub := aligned_nested (hB t' ht') (aligned_buddy ht) hge hx hself
    have hle : buddy t ≤ t'.1 := (hsub (self_mem_cells t'.1 t'.2)).1
    have heq : buddy t = t'.1 := le_antisymm hle hx.1
    rw [heq]
    exact ht'

end Buddy

end XenVmi.Lib
