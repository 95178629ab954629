import Mathlib.Logic.Equiv.Basic
import Mathlib.Order.Lattice
import Mathlib.Order.Defs.LinearOrder
import Mathlib.Tactic.ByContra

/-!
# Binary heaps with back references

A heap in cells `1, …, n` of an array. Every element knows its cell, so that it can be taken out
from anywhere. The element on its way is in no cell; the proofs look at the array with this element
put into the free cell, where one round of a loop exchanges two cells.
-/

namespace XenVmi.Lib

open Function

universe u v

structure Cells (α : Type u) where
  heap : ℕ → α
  offset : α → ℕ

namespace Cells

variable {α : Type u} {κ : Type v} [DecidableEq α] [LinearOrder κ] (key : α → κ)

def put (c : Cells α) (i : ℕ) (x : α) : Cells α where
  heap := update c.heap i x
  offset := update c.offset x i

def raiseLoop (x : α) : ℕ → ℕ → Cells α → Cells α
  | 0, i, c => c.put i x
  | fuel + 1, i, c =>
    if 1 < i ∧ key x < key (c.heap (i / 2)) then
      raiseLoop x fuel (i / 2) (c.put i (c.heap (i / 2)))
    else c.put i x

def raise (c : Cells α) (i : ℕ) : Cells α := raiseLoop key (c.heap i) i i c

def child (n i : ℕ) (c : Cells α) : ℕ :=
  if 2 * i + 1 ≤ n ∧ key (c.heap (2 * i + 1)) < key (c.heap (2 * i)) then 2 * i + 1 else 2 * i

def sinkLoop (n : ℕ) (x : α) : ℕ → ℕ → Cells α → Cells α
  | 0, i, c => c.put i x
  | fuel + 1, i, c =>
    if 2 * i ≤ n then
      if key x < key (c.heap (child key n i c)) then c.put i x
      else sinkLoop n x fuel (child key n i c) (c.put i (c.heap (child key n i c)))
    else c.put i x

/-- A child has a larger number than its parent, so `n` rounds are enough. -/
def sink (c : Cells α) (n i : ℕ) : Cells α := sinkLoop key n (c.heap i) n i c

def insert (c : Cells α) (n : ℕ) (x : α) : Cells α := (c.put (n + 1) x).raise key (n + 1)

def remove (c : Cells α) (n i : ℕ) : Cells α :=
  if i = n then c
  else
    let c := c.put i (c.heap n)
    if 1 < i ∧ key (c.heap i) < key (c.heap (i / 2)) then c.raise key i else c.sink key (n - 1) i

/-! ## Elements and back references -/

variable {key} {c c' c'' : Cells α} {x y : α} {n i j fuel : ℕ}

def Mem (c : Cells α) (n : ℕ) (x : α) : Prop := ∃ i, 1 ≤ i ∧ i ≤ n ∧ c.heap i = x

omit [DecidableEq α] in
theorem mem_congr (h : ∀ i, 1 ≤ i → i ≤ n → c'.heap i = c.heap i) : c'.Mem n x ↔ c.Mem n x := by
  constructor
  · rintro ⟨i, hi, hin, rfl⟩
    exact ⟨i, hi, hin, (h i hi hin).symm⟩
  · rintro ⟨i, hi, hin, rfl⟩
    exact ⟨i, hi, hin, h i hi hin⟩

def Indexed (c : Cells α) (n : ℕ) : Prop := ∀ i, 1 ≤ i → i ≤ n → c.offset (c.heap i) = i

omit [DecidableEq α] in
theorem Indexed.offset_of_mem (h : Indexed c n) (hx : c.Mem n x) :
    1 ≤ c.offset x ∧ c.offset x ≤ n ∧ c.heap (c.offset x) = x := by
  obtain ⟨i, hi, hin, rfl⟩ := hx
  rw [h i hi hin]
  exact ⟨hi, hin, rfl⟩

/-- The same elements in other cells, with right back references. Nothing else changed. -/
structure Rearranged (c c' : Cells α) (n : ℕ) : Prop where
  indexed : Indexed c' n
  mem : ∀ x, c'.Mem n x ↔ c.Mem n x
  heap : ∀ i, n < i → c'.heap i = c.heap i
  offset : ∀ x, ¬ c.Mem n x → c'.offset x = c.offset x

omit [DecidableEq α] in
theorem Rearranged.refl (h : Indexed c n) : Rearranged c c n :=
  ⟨h, fun _ => Iff.rfl, fun _ _ => rfl, fun _ _ => rfl⟩

omit [DecidableEq α] in
theorem Rearranged.trans (h : Rearranged c c' n) (h' : Rearranged c' c'' n) :
    Rearranged c c'' n where
  indexed := h'.indexed
  mem x := (h'.mem x).trans (h.mem x)
  heap i hi := (h'.heap i hi).trans (h.heap i hi)
  offset x hx := (h'.offset x fun hx' => hx ((h.mem x).1 hx')).trans (h.offset x hx)

theorem rearranged_exchange (h : Indexed (c.put i x) n) (hi : 1 ≤ i ∧ i ≤ n) (hj : 1 ≤ j ∧ j ≤ n)
    (hne : j ≠ i) : Rearranged (c.put i x) ((c.put i (c.heap j)).put j x) n ∧
      ((c.put i (c.heap j)).put j x).heap = (c.put i x).heap ∘ Equiv.swap i j := by
  have hheap : ((c.put i (c.heap j)).put j x).heap = (c.put i x).heap ∘ Equiv.swap i j := by
    funext k
    simp only [put, comp_apply, update_apply, Equiv.swap_apply_def]
    by_cases hki : k = i
    · simp [hki, hne, hne.symm]
    · by_cases hkj : k = j <;> simp [hki, hkj]
  have hat : ∀ k, 1 ≤ k → k ≤ n → k ≠ i → c.heap k ≠ x ∧ c.offset (c.heap k) = k := by
    intro k hk hkn hki
    have hidx := h k hk hkn
    simp only [put, update_of_ne hki] at hidx
    by_cases hx : c.heap k = x
    · rw [hx, update_self] at hidx
      exact absurd hidx.symm hki
    · rw [update_of_ne hx] at hidx
      exact ⟨hx, hidx⟩
  have hswap : ∀ k, 1 ≤ k → k ≤ n → 1 ≤ Equiv.swap i j k ∧ Equiv.swap i j k ≤ n := by
    intro k hk hkn
    rw [Equiv.swap_apply_def]
    split
    · exact hj
    · split
      · exact hi
      · exact ⟨hk, hkn⟩
  refine ⟨⟨fun k hk hkn => ?_, fun z => ⟨?_, ?_⟩, fun k hk => ?_, fun z hz => ?_⟩, hheap⟩
  · simp only [put, update_apply]
    by_cases hkj : k = j
    · simp [hkj]
    by_cases hki : k = i
    · have := hat j hj.1 hj.2 hne
      simp [hki, hne.symm, this.1]
    · have hk' := hat k hk hkn hki
      have hj' := hat j hj.1 hj.2 hne
      have hkj' : c.heap k ≠ c.heap j := fun heq => hkj (by rw [← hk'.2, heq, hj'.2])
      simp [hkj, hki, hk'.1, hkj', hk'.2]
  · rintro ⟨k, hk, hkn, rfl⟩
    rw [hheap]
    exact ⟨_, (hswap k hk hkn).1, (hswap k hk hkn).2, rfl⟩
  · rintro ⟨k, hk, hkn, rfl⟩
    refine ⟨Equiv.swap i j k, (hswap k hk hkn).1, (hswap k hk hkn).2, ?_⟩
    rw [hheap, comp_apply, Equiv.swap_apply_self]
  · rw [hheap, comp_apply, Equiv.swap_apply_of_ne_of_ne (by omega) (by omega)]
  · have hzx : z ≠ x := by
      rintro rfl
      exact hz ⟨i, hi.1, hi.2, update_self _ _ _⟩
    have hzj : z ≠ c.heap j := by
      rintro rfl
      exact hz ⟨j, hj.1, hj.2, update_of_ne hne _ _⟩
    simp [put, hzx, hzj]

/-! ## The order of the keys -/

def Ordered (h : ℕ → κ) (n : ℕ) : Prop := ∀ j, 2 ≤ j → j ≤ n → h (j / 2) ≤ h j

/-- The key of cell `i` may be smaller than that of its parent. -/
structure RaiseOrder (h : ℕ → κ) (n i : ℕ) : Prop where
  others : ∀ j, 2 ≤ j → j ≤ n → j ≠ i → h (j / 2) ≤ h j
  around : ∀ j, j ≤ n → j / 2 = i → 2 ≤ i → h (i / 2) ≤ h j

/-- The key of cell `i` may be larger than those of its children. -/
structure SinkOrder (h : ℕ → κ) (n i : ℕ) : Prop where
  others : ∀ j, 2 ≤ j → j ≤ n → j / 2 ≠ i → h (j / 2) ≤ h j
  around : ∀ j, j ≤ n → j / 2 = i → 2 ≤ i → h (i / 2) ≤ h j

section Order

variable {h : ℕ → κ}

theorem Ordered.root_le (ho : Ordered h n) (hi : 1 ≤ i) (hin : i ≤ n) : h 1 ≤ h i := by
  induction i using Nat.strong_induction_on with
  | _ i ih =>
    by_cases h1 : i = 1
    · rw [h1]
    · exact (ih (i / 2) (by omega) (by omega) (by omega)).trans (ho i (by omega) hin)

theorem RaiseOrder.finish (ho : RaiseOrder h n i) (hi : ¬ (1 < i ∧ h i < h (i / 2))) :
    Ordered h n := by
  intro j hj hjn
  by_cases hji : j = i
  · subst j
    exact le_of_not_gt fun hlt => hi ⟨by omega, hlt⟩
  · exact ho.others j hj hjn hji

theorem RaiseOrder.exchange (ho : RaiseOrder h n i) (hi : 1 < i) (hin : i ≤ n)
    (hlt : h i < h (i / 2)) :
    RaiseOrder (h ∘ Equiv.swap i (i / 2)) n (i / 2) := by
  have hhalf : i / 2 ≠ i := by omega
  have hother : ∀ k, k ≠ i → k ≠ i / 2 → (h ∘ Equiv.swap i (i / 2)) k = h k := fun k hk hk' => by
    rw [comp_apply, Equiv.swap_apply_of_ne_of_ne hk hk']
  have hself : (h ∘ Equiv.swap i (i / 2)) i = h (i / 2) := by
    rw [comp_apply, Equiv.swap_apply_left]
  have hparent : (h ∘ Equiv.swap i (i / 2)) (i / 2) = h i := by
    rw [comp_apply, Equiv.swap_apply_right]
  refine ⟨fun j hj hjn hne => ?_, fun j hjn hji h2 => ?_⟩
  · by_cases hji : j = i
    · rw [hji, hself, hparent]
      exact hlt.le
    rw [hother j hji hne]
    by_cases hchild : j / 2 = i
    · rw [hchild, hself]
      exact ho.around j hjn hchild hi
    by_cases hsibling : j / 2 = i / 2
    · rw [hsibling, hparent]
      exact hlt.le.trans (hsibling ▸ ho.others j hj hjn hji)
    · rw [hother _ hchild hsibling]
      exact ho.others j hj hjn hji
  · have hgrand : h (i / 2 / 2) ≤ h (i / 2) := ho.others (i / 2) h2 (by omega) hhalf
    rw [hother _ (by omega) (by omega)]
    by_cases hj : j = i
    · rw [hj, hself]
      exact hgrand
    · rw [hother j hj (by omega)]
      exact hgrand.trans (hji ▸ ho.others j (by omega) hjn hj)

theorem SinkOrder.finish (ho : SinkOrder h n i) (hi : ∀ j, j ≤ n → j / 2 = i → h i ≤ h j) :
    Ordered h n := by
  intro j hj hjn
  by_cases hji : j / 2 = i
  · rw [hji]
    exact hi j hjn hji
  · exact ho.others j hj hjn hji

theorem SinkOrder.exchange (ho : SinkOrder h n i) (hi : 1 ≤ i) (hj : j / 2 = i) (hjn : j ≤ n)
    (hle : h j ≤ h i) (hmin : ∀ k, k ≤ n → k / 2 = i → h j ≤ h k) :
    SinkOrder (h ∘ Equiv.swap i j) n j := by
  have hne : j ≠ i := by omega
  have hother : ∀ k, k ≠ i → k ≠ j → (h ∘ Equiv.swap i j) k = h k := fun k hk hk' => by
    rw [comp_apply, Equiv.swap_apply_of_ne_of_ne hk hk']
  have hself : (h ∘ Equiv.swap i j) i = h j := by
    rw [comp_apply, Equiv.swap_apply_left]
  have hchild : (h ∘ Equiv.swap i j) j = h i := by
    rw [comp_apply, Equiv.swap_apply_right]
  refine ⟨fun k hk hkn hkj => ?_, fun k hkn hkj _ => ?_⟩
  · by_cases hkj' : k = j
    · rw [hkj', hj, hself, hchild]
      exact hle
    by_cases hki : k / 2 = i
    · rw [hki, hself, hother k (by omega) hkj']
      exact hmin k hkn hki
    rw [hother (k / 2) hki hkj]
    by_cases hk' : k = i
    · rw [hk', hself]
      exact ho.around j hjn hj (by omega)
    · rw [hother k hk' hkj']
      exact ho.others k hk hkn hki
  · rw [hj, hself, hother k (by omega) (by omega)]
    exact hkj ▸ ho.others k (by omega) hkn (by omega)

end Order

/-! ## The loops -/

theorem raiseLoop_spec (hx : Indexed (c.put i x) n) (hi : 1 ≤ i ∧ i ≤ n) (hf : i ≤ fuel)
    (ho : RaiseOrder (key ∘ (c.put i x).heap) n i) :
    Rearranged (c.put i x) (raiseLoop key x fuel i c) n ∧
      Ordered (key ∘ (raiseLoop key x fuel i c).heap) n := by
  induction fuel generalizing i c with
  | zero => omega
  | succ fuel ih =>
    have hself : (key ∘ (c.put i x).heap) i = key x := congrArg key (update_self _ _ _)
    have hparent : 1 < i → (key ∘ (c.put i x).heap) (i / 2) = key (c.heap (i / 2)) := fun h1 =>
      congrArg key (update_of_ne (by omega) _ _)
    rw [raiseLoop]
    split
    · rename_i hlt
      obtain ⟨hre, hheap⟩ := rearranged_exchange (j := i / 2) hx hi (by omega) (by omega)
      have ho' := ho.exchange hlt.1 hi.2 (by rw [hself, hparent hlt.1]; exact hlt.2)
      rw [comp_assoc, ← hheap] at ho'
      obtain ⟨hre', hord⟩ := ih hre.indexed (by omega) (by omega) ho'
      exact ⟨hre.trans hre', hord⟩
    · rename_i hlt
      refine ⟨.refl hx, ho.finish fun h => hlt ⟨h.1, ?_⟩⟩
      rw [← hself, ← hparent h.1]
      exact h.2

omit [DecidableEq α] in
theorem child_spec (key : α → κ) (c : Cells α) (hn : 2 * i ≤ n) :
    child key n i c / 2 = i ∧ child key n i c ≤ n ∧
      ∀ k, k ≤ n → k / 2 = i → key (c.heap (child key n i c)) ≤ key (c.heap k) := by
  unfold child
  split
  · rename_i hlt
    refine ⟨by omega, hlt.1, fun k hk hki => ?_⟩
    obtain rfl | rfl : k = 2 * i ∨ k = 2 * i + 1 := by omega
    · exact hlt.2.le
    · exact le_rfl
  · rename_i hlt
    refine ⟨by omega, hn, fun k hk hki => ?_⟩
    obtain rfl | rfl : k = 2 * i ∨ k = 2 * i + 1 := by omega
    · exact le_rfl
    · exact le_of_not_gt fun h => hlt ⟨hk, h⟩

theorem sinkLoop_spec (fuel : ℕ) (hx : Indexed (c.put i x) n) (hi : 1 ≤ i ∧ i ≤ n)
    (hf : n < i + fuel) (ho : SinkOrder (key ∘ (c.put i x).heap) n i) :
    Rearranged (c.put i x) (sinkLoop key n x fuel i c) n ∧
      Ordered (key ∘ (sinkLoop key n x fuel i c).heap) n := by
  induction fuel generalizing i c with
  | zero => omega
  | succ fuel ih =>
    have hself : (key ∘ (c.put i x).heap) i = key x := congrArg key (update_self _ _ _)
    have hother : ∀ k, k ≠ i → (key ∘ (c.put i x).heap) k = key (c.heap k) := fun k hk =>
      congrArg key (update_of_ne hk _ _)
    rw [sinkLoop]
    split
    · rename_i hn
      obtain ⟨hchild, hchildn, hmin⟩ := child_spec key c hn
      generalize child key n i c = j at hchild hchildn hmin ⊢
      have hmin' : ∀ k, k ≤ n → k / 2 = i →
          (key ∘ (c.put i x).heap) j ≤ (key ∘ (c.put i x).heap) k := fun k hk hki => by
        rw [hother j (by omega), hother k (by omega)]
        exact hmin k hk hki
      split
      · rename_i hlt
        refine ⟨.refl hx, ho.finish fun k hk hki => ?_⟩
        refine le_trans ?_ (hmin' k hk hki)
        rw [hself, hother j (by omega)]
        exact hlt.le
      rename_i hlt
      obtain ⟨hre, hheap⟩ := rearranged_exchange (j := j) hx hi (by omega) (by omega)
      have ho' := ho.exchange hi.1 hchild hchildn
        (by rw [hself, hother j (by omega)]; exact le_of_not_gt hlt) hmin'
      rw [comp_assoc, ← hheap] at ho'
      obtain ⟨hre', hord⟩ := ih hre.indexed (by omega) (by omega) ho'
      exact ⟨hre.trans hre', hord⟩
    · exact ⟨.refl hx, ho.finish fun k hk hki => by omega⟩

theorem put_self (h : c.offset (c.heap i) = i) : c.put i (c.heap i) = c := by
  unfold put
  rw [update_eq_self]
  congr
  exact (update_eq_self_iff).2 h.symm

theorem raise_spec (h : Indexed c n) (hi : 1 ≤ i ∧ i ≤ n) (ho : RaiseOrder (key ∘ c.heap) n i) :
    Rearranged c (c.raise key i) n ∧ Ordered (key ∘ (c.raise key i).heap) n := by
  have hput := put_self (h i hi.1 hi.2)
  have := raiseLoop_spec (by rw [hput]; exact h) hi le_rfl
    (by rw [hput]; exact ho)
  rw [hput] at this
  exact this

theorem sink_spec (h : Indexed c n) (hi : 1 ≤ i ∧ i ≤ n) (ho : SinkOrder (key ∘ c.heap) n i) :
    Rearranged c (c.sink key n i) n ∧ Ordered (key ∘ (c.sink key n i).heap) n := by
  have hput := put_self (h i hi.1 hi.2)
  have := sinkLoop_spec n (by rw [hput]; exact h) hi (by omega)
    (by rw [hput]; exact ho)
  rw [hput] at this
  exact this

/-! ## Heaps -/

structure Heap (key : α → κ) (c : Cells α) (n : ℕ) : Prop where
  indexed : Indexed c n
  ordered : Ordered (key ∘ c.heap) n

omit [DecidableEq α] in
theorem not_mem_zero : ¬ c.Mem 0 x := by
  rintro ⟨i, hi, hin, -⟩
  omega

omit [DecidableEq α] in
theorem Heap.zero : Heap key c 0 :=
  ⟨fun i hi hin => absurd (hi.trans hin) (by decide), fun i hi hin =>
    absurd (hi.trans hin) (by decide)⟩

omit [DecidableEq α] in
theorem Heap.congr {key' : α → κ} (h : Heap key c n)
    (hheap : ∀ i, 1 ≤ i → i ≤ n → c'.heap i = c.heap i)
    (hoffset : ∀ x, c.Mem n x → c'.offset x = c.offset x) (hkey : ∀ x, c.Mem n x → key' x = key x) :
    Heap key' c' n := by
  have hcell : ∀ i, 1 ≤ i → i ≤ n → c.Mem n (c.heap i) := fun i hi hin => ⟨i, hi, hin, rfl⟩
  refine ⟨fun i hi hin => ?_, fun i hi hin => ?_⟩
  · rw [hheap i hi hin, hoffset _ (hcell i hi hin)]
    exact h.indexed i hi hin
  · rw [comp_apply, comp_apply, hheap i (by omega) hin,
      hheap (i / 2) (by omega) (by omega), hkey _ (hcell i (by omega) hin),
      hkey _ (hcell (i / 2) (by omega) (by omega))]
    exact h.ordered i hi hin

omit [DecidableEq α] in
theorem Heap.root_le (h : Heap key c n) (hx : c.Mem n x) : key (c.heap 1) ≤ key x := by
  obtain ⟨i, hi, hin, rfl⟩ := hx
  exact h.ordered.root_le hi hin

theorem Heap.insert (h : Heap key c n) (hx : ¬ c.Mem n x) :
    Heap key (c.insert key n x) (n + 1) ∧
      (∀ y, (c.insert key n x).Mem (n + 1) y ↔ y = x ∨ c.Mem n y) ∧
      ∀ y, y ≠ x → ¬ c.Mem n y → (c.insert key n x).offset y = c.offset y := by
  have hself : (c.put (n + 1) x).heap (n + 1) = x := update_self _ _ _
  have hother : ∀ i, i ≠ n + 1 → (c.put (n + 1) x).heap i = c.heap i := fun i hi =>
    update_of_ne hi _ _
  have hindexed : Indexed (c.put (n + 1) x) (n + 1) := by
    intro i hi hin
    by_cases heq : i = n + 1
    · rw [heq, hself]
      exact update_self _ _ _
    · rw [hother i heq]
      refine (update_of_ne (fun hxi => hx ⟨i, hi, by omega, hxi⟩) _ _).trans ?_
      exact h.indexed i hi (by omega)
  have hmem : ∀ y, (c.put (n + 1) x).Mem (n + 1) y ↔ y = x ∨ c.Mem n y := by
    intro y
    constructor
    · rintro ⟨i, hi, hin, rfl⟩
      by_cases heq : i = n + 1
      · exact .inl (heq ▸ hself)
      · exact .inr ⟨i, hi, by omega, (hother i heq).symm⟩
    · rintro (rfl | ⟨i, hi, hin, rfl⟩)
      · exact ⟨n + 1, by omega, le_rfl, hself⟩
      · exact ⟨i, hi, by omega, hother i (by omega)⟩
  have horder : RaiseOrder (key ∘ (c.put (n + 1) x).heap) (n + 1) (n + 1) := by
    refine ⟨fun j hj hjn hne => ?_, fun j hjn hji _ => by omega⟩
    rw [comp_apply, comp_apply, hother j hne, hother (j / 2) (by omega)]
    exact h.ordered j hj (by omega)
  obtain ⟨hre, hord⟩ := raise_spec hindexed (by omega) horder
  refine ⟨⟨hre.indexed, hord⟩, fun y => (hre.mem y).trans (hmem y), fun y hy hym => ?_⟩
  refine (hre.offset y fun hy' => ?_).trans (update_of_ne hy _ _)
  exact ((hmem y).1 hy').elim hy hym

theorem Heap.remove (h : Heap key c n) (hi : 1 ≤ i ∧ i ≤ n) :
    Heap key (c.remove key n i) (n - 1) ∧
      (∀ y, (c.remove key n i).Mem (n - 1) y ↔ y ≠ c.heap i ∧ c.Mem n y) ∧
      ∀ y, ¬ c.Mem n y → (c.remove key n i).offset y = c.offset y := by
  -- an element is in one cell only
  have hinj : ∀ j, 1 ≤ j → j ≤ n → c.heap j = c.heap i → j = i := fun j hj hjn heq => by
    rw [← h.indexed j hj hjn, heq, h.indexed i hi.1 hi.2]
  unfold Cells.remove
  split
  · subst i
    refine ⟨⟨fun j hj hjn => h.indexed j hj (by omega), fun j hj hjn => h.ordered j hj (by omega)⟩,
      fun y => ⟨?_, ?_⟩, fun _ _ => rfl⟩
    · rintro ⟨j, hj, hjn, rfl⟩
      exact ⟨fun heq => absurd (hinj j hj (by omega) heq) (by omega), j, hj, by omega, rfl⟩
    · rintro ⟨hne, j, hj, hjn, rfl⟩
      have hjn' : j ≠ n := fun heq => hne (by rw [heq])
      exact ⟨j, hj, by omega, rfl⟩
  · rename_i hlast
    have hself : (c.put i (c.heap n)).heap i = c.heap n := update_self _ _ _
    have hother : ∀ j, j ≠ i → (c.put i (c.heap n)).heap j = c.heap j := fun j hj =>
      update_of_ne hj _ _
    have hindexed : Indexed (c.put i (c.heap n)) (n - 1) := by
      intro j hj hjn
      by_cases hji : j = i
      · rw [hji, hself]
        exact update_self _ _ _
      rw [hother j hji]
      have hne : c.heap j ≠ c.heap n := fun heq => by
        have := h.indexed j hj (by omega)
        rw [heq, h.indexed n (by omega) le_rfl] at this
        omega
      exact (update_of_ne hne _ _).trans (h.indexed j hj (by omega))
    have hmem : ∀ y, (c.put i (c.heap n)).Mem (n - 1) y ↔ y ≠ c.heap i ∧ c.Mem n y := by
      intro y
      constructor
      · rintro ⟨j, hj, hjn, rfl⟩
        by_cases hji : j = i
        · rw [hji, hself]
          exact ⟨fun heq => hlast (hinj n (by omega) le_rfl heq).symm, n, by omega, le_rfl, rfl⟩
        · rw [hother j hji]
          exact ⟨fun heq => hji (hinj j hj (by omega) heq), j, hj, by omega, rfl⟩
      · rintro ⟨hne, j, hj, hjn, rfl⟩
        have hji : j ≠ i := fun heq => hne (by rw [heq])
        by_cases hjlast : j = n
        · exact ⟨i, hi.1, by omega, by rw [hself, hjlast]⟩
        · exact ⟨j, hj, by omega, hother j hji⟩
    have hframe : ∀ y, ¬ c.Mem n y → (c.put i (c.heap n)).offset y = c.offset y := fun y hy =>
      update_of_ne (fun heq => hy ⟨n, by omega, le_rfl, heq.symm⟩) _ _
    have hkeys : ∀ j, j ≠ i → (key ∘ (c.put i (c.heap n)).heap) j = (key ∘ c.heap) j := fun j hj =>
      congrArg key (hother j hj)
    -- the children of the cell stay behind its parent
    have haround : ∀ j, j ≤ n - 1 → j / 2 = i → 2 ≤ i →
        (key ∘ (c.put i (c.heap n)).heap) (i / 2) ≤ (key ∘ (c.put i (c.heap n)).heap) j := by
      intro j hjn hji h2
      rw [hkeys j (by omega), hkeys (i / 2) (by omega)]
      exact (h.ordered i h2 hi.2).trans (hji ▸ h.ordered j (by omega) (by omega))
    have done : ∀ c' : Cells α, Rearranged (c.put i (c.heap n)) c' (n - 1) ∧
        Ordered (key ∘ c'.heap) (n - 1) → Heap key c' (n - 1) ∧
        (∀ y, c'.Mem (n - 1) y ↔ y ≠ c.heap i ∧ c.Mem n y) ∧
        ∀ y, ¬ c.Mem n y → c'.offset y = c.offset y := fun c' hc' =>
      ⟨⟨hc'.1.indexed, hc'.2⟩, fun y => (hc'.1.mem y).trans (hmem y), fun y hy =>
        (hc'.1.offset y fun hy' => hy ((hmem y).1 hy').2).trans (hframe y hy)⟩
    dsimp only
    split
    · rename_i hlt
      refine done _ (raise_spec hindexed (by omega) ⟨fun j hj hjn hne => ?_, haround⟩)
      by_cases hchild : j / 2 = i
      · rw [hchild]
        exact hlt.2.le.trans (haround j hjn hchild hlt.1)
      · rw [hkeys j hne, hkeys _ hchild]
        exact h.ordered j hj (by omega)
    rename_i hlt
    refine done _ (sink_spec hindexed (by omega) ⟨fun j hj hjn hne => ?_, haround⟩)
    by_cases hji : j = i
    · rw [hji]
      exact le_of_not_gt fun h => hlt ⟨by omega, h⟩
    · rw [hkeys j hji, hkeys _ hne]
      exact h.ordered j hj (by omega)

end Cells

end XenVmi.Lib
