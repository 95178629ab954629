import Mathlib.Algebra.Order.Ring.Nat
import Mathlib.Data.Nat.Bitwise
import Mathlib.Data.Nat.ModEq
import Mathlib.Tactic.Common

/-!
# Bits, counters and digits of machine words

* `maskSet_eq`: a control is on when the word masked with its bit is not zero. The test is turned
into the bit itself, where `simp` knows what `|||`, `&&&` and `~~~` do.
* `counter_sub`, `counter_cell`: a counter of `w` bits that is only moved forward stands for a count
without a bound, of which it keeps the low bits. Two counters less than a full turn apart tell how
far apart they are, and a counter masked to a ring of `2 ^ k` cells tells the cell of its position.
* `Agree b g h lo hi`: the digits of `g` and `h` in base `b` are the same at the positions `lo, …,
hi - 1`, so that walks for the two keys through a radix tree take the same turns from level `hi - 1`
down to `lo`.
-/

namespace XenVmi.Lib

/-! ## One bit of a control word -/

section Words

variable {w i C p : ℕ}

def maskSet (c m : BitVec w) : Bool := decide (c &&& m ≠ 0#w)

theorem maskSet_eq (c : BitVec w) (hi : i < w) : maskSet c (BitVec.twoPow w i) = c.getLsbD i := by
  have hne : BitVec.twoPow w i ≠ 0#w := by
    intro h
    have hbit := congrArg (fun b => b.getLsbD i) h
    simp [hi] at hbit
  unfold maskSet
  rw [BitVec.and_twoPow]
  cases c.getLsbD i <;> simp [hne]

/-! ## Free-running counters -/

theorem counter_sub (hle : C ≤ p) (hlt : p - C < 2 ^ w) :
    (BitVec.ofNat w p - BitVec.ofNat w C).toNat = p - C := by
  obtain ⟨d, rfl⟩ := Nat.exists_eq_add_of_le hle
  rw [Nat.add_sub_cancel_left] at hlt ⊢
  have hsub : BitVec.ofNat w (C + d) - BitVec.ofNat w C = BitVec.ofNat w d := by
    rw [BitVec.ofNat_add, BitVec.add_comm, BitVec.add_sub_cancel]
  rw [hsub, BitVec.toNat_ofNat, Nat.mod_eq_of_lt hlt]

theorem counter_succ : BitVec.ofNat w p + 1 = BitVec.ofNat w (p + 1) := by
  rw [BitVec.ofNat_add]
  rfl

theorem counter_cell {k : ℕ} (hk : k ≤ w) :
    (BitVec.ofNat w p &&& (BitVec.ofNat w (2 ^ k) - 1)).toNat = p % 2 ^ k := by
  have hpow : 2 ^ k ≤ 2 ^ w := Nat.pow_le_pow_right (by decide) hk
  have hpos : 0 < 2 ^ k := Nat.two_pow_pos k
  have hmask : BitVec.ofNat w (2 ^ k) - 1 = BitVec.ofNat w (2 ^ k - 1) := by
    conv_lhs => rw [← Nat.sub_add_cancel hpos, ← counter_succ]
    exact BitVec.add_sub_cancel _ _
  rw [hmask, BitVec.toNat_and, BitVec.toNat_ofNat, BitVec.toNat_ofNat,
    Nat.mod_eq_of_lt (show 2 ^ k - 1 < 2 ^ w by omega), Nat.and_two_pow_sub_one_eq_mod,
    Nat.mod_mod_of_dvd p (Nat.pow_dvd_pow 2 hk)]

end Words

/-! ## Numbers that agree in their upper digits -/

def Agree (b g h lo hi : Nat) : Prop := ∀ j, lo ≤ j → j < hi → g / b ^ j % b = h / b ^ j % b

variable {b g h lo hi : Nat}

theorem agree_empty (b g h n : Nat) : Agree b g h n n :=
  fun _ hlo hhi => absurd hlo (Nat.not_le.2 hhi)

theorem agree_succ (hle : lo ≤ hi) :
    Agree b g h lo (hi + 1) ↔ g / b ^ hi % b = h / b ^ hi % b ∧ Agree b g h lo hi := by
  constructor
  · intro H
    exact ⟨H hi hle (Nat.lt_succ_self hi), fun j hlo hhi => H j hlo (Nat.lt_succ_of_lt hhi)⟩
  · rintro ⟨htop, H⟩ j hlo hhi
    rcases Nat.lt_succ_iff_lt_or_eq.1 hhi with hlt | rfl
    · exact H j hlo hlt
    · exact htop

theorem agree_below (hlt : lo < hi) :
    Agree b g h lo hi ↔ g / b ^ lo % b = h / b ^ lo % b ∧ Agree b g h (lo + 1) hi := by
  constructor
  · intro H
    exact ⟨H lo le_rfl hlt, fun j hlo => H j (Nat.le_of_succ_le hlo)⟩
  · rintro ⟨hlow, H⟩ j hlo hhi
    rcases Nat.eq_or_lt_of_le hlo with rfl | hlt'
    · exact hlow
    · exact H j hlt' hhi

theorem agree_iff_div_eq (hle : lo ≤ hi) (hg : g < b ^ hi) (hh : h < b ^ hi) :
    Agree b g h lo hi ↔ g / b ^ lo = h / b ^ lo := by
  -- from the top down: at `hi` both quotients are `0`
  induction hle using Nat.decreasingInduction with
  | self =>
    rw [Nat.div_eq_of_lt hg, Nat.div_eq_of_lt hh]
    exact iff_of_true (agree_empty b g h hi) rfl
  | of_succ lo hlt ih =>
    rw [agree_below hlt, ih, pow_succ, ← Nat.div_div_eq_div_mul, ← Nat.div_div_eq_div_mul]
    constructor
    · rintro ⟨hmod, hdiv⟩
      rw [← Nat.div_add_mod (g / b ^ lo) b, ← Nat.div_add_mod (h / b ^ lo) b, hmod, hdiv]
    · intro heq
      rw [heq]
      exact ⟨rfl, rfl⟩

end XenVmi.Lib
