import Mathlib.Data.Nat.Bitwise

/-!
# Ranges of one entry type

The loop of `ept_change_entry_type_range` (`mm/p2m-ept.c:1032-1077`) with the ranges it passes to
`ept_invalidate_emt_range`, on a table of four levels. `rc` is what that function returns.
-/

namespace XenVmi.Ept

open List

/-- `ept_invalidate_emt_range(p2m, level, first, last)`. -/
structure RangeCall where
  level : Nat
  first : Nat
  last : Nat
  deriving DecidableEq

/-- `last & ~mask` is `last` without its bits in `mask`. -/
def changeTypeLoop (rc : RangeCall → Int) : (fuel i mask first last : Nat) → Option (List RangeCall)
  | 0, _, _, _, _ => none
  | fuel + 1, i, mask, first, last =>
    if 3 < i then some []
    else if first &&& mask ≠ 0 then
      let endGfn := min (first ||| mask) last
      if rc ⟨i, first, endGfn⟩ < 0 ∨ last ≤ endGfn then some [⟨i, first, endGfn⟩]
      else (changeTypeLoop rc fuel i mask (endGfn + 1) last).map (⟨i, first, endGfn⟩ :: ·)
    else if last &&& mask ≠ mask then
      let startGfn := max first (last - (last &&& mask))
      if rc ⟨i, startGfn, last⟩ < 0 ∨ startGfn ≤ first then some [⟨i, startGfn, last⟩]
      else (changeTypeLoop rc fuel i mask first (startGfn - 1)).map (⟨i, startGfn, last⟩ :: ·)
    else changeTypeLoop rc fuel (i + 1) (mask ||| mask <<< 9) first last

/-- A union of whole entries of one table. -/
def RangeCall.Fits (c : RangeCall) : Prop :=
  c.level ≤ 3 ∧ c.first ≤ c.last ∧ 2 ^ (9 * c.level) ∣ c.first ∧ 2 ^ (9 * c.level) ∣ c.last + 1 ∧
    ∃ table, 2 ^ (9 * (c.level + 1)) * table ≤ c.first ∧
      c.last < 2 ^ (9 * (c.level + 1)) * (table + 1)

structure Decomposes (rc : RangeCall → Int) (first last : Nat) (calls : List RangeCall) : Prop where
  fits : ∀ c ∈ calls, c.Fits
  disjoint : ∀ x, calls.countP (fun c => c.first ≤ x ∧ x ≤ c.last) ≤
    if first ≤ x ∧ x ≤ last then 1 else 0
  cover : (∀ c ∈ calls, 0 ≤ rc c) → ∀ x, first ≤ x → x ≤ last →
    ∃ c ∈ calls, c.first ≤ x ∧ x ≤ c.last

variable {rc : RangeCall → Int} {fuel i first last first' last' : Nat} {c : RangeCall}
  {calls : List RangeCall}

theorem or_mask (x n : Nat) : x ||| (2 ^ n - 1) = 2 ^ n * (x / 2 ^ n) + (2 ^ n - 1) := by
  refine Nat.eq_of_testBit_eq fun j => ?_
  have hlt : 2 ^ n - 1 < 2 ^ n := Nat.sub_one_lt (Nat.two_pow_pos n).ne'
  rw [Nat.testBit_or, Nat.testBit_two_pow_mul_add _ hlt, Nat.testBit_two_pow_sub_one,
    Nat.testBit_div_two_pow]
  by_cases hj : j < n
  · simp [hj]
  · simp [hj, Nat.sub_add_cancel (Nat.le_of_not_lt hj)]

/-- The range of the first call lies at one end of what is left. -/
theorem Decomposes.cons (h : Decomposes rc first' last' calls) (hle' : first' ≤ last') (hc : c.Fits)
    (hends : c.first = first ∧ c.last + 1 = first' ∧ last' = last ∨
      first' = first ∧ last' + 1 = c.first ∧ c.last = last) :
    Decomposes rc first last (c :: calls) := by
  have hle := hc.2.1
  refine ⟨forall_mem_cons.2 ⟨hc, h.fits⟩, fun x => ?_, fun hok x hx hx' => ?_⟩
  · have hx := h.disjoint x
    rw [countP_cons]
    simp only [decide_eq_true_eq]
    split_ifs at hx ⊢ <;> omega
  · obtain ⟨hok, hoks⟩ := forall_mem_cons.1 hok
    by_cases hxc : c.first ≤ x ∧ x ≤ c.last
    · exact ⟨c, mem_cons_self, hxc⟩
    · obtain ⟨d, hd, hxd⟩ := h.cover hoks x (by omega) (by omega)
      exact ⟨d, mem_cons_of_mem c hd, hxd⟩

theorem decomposes_singleton (hc : c.Fits) (hin : first ≤ c.first ∧ c.last ≤ last)
    (hall : rc c < 0 ∨ c.first = first ∧ c.last = last) : Decomposes rc first last [c] := by
  refine ⟨forall_mem_singleton.2 hc, fun x => ?_, fun hok x hx hx' => ⟨c, mem_singleton_self c, ?_⟩⟩
  · rw [countP_singleton]
    simp only [decide_eq_true_eq]
    split_ifs <;> omega
  · have := hok c (mem_singleton_self c)
    omega

/-- What is left at level `i`: whole entries of that level, but not the whole space. -/
structure Left (i first last : Nat) : Prop where
  level : i ≤ 3
  starts : 2 ^ (9 * i) ∣ first
  ends : 2 ^ (9 * i) ∣ last + 1
  le : first ≤ last
  lt : last < 2 ^ 36
  part : 0 < first ∨ last + 1 < 2 ^ 36

theorem mask_up : ∀ i ≤ 3,
    (2 ^ (9 * (i + 1)) - 1) ||| (2 ^ (9 * (i + 1)) - 1) <<< 9 = 2 ^ (9 * (i + 1 + 1)) - 1 := by
  decide

/-- Each round takes something from the range, or goes up a level. -/
theorem changeTypeLoop_spec (h : Left i first last) (hfuel : last - first + (4 - i) < fuel) :
    ∃ calls, changeTypeLoop rc fuel i (2 ^ (9 * (i + 1)) - 1) first last = some calls ∧
      Decomposes rc first last calls := by
  induction fuel generalizing i first last with
  | zero => exact absurd hfuel (Nat.not_lt_zero _)
  | succ fuel ih =>
    obtain ⟨hlevel, hstarts, hends, hle, hlt, hpart⟩ := h
    rw [changeTypeLoop, if_neg (Nat.not_lt.2 hlevel), mask_up i hlevel]
    simp only [Nat.and_two_pow_sub_one_eq_mod, or_mask]
    have hdvd : 2 ^ (9 * i) ∣ 2 ^ (9 * (i + 1)) := Nat.pow_dvd_pow 2 (by omega)
    have hfits : ∀ f l q, 2 ^ (9 * i) ∣ f → 2 ^ (9 * i) ∣ l + 1 → f ≤ l →
        2 ^ (9 * (i + 1)) * q ≤ f →
        l < 2 ^ (9 * (i + 1)) * q + 2 ^ (9 * (i + 1)) → RangeCall.Fits ⟨i, f, l⟩ :=
      fun f l q hf hl hle hq hq' => ⟨hlevel, hle, hf, hl, q, hq, hq'⟩
    have hpos := Nat.two_pow_pos (9 * (i + 1))
    have htop : i = 3 → 2 ^ (9 * (i + 1)) = 2 ^ 36 := by rintro rfl; rfl
    generalize hB : 2 ^ (9 * (i + 1)) = B at *
    have hfirst := Nat.div_add_mod first B
    have hlast := Nat.div_add_mod last B
    have hmod := Nat.mod_lt first hpos
    have hmod' := Nat.mod_lt last hpos
    have hmul : ∀ x, 2 ^ (9 * i) ∣ B * x := fun x => hdvd.trans (Nat.dvd_mul_right B x)
    by_cases hhead : first % B = 0
    · rw [if_neg (not_not.2 hhead)]
      by_cases htail : last % B = B - 1
      · -- both ends are at tables of this level
        rw [if_neg (not_not.2 htail)]
        have hup : i + 1 ≤ 3 := by
          by_contra h3
          rw [htop (by omega)] at hhead htail
          omega
        refine ih ⟨hup, ?_, ⟨last / B + 1, ?_⟩, hle, hlt, hpart⟩ (by omega) <;> rw [hB]
        · exact Nat.dvd_of_mod_eq_zero hhead
        · rw [Nat.mul_succ]
          omega
      rw [if_pos htail]
      have hblock : last - last % B = B * (last / B) := by omega
      have hc := hfits (max first (last - last % B)) last (last / B)
        (max_rec' _ hstarts (hblock ▸ hmul _)) hends (by omega) (by omega) (by omega)
      split
      · rename_i hlast'
        exact ⟨_, rfl, decomposes_singleton hc ⟨Nat.le_max_left _ _, le_rfl⟩
          (hlast'.imp_right fun h => ⟨le_antisymm h (Nat.le_max_left _ _), rfl⟩)⟩
      rename_i hmore
      have hstart : max first (last - last % B) = B * (last / B) := by omega
      obtain ⟨calls, hcalls, hdec⟩ := @ih i first (B * (last / B) - 1)
        ⟨hlevel, hstarts, by rw [Nat.sub_add_cancel (by omega)]; exact hmul _,
          by omega, by omega, by omega⟩ (by omega)
      rw [hB] at hcalls
      rw [hstart, hcalls]
      exact ⟨_, rfl, hdec.cons (by omega) (hstart ▸ hc) (.inr ⟨rfl, by simp only; omega, rfl⟩)⟩
    · rw [if_pos hhead]
      have hnext : 2 ^ (9 * i) ∣ B * (first / B) + B := hmul (first / B + 1)
      have hc := hfits first (min (B * (first / B) + (B - 1)) last) (first / B) hstarts
        (min_rec' (2 ^ (9 * i) ∣ · + 1) (by rwa [Nat.add_assoc, Nat.sub_add_cancel hpos]) hends)
          (by omega) (by omega) (by omega)
      split
      · rename_i hlast'
        exact ⟨_, rfl, decomposes_singleton hc ⟨le_rfl, Nat.min_le_right _ _⟩
          (hlast'.imp_right fun h => ⟨rfl, le_antisymm (Nat.min_le_right _ _) h⟩)⟩
      rename_i hmore
      have hend : min (B * (first / B) + (B - 1)) last + 1 = B * (first / B) + B := by omega
      obtain ⟨calls, hcalls, hdec⟩ := @ih i (B * (first / B) + B) last
        ⟨hlevel, hnext, hends, by omega, hlt, by omega⟩ (by omega)
      rw [hB] at hcalls
      rw [hend, hcalls]
      exact ⟨_, rfl, hdec.cons (by omega) hc (.inl ⟨rfl, hend, rfl⟩)⟩

/-- **The ranges are exact** for every range but the whole space, for which there is no call. -/
theorem changeTypeRange_decomposes (rc : RangeCall → Int) (hle : first ≤ last) (hlt : last < 2 ^ 36)
    (hpart : ¬ (first = 0 ∧ last = 2 ^ 36 - 1)) :
    ∃ fuel calls, changeTypeLoop rc fuel 0 (1 <<< 9 - 1) first last = some calls ∧
      Decomposes rc first last calls :=
  ⟨_, changeTypeLoop_spec ⟨Nat.zero_le 3, Nat.one_dvd _, Nat.one_dvd _, hle, hlt, by omega⟩
    (Nat.lt_succ_self _)⟩

/-- A last entry of one table, and the whole of the next. -/
theorem changeTypeRange_decomposes_two :
    changeTypeLoop (fun _ => 1) 4 0 (1 <<< 9 - 1) 511 1023 = some [⟨0, 511, 511⟩, ⟨1, 512, 1023⟩] ∧
      ∃ fuel calls, changeTypeLoop (fun _ => 1) fuel 0 (1 <<< 9 - 1) 511 1023 = some calls ∧
        Decomposes (fun _ => 1) 511 1023 calls :=
  ⟨by decide, changeTypeRange_decomposes _ (by decide) (by decide) (by decide)⟩

end XenVmi.Ept
