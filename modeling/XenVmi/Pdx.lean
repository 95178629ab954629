import Mathlib.Algebra.Order.Ring.Nat
import Mathlib.Data.LawfulXor.Basic
import XenVmi.Lib.Runs

/-!
# Frame numbers without a hole

`srat_parse_regions` (`arch/x86/srat.c:400-449`) collects the address bits that memory uses, and
`pfn_pdx_hole_setup` (`common/pdx.c:75-106`) takes the longest run of unused bits out of frame
numbers. The e820 map is only asked which bits vary within a range: `pdx_region_mask` is blind to
the bits of its base.

`fill_mask` is read as an order of magnitude (`getLsbD_fillMask`), the loop of `pfn_pdx_hole_setup`
as a choice among runs of bits (`pfnPdxHoleSetup_spec`); with both, `ram_frames_kept_iff` says on
the two tables alone when every RAM frame keeps its number. The words before the memory affinity
entries and the node numbers in them play no part and are left out.
-/

namespace XenVmi.Pdx

open BitVec

/-- `fill_mask`; each round fills a bit. -/
def fillMask (mask : BitVec 64) : BitVec 64 :=
  (List.range 64).foldl (fun m _ => if m &&& (m + 1) = 0 then m else m ||| (m + 1)) mask

def pdxInitMask (base : BitVec 64) : BitVec 64 := fillMask (base - 1)

def pdxRegionMask (base len : BitVec 64) : BitVec 64 := fillMask (base ^^^ (base + len - 1))

/-- `find_next_bit` (`b = true`) and `find_next_zero_bit` of one word. -/
def findNext (mask : BitVec 64) (b : Bool) (i : Nat) : Nat :=
  ((List.range' i (64 - i)).find? fun j => mask.getLsbD j == b).getD 64

/-- The loop of `pfn_pdx_hole_setup`: `bottom_shift` and `hole_shift`. Each round passes a bit. -/
def findHole (mask : BitVec 64) : (rounds j : Nat) → Nat × Nat → Nat × Nat
  | 0, _, hole => hole
  | rounds + 1, j, hole =>
    let i := findNext mask false j
    let j := findNext mask true i
    if 64 ≤ j then hole else findHole mask rounds j (if hole.2 < j - i then (i, j - i) else hole)

/-- The variables of `common/pdx.c`. -/
structure Compression where
  pfnPdxBottomMask : BitVec 64
  pfnTopMask : BitVec 64
  pfnHoleMask : BitVec 64
  pfnPdxHoleShift : Nat

def Compression.none : Compression := ⟨~~~0#64, 0#64, 0#64, 0⟩

def Compression.ofHole (bottomShift holeShift : Nat) : Compression where
  pfnPdxBottomMask := (1#64 <<< bottomShift) - 1
  pfnTopMask := ~~~(((1#64 <<< bottomShift) - 1) ||| (((1#64 <<< holeShift) - 1) <<< bottomShift))
  pfnHoleMask := ((1#64 <<< holeShift) - 1) <<< bottomShift
  pfnPdxHoleShift := holeShift

/-- `MAX_ORDER` is 18. -/
def pfnPdxHoleSetup (mask : BitVec 64) : Compression :=
  let hole := findHole mask 64 17 (0, 0)
  if hole.2 = 0 then .none else .ofHole hole.1 hole.2

namespace Compression

def pfnToPdx (c : Compression) (pfn : BitVec 64) : BitVec 64 :=
  (pfn &&& c.pfnPdxBottomMask) ||| ((pfn &&& c.pfnTopMask) >>> c.pfnPdxHoleShift)

def pdxToPfn (c : Compression) (pdx : BitVec 64) : BitVec 64 :=
  (pdx &&& c.pfnPdxBottomMask) ||| ((pdx <<< c.pfnPdxHoleShift) &&& c.pfnTopMask)

end Compression

/-- `struct acpi_srat_mem_affinity` -/
structure MemAffinity where
  baseAddress : BitVec 64
  length : BitVec 64
  enabled : Bool
  nonVolatile : Bool

def sratParseRegion (mask : BitVec 64) (ma : MemAffinity) : BitVec 64 :=
  if ma.length = 0 ∨ ma.enabled = false ∨ ma.nonVolatile = true then mask
  else mask ||| (ma.baseAddress ||| pdxRegionMask ma.baseAddress ma.length)

structure E820Entry where
  addr : BitVec 64
  size : BitVec 64
  isRam : Bool

/-- `srat` is `none` if there is no table to read. -/
def sratParseRegions (addr : BitVec 64) (srat : Option (List MemAffinity)) (e820 : List E820Entry) :
    Compression :=
  match srat with
  | none => .none
  | some regions =>
    let mask := e820.foldl (fun mask e =>
      if e.isRam = true ∧ ~~~mask &&& pdxRegionMask e.addr e.size ≠ 0 then 0 else mask)
      (regions.foldl sratParseRegion (pdxInitMask addr))
    pfnPdxHoleSetup (mask >>> 12)

/-- Page frame `p` is inside a RAM range. -/
def InRam (e820 : List E820Entry) (p : BitVec 64) : Prop :=
  ∃ e ∈ e820, e.isRam = true ∧ e.addr.toNat ≤ p.toNat * 4096 ∧
    p.toNat * 4096 < e.addr.toNat + e.size.toNat

/-! ## Filled masks -/

/-- Adding 1 turns over the bits up to the first zero. -/
theorem getLsbD_add_one (x : BitVec 64) {i : Nat} (hi : i < 64) :
    (x + 1).getLsbD i = (x.getLsbD i ^^ decide (∀ j < i, x.getLsbD j = true)) := by
  rw [getLsbD_add hi]
  cases i with
  | zero => simp [carry_zero]
  | succ i =>
    rw [show (1 : BitVec 64) = 1#64 from rfl, carry_succ_one i x (by decide)]
    simp [Nat.lt_succ_iff]

/-- `m` after `n` rounds of `fill_mask`: the bits below `n` are filled, none above the highest
one. -/
structure Filling (x : BitVec 64) (n : Nat) (m : BitVec 64) : Prop where
  low : ∀ i < n, 2 ^ i ≤ x.toNat → m.getLsbD i = true
  top : ∀ i, m.getLsbD i = true → 2 ^ i ≤ x.toNat
  kept : ∀ i, x.getLsbD i = true → m.getLsbD i = true

section Fill

variable {x m : BitVec 64} {n i : Nat}

theorem Filling.ones (h : Filling x n m) (hx : 2 ^ n ≤ x.toNat) (hi : i < n) : m.getLsbD i = true :=
  h.low i hi ((Nat.pow_le_pow_right Nat.two_pos hi.le).trans hx)

/-- The highest bit is above a gap, so the addition leaves it. -/
theorem Filling.stop (h : Filling x n m) (hstop : m &&& (m + 1) = 0) : Filling x (n + 1) m := by
  refine ⟨fun i hi hx => ?_, h.top, h.kept⟩
  rcases Nat.lt_succ_iff_lt_or_eq.1 hi with hi | rfl
  · exact h.low i hi hx
  by_contra hgap
  obtain ⟨k, hk, hbit⟩ := Nat.exists_ge_and_testBit_of_ge_two_pow hx
  rw [testBit_toNat] at hbit
  have hmk := h.kept k hbit
  have hne : k ≠ i := fun hki => hgap (hki ▸ hmk)
  have hand := congrArg (BitVec.getLsbD · k) hstop
  simp only [getLsbD_and, getLsbD_add_one m (lt_of_getLsbD hbit), hmk] at hand
  have hall : ∀ j < k, m.getLsbD j = true := by simpa using hand
  exact hgap (hall i (by omega))

theorem Filling.fill (h : Filling x n m) (hn : n < 64) (hgo : m &&& (m + 1) ≠ 0) :
    Filling x (n + 1) (m ||| (m + 1)) := by
  refine ⟨fun i hi hx => ?_, fun i hi => ?_,
    fun i hi => by rw [getLsbD_or, h.kept i hi, Bool.true_or]⟩
  · rw [getLsbD_or, Bool.or_eq_true]
    rcases Nat.lt_succ_iff_lt_or_eq.1 hi with hi | rfl
    · exact .inl (h.low i hi hx)
    · rw [getLsbD_add_one m hn, decide_eq_true fun j => h.ones hx]
      cases m.getLsbD i <;> simp
  · by_cases hmi : m.getLsbD i = true
    · exact h.top i hmi
    -- a bit that both have is above those that the addition has turned over
    obtain ⟨k, hk64, hk⟩ : ∃ k, k < 64 ∧ (m &&& (m + 1)).getLsbD k = true := by
      by_contra hnone
      refine hgo (eq_of_getLsbD_eq fun k hk => ?_)
      exact (Bool.eq_false_iff.2 fun h => hnone ⟨k, hk, h⟩).trans getLsbD_zero.symm
    have hi64 := lt_of_getLsbD hi
    rw [getLsbD_and, getLsbD_add_one m hk64] at hk
    rw [getLsbD_or, getLsbD_add_one m hi64] at hi
    have hik : i < k := by
      by_contra hle
      have : k < i ∨ k = i := by omega
      grind
    exact (Nat.pow_le_pow_right Nat.two_pos hik.le).trans (h.top k (by grind))

/-- `fill_mask` sets the bits below the highest one. -/
theorem getLsbD_fillMask (x : BitVec 64) (j : Nat) :
    (fillMask x).getLsbD j = true ↔ 2 ^ j ≤ x.toNat := by
  have h : Filling x 64 (fillMask x) := by
    refine Lib.foldl_range_invariant (Filling x) (fun n m hn h => ?_)
      ⟨fun i hi => absurd hi (Nat.not_lt_zero i),
      fun i hi => Nat.ge_two_pow_of_testBit (testBit_toNat x ▸ hi), fun _ => id⟩
    split
    · exact h.stop ‹_›
    · exact h.fill hn ‹_›
  refine ⟨h.top j, fun hj => h.low j ?_ hj⟩
  exact (Nat.pow_lt_pow_iff_right Nat.one_lt_two).1 (hj.trans_lt x.isLt)

end Fill

/-! ## Choosing the hole -/

/-- The bits from `b` to `b + k` are not used, the one above them is. `MAX_ORDER` bits are left
alone. -/
structure Run (used : Nat → Prop) (b k : Nat) : Prop where
  low : 17 ≤ b
  pos : 0 < k
  unused : ∀ j, b ≤ j → j < b + k → ¬ used j
  top : used (b + k)

/-- The lowest of the longest runs. -/
structure Hole (used : Nat → Prop) (b k : Nat) : Prop where
  run : Run used b k
  longest : ∀ b' k', Run used b' k' → k' < k ∨ k' = k ∧ b ≤ b'

section Hole

variable {mask : BitVec 64} {used : Nat → Prop}

theorem Hole.unique {b k b' k' : Nat} (h : Hole used b k) (h' : Hole used b' k') :
    b = b' ∧ k = k' := by
  have := h.longest b' k' h'.run
  have := h'.longest b k h.run
  omega

theorem findNext_spec (mask : BitVec 64) (bit : Bool) {i : Nat} (hi : i ≤ 64) :
    i ≤ findNext mask bit i ∧ (∀ j, i ≤ j → j < findNext mask bit i → mask.getLsbD j ≠ bit) ∧
      (findNext mask bit i < 64 → mask.getLsbD (findNext mask bit i) = bit) ∧
        findNext mask bit i ≤ 64 := by
  unfold findNext
  cases hf : (List.range' i (64 - i)).find? fun j => mask.getLsbD j == bit with
  | none =>
    rw [List.find?_range'_eq_none] at hf
    refine ⟨hi, fun j hij hj => ?_, fun h => absurd h (lt_irrefl 64), le_rfl⟩
    simpa using hf j hij (by simp only [Option.getD_none] at hj; omega)
  | some n =>
    rw [List.find?_range'_eq_some, List.mem_range'_1] at hf
    refine ⟨hf.2.1.1, fun j hij hj => ?_, fun _ => by simpa using hf.1, ?_⟩
    · simpa using hf.2.2 j hij hj
    · have := hf.2.1.2
      simp only [Option.getD_some]
      omega

/-- What the loop knows at bit `j`: the best run so far, or that there is none. -/
structure Best (mask : BitVec 64) (j : Nat) (hole : Nat × Nat) : Prop where
  at_used : j = 17 ∨ mask.getLsbD j = true
  le : 17 ≤ j
  run : hole.2 ≠ 0 → Run (mask.getLsbD · = true) hole.1 hole.2 ∧ hole.1 + hole.2 ≤ j
  best : ∀ b k, Run (mask.getLsbD · = true) b k → b + k ≤ j → k < hole.2 ∨ k = hole.2 ∧ hole.1 ≤ b

theorem findHole_spec {rounds j : Nat} {hole : Nat × Nat} (h : Best mask j hole)
    (hfuel : 64 ≤ j + rounds) (hj : j ≤ 64) : ∃ j', Best mask j' (findHole mask rounds j hole) ∧
      ∀ b k, Run (mask.getLsbD · = true) b k → b + k ≤ j' := by
  induction rounds generalizing j hole with
  | zero =>
    refine ⟨j, h, fun b k hr => ?_⟩
    have := lt_of_getLsbD hr.top
    omega
  | succ rounds ih =>
    unfold findHole
    simp only
    obtain ⟨hi, hused, hfree, hi64⟩ := findNext_spec mask false hj
    generalize findNext mask false j = i at hi hused hfree hi64 ⊢
    obtain ⟨hn, hunused, htop, hn64⟩ := findNext_spec mask true hi64
    generalize findNext mask true i = n at hn hunused htop hn64 ⊢
    -- a run that ends later begins at `i` or behind it, and does not end before `n`
    have hlater : ∀ b k, Run (mask.getLsbD · = true) b k → j < b + k → i ≤ b ∧ n ≤ b + k := by
      intro b k hr hlt
      have hjb : j ≤ b := by
        by_contra hbj
        have := h.at_used.resolve_left (by have := hr.low; omega)
        exact hr.unused j (by omega) hlt this
      have hib : i ≤ b := by
        by_contra hbi
        have := hused b hjb (by omega)
        exact hr.unused b le_rfl (by have := hr.pos; omega) (by simpa using this)
      refine ⟨hib, ?_⟩
      by_contra hnb
      exact hunused (b + k) (by omega) (by omega) hr.top
    split
    · rename_i hend
      refine ⟨j, h, fun b k hr => ?_⟩
      by_contra hlt
      have := (hlater b k hr (by omega)).2
      have := lt_of_getLsbD hr.top
      omega
    · rename_i hend
      have hin : i < n := by
        rcases hn.lt_or_eq with hlt | rfl
        · exact hlt
        · have h0 := hfree (by omega)
          rw [htop (by omega)] at h0
          cases h0
      have hrun : Run (mask.getLsbD · = true) i (n - i) := by
        refine ⟨h.le.trans hi, by omega, fun k hk hkn => ?_, ?_⟩
        · exact hunused k hk (by omega)
        · rw [Nat.add_sub_cancel' hin.le]
          exact htop (by omega)
      have hat : mask.getLsbD n = true := htop (by omega)
      have hle := h.le
      by_cases hlong : hole.2 < n - i
      · rw [if_pos hlong]
        refine ih ⟨.inr hat, by omega, fun _ => ⟨hrun, by simp only; omega⟩, fun b k hr hbk => ?_⟩
          (by omega) hn64
        by_cases hjbk : b + k ≤ j
        · have := h.best b k hr hjbk
          simp only
          omega
        · have := hlater b k hr (by omega)
          simp only
          omega
      · rw [if_neg hlong]
        have hold := h.run (by omega)
        refine ih ⟨.inr hat, by omega, fun _ => ⟨hold.1, by omega⟩, fun b k hr hbk => ?_⟩
          (by omega) hn64
        by_cases hjbk : b + k ≤ j
        · exact h.best b k hr hjbk
        · have := hlater b k hr (by omega)
          omega

/-- `pfn_pdx_hole_setup` takes out the lowest of the longest runs, if there is one. -/
theorem pfnPdxHoleSetup_spec (mask : BitVec 64) :
    (pfnPdxHoleSetup mask = .none ∧ ∀ b k, ¬ Run (mask.getLsbD · = true) b k) ∨
      ∃ b k, Hole (mask.getLsbD · = true) b k ∧ pfnPdxHoleSetup mask = .ofHole b k := by
  have h0 : Best mask 17 (0, 0) := by
    refine ⟨.inl rfl, le_rfl, fun h => absurd rfl h, fun b k hr hbk => ?_⟩
    have := hr.low
    have := hr.pos
    omega
  obtain ⟨j, hbest, hall⟩ := findHole_spec h0 (show 64 ≤ 17 + 64 by decide) (by decide)
  unfold pfnPdxHoleSetup
  simp only
  generalize findHole mask 64 17 (0, 0) = hole at hbest ⊢
  split
  · rename_i hzero
    refine .inl ⟨rfl, fun b k hr => ?_⟩
    have := hbest.best b k hr (hall b k hr)
    have := hr.pos
    omega
  · rename_i hpos
    exact .inr ⟨_, _, ⟨(hbest.run hpos).1, fun b k hr => hbest.best b k hr (hall b k hr)⟩, rfl⟩

end Hole

/-! ## The bits in use -/

/-- The range crosses a multiple of `2 ^ j`. -/
def Crosses (base len : BitVec 64) (j : Nat) : Prop :=
  base.toNat / 2 ^ j ≠ (base + len - 1).toNat / 2 ^ j

/-- Bit `j` of an address is in use as far as the SRAT tells: memory below `addr` has it, or a range
has it in its base or crosses a multiple of `2 ^ j`. -/
def Named (addr : BitVec 64) (regions : List MemAffinity) (j : Nat) : Prop :=
  2 ^ j ≤ (addr - 1).toNat ∨ ∃ ma ∈ regions,
    (ma.length ≠ 0 ∧ ma.enabled = true ∧ ma.nonVolatile = false) ∧
      (ma.baseAddress.getLsbD j = true ∨ Crosses ma.baseAddress ma.length j)

/-- The RAM ranges vary in no other bits. -/
def Covers (addr : BitVec 64) (regions : List MemAffinity) (e820 : List E820Entry) : Prop :=
  ∀ e ∈ e820, e.isRam = true → ∀ j, Crosses e.addr e.size j → Named addr regions j

theorem getLsbD_pdxRegionMask (base len : BitVec 64) (j : Nat) :
    (pdxRegionMask base len).getLsbD j = true ↔ Crosses base len j := by
  rw [pdxRegionMask, getLsbD_fillMask, toNat_xor, Crosses, ← Nat.not_lt, ← Nat.div_eq_zero_iff_lt
    (Nat.two_pow_pos j), Nat.xor_div_two_pow]
  exact not_congr xor_eq_zero_iff

theorem getLsbD_sratMask (regions : List MemAffinity) (mask : BitVec 64) (j : Nat) :
    (regions.foldl sratParseRegion mask).getLsbD j = true ↔ mask.getLsbD j = true ∨ ∃ ma ∈ regions,
      (ma.length ≠ 0 ∧ ma.enabled = true ∧ ma.nonVolatile = false) ∧
        (ma.baseAddress.getLsbD j = true ∨ Crosses ma.baseAddress ma.length j) := by
  induction regions generalizing mask with
  | nil => simp
  | cons ma regions ih =>
    have hstep : (sratParseRegion mask ma).getLsbD j = true ↔ mask.getLsbD j = true ∨
        (ma.length ≠ 0 ∧ ma.enabled = true ∧ ma.nonVolatile = false) ∧
          (ma.baseAddress.getLsbD j = true ∨ Crosses ma.baseAddress ma.length j) := by
      unfold sratParseRegion
      split
      · rename_i hskip
        refine ⟨.inl, fun h => h.resolve_right fun h => ?_⟩
        rcases hskip with h0 | h0 | h0 <;> simp [h0] at h
      · rename_i hcount
        push Not at hcount
        simp only [ne_eq, Bool.not_eq_false, Bool.not_eq_true] at hcount
        simp only [getLsbD_or, Bool.or_eq_true, getLsbD_pdxRegionMask, ne_eq, hcount,
          not_false_eq_true, true_and]
    rw [List.foldl_cons, ih, hstep]
    simp only [List.exists_mem_cons_iff]
    exact or_assoc

/-- A RAM range that varies in a bit not in the mask empties it. -/
theorem e820_foldl (e820 : List E820Entry) (mask : BitVec 64) :
    let last := e820.foldl (fun mask e =>
      if e.isRam = true ∧ ~~~mask &&& pdxRegionMask e.addr e.size ≠ 0 then 0 else mask) mask
    (∀ e ∈ e820, e.isRam = true → ∀ j, Crosses e.addr e.size j → mask.getLsbD j = true) ∧
      last = mask ∨
      (¬ ∀ e ∈ e820, e.isRam = true → ∀ j, Crosses e.addr e.size j → mask.getLsbD j = true) ∧
        last = 0 := by
  have hcovers : ∀ (e : E820Entry) (m : BitVec 64), ~~~m &&& pdxRegionMask e.addr e.size = 0 ↔
      ∀ j, Crosses e.addr e.size j → m.getLsbD j = true := by
    intro e m
    simp only [← getLsbD_pdxRegionMask]
    constructor
    · intro hz j hj
      have hbit := congrArg (BitVec.getLsbD · j) hz
      simpa only [getLsbD_and, getLsbD_not, lt_of_getLsbD hj, hj, ofNat_eq_ofNat, getLsbD_zero,
        decide_true, Bool.true_and, Bool.and_true, Bool.not_eq_false'] using hbit
    · intro hall
      refine eq_of_getLsbD_eq fun j hj => ?_
      cases hr : (pdxRegionMask e.addr e.size).getLsbD j with
      | false => simp [hr]
      | true => simp [hr, hall j hr]
  induction e820 generalizing mask with
  | nil => exact .inl ⟨fun e he => absurd he List.not_mem_nil, rfl⟩
  | cons e e820 ih =>
    simp only [List.foldl_cons, List.forall_mem_cons] at ih ⊢
    split
    · rename_i hout
      -- from here on the mask is 0
      refine .inr ⟨fun h => hout.2 ((hcovers e mask).2 (h.1 hout.1)), ?_⟩
      rcases ih 0 with h | h
      · exact h.2
      · exact h.2
    · rename_i hin
      have hcover : e.isRam = true → ∀ j, Crosses e.addr e.size j → mask.getLsbD j = true :=
        fun hram =>
        (hcovers e mask).1 (by_contra fun h => hin ⟨hram, h⟩)
      simp only [and_iff_right hcover]
      exact ih mask

/-! ## Frame numbers across the hole -/

theorem getLsbD_mask {n : Nat} (hn : n < 64) (j : Nat) :
    ((1#64 <<< n) - 1).getLsbD j = decide (j < n) := by
  have hone : (1#64 <<< n).toNat = 2 ^ n := by
    rw [← twoPow_eq, toNat_twoPow_of_lt hn]
  have hle : (1 : BitVec 64) ≤ 1#64 <<< n := by
    rw [le_def, hone]
    exact Nat.one_le_two_pow
  rw [← testBit_toNat, toNat_sub_of_le hle, hone]
  exact Nat.testBit_two_pow_sub_one n j

section

variable {b k : Nat} (h : b + k < 64) (p : BitVec 64)

include h

theorem getLsbD_hole (j : Nat) :
    (Compression.ofHole b k).pfnHoleMask.getLsbD j = decide (b ≤ j ∧ j < b + k) := by
  simp only [Compression.ofHole, getLsbD_shiftLeft, getLsbD_mask (show k < 64 by omega)]
  grind

theorem getLsbD_top (j : Nat) :
    (Compression.ofHole b k).pfnTopMask.getLsbD j = decide (b + k ≤ j ∧ j < 64) := by
  have hhole := getLsbD_hole h j
  simp only [Compression.ofHole] at hhole ⊢
  simp only [getLsbD_not, getLsbD_or, hhole, getLsbD_mask (show b < 64 by omega)]
  grind

theorem getLsbD_pfnToPdx (j : Nat) :
    ((Compression.ofHole b k).pfnToPdx p).getLsbD j = p.getLsbD (if j < b then j else j + k) := by
  have htop := getLsbD_top h (k + j)
  have hbottom : (Compression.ofHole b k).pfnPdxBottomMask.getLsbD j = decide (j < b) :=
    getLsbD_mask (by omega) j
  simp only [Compression.pfnToPdx, getLsbD_or, getLsbD_and, getLsbD_ushiftRight,
    hbottom]
  rw [show (Compression.ofHole b k).pfnPdxHoleShift = k from rfl]
  grind

theorem roundTrip_iff :
    (Compression.ofHole b k).pdxToPfn ((Compression.ofHole b k).pfnToPdx p) = p ↔
    ∀ j, b ≤ j → j < b + k → p.getLsbD j = false := by
  have hbit : ∀ j < 64, ((Compression.ofHole b k).pdxToPfn
      ((Compression.ofHole b k).pfnToPdx p)).getLsbD j =
        (p.getLsbD j && !decide (b ≤ j ∧ j < b + k)) := by
    intro j hj
    have htop := getLsbD_top h j
    have hbottom : (Compression.ofHole b k).pfnPdxBottomMask.getLsbD j = decide (j < b) :=
      getLsbD_mask (by omega) j
    have hx := getLsbD_pfnToPdx h p
    simp only [Compression.pdxToPfn, getLsbD_or, getLsbD_and, getLsbD_shiftLeft,
      hbottom, htop, hx]
    rw [show (Compression.ofHole b k).pfnPdxHoleShift = k from rfl]
    grind
  constructor
  · intro heq j hb hk
    have := hbit j (by omega)
    grind
  · intro hz
    refine eq_of_getLsbD_eq fun j hj => ?_
    have := hbit j hj
    grind

theorem toNat_pfnToPdx : ((Compression.ofHole b k).pfnToPdx p).toNat =
    2 ^ b * (p.toNat / 2 ^ (b + k)) + p.toNat % 2 ^ b := by
  refine Nat.eq_of_testBit_eq fun j => ?_
  rw [Nat.testBit_two_pow_mul_add _ (Nat.mod_lt _ (Nat.two_pow_pos b)), testBit_toNat,
    getLsbD_pfnToPdx h, Nat.testBit_mod_two_pow, Nat.testBit_div_two_pow,
    testBit_toNat]
  split
  · simp [*]
  · congr 1
    omega

variable {p}

omit h in
theorem mod_of_hole (hp : ∀ j, b ≤ j → j < b + k → p.getLsbD j = false) :
    p.toNat % 2 ^ (b + k) = p.toNat % 2 ^ b := by
  refine Nat.eq_of_testBit_eq fun j => ?_
  have := hp j
  simp only [Nat.testBit_mod_two_pow, testBit_toNat]
  grind

theorem pfnToPdx_lt {q : BitVec 64} (hp : ∀ j, b ≤ j → j < b + k → p.getLsbD j = false)
    (hq : ∀ j, b ≤ j → j < b + k → q.getLsbD j = false) (hlt : p < q) :
    (Compression.ofHole b k).pfnToPdx p < (Compression.ofHole b k).pfnToPdx q := by
  rw [lt_def] at hlt ⊢
  rw [toNat_pfnToPdx h, toNat_pfnToPdx h]
  have hpe := Nat.div_add_mod p.toNat (2 ^ (b + k))
  have hqe := Nat.div_add_mod q.toNat (2 ^ (b + k))
  rw [mod_of_hole hp] at hpe
  rw [mod_of_hole hq] at hqe
  have hle : p.toNat / 2 ^ (b + k) ≤ q.toNat / 2 ^ (b + k) := Nat.div_le_div_right hlt.le
  rcases hle.lt_or_eq with hl | he
  · have := Nat.mul_le_mul_left (2 ^ b) hl
    rw [Nat.mul_succ] at this
    omega
  · rw [he] at hpe ⊢
    omega

end

/-- `srat_parse_regions` on the two tables: no compression if a RAM range varies in a bit that the
SRAT does not name, and else the hole among the frame-number bits that it does not name. -/
theorem sratParseRegions_cases (addr : BitVec 64) (regions : List MemAffinity)
    (e820 : List E820Entry) :
    (sratParseRegions addr (some regions) e820 = .none ∧
      (Covers addr regions e820 → ∀ b k, ¬ Hole (fun j => Named addr regions (j + 12)) b k)) ∨
    Covers addr regions e820 ∧ ∃ b k, b + k < 64 ∧ Hole (fun j => Named addr regions (j + 12)) b k ∧
      sratParseRegions addr (some regions) e820 = .ofHole b k := by
  have hnamed : ∀ j, (regions.foldl sratParseRegion (pdxInitMask addr)).getLsbD j = true ↔
      Named addr regions j := fun j => by
    rw [getLsbD_sratMask, pdxInitMask, getLsbD_fillMask, Named]
  unfold sratParseRegions Covers
  simp only [← hnamed]
  generalize regions.foldl sratParseRegion (pdxInitMask addr) = mask
  rcases e820_foldl e820 mask with ⟨hcovers, hmask⟩ | ⟨hnot, hmask⟩
  · rw [hmask]
    have hshift : (fun j => mask.getLsbD (j + 12) = true) = fun j =>
        (mask >>> 12).getLsbD j = true := by
      funext j
      rw [getLsbD_ushiftRight, Nat.add_comm]
    rw [hshift]
    rcases pfnPdxHoleSetup_spec (mask >>> 12) with ⟨heq, hnone⟩ | ⟨b, k, hhole, heq⟩
    · exact .inl ⟨heq, fun _ b k hhole => hnone b k hhole.run⟩
    · exact .inr ⟨hcovers, b, k, lt_of_getLsbD hhole.run.top, hhole, heq⟩
  · refine .inl ⟨?_, fun hcovers => absurd hcovers hnot⟩
    rw [hmask]
    rfl

/-- The RAM frames keep their numbers and their order exactly if none of them has a bit in the hole
that the SRAT leaves, unless there is no SRAT or a RAM range varies in a bit that it does not
name. -/
theorem ram_frames_kept_iff (addr : BitVec 64) (srat : Option (List MemAffinity))
    (e820 : List E820Entry) :
    ((∀ p, InRam e820 p → (sratParseRegions addr srat e820).pdxToPfn
        ((sratParseRegions addr srat e820).pfnToPdx p) = p) ∧
      ∀ p q, InRam e820 p → InRam e820 q → p < q →
        (sratParseRegions addr srat e820).pfnToPdx p <
          (sratParseRegions addr srat e820).pfnToPdx q) ↔
    ∀ regions, srat = some regions → Covers addr regions e820 →
      ∀ b k, Hole (fun j => Named addr regions (j + 12)) b k →
        ∀ p, InRam e820 p → ∀ j, b ≤ j → j < b + k → p.getLsbD j = false := by
  -- without compression the numbers stay as they are
  have hsame : ∀ p, Compression.none.pfnToPdx p = p ∧ Compression.none.pdxToPfn p = p := fun p => by
    simp only [Compression.none, Compression.pfnToPdx, Compression.pdxToPfn, not_zero, and_allOnes,
      and_zero, zero_ushiftRight, or_zero]
    exact ⟨trivial, trivial⟩
  have hnone : (∀ p, InRam e820 p → Compression.none.pdxToPfn (Compression.none.pfnToPdx p) = p) ∧
      ∀ p q, InRam e820 p → InRam e820 q → p < q →
        Compression.none.pfnToPdx p < Compression.none.pfnToPdx q := by
    refine ⟨fun p _ => by rw [(hsame p).1, (hsame p).2], fun p q _ _ hlt => ?_⟩
    rwa [(hsame p).1, (hsame q).1]
  cases srat with
  | none => exact iff_of_true hnone fun regions h => by cases h
  | some regions =>
    rcases sratParseRegions_cases addr regions e820 with
      ⟨heq, hfree⟩ | ⟨hcovers, b, k, h, hhole, heq⟩
    · rw [heq]
      refine iff_of_true hnone ?_
      rintro _ ⟨⟩ hcovers b k hhole
      exact absurd hhole (hfree hcovers b k)
    · rw [heq]
      constructor
      · rintro ⟨hkept, -⟩ _ ⟨⟩ - b' k' hhole' p hp
        obtain ⟨rfl, rfl⟩ := hhole.unique hhole'
        exact (roundTrip_iff h p).1 (hkept p hp)
      · intro hclear
        have hclear := hclear regions rfl hcovers b k hhole
        exact ⟨fun p hp => (roundTrip_iff h p).2 (hclear p hp),
          fun p q hp hq => pfnToPdx_lt h (hclear p hp) (hclear q hq)⟩

def farRam : List E820Entry :=
  [⟨0x100000, 0x7ff00000, true⟩, ⟨0x100000000, 0x100000000, true⟩,
    ⟨0x10000000000, 0x40000000, true⟩]

def farSrat : List MemAffinity :=
  [⟨0, 0x200000000, true, false⟩, ⟨0x200000000000, 0x80000000, true, false⟩]

/-- The SRAT names memory at 0 and at `2^45`, the e820 map has RAM at `2^40`: frame `0x10000100`
gets the frame-table slot of frame `0x100`. -/
theorem ram_frames_merged : InRam farRam 0x100 ∧ InRam farRam 0x10000100 ∧
    (sratParseRegions 0x100000000 (some farSrat) farRam).pfnToPdx 0x100 =
      (sratParseRegions 0x100000000 (some farSrat) farRam).pfnToPdx 0x10000100 := by
  unfold InRam
  decide +kernel

end XenVmi.Pdx
