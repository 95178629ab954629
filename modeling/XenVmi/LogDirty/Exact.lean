import XenVmi.LogDirty.Scan
import XenVmi.Lib.Runs
import Mathlib.Data.Finset.Card

/-!
# When the log-dirty bitmap is exact

`Exact`: the bits of the trie are the frames marked since the last clean operation that covered
them, `dirty_count` is their number, and every bitmap that was returned had them. A clean operation
keeps it if every marked frame is below its `sc->pages`: the last leaf is cleared as a whole, with
bits that nobody was told of, and `dirty_count` is set to 0, whatever is left in the leaves beyond.
-/

namespace XenVmi.LogDirty

open Function XenVmi.Lib

variable {h h' : History} {p p' : Paging} {r : Request} {e : Env} {a : Act} {pfn q : ℕ}
  {bitmap : ℕ → Bool}

def dirtyBelow (N : ℕ) (top : Option (Trie Leaf 3)) : ℕ :=
  ((Finset.range N).filter fun pfn => isDirty top pfn = true).card

def dirtyPages (top : Option (Trie Leaf 3)) : ℕ := dirtyBelow (2 ^ 42) top

structure Exact (h : History) : Prop where
  dirty : ∀ pfn < 2 ^ 42, isDirty h.paging.top pfn = h.marked pfn
  in_range : ∀ pfn, h.marked pfn = true → pfn < 2 ^ 42
  count : h.paging.dirtyCount.toNat = dirtyPages h.paging.top
  reports : ∀ x ∈ h.reports, ∀ pfn < x.pages, x.bitmap pfn = x.marked pfn

structure Inv (h : History) : Prop extends Exact h where
  failedAllocs : h.paging.failedAllocs = 0
  preemptDom : h.paging.preemptDom = none

/-! ## Marks -/

def Allocs.Ok (a : Allocs) : Prop := a.top = true ∧ a.l3 = true ∧ a.l2 = true ∧ a.l1 = true

theorem isDirty_fresh : isDirty (some (Trie.fresh (fun _ => false) 3)) q = false := rfl

theorem isDirty_grow (t : Trie Leaf 3) {path : List (ℕ × Bool)} (hlen : path.length = 3)
    (hok : ∀ x ∈ path, x.2 = true) :
    isDirty (some (t.grow (fun _ => false) 3 path).1) q = isDirty (some t) q := by
  unfold isDirty
  simp only [Option.bind_some]
  rw [Trie.find_grow _ t hlen rfl hok]
  by_cases hpath : leafPath q = path.map Prod.fst
  · rw [if_pos hpath]
    cases t.find 3 (leafPath q) <;> rfl
  · rw [if_neg hpath]

theorem leafPath_eq (hpfn : pfn < 2 ^ 42) (hq : q < 2 ^ 42) :
    leafPath q = leafPath pfn ↔ q / 2 ^ 15 = pfn / 2 ^ 15 := by
  have hlt : ∀ n, n &&& (2 ^ 9 - 1) < 512 := fun n => by
    rw [Nat.and_two_pow_sub_one_eq_mod]
    exact Nat.mod_lt _ (by decide)
  have hself : pfn / 2 ^ 15 = leafNumber (l4Idx pfn) (l3Idx pfn) (l2Idx pfn) :=
    (leafPath_eq_iff hpfn (hlt _) (hlt _) (hlt _)).1 rfl
  rw [hself]
  exact leafPath_eq_iff hq (hlt _) (hlt _) (hlt _)

theorem isDirty_set (t : Trie Leaf 3) (hpfn : pfn < 2 ^ 42) (hq : q < 2 ^ 42)
    (hleaf : (t.find 3 (leafPath pfn)).isSome = true) :
    isDirty (some (t.modify (fun l1 => update l1 (l1Idx pfn) true) 3 (leafPath pfn))) q =
      (isDirty (some t) q || decide (q = pfn)) := by
  unfold isDirty
  simp only [Option.bind_some]
  rw [Trie.find_modify _ t rfl rfl]
  by_cases hpath : leafPath q = leafPath pfn
  · rw [if_pos hpath, hpath]
    obtain ⟨l1, hl1⟩ := Option.isSome_iff_exists.1 hleaf
    rw [hl1]
    simp only [Option.map_some]
    have hdiv := (leafPath_eq hpfn hq).1 hpath
    by_cases heq : q = pfn
    · subst heq
      simp
    · have hne : l1Idx q ≠ l1Idx pfn := by
        rw [l1Idx_eq, l1Idx_eq]
        omega
      rw [update_of_ne hne, decide_eq_false heq, Bool.or_false]
  · have hne : q ≠ pfn := by
      rintro rfl
      exact hpath rfl
    rw [if_neg hpath, decide_eq_false hne, Bool.or_false]

structure Marks (p p' : Paging) (pfn : ℕ) : Prop where
  dirty : ∀ q < 2 ^ 42, isDirty p'.top q = (isDirty p.top q || decide (q = pfn))
  count : p'.dirtyCount = if isDirty p.top pfn then p.dirtyCount else p.dirtyCount + 1
  failedAllocs : p'.failedAllocs = p.failedAllocs
  preemptDom : p'.preemptDom = p.preemptDom

theorem markGfnDirty_spec {a : Allocs} (hlog : p.logDirty = true) (hpfn : pfn < 2 ^ 42)
    (ha : a.Ok) : ∃ p', p.markGfnDirty pfn a = .ok p' ∧ Marks p p' pfn := by
  obtain ⟨htop, h3, h2, h1⟩ := ha
  have hvalid : validM2p pfn = true := decide_eq_true (by omega)
  -- the top page, perhaps a new one
  obtain ⟨t, ht, hdirty⟩ : ∃ t : Trie Leaf 3,
      (if p.top.isNone && a.top then some (Trie.fresh (fun _ => false) 3) else p.top) = some t ∧
      ∀ q, isDirty (some t) q = isDirty p.top q := by
    cases hp : p.top with
    | none =>
      rw [htop]
      exact ⟨_, rfl, fun q => isDirty_fresh⟩
    | some t => exact ⟨t, rfl, fun _ => rfl⟩
  set path := [(l4Idx pfn, a.l3), (l3Idx pfn, a.l2), (l2Idx pfn, a.l1)] with hpath
  have hok : ∀ x ∈ path, x.2 = true := by
    simp [hpath, h3, h2, h1]
  have hgrown : ∀ q, isDirty (some (t.grow (fun _ => false) 3 path).1) q = isDirty p.top q :=
    fun q => (isDirty_grow t rfl hok).trans (hdirty q)
  have hleaf : ((t.grow (fun _ => false) 3 path).1.find 3 (leafPath pfn)).isSome = true := by
    rw [Trie.find_grow _ t rfl rfl hok,
      if_pos (show leafPath pfn = path.map Prod.fst from rfl)]
    rfl
  have hgrow : t.grow (fun _ => false) 3 path =
      ((t.grow (fun _ => false) 3 path).1, true) := Prod.ext rfl (Trie.grow_ok _ t rfl hok)
  unfold Paging.markGfnDirty
  rw [if_neg (by simp [hlog]), if_neg (by omega), if_neg (by simp [hvalid]), ht]
  dsimp only
  rw [hgrow]
  refine ⟨_, rfl, fun q hq => ?_, ?_, rfl, rfl⟩
  · rw [← hgrown q]
    exact isDirty_set _ hpfn hq hleaf
  · rw [hgrown]
    cases isDirty p.top pfn <;> rfl

section Count

variable {N : ℕ} {top top' : Option (Trie Leaf 3)}

theorem dirtyBelow_mark (hpfn : pfn < N)
    (hdirty : ∀ q < N, isDirty top' q = (isDirty top q || decide (q = pfn))) :
    dirtyBelow N top' = if isDirty top pfn then dirtyBelow N top else dirtyBelow N top + 1 := by
  have hset : ((Finset.range N).filter fun q => isDirty top' q = true) =
      insert pfn ((Finset.range N).filter fun q => isDirty top q = true) := by
    ext q
    simp only [Finset.mem_filter, Finset.mem_range, Finset.mem_insert]
    constructor
    · rintro ⟨hq, hd⟩
      rw [hdirty q hq, Bool.or_eq_true, decide_eq_true_iff] at hd
      exact hd.symm.imp id fun hd => ⟨hq, hd⟩
    · rintro (rfl | ⟨hq, hd⟩)
      · exact ⟨hpfn, by rw [hdirty _ hpfn]; simp⟩
      · exact ⟨hq, by rw [hdirty q hq, hd]; rfl⟩
  unfold dirtyBelow
  rw [hset]
  split
  · rename_i hd
    rw [Finset.insert_eq_of_mem (by simpa using ⟨hpfn, hd⟩)]
  · rename_i hd
    exact Finset.card_insert_of_notMem (by simp [hd])

theorem dirtyBelow_congr (hdirty : ∀ q < N, isDirty top' q = isDirty top q) :
    dirtyBelow N top' = dirtyBelow N top := by
  unfold dirtyBelow
  congr 1
  ext q
  simp only [Finset.mem_filter, Finset.mem_range]
  refine and_congr_right fun hq => ?_
  rw [hdirty q hq]

theorem dirtyBelow_eq_zero_iff : dirtyBelow N top = 0 ↔ ∀ q < N, isDirty top q = false := by
  unfold dirtyBelow
  simp [Finset.filter_eq_empty_iff]

end Count

/-! ## Steps -/

/-- Allocations and copies succeed, and numbers are in the ranges of the trie, of `done` and of
`dirty_count`. -/
def Admits (h : History) : Act → Prop
  | .mark pfn a => pfn < 2 ^ 42 ∧ a.Ok ∧ h.paging.dirtyCount.toNat + 1 < 2 ^ 32
  | .op r e _ => r.pages + 8 ≤ 2 ^ 40 ∧ ∀ i4 i3 i2, e.faults i4 i3 i2 = false

/-- No frame at or beyond the `sc->pages` of a clean operation is marked. -/
def Covers (h : History) : Act → Prop
  | .mark _ _ => True
  | .op r _ _ => r.clean = true → ∀ pfn, h.marked pfn = true → pfn < r.pages

theorem step_mark {a : Allocs} (hstep : h.step (.mark pfn a) = .ok h') :
    h.paging.markGfnDirty pfn a = .ok h'.paging ∧ h'.reports = h.reports ∧
      h'.marked = if h.paging.logDirty && validM2p pfn then update h.marked pfn true
        else h.marked := by
  unfold History.step at hstep
  dsimp only at hstep
  split at hstep
  · cases hstep
  · cases hstep
    exact ⟨‹_›, rfl, rfl⟩

theorem mark_inv {a : Allocs} (inv : Inv h) (ha : Admits h (.mark pfn a)) :
    ∃ h', h.step (.mark pfn a) = .ok h' ∧ Inv h' := by
  obtain ⟨hpfn, hok, hcount⟩ := ha
  have hvalid : validM2p pfn = true := decide_eq_true (by omega)
  cases hlog : h.paging.logDirty with
  | false =>
    -- nothing is logged, and nothing counts as marked
    have hstep : h.step (.mark pfn a) = .ok h := by
      simp [History.step, Paging.markGfnDirty, hlog]
    exact ⟨h, hstep, inv⟩
  | true =>
    obtain ⟨p', hp', hmarks⟩ := markGfnDirty_spec hlog hpfn hok
    refine ⟨⟨p', update h.marked pfn true, h.reports⟩, ?_, ⟨⟨?_, ?_, ?_, inv.reports⟩, ?_, ?_⟩⟩
    · simp [History.step, hp', hlog, hvalid]
    · intro q hq
      show _ = update h.marked pfn true q
      rw [hmarks.dirty q hq, inv.dirty q hq, update_apply]
      split
      · rw [decide_eq_true ‹_›, Bool.or_true]
      · rw [decide_eq_false ‹_›, Bool.or_false]
    · intro q hq
      change update h.marked pfn true q = true at hq
      rw [update_apply] at hq
      split at hq
      · subst q
        exact hpfn
      · exact inv.in_range q hq
    · have hold : h.paging.dirtyCount.toNat = dirtyBelow (2 ^ 42) h.paging.top := inv.count
      show p'.dirtyCount.toNat = dirtyBelow (2 ^ 42) p'.top
      rw [dirtyBelow_mark hpfn hmarks.dirty, hmarks.count]
      split
      · exact hold
      · rw [← hold]
        exact Nat.mod_eq_of_lt hcount
    · exact hmarks.failedAllocs.trans inv.failedAllocs
    · exact hmarks.preemptDom.trans inv.preemptDom

theorem op_spec (inv : Inv h) (ha : Admits h (.op r e bitmap)) :
    ∃ p' bitmap',
      h.step (.op r e bitmap) = .ok {
        paging := p'
        marked := fun pfn => h.marked pfn && !(r.clean && decide (pfn < r.pages))
        reports := if r.peek then h.reports ++ [⟨r.pages, bitmap', h.marked⟩] else h.reports } ∧
      Finished r h.marked h.paging p' bitmap' := by
  obtain ⟨hn, hfault⟩ := ha
  have hpos : h.paging.position.i4 * 512 + h.paging.position.i3 = 0 := by
    unfold Paging.position
    rw [if_pos (by rw [inv.preemptDom]; rfl)]
    simp
  have hstart : Positioned r (isDirty h.paging.top) h.paging bitmap :=
    positioned_start inv.failedAllocs inv.preemptDom
  obtain ⟨p', bitmap', hdone, hfin⟩ := complete_spec (n := nodeEntries * nodeEntries + 1) hn hfault
    hstart (by
      unfold nodeEntries
      omega)
  refine ⟨p', bitmap', ?_, fun hpeek q hq => ?_, ?_, hfin.logDirty, hfin.failedAllocs,
    hfin.preemptDom, hfin.dirtyCount⟩
  · simp only [History.step, hdone]
  · rw [hfin.bitmap_eq hpeek q hq, inv.dirty q (by omega)]
  · obtain ⟨k, hk, hdirty⟩ := hfin.dirty
    exact ⟨k, hk, fun q hq => by rw [hdirty q hq, inv.dirty q hq]⟩

theorem op_inv (inv : Inv h) (ha : Admits h (.op r e bitmap)) (hc : Covers h (.op r e bitmap)) :
    ∃ h', h.step (.op r e bitmap) = .ok h' ∧ Inv h' := by
  obtain ⟨p', bitmap', hstep, hfin⟩ := op_spec inv ha
  obtain ⟨k, hk, hdirty⟩ := hfin.dirty
  -- beyond `sc->pages` there is nothing to lose
  have hmarked : ∀ q < 2 ^ 42, isDirty p'.top q =
      (h.marked q && !(r.clean && decide (q < r.pages))) := by
    intro q hq
    rw [hdirty q hq]
    cases hm : h.marked q with
    | false => rfl
    | true =>
      cases hcl : r.clean with
      | false => rfl
      | true =>
        have hlt := hc hcl q hm
        rw [decide_eq_true (show q < k * 2 ^ 15 by omega), decide_eq_true hlt]
  refine ⟨_, hstep, ⟨⟨hmarked, ?_, ?_, ?_⟩, hfin.failedAllocs, hfin.preemptDom⟩⟩
  · intro q hq
    exact inv.in_range q (Bool.and_eq_true_iff.1 hq).1
  · show p'.dirtyCount.toNat = dirtyPages p'.top
    rw [hfin.dirtyCount]
    cases hcl : r.clean with
    | false =>
      rw [if_neg (by simp), inv.count]
      refine (dirtyBelow_congr fun q hq => ?_).symm
      rw [hmarked q hq, hcl, inv.dirty q hq]
      simp
    | true =>
      refine (dirtyBelow_eq_zero_iff.2 fun q hq => ?_).symm
      rw [hmarked q hq, hcl]
      cases hm : h.marked q with
      | false => rfl
      | true => simp [hc hcl q hm]
  · intro x hx
    split at hx
    · rename_i hpeek
      rcases List.mem_append.1 hx with hx | hx
      · exact inv.reports x hx
      · rw [List.mem_singleton] at hx
        subst hx
        exact hfin.bitmap_eq hpeek
    · exact inv.reports x hx

theorem op_not_exact (inv : Inv h) (ha : Admits h (.op r e bitmap))
    (hstep : h.step (.op r e bitmap) = .ok h') (hexact : Exact h') : Covers h (.op r e bitmap) := by
  obtain ⟨p', bitmap', hstep', hfin⟩ := op_spec inv ha
  rw [hstep] at hstep'
  cases hstep'
  obtain ⟨k, hk, hdirty⟩ := hfin.dirty
  intro hcl q hm
  by_contra hge
  have hq := inv.in_range q hm
  have hkept : isDirty p'.top q = true := by
    rw [hexact.dirty q hq]
    simp [hm, hge]
  have hcount : dirtyPages p'.top = 0 := by
    rw [← hexact.count]
    show p'.dirtyCount.toNat = 0
    rw [hfin.dirtyCount, if_pos hcl]
    rfl
  rw [dirtyBelow_eq_zero_iff.1 hcount q hq] at hkept
  cases hkept

/-! ## Runs -/

theorem initial_inv (hinit : Initial h) : Inv h := by
  refine ⟨⟨fun q _ => ?_, fun q hq => ?_, ?_, fun x hx => ?_⟩, hinit.failedAllocs, hinit.preemptDom⟩
  · rw [hinit.marked, hinit.top]
    rfl
  · rw [hinit.marked] at hq
    cases hq
  · rw [hinit.dirtyCount, hinit.top]
    exact (dirtyBelow_eq_zero_iff.2 fun q _ => rfl).symm
  · rw [hinit.reports] at hx
    cases hx

/-- **The reporting is exact** in every run whose clean operations cover all marked frames, and the
next step keeps it so if and only if it is not a clean operation that leaves a marked frame
uncovered. -/
theorem log_dirty_exact {h₀ : History} (hinit : Initial h₀)
    (run : Reaches History.step (fun h a => Admits h a ∧ Covers h a) h₀ h) :
    Exact h ∧ ∀ a, Admits h a → ∃ h', h.step a = .ok h' ∧ (Exact h' ↔ Covers h a) := by
  have inv : Inv h := by
    refine run.invariant_of_total ?_ (initial_inv hinit)
    rintro h a ⟨ha, hc⟩ inv
    cases a with
    | mark pfn a => exact mark_inv inv ha
    | op r e bitmap => exact op_inv inv ha hc
  refine ⟨inv.toExact, fun a ha => ?_⟩
  cases a with
  | mark pfn a =>
    obtain ⟨h', hstep, inv'⟩ := mark_inv inv ha
    exact ⟨h', hstep, iff_of_true inv'.toExact trivial⟩
  | op r e bitmap =>
    obtain ⟨p', bitmap', hstep, -⟩ := op_spec inv ha
    refine ⟨_, hstep, fun hexact => op_not_exact inv ha hstep hexact, fun hc => ?_⟩
    obtain ⟨h', hstep', inv'⟩ := op_inv inv ha hc
    rw [hstep] at hstep'
    cases hstep'
    exact inv'.toExact

def emptyLog : History where
  paging :=
    { logDirty := true, top := none, failedAllocs := 0, faultCount := 0, dirtyCount := 0
      preemptDom := none, preemptOp := .peek, done := 0, i4 := 0, i3 := 0 }
  marked _ := false
  reports := []

theorem initial_emptyLog : Initial emptyLog := ⟨rfl, rfl, rfl, rfl, rfl, fun _ => rfl, rfl⟩

def allAllocs : Allocs := ⟨true, true, true, true⟩

def request (op : ShadowOp) (n : ℕ) (hn : n < 2 ^ 64) : Request := ⟨0, op, n, hn, true⟩

def restless : Env := ⟨fun _ _ => true, fun _ => true, fun _ _ _ => false⟩

def cleanSixteen : Act := .op (request .clean 16 (by decide)) restless fun _ => false

theorem log_dirty_exact_cleaned :
    ∃ h₁ h₂, emptyLog.step (.mark 8 allAllocs) = .ok h₁ ∧ h₁.step cleanSixteen = .ok h₂ ∧
      Exact h₂ := by
  have hadmits : Admits emptyLog (.mark 8 allAllocs) := ⟨by decide, ⟨rfl, rfl, rfl, rfl⟩, by decide⟩
  obtain ⟨h₁, hstep₁, inv₁⟩ := mark_inv (initial_inv initial_emptyLog) hadmits
  have hcovers : Covers h₁ cleanSixteen := by
    intro _ q hq
    rw [(step_mark hstep₁).2.2, if_pos (by decide), update_apply] at hq
    split at hq
    · subst q
      decide
    · cases hq
  have hadmits₁ : Admits h₁ cleanSixteen := ⟨by decide, fun _ _ _ => rfl⟩
  obtain ⟨h₂, hstep₂, -⟩ := op_inv inv₁ hadmits₁ hcovers
  exact ⟨h₁, h₂, hstep₁, hstep₂, (log_dirty_exact initial_emptyLog
    ((Relation.ReflTransGen.refl.tail ⟨_, ⟨hadmits, trivial⟩, hstep₁⟩).tail
      ⟨_, ⟨hadmits₁, hcovers⟩, hstep₂⟩)).1⟩

/-- Frame 8 is marked; a clean operation asks for one page; an operation looks at 16. -/
def discardRun : List Act :=
  [.mark 8 allAllocs, .op (request .clean 1 (by decide)) restless fun _ => false,
    .op (request .peek 16 (by decide)) restless fun _ => false]

/-- A clean operation for one page discards the mark of frame 8. -/
theorem clean_discards_mark :
    ∃ h, discardRun.foldlM History.step emptyLog = .ok h ∧
      ∃ x ∈ h.reports, 8 < x.pages ∧ x.marked 8 = true ∧ x.bitmap 8 = false := by
  decide +kernel

end XenVmi.LogDirty
