import XenVmi.LogDirty.Operations

/-!
# What the loops of `paging_log_dirty_op` do

`Swept k` is the state after the first `k` leaves, and `At` says that the loops are where their
counters say. With fewer than `2 ^ 40 - 7` pages the place of a restart fits into the bit-fields.
-/

namespace XenVmi.LogDirty

open XenVmi.Lib

variable {r : Request} {e : Env} {M : ℕ → Bool} {s s' : Scan} {i4 i3 i2 k n pfn : ℕ}
  {t : Trie Leaf 3} {top : Option (Trie Leaf 3)}

/-! ## The path to a leaf -/

theorem l1Idx_eq (pfn : ℕ) : l1Idx pfn = pfn % 2 ^ 15 := Nat.and_two_pow_sub_one_eq_mod pfn 15

def leafNumber (i4 i3 i2 : ℕ) : ℕ := (i4 * 512 + i3) * 512 + i2

theorem leafPath_eq_iff (hpfn : pfn < 2 ^ 42) (h4 : i4 < 512) (h3 : i3 < 512) (h2 : i2 < 512) :
    leafPath pfn = [i4, i3, i2] ↔ pfn / 2 ^ 15 = leafNumber i4 i3 i2 := by
  have e4 : l4Idx pfn = pfn / 2 ^ 33 % 2 ^ 9 := by
    rw [l4Idx, Nat.and_two_pow_sub_one_eq_mod, Nat.shiftRight_eq_div_pow]
  have e3 : l3Idx pfn = pfn / 2 ^ 24 % 2 ^ 9 := by
    rw [l3Idx, Nat.and_two_pow_sub_one_eq_mod, Nat.shiftRight_eq_div_pow]
  have e2 : l2Idx pfn = pfn / 2 ^ 15 % 2 ^ 9 := by
    rw [l2Idx, Nat.and_two_pow_sub_one_eq_mod, Nat.shiftRight_eq_div_pow]
  simp only [leafPath, List.cons.injEq, and_true, e4, e3, e2, leafNumber]
  omega

theorem isDirty_of_leaf (hpfn : pfn < 2 ^ 42) (h4 : i4 < 512) (h3 : i3 < 512) (h2 : i2 < 512)
    (hleaf : pfn / 2 ^ 15 = leafNumber i4 i3 i2) :
    isDirty top pfn =
      (top.bind fun t => t.find 3 [i4, i3, i2]).elim false fun l1 => l1 (pfn % 2 ^ 15) := by
  unfold isDirty
  rw [(leafPath_eq_iff hpfn h4 h3 h2).2 hleaf, l1Idx_eq]
  cases top.bind fun t => t.find 3 [i4, i3, i2] <;> rfl

theorem isDirty_clear (hpfn : pfn < 2 ^ 42) (h4 : i4 < 512) (h3 : i3 < 512) (h2 : i2 < 512) :
    isDirty (top.map fun t => t.modify (fun _ _ => false) 3 [i4, i3, i2]) pfn =
      (isDirty top pfn && !decide (pfn / 2 ^ 15 = leafNumber i4 i3 i2)) := by
  cases top with
  | none => rfl
  | some t =>
    unfold isDirty
    simp only [Option.map_some, Option.bind_some]
    rw [Trie.find_modify (h := 3) _ _ rfl rfl]
    by_cases hleaf : pfn / 2 ^ 15 = leafNumber i4 i3 i2
    · rw [if_pos ((leafPath_eq_iff hpfn h4 h3 h2).2 hleaf), decide_eq_true hleaf, Bool.not_true,
        Bool.and_false]
      cases t.find 3 (leafPath pfn) <;> rfl
    · rw [if_neg fun h => hleaf ((leafPath_eq_iff hpfn h4 h3 h2).1 h), decide_eq_false hleaf,
        Bool.not_false, Bool.and_true]

/-- The first `k` leaves are done; `M` are the bits before the operation. -/
structure Swept (r : Request) (M : ℕ → Bool) (k : ℕ) (s : Scan) : Prop where
  pages : s.pages = min (k * 2 ^ 15) ((r.pages + 7) / 8 * 8)
  bitmap : r.peek = true → ∀ pfn < s.pages, s.bitmap pfn = M pfn
  dirty : ∀ pfn < 2 ^ 42, isDirty s.top pfn = (M pfn && !(r.clean && decide (pfn < k * 2 ^ 15)))

theorem scanLeaf_spec (hn : r.pages + 8 ≤ 2 ^ 40) (hfault : ∀ i4 i3 i2, e.faults i4 i3 i2 = false)
    (h4 : i4 < 512) (h3 : i3 < 512) (h2 : i2 < 512) (h : Swept r M (leafNumber i4 i3 i2) s)
    (hlt : s.pages < r.pages) :
    ∃ s', scanLeaf r e i4 i3 i2 s = (s', none) ∧ Swept r M (leafNumber i4 i3 i2 + 1) s' := by
  have hpages : s.pages = leafNumber i4 i3 i2 * 2 ^ 15 := by
    have := h.pages
    omega
  generalize hk : leafNumber i4 i3 i2 = k at h hpages ⊢
  -- the bytes that are copied from this leaf
  have hrest : ((r.pages - s.pages + 7) % 2 ^ 64) >>> 3 = (r.pages - s.pages + 7) / 8 := by
    rw [Nat.shiftRight_eq_div_pow, Nat.mod_eq_of_lt (by omega)]
  have hmin : ∀ m, (if m < pageSize then m else pageSize) = min m 4096 := fun m => by
    unfold pageSize
    split <;> omega
  unfold scanLeaf
  simp only [hfault, Bool.and_false, Bool.false_eq_true, if_false, hrest, hmin]
  obtain ⟨bytes, hbytes⟩ : ∃ b, b = min ((r.pages - s.pages + 7) / 8) 4096 := ⟨_, rfl⟩
  rw [← hbytes]
  have hsum : s.pages + bytes * 8 = min ((k + 1) * 2 ^ 15) ((r.pages + 7) / 8 * 8) := by omega
  refine ⟨_, rfl, ?_, ?_, ?_⟩
  · show s.pages + bytes <<< 3 = _
    rw [Nat.shiftLeft_eq, hsum]
  · intro hpeek pfn hpfn
    replace hpfn : pfn < s.pages + bytes * 8 := by
      rwa [← Nat.shiftLeft_eq bytes 3]
    have hoff : s.pages >>> 3 * 8 = s.pages := by
      omega
    simp only [hpeek, if_true, copyLeaf, Nat.add_mul, hoff]
    split
    · -- inside this leaf
      have hleaf : pfn / 2 ^ 15 = leafNumber i4 i3 i2 := by omega
      have hmod : pfn - s.pages = pfn % 2 ^ 15 := by omega
      have hM := h.dirty pfn (by omega)
      rw [isDirty_of_leaf (by omega) h4 h3 h2 hleaf] at hM
      have hnot : decide (pfn < k * 2 ^ 15) = false := decide_eq_false (by omega)
      rw [hmod, hM, hnot, Bool.and_false, Bool.not_false, Bool.and_true]
    · exact h.bitmap hpeek pfn (by omega)
  · intro pfn hpfn
    have hM := h.dirty pfn hpfn
    cases hc : r.clean with
    | false => simpa [hc] using hM
    | true =>
      simp only [if_true]
      rw [isDirty_clear hpfn h4 h3 h2, hM, hc]
      cases M pfn with
      | false => rfl
      | true =>
        simp only [Bool.true_and, ← Bool.not_or, ← Bool.decide_or]
        congr 2
        simp only [eq_iff_iff]
        omega

/-! ## The loops -/

def At (r : Request) (M : ℕ → Bool) (k : ℕ) (s : Scan) : Prop :=
  ∃ j, Swept r M j s ∧ (s.pages < r.pages → j = k)

section Loops

variable (hn : r.pages + 8 ≤ 2 ^ 40) (hfault : ∀ i4 i3 i2, e.faults i4 i3 i2 = false)

theorem At.of_through (h : At r M k s) (hge : ¬ s.pages < r.pages) (k' : ℕ) : At r M k' s := by
  obtain ⟨j, hs, -⟩ := h
  exact ⟨j, hs, fun hlt => absurd hlt hge⟩

include hn hfault

theorem scanNode_spec (h4 : i4 < 512) (h3 : i3 < 512) (hi : n + i2 = 512)
    (h : At r M (leafNumber i4 i3 i2) s) :
    ∃ s', scanNode r e i4 i3 n i2 s = (s', none) ∧ At r M (leafNumber i4 (i3 + 1) 0) s' := by
  induction n generalizing i2 s with
  | zero =>
    refine ⟨s, rfl, ?_⟩
    rwa [show leafNumber i4 (i3 + 1) 0 = leafNumber i4 i3 i2 by unfold leafNumber; omega]
  | succ n ih =>
    unfold scanNode
    split
    · rename_i hlt
      obtain ⟨j, hs, hj⟩ := h
      obtain rfl := hj hlt
      obtain ⟨s', hleaf, hs'⟩ := scanLeaf_spec hn hfault h4 h3 (by omega) hs hlt
      rw [hleaf]
      exact ih (by omega) ⟨_, hs', fun _ => Nat.add_assoc _ _ _⟩
    · rename_i hge
      exact ⟨s, rfl, h.of_through hge _⟩

theorem scanTable_spec (h4 : i4 < 512) (hi : n + i3 = 512) (h : At r M (leafNumber i4 i3 0) s) :
    ∃ s', (scanTable r e i4 n i3 s = (s', none) ∧ At r M (leafNumber (i4 + 1) 0 0) s') ∨
      ∃ i, i3 < i ∧ i < 512 ∧ scanTable r e i4 n i3 s = (s', some (.restart i4 i)) ∧
        At r M (leafNumber i4 i 0) s' := by
  induction n generalizing i3 s with
  | zero =>
    refine ⟨s, .inl ⟨rfl, ?_⟩⟩
    rwa [show leafNumber (i4 + 1) 0 0 = leafNumber i4 i3 0 by unfold leafNumber; omega]
  | succ n ih =>
    unfold scanTable
    split
    · obtain ⟨s₁, hnode, hs₁⟩ :=
        scanNode_spec hn hfault h4 (show i3 < 512 by omega) (show nodeEntries + 0 = 512 from rfl) h
      rw [hnode]
      dsimp only
      split
      · rename_i hcheck
        have hlt : i3 < nodeEntries - 1 := of_decide_eq_true (Bool.and_eq_true_iff.1 hcheck).1
        unfold nodeEntries at hlt
        exact ⟨s₁, .inr ⟨i3 + 1, by omega, by omega, rfl, hs₁⟩⟩
      · obtain ⟨s', ⟨hs, hat⟩ | ⟨i, hlt, hi', hs, hat⟩⟩ := ih (by omega) hs₁
        · exact ⟨s', .inl ⟨hs, hat⟩⟩
        · exact ⟨s', .inr ⟨i, by omega, hi', hs, hat⟩⟩
    · rename_i hge
      exact ⟨s, .inl ⟨rfl, h.of_through hge _⟩⟩

theorem scanTop_spec (hi : n + i4 = 512) (h3 : i3 < 512) (hend : i4 = 512 → i3 = 0)
    (h : At r M (leafNumber i4 i3 0) s) :
    ∃ s', (scanTop r e n i4 i3 s = (s', none) ∧ At r M (leafNumber 512 0 0) s') ∨
      ∃ j i, i4 * 512 + i3 < j * 512 + i ∧ j < 512 ∧ i < 512 ∧
        scanTop r e n i4 i3 s = (s', some (.restart j i)) ∧ At r M (leafNumber j i 0) s' := by
  induction n generalizing i4 i3 s with
  | zero =>
    obtain rfl : i4 = 512 := by omega
    rw [hend rfl] at h
    exact ⟨s, .inl ⟨rfl, h⟩⟩
  | succ n ih =>
    unfold scanTop
    split
    · have hcount : nodeEntries - i3 + i3 = 512 := by
        unfold nodeEntries
        omega
      obtain ⟨s₁, ⟨htable, hs₁⟩ | ⟨i, hlt, hi', htable, hs₁⟩⟩ :=
        scanTable_spec hn hfault (show i4 < 512 by omega) hcount h
      · rw [htable]
        dsimp only
        split
        · rename_i hcheck
          have hlt : i4 < nodeEntries - 1 := of_decide_eq_true (Bool.and_eq_true_iff.1 hcheck).1
          exact ⟨s₁, .inr ⟨i4 + 1, 0, by omega, by omega, by omega, rfl, hs₁⟩⟩
        obtain ⟨s', ⟨hs, hat⟩ | ⟨j, i, hlt, hj, hi', hs, hat⟩⟩ :=
          ih (by omega) (by omega) (fun _ => rfl) hs₁
        · exact ⟨s', .inl ⟨hs, hat⟩⟩
        · have hnext : i4 * 512 + i3 < (i4 + 1) * 512 + 0 := by
            clear * - h3
            omega
          exact ⟨s', .inr ⟨j, i, hnext.trans hlt, hj, hi', hs, hat⟩⟩
      · rw [htable]
        exact ⟨s₁, .inr ⟨i4, i, by omega, by omega, hi', rfl, hs₁⟩⟩
    · rename_i hge
      exact ⟨s, .inl ⟨rfl, h.of_through hge _⟩⟩

end Loops

/-! ## The operation -/

variable {p p' : Paging} {bitmap bitmap' : ℕ → Bool}

structure Positioned (r : Request) (M : ℕ → Bool) (p : Paging) (bitmap : ℕ → Bool) : Prop where
  failedAllocs : p.failedAllocs = 0
  owned : p.preemptDom = none ∨ p.preemptDom = some r.caller ∧ p.preemptOp = r.op
  i4_lt : p.position.i4 < 512
  i3_lt : p.position.i3 < 512
  at_leaf : At r M (leafNumber p.position.i4 p.position.i3 0) ⟨p.top, bitmap, p.position.done⟩

/-- The bitmap has the bits of the pages asked for, and the leaves that a clean operation has
visited are cleared, the last one as a whole. -/
structure Finished (r : Request) (M : ℕ → Bool) (p p' : Paging) (bitmap : ℕ → Bool) : Prop where
  bitmap_eq : r.peek = true → ∀ pfn < r.pages, bitmap pfn = M pfn
  dirty : ∃ k, r.pages ≤ k * 2 ^ 15 ∧
    ∀ pfn < 2 ^ 42, isDirty p'.top pfn = (M pfn && !(r.clean && decide (pfn < k * 2 ^ 15)))
  logDirty : p'.logDirty = p.logDirty
  failedAllocs : p'.failedAllocs = 0
  preemptDom : p'.preemptDom = none
  dirtyCount : p'.dirtyCount = if r.clean then 0 else p.dirtyCount

theorem position_frame : p.position.top = p.top ∧ p.position.logDirty = p.logDirty ∧
    p.position.failedAllocs = p.failedAllocs ∧ p.position.dirtyCount = p.dirtyCount := by
  unfold Paging.position
  split <;> exact ⟨rfl, rfl, rfl, rfl⟩

theorem logDirtyOp_spec (hn : r.pages + 8 ≤ 2 ^ 40)
    (hfault : ∀ i4 i3 i2, e.faults i4 i3 i2 = false) (h : Positioned r M p bitmap) :
    ∃ p' bitmap', (p.logDirtyOp r e bitmap = (p', bitmap', .done r.pages) ∧
        Finished r M p p' bitmap') ∨
      (p.logDirtyOp r e bitmap = (p', bitmap', .restart) ∧ Positioned r M p' bitmap' ∧
        p.position.i4 * 512 + p.position.i3 < p'.position.i4 * 512 + p'.position.i3 ∧
        p'.logDirty = p.logDirty ∧ p'.dirtyCount = p.dirtyCount) := by
  obtain ⟨htop, hlog, hfail, hcount⟩ := position_frame
  have hmine : ¬ (p.preemptDom.isSome &&
      !(decide (p.preemptDom = some r.caller) && decide (p.preemptOp = r.op))) = true := by
    rcases h.owned with hd | ⟨hd, hop⟩
    · simp [hd]
    · simp [hd, hop]
  have hok : ¬ p.position.failedAllocs ≠ 0 := by rw [hfail, h.failedAllocs]; exact fun h => h rfl
  have hsize : nodeEntries - p.position.i4 + p.position.i4 = 512 := by
    have := h.i4_lt
    unfold nodeEntries
    omega
  have hend : p.position.i4 = 512 → p.position.i3 = 0 := fun heq =>
    absurd h.i4_lt (by rw [heq]; exact Nat.lt_irrefl _)
  have hat := h.at_leaf
  rw [← htop] at hat
  unfold Paging.logDirtyOp
  rw [if_neg hmine]
  rw [if_neg hok]
  obtain ⟨s', ⟨hs, j, hswept, hj⟩ | ⟨j, i, hlt, hj, hi, hs, hat'⟩⟩ :=
    scanTop_spec hn hfault hsize h.i3_lt hend hat
  · -- the loops are through: there are more leaves than pages
    rw [hs]
    have hthrough : r.pages ≤ s'.pages := by
      have hp := hswept.pages
      by_contra hlt
      rw [hj (Nat.not_le.1 hlt)] at hp
      unfold leafNumber at hp
      omega
    dsimp only
    rw [if_neg (Nat.not_lt.2 hthrough)]
    refine ⟨_, _, .inl ⟨rfl, ?_⟩⟩
    refine ⟨fun hpeek pfn hpfn => hswept.bitmap hpeek pfn (by omega), ⟨j, ?_, hswept.dirty⟩, hlog,
      hfail.trans h.failedAllocs, rfl, by rw [← hcount]⟩
    have hp := hswept.pages
    omega
  · rw [hs]
    have hdone : s'.pages % 2 ^ 40 = s'.pages := by
      obtain ⟨_, hswept, -⟩ := hat'
      have hp := hswept.pages
      omega
    have hj' : j % 2 ^ 9 = j := Nat.mod_eq_of_lt hj
    have hi' : i % 2 ^ 9 = i := Nat.mod_eq_of_lt hi
    dsimp only
    rw [hdone, hj', hi']
    generalize hp' : ({ p.position with
      top := s'.top, preemptDom := some r.caller, preemptOp := r.op, done := s'.pages, i4 := j
      i3 := i } : Paging) = p'
    refine ⟨p', s'.bitmap, .inr ⟨rfl, ⟨?_, .inr ?_, ?_, ?_, ?_⟩, ?_, ?_, ?_⟩⟩ <;>
      first | rw [hpos, ← hp'] | rw [← hp']
    · exact hfail.trans h.failedAllocs
    · exact ⟨rfl, rfl⟩
    · exact hj
    · exact hi
    · exact hat'
    · exact hlt
    · exact hlog
    · exact hcount

theorem complete_spec (hn : r.pages + 8 ≤ 2 ^ 40) (hfault : ∀ i4 i3 i2, e.faults i4 i3 i2 = false)
    (h : Positioned r M p bitmap) (hfuel : 512 * 512 < n + (p.position.i4 * 512 + p.position.i3)) :
    ∃ p' bitmap', Paging.complete r e n p bitmap = some (p', bitmap', .done r.pages) ∧
      Finished r M p p' bitmap' := by
  induction n generalizing p bitmap with
  | zero =>
    have h4 := h.i4_lt
    have h3 := h.i3_lt
    omega
  | succ n ih =>
    unfold Paging.complete
    obtain ⟨p', bitmap', ⟨hop, hfin⟩ | ⟨hop, hpos, hlt, hlog, hcount⟩⟩ :=
      logDirtyOp_spec hn hfault h
    · rw [hop]
      exact ⟨p', bitmap', rfl, hfin⟩
    · rw [hop]
      obtain ⟨q, b, hq, hfin⟩ := ih hpos (by omega)
      refine ⟨q, b, hq, hfin.bitmap_eq, hfin.dirty, hfin.logDirty.trans hlog, hfin.failedAllocs,
        hfin.preemptDom, ?_⟩
      rw [hfin.dirtyCount, hcount]

theorem positioned_start (hfail : p.failedAllocs = 0) (hdom : p.preemptDom = none) :
    Positioned r (isDirty p.top) p bitmap := by
  have hpos : p.position = { p with done := 0, i4 := 0, i3 := 0 } := by
    unfold Paging.position
    rw [if_pos (by rw [hdom]; rfl)]
  have hzero : leafNumber 0 0 0 = 0 := by simp [leafNumber]
  refine ⟨hfail, .inl hdom, ?_, ?_, ?_⟩ <;> rw [hpos]
  · exact Nat.succ_pos 511
  · exact Nat.succ_pos 511
  · refine ⟨0, ⟨?_, ?_, ?_⟩, fun _ => hzero.symm⟩
    · rw [Nat.zero_mul, Nat.zero_min]
    · exact fun _ pfn hpfn => absurd hpfn (Nat.not_lt_zero pfn)
    · intro pfn _
      simp

end XenVmi.LogDirty
