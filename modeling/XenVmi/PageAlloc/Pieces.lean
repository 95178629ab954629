import XenVmi.PageAlloc.Buddy

/-!
# The pieces of a reserved block

`reserve_offlined_page` grows each piece from where the last one ended. The pieces of a run of pages
do not get larger, so they are aligned when the first one is.
-/

namespace XenVmi.PageAlloc

open XenVmi.Lib

/-- The blocks that `refile` pushes. -/
def pieces (off : Nat → Bool) (k stop : Nat) : (fuel : Nat) → (cur : Nat) → List (Nat × Nat)
  | 0, _ => []
  | fuel + 1, cur =>
    if stop ≤ cur then []
    else if off cur then pieces off k stop fuel (cur + 1)
    else (cur, growOrder off cur stop k 0) :: pieces off k stop fuel
      (cur + 2 ^ growOrder off cur stop k 0)

/-- A piece from `a` may grow to `2 ^ j` pages. -/
def Whole (off : Nat → Bool) (stop a j : Nat) : Prop :=
  a + 2 ^ j < stop ∧ ∀ x ∈ cells (a, j), off x = false

/-- From `cur` on, the start of a run is aligned to every piece that may grow there. -/
def RunsAligned (off : Nat → Bool) (head stop cur : Nat) : Prop :=
  ∀ a j, cur ≤ a → (a = head ∨ off (a - 1) = true) → Whole off stop a j → Aligned (a, j)

section Pieces

variable {off : Nat → Bool} {stop c i j k fuel head : Nat}

theorem Whole.le_of_not (h : Whole off stop c i) (hn : ¬ Whole off stop c (j + 1)) : i ≤ j := by
  by_contra hlt
  have hpow := Nat.add_le_add_left (Nat.pow_le_pow_right two_pos (Nat.lt_of_not_le hlt)) c
  exact hn ⟨hpow.trans_lt h.1, fun x hx => h.2 x ⟨hx.1, hx.2.trans_le hpow⟩⟩

theorem not_whole_growOrder (hfuel : stop ≤ c + 2 ^ (k + fuel)) :
    ¬ Whole off stop c (growOrder off c stop fuel k + 1) := by
  induction fuel generalizing k with
  | zero =>
    have hpow := Nat.add_le_add_left (Nat.pow_le_pow_right two_pos (Nat.le_succ k)) c
    exact fun hw => absurd hw.1 (Nat.not_lt.2 (hfuel.trans hpow))
  | succ fuel ih =>
    rw [growOrder]
    split
    · exact fun hw => absurd hw.1 (Nat.not_lt.2 ‹_›)
    split
    · rename_i hany
      obtain ⟨x, hx, hoff⟩ := List.any_eq_true.1 hany
      intro hw
      cases hoff.symm.trans (hw.2 x (by rw [cells_succ]; exact .inr (mem_frames.1 hx)))
    · exact ih (by rw [Nat.succ_add_eq_add_succ]; exact hfuel)

theorem runsAligned_iff {d : Nat} (hle : c ≤ d) (h : ∀ a j, c ≤ a → a < d →
      (a = head ∨ off (a - 1) = true) → Whole off stop a j → Aligned (a, j)) :
    RunsAligned off head stop c ↔ RunsAligned off head stop d := by
  refine ⟨fun hr a j ha => hr a j (hle.trans ha), fun hr a j ha hs hw => ?_⟩
  by_cases hac : a < d
  · exact h a j ha hac hs hw
  · exact hr a j (Nat.le_of_not_lt hac) hs hw

theorem runsAligned_of_le (hle : stop ≤ c) : RunsAligned off head stop c := fun a _ ha _ hw =>
  absurd ((Nat.le_add_right a _).trans_lt hw.1) (Nat.not_lt.2 (hle.trans ha))

/-- By induction on `fuel`: at `c` a run starts, or the piece before `c` was aligned and no larger
one fits. -/
theorem pieces_aligned_iff (hhead : head ≤ c) (hstop : stop = head + 2 ^ k)
    (hfuel : stop ≤ c + fuel) (hcur : (c = head ∨ off (c - 1) = true) ∨ ∃ j, 2 ^ j ∣ c ∧
      ¬ Whole off stop c (j + 1)) :
    (∀ t ∈ pieces off k stop fuel c, t.1 ∈ cells (head, k) → Aligned t) ↔
      RunsAligned off head stop c := by
  induction fuel generalizing c with
  | zero => exact iff_of_true nofun (runsAligned_of_le hfuel)
  | succ fuel ih =>
    rw [pieces]
    split
    · exact iff_of_true nofun (runsAligned_of_le ‹_›)
    rename_i hlt
    split
    · -- no piece starts at an offlined page
      rename_i hoff
      rw [ih (c := c + 1) (by omega) (by omega) (.inl (.inr hoff))]
      refine (runsAligned_iff (Nat.le_succ c) fun a j ha hac _ hw => ?_).symm
      obtain rfl := Nat.le_antisymm ha (Nat.le_of_lt_succ hac)
      cases hoff.symm.trans (hw.2 c (self_mem_cells c j))
    rename_i hoff
    have hmax : ¬ Whole off stop c (growOrder off c stop k 0 + 1) :=
      not_whole_growOrder (by rw [Nat.zero_add]; omega)
    obtain ⟨hcells, -, hgrown⟩ := growOrder_zero k hlt hoff
    revert hmax hcells hgrown
    generalize growOrder off c stop k 0 = K
    intro hmax hcells hgrown
    have hpiece : K = 0 ∨ Whole off stop c K :=
      hgrown.imp_right fun h => ⟨h, fun x hx => (hcells x hx).2⟩
    by_cases hA : Aligned (c, K)
    · -- else the piece at `c` would be larger
      have hnext : ¬ Whole off stop (c + 2 ^ K) (K + 1) := by
        rintro ⟨hlt, hw⟩
        refine hmax ⟨by omega, fun x hx => ?_⟩
        rw [cells_succ] at hx hw
        exact hx.elim (fun hx => (hcells x hx).2) fun hx => hw x (.inl hx)
      rw [List.forall_mem_cons,
        ih (hhead.trans (Nat.le_add_right c _)) (by have := Nat.two_pow_pos K; omega)
        (.inr ⟨K, (Nat.dvd_add_left dvd_rfl).2 hA, hnext⟩), and_iff_right fun _ => hA]
      refine (runsAligned_iff (Nat.le_add_right c _) fun a j ha hac hs hw => ?_).symm
      rcases Nat.eq_or_lt_of_le ha with rfl | hca
      · exact (Nat.pow_dvd_pow 2 (hw.le_of_not hmax)).trans hA
      · have hs := hs.resolve_left (Nat.ne_of_gt (hhead.trans_lt hca))
        cases hs.symm.trans (hcells (a - 1) (mem_cells.2 (by omega))).2
    · refine iff_of_false (fun h => hA (h _ List.mem_cons_self (mem_cells.2 ⟨hhead, by omega⟩)))
        fun h => hA ?_
      rcases hpiece with rfl | hw
      · exact one_dvd c
      · rcases hcur with hs | ⟨j, hj, hn⟩
        · exact h c K le_rfl hs hw
        · exact (Nat.pow_dvd_pow 2 (hw.le_of_not hn)).trans hj

theorem refile_blocks {m : Machine} {n z : Nat} (fuel : Nat) (h : Heap)
    (hp : ∀ x, c ≤ x → x < stop → x ∈ place m n z)
    (hk : k = 0 → ∀ x, c ≤ x → x < stop → off x = true) :
    ∃ h', Heap.refile n z k stop off fuel c h = .ok h' ∧
      ∀ t, t ∈ h'.blocks m ↔ t ∈ h.blocks m ∨ t ∈ pieces off k stop fuel c := by
  induction fuel generalizing c h with
  | zero => exact ⟨h, rfl, fun t => by rw [pieces, List.mem_nil_iff, or_false]⟩
  | succ fuel ih =>
    rw [Heap.refile, pieces]
    have hnext := fun d h => ih (c := c + d) h (fun x hx => hp x (le_of_add_le_left hx))
      fun h0 x hx => hk h0 x (le_of_add_le_left hx)
    split
    · exact ⟨h, rfl, fun t => by rw [List.mem_nil_iff, or_false]⟩
    rename_i hlt
    split
    · exact hnext 1 h
    rename_i hoff
    rw [if_neg fun h0 => hoff (hk h0 c le_rfl (Nat.lt_of_not_le hlt))]
    obtain ⟨h', hr, hb⟩ :=
      hnext (2 ^ growOrder off c stop k 0) (h.push n z (growOrder off c stop k 0) c)
    refine ⟨h', hr, fun t => ?_⟩
    rw [hb, blocks_push (hp c le_rfl (Nat.lt_of_not_le hlt)), Set.mem_insert_iff, List.mem_cons,
      or_assoc, or_left_comm]

end Pieces

section Reserve

variable {m : Machine} {h : Heap} {C : Set Nat} {n z k head : Nat}

/-- `reserve_offlined_page` returns, and every page but the offlined ones is in one free block. The
new blocks are aligned when the first piece after each offlined page is. -/
theorem reserve_offlined_page_aligned_iff (hh : h.Holds m C) (hc : h.Counts m C)
    (hb : head ∈ h.free n z k) (hoff : ∃ x ∈ cells (head, k), (h.page x).state = .offlined) :
    ∃ r, reserveOfflinedPage m h head = .ok r ∧
      SetAside m h C ((frames head k).filter fun f => decide ((h.page f).state = .offlined)) r.2 ∧
      ((∀ t ∈ r.2.blocks m, t.1 ∈ cells (head, k) → Aligned t) ↔
        RunsAligned (fun f => decide ((h.page f).state = .offlined)) head (head + 2 ^ k) head) := by
  obtain ⟨-, hp⟩ := hh.filed n z k head hb
  obtain ⟨hn, hz⟩ := hp (self_mem_cells head k)
  have hone : k = 0 → ∀ x, head ≤ x → x < head + 2 ^ k →
      decide ((h.page x).state = .offlined) = true := by
    rintro rfl x hx hx'
    obtain ⟨y, hy, hoff⟩ := hoff
    have hy := mem_cells.1 hy
    obtain rfl : x = y := by omega
    exact decide_eq_true hoff
  have hu : h.unlink n z k head = .ok (h.setList n z k ((h.free n z k).erase head)) := if_pos hb
  obtain ⟨h', hf, hblocks⟩ := refile_blocks (2 ^ k) (h.setList n z k ((h.free n z k).erase head))
    (fun x hx hx' => hp ⟨hx, hx'⟩) hone
  have haside := fun r => reserveOfflinedPage_spec (r := r) hh hc hb
  unfold reserveOfflinedPage at haside ⊢
  rw [hh.order n z k head hb, hn, hz] at haside ⊢
  simp only [hu, hf] at haside ⊢
  refine ⟨_, rfl, haside _ rfl,
    Iff.trans (forall_congr' fun t => ?_) (pieces_aligned_iff le_rfl rfl le_rfl (.inl (.inl rfl)))⟩
  have hold : t ∈ (h.setList n z k ((h.free n z k).erase head)).blocks m → t.1 ∉ cells (head, k) :=
    fun ht =>
    ((hh.remove hb).tiles.sub t ht (self_mem_cells t.1 t.2)).2
  rw [Heap.blocks, setAside_free, ← Heap.blocks, hblocks]
  exact ⟨fun ha ht => ha (.inr ht), fun ha ht hin => ha (ht.resolve_left fun ho => hold ho hin) hin⟩

end Reserve

/-- Frames 8 to 11 are a free block, and `bad` is offlined. -/
def fourPages (bad : Nat) : Heap :=
  ({ noPages with page := fun f => ⟨if f = bad then .offlined else .free, false, 0⟩ }.adjust 0 4
    4).push 0 4 2 8

theorem fourPages_holds (bad : Nat) :
    ∃ C, (fourPages bad).Holds oneNode C ∧ (fourPages bad).Counts oneNode C := by
  have hs := noPages_sound oneNode
  have hd : Disjoint (cells (8, 2)) noPages.freeFrames := Set.disjoint_left.2 nofun
  have hp : cells (8, 2) ⊆ place oneNode 0 4 := fun x hx =>
    ⟨rfl, (by decide : ∀ x < 12, 8 ≤ x → pageToZone x = 4) x hx.2 hx.1⟩
  have hc := hs.counts.add (finite_cells (8, 2)) hd hp
  rw [ncard_cells] at hc
  exact ⟨_, Heap.Holds.push (hs.holds.congr rfl nofun) hd hp (by decide),
    ⟨hc.finite, hc.avail, hc.total⟩⟩

theorem reserve_offlined_page_aligned_last :
    ∃ r, reserveOfflinedPage oneNode (fourPages 11) 8 = .ok r ∧
    ∀ t ∈ r.2.blocks oneNode, t.1 ∈ cells (8, 2) → Aligned t := by
  obtain ⟨C, hh, hc⟩ := fourPages_holds 11
  have hb : 8 ∈ (fourPages 11).free 0 4 2 := by decide
  obtain ⟨r, hr, -, hiff⟩ :=
    reserve_offlined_page_aligned_iff hh hc hb ⟨11, mem_cells.2 (by decide), by decide⟩
  refine ⟨r, hr, hiff.2 fun a j ha hs hw => ?_⟩
  have hend : a + 2 ^ j < 12 := hw.1
  have hstart : ∀ a < 12, 8 ≤ a → ((fourPages 11).page (a - 1)).state ≠ .offlined := by decide
  obtain rfl := hs.resolve_right fun ho =>
    hstart a ((Nat.le_add_right a _).trans_lt hend) ha (of_decide_eq_true ho)
  have hj : 2 ^ j < 2 ^ 2 := by omega
  exact (by decide : ∀ j < 2, Aligned (8, j)) j ((Nat.pow_lt_pow_iff_right (by decide)).1 hj)

def onePage : Request where
  zoneLo := 1
  zoneHi := 4
  order := 0
  node := none
  exactNode := false
  noRefcount := false
  dom := none
  cpuNode := 0

/-- Frame 8 is offlined. The two pages from frame 9 are a block of order 1, and the next allocation
returns it. -/
theorem reserve_offlined_page_unaligned : ∃ C r, (fourPages 8).Holds oneNode C ∧
    (fourPages 8).Counts oneNode C ∧
    reserveOfflinedPage oneNode (fourPages 8) 8 = .ok r ∧ 9 ∈ r.2.free 0 4 1 ∧ ¬ Aligned (9, 1) ∧
    (allocHeapPages oneNode r.2 { onePage with order := 1 }).toOption.map Prod.fst =
      some (some (9, 0)) := by
  obtain ⟨C, hh, hc⟩ := fourPages_holds 8
  exact ⟨C, _, hh, hc, rfl, by decide, by decide, by decide +kernel⟩

end XenVmi.PageAlloc
