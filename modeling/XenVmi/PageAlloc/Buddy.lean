import XenVmi.Lib.Runs
import XenVmi.PageAlloc.Lists

/-!
# Allocating and coalescing

The heap without offlining: pages with non-zero frame numbers are freed to an empty heap, then
blocks are allocated and freed. `Heap.Buddy`: the free lists partition the free pages into aligned
blocks, and no two buddies of equal order are both free.
-/

namespace XenVmi.PageAlloc

open XenVmi.Lib List

theorem log2_block {c j r : Nat} (hc : c ≠ 0) (hr : r < 2 ^ j) :
    (c * 2 ^ j + r).log2 = c.log2 + j := by
  obtain ⟨hlo, hhi⟩ := (Nat.log2_eq_iff hc).1 rfl
  have hpos : 0 < 2 ^ j := Nat.two_pow_pos j
  have hge : 2 ^ c.log2 * 2 ^ j ≤ c * 2 ^ j := Nat.mul_le_mul_right _ hlo
  have hlt : (c + 1) * 2 ^ j ≤ 2 ^ (c.log2 + 1) * 2 ^ j := Nat.mul_le_mul_right _ hhi
  have hne : c * 2 ^ j + r ≠ 0 := by
    have := Nat.mul_pos (Nat.pos_of_ne_zero hc) hpos
    omega
  rw [Nat.log2_eq_iff hne, Nat.pow_add, Nat.add_right_comm, Nat.pow_add 2 (c.log2 + 1) j]
  rw [Nat.add_mul] at hlt
  omega

theorem pageToZone_buddy {t : Nat × Nat} (ht : Aligned t) (h0 : t.1 ≠ 0) (hb : buddy t ≠ 0) :
    pageToZone (buddy t) = pageToZone t.1 := by
  obtain ⟨b, k⟩ := t
  have hlt : 2 ^ k < 2 ^ (k + 1) := Nat.pow_lt_pow_right (by omega) (Nat.lt_succ_self k)
  have hpos : 0 < 2 ^ (k + 1) := Nat.two_pow_pos _
  have hne : ∀ c, b = c * 2 ^ (k + 1) → c ≠ 0 := fun c hc h => h0 (by rw [hc, h, Nat.zero_mul])
  unfold buddy at hb ⊢
  unfold pageToZone
  rcases aligned_cases ht with ⟨c, hc, hbit⟩ | ⟨c, hc, hbit⟩
  · have hc0 := hne c hc
    have hself := log2_block hc0 hpos
    rw [Nat.add_zero] at hself
    rw [hbit, if_neg Bool.false_ne_true, hc, log2_block hc0 hlt, hself]
  · rw [hbit, if_pos rfl, hc, Nat.add_sub_cancel] at hb ⊢
    have hc0 : c ≠ 0 := fun h => hb (by rw [h, Nat.zero_mul])
    have hself := log2_block hc0 hpos
    rw [Nat.add_zero] at hself
    rw [log2_block hc0 hlt, hself]

/-! ## Sound heaps -/

def Heap.freeFrames (h : Heap) : Set Nat := {x | (h.page x).state = .free}

/-- The free lists hold the free pages, the counters count them, and no page is broken. -/
structure Heap.Sound (m : Machine) (h : Heap) : Prop where
  holds : h.Holds m h.freeFrames
  counts : h.Counts m h.freeFrames
  unbroken : ∀ x, (h.page x).broken = false

section Sound

variable {m : Machine} {h h' : Heap} {n z j b k pg : Nat}

theorem Heap.Sound.isFree (inv : h.Sound m) {x : Nat} (hx : x ∈ h.freeFrames) :
    (h.page x).isFree = true := by
  unfold Page.isFree
  rw [inv.unbroken x, show (h.page x).state = .free from hx]
  rfl

theorem Taken.freeFrames (ht : Taken m h h.freeFrames n z j b k (pg, h')) :
    h'.freeFrames = h.freeFrames \ cells (pg, k) := by
  ext x
  by_cases hx : x ∈ cells (pg, k)
  · refine iff_of_false (fun hf => ?_) fun hf => hf.2 hx
    have hf : (h'.page x).state = .free := hf
    rw [(ht.inuse x hx).1] at hf
    cases hf
  · show (h'.page x).state = .free ↔ (h.page x).state = .free ∧ _
    rw [(ht.other x hx).1]
    exact ⟨fun hf => ⟨hf, hx⟩, And.left⟩

theorem Taken.sound (inv : h.Sound m) (ht : Taken m h h.freeFrames n z j b k (pg, h')) :
    h'.Sound m := by
  have hset := ht.freeFrames
  refine ⟨by rw [hset]; exact ht.holds, by rw [hset]; exact ht.counts, fun x => ?_⟩
  by_cases hx : x ∈ cells (pg, k)
  · exact (ht.inuse x hx).2
  · rw [(ht.other x hx).2]
    exact inv.unbroken x

theorem noPages_sound (m : Machine) : noPages.Sound m := by
  have hset : noPages.freeFrames = ∅ := Set.eq_empty_of_forall_notMem nofun
  refine ⟨⟨⟨fun t ht => absurd ht not_mem_nil, fun x hx => ?_, fun t ht => absurd ht not_mem_nil⟩,
    fun n z k b hb => absurd hb not_mem_nil, fun _ _ _ => nodup_nil,
    fun n z k b hb => absurd hb not_mem_nil⟩, ?_, fun _ => rfl⟩
  · rw [hset] at hx
    exact hx.elim
  · rw [hset]
    exact ⟨Set.finite_empty, fun n z => by rw [Set.empty_inter, Set.ncard_empty]; rfl,
      by rw [Set.ncard_empty]; rfl⟩

theorem freeable_page {C : Set Nat} {mfn : Nat} (hout : mfn ∉ C) : Freeable m C mfn 0 where
  le := Nat.zero_le _
  outside := by
    rw [cells_zero, Set.disjoint_singleton_left]
    exact hout
  inPlace x hx := by
    rw [cells_zero] at hx
    rw [Set.mem_singleton_iff.1 hx]
    exact ⟨rfl, rfl⟩

end Sound

/-! ## Coalesced heaps -/

/-- No free block of an order below `MAX_ORDER` could be merged with its buddy. -/
def Heap.Coalesced (m : Machine) (h : Heap) : Prop :=
  ∀ t ∈ h.blocks m, t.2 < m.maxOrder → m.nid (buddy t) = m.nid t.1 → m.mfnValid t.1 = true →
    m.mfnValid (buddy t) = true → (buddy t, t.2) ∉ h.blocks m

structure Heap.Buddy (m : Machine) (h : Heap) : Prop where
  sound : h.Sound m
  calm : ∀ x, (h.page x).state = .inuse ∨ (h.page x).state = .free
  zero : 0 ∉ h.freeFrames
  aligned : ∀ t ∈ h.blocks m, Aligned t
  coalesced : h.Coalesced m

section Merge

variable {m : Machine} {h : Heap} {C : Set Nat} {n z : Nat}

theorem mergeable_iff {pg k : Nat} : h.mergeable m n pg k = true ↔
    m.mfnValid (buddy (pg, k)) = true ∧ (h.page (buddy (pg, k))).state = .free ∧
      (h.page (buddy (pg, k))).order = k ∧ m.nid (buddy (pg, k)) = n := by
  unfold Heap.mergeable
  rw [← buddyOf_eq]
  simp only [Bool.and_eq_true, decide_eq_true_eq, and_assoc]

theorem mergeUp_buddy {pg k : Nat} (fuel : Nat) (hh : h.Holds m C)
    (hal : ∀ t ∈ h.blocks m, Aligned t) (ht : Aligned (pg, k)) (hd : Disjoint (cells (pg, k)) C)
    (hp : cells (pg, k) ⊆ place m n z) (hk : k + fuel = m.maxOrder)
    (hfree : ∀ x, (h.page x).state = .free → x ∈ C ∪ cells (pg, k)) (h0 : 0 ∉ C ∪ cells (pg, k)) :
    ∃ r, Heap.mergeUp m n z fuel pg k h = .ok r ∧ Aligned (r.1, r.2.1) ∧
      (r.2.1 < m.maxOrder → r.2.2.mergeable m n r.1 r.2.1 = false) := by
  induction fuel generalizing pg k h C with
  | zero => exact ⟨(pg, k, h), rfl, ht, fun hlt => absurd hlt (by simp only; omega)⟩
  | succ fuel ih =>
    rw [Heap.mergeUp]
    by_cases hm : h.mergeable m n pg k = true
    · rw [if_pos hm]
      obtain ⟨-, hstate, horder, hnid⟩ := mergeable_iff.1 hm
      have hself : buddy (pg, k) ∈ cells (buddy (pg, k), k) := self_mem_cells _ _
      have hbC : buddy (pg, k) ∈ C := (hfree _ hstate).resolve_right fun hx =>
        Set.disjoint_left.1 (disjoint_buddy (pg, k)) hx hself
      -- the buddy is the first page of a block, and its order says which
      obtain ⟨j, hj, hblock⟩ := hh.tiles.head_of_buddy hal ht hd hbC
      have hlist : buddy (pg, k) ∈ h.free (m.nid (buddy (pg, k))) (pageToZone (buddy (pg, k))) j :=
        hblock
      have hjk : j = k := (hh.order _ _ _ _ hlist).symm.trans horder
      have hzone : pageToZone (buddy (pg, k)) = z := by
        have hpz := (hp (self_mem_cells pg k)).2
        rw [pageToZone_buddy ht (fun h => h0 (.inr ?_)) fun h => h0 (.inl (h ▸ hbC))]
        · exact hpz
        · rw [← h]
          exact self_mem_cells pg k
      rw [hjk, hnid, hzone] at hlist
      have hu : h.unlink n z k (buddyOf pg k) =
          .ok (h.setList n z k ((h.free n z k).erase (buddy (pg, k)))) := if_pos hlist
      rw [hu]
      obtain ⟨hdis, hplace, hset⟩ := hh.merge hd hp hlist
      refine ih (hh.remove hlist) (fun t ht => hal t ((mem_setList_erase hh hlist _ _ _ _).1 ht).1)
        (aligned_parent ht) hdis hplace (by omega) (fun x hx => ?_) ?_
      · show x ∈ _ ∪ cells (parent (pg, k))
        rw [hset]
        exact hfree x hx
      · show 0 ∉ _ ∪ cells (parent (pg, k))
        rw [hset]
        exact h0
    · rw [if_neg hm]
      exact ⟨(pg, k, h), rfl, ht, fun _ => Bool.eq_false_iff.2 hm⟩

end Merge

section Free

variable {m : Machine} {h : Heap} {pg k : Nat}

theorem freeHeapPages_eq {r : Nat × Nat × Heap}
    (hr : Heap.mergeUp m (m.nid pg) (pageToZone pg) (m.maxOrder - k) pg k (h.released m pg k) =
      .ok r)
    (hclean : ∀ x ∈ cells (pg, k), (h.page x).state ≠ .offlining) :
    freeHeapPages m h pg k = .ok (r.2.2.push (m.nid pg) (pageToZone pg) r.2.1 r.1) := by
  have htaint : (frames pg k).any
      (fun f => decide (((h.released m pg k).page f).state = .offlined)) = false := by
    rw [any_eq_false]
    intro f hf ho
    have hf := mem_frames.1 hf
    rw [released_of_mem hf, decide_eq_true_eq, freed_offlined_iff] at ho
    exact hclean f hf ho
  obtain ⟨pg', k', h'⟩ := r
  unfold Heap.released at hr htaint
  unfold freeHeapPages
  simp only [hr, htaint]
  rfl

theorem freeHeapPages_buddy (hb : h.Buddy m) (hf : Freeable m h.freeFrames pg k)
    (ht : Aligned (pg, k)) (h0 : 0 ∉ cells (pg, k)) :
    ∃ h', freeHeapPages m h pg k = .ok h' ∧ h'.Buddy m ∧
      h'.freeFrames = h.freeFrames ∪ cells (pg, k) ∧ h'.claims = h.claims := by
  have hnone : ∀ x, (h.page x).state ≠ .offlining := fun x hx => by
    rcases hb.calm x with hc | hc <;> rw [hx] at hc <;> cases hc
  have hholds := released_holds hb.sound.holds hf
  have hblocks : (h.released m pg k).blocks m = h.blocks m := rfl
  have hfree : ∀ x, ((h.released m pg k).page x).state = .free ↔
      x ∈ h.freeFrames ∪ cells (pg, k) := by
    intro x
    by_cases hx : x ∈ cells (pg, k)
    · rw [released_of_mem hx]
      refine iff_of_true ?_ (.inr hx)
      unfold Page.freed
      rw [if_neg (hnone x)]
    · rw [released_of_not_mem hx]
      exact ⟨.inl, fun h => h.resolve_right hx⟩
  have h0' : 0 ∉ h.freeFrames ∪ cells (pg, k) := fun h => h.elim hb.zero h0
  have hle := hf.le
  obtain ⟨r, hr, hal, hmax⟩ := mergeUp_buddy (m.maxOrder - k) hholds
    (by exact hb.aligned) ht hf.outside hf.inPlace (by omega) (fun x hx => (hfree x).1 hx) h0'
  have hmerged := mergeUp_spec hholds hf.outside hf.inPlace (by omega) hr
  have heq := freeHeapPages_eq hr fun x _ => hnone x
  have hrel := hmerged.relists.trans (push_relists r.2.2 (m.nid pg) (pageToZone pg) r.2.1 r.1)
  have hset : (r.2.2.push (m.nid pg) (pageToZone pg) r.2.1 r.1).freeFrames =
      h.freeFrames ∪ cells (pg, k) := Set.ext fun x => by
    show (Heap.page _ x).state = .free ↔ _
    rw [hrel.state, hfree]
  have hnew := blocks_push (h := r.2.2) (k := r.2.1) (hmerged.inPlace (self_mem_cells r.1 r.2.1))
  have hold : ∀ t ∈ r.2.2.blocks m, t ∈ h.blocks m := fun t ht => hmerged.blocks ht
  -- the merged block has no buddy to be merged with
  have hlone : r.2.1 < m.maxOrder → m.nid (buddy (r.1, r.2.1)) = m.nid r.1 →
      m.mfnValid (buddy (r.1, r.2.1)) = true → (buddy (r.1, r.2.1), r.2.1) ∉ r.2.2.blocks m := by
    intro hlt hnid hv hmem
    have hin := hmerged.holds.tiles.sub _ hmem (self_mem_cells _ _)
    have hmem' : buddy (r.1, r.2.1) ∈ r.2.2.free _ _ r.2.1 := hmem
    have hno := hmax hlt
    rw [← Bool.not_eq_true, mergeable_iff] at hno
    refine hno ⟨hv, ?_, hmerged.holds.order _ _ _ _ hmem', ?_⟩
    · rw [hmerged.page]
      exact (hfree _).2 (.inl hin.1)
    · rw [hnid]
      exact (hmerged.inPlace (self_mem_cells r.1 r.2.1)).1
  refine ⟨_, heq, ⟨⟨?_, ?_, fun x => ?_⟩, fun x => ?_, by rw [hset]; exact h0', ?_, ?_⟩, hset,
    hrel.claims⟩
  · rw [hset]
    exact hmerged.push
  · rw [hset]
    exact hrel.counts (released_counts hb.sound.counts hf)
  · rw [hrel.broken]
    by_cases hx : x ∈ cells (pg, k)
    · rw [released_of_mem hx]
      exact hb.sound.unbroken x
    · rw [released_of_not_mem hx]
      exact hb.sound.unbroken x
  · rw [hrel.state]
    by_cases hx : x ∈ cells (pg, k)
    · exact .inr ((hfree x).2 (.inr hx))
    · rw [released_of_not_mem hx]
      exact hb.calm x
  · rw [hnew]
    rintro t (rfl | ht)
    · exact hal
    · exact hb.aligned t (hold t ht)
  · rw [Heap.Coalesced, hnew]
    rintro t (rfl | ht) hlt hnid hv hv' (heq | hmem)
    · -- a block is not its own buddy
      have hd := disjoint_buddy (r.1, r.2.1)
      rw [show buddy (r.1, r.2.1) = r.1 from congrArg Prod.fst heq] at hd
      exact Set.disjoint_left.1 hd (self_mem_cells r.1 r.2.1) (self_mem_cells r.1 r.2.1)
    · exact hlone hlt hnid hv' hmem
    · obtain ⟨h1, h2⟩ := Prod.mk.inj heq
      have hback := buddy_buddy (hb.aligned t (hold t ht))
      rw [h2, h1] at hback
      refine hlone (h2 ▸ hlt) ?_ ?_ ?_
      · rw [hback, ← hnid, h1]
      · rw [hback]
        exact hv
      · rw [hback, ← h2]
        exact ht
    · exact hb.coalesced t (hold t ht) hlt hnid hv hv' (hold _ hmem)

end Free

/-! ## Allocating -/

section Alloc

variable {m : Machine} {h h' : Heap} {n z j b k pg : Nat}

theorem mem_zones {req : Request} {zone : Nat} (hz : zone ∈ req.zones) :
    zone ≤ req.zoneHi ∧ (req.zoneLo ≤ req.zoneHi → req.zoneLo ≤ zone) := by
  obtain ⟨i, hi, rfl⟩ := mem_map.1 hz
  rw [mem_range] at hi
  omega

theorem Taken.keepsBuddy (hb : h.Buddy m) (hlist : b ∈ h.free n z j)
    (ht : Taken m h h.freeFrames n z j b k (pg, h')) : h'.Buddy m := by
  have hblock : Aligned (b, j) := hb.aligned _ ((mem_blocks_iff hb.sound.holds).2 ⟨n, z, hlist⟩)
  have hhalf := ht.halves hblock
  refine ⟨ht.sound hb.sound, fun x => ?_, ?_, fun t htm => ?_, ?_⟩
  · by_cases hx : x ∈ cells (pg, k)
    · exact .inl (ht.inuse x hx).1
    · rw [(ht.other x hx).1]
      exact hb.calm x
  · rw [ht.freeFrames]
    exact fun h0 => hb.zero h0.1
  · rcases hhalf t htm with hold | ⟨hal, -⟩
    · exact hb.aligned t hold
    · exact hal
  · intro t htm hlt hnid hv hv' hmem
    -- the buddy of a half that went back has the block that was taken
    have hnew : ∀ u ∈ h'.blocks m, (buddy u, u.2) ∈ h'.blocks m → u ∈ h.blocks m := by
      intro u hu hbu
      rcases hhalf u hu with hold | ⟨-, hsub⟩
      · exact hold
      · have hin := ht.holds.tiles.sub _ hbu (hsub (self_mem_cells pg k))
        exact absurd (self_mem_cells pg k) hin.2
    have hal : Aligned t := (hhalf t htm).elim (hb.aligned t) And.left
    have hback : (buddy (buddy t, t.2), t.2) = t := by rw [buddy_buddy hal]
    refine hb.coalesced t (hnew t htm hmem) hlt hnid hv hv' (hnew _ hmem ?_)
    show (buddy (buddy t, t.2), t.2) ∈ _
    rw [hback]
    exact htm

structure Allocated (m : Machine) (h : Heap) (req : Request) (pg node : Nat) (h' : Heap) :
    Prop where
  le : req.order ≤ m.maxOrder
  aligned : Aligned (pg, req.order)
  zone : ∃ zone ∈ req.zones, cells (pg, req.order) ⊆ place m node zone
  free : cells (pg, req.order) ⊆ h.freeFrames
  rest : h'.freeFrames = h.freeFrames \ cells (pg, req.order)
  claims : h'.claims = h.claims

theorem allocHeapPages_buddy (hb : h.Buddy m) (req : Request) :
    ∃ r, allocHeapPages m h req = .ok r ∧ r.2.Buddy m ∧
      ((r.1 = none ∧ r.2 = h) ∨ ∃ pg node, r.1 = some (pg, node) ∧
        Allocated m h req pg node r.2) := by
  have hok : ∃ r, allocHeapPages m h req = .ok r := by
    unfold allocHeapPages
    split
    · exact ⟨_, rfl⟩
    split
    · exact ⟨_, rfl⟩
    split
    · exact ⟨_, rfl⟩
    rename_i node zone j hsearch
    split
    · exact ⟨_, rfl⟩
    · rename_i b l hlist
      obtain ⟨r, hr⟩ := (take_spec hb.sound.holds hb.sound.counts hlist (search_spec hsearch).2.1).2
        fun f hf => hb.sound.isFree hf
      rw [hr]
      exact ⟨_, rfl⟩
  obtain ⟨r, hr⟩ := hok
  refine ⟨r, hr, ?_⟩
  rcases allocHeapPages_spec hb.sound.holds hb.sound.counts hr with ⟨hnone, heq⟩ |
      ⟨pg, node, zone, j, b, hsome, hz, hle, hlist, ht⟩
  · rw [heq]
    exact ⟨hb, .inl ⟨hnone, rfl⟩⟩
  · have hal := hb.aligned _ ((mem_blocks_iff hb.sound.holds).2 ⟨node, zone, hlist⟩)
    exact ⟨ht.keepsBuddy hb hlist,
      .inr ⟨pg, node, hsome, hle, ht.aligned hal, ⟨zone, hz, ht.inPlace⟩,
      ht.sub, ht.freeFrames, ht.claims⟩⟩

end Alloc

/-! ## The first pages -/

section Init

variable {m : Machine}

theorem noPages_buddy (m : Machine) : noPages.Buddy m where
  sound := noPages_sound m
  calm _ := .inl rfl
  zero h0 := by cases h0
  aligned t ht := absurd ht not_mem_nil
  coalesced t ht := absurd ht not_mem_nil

theorem aligned_page (f : Nat) : Aligned (f, 0) := by
  exact Nat.one_dvd f

theorem freePages_buddy {fs : List Nat} {h : Heap} (hnd : fs.Nodup) (h0 : 0 ∉ fs) (hb : h.Buddy m)
    (hout : ∀ f ∈ fs, f ∉ h.freeFrames) :
    ∃ h', fs.foldlM (fun h f => freeHeapPages m h f 0) h = .ok h' ∧ h'.Buddy m ∧
      h'.freeFrames = h.freeFrames ∪ {f | f ∈ fs} ∧ h'.claims = h.claims := by
  induction fs generalizing h with
  | nil =>
    refine ⟨h, rfl, hb, ?_, rfl⟩
    simp
  | cons f fs ih =>
    rw [nodup_cons] at hnd
    rw [mem_cons, not_or] at h0
    obtain ⟨h₁, hr, hb₁, hset, hcl⟩ := freeHeapPages_buddy hb (freeable_page (hout f mem_cons_self))
      (aligned_page f) (by rw [cells_zero]; exact h0.1)
    rw [cells_zero] at hset
    obtain ⟨h₂, hr₂, hb₂, hset₂, hcl₂⟩ := ih hnd.2 h0.2 hb₁ fun g hg hin => by
      rw [hset] at hin
      rcases hin with hin | rfl
      · exact hout g (mem_cons_of_mem _ hg) hin
      · exact hnd.1 hg
    refine ⟨h₂, ?_, hb₂, ?_, hcl₂.trans hcl⟩
    · rw [foldlM_cons, hr]
      exact hr₂
    · rw [hset₂, hset]
      ext x
      simp only [Set.mem_union, Set.mem_singleton_iff, Set.mem_ofPred_eq, mem_cons]
      tauto

theorem initHeapPages_buddy {fs : List Nat} (hnd : fs.Nodup) (h0 : 0 ∉ fs) :
    ∃ h, initHeapPages m fs = .ok h ∧ h.Buddy m ∧ h.freeFrames = {f | f ∈ fs} ∧ h.claims = 0 := by
  have hempty : noPages.freeFrames = ∅ := Set.eq_empty_of_forall_notMem nofun
  obtain ⟨h, hr, hb, hset, hcl⟩ := freePages_buddy hnd h0 (noPages_buddy m) nofun
  rw [hempty, Set.empty_union] at hset
  exact ⟨h, hr, hb, hset, hcl⟩

end Init

/-! ## Runs -/

structure BuddyState where
  heap : Heap
  live : List (Nat × Nat)

inductive BuddyOp where
  | alloc (req : Request)
  | free (pg order : Nat)

def buddyStep (m : Machine) (s : BuddyState) : BuddyOp → Except HeapFault BuddyState
  | .alloc req => (allocHeapPages m s.heap req).map fun r =>
      ⟨r.2, (r.1.map fun b => (b.1, req.order)).toList ++ s.live⟩
  | .free pg order => (freeHeapPages m s.heap pg order).map fun h => ⟨h, s.live.erase (pg, order)⟩

def BuddyOp.Owned (s : BuddyState) : BuddyOp → Prop
  | .alloc _ => True
  | .free pg order => (pg, order) ∈ s.live

structure BuddyInv (m : Machine) (F : Set Nat) (s : BuddyState) : Prop where
  buddy : s.heap.Buddy m
  free : ∀ x, (s.heap.page x).state = .free ↔ x ∈ F ∧ ∀ t ∈ s.live, x ∉ cells t
  live : ∀ t ∈ s.live, t.2 ≤ m.maxOrder ∧ Aligned t ∧ cells t ⊆ F ∧
    cells t ⊆ place m (m.nid t.1) (pageToZone t.1)
  apart : s.live.Pairwise fun t t' => Disjoint (cells t) (cells t')
  zero : 0 ∉ F

section Runs

variable {m : Machine} {F : Set Nat} {s s' : BuddyState} {t : Nat × Nat} (inv : BuddyInv m F s)

include inv

theorem BuddyInv.freeable (ht : t ∈ s.live) : Freeable m s.heap.freeFrames t.1 t.2 where
  le := (inv.live t ht).1
  outside := Set.disjoint_left.2 fun x hx hf => ((inv.free x).1 hf).2 t ht hx
  inPlace := (inv.live t ht).2.2.2

theorem BuddyInv.free_ok (ht : t ∈ s.live) :
    ∃ h', freeHeapPages m s.heap t.1 t.2 = .ok h' ∧ h'.Buddy m ∧
      h'.freeFrames = s.heap.freeFrames ∪ cells t ∧ h'.claims = s.heap.claims := by
  obtain ⟨-, hal, hsub, -⟩ := inv.live t ht
  exact freeHeapPages_buddy inv.buddy (inv.freeable ht) hal fun h0 => inv.zero (hsub h0)

theorem BuddyInv.freed (ht : t ∈ s.live) {h' : Heap}
    (hb : h'.Buddy m) (hset : h'.freeFrames = s.heap.freeFrames ∪ cells t) :
    BuddyInv m F ⟨h', s.live.erase t⟩ := by
  have hperm := perm_cons_erase ht
  have happart := (hperm.pairwise_iff fun {a b} h => Disjoint.symm h).1 inv.apart
  rw [pairwise_cons] at happart
  refine ⟨hb, fun x => ?_, fun u hu => inv.live u (mem_of_mem_erase hu), happart.2, inv.zero⟩
  show x ∈ h'.freeFrames ↔ _
  rw [hset]
  show (s.heap.page x).state = .free ∨ _ ↔ _
  rw [inv.free]
  constructor
  · rintro (⟨hx, hno⟩ | hx)
    · exact ⟨hx, fun u hu => hno u (mem_of_mem_erase hu)⟩
    · exact ⟨(inv.live t ht).2.2.1 hx, fun u hu hxu => Set.disjoint_left.1 (happart.1 u hu) hx hxu⟩
  · rintro ⟨hx, hno⟩
    by_cases hxt : x ∈ cells t
    · exact .inr hxt
    · refine .inl ⟨hx, fun u hu => ?_⟩
      rcases mem_cons.1 (hperm.mem_iff.1 hu) with rfl | hu
      · exact hxt
      · exact hno u hu

theorem BuddyInv.allocated {req : Request} {pg node : Nat} {h' : Heap}
    (hb : h'.Buddy m) (ha : Allocated m s.heap req pg node h') :
    BuddyInv m F ⟨h', (pg, req.order) :: s.live⟩ := by
  obtain ⟨zone, -, hplace⟩ := ha.zone
  have hfree : ∀ x ∈ cells (pg, req.order), x ∈ F ∧ ∀ t ∈ s.live, x ∉ cells t := fun x hx =>
    (inv.free x).1 (ha.free hx)
  refine ⟨hb, fun x => ?_, fun t ht => ?_, pairwise_cons.2 ⟨fun t ht => ?_, inv.apart⟩, inv.zero⟩
  · show x ∈ h'.freeFrames ↔ _
    rw [ha.rest]
    show (s.heap.page x).state = .free ∧ _ ↔ _
    rw [inv.free, forall_mem_cons]
    tauto
  · rcases mem_cons.1 ht with rfl | ht
    · obtain ⟨hn, hz⟩ := hplace (self_mem_cells pg req.order)
      refine ⟨ha.le, ha.aligned, fun x hx => (hfree x hx).1, ?_⟩
      rw [hn, hz]
      exact hplace
    · exact inv.live t ht
  · exact Set.disjoint_left.2 fun x hx hxt => (hfree x hx).2 t ht hxt

omit inv

theorem buddyStep_inv {op : BuddyOp} (hop : op.Owned s) (inv : BuddyInv m F s)
    (hr : buddyStep m s op = .ok s') : BuddyInv m F s' := by
  cases op with
  | alloc req =>
    obtain ⟨r, hcall, rfl⟩ := exists_ok_of_except_map hr
    obtain ⟨r', hcall', hb, hres⟩ := allocHeapPages_buddy inv.buddy req
    rw [hcall] at hcall'
    cases hcall'
    rcases hres with ⟨hnone, heq⟩ | ⟨pg, node, hsome, ha⟩
    · rw [hnone, heq]
      exact inv
    · rw [hsome]
      exact inv.allocated hb ha
  | free pg order =>
    obtain ⟨h, hcall, rfl⟩ := exists_ok_of_except_map hr
    obtain ⟨h', hcall', hb, hset, -⟩ := inv.free_ok hop
    rw [hcall] at hcall'
    cases hcall'
    exact inv.freed hop hb hset

/-- **The buddy heap**: in every run from pages without frame 0, the free lists partition the free
pages into aligned, coalesced blocks, the functions do not fail, and what is allocated is aligned,
in one node and zone asked for, and apart from all live blocks. -/
theorem buddy_heap_correct (m : Machine) {fs : List Nat} (hnd : fs.Nodup) (h0 : 0 ∉ fs) :
    ∃ h₀, initHeapPages m fs = .ok h₀ ∧
      ∀ s, Reaches (buddyStep m) (fun s op => op.Owned s) ⟨h₀, []⟩ s →
        (∀ x, (s.heap.page x).state = .free ↔ x ∈ fs ∧ ∀ t ∈ s.live, x ∉ cells t) ∧
        s.heap.Holds m s.heap.freeFrames ∧ (∀ t ∈ s.heap.blocks m, Aligned t) ∧
        s.heap.Counts m s.heap.freeFrames ∧ s.heap.Coalesced m ∧
        (∀ t ∈ s.live, ∃ h', freeHeapPages m s.heap t.1 t.2 = .ok h') ∧
        ∀ req, ∃ r, allocHeapPages m s.heap req = .ok r ∧ ∀ pg node, r.1 = some (pg, node) →
          Aligned (pg, req.order) ∧
          (∃ zone ≤ req.zoneHi, (req.zoneLo ≤ req.zoneHi → req.zoneLo ≤ zone) ∧
            ∀ x ∈ cells (pg, req.order), m.nid x = node ∧ pageToZone x = zone) ∧
          ∀ t ∈ s.live, Disjoint (cells (pg, req.order)) (cells t) := by
  obtain ⟨h₀, hinit, hb, hset, -⟩ := initHeapPages_buddy hnd h0
  refine ⟨h₀, hinit, fun s run => ?_⟩
  have init : BuddyInv m {f | f ∈ fs} ⟨h₀, []⟩ :=
    ⟨hb, fun x => (Set.ext_iff.1 hset x).trans (by simp), fun t ht => absurd ht not_mem_nil,
      List.Pairwise.nil, h0⟩
  have inv : BuddyInv m {f | f ∈ fs} s :=
    run.invariant
      (fun _ _ _ hg hs h => buddyStep_inv hg h hs) init
  refine ⟨inv.free, inv.buddy.sound.holds, inv.buddy.aligned, inv.buddy.sound.counts,
    inv.buddy.coalesced, fun t ht => ?_, fun req => ?_⟩
  · obtain ⟨h', hr, -⟩ := inv.free_ok ht
    exact ⟨h', hr⟩
  · obtain ⟨r, hr, -, hres⟩ := allocHeapPages_buddy inv.buddy req
    refine ⟨r, hr, fun pg node hsome => ?_⟩
    rcases hres with ⟨hnone, -⟩ | ⟨pg', node', hsome', ha⟩
    · rw [hnone] at hsome
      cases hsome
    rw [hsome] at hsome'
    cases hsome'
    obtain ⟨zone, hz, hplace⟩ := ha.zone
    obtain ⟨hhi, hlo⟩ := mem_zones hz
    exact ⟨ha.aligned, ⟨zone, hhi, hlo, hplace⟩,
      fun t ht => Set.disjoint_left.2 fun x hx hxt => ((inv.free x).1 (ha.free hx)).2 t ht hxt⟩

/-- Sixteen frames on one node. -/
def oneNode : Machine where
  nid _ := 0
  mfnValid f := decide (f < 16)
  maxOrder := 3
  maxNodes := 1
  online n := decide (n = 0)

/-- Frames 4 to 7 make one block of order 2. -/
theorem buddy_heap_correct_four :
    ∃ h₀, initHeapPages oneNode [6, 4, 7, 5] = .ok h₀ ∧ h₀.free 0 3 2 = [4] ∧
      h₀.Coalesced oneNode := by
  have hfour : ∃ h₀, initHeapPages oneNode [6, 4, 7, 5] = .ok h₀ ∧ _ :=
    buddy_heap_correct oneNode (by decide) (by decide)
  obtain ⟨h₀, hinit, hrun⟩ := hfour
  have hlist : (initHeapPages oneNode [6, 4, 7, 5]).toOption.map (fun h => h.free 0 3 2) =
      some [4] := by
    decide +kernel
  rw [hinit] at hlist
  exact ⟨h₀, hinit, Option.some.inj hlist, (hrun _ .refl).2.2.2.2.1⟩

end Runs

end XenVmi.PageAlloc
