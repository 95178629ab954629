import XenVmi.Lib.Tiling
import XenVmi.PageAlloc.State

/-!
# What the free lists hold

`Heap.Holds m h C`: the blocks on the free lists tile the set `C` of frames, each once on the list
of its node, zone and order, perhaps not aligned. `Heap.Counts m h C`: the counters say how many
frames of `C` there are. In the middle of an operation `C` is not the set of free pages.
-/

namespace XenVmi.PageAlloc

open Function XenVmi.Lib List

def place (m : Machine) (n z : Nat) : Set Nat := {x | m.nid x = n ∧ pageToZone x = z}

def Heap.blocks (m : Machine) (h : Heap) : Set (Nat × Nat) :=
  {t | t.1 ∈ h.free (m.nid t.1) (pageToZone t.1) t.2}

structure Heap.Holds (m : Machine) (h : Heap) (C : Set Nat) : Prop where
  tiles : Tiles (h.blocks m) C
  filed : ∀ n z k b, b ∈ h.free n z k → k ≤ m.maxOrder ∧ cells (b, k) ⊆ place m n z
  nodup : ∀ n z k, (h.free n z k).Nodup
  order : ∀ n z k b, b ∈ h.free n z k → (h.page b).order = k

structure Heap.Counts (m : Machine) (h : Heap) (C : Set Nat) : Prop where
  finite : C.Finite
  avail : ∀ n z, h.avail n z = (C ∩ place m n z).ncard
  total : h.total = C.ncard

structure Heap.Relists (h h' : Heap) : Prop where
  state : ∀ f, (h'.page f).state = (h.page f).state
  broken : ∀ f, (h'.page f).broken = (h.page f).broken
  avail : h'.avail = h.avail
  total : h'.total = h.total
  claims : h'.claims = h.claims
  offlinedList : h'.offlinedList = h.offlinedList
  brokenList : h'.brokenList = h.brokenList

theorem Heap.Relists.refl (h : Heap) : h.Relists h :=
  ⟨fun _ => rfl, fun _ => rfl, rfl, rfl, rfl, rfl, rfl⟩

theorem Heap.Relists.trans {h h' h'' : Heap} (r : h.Relists h') (r' : h'.Relists h'') :
    h.Relists h'' :=
  ⟨fun f => (r'.state f).trans (r.state f), fun f => (r'.broken f).trans (r.broken f),
    r'.avail.trans r.avail, r'.total.trans r.total, r'.claims.trans r.claims,
    r'.offlinedList.trans r.offlinedList, r'.brokenList.trans r.brokenList⟩

theorem Heap.Relists.counts {m : Machine} {h h' : Heap} {C : Set Nat} (r : h.Relists h')
    (hc : h.Counts m C) : h'.Counts m C :=
  ⟨hc.finite, fun n z => by rw [r.avail]; exact hc.avail n z, by rw [r.total]; exact hc.total⟩

/-! ## One list -/

section List

variable {m : Machine} {h : Heap} {C : Set Nat} {n z k b : Nat} (hh : h.Holds m C)

include hh

theorem mem_blocks_iff : (b, k) ∈ h.blocks m ↔ ∃ n z, b ∈ h.free n z k := by
  refine ⟨fun hb => ⟨_, _, hb⟩, fun ⟨n, z, hb⟩ => ?_⟩
  obtain ⟨hn, hz⟩ := (hh.filed n z k b hb).2 (self_mem_cells b k)
  show b ∈ h.free (m.nid b) (pageToZone b) k
  rw [hn, hz]
  exact hb

theorem Heap.Holds.cells_sub (hb : b ∈ h.free n z k) : cells (b, k) ⊆ C :=
  hh.tiles.sub _ ((mem_blocks_iff hh).2 ⟨n, z, hb⟩)

theorem Heap.Holds.cover {x : Nat} (hx : x ∈ C) :
    ∃ k b, b ∈ h.free (m.nid x) (pageToZone x) k ∧ x ∈ cells (b, k) := by
  obtain ⟨⟨b, k⟩, hb, hxb⟩ := hh.tiles.cover x hx
  obtain ⟨hn, hz⟩ := (hh.filed _ _ k b hb).2 hxb
  exact ⟨k, b, by rw [hn, hz]; exact hb, hxb⟩

theorem Heap.Holds.congr {h' : Heap} (hf : h'.free = h.free)
    (ho : ∀ x ∈ C, (h'.page x).order = (h.page x).order) : h'.Holds m C where
  tiles := by
    have : h'.blocks m = h.blocks m := by unfold Heap.blocks; rw [hf]
    rw [this]
    exact hh.tiles
  filed n z k b hb := hh.filed n z k b (hf ▸ hb)
  nodup n z k := hf ▸ hh.nodup n z k
  order n z k b hb := by
    rw [hf] at hb
    rw [ho b (hh.cells_sub hb (self_mem_cells b k))]
    exact hh.order n z k b hb

omit hh

theorem push_relists (h : Heap) (n z k b : Nat) : h.Relists (h.push n z k b) := by
  have hpage : ∀ f, ((h.push n z k b).page f).state = (h.page f).state ∧
      ((h.push n z k b).page f).broken = (h.page f).broken :=
    (forall_update_iff h.page fun f p => p.state = (h.page f).state ∧
      p.broken = (h.page f).broken).2 ⟨⟨rfl, rfl⟩, fun _ _ => ⟨rfl, rfl⟩⟩
  exact ⟨fun f => (hpage f).1, fun f => (hpage f).2, rfl, rfl, rfl, rfl, rfl⟩

theorem mem_push {n' z' k' b' : Nat} :
    b' ∈ (h.push n z k b).free n' z' k' ↔
      b' ∈ h.free n' z' k' ∨ (n' = n ∧ z' = z ∧ k' = k) ∧ b' = b := by
  show b' ∈ (if n' = n ∧ z' = z ∧ k' = k then h.free n z k ++ [b] else h.free n' z' k') ↔ _
  split
  · rename_i heq
    obtain ⟨rfl, rfl, rfl⟩ := heq
    simp
  · rename_i hne
    exact ⟨.inl, fun h => h.resolve_right fun h => hne h.1⟩

theorem blocks_push (hp : b ∈ place m n z) :
    (h.push n z k b).blocks m = insert (b, k) (h.blocks m) := by
  ext ⟨b', k'⟩
  show b' ∈ (h.push n z k b).free _ _ k' ↔ _
  rw [mem_push, Set.mem_insert_iff, Prod.mk.injEq, or_comm]
  refine or_congr ⟨fun h => ⟨h.2, h.1.2.2⟩, ?_⟩ Iff.rfl
  rintro ⟨rfl, rfl⟩
  exact ⟨⟨hp.1, hp.2, rfl⟩, rfl⟩

theorem Heap.Holds.push (hh : h.Holds m C) (hd : Disjoint (cells (b, k)) C)
    (hp : cells (b, k) ⊆ place m n z) (hk : k ≤ m.maxOrder) :
    (h.push n z k b).Holds m (C ∪ cells (b, k)) := by
  have hbC : b ∉ C := Set.disjoint_left.1 hd (self_mem_cells b k)
  have hnew : ∀ n z k, b ∉ h.free n z k := fun n z k hb =>
    hbC (hh.cells_sub hb (self_mem_cells b k))
  refine ⟨?_, fun n' z' k' b' hb' => ?_, fun n' z' k' => ?_, fun n' z' k' b' hb' => ?_⟩
  · rw [blocks_push (hp (self_mem_cells b k))]
    exact hh.tiles.insert hd
  · rcases mem_push.1 hb' with hb' | ⟨⟨rfl, rfl, rfl⟩, rfl⟩
    · exact hh.filed n' z' k' b' hb'
    · exact ⟨hk, hp⟩
  · show (if n' = n ∧ z' = z ∧ k' = k then h.free n z k ++ [b] else h.free n' z' k').Nodup
    split
    · refine nodup_append.2 ⟨hh.nodup n z k, nodup_singleton b, fun x hx y hy => ?_⟩
      rw [mem_singleton.1 hy]
      rintro rfl
      exact hnew n z k hx
    · exact hh.nodup n' z' k'
  · show (update h.page b _ b').order = k'
    rcases mem_push.1 hb' with hold | ⟨⟨rfl, rfl, rfl⟩, rfl⟩
    · have hne : b' ≠ b := by
        rintro rfl
        exact hnew n' z' k' hold
      rw [update_of_ne hne]
      exact hh.order n' z' k' b' hold
    · rw [update_self]

theorem mem_setList_erase (hh : h.Holds m C) (hb : b ∈ h.free n z k) (n' z' k' b' : Nat) :
    b' ∈ (h.setList n z k ((h.free n z k).erase b)).free n' z' k' ↔
      b' ∈ h.free n' z' k' ∧ ¬ (b' = b ∧ k' = k) := by
  show b' ∈ (if n' = n ∧ z' = z ∧ k' = k then (h.free n z k).erase b else h.free n' z' k') ↔ _
  split
  · rename_i heq
    obtain ⟨rfl, rfl, rfl⟩ := heq
    rw [(hh.nodup n' z' k').mem_erase_iff]
    exact ⟨fun h => ⟨h.2, fun h' => h.1 h'.1⟩, fun h => ⟨fun h' => h.2 ⟨h', rfl⟩, h.1⟩⟩
  rename_i hne
  refine ⟨fun hb' => ⟨hb', ?_⟩, fun h => h.1⟩
  rintro ⟨rfl, rfl⟩
  obtain ⟨hn, hz⟩ := (hh.filed n z k' b' hb).2 (self_mem_cells b' k')
  obtain ⟨hn', hz'⟩ := (hh.filed n' z' k' b' hb').2 (self_mem_cells b' k')
  exact hne ⟨hn'.symm.trans hn, hz'.symm.trans hz, rfl⟩

theorem Heap.Holds.remove (hh : h.Holds m C) (hb : b ∈ h.free n z k) :
    (h.setList n z k ((h.free n z k).erase b)).Holds m (C \ cells (b, k)) := by
  have hmem := mem_setList_erase hh hb
  refine ⟨?_, fun n' z' k' b' hb' => hh.filed n' z' k' b' ((hmem _ _ _ _).1 hb').1,
    fun n' z' k' => ?_, fun n' z' k' b' hb' => hh.order n' z' k' b' ((hmem _ _ _ _).1 hb').1⟩
  · have hblocks : (h.setList n z k ((h.free n z k).erase b)).blocks m = h.blocks m \ {(b, k)} := by
      ext ⟨b', k'⟩
      show b' ∈ (h.setList n z k ((h.free n z k).erase b)).free _ _ k' ↔ _
      rw [hmem, Set.mem_sdiff, Set.mem_singleton_iff, Prod.mk.injEq]
      exact Iff.rfl
    rw [hblocks]
    exact hh.tiles.erase ((mem_blocks_iff hh).2 ⟨n, z, hb⟩)
  · show (if n' = n ∧ z' = z ∧ k' = k then (h.free n z k).erase b else h.free n' z' k').Nodup
    split
    · exact (hh.nodup n z k).erase b
    · exact hh.nodup n' z' k'

theorem unlink_ok {h' : Heap} (hu : h.unlink n z k b = .ok h') :
    b ∈ h.free n z k ∧ h' = h.setList n z k ((h.free n z k).erase b) := by
  unfold Heap.unlink at hu
  split at hu
  · rename_i hb
    exact ⟨hb, (Except.ok.inj hu).symm⟩
  · cases hu

end List

section Counters

variable {m : Machine} {h : Heap} {C : Set Nat} {n z k b : Nat}

theorem Heap.Counts.add (hc : h.Counts m C) {D : Set Nat} (hf : D.Finite) (hd : Disjoint D C)
    (hp : D ⊆ place m n z) : (h.adjust n z D.ncard).Counts m (C ∪ D) := by
  refine ⟨hc.finite.union hf, fun n' z' => ?_, ?_⟩
  · show (if n' = n ∧ z' = z then h.avail n' z' + D.ncard else h.avail n' z') = _
    split
    · rename_i heq
      obtain ⟨rfl, rfl⟩ := heq
      rw [hc.avail, Set.union_inter_distrib_right, Set.inter_eq_left.2 hp,
        Set.ncard_union_eq (hd.symm.mono_left Set.inter_subset_left)
          (hc.finite.subset Set.inter_subset_left) hf, Nat.cast_add]
    · rename_i hne
      have hempty : D ∩ place m n' z' = ∅ := by
        refine Set.eq_empty_of_forall_notMem fun x hx => hne ?_
        exact ⟨hx.2.1.symm.trans (hp hx.1).1, hx.2.2.symm.trans (hp hx.1).2⟩
      rw [hc.avail, Set.union_inter_distrib_right, hempty, Set.union_empty]
  · show h.total + D.ncard = _
    rw [hc.total, Set.ncard_union_eq hd.symm hc.finite hf, Nat.cast_add]

theorem Heap.Counts.sub (hc : h.Counts m C) {D : Set Nat} (hs : D ⊆ C) (hp : D ⊆ place m n z) :
    (h.adjust n z (-D.ncard)).Counts m (C \ D) := by
  refine ⟨hc.finite.subset Set.sdiff_subset, fun n' z' => ?_, ?_⟩
  · show (if n' = n ∧ z' = z then h.avail n' z' + -D.ncard else h.avail n' z') = _
    split
    · rename_i heq
      obtain ⟨rfl, rfl⟩ := heq
      have hsub : D ⊆ C ∩ place m n' z' := fun x hx => ⟨hs hx, hp hx⟩
      have hcard := Set.ncard_sdiff_add_ncard_of_subset hsub
        (hc.finite.subset Set.inter_subset_left)
      have heq : (C \ D) ∩ place m n' z' = (C ∩ place m n' z') \ D := by
        ext x
        simp only [Set.mem_inter_iff, Set.mem_sdiff]
        tauto
      rw [hc.avail, heq]
      omega
    · rename_i hne
      have heq : (C \ D) ∩ place m n' z' = C ∩ place m n' z' := by
        ext x
        refine ⟨fun h => ⟨h.1.1, h.2⟩, fun h => ⟨⟨h.1, fun hx => hne ?_⟩, h.2⟩⟩
        exact ⟨h.2.1.symm.trans (hp hx).1, h.2.2.symm.trans (hp hx).2⟩
      rw [hc.avail, heq]
  · show h.total + -D.ncard = _
    have hcard := Set.ncard_sdiff_add_ncard_of_subset hs hc.finite
    rw [hc.total]
    omega

end Counters

/-! ## Taking a block -/

section Take

variable {m : Machine} {h : Heap} {C : Set Nat} {n z b : Nat}

theorem mem_frames {pg k x : Nat} : x ∈ frames pg k ↔ x ∈ cells (pg, k) := by
  unfold frames
  rw [mem_map]
  simp only [mem_range]
  constructor
  · rintro ⟨i, hi, rfl⟩
    exact mem_cells.2 (by omega)
  · intro hx
    have hx := mem_cells.1 hx
    exact ⟨x - pg, by omega, by omega⟩

/-- What is left of a chunk when it has been halved `d` times: its last part. -/
structure Halved (m : Machine) (h : Heap) (C : Set Nat) (order d pg : Nat) (r : Nat × Heap) :
    Prop where
  sub : cells (r.1, order) ⊆ cells (pg, order + d)
  holds : r.2.Holds m (C ∪ (cells (pg, order + d) \ cells (r.1, order)))
  relists : h.Relists r.2
  aligned : Aligned (pg, order + d) → Aligned (r.1, order)
  halves : Aligned (pg, order + d) → ∀ t ∈ r.2.blocks m,
    t ∈ h.blocks m ∨ Aligned t ∧ cells (r.1, order) ⊆ cells (buddy t, t.2)

theorem halve_spec (order d pg : Nat) (hh : h.Holds m C) (hd : Disjoint (cells (pg, order + d)) C)
    (hp : cells (pg, order + d) ⊆ place m n z) (hk : order + d ≤ m.maxOrder) :
    Halved m h C order d pg (Heap.halve n z order d pg h) := by
  induction d generalizing pg h C with
  | zero =>
    refine ⟨subset_rfl, ?_, .refl h, id, fun _ t ht => .inl ht⟩
    show h.Holds m (C ∪ (cells (pg, order + 0) \ cells (pg, order)))
    rw [Nat.add_zero, Set.sdiff_self, Set.union_empty]
    exact hh
  | succ d ih =>
    have hcells : cells (pg, order + (d + 1)) =
        cells (pg, order + d) ∪ cells (pg + 2 ^ (order + d), order + d) := cells_succ pg (order + d)
    rw [hcells] at hd hp
    have hdis := disjoint_halves pg (order + d)
    have hlow := hh.push (hd.mono_left Set.subset_union_left)
      (Set.subset_union_left.trans hp) (by omega)
    -- the upper half is what is halved further
    obtain ⟨hsub, hholds, hrel, hal, hhalf⟩ := ih (pg + 2 ^ (order + d)) hlow
      (Set.disjoint_union_right.2 ⟨hd.mono_left Set.subset_union_right, hdis.symm⟩)
      (Set.subset_union_right.trans hp) (by omega)
    have hupper : Aligned (pg, order + (d + 1)) → Aligned (pg + 2 ^ (order + d), order + d) := by
      intro ha
      exact Nat.dvd_add ((Nat.pow_dvd_pow 2 (Nat.le_succ _)).trans ha) (Nat.dvd_refl _)
    refine ⟨?_, ?_, (push_relists h _ _ _ _).trans hrel, fun ha => hal (hupper ha),
      fun ha t ht => ?_⟩
    · rw [hcells]
      exact hsub.trans Set.subset_union_right
    · have hset : C ∪ (cells (pg, order + (d + 1)) \
          cells ((Heap.halve n z order (d + 1) pg h).1, order)) =
          C ∪ cells (pg, order + d) ∪ (cells (pg + 2 ^ (order + d), order + d) \
            cells ((Heap.halve n z order (d + 1) pg h).1, order)) := by
        have hout : Disjoint (cells (pg, order + d))
            (cells ((Heap.halve n z order (d + 1) pg h).1, order)) := hdis.mono_right hsub
        rw [hcells, Set.union_sdiff_distrib, sdiff_eq_left.2 hout, Set.union_assoc]
      rw [hset]
      exact hholds
    · rcases hhalf (hupper ha) t ht with ht | ht
      · rw [blocks_push (hp (.inl (self_mem_cells _ _)))] at ht
        rcases ht with rfl | ht
        · have ha : 2 ^ (order + d + 1) ∣ pg := ha
          refine .inr ⟨(Nat.pow_dvd_pow 2 (Nat.le_succ _)).trans ha, ?_⟩
          have hbit : pg.testBit (order + d) = false := by
            obtain ⟨c, rfl⟩ := ha
            rw [Nat.testBit_eq_decide_div_mod_eq, Nat.pow_succ, Nat.mul_assoc,
              Nat.mul_div_cancel_left _ (Nat.two_pow_pos _), Nat.mul_mod_right]
            rfl
          have hb : buddy (pg, order + d) = pg + 2 ^ (order + d) := by
            unfold buddy
            rw [hbit, if_neg Bool.false_ne_true]
          rw [hb]
          exact hsub
        · exact .inl ht
      · exact .inr ht

/-- A block of order `order` is taken from a chunk of the list `n z j`. -/
structure Taken (m : Machine) (h : Heap) (C : Set Nat) (n z j b order : Nat) (r : Nat × Heap) :
    Prop where
  sub : cells (r.1, order) ⊆ C
  inPlace : cells (r.1, order) ⊆ place m n z
  holds : r.2.Holds m (C \ cells (r.1, order))
  counts : r.2.Counts m (C \ cells (r.1, order))
  inuse : ∀ f ∈ cells (r.1, order), (r.2.page f).state = .inuse ∧ (r.2.page f).broken = false
  other : ∀ f ∉ cells (r.1, order), (r.2.page f).state = (h.page f).state ∧
    (r.2.page f).broken = (h.page f).broken
  claims : r.2.claims = h.claims
  aligned : Aligned (b, j) → Aligned (r.1, order)
  halves : Aligned (b, j) → ∀ t ∈ r.2.blocks m,
    t ∈ h.blocks m ∨ Aligned t ∧ cells (r.1, order) ⊆ cells (buddy t, t.2)

theorem take_spec {j order : Nat} {l : List Nat} (hh : h.Holds m C) (hc : h.Counts m C)
    (hb : h.free n z j = b :: l) (hj : order ≤ j) :
    (∀ r, h.take n z j order b = .ok r → Taken m h C n z j b order r) ∧
      ((∀ f ∈ C, (h.page f).isFree = true) → ∃ r, h.take n z j order b = .ok r) := by
  have hmem : b ∈ h.free n z j := by rw [hb]; exact mem_cons_self
  have htail : (h.free n z j).tail = (h.free n z j).erase b := by
    rw [hb, tail_cons, erase_cons_head]
  obtain ⟨hjm, hp⟩ := hh.filed n z j b hmem
  have hsubC := hh.cells_sub hmem
  have hadd : order + (j - order) = j := by omega
  have hrem := hh.remove hmem
  rw [← htail] at hrem
  obtain ⟨hsub, hholds, hrel, hal, hhalf⟩ := halve_spec order (j - order) b hrem
    (by rw [hadd]; exact Set.disjoint_sdiff_right) (by rw [hadd]; exact hp) (by omega)
  rw [hadd] at hsub hholds hal hhalf
  have hold : ∀ t, t ∈ (h.setList n z j (h.free n z j).tail).blocks m → t ∈ h.blocks m := by
    intro t ht
    rw [htail] at ht
    exact ((mem_setList_erase hh hmem _ _ _ _).1 ht).1
  unfold Heap.take
  simp only
  generalize Heap.halve n z order (j - order) b (h.setList n z j (h.free n z j).tail) = r
    at hsub hholds hrel hal hhalf ⊢
  have hset : C \ cells (b, j) ∪ (cells (b, j) \ cells (r.1, order)) = C \ cells (r.1, order) := by
    ext x
    simp only [Set.mem_union, Set.mem_sdiff]
    tauto
  rw [hset] at hholds
  have hsubR := hsub.trans hsubC
  have hpR := hsub.trans hp
  have hrem : (h.setList n z j (h.free n z j).tail).Counts m C := ⟨hc.finite, hc.avail, hc.total⟩
  have hcounts := (hrel.counts hrem).sub hsubR hpR
  rw [ncard_cells] at hcounts
  have hfree : ∀ f, (r.2.page f).isFree = (h.page f).isFree := fun f => by
    unfold Page.isFree
    rw [hrel.state, hrel.broken]
    rfl
  have hall : ((frames r.1 order).all fun f =>
      ((r.2.adjust n z (-(2 ^ order : Nat))).page f).isFree) =
      true ↔ ∀ f ∈ cells (r.1, order), (h.page f).isFree = true := by
    rw [all_eq_true]
    exact forall_congr' fun f => imp_congr mem_frames (by rw [← hfree]; rfl)
  refine ⟨fun r' hr' => ?_, fun hclean => ?_⟩
  · split at hr'
    · cases hr'
      have hin : ∀ f ∈ cells (r.1, order), (if r.1 ≤ f ∧ f < r.1 + 2 ^ order then
          (⟨.inuse, false, 0⟩ : Page) else r.2.page f) = ⟨.inuse, false, 0⟩ := fun f hf => if_pos hf
      have hout : ∀ f ∉ cells (r.1, order), (if r.1 ≤ f ∧ f < r.1 + 2 ^ order then
          (⟨.inuse, false, 0⟩ : Page) else r.2.page f) = r.2.page f := fun f hf => if_neg hf
      refine ⟨hsubR, hpR, hholds.congr rfl fun x hx => ?_, ⟨hcounts.finite, hcounts.avail,
        hcounts.total⟩, fun f hf => ?_, fun f hf => ?_, hrel.claims, hal,
        fun ha t ht => (hhalf ha t ht).imp_left (hold t)⟩
      · exact congrArg Page.order (hout x hx.2)
      · show (if _ then (⟨.inuse, false, 0⟩ : Page) else r.2.page f).state = _ ∧
          (if _ then (⟨.inuse, false, 0⟩ : Page) else r.2.page f).broken = _
        rw [hin f hf]
        exact ⟨rfl, rfl⟩
      · show (if _ then (⟨.inuse, false, 0⟩ : Page) else r.2.page f).state = _ ∧
          (if _ then (⟨.inuse, false, 0⟩ : Page) else r.2.page f).broken = _
        rw [hout f hf]
        exact ⟨hrel.state f, hrel.broken f⟩
    · cases hr'
  · rw [if_pos (hall.2 fun f hf => hclean f (hsubR hf))]
    exact ⟨_, rfl⟩

end Take

section Alloc

variable {m : Machine} {h : Heap} {C : Set Nat} {req : Request}

theorem searchNode_spec {node zone j : Nat} (hs : h.searchNode m req node = some (zone, j)) :
    zone ∈ req.zones ∧ req.order ≤ j ∧ j ≤ m.maxOrder ∧ h.free node zone j ≠ [] := by
  obtain ⟨z, hz, hfound⟩ := exists_of_findSome?_eq_some hs
  split at hfound
  · cases hfound
  obtain ⟨k, hk, heq⟩ := Option.map_eq_some_iff.1 hfound
  cases heq
  have hmem := mem_of_find?_eq_some hk
  have hne := List.find?_some hk
  unfold Request.orders at hmem
  rw [mem_range'_1] at hmem
  refine ⟨hz, hmem.1, by omega, fun hnil => ?_⟩
  rw [hnil] at hne
  cases hne

theorem search_spec {fuel node zone j : Nat} {w : NodeWalk}
    (hs : h.search m req fuel w = some (node, zone, j)) :
    zone ∈ req.zones ∧ req.order ≤ j ∧ j ≤ m.maxOrder ∧ h.free node zone j ≠ [] := by
  induction fuel generalizing w with
  | zero => cases hs
  | succ fuel ih =>
    rw [Heap.search] at hs
    split at hs
    · rename_i hnode
      cases hs
      exact searchNode_spec hnode
    · split at hs
      · cases hs
      · exact ih hs

theorem allocHeapPages_spec {r : Option (Nat × Nat) × Heap} (hh : h.Holds m C) (hc : h.Counts m C)
    (hr : allocHeapPages m h req = .ok r) :
    (r.1 = none ∧ r.2 = h) ∨ ∃ pg node zone j b, r.1 = some (pg, node) ∧ zone ∈ req.zones ∧
      req.order ≤ m.maxOrder ∧ b ∈ h.free node zone j ∧
      Taken m h C node zone j b req.order (pg, r.2) := by
  unfold allocHeapPages at hr
  split at hr
  · cases hr
    exact .inl ⟨rfl, rfl⟩
  rename_i hle
  split at hr
  · cases hr
    exact .inl ⟨rfl, rfl⟩
  split at hr
  · cases hr
    exact .inl ⟨rfl, rfl⟩
  rename_i node zone j hsearch
  obtain ⟨hz, hj, -, -⟩ := search_spec hsearch
  split at hr
  · cases hr
    exact .inl ⟨rfl, rfl⟩
  rename_i b l hlist
  split at hr
  · cases hr
  rename_i pg h' htake
  cases hr
  refine .inr ⟨pg, node, zone, j, b, rfl, hz, Nat.le_of_not_lt hle, ?_,
    (take_spec hh hc hlist hj).1 _ htake⟩
  rw [hlist]
  exact mem_cons_self

end Alloc

/-! ## Merging -/

section Merge

variable {m : Machine} {h : Heap} {C : Set Nat} {n z : Nat}

theorem buddyOf_eq (pg k : Nat) : buddyOf pg k = buddy (pg, k) := rfl

structure Merged (m : Machine) (h : Heap) (C : Set Nat) (n z pg k : Nat) (r : Nat × Nat × Heap) :
    Prop where
  sub : cells (pg, k) ⊆ cells (r.1, r.2.1)
  sup : cells (r.1, r.2.1) ⊆ C ∪ cells (pg, k)
  inPlace : cells (r.1, r.2.1) ⊆ place m n z
  le : r.2.1 ≤ m.maxOrder
  holds : r.2.2.Holds m (C \ cells (r.1, r.2.1))
  blocks : r.2.2.blocks m ⊆ h.blocks m
  page : r.2.2.page = h.page
  relists : h.Relists r.2.2

theorem Merged.refl {pg k : Nat} (hh : h.Holds m C) (hd : Disjoint (cells (pg, k)) C)
    (hp : cells (pg, k) ⊆ place m n z) (hk : k ≤ m.maxOrder) :
    Merged m h C n z pg k (pg, k, h) := by
  refine ⟨subset_rfl, Set.subset_union_right, hp, hk, ?_, subset_rfl, rfl, .refl h⟩
  show h.Holds m (C \ cells (pg, k))
  rw [sdiff_eq_left.2 hd.symm]
  exact hh

/-- The buddy leaves its list, and the two make a block of the next order. -/
theorem Heap.Holds.merge {pg k : Nat} (hh : h.Holds m C) (hd : Disjoint (cells (pg, k)) C)
    (hp : cells (pg, k) ⊆ place m n z) (hb : buddy (pg, k) ∈ h.free n z k) :
    Disjoint (cells (parent (pg, k))) (C \ cells (buddy (pg, k), k)) ∧
      cells (parent (pg, k)) ⊆ place m n z ∧
      C \ cells (buddy (pg, k), k) ∪ cells (parent (pg, k)) = C ∪ cells (pg, k) := by
  have hsub := hh.cells_sub hb
  rw [cells_parent]
  refine ⟨Set.disjoint_union_left.2 ⟨hd.mono_right Set.sdiff_subset, Set.disjoint_sdiff_right⟩,
    Set.union_subset hp (hh.filed n z k _ hb).2, ?_⟩
  ext x
  simp only [Set.mem_union, Set.mem_sdiff]
  tauto

theorem mergeUp_spec {fuel pg k : Nat} {r : Nat × Nat × Heap} (hh : h.Holds m C)
    (hd : Disjoint (cells (pg, k)) C) (hp : cells (pg, k) ⊆ place m n z)
    (hk : k + fuel ≤ m.maxOrder) (hr : Heap.mergeUp m n z fuel pg k h = .ok r) :
    Merged m h C n z pg k r := by
  induction fuel generalizing pg k h C with
  | zero =>
    cases hr
    exact .refl hh hd hp (by omega)
  | succ fuel ih =>
    rw [Heap.mergeUp] at hr
    split at hr
    · split at hr
      · cases hr
      · rename_i h' hu
        obtain ⟨hb, rfl⟩ := unlink_ok hu
        rw [buddyOf_eq] at hb hr
        obtain ⟨hdis, hplace, hset⟩ := hh.merge hd hp hb
        obtain ⟨hsub, hsup, hpl, hle, hholds, hblocks, hpage, hrel⟩ :=
          ih (hh.remove hb) hdis hplace (by omega) hr
        have hsub : cells (parent (pg, k)) ⊆ _ := hsub
        rw [cells_parent] at hsub
        refine ⟨Set.subset_union_left.trans hsub, hsup.trans hset.le, hpl, hle, ?_,
          fun t ht => ((mem_setList_erase hh hb _ _ _ _).1 (hblocks ht)).1, hpage,
          ⟨hrel.state, hrel.broken, hrel.avail, hrel.total, hrel.claims, hrel.offlinedList,
            hrel.brokenList⟩⟩
        rw [sdiff_sdiff_left, sup_eq_right.2 (Set.subset_union_right.trans hsub)] at hholds
        exact hholds
    · cases hr
      exact .refl hh hd hp (by omega)

end Merge

/-! ## Offlined pages leave a block -/

section Reserve

variable {m : Machine} {h : Heap} {C : Set Nat} {n z : Nat} {off : Nat → Bool}

theorem growOrder_spec {cur stop k : Nat} (fuel : Nat)
    (hk : ∀ x ∈ cells (cur, k), x < stop ∧ off x = false) :
    (∀ x ∈ cells (cur, growOrder off cur stop fuel k), x < stop ∧ off x = false) ∧
      growOrder off cur stop fuel k ≤ k + fuel ∧
      (growOrder off cur stop fuel k = k ∨ cur + 2 ^ growOrder off cur stop fuel k < stop) := by
  induction fuel generalizing k with
  | zero => exact ⟨hk, le_rfl, .inl rfl⟩
  | succ fuel ih =>
    rw [growOrder]
    split
    · exact ⟨hk, Nat.le_add_right _ _, .inl rfl⟩
    split
    · exact ⟨hk, Nat.le_add_right _ _, .inl rfl⟩
    rename_i hany
    have hnext : ∀ x ∈ cells (cur, k + 1), x < stop ∧ off x = false := by
      intro x hx
      rw [cells_succ] at hx
      rcases hx with hx | hx
      · exact hk x hx
      · have hlt := (mem_cells.1 hx).2
        refine ⟨by omega, ?_⟩
        rw [Bool.not_eq_true, any_eq_false] at hany
        exact Bool.eq_false_iff.2 (hany x (mem_frames.2 hx))
    obtain ⟨hcells, hle, hend⟩ := ih hnext
    exact ⟨hcells, by omega, .inr (hend.elim (fun he => by rw [he]; omega) id)⟩

theorem growOrder_zero {cur stop : Nat} (k : Nat) (hlt : ¬ stop ≤ cur) (hoff : ¬ off cur = true) :
    (∀ x ∈ cells (cur, growOrder off cur stop k 0), x < stop ∧ off x = false) ∧
      growOrder off cur stop k 0 ≤ k ∧
      (growOrder off cur stop k 0 = 0 ∨ cur + 2 ^ growOrder off cur stop k 0 < stop) := by
  have hself : ∀ x ∈ cells (cur, 0), x < stop ∧ off x = false := by
    rw [cells_zero]
    rintro x rfl
    exact ⟨Nat.lt_of_not_le hlt, Bool.eq_false_iff.2 hoff⟩
  have hspec := growOrder_spec k hself
  rw [Nat.zero_add] at hspec
  exact hspec

def kept (off : Nat → Bool) (cur stop : Nat) : Set Nat := {x | cur ≤ x ∧ x < stop ∧ off x = false}

theorem kept_eq_empty {cur stop : Nat} (h : stop ≤ cur) : kept off cur stop = ∅ :=
  Set.eq_empty_of_forall_notMem fun _ hx => absurd (hx.1.trans_lt hx.2.1) (Nat.not_lt.2 h)

theorem refile_spec {headOrder stop fuel cur : Nat} {h' : Heap} (hh : h.Holds m C)
    (hd : Disjoint {x | cur ≤ x ∧ x < stop} C) (hp : {x | cur ≤ x ∧ x < stop} ⊆ place m n z)
    (hk : headOrder ≤ m.maxOrder) (hfuel : stop ≤ cur + fuel)
    (hr : Heap.refile n z headOrder stop off fuel cur h = .ok h') :
    h'.Holds m (C ∪ kept off cur stop) ∧ h.Relists h' := by
  induction fuel generalizing cur h C with
  | zero =>
    cases hr
    rw [Nat.add_zero] at hfuel
    rw [kept_eq_empty hfuel, Set.union_empty]
    exact ⟨hh, .refl _⟩
  | succ fuel ih =>
    rw [Heap.refile] at hr
    split at hr
    · rename_i hle
      cases hr
      rw [kept_eq_empty hle, Set.union_empty]
      exact ⟨hh, .refl _⟩
    rename_i hlt
    split at hr
    · -- an offlined page is left out
      rename_i hoff
      have hsub : {x | cur + 1 ≤ x ∧ x < stop} ⊆ {x | cur ≤ x ∧ x < stop} := fun x hx =>
        ⟨Nat.le_of_succ_le hx.1, hx.2⟩
      obtain ⟨hholds, hrel⟩ := ih hh (hd.mono_left hsub) (hsub.trans hp) (by omega) hr
      have hset : kept off cur stop = kept off (cur + 1) stop := by
        ext x
        refine ⟨fun hx => ⟨Nat.lt_of_le_of_ne hx.1 ?_, hx.2⟩, fun hx =>
          ⟨Nat.le_of_succ_le hx.1, hx.2⟩⟩
        rintro rfl
        cases hoff.symm.trans hx.2.2
      rw [hset]
      exact ⟨hholds, hrel⟩
    · rename_i hoff
      split at hr
      · cases hr
      obtain ⟨hcells, hle, -⟩ := growOrder_zero headOrder hlt hoff
      generalize growOrder off cur stop headOrder 0 = k at hr hcells hle
      have hin : cells (cur, k) ⊆ {x | cur ≤ x ∧ x < stop} := fun x hx => ⟨hx.1, (hcells x hx).1⟩
      have hpos := Nat.two_pow_pos k
      have hsub : {x | cur + 2 ^ k ≤ x ∧ x < stop} ⊆ {x | cur ≤ x ∧ x < stop} := fun x hx =>
        ⟨(Nat.le_add_right _ _).trans hx.1, hx.2⟩
      have hpush := hh.push (hd.mono_left hin) (hin.trans hp) (by omega)
      have hdis : Disjoint {x | cur + 2 ^ k ≤ x ∧ x < stop} (C ∪ cells (cur, k)) := by
        refine Set.disjoint_union_right.2
          ⟨hd.mono_left hsub, Set.disjoint_left.2 fun x hx hx' => ?_⟩
        exact absurd hx.1 (Nat.not_le.2 (mem_cells.1 hx').2)
      obtain ⟨hholds, hrel⟩ := ih hpush hdis (hsub.trans hp) (by omega) hr
      have hset : kept off cur stop = cells (cur, k) ∪ kept off (cur + 2 ^ k) stop := by
        ext x
        refine ⟨fun hx => ?_, ?_⟩
        · by_cases hxk : x < cur + 2 ^ k
          · exact .inl ⟨hx.1, hxk⟩
          · exact .inr ⟨Nat.le_of_not_lt hxk, hx.2⟩
        · rintro (hx | hx)
          · exact ⟨hx.1, hcells x hx⟩
          · exact ⟨(Nat.le_add_right _ _).trans hx.1, hx.2⟩
      rw [hset, ← Set.union_assoc]
      exact ⟨hholds, (push_relists h _ _ _ _).trans hrel⟩

theorem sdiff_nil : C \ {x | x ∈ ([] : List Nat)} = C :=
  Set.ext fun _ => and_iff_left not_mem_nil

theorem setAside_free (gone : List Nat) (h : Heap) :
    (gone.foldl (Heap.setAside n z) h).free = h.free := by
  induction gone generalizing h with
  | nil => rfl
  | cons a gone ih =>
    rw [foldl_cons, ih, Heap.setAside]
    split <;> rfl

theorem setAside_spec {gone : List Nat} {h' : Heap} (hg : gone.Nodup) (hc : h.Counts m C)
    (hsub : ∀ x ∈ gone, x ∈ C) (hp : ∀ x ∈ gone, x ∈ place m n z)
    (hr : gone.foldl (Heap.setAside n z) h = h') :
    h'.Counts m (C \ {x | x ∈ gone}) ∧ h'.page = h.page ∧ h'.claims = h.claims ∧
    h'.offlinedList = h.offlinedList ++ gone.filter (fun x => !(h.page x).broken) ∧
    h'.brokenList = h.brokenList ++ gone.filter (fun x => (h.page x).broken) := by
  induction gone generalizing h C with
  | nil =>
    cases hr
    rw [sdiff_nil]
    exact ⟨hc, rfl, rfl, (append_nil _).symm, (append_nil _).symm⟩
  | cons a gone ih =>
    obtain ⟨ha, hg⟩ := nodup_cons.1 hg
    have hone : (h.setAside n z a).Counts m (C \ {a}) ∧ (h.setAside n z a).page = h.page ∧
        (h.setAside n z a).claims = h.claims ∧
        (h.setAside n z a).offlinedList =
          h.offlinedList ++ (if (h.page a).broken then [] else [a]) ∧
        (h.setAside n z a).brokenList = h.brokenList ++
          (if (h.page a).broken then [a] else []) := by
      have hcount := hc.sub (Set.singleton_subset_iff.2 (hsub a mem_cons_self))
        (Set.singleton_subset_iff.2 (hp a mem_cons_self))
      rw [Set.ncard_singleton] at hcount
      unfold Heap.setAside
      cases hb : (h.page a).broken with
      | true =>
        have hb' : ((h.adjust n z (-1)).page a).broken = true := hb
        simp only [hb', if_true]
        exact ⟨⟨hcount.finite, hcount.avail, hcount.total⟩, rfl, rfl, (append_nil _).symm, rfl⟩
      | false =>
        have hb' : ((h.adjust n z (-1)).page a).broken = false := hb
        simp only [hb', Bool.false_eq_true, if_false]
        exact ⟨⟨hcount.finite, hcount.avail, hcount.total⟩, rfl, rfl, rfl, (append_nil _).symm⟩
    obtain ⟨hcount, hpage, hclaims, hoff, hbrk⟩ := hone
    obtain ⟨hcount', hpage', hclaims', hoff', hbrk'⟩ := ih hg hcount
      (fun x hx => ⟨hsub x (mem_cons_of_mem _ hx), fun hxa => ha (hxa ▸ hx)⟩)
      (fun x hx => hp x (mem_cons_of_mem _ hx)) hr
    refine ⟨?_, hpage'.trans hpage, hclaims'.trans hclaims, ?_, ?_⟩
    · have hset : C \ {x | x ∈ a :: gone} = (C \ {a}) \ {x | x ∈ gone} := by
        ext x
        simp only [Set.mem_sdiff, Set.mem_ofPred_eq, mem_cons, Set.mem_singleton_iff, not_or]
        tauto
      rw [hset]
      exact hcount'
    · rw [hoff', hoff, hpage, append_assoc, filter_cons]
      cases (h.page a).broken <;> rfl
    · rw [hbrk', hbrk, hpage, append_assoc, filter_cons]
      cases (h.page a).broken <;> rfl

/-- The pages of `gone` have left the free lists for the lists of pages out of use. -/
structure SetAside (m : Machine) (h : Heap) (C : Set Nat) (gone : List Nat) (h' : Heap) : Prop where
  holds : h'.Holds m (C \ {x | x ∈ gone})
  counts : h'.Counts m (C \ {x | x ∈ gone})
  state : ∀ f, (h'.page f).state = (h.page f).state
  broken : ∀ f, (h'.page f).broken = (h.page f).broken
  claims : h'.claims = h.claims
  lists : (h'.offlinedList ++ h'.brokenList).Perm (h.offlinedList ++ h.brokenList ++ gone)
  brokenList : ∀ x ∈ h'.brokenList, x ∈ h.brokenList ∨ (h.page x).broken = true

theorem nodup_frames (pg k : Nat) : (frames pg k).Nodup :=
  nodup_range.map fun _ _ h => Nat.add_left_cancel h

theorem reserveOfflinedPage_spec {head k : Nat} {r : Nat × Heap} (hh : h.Holds m C)
    (hc : h.Counts m C) (hb : head ∈ h.free n z k) (hr : reserveOfflinedPage m h head = .ok r) :
    SetAside m h C ((frames head k).filter fun f => decide ((h.page f).state = .offlined)) r.2 := by
  have ho := hh.order n z k head hb
  obtain ⟨hk, hp⟩ := hh.filed n z k head hb
  obtain ⟨hn, hz⟩ := hp (self_mem_cells head k)
  have hsubC := hh.cells_sub hb
  unfold reserveOfflinedPage at hr
  rw [ho, hn, hz] at hr
  generalize (fun f => decide ((h.page f).state = .offlined)) = off at hr ⊢
  simp only at hr
  split at hr
  · cases hr
  rename_i h₁ hu
  obtain ⟨-, rfl⟩ := unlink_ok hu
  split at hr
  · cases hr
  rename_i h₂ hf
  cases hr
  obtain ⟨hholds, hrel⟩ := refile_spec (hh.remove hb) Set.disjoint_sdiff_right hp hk le_rfl hf
  have hmem : ∀ x ∈ (frames head k).filter off, x ∈ cells (head, k) := fun x hx =>
    mem_frames.1 (mem_of_mem_filter hx)
  have hcounts : h₂.Counts m C := by
    have hrem : (h.setList n z k ((h.free n z k).erase head)).Counts m C :=
      ⟨hc.finite, hc.avail, hc.total⟩
    exact hrel.counts hrem
  obtain ⟨hcounts', hpage, hclaims, hoff, hbrk⟩ := setAside_spec
    ((nodup_frames head k).filter _) hcounts (fun x hx => hsubC (hmem x hx))
    (fun x hx => hp (hmem x hx)) rfl
  have hset : C \ cells (head, k) ∪ kept off head (head + 2 ^ k) =
      C \ {x | x ∈ (frames head k).filter off} := by
    ext x
    have h1 := @hsubC x
    simp only [kept, Set.mem_union, Set.mem_sdiff, Set.mem_ofPred_eq, mem_filter,
      mem_frames, mem_cells, ← Bool.not_eq_true] at h1 ⊢
    tauto
  rw [hset] at hholds
  refine ⟨hholds.congr (setAside_free _ _) fun x _ => by rw [hpage], hcounts',
    fun f => ?_, fun f => ?_, ?_, ?_, fun x hx => ?_⟩
  · rw [hpage]
    exact hrel.state f
  · rw [hpage]
    exact hrel.broken f
  · rw [hclaims]
    exact hrel.claims
  · rw [hoff, hbrk, hrel.offlinedList, hrel.brokenList]
    refine perm_iff_count.2 fun x => ?_
    have hsplit := (filter_append_perm (fun x => (h₂.page x).broken)
      ((frames head k).filter off)).count_eq x
    simp only [count_append] at hsplit ⊢
    show List.count x h.offlinedList + _ + (List.count x h.brokenList + _) = _
    omega
  · rw [hbrk, hrel.brokenList] at hx
    rcases mem_append.1 hx with hx | hx
    · exact .inl hx
    · have hxb := (mem_filter.1 hx).2
      rw [hrel.broken] at hxb
      exact .inr hxb

end Reserve

/-! ## Freeing a block -/

section Free

variable {m : Machine} {h : Heap} {C : Set Nat} {pg k : Nat}

structure Freeable (m : Machine) (C : Set Nat) (pg k : Nat) : Prop where
  le : k ≤ m.maxOrder
  outside : Disjoint (cells (pg, k)) C
  inPlace : cells (pg, k) ⊆ place m (m.nid pg) (pageToZone pg)

def Heap.released (m : Machine) (h : Heap) (pg k : Nat) : Heap :=
  (h.markFreed pg k).adjust (m.nid pg) (pageToZone pg) (2 ^ k : Nat)

theorem released_of_mem {x : Nat} (hx : x ∈ cells (pg, k)) :
    (h.released m pg k).page x = (h.page x).freed := if_pos hx

theorem released_of_not_mem {x : Nat} (hx : x ∉ cells (pg, k)) :
    (h.released m pg k).page x = h.page x := if_neg hx

theorem freed_offlined_iff {p : Page} : p.freed.state = .offlined ↔ p.state = .offlining := by
  unfold Page.freed
  split
  · exact iff_of_true rfl ‹_›
  · exact iff_of_false nofun ‹_›

theorem released_holds (hh : h.Holds m C) (hf : Freeable m C pg k) :
    (h.released m pg k).Holds m C :=
  hh.congr rfl fun x hx => by
    rw [released_of_not_mem fun hc => Set.disjoint_left.1 hf.outside hc hx]

theorem released_counts (hc : h.Counts m C) (hf : Freeable m C pg k) :
    (h.released m pg k).Counts m (C ∪ cells (pg, k)) := by
  have hmark : (h.markFreed pg k).Counts m C := ⟨hc.finite, hc.avail, hc.total⟩
  have hadd := hmark.add (finite_cells (pg, k)) hf.outside hf.inPlace
  rw [ncard_cells] at hadd
  exact hadd

/-- The merged block is filed: the lists hold what they held before and the block. -/
theorem Merged.push {n z : Nat} {r : Nat × Nat × Heap} (hm : Merged m h C n z pg k r) :
    (r.2.2.push n z r.2.1 r.1).Holds m (C ∪ cells (pg, k)) := by
  have hset : C \ cells (r.1, r.2.1) ∪ cells (r.1, r.2.1) = C ∪ cells (pg, k) := by
    ext x
    have hsub := @hm.sub x
    have hsup := @hm.sup x
    simp only [Set.mem_union, Set.mem_sdiff] at hsup ⊢
    tauto
  rw [← hset]
  exact hm.holds.push Set.disjoint_sdiff_right hm.inPlace hm.le

end Free

end XenVmi.PageAlloc
