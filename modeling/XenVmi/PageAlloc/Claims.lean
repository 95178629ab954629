import Mathlib.Algebra.BigOperators.Group.Finset.Basic
import Mathlib.Algebra.Order.BigOperators.Group.Finset
import XenVmi.PageAlloc.Domheap
import XenVmi.PageAlloc.Search

/-!
# Claims

`ClaimInv`: the claims of the domains add up to `outstanding_claims`, and there is free memory for
all of them. An allocation for which the claims leave no room is one of a domain whose own claim
covers it, and `assign_pages` takes it off this claim.
-/

namespace XenVmi.PageAlloc

open Function XenVmi.Lib

/-! ## Accounting -/

structure HeapPages (m : Machine) (fs : List Nat) : Prop where
  nodup : fs.Nodup
  zero : 0 ∉ fs
  count : fs.length < 2 ^ 32
  online : ∀ f ∈ fs, m.nid f < m.maxNodes ∧ m.online (m.nid f) = true
  zone : ∀ f ∈ fs, pageToZone f < nrZones

theorem HeapPages.ncard_lt {m : Machine} {fs : List Nat} (hfs : HeapPages m fs) :
    {f | f ∈ fs}.ncard < 2 ^ 32 := by
  have hset : {f | f ∈ fs} = (↑fs.toFinset : Set Nat) := by
    simp
  rw [hset, Set.ncard_coe_finset]
  exact (List.toFinset_card_le fs).trans_lt hfs.count

section Accounting

variable {ι : Type} [Fintype ι] {m : Machine} {s : DomHeap ι} {F : Set Nat}

def DomHeap.claimed (s : DomHeap ι) : Int := ∑ d, ((s.dom d).outstandingPages : Int)

structure ClaimInv (m : Machine) (F : Set Nat) (s : DomHeap ι) : Prop where
  buddy : s.heap.Buddy m
  free : s.heap.freeFrames ⊆ F
  sum : s.heap.claims = s.claimed
  le : s.heap.claims ≤ s.heap.total

theorem outstanding_le_claimed (d : ι) : ((s.dom d).outstandingPages : Int) ≤ s.claimed :=
  Finset.single_le_sum (fun i _ => Int.natCast_nonneg (s.dom i).outstandingPages)
    (Finset.mem_univ d)

theorem claimed_setDom [DecidableEq ι] (d : ι) (x : Domain) :
    (s.setDom d x).claimed = s.claimed - (s.dom d).outstandingPages + x.outstandingPages := by
  have hrest : ∀ f : ι → Domain, ∑ i, ((f i).outstandingPages : Int) =
      (f d).outstandingPages + ∑ i ∈ Finset.univ.erase d, ((f i).outstandingPages : Int) := fun f =>
    (Finset.add_sum_erase _ _ (Finset.mem_univ d)).symm
  have hsame : ∑ i ∈ Finset.univ.erase d, ((update s.dom d x i).outstandingPages : Int) =
      ∑ i ∈ Finset.univ.erase d, ((s.dom i).outstandingPages : Int) :=
    Finset.sum_congr rfl fun i hi => by rw [update_of_ne (Finset.ne_of_mem_erase hi)]
  unfold DomHeap.claimed
  show ∑ i, ((update s.dom d x i).outstandingPages : Int) = _
  rw [hrest (update s.dom d x), hrest s.dom, update_self]
  omega

theorem claimed_congr {s' : DomHeap ι}
    (h : ∀ d, (s'.dom d).outstandingPages = (s.dom d).outstandingPages) : s'.claimed = s.claimed :=
  Finset.sum_congr rfl fun d _ => by rw [h d]

theorem toUnsigned_of_lt {x : Int} (h0 : 0 ≤ x) (hlt : x < 2 ^ 32) : (toUnsigned x : Int) = x := by
  unfold toUnsigned
  rw [Int.emod_eq_of_lt h0 hlt, Int.toNat_of_nonneg h0]

theorem Heap.Buddy.setClaims {h : Heap} (hb : h.Buddy m) (c : Int) :
    ({ h with claims := c } : Heap).Buddy m where
  sound :=
    { holds := hb.sound.holds.congr rfl fun _ _ => rfl
      counts := ⟨hb.sound.counts.finite, hb.sound.counts.avail, hb.sound.counts.total⟩
      unbroken := hb.sound.unbroken }
  calm := hb.calm
  zero := hb.zero
  aligned := hb.aligned
  coalesced := hb.coalesced

theorem ClaimInv.total_le (inv : ClaimInv m F s) (hF : F.Finite) : s.heap.total ≤ F.ncard := by
  rw [inv.buddy.sound.counts.total]
  exact_mod_cast Set.ncard_le_ncard inv.free hF

variable [DecidableEq ι]

/-- What `domain_adjust_tot_pages` does to the claims. -/
structure Adjusted (s : DomHeap ι) (d : ι) (pages : Int) (s' : DomHeap ι) : Prop where
  heap : s'.heap = { s.heap with claims := s'.heap.claims }
  sum : s'.heap.claims = s'.claimed
  claims : s'.heap.claims = s.heap.claims - (s.dom d).outstandingPages +
    if (s.dom d).outstandingPages = 0 then 0 else max 0 ((s.dom d).outstandingPages - pages)

theorem domainAdjustTotPages_spec (pages : Int) (d : ι) (hsum : s.heap.claims = s.claimed)
    (hlt : ((s.dom d).outstandingPages : Int) - pages < 2 ^ 32) :
    ∃ r, domainAdjustTotPages s d pages = .ok r ∧ Adjusted s d pages r.2 := by
  have hle := outstanding_le_claimed (s := s) d
  unfold domainAdjustTotPages
  simp only
  split
  · rename_i h0
    refine ⟨_, rfl, rfl, ?_, ?_⟩
    · rw [claimed_setDom]
      show s.heap.claims = s.claimed - (s.dom d).outstandingPages + (s.dom d).outstandingPages
      omega
    · show s.heap.claims = _
      omega
  rename_i h0
  generalize hc : (if ((s.dom d).outstandingPages : Int) - pages < 0 then (0 : Int)
    else (s.dom d).outstandingPages - pages) = c
  have hmax : c = max 0 (((s.dom d).outstandingPages : Int) - pages) := by
    rw [← hc]
    split <;> omega
  have hc0 : 0 ≤ c := by omega
  rw [if_neg (by omega), if_neg (by omega)]
  refine ⟨_, rfl, rfl, ?_, ?_⟩
  · rw [claimed_setDom, toUnsigned_of_lt hc0 (by omega)]
    show s.heap.claims - ((s.dom d).outstandingPages - c) =
      s.claimed - (s.dom d).outstandingPages + c
    omega
  · show s.heap.claims - ((s.dom d).outstandingPages - c) = _
    omega

end Accounting

/-! ## Blocks for domains -/

section Alloc

variable {ι : Type} [DecidableEq ι] {m : Machine} {s s' : DomHeap ι} {h : Heap} {d : Option ι}
  {order pg : Nat} {noRefcount : Bool}

variable {req : Request} {h' : Heap} {node : Nat}

theorem refuses_eq_false_iff : h.refuses req = false ↔
    h.claims + (2 ^ req.order : Nat) ≤ h.total ∨
      req.noRefcount = false ∧ ∃ q, req.dom = some q ∧ 2 ^ req.order ≤ q.outstanding := by
  unfold Heap.refuses
  rw [Bool.and_eq_false_iff, decide_eq_false_iff_not, Int.not_lt, Bool.or_eq_false_iff]
  refine or_congr Iff.rfl (and_congr Iff.rfl ?_)
  cases req.dom with
  | none => simp
  | some q => simp

theorem not_refuses_of_some {b : Nat × Nat}
    (hr : allocHeapPages m h req = .ok (some b, h')) : h.refuses req = false := by
  unfold allocHeapPages at hr
  split at hr
  · cases hr
  · split at hr
    · cases hr
    · exact Bool.eq_false_iff.2 ‹_›

structure Granted (m : Machine) (s : DomHeap ι) (d : Option ι) (order : Nat) (noRefcount : Bool)
    (pg : Nat) (s' : DomHeap ι) : Prop where
  buddy : s'.heap.Buddy m
  sub : cells (pg, order) ⊆ s.heap.freeFrames
  rest : s'.heap.freeFrames = s.heap.freeFrames \ cells (pg, order)
  back : Freeable m s'.heap.freeFrames pg order
  aligned : Aligned (pg, order)
  total : s'.heap.total = s.heap.total - (2 ^ order : Nat)
  claims : s'.heap.claims = s.heap.claims
  dom : ∀ d, ∃ node, s'.dom d = { s.dom d with lastAllocNode := node }
  covered : s.heap.claims + (2 ^ order : Nat) ≤ s.heap.total ∨
    noRefcount = false ∧ ∃ d', d = some d' ∧ 2 ^ order ≤ (s.dom d').outstandingPages

theorem Allocated.total (hb : h.Buddy m) (hb' : h'.Buddy m)
    (ha : Allocated m h req pg node h') : h'.total = h.total - (2 ^ req.order : Nat) := by
  have hcard := Set.ncard_sdiff_add_ncard_of_subset ha.free hb.sound.counts.finite
  rw [ncard_cells] at hcard
  rw [hb.sound.counts.total, hb'.sound.counts.total, ha.rest]
  simp only at hcard
  omega

theorem Allocated.freeable
    (ha : Allocated m h req pg node h') : Freeable m h'.freeFrames pg req.order := by
  obtain ⟨zone, -, hplace⟩ := ha.zone
  obtain ⟨hn, hz⟩ := hplace (self_mem_cells pg req.order)
  refine ⟨ha.le, ?_, ?_⟩
  · rw [ha.rest]
    exact Set.disjoint_sdiff_right
  · rw [hn, hz]
    exact hplace

theorem allocHeap_spec (hb : s.heap.Buddy m) (d : Option ι) (order : Nat) (flags : MemFlags)
    (cpuNode zoneLo zoneHi : Nat) :
    ∃ r, s.allocHeap m d order flags cpuNode zoneLo zoneHi = .ok r ∧
      ((r.1 = none ∧ r.2 = s) ∨
        ∃ pg, r.1 = some pg ∧ Granted m s d order flags.noRefcount pg r.2) := by
  obtain ⟨⟨b, h'⟩, hr, hb', hres⟩ :=
    allocHeapPages_buddy hb (s.request d order flags cpuNode zoneLo zoneHi)
  unfold DomHeap.allocHeap
  rw [hr]
  rcases hres with ⟨hnone, heq⟩ | ⟨pg, node, hsome, ha⟩
  · simp only at hnone heq
    rw [hnone, heq]
    exact ⟨_, rfl, .inl ⟨rfl, rfl⟩⟩
  simp only at hsome ha hb'
  rw [hsome] at hr ⊢
  have hcov := refuses_eq_false_iff.1 (not_refuses_of_some hr)
  have hcov' : s.heap.claims + (2 ^ order : Nat) ≤ s.heap.total ∨ flags.noRefcount = false ∧
      ∃ d', d = some d' ∧ 2 ^ order ≤ (s.dom d').outstandingPages := by
    refine hcov.imp id fun ⟨hno, q, hq, hle⟩ => ⟨hno, ?_⟩
    obtain ⟨d', hd', rfl⟩ := Option.map_eq_some_iff.1 hq
    exact ⟨d', hd', hle⟩
  have htotal : h'.total = s.heap.total - (2 ^ order : Nat) := ha.total hb hb'
  have hback : Freeable m h'.freeFrames pg order := ha.freeable
  cases d with
  | none =>
    exact ⟨_, rfl, .inr ⟨pg, rfl, hb', ha.free, ha.rest, hback, ha.aligned, htotal, ha.claims,
      fun d => ⟨(s.dom d).lastAllocNode, rfl⟩, hcov'⟩⟩
  | some d' =>
    refine ⟨_, rfl, .inr ⟨pg, rfl, hb', ha.free, ha.rest, hback, ha.aligned, htotal, ha.claims,
      fun d => ?_, hcov'⟩⟩
    show ∃ n, update s.dom d' { s.dom d' with lastAllocNode := node } d = _
    by_cases hd : d = d'
    · subst hd
      exact ⟨node, update_self _ _ _⟩
    · exact ⟨(s.dom d).lastAllocNode, update_of_ne hd _ _⟩

theorem allocZones_spec (hb : s.heap.Buddy m) (dma : Nat) (d : Option ι) (order : Nat)
    (flags : MemFlags) (cpuNode zoneHi : Nat) :
    ∃ r, s.allocZones m dma d order flags cpuNode zoneHi = .ok r ∧
      ((r.1 = none ∧ r.2 = s ∧
          (flags.noDma = true ∨ s.allocHeap m d order flags cpuNode 1 zoneHi = .ok (none, s))) ∨
        ∃ pg, r.1 = some pg ∧ Granted m s d order flags.noRefcount pg r.2) := by
  -- the first call gives a block, or leaves everything to the second
  have hfirst : ∃ r, (if dma ≠ 0 ∧ bitsToZone dma < zoneHi then
      s.allocHeap m d order flags cpuNode (bitsToZone dma + 1) zoneHi else .ok (none, s)) = .ok r ∧
      ((r.1 = none ∧ r.2 = s) ∨
        ∃ pg, r.1 = some pg ∧ Granted m s d order flags.noRefcount pg r.2) := by
    split
    · exact allocHeap_spec hb d order flags cpuNode _ zoneHi
    · exact ⟨_, rfl, .inl ⟨rfl, rfl⟩⟩
  obtain ⟨⟨b, s₁⟩, hr, hres⟩ := hfirst
  unfold DomHeap.allocZones
  simp only at hres ⊢
  rw [hr]
  rcases hres with ⟨rfl, rfl⟩ | ⟨pg, rfl, hg⟩
  · simp only
    split
    · exact ⟨_, rfl, .inl ⟨rfl, rfl, .inl ‹_›⟩⟩
    · obtain ⟨r, hr, hres⟩ := allocHeap_spec hb d order flags cpuNode 1 zoneHi
      refine ⟨r, hr, hres.imp_left fun h => ⟨h.1, h.2, .inr ?_⟩⟩
      rw [hr, ← h.1, ← h.2]
  · exact ⟨_, rfl, .inr ⟨pg, rfl, hg⟩⟩

end Alloc

/-! ## Every operation keeps the accounts -/

section Ops

variable {ι : Type} [Fintype ι] {m : Machine} {s s' : DomHeap ι} {F : Set Nat} {d : Option ι}
  {order pg : Nat} {noRefcount : Bool}

section Granted

variable (hg : Granted m s d order noRefcount pg s') (hi : ClaimInv m F s)

include hg

omit [Fintype ι] in
theorem Granted.outstanding (i : ι) : (s'.dom i).outstandingPages = (s.dom i).outstandingPages := by
  obtain ⟨node, hnode⟩ := hg.dom i
  rw [hnode]

theorem Granted.claimed : s'.claimed = s.claimed :=
  claimed_congr hg.outstanding

include hi

theorem Granted.inv (hroom : s.heap.claims + (2 ^ order : Nat) ≤ s.heap.total) :
    ClaimInv m F s' where
  buddy := hg.buddy
  free := by
    rw [hg.rest]
    exact Set.sdiff_subset.trans hi.free
  sum := by rw [hg.claims, hg.claimed, hi.sum]
  le := by
    rw [hg.claims, hg.total]
    omega

theorem Granted.undo :
    ∃ h, freeHeapPages m s'.heap pg order = .ok h ∧ ClaimInv m F { s' with heap := h } := by
  obtain ⟨h, hr, hb, hset, hcl⟩ := freeHeapPages_buddy hg.buddy hg.back hg.aligned fun h0 =>
    hi.buddy.zero (hg.sub h0)
  have hfree : h.freeFrames = s.heap.freeFrames := by
    rw [hset, hg.rest, Set.sdiff_union_of_subset hg.sub]
  refine ⟨h, hr, hb, ?_, ?_, ?_⟩
  · show h.freeFrames ⊆ F
    rw [hfree]
    exact hi.free
  · show h.claims = s'.claimed
    rw [hcl, hg.claims, hg.claimed, hi.sum]
  · show h.claims ≤ h.total
    rw [hcl, hg.claims, hb.sound.counts.total, hfree, ← hi.buddy.sound.counts.total]
    exact hi.le

end Granted

variable [DecidableEq ι] (hF : F.Finite) (hlt : F.ncard < 2 ^ 32) (inv : ClaimInv m F s)

include hF hlt inv

theorem assignPages_spec {d : ι} (hg : Granted m s (some d) order noRefcount pg s') :
    ∃ r, assignPages s' d pg order noRefcount = .ok r ∧
      ((r.1 = 0 ∧ ClaimInv m F r.2) ∨ (r.1 ≠ 0 ∧ r.2 = s')) := by
  unfold assignPages
  split
  · exact ⟨_, rfl, .inr ⟨by simp, rfl⟩⟩
  split
  · rename_i hno
    have hroom := hg.covered.resolve_right fun h => by
      rw [hno] at h
      cases h.1
    obtain ⟨hb, hfree, hsum, hle⟩ := hg.inv inv hroom
    exact ⟨_, rfl, .inl ⟨rfl, hb, hfree, hsum, hle⟩⟩
  split
  · exact ⟨_, rfl, .inr ⟨by simp, rfl⟩⟩
  have hpos := Int.natCast_nonneg (2 ^ order)
  have hout := hg.outstanding d
  have hsum : s'.heap.claims = s'.claimed := by rw [hg.claims, hg.claimed, inv.sum]
  have htotal := inv.total_le hF
  have hle := inv.le
  have hsmall := outstanding_le_claimed (s := s) d
  rw [← inv.sum] at hsmall
  obtain ⟨r, hr, ha⟩ := domainAdjustTotPages_spec (2 ^ order : Nat) d hsum
    (by omega)
  rw [hr]
  refine ⟨_, rfl, .inl ⟨rfl, ?_⟩⟩
  have hcl := ha.claims
  rw [hg.claims] at hcl
  have hheap := ha.heap
  refine ⟨?_, ?_, ha.sum, ?_⟩
  · show r.2.heap.Buddy m
    rw [hheap]
    exact hg.buddy.setClaims _
  · show r.2.heap.freeFrames ⊆ F
    rw [hheap]
    show s'.heap.freeFrames ⊆ F
    rw [hg.rest]
    exact Set.sdiff_subset.trans inv.free
  · show r.2.heap.claims ≤ r.2.heap.total
    have htot : r.2.heap.total = s.heap.total - (2 ^ order : Nat) := by
      rw [hheap]
      exact hg.total
    rw [hcl]
    rcases hg.covered with hroom | ⟨-, d', hd', hcov⟩
    · split <;> omega
    · cases hd'
      split <;> omega

theorem allocDomheapPages_inv (dma : Nat) (d : Option ι) (order : Nat) (flags : MemFlags)
    (cpuNode : Nat) :
    ∃ r, allocDomheapPages m dma s d order flags cpuNode = .ok r ∧ ClaimInv m F r.2 := by
  unfold allocDomheapPages
  simp only
  split
  · exact ⟨_, rfl, inv⟩
  obtain ⟨⟨b, s₁⟩, hr, hres⟩ := allocZones_spec inv.buddy dma d order
    { flags with noRefcount := flags.noRefcount || flags.noOwner } cpuNode (s.zoneHi d flags)
  rw [hr]
  rcases hres with ⟨rfl, rfl, -⟩ | ⟨pg, rfl, hg⟩
  · exact ⟨_, rfl, inv⟩
  cases d with
  | none =>
    refine ⟨_, rfl, hg.inv inv (hg.covered.resolve_right fun h => ?_)⟩
    obtain ⟨-, d', hd', -⟩ := h
    cases hd'
  | some d =>
    simp only
    split
    · rename_i hown
      refine ⟨_, rfl, hg.inv inv (hg.covered.resolve_right fun h => ?_)⟩
      rw [hown, Bool.or_true] at h
      cases h.1
    obtain ⟨⟨rc, s₂⟩, hr, hres⟩ := assignPages_spec hF hlt inv hg
    rw [hr]
    simp only at hres ⊢
    rcases hres with ⟨rfl, hinv⟩ | ⟨hne, rfl⟩
    · exact ⟨_, rfl, hinv⟩
    · obtain ⟨h, hfree, hinv⟩ := hg.undo inv
      rw [if_neg hne, hfree]
      exact ⟨_, rfl, hinv⟩

theorem freeDomheapPages_inv (h0 : 0 ∉ F) (hf : Freeable m s.heap.freeFrames pg order)
    (ha : Aligned (pg, order)) (hsub : cells (pg, order) ⊆ F) :
    ∃ s', freeDomheapPages m s pg order = .ok s' ∧ ClaimInv m F s' := by
  -- free pages and those of the block are pages of the heap
  have hunion : ((s.heap.freeFrames ∪ cells (pg, order)).ncard : Int) =
      s.heap.total + (2 ^ order : Nat) := by
    rw [Set.ncard_union_eq hf.outside.symm inv.buddy.sound.counts.finite (finite_cells (pg, order)),
      ncard_cells, inv.buddy.sound.counts.total]
    rfl
  have hcard := Set.ncard_le_ncard (Set.union_subset inv.free hsub) hF
  have hclaims := inv.le
  have hpos := Int.natCast_nonneg (2 ^ order)
  -- the accounts before the block is free
  have hadj : ∃ s₁ c, s.disown pg order = .ok s₁ ∧ s₁.heap = { s.heap with claims := c } ∧
      c = s₁.claimed ∧ c ≤ s.heap.claims + (2 ^ order : Nat) := by
    unfold DomHeap.disown
    cases ho : s.owner pg with
    | none => exact ⟨s, s.heap.claims, rfl, rfl, inv.sum, by omega⟩
    | some d =>
      have hsmall := outstanding_le_claimed (s := s) d
      rw [← inv.sum] at hsmall
      obtain ⟨r, hr, had⟩ := domainAdjustTotPages_spec (-(2 ^ order : Nat)) d inv.sum
        (by omega)
      simp only
      rw [hr]
      refine ⟨r.2, r.2.heap.claims, rfl, had.heap, had.sum, ?_⟩
      rw [had.claims]
      split <;> omega
  obtain ⟨s₁, c, hr, hheap, hsum, hc⟩ := hadj
  obtain ⟨h', hfree, hb, hset, hcl⟩ := freeHeapPages_buddy (inv.buddy.setClaims c) hf ha
    fun hz => h0 (hsub hz)
  unfold freeDomheapPages
  rw [hr]
  simp only
  rw [hheap, hfree]
  refine ⟨_, rfl, hb, ?_, ?_, ?_⟩
  · show h'.freeFrames ⊆ F
    rw [hset]
    exact Set.union_subset inv.free hsub
  · show h'.claims = s₁.claimed
    rw [hcl]
    exact hsum
  · show h'.claims ≤ h'.total
    have htotal : h'.total = s.heap.total + (2 ^ order : Nat) := by
      rw [hb.sound.counts.total, hset]
      exact hunion
    rw [hcl]
    show c ≤ _
    omega

theorem domainSetOutstandingPages_inv (d : ι) (pages : Nat) :
    ClaimInv m F (domainSetOutstandingPages s d pages).2 := by
  have htotal := inv.total_le hF
  have hle := inv.le
  have hsum := inv.sum
  have hnonneg := outstanding_le_claimed (s := s) d
  unfold domainSetOutstandingPages
  simp only
  split
  · refine ⟨inv.buddy.setClaims _, inv.free, ?_, ?_⟩
    · rw [claimed_setDom]
      show s.heap.claims - (s.dom d).outstandingPages = s.claimed - (s.dom d).outstandingPages + 0
      omega
    · show s.heap.claims - (s.dom d).outstandingPages ≤ s.heap.total
      omega
  split
  · exact inv
  split
  · exact inv
  split
  · exact inv
  rename_i hfits
  have havail : ((s.heap.total - s.heap.claims) % 2 ^ 64).toNat =
      (s.heap.total - s.heap.claims).toNat := by
    rw [Int.emod_eq_of_lt (by omega) (by omega)]
  have hclaim : (toUnsigned ((pages - (s.dom d).totPages : Nat) : Int) : Int) =
      (pages - (s.dom d).totPages : Nat) := toUnsigned_of_lt (by omega) (by omega)
  generalize toUnsigned ((pages - (s.dom d).totPages : Nat) : Int) = c at hclaim
  refine ⟨inv.buddy.setClaims _, inv.free, ?_, ?_⟩
  · rw [claimed_setDom]
    show s.heap.claims + (c : Int) = s.claimed - (s.dom d).outstandingPages + (c : Int)
    omega
  · show s.heap.claims + (c : Int) ≤ s.heap.total
    omega

theorem domStep_inv (h0 : 0 ∉ F) (dma : Nat) {op : DomOp ι} (hop : op.Proper m F s) :
    ∃ s', domStep m dma s op = .ok s' ∧ ClaimInv m F s' := by
  cases op with
  | setOutstanding d pages => exact ⟨_, rfl, domainSetOutstandingPages_inv hF hlt inv d pages⟩
  | alloc d order flags cpuNode =>
    obtain ⟨r, hr, hinv⟩ := allocDomheapPages_inv hF hlt inv dma d order flags cpuNode
    refine ⟨r.2, ?_, hinv⟩
    show (allocDomheapPages m dma s d order flags cpuNode).map Prod.snd = _
    rw [hr]
    rfl
  | free pg order => exact freeDomheapPages_inv hF hlt inv h0 hop.1 hop.2.1 hop.2.2.1
  | configure d settings =>
    refine ⟨_, rfl, inv.buddy, inv.free, ?_, inv.le⟩
    rw [claimed_setDom]
    show s.heap.claims = s.claimed - (s.dom d).outstandingPages + (s.dom d).outstandingPages
    rw [inv.sum]
    omega

end Ops

/-! ## A claim is a promise -/

section Promise

variable {ι : Type} [DecidableEq ι] {m : Machine} {s : DomHeap ι} {h : Heap}

variable {req : Request} {cpuNode : Nat} {fs : List Nat}

theorem mem_zones_of_le {z : Nat} (hlo : req.zoneLo ≤ z) (hhi : z ≤ req.zoneHi) :
    z ∈ req.zones := by
  unfold Request.zones
  rw [List.mem_map]
  exact ⟨req.zoneHi - z, List.mem_range.2 (by omega), by omega⟩

theorem allocHeapPages_some {x : Nat} (hb : h.Buddy m)
    (hrefuse : h.refuses req = false) (ho : req.order = 0) (hex : req.exactNode = false)
    (hnode : req.node = none) (hcpu : req.cpuNode < m.maxNodes) (hx : x ∈ h.freeFrames)
    (hz : pageToZone x ∈ req.zones) (hlt : m.nid x < m.maxNodes)
    (hon : m.online (m.nid x) = true) : ∃ b h', allocHeapPages m h req = .ok (some b, h') := by
  unfold allocHeapPages
  rw [if_neg (by omega), hrefuse]
  cases hs : h.search m req (2 * m.maxNodes + 2) (startWalk m req) with
  | none =>
    exact absurd (search_none_dead hex hnode hcpu hs _ hlt hon)
      (searchNode_ne_none hb.sound.holds hb.sound.counts hx hz ho)
  | some r =>
    obtain ⟨node, zone, j⟩ := r
    obtain ⟨-, hj, -, hne⟩ := search_spec hs
    simp only
    cases hl : h.free node zone j with
    | nil => exact absurd hl hne
    | cons b l =>
      obtain ⟨r, hr⟩ := (take_spec hb.sound.holds hb.sound.counts hl hj).2
        fun f hf => hb.sound.isFree hf
      simp only
      rw [hr]
      exact ⟨_, _, rfl⟩

omit [DecidableEq ι] in
theorem zoneHi_zero {d : ι} (hphys : (s.dom d).physaddrBitsize = 0) :
    s.zoneHi (some d) MemFlags.zero = nrZones - 1 := by
  unfold DomHeap.zoneHi DomHeap.clampAllocBitsize MemFlags.zero
  simp only [Bool.false_eq_true, if_false, hphys, if_true]
  decide

variable [Fintype ι]

theorem allocZones_claimed (hfs : HeapPages m fs) (inv : ClaimInv m {f | f ∈ fs} s) (dma : Nat)
    {d : ι} (hcpu : cpuNode < m.maxNodes) (hclaim : 1 ≤ (s.dom d).outstandingPages) :
    ∃ pg s', s.allocZones m dma (some d) 0 MemFlags.zero cpuNode (nrZones - 1) = .ok (some pg, s') ∧
      Granted m s (some d) 0 false pg s' := by
  obtain ⟨⟨b, s'⟩, hr, hres⟩ :=
    allocZones_spec inv.buddy dma (some d) 0 MemFlags.zero cpuNode (nrZones - 1)
  rcases hres with ⟨-, -, hnone⟩ | ⟨pg, hsome, hg⟩
  · -- the claims are backed by free pages, and the search finds one
    have hsmall := outstanding_le_claimed (s := s) d
    have hle := inv.le
    have hpos : 0 < s.heap.freeFrames.ncard := by
      have htotal := inv.buddy.sound.counts.total
      have hsum := inv.sum
      omega
    obtain ⟨x, hx⟩ := (Set.ncard_pos inv.buddy.sound.counts.finite).1 hpos
    have hxs : x ∈ fs := inv.free hx
    obtain ⟨hlt, hon⟩ := hfs.online x hxs
    have hzone := hfs.zone x hxs
    have hrefuse : s.heap.refuses (s.request (some d) 0 MemFlags.zero cpuNode 1 (nrZones - 1)) =
        false := refuses_eq_false_iff.2 (.inr ⟨rfl, _, rfl, hclaim⟩)
    obtain ⟨b, h', hsome⟩ := allocHeapPages_some inv.buddy hrefuse rfl rfl
      rfl hcpu hx (mem_zones_of_le (Nat.succ_le_succ (Nat.zero_le _)) (by
        show pageToZone x ≤ nrZones - 1
        omega)) hlt hon
    rcases hnone with hdma | hnone
    · cases hdma
    · unfold DomHeap.allocHeap at hnone
      rw [hsome] at hnone
      cases hnone
  · subst hsome
    exact ⟨pg, s', hr, hg⟩

theorem allocDomheapPages_claimed (hfs : HeapPages m fs) (inv : ClaimInv m {f | f ∈ fs} s)
    (dma : Nat) {d : ι} (hcpu : cpuNode < m.maxNodes) (hclaim : 1 ≤ (s.dom d).outstandingPages)
    (hmax : (s.dom d).totPages < (s.dom d).maxPages) (halive : (s.dom d).isDying = false)
    (hphys : (s.dom d).physaddrBitsize = 0) :
    ∃ pg s', allocDomheapPages m dma s (some d) 0 MemFlags.zero cpuNode = .ok (some pg, s') := by
  obtain ⟨pg, s', hr, hg⟩ := allocZones_claimed hfs inv dma hcpu hclaim
  -- `assign_pages` succeeds, as the page is within the limit
  obtain ⟨⟨rc, s''⟩, hassign, -⟩ := assignPages_spec fs.finite_toSet hfs.ncard_lt inv hg
  have hrc : rc = 0 := by
    obtain ⟨node, hnode⟩ := hg.dom d
    have hfits : ¬(s.dom d).maxPages < toUnsigned ((s.dom d).totPages + (2 ^ 0 : Nat)) := by
      unfold toUnsigned
      omega
    unfold assignPages at hassign
    rw [hnode] at hassign
    simp only [halive, Bool.false_eq_true, if_false, if_neg hfits] at hassign
    split at hassign
    · cases hassign
    · cases hassign
      rfl
  subst hrc
  refine ⟨pg, s'', ?_⟩
  unfold allocDomheapPages
  simp only
  rw [zoneHi_zero hphys]
  rw [show { MemFlags.zero with noRefcount := MemFlags.zero.noRefcount || MemFlags.zero.noOwner } =
    MemFlags.zero from rfl, hr]
  simp only [MemFlags.zero, Bool.or_false, hassign]
  rfl

end Promise

/-! ## Runs -/

section Runs

variable {ι : Type} [Fintype ι] [DecidableEq ι] {m : Machine}

/-- **Claims are honoured** in every run that starts without claims: the heap has a free page for
each outstanding one, no operation fails, and a domain with a claim gets a page if it is below its
limit and not dying. -/
theorem claims_honoured {fs : List Nat} (hfs : HeapPages m fs) (dma : Nat) (dom₀ : ι → Domain)
    (hdom₀ : ∀ d, (dom₀ d).outstandingPages = 0) :
    ∃ h₀, initHeapPages m fs = .ok h₀ ∧
      ∀ s, Reaches (domStep m dma) (fun s op => op.Proper m {f | f ∈ fs} s)
          ⟨h₀, dom₀, fun _ => none⟩ s →
        s.heap.claims = ∑ d, ((s.dom d).outstandingPages : Int) ∧ s.heap.claims ≤ s.heap.total ∧
        (∀ op : DomOp ι, op.Proper m {f | f ∈ fs} s → ∃ s', domStep m dma s op = .ok s') ∧
        ∀ d cpuNode, cpuNode < m.maxNodes → 1 ≤ (s.dom d).outstandingPages →
          (s.dom d).totPages < (s.dom d).maxPages → (s.dom d).isDying = false →
          (s.dom d).physaddrBitsize = 0 →
          ∃ pg s', allocDomheapPages m dma s (some d) 0 MemFlags.zero cpuNode =
            .ok (some pg, s') := by
  obtain ⟨h₀, hinit, hb, hset, hcl⟩ := initHeapPages_buddy hfs.nodup hfs.zero
  refine ⟨h₀, hinit, fun s run => ?_⟩
  have init : ClaimInv m {f | f ∈ fs} ⟨h₀, dom₀, fun _ => none⟩ := by
    refine ⟨hb, hset.le, ?_, ?_⟩
    · show h₀.claims = ∑ d, ((dom₀ d).outstandingPages : Int)
      rw [hcl, Finset.sum_eq_zero fun d _ => by rw [hdom₀ d]; rfl]
    · show h₀.claims ≤ h₀.total
      rw [hcl, hb.sound.counts.total]
      exact Int.natCast_nonneg _
  have inv : ClaimInv m {f | f ∈ fs} s := run.invariant_of_total
    (fun _ _ hop inv => domStep_inv fs.finite_toSet hfs.ncard_lt inv hfs.zero dma hop) init
  refine ⟨inv.sum, inv.le, fun op hop => ?_, fun d cpuNode hcpu hclaim hmax halive hphys =>
    allocDomheapPages_claimed hfs inv dma hcpu hclaim hmax halive hphys⟩
  obtain ⟨s', hs', -⟩ := domStep_inv fs.finite_toSet hfs.ncard_lt inv hfs.zero dma hop
  exact ⟨s', hs'⟩

def smallDomain : Domain where
  maxPages := 4
  isDying := false
  nodeAffinity n := decide (n = 0)
  physaddrBitsize := 0
  totPages := 0
  outstandingPages := 0
  lastAllocNode := 0

theorem threePages : HeapPages oneNode [1, 2, 3] where
  nodup := by decide
  zero := by decide
  count := by decide
  online := by decide
  zone := by decide

/-- Of two domains and three pages, the first domain claims two pages: it can have one. -/
theorem claims_honoured_two_of_three :
    ∃ h₀, initHeapPages oneNode [1, 2, 3] = .ok h₀ ∧
      ∃ s, domStep oneNode 0 ⟨h₀, fun _ : Fin 2 => smallDomain, fun _ => none⟩
          (.setOutstanding 0 2) = .ok s ∧ (s.dom 0).outstandingPages = 2 ∧
        ∃ pg s', allocDomheapPages oneNode 0 s (some 0) 0 MemFlags.zero 0 = .ok (some pg, s') := by
  obtain ⟨h₀, hinit, hrun⟩ :=
    claims_honoured threePages 0 (fun _ : Fin 2 => smallDomain) fun _ => rfl
  have hstep : ((initHeapPages oneNode [1, 2, 3]).toOption.map fun h₀ =>
      (domainSetOutstandingPages ⟨h₀, fun _ : Fin 2 => smallDomain, fun _ => none⟩ 0 2).2.dom 0) =
        some { smallDomain with outstandingPages := 2 } := rfl
  rw [hinit] at hstep
  have hdom : (domainSetOutstandingPages ⟨h₀, fun _ : Fin 2 => smallDomain, fun _ => none⟩ 0
      2).2.dom 0 = { smallDomain with outstandingPages := 2 } := Option.some.inj hstep
  refine ⟨h₀, hinit, _, rfl, by rw [hdom], ?_⟩
  refine (hrun _ (.single ⟨.setOutstanding 0 2, trivial, rfl⟩)).2.2.2 0 0 ?_ ?_ ?_ ?_ ?_
  · decide
  · rw [hdom]
    decide
  · rw [hdom]
    decide
  · rw [hdom]
    rfl
  · rw [hdom]
    rfl

end Runs

end XenVmi.PageAlloc
