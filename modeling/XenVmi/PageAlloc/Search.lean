import XenVmi.PageAlloc.Lists

/-!
# The search for a block

`alloc_heap_pages` goes through the nodes of a mask in a round that starts at any node of it, and
then through the nodes that are online and not in the mask (`NodeWalk.Round`).
-/

namespace XenVmi.PageAlloc

open XenVmi.Lib

section Search

variable {m : Machine} {h : Heap} {req : Request} {p : Nat → Bool} {N v : Nat}

theorem find_range_spec (p : Nat → Bool) (N : Nat) :
    (((List.range N).find? p).getD N < N → p (((List.range N).find? p).getD N) = true) ∧
      ∀ n < N, p n = true → ((List.range N).find? p).getD N ≤ n := by
  cases hf : (List.range N).find? p with
  | none =>
    refine ⟨fun hlt => absurd hlt (Nat.lt_irrefl N), fun n hn hp => ?_⟩
    exact absurd hp (List.find?_eq_none.1 hf n (List.mem_range.2 hn))
  | some i =>
    obtain ⟨hp, -, hmin⟩ := List.find?_range_eq_some.1 hf
    refine ⟨fun _ => hp, fun n _ hn => Nat.le_of_not_lt fun hlt => ?_⟩
    have hno := hmin n hlt
    rw [hn] at hno
    cases hno

theorem firstNode_mem (hlt : m.firstNode p < m.maxNodes) : p (m.firstNode p) = true :=
  (find_range_spec p m.maxNodes).1 hlt

theorem firstNode_le (hv : v < m.maxNodes) (hp : p v = true) : m.firstNode p ≤ v :=
  (find_range_spec p m.maxNodes).2 v hv hp

theorem nextNode_mem (hlt : m.nextNode v p < m.maxNodes) :
    v < m.nextNode v p ∧ p (m.nextNode v p) = true := by
  have hmem := (find_range_spec (fun n => decide (v < n) && p n) m.maxNodes).1 hlt
  rw [Bool.and_eq_true, decide_eq_true_eq] at hmem
  exact hmem

theorem nextNode_le {n : Nat} (hn : n < m.maxNodes) (hvn : v < n) (hp : p n = true) :
    m.nextNode v p ≤ n := by
  refine (find_range_spec (fun n => decide (v < n) && p n) m.maxNodes).2 n hn ?_
  rw [Bool.and_eq_true, decide_eq_true_eq]
  exact ⟨hvn, hp⟩

/-- The node after `v` in the mask, which starts again after the last one. -/
def Machine.cycleNode (m : Machine) (mask : Nat → Bool) (v : Nat) : Nat :=
  if m.maxNodes ≤ m.nextNode v mask then m.firstNode mask else m.nextNode v mask

def NodeWalk.fallback (m : Machine) (mask : Nat → Bool) : Option NodeWalk :=
  let mask := fun n => m.online n && !mask n
  if m.firstNode mask < m.maxNodes then some ⟨m.firstNode mask, m.firstNode mask, mask, true⟩
    else none

variable {w : NodeWalk} {dead : Nat → Prop} {mask : Nat → Bool} {retry : Bool}

theorem next_inside (hin : w.mask w.node = true) (hex : req.exactNode = false) :
    w.next m req =
      if m.cycleNode w.mask w.node = w.first then
        if w.retry then none else NodeWalk.fallback m w.mask
      else some ⟨m.cycleNode w.mask w.node, w.first, w.mask, w.retry⟩ := by
  unfold NodeWalk.next Machine.cycleNode NodeWalk.fallback
  simp only [hin, hex, Bool.not_true, Bool.false_and, Bool.false_or, Bool.false_eq_true, if_false]

theorem next_outside (hout : w.mask w.node = false) (hex : req.exactNode = false)
    (hretry : w.retry = false) :
    w.next m req =
      if m.firstNode w.mask < m.maxNodes then
        some ⟨m.firstNode w.mask, m.firstNode w.mask, w.mask, false⟩
      else NodeWalk.fallback m w.mask := by
  unfold NodeWalk.next NodeWalk.fallback
  simp only [hout, hex, hretry, Bool.not_false, Bool.false_and, Bool.true_and, Bool.false_or,
    Bool.false_eq_true, if_false, if_true, decide_eq_true_eq]

/-- A round through the nodes of the mask: those from `first` to `node` have been tried. -/
structure NodeWalk.Round (m : Machine) (dead : Nat → Prop) (w : NodeWalk) : Prop where
  nodeLt : w.node < m.maxNodes
  firstLt : w.first < m.maxNodes
  node : w.mask w.node = true
  first : w.mask w.first = true
  tried : ∀ n < m.maxNodes, w.mask n = true →
    (w.first ≤ n ∧ n < w.node) ∨ (w.node < w.first ∧ (w.first ≤ n ∨ n < w.node)) → dead n

def NodeWalk.left (m : Machine) (w : NodeWalk) : Nat :=
  if w.first ≤ w.node then m.maxNodes - w.node + w.first else w.first - w.node

theorem round_start (hv : v < m.maxNodes)
    (hm : mask v = true) : NodeWalk.Round m dead ⟨v, v, mask, retry⟩ := by
  refine ⟨hv, hv, hm, hm, fun n _ _ h => ?_⟩
  simp only at h
  omega

theorem left_start (hv : v < m.maxNodes) :
    (⟨v, v, mask, retry⟩ : NodeWalk).left m = m.maxNodes := by
  unfold NodeWalk.left
  rw [if_pos le_rfl]
  simp only
  omega

theorem round_step (hw : w.Round m dead) (hd : dead w.node) :
    if m.cycleNode w.mask w.node = w.first then ∀ n < m.maxNodes, w.mask n = true → dead n
    else (⟨m.cycleNode w.mask w.node, w.first, w.mask, w.retry⟩ : NodeWalk).Round m dead ∧
      (⟨m.cycleNode w.mask w.node, w.first, w.mask, w.retry⟩ : NodeWalk).left m < w.left m := by
  have hnode := hw.nodeLt
  have hfirst := hw.firstLt
  -- the next node, and that there is none of the mask in between
  have hskip : ∀ n < m.maxNodes, w.mask n = true → w.node < n → m.nextNode w.node w.mask ≤ n :=
    fun n hn hp hlt => nextNode_le hn hlt hp
  have hlow : ∀ n < m.maxNodes, w.mask n = true → m.firstNode w.mask ≤ n :=
    fun n hn hp => firstNode_le hn hp
  have htried : ∀ n < m.maxNodes, w.mask n = true →
      (w.first ≤ n ∧ n ≤ w.node) ∨ (w.node < w.first ∧ (w.first ≤ n ∨ n ≤ w.node)) → dead n := by
    intro n hn hp h
    by_cases hnv : n = w.node
    · rw [hnv]
      exact hd
    · exact hw.tried n hn hp (by omega)
  have hfirstLow := hlow _ hfirst hw.first
  unfold Machine.cycleNode
  by_cases hwrap : m.maxNodes ≤ m.nextNode w.node w.mask
  · have hlast : ∀ n < m.maxNodes, w.mask n = true → n ≤ w.node := fun n hn hp => by
      by_contra hlt
      have := hskip n hn hp (by omega)
      omega
    have hge := hlast _ hfirst hw.first
    rw [if_pos hwrap]
    split
    · intro n hn hp
      have h1 := hlow n hn hp
      have h2 := hlast n hn hp
      exact htried n hn hp (by omega)
    have hlt : m.firstNode w.mask < m.maxNodes := by omega
    refine ⟨⟨hlt, hfirst, firstNode_mem hlt, hw.first, fun n hn hp h => ?_⟩, ?_⟩
    · simp only at h
      have h1 := hlow n hn hp
      have h2 := hlast n hn hp
      exact htried n hn hp (by omega)
    · unfold NodeWalk.left
      rw [if_pos hge]
      simp only
      rw [if_neg (by omega)]
      omega
  · rw [if_neg hwrap]
    have hlt : m.nextNode w.node w.mask < m.maxNodes := by omega
    obtain ⟨hup, hmem⟩ := nextNode_mem hlt
    have hgap : ∀ n < m.maxNodes, w.mask n = true → n < m.nextNode w.node w.mask → n ≤ w.node :=
      fun n hn hp hnn => by
        by_contra hgt
        have := hskip n hn hp (by omega)
        omega
    split
    · intro n hn hp
      have h1 : w.first ≤ n ∨ n < m.nextNode w.node w.mask := by omega
      rcases h1 with h1 | h1
      · exact htried n hn hp (by omega)
      · have h2 := hgap n hn hp h1
        exact htried n hn hp (by omega)
    -- the round does not jump over its first node
    have hno : ¬(w.node < w.first ∧ w.first < m.nextNode w.node w.mask) := fun h => by
      have := hskip _ hfirst hw.first h.1
      omega
    refine ⟨⟨hlt, hfirst, hmem, hw.first, fun n hn hp h => ?_⟩, ?_⟩
    · simp only at h
      have h2 := hgap n hn hp
      exact htried n hn hp (by omega)
    · unfold NodeWalk.left
      simp only
      split <;> split <;> omega

theorem search_round_none {fuel : Nat} (hex : req.exactNode = false)
    (hw : w.Round m fun n => h.searchNode m req n = none)
    (hfuel : w.left m + (if w.retry then 0 else m.maxNodes) ≤ fuel)
    (hs : h.search m req fuel w = none) :
    (∀ n < m.maxNodes, w.mask n = true → h.searchNode m req n = none) ∧
      (w.retry = false → ∀ n < m.maxNodes, m.online n = true → h.searchNode m req n = none) := by
  induction fuel generalizing w with
  | zero =>
    have h1 := hw.nodeLt
    unfold NodeWalk.left at hfuel
    split at hfuel <;> omega
  | succ fuel ih =>
    rw [Heap.search] at hs
    split at hs
    · cases hs
    rename_i hdead
    rw [next_inside hw.node hex] at hs
    have hstep := round_step hw hdead
    split at hstep
    · rename_i heq
      rw [if_pos heq] at hs
      refine ⟨hstep, fun hretry n hn hon => ?_⟩
      rw [hretry] at hs hfuel
      by_cases hmask : w.mask n = true
      · exact hstep n hn hmask
      -- the other nodes are tried in a round of their own
      have hn' : (fun n => m.online n && !w.mask n) n = true := by
        simp only [hon, Bool.eq_false_iff.2 hmask, Bool.not_false, Bool.and_true]
      have hlt : m.firstNode (fun n => m.online n && !w.mask n) < m.maxNodes :=
        Nat.lt_of_le_of_lt (firstNode_le hn hn') hn
      simp only [Bool.false_eq_true, if_false, NodeWalk.fallback, if_pos hlt] at hs hfuel
      refine (ih (round_start hlt (firstNode_mem hlt)) ?_ hs).1 n hn hn'
      rw [left_start hlt]
      have hleft : 0 < w.left m := by
        have h1 := hw.nodeLt
        unfold NodeWalk.left
        split <;> omega
      simp only [if_true]
      omega
    · rename_i hne
      rw [if_neg hne] at hs
      exact ih (w := ⟨m.cycleNode w.mask w.node, w.first, w.mask, w.retry⟩) hstep.1
        (by simp only; omega) hs

theorem search_none_dead (hex : req.exactNode = false) (hnode : req.node = none)
    (hcpu : req.cpuNode < m.maxNodes)
    (hs : h.search m req (2 * m.maxNodes + 2) (startWalk m req) = none) :
    ∀ n < m.maxNodes, m.online n = true → h.searchNode m req n = none := by
  obtain ⟨w, hw⟩ : ∃ w, startWalk m req = w := ⟨_, rfl⟩
  have hstart : w.node < m.maxNodes ∧ w.first = w.node ∧ w.retry = false := by
    have hdefault : ∀ n, (if m.maxNodes ≤ n then req.cpuNode else n) < m.maxNodes := fun n => by
      split <;> omega
    rw [← hw]
    unfold startWalk
    rw [hnode]
    exact ⟨hdefault _, rfl, rfl⟩
  rw [hw] at hs
  obtain ⟨node, v, mask, retry⟩ := w
  simp only at hstart
  obtain ⟨hv, rfl, rfl⟩ := hstart
  by_cases hmask : mask v = true
  · refine (search_round_none hex (round_start hv hmask) ?_ hs).2 rfl
    rw [left_start hv]
    simp only [Bool.false_eq_true, if_false]
    omega
  -- the first node is outside of the mask
  rw [Heap.search] at hs
  split at hs
  · cases hs
  rw [next_outside (Bool.eq_false_iff.2 hmask) hex rfl] at hs
  by_cases hlt : m.firstNode mask < m.maxNodes
  · rw [if_pos hlt] at hs
    refine (search_round_none hex (round_start hlt (firstNode_mem hlt)) ?_ hs).2 rfl
    rw [left_start hlt]
    simp only [Bool.false_eq_true, if_false]
    omega
  rw [if_neg hlt] at hs
  intro n hn hon
  have hmaskn : mask n = false := by
    rw [← Bool.not_eq_true]
    intro hp
    have := firstNode_le hn hp
    omega
  have hn' : (fun n => m.online n && !mask n) n = true := by
    simp only [hon, hmaskn, Bool.not_false, Bool.and_true]
  have hlt' : m.firstNode (fun n => m.online n && !mask n) < m.maxNodes :=
    Nat.lt_of_le_of_lt (firstNode_le hn hn') hn
  simp only [NodeWalk.fallback, if_pos hlt'] at hs
  refine (search_round_none hex (round_start hlt' (firstNode_mem hlt')) ?_ hs).1 n hn hn'
  rw [left_start hlt']
  simp only [if_true]
  omega

theorem searchNode_ne_none {C : Set Nat} {x : Nat} (hh : h.Holds m C) (hc : h.Counts m C)
    (hx : x ∈ C) (hz : pageToZone x ∈ req.zones) (ho : req.order = 0) :
    h.searchNode m req (m.nid x) ≠ none := by
  intro hnone
  obtain ⟨k, b, hb, -⟩ := hh.cover hx
  have hk := (hh.filed _ _ k b hb).1
  unfold Heap.searchNode at hnone
  rw [List.findSome?_eq_none_iff] at hnone
  have hzone := hnone _ hz
  have havail : ¬h.avail (m.nid x) (pageToZone x) < (2 ^ req.order : Nat) := by
    have hpos : 0 < (C ∩ place m (m.nid x) (pageToZone x)).ncard :=
      (Set.ncard_pos (hc.finite.subset Set.inter_subset_left)).2 ⟨x, hx, rfl, rfl⟩
    rw [hc.avail, ho]
    omega
  rw [if_neg havail, Option.map_eq_none_iff, List.find?_eq_none] at hzone
  refine hzone k ?_ ?_
  · unfold Request.orders
    rw [List.mem_range'_1]
    omega
  · cases hl : h.free (m.nid x) (pageToZone x) k with
    | nil =>
      rw [hl] at hb
      exact absurd hb List.not_mem_nil
    | cons a l => rfl

end Search

end XenVmi.PageAlloc
