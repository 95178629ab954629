import Mathlib.Algebra.BigOperators.Group.Finset.Basic
import XenVmi.Grant.Handles

/-!
# The mappings that a maptrack stands for

`State.live s e` is the mapping of handle `e`: the granting domain, the reference, and which of the
host and the device mapping are left. `State.total w s` adds up `w` over all mappings.
-/

namespace XenVmi.Grant

open Function XenVmi.Lib

/-! ## Map bits -/

structure MapBits where
  host : Bool
  device : Bool
  readonly : Bool
  deriving DecidableEq, Repr

def mapBits {w : Nat} (flags : BitVec w) : MapBits where
  host := decide (flags &&& gntmapHostMap ≠ 0)
  device := decide (flags &&& gntmapDeviceMap ≠ 0)
  readonly := decide (flags &&& gntmapReadonly ≠ 0)

def MapBits.any (b : MapBits) : Bool := b.host || b.device

section Bits

variable {w : Nat} {flags : BitVec w}

theorem mapBits_eq (hw : 2 < w) :
    mapBits flags = ⟨flags.getLsbD 1, flags.getLsbD 0, flags.getLsbD 2⟩ := by
  have hbit : ∀ k, k < w → decide (flags &&& BitVec.ofNat w (2 ^ k) ≠ 0) = flags.getLsbD k :=
    fun k hk => Bool.eq_iff_iff.2 (by rw [decide_eq_true_eq, and_pow_ne_zero_iff hk])
  unfold mapBits
  rw [show decide (flags &&& gntmapHostMap ≠ 0) = flags.getLsbD 1 from hbit 1 (by omega),
    show decide (flags &&& gntmapDeviceMap ≠ 0) = flags.getLsbD 0 from hbit 0 (by omega),
    show decide (flags &&& gntmapReadonly ≠ 0) = flags.getLsbD 2 from hbit 2 hw]

theorem mapBits_setWidth (flags : BitVec 32) : mapBits (flags.setWidth 16) = mapBits flags := by
  rw [mapBits_eq (by decide), mapBits_eq (by decide)]
  simp only [BitVec.getLsbD_setWidth, Nat.reduceLT, decide_true, Bool.true_and]

theorem mapBits_drop_device (flags : BitVec 16) :
    mapBits (flags &&& ~~~gntmapDeviceMap) = { mapBits flags with device := false } := by
  rw [mapBits_eq (by decide), mapBits_eq (by decide)]
  simp [gntmapDeviceMap]

theorem mapBits_drop_host (flags : BitVec 16) :
    mapBits (flags &&& ~~~gntmapHostMap) = { mapBits flags with host := false } := by
  rw [mapBits_eq (by decide), mapBits_eq (by decide)]
  simp [gntmapHostMap]

theorem mapBits_only_device (flags : BitVec 16) :
    mapBits (flags &&& (gntmapDeviceMap ||| gntmapReadonly)) =
      { mapBits flags with host := false } := by
  rw [mapBits_eq (by decide), mapBits_eq (by decide)]
  simp [gntmapDeviceMap, gntmapReadonly]

theorem mapBits_only_host (flags : BitVec 16) :
    mapBits (flags &&& (gntmapHostMap ||| gntmapReadonly)) =
      { mapBits flags with device := false } := by
  rw [mapBits_eq (by decide), mapBits_eq (by decide)]
  simp [gntmapHostMap, gntmapReadonly]

theorem any_mapBits (hw : 2 < w) : (mapBits flags).any = decide (flags &&& gntmapMaps ≠ 0) := by
  rw [mapBits_eq hw, Bool.eq_iff_iff, decide_eq_true_eq, maps_ne_zero_iff hw, MapBits.any,
    Bool.or_eq_true]
  constructor
  · rintro (h | h)
    exacts [⟨1, by decide, h⟩, ⟨0, by decide, h⟩]
  · rintro ⟨k, hk, h⟩
    obtain rfl | rfl : k = 0 ∨ k = 1 := by omega
    exacts [.inr h, .inl h]

end Bits

/-! ## Mappings -/

structure Mapped where
  domid : Nat
  ref : Nat
  bits : MapBits
  deriving DecidableEq, Repr

def GrantMapping.mapped (x : GrantMapping) : Option Mapped :=
  if (mapBits x.flags).any then some ⟨x.domid, x.ref, mapBits x.flags⟩ else none

namespace Maptrack

def live (m : Maptrack) (e : Nat) : Option Mapped :=
  if e < m.limit then (m.entry e).mapped else none

variable {m m' : Maptrack} {limbo : Set Nat} {lists : Nat → List Nat} {e : Nat}

variable {x : GrantMapping} {curr : Nat} {l : FreeList} {r : Nat × Maptrack}

theorem mapped_eq_none_iff : x.mapped = none ↔ x.flags &&& gntmapMaps = 0 := by
  unfold GrantMapping.mapped
  rw [any_mapBits (by decide)]
  simp

theorem mapped_of_flags_zero (h : x.flags = 0) : x.mapped = none :=
  mapped_eq_none_iff.2 (by rw [h]; rfl)

theorem mapped_of_any (h : (mapBits x.flags).any = true) :
    x.mapped = some ⟨x.domid, x.ref, mapBits x.flags⟩ := if_pos h

theorem live_eq_none_of_le (h : m.limit ≤ e) : m.live e = none := if_neg (Nat.not_lt.2 h)

theorem lt_of_live {x : Mapped} (h : m.live e = some x) : e < m.limit := by
  by_contra hlt
  rw [live_eq_none_of_le (Nat.le_of_not_lt hlt)] at h
  cases h

theorem live_congr (hlimit : m'.limit = m.limit)
    (h : ∀ a < m.limit, (m'.entry a).mapped = (m.entry a).mapped) : m'.live = m.live := by
  funext a
  unfold live
  rw [hlimit]
  split
  · exact h a ‹_›
  · rfl

theorem live_setEntry (he : e < m.limit) :
    (m.setEntry e x).live = update m.live e x.mapped := by
  funext a
  unfold live
  rw [update_apply, entry_setEntry]
  by_cases ha : a = e
  · subst ha
    rw [if_pos rfl, if_pos rfl, if_pos (by exact he)]
  · rw [if_neg ha, if_neg ha]
    rfl

theorem live_setEntry_same (h : x.mapped = (m.entry e).mapped) :
    (m.setEntry e x).live = m.live := by
  refine live_congr rfl fun a _ => ?_
  rw [entry_setEntry]
  split
  · rename_i ha
    rw [h, ha]
  · rfl

/-! ### Taking a handle -/

theorem vcpuGet_live {v : Nat}
    (h : m.vcpuGetMaptrackHandle v l = .ok (some r)) : r.2.live = m.live := by
  unfold vcpuGetMaptrackHandle at h
  split at h
  · cases h
  · obtain ⟨x, -, h⟩ := exists_ok_of_bind h
    split at h
    · cases h
    · cases h
      rfl

theorem stealFrom_live {victims : List Nat}
    (h : m.stealFrom curr victims = .ok (some r)) : r.2.live = m.live := by
  induction victims with
  | nil => cases h
  | cons i is ih =>
    rw [stealFrom] at h
    split at h
    · exact ih h
    split at h
    · cases h
    · rename_i handle m₁ hget
      cases h
      have hvcpu : (m₁.setEntry handle { m₁.entry handle with vcpu := curr }).live = m₁.live :=
        live_setEntry_same rfl
      exact hvcpu.trans (vcpuGet_live hget)
    · exact ih h

theorem live_growMaptrack (curr : Nat) (l : FreeList) : (m.growMaptrack curr l).live = m.live := by
  funext a
  have hentry : (m.growMaptrack curr l).entry a = m.newPage curr l.head a := rfl
  have hlimit : (m.growMaptrack curr l).limit = m.limit + maptrackPerPage := rfl
  unfold live
  rw [hentry]
  unfold newPage
  by_cases ha : a < m.limit
  · rw [if_pos ha, if_pos (by omega), if_neg (by omega)]
  · split
    · rw [if_pos (by omega)]
      exact mapped_of_flags_zero rfl
    · rfl

theorem stealSentinel_live {c : Config} {curr random : Nat}
    (h : m.stealSentinel c curr random l = .ok (some m')) : m'.live = m.live := by
  unfold stealSentinel at h
  split at h
  · split at h
    · cases h
    · cases h
    · rename_i handle m₁ hsteal
      cases h
      exact stealFrom_live hsteal
  · cases h
    rfl

theorem getMaptrackHandle_live {c : Config} {luck : Luck} {r : Option Nat × Maptrack}
    (h : m.getMaptrackHandle c curr luck = .ok r) : r.2.live = m.live := by
  unfold getMaptrackHandle at h
  split at h
  · cases h
  split at h
  · cases h
  · rename_i hget
    cases h
    exact vcpuGet_live hget
  split at h
  · unfold stealMaptrackHandles at h
    split at h
    · cases h
    · cases h
      rfl
    rename_i m₁ hsentinel
    have h₁ := stealSentinel_live hsentinel
    split at h
    · cases h
    · cases h
      exact h₁
    · rename_i handle m₂ hsteal
      cases h
      exact (stealFrom_live hsteal).trans h₁
  · split at h
    · cases h
      exact live_growMaptrack _ _
    · cases h
      rfl

/-! ### Putting a handle back -/

theorem Inv.put_live (inv : m.Inv limbo lists) (he : e ∈ limbo) (hflags : (m.entry e).flags = 0)
    (h : m.putMaptrackHandle e = .ok m') : m'.live = m.live := by
  obtain ⟨m'', lists', hput, -, hlimit, hkeep, hother⟩ := inv.put he hflags
  rw [h] at hput
  cases hput
  refine live_congr hlimit fun a _ => ?_
  by_cases ha : (m.entry a).flags = 0
  · rw [mapped_of_flags_zero ha, mapped_of_flags_zero ((hkeep a).1.trans ha)]
  · rw [hother a (inv.not_mem_of_flags ha) fun hae => ha (hae ▸ hflags)]

end Maptrack

def State.live (s : State) : Nat → Option Mapped := s.maptrack.live

section Batch

variable {c : Config} {s s' : State}

theorem unmapped_iff {e : Nat} : s.Unmapped e ↔ (s.maptrack.entry e).mapped = none :=
  Maptrack.mapped_eq_none_iff.symm

structure Completed (s : State) (us : List UnmapCommon) (s' : State) : Prop where
  live : s'.live = s.live
  tables : s'.tables = s.tables
  entry : ∀ v ∈ us, v.rd ≠ none → s'.maptrack.entry v.handle = s.maptrack.entry v.handle

theorem Completing.completed {u : UnmapCommon} {us : List UnmapCommon}
    (comp : Completing s (u :: us)) (h : Grant.unmapCommonComplete s u = .ok s') :
    Completed s us s' := by
  by_cases hput : u.rd ≠ none ∧ s.Unmapped u.handle
  · obtain ⟨hrd, hunm⟩ := hput
    obtain ⟨⟨lists, inv⟩, -, hapart, -, hsettled⟩ := comp
    have hlimbo : u.handle ∈ s.Pending (u :: us) := ⟨hunm, u, List.mem_cons_self, hrd, rfl⟩
    have inv' := inv.write (x := { s.maptrack.entry u.handle with flags := 0 }) hlimbo
      (inv.owned _ (inv.transit _ hlimbo))
    have hzero : ((s.maptrack.setEntry u.handle
        { s.maptrack.entry u.handle with flags := 0 }).entry u.handle).flags = 0 := by
      rw [Maptrack.entry_setEntry, if_pos rfl]
    rw [unmapCommonComplete_of_settled hunm (hsettled u List.mem_cons_self hrd hunm)] at h
    obtain ⟨m, hm, h⟩ := exists_ok_of_bind h
    cases h
    refine ⟨?_, rfl, fun v hv hrd' => ?_⟩
    · refine (inv'.put_live hlimbo hzero hm).trans (Maptrack.live_setEntry_same ?_)
      rw [unmapped_iff.1 hunm, Maptrack.mapped_of_flags_zero rfl]
    · -- a pending entry is not on a free list
      have hne : v.handle ≠ u.handle := fun heq =>
        (List.pairwise_cons.1 hapart).1 v hv hrd hrd' heq.symm hunm
      have hfree : ∀ w, v.handle ∉ lists w := fun w => by
        by_cases hunm' : s.Unmapped v.handle
        · exact inv.not_mem_of_limbo ⟨hunm', v, List.mem_cons_of_mem u hv, hrd', rfl⟩
        · refine inv.not_mem_of_flags fun h0 => hunm' ?_
          rw [State.Unmapped, h0]
          rfl
      obtain ⟨m', lists', hput, -, -, -, hother⟩ := inv'.put hlimbo hzero
      rw [hm] at hput
      cases hput
      refine (hother v.handle (hfree _) hne).trans ?_
      rw [Maptrack.entry_setEntry, if_neg hne]
  · obtain ⟨-, hback, -, hstarted, -⟩ := comp
    rw [unmapCommonComplete_eq hback fun hrd => ⟨fun hunm => hput ⟨hrd, hunm⟩,
      hstarted u List.mem_cons_self hrd⟩] at h
    cases h
    exact ⟨rfl, rfl, fun _ _ _ => rfl⟩

end Batch

/-! ## Sums over all mappings -/

section Total

open Finset

variable {M : Type} [AddCommMonoid M] {w w' : Mapped → M} {s s' : State}

def share (w : Mapped → M) (x : Option Mapped) : M := (x.map w).getD 0

def State.total (w : Mapped → M) (s : State) : M := ∑ e ∈ range s.maptrack.limit, share w (s.live e)

theorem total_eq {n : Nat} (hn : s.maptrack.limit ≤ n) :
    s.total w = ∑ e ∈ range n, share w (s.live e) := by
  refine sum_subset (range_subset_range.2 hn) fun e _ he => ?_
  rw [mem_range, Nat.not_lt] at he
  show share w (s.maptrack.live e) = 0
  rw [Maptrack.live_eq_none_of_le he]
  rfl

theorem total_congr (hlive : s'.live = s.live)
    (h : ∀ e x, s.live e = some x → w' x = w x) : s'.total w' = s.total w := by
  rw [total_eq (Nat.le_max_left s'.maptrack.limit s.maptrack.limit),
    total_eq (Nat.le_max_right s'.maptrack.limit s.maptrack.limit), hlive]
  refine sum_congr rfl fun e _ => ?_
  cases hx : s.live e with
  | none => rfl
  | some x => exact h e x hx

theorem total_update {e : Nat} {x : Option Mapped} (h : s'.live = update s.live e x) :
    s'.total w + share w (s.live e) = s.total w + share w x := by
  obtain ⟨n, hn, hn', he⟩ : ∃ n, s.maptrack.limit ≤ n ∧ s'.maptrack.limit ≤ n ∧ e < n :=
    ⟨s.maptrack.limit + s'.maptrack.limit + e + 1, by omega, by omega, by omega⟩
  rw [total_eq hn, total_eq hn', h, ← add_sum_erase _ _ (mem_range.2 he),
    ← add_sum_erase _ (fun a => share w (s.live a)) (mem_range.2 he), update_self]
  have hrest : ∑ a ∈ (range n).erase e, share w (update s.live e x a) =
      ∑ a ∈ (range n).erase e, share w (s.live a) :=
    sum_congr rfl fun a ha => by rw [update_of_ne (ne_of_mem_erase ha)]
  rw [hrest, add_comm (share w x), add_comm (share w (s.live e)), add_right_comm, add_assoc]

end Total

end XenVmi.Grant
