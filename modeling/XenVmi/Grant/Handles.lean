import XenVmi.Grant.FreeLists

/-!
# Handles over whole runs

In an unmap batch the entries whose last map bit the first phase cleared are in limbo until the
second phase puts them back (`Pending`, `Settled`). `Admits` keeps out what breaks this: a handle
twice in a batch is put back twice (`State.Repeats`); after an error of the IOMMU it is not put
back; and `get_maptrack_handle` takes an entry of another vCPU for the end of a new list without
writing `MAPTRACK_TAIL` to it.
-/

namespace XenVmi.Grant

open XenVmi.Lib List

variable {c : Config} {s s' : State}

/-! ## Grant tables -/

variable {t t' : GrantTable} {e d : Nat} {act : Active} {op : MapOp} {m : Maptrack}
  {lists : Nat → List Nat} {flags : BitVec 16} {u : UnmapCommon} {ops : List Unmap}
  {us : List UnmapCommon}

theorem GrantTable.activeEntryAcquire_eq
    (h : t.activeEntryAcquire e = .ok act) : act = t.active e := by
  rw [activeEntryAcquire] at h
  split at h
  · exact (Except.ok.inj h).symm
  · cases h

theorem GrantTable.activeEntryAcquire_ok (h : e < t.nrActiveEntries) :
    t.activeEntryAcquire e = .ok (t.active e) := if_pos h

theorem GrantTable.nrGrantEntries_le (t : GrantTable) : t.nrGrantEntries ≤ t.nrActiveEntries := by
  rw [nrGrantEntries, nrActiveEntries]
  split <;> omega

def Active.unpinned (act : Active) : Active := { act with pin := 0 }

def GrantTable.unpinned (t : GrantTable) : GrantTable :=
  { t with active := fun e => (t.active e).unpinned }

def State.unpinned (s : State) (d : Nat) : Option GrantTable := (s.tables d).map GrantTable.unpinned

theorem GrantTable.unpinned_setActive
    (h : act.unpinned = (t.active e).unpinned) : (t.setActive e act).unpinned = t.unpinned := by
  simp only [unpinned, setActive, mk.injEq, true_and]
  exact funext (apply_update_of_eq Active.unpinned h)

theorem State.unpinned_setTable (h : s.tables d = some t)
    (ht : t'.unpinned = t.unpinned) : (s.setTable d t').unpinned = s.unpinned := by
  refine funext (apply_update_of_eq (Option.map GrantTable.unpinned) ?_)
  rw [h, Option.map_some, Option.map_some, ht]

def GrantTable.Backs (t : GrantTable) (ref : Nat) : Prop := t.version ≠ 0 ∧ ref < t.nrActiveEntries

instance (t : GrantTable) (ref : Nat) : Decidable (t.Backs ref) :=
    inferInstanceAs (Decidable (_ ∧ _))

def State.Backed (s : State) : Prop :=
  ∀ e < s.maptrack.limit, (s.maptrack.entry e).flags ≠ 0 →
    ∀ t, s.tables (s.maptrack.entry e).domid = some t → t.Backs (s.maptrack.entry e).ref

theorem State.Backed.mono (h : s.Backed)
    (entries : ∀ e < s'.maptrack.limit, (s'.maptrack.entry e).flags ≠ 0 → e < s.maptrack.limit ∧
      (s.maptrack.entry e).flags ≠ 0 ∧ (s'.maptrack.entry e).domid = (s.maptrack.entry e).domid ∧
      (s'.maptrack.entry e).ref = (s.maptrack.entry e).ref)
    (tables : s'.unpinned = s.unpinned) : s'.Backed := by
  intro e he hflags t' ht'
  obtain ⟨hlt, hf, hdom, href⟩ := entries e he hflags
  have hd := congrFun tables (s'.maptrack.entry e).domid
  rw [unpinned, ht'] at hd
  obtain ⟨t, ht, hunpinned⟩ := Option.map_eq_some_iff.mp hd.symm
  have hback : t.unpinned.Backs (s.maptrack.entry e).ref := h e hlt hf t (hdom ▸ ht)
  rw [hunpinned] at hback
  rw [href]
  exact hback

theorem State.Backed.mono_of_eq (h : s.Backed)
    (entries : ∀ e < s'.maptrack.limit, (s'.maptrack.entry e).flags ≠ 0 → e < s.maptrack.limit ∧
      s'.maptrack.entry e = s.maptrack.entry e)
    (tables : s'.unpinned = s.unpinned) : s'.Backed := by
  refine h.mono (fun e he hf => ?_) tables
  obtain ⟨hlt, hsame⟩ := entries e he hf
  rw [← hsame]
  exact ⟨hlt, hf, rfl, rfl⟩

structure State.Inv (s : State) : Prop where
  maptrack : ∃ lists, s.maptrack.Inv ∅ lists
  backed : s.Backed

/-! ## Mapping -/

theorem ref_lt_of_mapPin (h : mapPin c t op = .ok act) : op.ref < t.nrGrantEntries := by
  rw [mapPin] at h
  split at h
  · cases h
  · omega

theorem setWidth_and_gntmapMaps_ne_zero {flags : BitVec 32} (h : flags &&& gntmapMaps ≠ 0) :
    flags.setWidth 16 &&& gntmapMaps ≠ 0 := by
  intro h0
  refine h (BitVec.eq_of_toNat_eq ?_)
  have hw : (flags &&& gntmapMaps).setWidth 16 = flags.setWidth 16 &&& gntmapMaps :=
    BitVec.setWidth_and
  have hle : (flags &&& gntmapMaps).toNat ≤ 3 := by
    exact Nat.and_le_right
  have := congrArg BitVec.toNat (hw.trans h0)
  rw [BitVec.toNat_setWidth, Nat.mod_eq_of_lt (by omega)] at this
  exact this

theorem insert_empty_sdiff (e : Nat) : insert e (∅ : Set Nat) \ {e} = ∅ := by
  ext a
  simp

theorem Maptrack.Inv.not_mem_of_flags {limbo : Set Nat}
    {v a : Nat} (inv : m.Inv limbo lists) (hf : (m.entry a).flags ≠ 0) : a ∉ lists v :=
  fun ha => hf (inv.free v a ha).2.2.1

theorem putBack_inv
    (inv : s.maptrack.Inv (insert e ∅) lists) (hflags : (s.maptrack.entry e).flags = 0)
    (hback : s.Backed) : ∃ m, s.maptrack.putMaptrackHandle e = .ok m ∧
      State.Inv { s with maptrack := m } := by
  obtain ⟨m, lists', hput, hinv, hlimit, hkeep, hother⟩ := inv.put (Set.mem_insert e ∅) hflags
  rw [insert_empty_sdiff] at hinv
  refine ⟨m, hput, ⟨lists', hinv⟩, hback.mono_of_eq (fun a ha hf => ⟨hlimit ▸ ha, ?_⟩) rfl⟩
  rw [(hkeep a).1] at hf
  refine hother a (inv.not_mem_of_flags hf) ?_
  rintro rfl
  exact hf hflags

theorem State.Backed.setTable (h : s.Backed)
    (ht : s.tables d = some t) (hver : t'.version = t.version)
    (hframes : t'.nrGrantFrames = t.nrGrantFrames) : (s.setTable d t').Backed := by
  intro e he hf u hu
  simp only [State.setTable, Function.update_apply] at hu
  split at hu
  · rename_i hd
    cases hu
    have hback := h e he hf t (hd ▸ ht)
    rw [GrantTable.Backs, GrantTable.nrActiveEntries] at hback ⊢
    rw [hver, hframes]
    exact hback
  · exact h e he hf u hu

theorem mapWithHandle_inv
    (inv : s.maptrack.Inv (insert e ∅) lists) (hflags : (s.maptrack.entry e).flags = 0)
    (hback : s.Backed) (ht : s.tables op.dom = some t) (hmaps : op.flags &&& gntmapMaps ≠ 0) :
    ∃ r, mapWithHandle c s t op e = .ok r ∧ r.1.Inv := by
  rw [mapWithHandle]
  cases hpin : mapPin c t op with
  | error rc =>
    obtain ⟨m, hput, hinv⟩ := putBack_inv inv hflags hback
    simp only [hput, ok_bind]
    exact ⟨_, rfl, hinv⟩
  | ok act =>
    simp only
    split
    · have hinv := inv.fill (Set.mem_insert e ∅)
        (x := ⟨op.ref, op.flags.setWidth 16, op.dom, (s.maptrack.entry e).vcpu⟩) rfl
        (setWidth_and_gntmapMaps_ne_zero hmaps)
      rw [insert_empty_sdiff] at hinv
      refine ⟨_, rfl, ⟨lists, hinv⟩, fun a ha hf u hu => ?_⟩
      simp only [Maptrack.entry_setEntry] at hf hu ⊢
      by_cases hae : a = e
      · -- the new mapping: the table has a version, or it would have no entries
        simp only [if_pos hae, State.setTable, Function.update_self, Option.some.injEq] at hu ⊢
        have href := ref_lt_of_mapPin hpin
        rw [← hu]
        exact ⟨t.version_ne_zero_of_lt href, Nat.lt_of_lt_of_le href t.nrGrantEntries_le⟩
      · rw [if_neg hae] at hf hu ⊢
        have hback' : (s.setTable op.dom (t.setActive op.ref act)).Backed :=
          hback.setTable ht rfl rfl
        exact hback' a ha hf u hu
    · obtain ⟨m, hput, hinv⟩ := putBack_inv (s := s.setTable op.dom (t.setActive op.ref
        { act with pin := act.pin - pinInc op.flags })) inv hflags (hback.setTable ht rfl rfl)
      have hput' : s.maptrack.putMaptrackHandle e = .ok m := hput
      simp only [hput', ok_bind]
      exact ⟨_, rfl, hinv⟩

theorem mapGrantRef_inv {curr : Nat} (inv : s.Inv) (hcurr : s.maptrack.vcpu curr ≠ none)
    (hs : s.maptrack.stealsSentinel c curr op.luck = false) :
    ∃ r, mapGrantRef c s curr op = .ok r ∧ r.1.Inv := by
  rw [mapGrantRef]
  split
  · exact ⟨_, rfl, inv⟩
  rename_i hmaps
  split
  · exact ⟨_, rfl, inv⟩
  cases ht : s.tables op.dom with
  | none => exact ⟨_, rfl, inv⟩
  | some t =>
    simp only
    split
    · exact ⟨_, rfl, inv⟩
    obtain ⟨lists, hm⟩ := inv.maptrack
    rcases hm.getMaptrackHandle hcurr hs with hget | ⟨e, m, hget, took⟩
    · simp only [hget]
      exact ⟨_, rfl, inv⟩
    simp only [hget]
    obtain ⟨lists', hinv⟩ := took.inv
    refine mapWithHandle_inv hinv took.flags
      (inv.backed.mono_of_eq (fun a ha hf => took.other a ?_ ha hf) rfl) ht hmaps
    rintro rfl
    exact hf took.flags

/-! ## The first phase of a batch -/

def State.Unmapped (s : State) (e : Nat) : Prop := (s.maptrack.entry e).flags &&& gntmapMaps = 0

instance (e : Nat) : Decidable (s.Unmapped e) := inferInstanceAs (Decidable (_ = _))

/-- The second phase will free the handle, once it is unmapped. -/
def State.Settled (s : State) (u : UnmapCommon) : Prop :=
  ∃ t, u.rd.bind s.unpinned = some t ∧ t.Backs (s.maptrack.entry u.handle).ref
    ∧ u.frame = (t.active (s.maptrack.entry u.handle).ref).frame
    ∧ ¬ (u.hostAddr ≠ 0 ∧ u.flags &&& gntmapHostMap ≠ 0 ∧ u.status ≠ .okay)

theorem unpinned_unmapDevice (op : Unmap) (flags : BitVec 16) (act : Active) :
    (unmapDevice op flags act).2.unpinned = act.unpinned := by
  rw [unmapDevice]
  split <;> rfl

theorem unpinned_unmapPins (op : Unmap) (flags : BitVec 16) (act : Active) :
    (unmapPins op flags act).1.2.unpinned = act.unpinned := by
  have h := unpinned_unmapDevice op flags act
  rw [unmapPins]
  split
  · rfl
  · split
    · split <;> exact h
    · exact h

theorem ofNat_two_pow (w k : Nat) : BitVec.ofNat w (2 ^ k) = BitVec.twoPow w k :=
  BitVec.eq_of_toNat_eq (by rw [BitVec.toNat_ofNat, BitVec.toNat_twoPow])

theorem and_pow_ne_zero_iff {w k : Nat} {flags : BitVec w} (hk : k < w) :
    flags &&& BitVec.ofNat w (2 ^ k) ≠ 0 ↔ flags.getLsbD k = true := by
  rw [ofNat_two_pow, BitVec.and_twoPow]
  split
  · refine iff_of_true (fun h => ?_) ‹_›
    have hbit := congrArg (BitVec.getLsbD · k) h
    simp [hk] at hbit
  · exact iff_of_false (fun h => h rfl) ‹_›

/-- The operation is to end the device mapping, bit 0, or the host mapping, bit 1. -/
def Unmap.Names (op : Unmap) (k : Nat) : Prop :=
  k = 0 ∧ op.devBusAddr / 4096 ≠ 0 ∨ k = 1 ∧ op.hostAddr ≠ 0 ∧ op.replace = .okay

instance (op : Unmap) (k : Nat) : Decidable (op.Names k) :=
  inferInstanceAs (Decidable (_ ∨ _))

theorem getLsbD_and_compl_pow {j : Nat} (k : Nat) :
    (flags &&& ~~~BitVec.ofNat 16 (2 ^ j)).getLsbD k = true ↔ flags.getLsbD k = true ∧ k ≠ j := by
  rw [ofNat_two_pow, BitVec.getLsbD_and, BitVec.getLsbD_not, BitVec.getLsbD_twoPow,
    Bool.and_eq_true]
  refine and_congr_right fun h => ?_
  have hlt := BitVec.lt_of_getLsbD h
  by_cases hkj : k = j
  · simp [hkj, hkj ▸ hlt]
  · simp [hkj, hlt, Ne.symm hkj]

theorem getLsbD_unmapDevice (op : Unmap) (k : Nat) :
    (unmapDevice op flags act).1.getLsbD k = true ↔
      flags.getLsbD k = true ∧ ¬ (k = 0 ∧ op.devBusAddr / 4096 ≠ 0) := by
  rw [unmapDevice]
  split
  · rename_i h
    exact (getLsbD_and_compl_pow (j := 0) k).trans (by simp [h.1])
  · rename_i h
    refine ⟨fun hk => ⟨hk, ?_⟩, And.left⟩
    rintro ⟨rfl, hdev⟩
    exact h ⟨hdev, (and_pow_ne_zero_iff (by decide)).2 hk⟩

theorem getLsbD_unmapPins (op : Unmap) (k : Nat) :
    (unmapPins op flags act).1.1.getLsbD k = true ↔ flags.getLsbD k = true ∧
      ¬ ((op.devBusAddr / 4096 = 0 ∨ op.devBusAddr / 4096 = act.frame) ∧ op.Names k) := by
  have hdev : (unmapDevice op flags act).1.getLsbD k = true ↔ _ := getLsbD_unmapDevice op k
  rw [unmapPins, Unmap.Names]
  split
  · rename_i h
    exact (and_iff_left fun hn => hn.1.elim h.1 h.2).symm
  rename_i hframe
  rw [and_iff_right (not_and_or.1 hframe |>.imp not_not.1 not_not.1)]
  split
  · split
    · rename_i hreplace
      simp [hdev, hreplace]
    · rename_i hhost hreplace
      refine (getLsbD_and_compl_pow (j := 1) k).trans ?_
      rw [hdev]
      simp [hhost.1, not_not.1 hreplace, not_or, and_assoc]
  · rename_i hhost
    rw [hdev]
    refine and_congr_right fun hk => not_congr (or_iff_left ?_).symm
    rintro ⟨rfl, haddr, -⟩
    exact hhost ⟨haddr, (and_pow_ne_zero_iff (by decide)).2 hk⟩

theorem maps_ne_zero_iff {w : Nat} {flags : BitVec w} (hw : 2 < w) :
    flags &&& gntmapMaps ≠ 0 ↔ ∃ k < 2, flags.getLsbD k = true := by
  have hor : (gntmapMaps : BitVec w) = BitVec.ofNat w (2 ^ 0) ||| BitVec.ofNat w (2 ^ 1) := by
    refine BitVec.eq_of_toNat_eq ?_
    have h3 : (3 : Nat) < 2 ^ w := Nat.lt_of_lt_of_le (by decide : 3 < 2 ^ 3)
      (Nat.pow_le_pow_right (by decide) hw)
    show 3 % 2 ^ w = (1 % 2 ^ w) ||| (2 % 2 ^ w)
    rw [Nat.mod_eq_of_lt h3, Nat.mod_eq_of_lt (by omega), Nat.mod_eq_of_lt (by omega)]
    rfl
  rw [hor, BitVec.and_or_distrib_left]
  refine (not_congr BitVec.or_eq_zero_iff).trans (not_and_or.trans ?_)
  refine (or_congr (and_pow_ne_zero_iff (by omega)) (and_pow_ne_zero_iff (by omega))).trans ?_
  constructor
  · rintro (h | h)
    exacts [⟨0, by decide, h⟩, ⟨1, by decide, h⟩]
  · rintro ⟨k, hk, h⟩
    obtain rfl | rfl : k = 0 ∨ k = 1 := by omega
    exacts [.inl h, .inr h]

theorem unmapPins_unmapped {op : Unmap} (before : flags &&& gntmapMaps ≠ 0)
    (after : (unmapPins op flags act).1.1 &&& gntmapMaps = 0) :
    (unmapPins op flags act).2.1 = act.frame ∧
      (op.hostAddr ≠ 0 ∧ flags &&& gntmapHostMap ≠ 0 → (unmapPins op flags act).2.2 = .okay) := by
  -- each map bit that was there is cleared
  have hends : ∀ k < 2, flags.getLsbD k = true →
      (op.devBusAddr / 4096 = 0 ∨ op.devBusAddr / 4096 = act.frame) ∧ op.Names k := by
    intro k hk hbit
    by_contra hkept
    exact (maps_ne_zero_iff (by decide)).2 ⟨k, hk, (getLsbD_unmapPins op k).2 ⟨hbit, hkept⟩⟩ after
  obtain ⟨k, hk, hbit⟩ := (maps_ne_zero_iff (by decide)).1 before
  rw [unmapPins, if_neg fun h => (hends k hk hbit).1.elim h.1 h.2]
  split
  · rename_i hhost
    have hnames := (hends 1 (by decide) ((and_pow_ne_zero_iff (by decide)).1 hhost.2)).2
    rw [if_neg (not_not.2 (hnames.resolve_left fun h => absurd h.1 (by decide)).2.2)]
    exact ⟨rfl, fun _ => rfl⟩
  · exact ⟨rfl, fun h => absurd h ‹_›⟩

/-- Pins and map bits are gone, and nothing else has changed. -/
structure Dropped (s s' : State) : Prop where
  unpinned : s'.unpinned = s.unpinned
  limit : s'.maptrack.limit = s.maptrack.limit
  vcpu : s'.maptrack.vcpu = s.maptrack.vcpu
  entry : ∀ e, s'.maptrack.entry e =
    { s.maptrack.entry e with flags := (s'.maptrack.entry e).flags }
  free : ∀ e, (s.maptrack.entry e).flags = 0 → (s'.maptrack.entry e).flags = 0

theorem Dropped.refl (s : State) : Dropped s s := ⟨rfl, rfl, rfl, fun _ => rfl, fun _ h => h⟩

theorem Dropped.trans {s₁ s₂ s₃ : State} (h : Dropped s₁ s₂) (h' : Dropped s₂ s₃) :
    Dropped s₁ s₃ where
  unpinned := h'.unpinned.trans h.unpinned
  limit := h'.limit.trans h.limit
  vcpu := h'.vcpu.trans h.vcpu
  entry e := by rw [h'.entry e, h.entry e]
  free e he := h'.free e (h.free e he)

structure State.Started (s : State) (u : UnmapCommon) : Prop where
  lt : u.handle < s.maptrack.limit
  flags : (s.maptrack.entry u.handle).flags ≠ 0
  rd : u.rd = some (s.maptrack.entry u.handle).domid

theorem Dropped.started (h : Dropped s s') (hu : s'.Started u) : s.Started u where
  lt := h.limit ▸ hu.lt
  flags h0 := hu.flags (h.free _ h0)
  rd := by
    rw [hu.rd, h.entry u.handle]

/-- The frame of the grant that a handle stands for, if the granting domain is there. -/
def State.frameOf (s : State) (handle : Nat) : Option Nat :=
  (s.tables (s.maptrack.entry handle).domid).map fun t =>
    (t.active (s.maptrack.entry handle).ref).frame

/-- The operation gets to the active entry, as long as its handle has flags. -/
def State.Accepts (s : State) (op : Unmap) : Prop :=
  op.handle < s.maptrack.limit ∧ op.xsm = true ∧ s.frameOf op.handle ≠ none

/-- The operation clears bit `k` of the flags of its handle. -/
def State.Ends (s : State) (op : Unmap) (k : Nat) : Prop :=
  s.Accepts op ∧
    (op.devBusAddr / 4096 = 0 ∨ s.frameOf op.handle = some (op.devBusAddr / 4096)) ∧ op.Names k

/-- Bit `k` of the flags is there, and no operation clears it. -/
def State.Leaves (s : State) (ops : List Unmap) (handle k : Nat) : Prop :=
  (s.maptrack.entry handle).flags.getLsbD k = true ∧
    ∀ op ∈ ops, op.handle = handle → ¬ s.Ends op k

instance (op : Unmap) : Decidable (s.Accepts op) := inferInstanceAs (Decidable (_ ∧ _ ∧ _))

instance (op : Unmap) (k : Nat) : Decidable (s.Ends op k) :=
  inferInstanceAs (Decidable (_ ∧ _ ∧ _))

instance (handle k : Nat) : Decidable (s.Leaves ops handle k) :=
  inferInstanceAs (Decidable (_ ∧ _))

/-- An operation on a handle that an earlier one of the batch had, and that still has flags then,
is in a batch that leaves the handle a mapping. -/
def State.Repeats (s : State) (ops : List Unmap) : Prop :=
  ∀ n < ops.length, ∀ op ∈ ops[n]?, s.Accepts op →
    (∃ op' ∈ ops.take n, op'.handle = op.handle ∧ s.Accepts op') →
    (∃ k < 16, s.Leaves (ops.take n) op.handle k) → ∃ k < 2, s.Leaves ops op.handle k

instance : Decidable (s.Repeats ops) :=
  inferInstanceAs (Decidable (∀ n < ops.length, ∀ op ∈ ops[n]?, _ → _ → _ → _))

theorem State.frameOf_eq (s : State) (e : Nat) :
    s.frameOf e = (s.unpinned (s.maptrack.entry e).domid).map fun t =>
      (t.active (s.maptrack.entry e).ref).frame := by
  rw [frameOf, unpinned, Option.map_map]
  rfl

theorem Dropped.frameOf (h : Dropped s s') (e : Nat) : s'.frameOf e = s.frameOf e := by
  rw [State.frameOf_eq, State.frameOf_eq, h.unpinned, h.entry e]

theorem Dropped.accepts (h : Dropped s s') (op : Unmap) : s'.Accepts op ↔ s.Accepts op := by
  rw [State.Accepts, State.Accepts, h.limit, h.frameOf]

theorem Dropped.ends (h : Dropped s s') (op : Unmap) (k : Nat) : s'.Ends op k ↔ s.Ends op k := by
  rw [State.Ends, State.Ends, h.accepts, h.frameOf]

/-- The operation got to the active entry. -/
structure Noted (c : Config) (s : State) (op : Unmap) (s' : State) (u : UnmapCommon) : Prop where
  started : s.Started u
  handle : u.handle = op.handle
  accepts : s.Accepts op
  bits : ∀ k, (s'.maptrack.entry op.handle).flags.getLsbD k = true ↔ s.Leaves [op] op.handle k
  other : ∀ e ≠ u.handle, s'.maptrack.entry e = s.maptrack.entry e
  settled : (c.needIommu → op.iommu) → ¬ s.Unmapped u.handle → s'.Unmapped u.handle → s'.Settled u

theorem unmapCommon_spec (hback : s.Backed) (op : Unmap) :
    ∃ s' u, unmapCommon c s op = .ok (s', u) ∧ Dropped s s' ∧
      ((u.rd = none ∧ s' = s ∧ (s.Accepts op → (s.maptrack.entry op.handle).flags = 0)) ∨
        Noted c s op s' u) := by
  rw [unmapCommon]
  split
  · rename_i hlt
    exact ⟨_, _, rfl, .refl s, .inl ⟨rfl, rfl, fun h => absurd h.1 (Nat.not_lt_of_le hlt)⟩⟩
  rename_i hlt
  simp only
  split
  · rename_i hflags
    exact ⟨_, _, rfl, .refl s, .inl ⟨rfl, rfl, fun _ => hflags⟩⟩
  rename_i hflags
  cases ht : s.tables (s.maptrack.entry op.handle).domid with
  | none =>
    refine ⟨_, _, rfl, .refl s, .inl ⟨rfl, rfl, fun h => absurd ?_ h.2.2⟩⟩
    rw [State.frameOf, ht]
    rfl
  | some t =>
    simp only
    split
    · rename_i hxsm
      exact ⟨_, _, rfl, .refl s,
        .inl ⟨rfl, rfl, fun h => absurd (hxsm.symm.trans h.2.1) (by decide)⟩⟩
    rename_i hxsm
    have hframe : s.frameOf op.handle =
        some (t.active (s.maptrack.entry op.handle).ref).frame := by
      rw [State.frameOf, ht]
      rfl
    have haccepts : s.Accepts op :=
      ⟨Nat.lt_of_not_le hlt, Bool.of_not_eq_false hxsm, by rw [hframe]; exact Option.some_ne_none _⟩
    have hbacks := hback _ (Nat.lt_of_not_le hlt) hflags t ht
    rw [GrantTable.activeEntryAcquire_ok hbacks.2, ok_bind]
    obtain ⟨x, hx⟩ : ∃ x, x = unmapPins op (s.maptrack.entry op.handle).flags
      (t.active (s.maptrack.entry op.handle).ref) := ⟨_, rfl⟩
    rw [← hx]
    have hunpinned : (s.setTable (s.maptrack.entry op.handle).domid
        (t.setActive (s.maptrack.entry op.handle).ref x.1.2)).unpinned = s.unpinned :=
      State.unpinned_setTable ht
        (GrantTable.unpinned_setActive (hx ▸ unpinned_unmapPins op _ _))
    refine ⟨_, _, rfl, ⟨hunpinned, rfl, rfl, fun e => ?_, fun e he => ?_⟩, .inr
      ⟨⟨Nat.lt_of_not_le hlt, hflags, rfl⟩, rfl, haccepts, fun k => ?_, fun e he => ?_,
        fun hiommu hmapped hunmapped => ?_⟩⟩
    · simp only [Maptrack.entry_setEntry]
      split
      · subst e
        rfl
      · rfl
    · simp only [Maptrack.entry_setEntry]
      rw [if_neg (by rintro rfl; exact hflags he)]
      exact he
    · simp only [Maptrack.entry_setEntry, if_true]
      rw [hx, getLsbD_unmapPins, State.Leaves, forall_mem_singleton, State.Ends, hframe,
        Option.some.injEq]
      refine and_congr_right fun _ => ?_
      simp only [forall_const, haccepts, true_and]
      rw [eq_comm (a := (t.active _).frame)]
    · simp only [Maptrack.entry_setEntry]
      rw [if_neg he]
    · simp only [State.Unmapped, Maptrack.entry_setEntry, if_true] at hunmapped
      obtain ⟨h1, h2⟩ := unmapPins_unmapped hmapped (hx ▸ hunmapped)
      rw [← hx] at h1 h2
      refine ⟨t.unpinned, ?_, ?_, ?_, ?_⟩
      · refine (congrFun hunpinned _).trans ?_
        rw [State.unpinned, ht, Option.map_some]
      · simp only [Maptrack.entry_setEntry, if_true]
        exact hbacks
      · simp only [Maptrack.entry_setEntry, if_true]
        exact h1
      · rintro ⟨ha, hf, hst⟩
        refine hst ?_
        rw [h2 ⟨ha, hf⟩, if_neg]
        rintro ⟨-, hneed, hnot⟩
        exact hnot (hiommu hneed)

/-- A handle that both operations have is still mapped. -/
def State.Apart (s : State) (u u' : UnmapCommon) : Prop :=
  u.rd ≠ none → u'.rd ≠ none → u.handle = u'.handle → ¬ s.Unmapped u.handle

instance (u u' : UnmapCommon) : Decidable (s.Apart u u') :=
  inferInstanceAs (Decidable (_ → _ → _ → _))

theorem Dropped.settled (h : Dropped s s') (hs : s.Settled u) : s'.Settled u := by
  obtain ⟨t, ht, hback, hframe, hstatus⟩ := hs
  refine ⟨t, ?_, ?_, ?_, hstatus⟩
  · rwa [h.unpinned]
  · rwa [h.entry u.handle]
  · rwa [h.entry u.handle]

theorem Dropped.backed (h : Dropped s s') (hback : s.Backed) : s'.Backed := by
  refine hback.mono (fun e he hf => ⟨h.limit ▸ he, fun h0 => hf (h.free e h0), ?_⟩) h.unpinned
  rw [h.entry e]
  exact ⟨rfl, rfl⟩

/-- The first phase of a whole batch. An operation on the same handle later in the batch would take
the entry of an earlier one away, so the entry is followed to the end of the phase. -/
theorem unmapBatchCommon_spec (hback : s.Backed) (hiommu : ∀ op ∈ ops, c.needIommu → op.iommu) :
    ∃ s' us, unmapBatchCommon c s ops = .ok (s', us) ∧ Dropped s s' ∧
      (∀ u ∈ us, u.rd ≠ none → s.Started u) ∧
      (∀ e, (∀ u ∈ us, u.rd ≠ none → u.handle ≠ e) → s'.maptrack.entry e = s.maptrack.entry e) ∧
      (us.Pairwise s'.Apart → ∀ u ∈ us, u.rd ≠ none → ¬ s.Unmapped u.handle →
        s'.Unmapped u.handle → s'.Settled u) := by
  induction ops generalizing s with
  | nil => exact ⟨s, [], rfl, .refl _, by simp, fun _ _ => rfl, by simp⟩
  | cons op ops ih =>
    obtain ⟨s₁, u, h₁, drop, hu⟩ := unmapCommon_spec hback op
    obtain ⟨s', us, h₂, drop', live, same, settled⟩ := ih (drop.backed hback)
      (fun op hop => hiommu op (mem_cons_of_mem _ hop))
    refine ⟨s', u :: us, ?_, ?_⟩
    · rw [unmapBatchCommon, h₁]
      simp only [h₂, ok_bind]
      rfl
    refine ⟨drop.trans drop', fun v hv hrd => ?_, fun e he => ?_, fun hpair v hv hrd hm hunm => ?_⟩
    · rcases mem_cons.mp hv with rfl | hv
      · rcases hu with ⟨hnone, -, -⟩ | noted
        · exact absurd hnone hrd
        · exact noted.started
      · exact drop.started (live v hv hrd)
    · rw [same e fun v hv => he v (mem_cons_of_mem _ hv)]
      rcases hu with ⟨-, rfl, -⟩ | noted
      · rfl
      · have hrd : u.rd ≠ none := by
          rw [noted.started.rd]
          exact Option.some_ne_none _
        exact noted.other e (he u mem_cons_self hrd).symm
    · obtain ⟨hhead, htail⟩ := pairwise_cons.mp hpair
      rcases mem_cons.mp hv with rfl | hv
      · rcases hu with ⟨hnone, -, -⟩ | noted
        · exact absurd hnone hrd
        · -- no later operation has this handle, so its entry stays as this one left it
          have hlast : s'.maptrack.entry v.handle = s₁.maptrack.entry v.handle := by
            refine same _ fun w hw hrd' heq => ?_
            exact hhead w hw hrd hrd' heq.symm hunm
          have hunm' : s₁.Unmapped v.handle := by
            rw [State.Unmapped, ← hlast]
            exact hunm
          exact drop'.settled (noted.settled (hiommu op mem_cons_self) hm hunm')
      · refine settled htail v hv hrd ?_ hunm
        rcases hu with ⟨-, rfl, -⟩ | noted
        · exact hm
        have hne : v.handle ≠ u.handle := by
          intro heq
          refine hhead v hv ?_ hrd heq.symm (heq ▸ hunm)
          rw [noted.started.rd]
          exact Option.some_ne_none _
        rw [State.Unmapped, noted.other _ hne]
        exact hm

/-! ## Handles that occur twice -/

theorem unmapCommon_leaves (hback : s.Backed) {op : Unmap} (h : unmapCommon c s op = .ok (s', u)) :
    Dropped s s' ∧
      (∀ ops e k, s'.Leaves ops e k ↔ s.Leaves (op :: ops) e k) ∧
      (u.rd ≠ none → u.handle = op.handle ∧ s.Accepts op ∧ ∃ k < 16, s.Leaves [] op.handle k) := by
  obtain ⟨s₁, v, h₁, drop, hv⟩ := unmapCommon_spec (c := c) hback op
  rw [h] at h₁
  cases h₁
  have hbits : ∀ e k, (s'.maptrack.entry e).flags.getLsbD k = true ↔ s.Leaves [op] e k := by
    intro e k
    rcases hv with ⟨-, rfl, hzero⟩ | noted
    · refine (and_iff_left_of_imp fun hk op' hop' heq hends => ?_).symm
      cases mem_singleton.1 hop'
      rw [← heq, hzero hends.1] at hk
      exact absurd hk (by simp)
    · by_cases he : e = op.handle
      · exact he ▸ noted.bits k
      · rw [noted.other e (noted.handle ▸ he), State.Leaves, forall_mem_singleton,
          and_iff_left fun heq => absurd heq.symm he]
  refine ⟨drop, fun ops e k => ?_, fun hrd => ?_⟩
  · simp only [State.Leaves, drop.ends]
    rw [hbits, State.Leaves, forall_mem_singleton, forall_mem_cons, and_assoc]
  · obtain noted := hv.resolve_left fun h => hrd h.1
    refine ⟨noted.handle, noted.accepts, ?_⟩
    obtain ⟨k, hk⟩ : ∃ k, (s.maptrack.entry op.handle).flags.getLsbD k = true := by
      by_contra hnone
      push Not at hnone
      refine noted.started.flags (noted.handle ▸ BitVec.eq_of_getLsbD_eq fun k _ => ?_)
      exact (Bool.eq_false_of_not_eq_true (hnone k)).trans BitVec.getLsbD_zero.symm
    exact ⟨k, BitVec.lt_of_getLsbD hk, hk, by simp⟩

/-- By induction on the batch: an operation that gets to the active entry does so at a place where
its handle has flags, and what the batch leaves is what the operations do not clear. -/
theorem unmapBatchCommon_leaves (hback : s.Backed)
    (h : unmapBatchCommon c s ops = .ok (s', us)) :
    (∀ e k, s'.Leaves [] e k ↔ s.Leaves ops e k) ∧
      (∀ u ∈ us, u.rd ≠ none → ∃ n < ops.length, ∃ op ∈ ops[n]?, op.handle = u.handle ∧
        s.Accepts op ∧ ∃ k < 16, s.Leaves (ops.take n) op.handle k) ∧
      (s.Repeats ops → us.Pairwise s'.Apart) := by
  induction ops generalizing s us with
  | nil =>
    cases h
    exact ⟨fun _ _ => .rfl, by simp, fun _ => .nil⟩
  | cons op ops ih =>
    obtain ⟨⟨s₁, u⟩, h₁, h⟩ := exists_ok_of_bind h
    obtain ⟨⟨s₂, us'⟩, h₂, h⟩ := exists_ok_of_bind h
    cases h
    obtain ⟨drop, hleaves, hfirst⟩ := unmapCommon_leaves hback h₁
    obtain ⟨hbits, hreached, hapart⟩ := ih (drop.backed hback) h₂
    have hlater : ∀ v ∈ us', v.rd ≠ none → ∃ n < ops.length, ∃ op' ∈ ops[n]?,
        op'.handle = v.handle ∧ s.Accepts op' ∧
          ∃ k < 16, s.Leaves (op :: ops.take n) op'.handle k := by
      intro v hv hrd
      obtain ⟨n, hn, op', hop', hhandle, haccepts, k, hk, hleft⟩ := hreached v hv hrd
      exact ⟨n, hn, op', hop', hhandle, (drop.accepts op').1 haccepts, k, hk,
        (hleaves _ _ _).1 hleft⟩
    refine ⟨fun e k => (hbits e k).trans (hleaves ops e k), fun v hv hrd => ?_, fun hrep => ?_⟩
    · rcases mem_cons.1 hv with rfl | hv
      · obtain ⟨hhandle, haccepts, hflags⟩ := hfirst hrd
        exact ⟨0, Nat.succ_pos _, op, rfl, hhandle.symm, haccepts, hflags⟩
      · obtain ⟨n, hn, op', hop', hv⟩ := hlater v hv hrd
        exact ⟨n + 1, Nat.succ_lt_succ hn, op', hop', hv⟩
    refine pairwise_cons.2 ⟨fun v hv hrd hrd' heq => ?_,
      hapart fun n hn op' hop' ha hearlier hk => ?_⟩
    · obtain ⟨hhandle, haccepts, -⟩ := hfirst hrd
      obtain ⟨n, hn, op', hop', hhandle', haccepts', hflags⟩ := hlater v hv hrd'
      obtain ⟨k, hk, hleft⟩ := hrep (n + 1) (Nat.succ_lt_succ hn) op' hop' haccepts'
        ⟨op, mem_cons_self, by rw [hhandle', ← heq, hhandle], haccepts⟩ hflags
      rw [heq, ← hhandle']
      exact (maps_ne_zero_iff (by decide)).2 ⟨k, hk, ((hbits _ k).2 ((hleaves _ _ _).2 hleft)).1⟩
    · obtain ⟨op'', hmem, hhandle, haccepts⟩ := hearlier
      obtain ⟨k, hk16, hk⟩ := hk
      obtain ⟨k', hk', hleft⟩ := hrep (n + 1) (Nat.succ_lt_succ hn) op' hop'
        ((drop.accepts op').1 ha) ⟨op'', mem_cons_of_mem op hmem, hhandle,
          (drop.accepts op'').1 haccepts⟩ ⟨k, hk16, (hleaves _ _ _).1 hk⟩
      exact ⟨k', hk', (hleaves _ _ _).2 hleft⟩

/-! ## The second phase of a batch -/

/-- The entries in limbo. -/
def State.Pending (s : State) (us : List UnmapCommon) : Set Nat :=
  { e | s.Unmapped e ∧ ∃ u ∈ us, u.rd ≠ none ∧ u.handle = e }

/-- Where the second phase is with the operations `us` still to complete. -/
structure Completing (s : State) (us : List UnmapCommon) : Prop where
  maptrack : ∃ lists, s.maptrack.Inv (s.Pending us) lists
  backed : s.Backed
  apart : us.Pairwise s.Apart
  started : ∀ u ∈ us, u.rd ≠ none →
    u.handle < s.maptrack.limit ∧ u.rd = some (s.maptrack.entry u.handle).domid
  settled : ∀ u ∈ us, u.rd ≠ none → s.Unmapped u.handle → s.Settled u

theorem Dropped.completing (inv : s.Inv) (drop : Dropped s s')
    (live : ∀ u ∈ us, u.rd ≠ none → s.Started u)
    (same : ∀ e, (∀ u ∈ us, u.rd ≠ none → u.handle ≠ e) → s'.maptrack.entry e = s.maptrack.entry e)
    (apart : us.Pairwise s'.Apart)
    (settled : ∀ u ∈ us, u.rd ≠ none → ¬ s.Unmapped u.handle → s'.Unmapped u.handle →
      s'.Settled u) : Completing s' us := by
  obtain ⟨lists, hm⟩ := inv.maptrack
  -- an entry with flags is on no list, so it has a map bit
  have mapped : ∀ e < s.maptrack.limit, (s.maptrack.entry e).flags ≠ 0 → ¬ s.Unmapped e := by
    intro e he hf
    rcases hm.used e he with ⟨v, hv⟩ | hempty | hmaps
    · exact absurd (hm.free v e hv).2.2.1 hf
    · exact hempty.elim
    · exact hmaps
  refine ⟨⟨lists, ⟨fun v l hl => ?_, fun v hv => ?_, hm.nodup, fun v e he => ?_, fun e he => ?_,
    fun e he => ?_, fun e he => ?_, ?_, ?_⟩⟩, drop.backed inv.backed, apart,
    fun u hu hrd => ?_, fun u hu hrd => ?_⟩
  · rw [drop.vcpu] at hl
    exact (hm.holds v l hl).congr fun e _ => by rw [drop.entry e]
  · rw [drop.vcpu] at hv
    exact hm.absent v hv
  · obtain ⟨hlt, -, hf, hv⟩ := hm.free v e he
    refine ⟨drop.limit ▸ hlt, ?_, drop.free e hf, ?_⟩
    · rintro ⟨-, u, hu, hrd, rfl⟩
      exact (live u hu hrd).flags hf
    · rw [drop.entry e]
      exact hv
  · by_cases hpend : ∀ u ∈ us, u.rd ≠ none → u.handle ≠ e
    · rw [same e hpend]
      rcases hm.used e (drop.limit ▸ he) with hv | hempty | hmaps
      · exact .inl hv
      · exact hempty.elim
      · exact .inr (.inr hmaps)
    · push Not at hpend
      by_cases hunm : s'.Unmapped e
      · exact .inr (.inl ⟨hunm, hpend⟩)
      · exact .inr (.inr hunm)
  · obtain ⟨-, u, hu, hrd, rfl⟩ := he
    exact drop.limit ▸ (live u hu hrd).lt
  · rw [drop.entry e]
    exact hm.owned e (drop.limit ▸ he)
  · exact drop.limit ▸ hm.small
  · exact drop.limit ▸ hm.pages
  · refine ⟨drop.limit ▸ (live u hu hrd).lt, ?_⟩
    rw [(live u hu hrd).rd, drop.entry u.handle]
  · exact settled u hu hrd (mapped _ (live u hu hrd).lt (live u hu hrd).flags)

theorem unmapCommonComplete_of_settled (hunm : s.Unmapped u.handle) (hs : s.Settled u) :
    Grant.unmapCommonComplete s u = (do
      let m ← (s.maptrack.setEntry u.handle
        { s.maptrack.entry u.handle with flags := 0 }).putMaptrackHandle u.handle
      return { s with maptrack := m }) := by
  obtain ⟨t', ht', hback, hframe, hstatus⟩ := hs
  obtain ⟨d, hd, htd⟩ := Option.bind_eq_some_iff.mp ht'
  obtain ⟨t, ht, rfl⟩ := Option.map_eq_some_iff.mp htd
  have hback' : t.Backs (s.maptrack.entry u.handle).ref := hback
  simp only [Grant.unmapCommonComplete, hd, Option.bind_some, ht, if_neg hback'.1]
  rw [GrantTable.activeEntryAcquire_ok hback'.2]
  exact if_pos ⟨hframe, hstatus, hunm⟩

theorem unmapCommonComplete_eq (hback : s.Backed)
    (hu : u.rd ≠ none → ¬ s.Unmapped u.handle ∧ u.handle < s.maptrack.limit ∧
      u.rd = some (s.maptrack.entry u.handle).domid) : Grant.unmapCommonComplete s u = .ok s := by
  rw [Grant.unmapCommonComplete]
  cases hrd : u.rd with
  | none => rfl
  | some d =>
    obtain ⟨hmapped, hlt, hdom⟩ := hu (by rw [hrd]; exact Option.some_ne_none d)
    rw [hrd] at hdom
    cases hdom
    rw [Option.bind_some]
    cases ht : s.tables (s.maptrack.entry u.handle).domid with
    | none => rfl
    | some t =>
      have hflags : (s.maptrack.entry u.handle).flags ≠ 0 := by
        intro h0
        refine hmapped ?_
        rw [State.Unmapped, h0]
        rfl
      have hbacks := hback _ hlt hflags t ht
      simp only
      rw [if_neg hbacks.1, GrantTable.activeEntryAcquire_ok hbacks.2]
      exact if_neg fun hput => hmapped hput.2.2

theorem Completing.putBack
    (comp : Completing s (u :: us)) (hrd : u.rd ≠ none) (hunm : s.Unmapped u.handle) :
    ∃ s', Grant.unmapCommonComplete s u = .ok s' ∧ Completing s' us := by
  obtain ⟨⟨lists, inv⟩, hback, hapart, hstarted, hsettled⟩ := comp
  obtain ⟨hhead, htail⟩ := pairwise_cons.mp hapart
  have hlimbo : u.handle ∈ s.Pending (u :: us) := ⟨hunm, u, mem_cons_self, hrd, rfl⟩
  have inv' := inv.write (x := { s.maptrack.entry u.handle with flags := 0 }) hlimbo
    (inv.owned _ (inv.transit _ hlimbo))
  obtain ⟨m, lists', hput, hinv, hlimit, hkeep, hother⟩ :=
    inv'.put hlimbo (by rw [Maptrack.entry_setEntry, if_pos rfl])
  -- the other operations have other handles
  have hne : ∀ v ∈ us, v.rd ≠ none → v.handle ≠ u.handle := fun v hv hrd' heq =>
    hhead v hv hrd hrd' heq.symm hunm
  have hflags : ∀ e ≠ u.handle, (m.entry e).flags = (s.maptrack.entry e).flags := by
    intro e he
    rw [(hkeep e).1, Maptrack.entry_setEntry, if_neg he]
  have hsame : ∀ e ≠ u.handle, (∀ v, e ∉ lists v) → m.entry e = s.maptrack.entry e := by
    intro e he hfree
    rw [hother e (hfree _) he, Maptrack.entry_setEntry, if_neg he]
  have hunmapped : ∀ e ≠ u.handle, (State.Unmapped { s with maptrack := m } e ↔ s.Unmapped e) := by
    intro e he
    rw [State.Unmapped, State.Unmapped, hflags e he]
  have hpending : State.Pending { s with maptrack := m } us = s.Pending (u :: us) \ {u.handle} := by
    ext e
    constructor
    · rintro ⟨hunm', v, hv, hrd', rfl⟩
      have hvu := hne v hv hrd'
      exact ⟨⟨(hunmapped _ hvu).mp hunm', v, mem_cons_of_mem u hv, hrd', rfl⟩, hvu⟩
    · rintro ⟨⟨hunm', v, hv, hrd', rfl⟩, he⟩
      rcases mem_cons.mp hv with rfl | hv
      · exact absurd rfl he
      · exact ⟨(hunmapped _ he).mpr hunm', v, hv, hrd', rfl⟩
  refine ⟨{ s with maptrack := m }, ?_, ⟨lists', hpending ▸ hinv⟩, ?_, ?_, ?_, ?_⟩
  · rw [unmapCommonComplete_of_settled hunm (hsettled u mem_cons_self hrd hunm), hput]
    rfl
  · refine hback.mono_of_eq (fun e he hf => ⟨hlimit ▸ he, ?_⟩) rfl
    have heu : e ≠ u.handle := by
      rintro rfl
      refine hf ?_
      rw [(hkeep u.handle).1, Maptrack.entry_setEntry, if_pos rfl]
    rw [hflags e heu] at hf
    exact hsame e heu fun v => inv.not_mem_of_flags hf
  · refine htail.imp_of_mem fun {v w} hv _ hvw hrd' hrd'' heq => ?_
    rw [hunmapped _ (hne v hv hrd')]
    exact hvw hrd' hrd'' heq
  · intro v hv hrd'
    obtain ⟨hlt, hdom⟩ := hstarted v (mem_cons_of_mem u hv) hrd'
    refine ⟨hlimit ▸ hlt, ?_⟩
    rw [hdom, (hkeep v.handle).2, Maptrack.entry_setEntry, if_neg (hne v hv hrd')]
  · intro v hv hrd' hunm'
    have hvu := hne v hv hrd'
    have hunm'' := (hunmapped _ hvu).mp hunm'
    obtain ⟨t, ht, hbacks, hframe, hstatus⟩ := hsettled v (mem_cons_of_mem u hv) hrd' hunm''
    have hpend : v.handle ∈ s.Pending (u :: us) := ⟨hunm'', v, mem_cons_of_mem u hv, hrd', rfl⟩
    have hv' := hsame v.handle hvu fun w => inv.not_mem_of_limbo hpend
    refine ⟨t, ht, ?_, ?_, hstatus⟩
    · rw [hv']
      exact hbacks
    · rw [hv']
      exact hframe

theorem Completing.unmapCommonComplete (comp : Completing s (u :: us)) :
    ∃ s', Grant.unmapCommonComplete s u = .ok s' ∧ Completing s' us := by
  by_cases hput : u.rd ≠ none ∧ s.Unmapped u.handle
  · exact comp.putBack hput.1 hput.2
  obtain ⟨⟨lists, inv⟩, hback, hapart, hstarted, hsettled⟩ := comp
  have hpending : s.Pending us = s.Pending (u :: us) := by
    ext e
    constructor
    · rintro ⟨hunm, v, hv, hrd⟩
      exact ⟨hunm, v, mem_cons_of_mem u hv, hrd⟩
    · rintro ⟨hunm, v, hv, hrd, rfl⟩
      rcases mem_cons.mp hv with rfl | hv
      · exact absurd ⟨hrd, hunm⟩ hput
      · exact ⟨hunm, v, hv, hrd, rfl⟩
  refine ⟨s, unmapCommonComplete_eq hback fun hrd => ⟨fun hunm => hput ⟨hrd, hunm⟩,
    hstarted u mem_cons_self hrd⟩, ⟨lists, hpending ▸ inv⟩, hback,
    (pairwise_cons.mp hapart).2, fun v hv => hstarted v (mem_cons_of_mem u hv),
    fun v hv => hsettled v (mem_cons_of_mem u hv)⟩

theorem Completing.foldlM (comp : Completing s us) :
    ∃ s', us.foldlM Grant.unmapCommonComplete s = .ok s' ∧ s'.Inv := by
  induction us generalizing s with
  | nil =>
    obtain ⟨lists, inv⟩ := comp.maptrack
    have hempty : s.Pending [] = ∅ := by
      simp [State.Pending]
    exact ⟨s, rfl, ⟨lists, hempty ▸ inv⟩, comp.backed⟩
  | cons u us ih =>
    obtain ⟨s₁, h₁, comp₁⟩ := comp.unmapCommonComplete
    obtain ⟨s', h', inv⟩ := ih comp₁
    exact ⟨s', by rw [foldlM_cons, h₁, ok_bind, h'], inv⟩

/-! ## Runs -/

/-- The step neither steals an entry to end a new list with, nor loses or repeats a handle, nor
takes a grant away that is mapped. -/
def Admits (c : Config) (s : State) : Action → Prop
  | .map curr op =>
    s.maptrack.vcpu curr ≠ none ∧ s.maptrack.stealsSentinel c curr op.luck = false
  | .unmap ops =>
    (∀ op ∈ ops, c.needIommu → op.iommu) ∧ s.Repeats ops
  | .initVcpu _ => True
  -- a domain keeps its grant table as long as a mapping refers to it: the table does not shrink,
  -- and `gnttab_set_version` sets version 1 or 2
  | .remote d t => ∀ t' ∈ t, ∀ e < s.maptrack.limit, (s.maptrack.entry e).domid = d →
      (s.maptrack.entry e).flags ≠ 0 → t'.Backs (s.maptrack.entry e).ref

instance (a : Action) : Decidable (Admits c s a) :=
  match a with
  | .map curr op =>
    inferInstanceAs (Decidable (s.maptrack.vcpu curr ≠ none ∧
      s.maptrack.stealsSentinel c curr op.luck = false))
  | .unmap ops =>
    inferInstanceAs (Decidable ((∀ op ∈ ops, c.needIommu → op.iommu) ∧ s.Repeats ops))
  | .initVcpu _ => inferInstanceAs (Decidable True)
  | .remote d t =>
    inferInstanceAs (Decidable (∀ t' ∈ t, ∀ e < s.maptrack.limit, (s.maptrack.entry e).domid = d →
      (s.maptrack.entry e).flags ≠ 0 → t'.Backs (s.maptrack.entry e).ref))

theorem unmapBatch_inv (inv : s.Inv) (ha : Admits c s (.unmap ops)) :
    ∃ s', unmapBatch c s ops = .ok s' ∧ s'.Inv := by
  obtain ⟨hiommu, hrep⟩ := ha
  obtain ⟨s₁, us, h₁, drop, live, same, settled⟩ := unmapBatchCommon_spec inv.backed hiommu
  have hapart : us.Pairwise s₁.Apart := (unmapBatchCommon_leaves inv.backed h₁).2.2 hrep
  obtain ⟨s', h', inv'⟩ := (drop.completing inv live same hapart (settled hapart)).foldlM
  refine ⟨s', ?_, inv'⟩
  rw [unmapBatch, h₁]
  exact h'

theorem initVcpu_inv (v : Nat) (inv : s.Inv) :
    State.Inv { s with maptrack := s.maptrack.initVcpu v } := by
  rw [Maptrack.initVcpu]
  cases hv : s.maptrack.vcpu v with
  | some l => exact inv
  | none =>
    obtain ⟨lists, hm⟩ := inv.maptrack
    refine ⟨⟨lists, ⟨fun v' l hl => ?_, fun v' hv' => ?_, hm.nodup, hm.free, hm.used, hm.transit,
      hm.owned, hm.small, hm.pages⟩⟩, inv.backed⟩
    · rw [Maptrack.vcpu_setVcpu] at hl
      split at hl
      · cases hl
        subst v'
        rw [hm.absent v hv]
        exact ⟨rfl, rfl, trivial⟩
      · exact (hm.holds v' l hl).congr fun _ _ => rfl
    · rw [Maptrack.vcpu_setVcpu] at hv'
      split at hv'
      · cases hv'
      · exact hm.absent v' hv'

theorem step_inv {a : Action} (inv : s.Inv) (ha : Admits c s a) :
    ∃ s', step c s a = .ok s' ∧ s'.Inv := by
  cases a with
  | map curr op =>
    obtain ⟨r, hr, inv'⟩ := mapGrantRef_inv inv ha.1 ha.2
    exact ⟨r.1, by rw [step, hr]; rfl, inv'⟩
  | unmap ops => exact unmapBatch_inv inv ha
  | initVcpu v => exact ⟨_, rfl, initVcpu_inv v inv⟩
  | remote d t =>
    refine ⟨_, rfl, inv.maptrack, fun e he hf t' ht' => ?_⟩
    simp only [Function.update_apply] at ht'
    split at ht'
    · rename_i hd
      exact ha t' ht' e he hd hf
    · exact inv.backed e he hf t' ht'

theorem create_inv (tables : Nat → Option GrantTable) : (State.create tables).Inv where
  maptrack := by
    refine ⟨fun _ => [], ⟨fun v l hl => ?_, fun _ _ => rfl, fun _ => nodup_nil,
      fun v e he => ?_, fun e he => ?_, fun e he => he.elim, fun e he => ?_,
      (by decide : 0 < maptrackTail), Nat.dvd_zero _⟩⟩
    · cases hl
    · cases he
    · cases he
    · cases he
  backed e he := by cases he

/-! ## The accounting of handles -/

/-- Every allocated entry is in use, or on exactly one free list, once; every list ends at its
`maptrack_tail`. -/
structure Maptrack.Accounted (m : Maptrack) (lists : Nat → List Nat) : Prop where
  holds : ∀ v l, m.vcpu v = some l → l.Holds m (lists v)
  absent : ∀ v, m.vcpu v = none → lists v = []
  nodup : ∀ v, (lists v).Nodup
  allocated : ∀ v, ∀ e ∈ lists v, e < m.limit
  entries : ∀ e < m.limit, ((m.entry e).flags ≠ 0 ∧ ∀ v, e ∉ lists v) ∨
    ((m.entry e).flags = 0 ∧ ∃! v, e ∈ lists v)

theorem Maptrack.Inv.accounted (inv : m.Inv ∅ lists) : m.Accounted lists where
  holds := inv.holds
  absent := inv.absent
  nodup := inv.nodup
  allocated v e he := (inv.free v e he).1
  entries e he := by
    rcases inv.used e he with ⟨v, hv⟩ | hempty | hmaps
    · exact .inr ⟨(inv.free v e hv).2.2.1, v, hv, fun v' hv' => inv.disjoint hv' hv⟩
    · exact hempty.elim
    have hf : (m.entry e).flags ≠ 0 := by
      intro h0
      refine hmaps ?_
      rw [h0]
      rfl
    exact .inl ⟨hf, fun v hv => hf (inv.free v e hv).2.2.1⟩

/-- **Handles are accounted for** in every run that `Admits` allows: the next handle is not in use,
and the next step does not leave the tables it indexes. -/
theorem handles_accounted (c : Config) {tables : Nat → Option GrantTable}
    (run : Reaches (step c) (Admits c) (.create tables) s) :
    (∃ lists, s.maptrack.Accounted lists) ∧
      (∀ curr luck e m, s.maptrack.stealsSentinel c curr luck = false →
        s.maptrack.getMaptrackHandle c curr luck = .ok (some e, m) →
        e < s.maptrack.limit → (s.maptrack.entry e).flags = 0) ∧
      ∀ a, Admits c s a → ∃ s', step c s a = .ok s' := by
  have inv : s.Inv := run.invariant_of_total (fun s a ha inv => step_inv inv ha) (create_inv tables)
  obtain ⟨lists, hm⟩ := inv.maptrack
  refine ⟨⟨lists, hm.accounted⟩, fun curr luck e m hs hget => ?_, fun a ha => ?_⟩
  · have hcurr : s.maptrack.vcpu curr ≠ none := by
      intro hnone
      rw [Maptrack.getMaptrackHandle, hnone] at hget
      cases hget
    rcases hm.getMaptrackHandle hcurr hs with hnone | ⟨e', m', hsome, took⟩
    · rw [hnone] at hget
      cases hget
    · rw [hsome] at hget
      cases hget
      exact took.unused
  · obtain ⟨s', hs', -⟩ := step_inv inv ha
    exact ⟨s', hs'⟩

theorem oneFrame_fits : 1 * maptrackPerPage < maptrackTail := by decide

def twoVcpus : Config where
  domid := 1
  external := true
  needIommu := false
  maxVcpus := 2
  maxMaptrackFrames := 1
  fits := oneFrame_fits

def freshTables : Nat → Option GrantTable := fun _ => some ⟨1, 1, fun _ => .cleared⟩

def mapHost (ref : Nat) : MapOp where
  flags := gntmapHostMap
  dom := 2
  ref := ref
  luck := ⟨0, 0, true⟩
  xsm := true
  setStatus := .okay
  gfn := ref
  pagedFrame := .ok ref
  hostMapping := .okay
  iommu := true

def unmapHost (handle : Nat) : Unmap := ⟨4096, 0, handle, true, .okay, true⟩

/-- Two mappings, and a batch that ends the first one and names it once more. -/
theorem handles_accounted_two : ∃ s,
    Reaches (step twoVcpus) (Admits twoVcpus) (.create freshTables) s ∧
      (s.maptrack.entry 0).flags = 0 ∧ (s.maptrack.entry 1).flags ≠ 0 ∧
      ∃ lists, s.maptrack.Accounted lists := by
  obtain ⟨s, run, hfree, hlive⟩ : ∃ s,
      Reaches (step twoVcpus) (Admits twoVcpus) (.create freshTables) s ∧
        (s.maptrack.entry 0).flags = 0 ∧ (s.maptrack.entry 1).flags ≠ 0 :=
    Reaches.exists_of_checked (e := .noVcpu) (l := [.initVcpu 0, .map 0 (mapHost 8),
      .map 0 (mapHost 9), .unmap [unmapHost 0, unmapHost 0]]) (by decide +kernel)
  exact ⟨s, run, hfree, hlive, (handles_accounted twoVcpus run).1⟩

/-- The second vCPU steals the end of its list and a handle, so that its list runs on into the other
one, where that handle is second. -/
theorem get_returns_handle_in_use : ∃ s m,
    [.initVcpu 0, .initVcpu 1, .map 0 (mapHost 8), .map 1 (mapHost 9), .map 1 (mapHost 10)].foldlM
        (step twoVcpus) (.create freshTables) = .ok s ∧
      s.maptrack.getMaptrackHandle twoVcpus 1 ⟨0, 0, true⟩ = .ok (some 2, m) ∧
      2 < s.maptrack.limit ∧ (s.maptrack.entry 2).flags = gntmapHostMap := by
  obtain ⟨s, hs, ⟨hlimit, hflags⟩, ⟨_, m⟩, hm, rfl⟩ : ∃ s,
      [.initVcpu 0, .initVcpu 1, .map 0 (mapHost 8), .map 1 (mapHost 9), .map 1 (mapHost 10)].foldlM
        (step twoVcpus) (.create freshTables) = .ok s ∧
      (2 < s.maptrack.limit ∧ (s.maptrack.entry 2).flags = gntmapHostMap) ∧
      ∃ r, s.maptrack.getMaptrackHandle twoVcpus 1 ⟨0, 0, true⟩ = .ok r ∧ r.1 = some 2 := by
    decide +kernel
  exact ⟨s, m, hs, hm, hlimit, hflags⟩

end XenVmi.Grant
