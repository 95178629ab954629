import XenVmi.Lib.Linked
import XenVmi.Grant.Maptrack
import Mathlib.Data.Set.Insert

/-!
# The free lists of a maptrack

`Maptrack.Inv m limbo lists`: every allocated entry is on the free list `lists v` of a vCPU `v`, or
in use, or in `limbo`: taken off its list and not filled yet, or no longer in use and not put back
yet.
-/

namespace XenVmi.Grant

open Function XenVmi.Lib List

/-- The ends of a list and the links in the entries describe the list `xs`, which ends at
`maptrack_tail`. -/
structure FreeList.Holds (l : FreeList) (m : Maptrack) (xs : List Nat) : Prop where
  head : l.head = xs.headD maptrackTail
  tail : l.tail = xs.getLastD maptrackTail
  linked : Linked (fun e => (m.entry e).ref) maptrackTail xs

theorem FreeList.Holds.congr {l : FreeList} {m m' : Maptrack} {xs : List Nat} (h : l.Holds m xs)
    (same : ∀ a ∈ xs, (m'.entry a).ref = (m.entry a).ref) : l.Holds m' xs :=
  ⟨h.head, h.tail, h.linked.congr same⟩

namespace Maptrack

structure Inv (m : Maptrack) (limbo : Set Nat) (lists : Nat → List Nat) : Prop where
  holds : ∀ v l, m.vcpu v = some l → l.Holds m (lists v)
  absent : ∀ v, m.vcpu v = none → lists v = []
  nodup : ∀ v, (lists v).Nodup
  free : ∀ v, ∀ e ∈ lists v, e < m.limit ∧ e ∉ limbo ∧ (m.entry e).flags = 0 ∧ (m.entry e).vcpu = v
  used : ∀ e < m.limit, (∃ v, e ∈ lists v) ∨ e ∈ limbo ∨ (m.entry e).flags &&& gntmapMaps ≠ 0
  transit : ∀ e ∈ limbo, e < m.limit
  /-- `put_maptrack_handle` finds a list to add the entry to. -/
  owned : ∀ e < m.limit, lists (m.entry e).vcpu ≠ []
  small : m.limit < maptrackTail
  pages : maptrackPerPage ∣ m.limit

variable {m m' : Maptrack} {limbo : Set Nat} {lists : Nat → List Nat} {v e : Nat} {l : FreeList}

@[simp] theorem entry_setVcpu : (m.setVcpu v l).entry = m.entry := rfl

@[simp] theorem limit_setVcpu : (m.setVcpu v l).limit = m.limit := rfl

variable {x : GrantMapping} {curr : Nat} {c : Config} {luck : Luck}

@[simp] theorem vcpu_setEntry : (m.setEntry e x).vcpu = m.vcpu := rfl

@[simp] theorem limit_setEntry : (m.setEntry e x).limit = m.limit := rfl

theorem entry_setEntry (e' : Nat) : (m.setEntry e x).entry e' = if e' = e then x else m.entry e' :=
  update_apply m.entry e x e'

theorem vcpu_setVcpu (v' : Nat) : (m.setVcpu v l).vcpu v' = if v' = v then some l else m.vcpu v' :=
  update_apply m.vcpu v (some l) v'

theorem maptrackEntry_eq (he : e < m.limit) : m.maptrackEntry e = .ok (m.entry e) := if_pos he

variable (inv : m.Inv limbo lists)

include inv

theorem Inv.ne_tail (h : e ∈ lists v) : e ≠ maptrackTail := by
  have h1 := (inv.free v e h).1
  have h2 := inv.small
  omega

theorem Inv.not_mem_of_limbo (h : e ∈ limbo) : e ∉ lists v :=
  fun hv => (inv.free v e hv).2.1 h

theorem Inv.vcpu_of_ne_nil (h : lists v ≠ []) : ∃ l, m.vcpu v = some l := by
  cases hv : m.vcpu v with
  | none => exact absurd (inv.absent v hv) h
  | some l => exact ⟨l, rfl⟩

theorem Inv.disjoint {v' : Nat} (h : e ∈ lists v) (h' : e ∈ lists v') : v = v' := by
  rw [← (inv.free v e h).2.2.2, ← (inv.free v' e h').2.2.2]

/-! ## Moves -/

theorem Inv.relist {limbo' : Set Nat} {ys : List Nat}
    (vcpu : m'.vcpu = update m.vcpu v (some l)) (small : m'.limit < maptrackTail)
    (pages : maptrackPerPage ∣ m'.limit) (holds : l.Holds m' ys) (nodup : ys.Nodup) (ne : ys ≠ [])
    (free : ∀ a ∈ ys, a < m'.limit ∧ a ∉ limbo' ∧ (m'.entry a).flags = 0 ∧ (m'.entry a).vcpu = v)
    (others : ∀ v' ≠ v, ∀ a ∈ lists v', a < m'.limit ∧ a ∉ limbo' ∧ m'.entry a = m.entry a)
    (used : ∀ a < m'.limit, a ∈ ys ∨ a ∈ limbo' ∨ (m'.entry a).flags &&& gntmapMaps ≠ 0 ∨
      ∃ v' ≠ v, a ∈ lists v') (transit : ∀ a ∈ limbo', a < m'.limit)
    (owned : ∀ a < m'.limit, (m'.entry a).vcpu = v ∨ lists (m'.entry a).vcpu ≠ []) :
    m'.Inv limbo' (update lists v ys) := by
  refine ⟨?_, ?_, ?_, ?_, ?_, transit, ?_, small, pages⟩
  · intro v' l' hl'
    rw [vcpu, update_apply] at hl'
    by_cases h : v' = v
    · rw [if_pos h] at hl'
      cases hl'
      rwa [h, update_self]
    · rw [if_neg h] at hl'
      rw [update_of_ne h]
      exact (inv.holds v' l' hl').congr fun a ha => by rw [(others v' h a ha).2.2]
  · intro v' hv'
    rw [vcpu, update_apply] at hv'
    by_cases h : v' = v
    · rw [if_pos h] at hv'
      cases hv'
    · rw [if_neg h] at hv'
      rw [update_of_ne h]
      exact inv.absent v' hv'
  · intro v'
    by_cases h : v' = v
    · rwa [h, update_self]
    · rw [update_of_ne h]
      exact inv.nodup v'
  · intro v' a ha
    by_cases h : v' = v
    · rw [h, update_self] at ha
      exact h ▸ free a ha
    · rw [update_of_ne h] at ha
      obtain ⟨hlt, hlimbo, hentry⟩ := others v' h a ha
      rw [hentry]
      exact ⟨hlt, hlimbo, (inv.free v' a ha).2.2⟩
  · intro a ha
    rcases used a ha with hys | hlimbo | hflags | ⟨v', h, hv'⟩
    · exact .inl ⟨v, by rwa [update_self]⟩
    · exact .inr (.inl hlimbo)
    · exact .inr (.inr hflags)
    · exact .inl ⟨v', by rwa [update_of_ne h]⟩
  · intro a ha
    by_cases h : (m'.entry a).vcpu = v
    · rwa [h, update_self]
    · rw [update_of_ne h]
      exact (owned a ha).resolve_left h

theorem Inv.take {rest : List Nat} (hv : m.vcpu v = some l)
    (hl : lists v = e :: rest) (hr : rest ≠ []) :
    (m.setVcpu v { l with head := (m.entry e).ref }).Inv (insert e limbo)
      (update lists v rest) := by
  have hmem : e ∈ lists v := by rw [hl]; exact mem_cons_self
  obtain ⟨hrest, hnodup⟩ := nodup_cons.mp (hl ▸ inv.nodup v)
  have hfree : ∀ v', ∀ a ∈ lists v', a ≠ e → a < m.limit ∧ a ∉ insert e limbo := by
    intro v' a ha hae
    obtain ⟨hlt, hlimbo, -⟩ := inv.free v' a ha
    exact ⟨hlt, fun h => h.elim hae hlimbo⟩
  refine inv.relist rfl inv.small inv.pages ?_ hnodup hr (fun a ha => ?_) (fun v' h a ha => ?_)
    (fun a ha => ?_) ?_ fun a ha => .inr (inv.owned a ha)
  · obtain ⟨-, htail, hnext, hlinked⟩ := hl ▸ inv.holds v l hv
    refine ⟨hnext, ?_, hlinked⟩
    obtain ⟨b, rest, rfl⟩ := exists_cons_of_ne_nil hr
    exact htail
  · have ha' : a ∈ lists v := by rw [hl]; exact mem_cons_of_mem e ha
    obtain ⟨hlt, hlimbo⟩ := hfree v a ha' (by rintro rfl; exact hrest ha)
    exact ⟨hlt, hlimbo, (inv.free v a ha').2.2⟩
  · obtain ⟨hlt, hlimbo⟩ := hfree v' a ha (by rintro rfl; exact h (inv.disjoint ha hmem))
    exact ⟨hlt, hlimbo, rfl⟩
  · rcases inv.used a ha with ⟨v', hv'⟩ | hlimbo | hflags
    · by_cases h : v' = v
      · subst h
        rw [hl] at hv'
        rcases mem_cons.mp hv' with rfl | hx'
        · exact .inr (.inl (Set.mem_insert _ _))
        · exact .inl hx'
      · exact .inr (.inr (.inr ⟨v', h, hv'⟩))
    · exact .inr (.inl (Set.mem_insert_of_mem e hlimbo))
    · exact .inr (.inr (.inl hflags))
  · rintro a (rfl | ha)
    · exact (inv.free v a hmem).1
    · exact inv.transit a ha

theorem Inv.write (he : e ∈ limbo) (hx : lists x.vcpu ≠ []) : (m.setEntry e x).Inv limbo lists := by
  have hother : ∀ v, ∀ a ∈ lists v, (m.setEntry e x).entry a = m.entry a := by
    intro v a ha
    rw [entry_setEntry, if_neg]
    rintro rfl
    exact inv.not_mem_of_limbo he ha
  refine ⟨fun v l hl => ?_, inv.absent, inv.nodup, fun v a ha => ?_, fun a ha => ?_, inv.transit,
    fun a ha => ?_, inv.small, inv.pages⟩
  · exact (inv.holds v l hl).congr fun a ha => by rw [hother v a ha]
  · rw [hother v a ha]
    exact inv.free v a ha
  · by_cases h : a = e
    · exact .inr (.inl (h ▸ he))
    · rw [entry_setEntry, if_neg h]
      exact inv.used a ha
  · rw [entry_setEntry]
    split
    · exact hx
    · exact inv.owned a ha

theorem Inv.settle (hflags : (m.entry e).flags &&& gntmapMaps ≠ 0) : m.Inv (limbo \ {e}) lists where
  holds := inv.holds
  absent := inv.absent
  nodup := inv.nodup
  free v a ha := by
    obtain ⟨hlt, hlimbo, hrest⟩ := inv.free v a ha
    exact ⟨hlt, fun h => hlimbo h.1, hrest⟩
  used a ha := by
    by_cases h : a = e
    · exact .inr (.inr (h ▸ hflags))
    · rcases inv.used a ha with hl | hlimbo | hf
      · exact .inl hl
      · exact .inr (.inl ⟨hlimbo, h⟩)
      · exact .inr (.inr hf)
  transit a ha := inv.transit a ha.1
  owned := inv.owned
  small := inv.small
  pages := inv.pages

theorem Inv.fill (he : e ∈ limbo)
    (hvcpu : x.vcpu = (m.entry e).vcpu) (hflags : x.flags &&& gntmapMaps ≠ 0) :
    (m.setEntry e x).Inv (limbo \ {e}) lists := by
  refine (inv.write he ?_).settle ?_
  · rw [hvcpu]
    exact inv.owned e (inv.transit e he)
  · rwa [entry_setEntry, if_pos rfl]

omit inv

/-- The table after `put_maptrack_handle`: the entry is the new end of its vCPU's list. -/
def afterPut (m : Maptrack) (handle : Nat) (l : FreeList) : Maptrack :=
  let v := (m.entry handle).vcpu
  let m := (m.setEntry handle { m.entry handle with ref := maptrackTail }).setVcpu v
    { l with tail := handle }
  m.setEntry l.tail { m.entry l.tail with ref := handle }

theorem putMaptrackHandle_eq (he : e < m.limit) (hv : m.vcpu (m.entry e).vcpu = some l)
    (hl : l.tail < m.limit) : m.putMaptrackHandle e = .ok (m.afterPut e l) := by
  rw [putMaptrackHandle, maptrackEntry_eq he, ok_bind]
  simp only [vcpu_setEntry, hv]
  rw [maptrackEntry_eq (by exact hl)]
  rfl

theorem Inv.put (inv : m.Inv limbo lists) (he : e ∈ limbo) (hflags : (m.entry e).flags = 0) :
    ∃ m' lists', m.putMaptrackHandle e = .ok m' ∧ m'.Inv (limbo \ {e}) lists' ∧
      m'.limit = m.limit ∧
      (∀ a, (m'.entry a).flags = (m.entry a).flags ∧ (m'.entry a).domid = (m.entry a).domid) ∧
      ∀ a ∉ lists (m.entry e).vcpu, a ≠ e → m'.entry a = m.entry a := by
  have hlt := inv.transit e he
  obtain ⟨v, hv⟩ : ∃ v, v = (m.entry e).vcpu := ⟨_, rfl⟩
  obtain ⟨ys, t, hys⟩ := eq_nil_or_concat' (lists v) |>.resolve_left (hv ▸ inv.owned e hlt)
  have htv : t ∈ lists v := by rw [hys]; simp
  obtain ⟨l, hl⟩ := inv.vcpu_of_ne_nil (ne_nil_of_mem htv)
  obtain ⟨hhead, htail, hlinked⟩ := inv.holds v l hl
  rw [hys, getLastD_concat] at htail
  obtain ⟨htlt, htlimbo, htflags, htvcpu⟩ := inv.free v t htv
  have hte : t ≠ e := fun h => inv.not_mem_of_limbo he (h ▸ htv)
  have hput := putMaptrackHandle_eq hlt (hv ▸ hl) (htail ▸ htlt)
  -- the two entries that change
  have hentry : ∀ a, (m.afterPut e l).entry a =
      if a = t then { m.entry t with ref := e }
      else if a = e then { m.entry e with ref := maptrackTail } else m.entry a := by
    intro a
    simp only [afterPut, entry_setEntry, entry_setVcpu, htail]
    rw [if_neg hte]
  have hvcpu : (m.afterPut e l).vcpu = update m.vcpu v (some { l with tail := e }) := by
    rw [hv]
    rfl
  have hkeep : ∀ a, ((m.afterPut e l).entry a).flags = (m.entry a).flags ∧
      ((m.afterPut e l).entry a).domid = (m.entry a).domid ∧
      ((m.afterPut e l).entry a).vcpu = (m.entry a).vcpu := by
    intro a
    rw [hentry]
    split
    · subst a
      exact ⟨rfl, rfl, rfl⟩
    · split
      · subst a
        exact ⟨rfl, rfl, rfl⟩
      · exact ⟨rfl, rfl, rfl⟩
  have hother : ∀ a ∉ lists v, a ≠ e → (m.afterPut e l).entry a = m.entry a := by
    intro a ha hae
    rw [hentry, if_neg (by rintro rfl; exact ha htv), if_neg hae]
  refine ⟨_, update lists v (lists v ++ [e]), hput,
    inv.relist hvcpu inv.small inv.pages ⟨?_, ?_, ?_⟩ ?_ (by simp) ?_ ?_ ?_ ?_ ?_, rfl,
    fun a => ⟨(hkeep a).1, (hkeep a).2.1⟩, hv ▸ hother⟩
  · rw [hys] at hhead ⊢
    rw [hhead]
    cases ys <;> rfl
  · rw [getLastD_concat]
  · have hnodup := inv.nodup v
    rw [hys] at hlinked hnodup ⊢
    refine hlinked.concat (fun a ha => ?_) ?_ ?_
    · have hat : a ≠ t := by
        rintro rfl
        exact (nodup_append.mp hnodup).2.2 a ha a mem_cons_self rfl
      have hae : a ≠ e := by
        rintro rfl
        exact inv.not_mem_of_limbo he (by rw [hys]; exact mem_append_left _ ha)
      simp only [hentry, if_neg hat, if_neg hae]
    · simp only [hentry, if_pos]
    · simp only [hentry, if_neg hte.symm, if_pos]
  · rw [← concat_eq_append]
    exact (inv.nodup v).concat (inv.not_mem_of_limbo he)
  · intro a ha
    rw [(hkeep a).1, (hkeep a).2.2]
    rcases mem_append.mp ha with ha' | ha'
    · obtain ⟨h1, h2, h3⟩ := inv.free v a ha'
      exact ⟨h1, fun h => h2 h.1, h3⟩
    · rw [mem_singleton.mp ha']
      exact ⟨hlt, fun h => h.2 rfl, hflags, hv.symm⟩
  · intro v' h a ha
    obtain ⟨h1, h2, -⟩ := inv.free v' a ha
    refine ⟨h1, fun h => h2 h.1, hother a (fun hav => h (inv.disjoint ha hav)) ?_⟩
    rintro rfl
    exact h2 he
  · intro a ha
    rw [(hkeep a).1]
    rcases inv.used a ha with ⟨v', hv'⟩ | hlimbo | hf
    · by_cases h : v' = v
      · exact .inl (mem_append_left _ (h ▸ hv'))
      · exact .inr (.inr (.inr ⟨v', h, hv'⟩))
    · by_cases h : a = e
      · exact .inl (mem_append_right _ (mem_singleton.mpr h))
      · exact .inr (.inl ⟨hlimbo, h⟩)
    · exact .inr (.inr (.inl hf))
  · exact fun a ha => inv.transit a ha.1
  · intro a ha
    rw [(hkeep a).2.2]
    exact .inr (inv.owned a ha)

/-! ## `get_maptrack_handle` -/

theorem Inv.grow (inv : m.Inv limbo lists) (hv : m.vcpu curr = some l)
    (hroom : m.limit + maptrackPerPage < maptrackTail) :
    (m.growMaptrack curr l).Inv (insert m.limit limbo)
      (update lists curr (List.range' (m.limit + 1) 255 ++ lists curr)) := by
  have hlimit : (m.growMaptrack curr l).limit = m.limit + 256 := rfl
  have hold : ∀ a < m.limit, (m.growMaptrack curr l).entry a = m.entry a := fun a ha =>
    if_neg (by omega)
  have hnew : ∀ a, m.limit ≤ a → a < m.limit + 256 → (m.growMaptrack curr l).entry a =
      ⟨if a + 1 = m.limit + 256 then l.head else a + 1, 0, 0, curr⟩ := fun a h1 h2 =>
    if_pos ⟨h1, h2⟩
  have hlisted : ∀ v, ∀ a ∈ lists v, a < m.limit + 256 ∧ a ∉ insert m.limit limbo := by
    intro v a ha
    obtain ⟨h1, h2, -⟩ := inv.free v a ha
    refine ⟨by omega, ?_⟩
    rintro (rfl | hx)
    · exact Nat.lt_irrefl _ h1
    · exact h2 hx
  obtain ⟨hhead, htail, hlinked⟩ := inv.holds curr l hv
  refine inv.relist rfl hroom (Nat.dvd_add inv.pages (Nat.dvd_refl _)) ⟨rfl, ?_, ?_⟩ ?_
    (by simp) ?_ ?_ ?_ ?_ ?_
  · by_cases hnil : lists curr = []
    · have hempty : l.tail = maptrackTail := by
        rw [htail, hnil]
        rfl
      rw [hnil, append_nil, List.range'_1_concat]
      exact if_pos hempty
    · obtain ⟨ys, t, hys⟩ := (eq_nil_or_concat' (lists curr)).resolve_left hnil
      rw [hys, getLastD_concat] at htail
      have hne : l.tail ≠ maptrackTail := htail ▸ inv.ne_tail (by rw [hys]; simp)
      rw [if_neg hne, htail, hys, ← append_assoc, getLastD_concat]
  · refine linked_block (hlinked.congr fun a ha => ?_) (fun i hi => ?_) ?_
    · rw [hold a (inv.free curr a ha).1]
    · simp only [hnew (m.limit + 1 + i) (by omega) (by omega)]
      rw [if_neg (by omega)]
    · rw [← hhead, hnew (m.limit + 1 + 254) (by omega) (by omega)]
      exact if_pos (by omega)
  · refine nodup_append.mpr ⟨nodup_range', inv.nodup curr, fun a ha b hb => ?_⟩
    have h1 := mem_range'_1.mp ha
    have h2 := (inv.free curr b hb).1
    omega
  · intro a ha
    rcases mem_append.mp ha with ha' | ha'
    · obtain ⟨h1, h2⟩ := mem_range'_1.mp ha'
      rw [hnew a (by omega) (by omega)]
      refine ⟨by omega, ?_, rfl, rfl⟩
      rintro (rfl | hx)
      · omega
      · exact absurd (inv.transit a hx) (by omega)
    · obtain ⟨h1, h2⟩ := hlisted curr a ha'
      rw [hold a (inv.free curr a ha').1]
      exact ⟨h1, h2, (inv.free curr a ha').2.2⟩
  · intro v _ a ha
    obtain ⟨h1, h2⟩ := hlisted v a ha
    exact ⟨h1, h2, hold a (inv.free v a ha).1⟩
  · intro a ha
    by_cases h : a < m.limit
    · rw [hold a h]
      rcases inv.used a h with ⟨v, hv'⟩ | hlimbo | hf
      · by_cases hvv : v = curr
        · exact .inl (mem_append_right _ (hvv ▸ hv'))
        · exact .inr (.inr (.inr ⟨v, hvv, hv'⟩))
      · exact .inr (.inl (Set.mem_insert_of_mem _ hlimbo))
      · exact .inr (.inr (.inl hf))
    · by_cases h' : a = m.limit
      · exact .inr (.inl (h' ▸ Set.mem_insert _ _))
      · refine .inl (mem_append_left _ (mem_range'_1.mpr ?_))
        omega
  · rintro a (rfl | ha)
    · omega
    · exact Nat.lt_of_lt_of_le (inv.transit a ha) (Nat.le_add_right _ _)
  · intro a ha
    by_cases h : a < m.limit
    · rw [hold a h]
      exact .inr (inv.owned a h)
    · exact .inl (by rw [hnew a (by omega) ha])

/-- The handle `e` was taken: it was not in use, and nothing else changed hands. -/
structure Took (m : Maptrack) (limbo : Set Nat) (e : Nat) (m' : Maptrack) : Prop where
  unused : e < m.limit → (m.entry e).flags = 0
  flags : (m'.entry e).flags = 0
  inv : ∃ lists, m'.Inv (insert e limbo) lists
  other : ∀ a ≠ e, a < m'.limit → (m'.entry a).flags ≠ 0 → a < m.limit ∧ m'.entry a = m.entry a

theorem Inv.vcpuGetMaptrackHandle (inv : m.Inv limbo lists) (hv : m.vcpu v = some l) :
    m.vcpuGetMaptrackHandle v l = .ok none ∨ ∃ e rest, lists v = e :: rest ∧ rest ≠ [] ∧
      m.vcpuGetMaptrackHandle v l =
        .ok (some (e, m.setVcpu v { l with head := (m.entry e).ref })) := by
  obtain ⟨hhead, -, hlinked⟩ := inv.holds v l hv
  rw [Maptrack.vcpuGetMaptrackHandle]
  cases hl : lists v with
  | nil =>
    rw [hl] at hhead
    exact .inl (if_pos hhead)
  | cons e rest =>
    have he : e ∈ lists v := by rw [hl]; exact mem_cons_self
    rw [hl] at hhead hlinked
    have hhead' : l.head = e := hhead
    rw [if_neg (hhead' ▸ inv.ne_tail he), hhead', maptrackEntry_eq (inv.free v e he).1]
    cases rest with
    | nil => exact .inl (if_pos hlinked.1)
    | cons b rest =>
      have hb : (m.entry e).ref ≠ maptrackTail := by
        have hnext : (m.entry e).ref = b := hlinked.1
        rw [hnext]
        exact inv.ne_tail (by rw [hl]; simp)
      exact .inr ⟨e, b :: rest, rfl, cons_ne_nil _ _, if_neg hb⟩

theorem Inv.stealFrom (inv : m.Inv limbo lists) (hcurr : lists curr ≠ []) (victims : List Nat) :
    m.stealFrom curr victims = .ok none ∨
      ∃ e m', m.stealFrom curr victims = .ok (some (e, m')) ∧ m.Took limbo e m' := by
  induction victims with
  | nil => exact .inl rfl
  | cons i is ih =>
    rw [Maptrack.stealFrom]
    cases hi : m.vcpu i with
    | none => exact ih
    | some l =>
      rcases inv.vcpuGetMaptrackHandle hi with hnone | ⟨e, rest, hl, hrest, hsome⟩
      · simp only [hnone]
        exact ih
      simp only [hsome]
      obtain ⟨-, -, hflags, -⟩ := inv.free i e (by rw [hl]; exact mem_cons_self)
      refine .inr ⟨e, _, rfl, fun _ => hflags, ?_, ⟨_, (inv.take hi hl hrest).write
        (Set.mem_insert e limbo) ?_⟩, fun a ha hlt hf => ?_⟩
      · rw [entry_setEntry, if_pos rfl]
        exact hflags
      · by_cases h : curr = i
        · subst h
          rwa [update_self]
        · rwa [update_of_ne h]
      · rw [entry_setEntry, if_neg ha]
        exact ⟨hlt, rfl⟩

def stealsSentinel (c : Config) (m : Maptrack) (curr : Nat) (luck : Luck) : Bool :=
  decide (c.maxMaptrackFrames ≤ m.limit / maptrackPerPage) &&
    match m.vcpu curr with
    | none => false
    | some l =>
      decide (l.tail = maptrackTail) &&
        match m.stealMaptrackHandle c curr luck.random with
        | .ok (some _) => true
        | _ => false

variable (inv : m.Inv limbo lists)

include inv

theorem Inv.stealFrom_total (victims : List Nat) : ∃ o, m.stealFrom curr victims = .ok o := by
  induction victims with
  | nil => exact ⟨none, rfl⟩
  | cons i is ih =>
    rw [Maptrack.stealFrom]
    cases hi : m.vcpu i with
    | none => exact ih
    | some l =>
      rcases inv.vcpuGetMaptrackHandle hi with hnone | ⟨e, rest, -, -, hsome⟩
      · simp only [hnone]
        exact ih
      · simp only [hsome]
        exact ⟨_, rfl⟩

theorem Inv.stealMaptrackHandles
    (hv : m.vcpu curr = some l) (hframes : c.maxMaptrackFrames ≤ m.limit / maptrackPerPage)
    (hs : m.stealsSentinel c curr luck = false) :
    m.stealMaptrackHandles c curr luck.random luck.random' l = .ok (none, m) ∨
      ∃ e m', m.stealMaptrackHandles c curr luck.random luck.random' l = .ok (some e, m') ∧
        m.Took limbo e m' := by
  rw [Maptrack.stealMaptrackHandles, stealSentinel]
  by_cases htail : l.tail = maptrackTail
  · simp only [stealsSentinel, hframes, hv, htail, decide_true, Bool.true_and] at hs
    rw [if_pos htail]
    obtain ⟨o, ho⟩ : ∃ o, m.stealMaptrackHandle c curr luck.random = .ok o := inv.stealFrom_total _
    rw [ho] at hs ⊢
    cases o with
    | none => exact .inl rfl
    | some p => cases hs
  rw [if_neg htail]
  have hcurr : lists curr ≠ [] := by
    intro hnil
    have htail' := (inv.holds curr l hv).tail
    rw [hnil] at htail'
    exact htail htail'
  have hsteal := inv.stealFrom hcurr
    ((List.range c.maxVcpus).map fun k => (luck.random' + k) % c.maxVcpus)
  rw [← stealMaptrackHandle] at hsteal
  rcases hsteal with hnone | ⟨e, m', hsome, took⟩
  · refine .inl ?_
    simp only [hnone]
  · refine .inr ⟨e, m', ?_, took⟩
    simp only [hsome]

theorem Inv.took_grow
    (hv : m.vcpu curr = some l) (hframes : ¬ c.maxMaptrackFrames ≤ m.limit / maptrackPerPage) :
    m.Took limbo m.limit (m.growMaptrack curr l) := by
  have hroom : m.limit + maptrackPerPage < maptrackTail := by
    have hfits : c.maxMaptrackFrames * 256 < maptrackTail := c.fits
    obtain ⟨k, hk⟩ : ∃ k, m.limit = 256 * k := inv.pages
    have hk' : m.limit / maptrackPerPage = k := by
      rw [hk]
      exact Nat.mul_div_cancel_left k (by decide)
    have hper : maptrackPerPage = 256 := rfl
    omega
  refine ⟨fun hlt => absurd hlt (Nat.lt_irrefl _), ?_, ⟨_, inv.grow hv hroom⟩, ?_⟩
  · have hnew : (m.growMaptrack curr l).entry m.limit = _ :=
      if_pos ⟨Nat.le_refl _, Nat.lt_add_of_pos_right (by decide)⟩
    rw [hnew]
  · intro a ha hlt hf
    by_cases hle : m.limit ≤ a
    · have hnew : (m.growMaptrack curr l).entry a = _ := if_pos ⟨hle, hlt⟩
      rw [hnew] at hf
      exact absurd rfl hf
    · exact ⟨Nat.lt_of_not_le hle, if_neg fun h => hle h.1⟩

theorem Inv.getMaptrackHandle
    (hcurr : m.vcpu curr ≠ none) (hs : m.stealsSentinel c curr luck = false) :
    m.getMaptrackHandle c curr luck = .ok (none, m) ∨
      ∃ e m', m.getMaptrackHandle c curr luck = .ok (some e, m') ∧ m.Took limbo e m' := by
  obtain ⟨l, hv⟩ := Option.ne_none_iff_exists'.mp hcurr
  rw [Maptrack.getMaptrackHandle]
  simp only [hv]
  rcases inv.vcpuGetMaptrackHandle hv with hnone | ⟨e, rest, hl, hrest, hsome⟩
  · simp only [hnone]
    by_cases hframes : c.maxMaptrackFrames ≤ m.limit / maptrackPerPage
    · rw [if_pos hframes]
      exact inv.stealMaptrackHandles hv hframes hs
    · rw [if_neg hframes]
      split
      · exact .inr ⟨_, _, rfl, inv.took_grow hv hframes⟩
      · exact .inl rfl
  · simp only [hsome]
    obtain ⟨-, -, hflags, -⟩ := inv.free curr e (by rw [hl]; exact mem_cons_self)
    exact .inr ⟨e, _, rfl, fun _ => hflags, hflags, ⟨_, inv.take hv hl hrest⟩,
      fun a _ hlt _ => ⟨hlt, rfl⟩⟩

end Maptrack

end XenVmi.Grant
