import XenVmi.Rangeset.Places
import Mathlib.Tactic.Tauto

/-!
# Adding to a rangeset, and asking it

`find_range` splits a canonical list at the place of an element. `rangeset_add_range` first makes
one range of `[s, e]` and what it touches from below or overlaps (`Widened`), and then joins it with
an adjacent one.
-/

namespace XenVmi.Rangeset

open XenVmi.Lib List

def Wf (r : Rangeset) : Prop := Canonical ulongMod r.ranges

def elements (r : Rangeset) : Set Nat := denote r.ranges

variable {r : Rangeset} {mem : Bool} {s e : Nat}

/-! ## Searching -/

/-- What `find_range` finds. -/
inductive Found (r : Rangeset) (s : Nat) : Option Nat → Prop
  | none (h : ∀ y ∈ r.ranges, s < y.s) : Found r s none
  | some (p : List Range) (a : Range) (q : List Range) (h : r.ranges = p ++ a :: q)
      (hp : ∀ y ∈ p, y.e + 1 < a.s) (ha : a.s ≤ s) (hq : ∀ y ∈ q, s < y.s ∧ a.e + 1 < y.s) :
      Found r s (some p.length)

/-- What the two searches find: the list around the ranges that start up to `s`, those up to `e`,
and the others. -/
inductive Located (s e : Nat) : Rangeset → Option Nat → Option Nat → Prop
  | outside (q : List Range) (nr : Int) (hq : ∀ z ∈ q, e < z.s) : Located s e ⟨q, nr⟩ none none
  /-- the ranges from `d` to `y` start within `[s, e]`, and none before it -/
  | first (d : List Range) (y : Range) (q : List Range) (nr : Int)
      (hd : ∀ z ∈ d ++ [y], s < z.s ∧ z.s ≤ e) (hq : ∀ z ∈ q, e < z.s) :
      Located s e ⟨d ++ y :: q, nr⟩ none (some d.length)
  /-- `a` is the last range that starts up to `s`, and up to `e` -/
  | within (p : List Range) (a : Range) (q : List Range) (nr : Int)
      (hp : ∀ z ∈ p, z.e + 1 < a.s) (ha : a.s ≤ s) (hq : ∀ z ∈ q, e < z.s) :
      Located s e ⟨p ++ a :: q, nr⟩ (some p.length) (some p.length)
  /-- `a` is the last range that starts up to `s`, and the ranges from `d` to `y` start behind it -/
  | across (p : List Range) (a : Range) (d : List Range) (y : Range) (q : List Range) (nr : Int)
      (hp : ∀ z ∈ p, z.e + 1 < a.s) (ha : a.s ≤ s) (hd : ∀ z ∈ d ++ [y], s < z.s ∧ z.s ≤ e)
      (hq : ∀ z ∈ q, e < z.s) :
      Located s e ⟨p ++ a :: (d ++ y :: q), nr⟩ (some p.length) (some (p ++ a :: d).length)

theorem located (h : Wf r) (hse : s ≤ e) : Located s e r (r.findRange s) (r.findRange e) := by
  obtain ⟨l, nr⟩ := r
  obtain ⟨p, l, rfl, hp, hl⟩ := Canonical.exists_split h s
  obtain ⟨hcp, hcl, -⟩ := canonical_append.1 h
  obtain ⟨d, q, rfl, hd, hq⟩ := hcl.exists_split e
  have hbetween : ∀ z ∈ d, s < z.s ∧ z.s ≤ e := fun z hz =>
    ⟨hl z (mem_append_left _ hz), hd z hz⟩
  rcases eq_nil_or_concat' p with rfl | ⟨p, a, rfl⟩
  · rw [nil_append, findRange_none hl]
    rcases eq_nil_or_concat' d with rfl | ⟨d, y, rfl⟩
    · rw [nil_append, findRange_none hq]
      exact .outside q nr hq
    · rw [← append_cons,
        findRange_some (fun z hz => hd z (mem_append_left _ hz)) (hd y (by simp)) hq]
      exact .first d y q nr hbetween hq
  have hpa : ∀ z ∈ p, z.e + 1 < a.s := fun z hz => (canonical_append.1 hcp).2.2 z hz a (by simp)
  have hps : ∀ z ∈ p, z.s ≤ s := fun z hz => hp z (mem_append_left _ hz)
  have ha := hp a (by simp)
  rw [← append_cons, findRange_some hps ha hl]
  rcases eq_nil_or_concat' d with rfl | ⟨d, y, rfl⟩
  · rw [nil_append, findRange_some (fun z hz => (hps z hz).trans hse) (ha.trans hse) hq]
    exact .within p a q nr hpa ha hq
  have hfe : findRange ⟨p ++ a :: (d ++ y :: q), nr⟩ e = some (p ++ a :: d).length := by
    rw [← cons_append, ← append_assoc]
    refine findRange_some (fun z hz => ?_) (hd y (by simp)) hq
    rcases mem_append.1 hz with hz | hz
    · exact (hps z hz).trans hse
    · rcases mem_cons.1 hz with rfl | hz
      · exact ha.trans hse
      · exact hd z (mem_append_left _ hz)
  rw [← append_cons, hfe]
  exact .across p a d y q nr hpa ha hbetween hq

theorem found (h : Wf r) (s : Nat) : Found r s (r.findRange s) := by
  have hfound : ∀ {x y}, Located s s r x y → x = y → Found r s x := by
    intro x y hloc hxy
    cases hloc with
    | outside q nr hq => exact .none hq
    | first => cases hxy
    | within p a q nr hp ha hq =>
      have hqa := (canonical_cons.1 (canonical_append.1 h).2.1).2.1
      exact .some p a q rfl hp ha fun z hz => ⟨hq z hz, hqa z hz⟩
    | across => simp at hxy
  exact hfound (located h (Nat.le_refl s)) rfl

theorem containsRange_iff (h : Wf r) (hse : s ≤ e) :
    r.containsRange s e = true ↔ Set.Icc s e ⊆ r.elements := by
  have hf := found h s
  unfold containsRange
  cases hx : r.findRange s with
  | none =>
    rw [hx] at hf
    obtain ⟨hlt⟩ := hf
    refine iff_of_false (by simp) fun hsub => ?_
    exact Nat.lt_irrefl s (gt_of_mem_denote hlt (hsub ⟨Nat.le_refl s, hse⟩))
  | some x =>
    rw [hx] at hf
    obtain ⟨l, nr⟩ := r
    obtain - | ⟨p, a, q, rfl, hp, ha, hq⟩ := hf
    simp only [range_place, decide_eq_true_eq]
    constructor
    · intro hle n hn
      exact mem_denote_append.2 (.inr (mem_denote_cons.2 (.inl ⟨ha.trans hn.1, hn.2.trans hle⟩)))
    · intro hsub
      by_contra hlt
      -- the first element behind `a` that is asked for
      have hn := hsub (show max s (a.e + 1) ∈ Set.Icc s e from ⟨by omega, by omega⟩)
      rcases mem_denote_append.1 hn with hn | hn
      · have := lt_of_mem_denote (k := a.s) (fun y hy => by have := hp y hy; omega) hn
        omega
      · rcases mem_denote_cons.1 hn with hn | hn
        · omega
        · have := gt_of_mem_denote (k := max s (a.e + 1))
            (fun y hy => by have := hq y hy; omega) hn
          omega

theorem overlapsRange_iff (h : Wf r) (hse : s ≤ e) :
    r.overlapsRange s e = true ↔ (Set.Icc s e ∩ r.elements).Nonempty := by
  have hf := found h e
  unfold overlapsRange
  cases hx : r.findRange e with
  | none =>
    rw [hx] at hf
    obtain ⟨hlt⟩ := hf
    refine iff_of_false (by simp) ?_
    rintro ⟨n, hn, hmem⟩
    have := gt_of_mem_denote hlt hmem
    exact absurd hn.2 (by omega)
  | some x =>
    rw [hx] at hf
    obtain ⟨l, nr⟩ := r
    obtain - | ⟨p, a, q, rfl, hp, ha, hq⟩ := hf
    obtain ⟨hval, -⟩ := h.valid a (by simp)
    simp only [range_place, decide_eq_true_eq]
    constructor
    · intro hle
      refine ⟨max s a.s, ⟨by omega, by omega⟩, ?_⟩
      exact mem_denote_append.2 (.inr (mem_denote_cons.2 (.inl (by omega))))
    · rintro ⟨n, hn, hmem⟩
      obtain ⟨hsn, hne⟩ := hn
      rcases mem_denote_append.1 hmem with hmem | hmem
      · have := lt_of_mem_denote (k := a.s) (fun y hy => by have := hp y hy; omega) hmem
        omega
      · rcases mem_denote_cons.1 hmem with hmem | hmem
        · omega
        · have := gt_of_mem_denote (fun y hy => (hq y hy).1) hmem
          omega

/-! ## `rangeset_add_range` -/

/-- The range `x` behind `p` and before `q` takes in `[s, e]` and what it touches. -/
structure Widened (r : Rangeset) (s e : Nat) (p : List Range) (x : Range) (q : List Range) :
    Prop where
  rest : Canonical ulongMod (p ++ q)
  valid : x.s ≤ x.e ∧ x.e < ulongMod
  before : ∀ y ∈ p, y.e + 1 < x.s
  after : ∀ y ∈ q, x.e < y.s
  union : denote (p ++ x :: q) = r.elements ∪ Set.Icc s e

variable {p d q : List Range} {a x y : Range} {nr : Int}

theorem canonical_insert (h : Canonical ulongMod (p ++ q)) (hx : x.s ≤ x.e ∧ x.e < ulongMod)
    (hp : ∀ y ∈ p, y.e + 1 < x.s) (hq : ∀ y ∈ q, x.e + 1 < y.s) :
    Canonical ulongMod (p ++ x :: q) := by
  obtain ⟨hcp, hcq, hpq⟩ := canonical_append.1 h
  refine canonical_append.2 ⟨hcp, canonical_cons.2 ⟨hx, hq, hcq⟩, fun y hy z hz => ?_⟩
  rcases mem_cons.1 hz with rfl | hz
  · exact hp y hy
  · exact hpq y hy z hz

theorem joinNext_spec (h : Widened r s e p x q) :
    Wf (joinNext ⟨p ++ x :: q, nr⟩ p.length) ∧
      (joinNext ⟨p ++ x :: q, nr⟩ p.length).elements = r.elements ∪ Set.Icc s e := by
  cases q with
  | nil =>
    rw [joinNext, nextRange_last]
    exact ⟨canonical_insert h.rest h.valid h.before nofun, h.union⟩
  | cons b q =>
    obtain ⟨hb, hbq, -⟩ := canonical_cons.1 (canonical_append.1 h.rest).2.1
    have hxb := h.after b mem_cons_self
    have hx := h.valid
    have hnext : ulong (x.e + 1) = x.e + 1 := Nat.mod_eq_of_lt (by omega)
    simp only [joinNext, nextRange_place, range_place, range_place_succ, hnext]
    split
    · simp only [setEnd_place, destroyRange_place_succ]
      have hsub := (List.Sublist.refl p).append (sublist_cons_self b q)
      refine ⟨canonical_insert ⟨fun y hy => h.rest.valid y (hsub.subset hy),
        h.rest.apart.sublist hsub⟩ ⟨by simp only; omega, hb.2⟩ h.before hbq, ?_⟩
      · rw [← h.union]
        ext n
        simp only [elements, mem_denote_append, mem_denote_cons]
        constructor
        · rintro (hn | hn | hn)
          · exact .inl hn
          · by_cases hnx : n ≤ x.e
            · exact .inr (.inl ⟨hn.1, hnx⟩)
            · exact .inr (.inr (.inl ⟨by omega, hn.2⟩))
          · exact .inr (.inr (.inr hn))
        · rintro (hn | hn | hn | hn)
          · exact .inl hn
          · exact .inr (.inl ⟨hn.1, by omega⟩)
          · exact .inr (.inl ⟨by omega, hn.2⟩)
          · exact .inr (.inr hn)
    · refine ⟨canonical_insert h.rest hx h.before fun y hy => ?_, h.union⟩
      rcases mem_cons.1 hy with rfl | hy
      · omega
      · have := hbq y hy
        omega

theorem swallow_eq {fuel : Nat}
    (hd : ∀ y ∈ d, y.e ≤ x.e) (hq : ∀ y ∈ q, x.e < y.e) (hfuel : d.length ≤ fuel) :
    swallow p.length fuel ⟨p ++ x :: (d ++ q), nr⟩ = ⟨p ++ x :: q, nr + d.length⟩ := by
  induction d generalizing fuel nr with
  | nil =>
    rw [nil_append, length_nil, Int.natCast_zero, Int.add_zero]
    cases fuel with
    | zero => rfl
    | succ fuel =>
      cases q with
      | nil => rw [swallow, nextRange_last]
      | cons b q =>
        simp only [swallow, nextRange_place, range_place, range_place_succ,
          if_pos (hq b mem_cons_self)]
  | cons y d ih =>
    rw [length_cons] at hfuel
    obtain ⟨fuel, rfl⟩ := Nat.exists_eq_succ_of_ne_zero (show fuel ≠ 0 by omega)
    have hy := hd y mem_cons_self
    simp only [cons_append, swallow, nextRange_place, range_place, range_place_succ,
      if_neg (Nat.not_lt.2 hy), destroyRange_place_succ]
    rw [ih (fun z hz => hd z (mem_cons_of_mem _ hz)) (by omega), length_cons]
    congr 1
    omega

theorem denote_absorb (h : ∀ n, (x.s ≤ n ∧ n ≤ x.e) ↔ n ∈ denote d ∨ (s ≤ n ∧ n ≤ e)) :
    denote (p ++ x :: q) = denote (p ++ (d ++ q)) ∪ Set.Icc s e := by
  ext n
  simp only [mem_denote_append, mem_denote_cons, h, Set.mem_union, Set.mem_Icc]
  tauto

theorem widened_new (h : Wf ⟨p ++ q, nr⟩) (hse : s ≤ e)
    (he : e < ulongMod) (hp : ∀ y ∈ p, y.e + 1 < s) (hq : ∀ y ∈ q, e < y.s) :
    Widened ⟨p ++ q, nr⟩ s e p { s := s, e := e } q where
  rest := h
  valid := ⟨hse, he⟩
  before := hp
  after := hq
  union := denote_absorb (d := []) fun n => by simp

theorem widened_across {t : Nat} (h : Wf ⟨p ++ (d ++ y :: q), nr⟩) (hts : t ≤ s) (hse : s ≤ e)
    (he : e < ulongMod) (hp : ∀ z ∈ p, z.e + 1 < t) (hd : ∀ z ∈ d ++ [y], t ≤ z.s ∧ z.s ≤ e)
    (hcov : ∀ n, t ≤ n → n < s → n ∈ denote (d ++ [y])) (hq : ∀ z ∈ q, e < z.s) :
    Widened ⟨p ++ (d ++ y :: q), nr⟩ s e p { s := t, e := max y.e e } q := by
  rw [append_cons] at h ⊢
  obtain ⟨hcp, hcd, hpd⟩ := canonical_append.1 h
  obtain ⟨hcd, hcq, hdq⟩ := canonical_append.1 hcd
  obtain ⟨-, hcy, hdy⟩ := canonical_append.1 hcd
  have hy := hd y (by simp)
  have hvy := hcy.valid y (by simp)
  refine ⟨canonical_append.2 ⟨hcp, hcq, fun a ha b hb => hpd a ha b (mem_append_right _ hb)⟩,
    ⟨by simp only; omega, by simp only; omega⟩, hp, fun z hz => ?_, ?_⟩
  · have h₁ := hq z hz
    have h₂ := hdq y (by simp) z hz
    simp only
    omega
  · refine denote_absorb fun n => ?_
    simp only
    constructor
    · rintro ⟨htn, hn⟩
      by_cases hns : n < s
      · exact .inl (hcov n htn hns)
      · by_cases hne : n ≤ e
        · exact .inr ⟨by omega, hne⟩
        · exact .inl ⟨y, by simp, by omega, by omega⟩
    · rintro (⟨z, hz, hzn, hnz⟩ | ⟨hsn, hne⟩)
      · have hzt := hd z hz
        rcases mem_append.1 hz with hz | hz
        · have := hdy z hz y (by simp)
          omega
        · obtain rfl := mem_singleton.1 hz
          omega
      · omega

theorem le_last (h : Canonical ulongMod (d ++ [y])) {z : Range}
    (hz : z ∈ d ++ [y]) : z.e ≤ y.e := by
  obtain ⟨-, hy, hdy⟩ := canonical_append.1 h
  have hvy := hy.valid y (by simp)
  rcases mem_append.1 hz with hz | hz
  · have := hdy z hz y (by simp)
    omega
  · rw [mem_singleton.1 hz]

theorem endsBefore_place (hs : s < ulongMod) :
    endsBefore ⟨p ++ a :: q, nr⟩ (some p.length) s = decide (a.e + 1 < s) := by
  simp only [endsBefore, range_place]
  congr 1
  refine propext ⟨fun ⟨hlt, hne⟩ => ?_, fun hlt => ⟨by omega, ?_⟩⟩
  · rw [ulong, Nat.mod_eq_of_lt (by omega)] at hne
    omega
  · rw [ulong, Nat.mod_eq_of_lt (by omega)]
    omega

theorem allocRange_cases (r : Rangeset) (mem : Bool) :
    (r.allocRange mem = none ∧ (r.nrRanges = 0 ∨ mem = false)) ∨
      r.allocRange mem = some { r with nrRanges := r.nrRanges - 1 } := by
  unfold allocRange
  split
  · rename_i h
    exact .inl ⟨rfl, .inl h⟩
  · cases mem with
    | true => exact .inr rfl
    | false => exact .inl ⟨rfl, .inr rfl⟩

theorem widen_within_spec (h : Wf ⟨p ++ a :: q, nr⟩)
    (hse : s ≤ e) (he : e < ulongMod) (hp : ∀ y ∈ p, y.e + 1 < a.s) (ha : a.s ≤ s)
    (hq : ∀ y ∈ q, e < y.s) (hs : findRange ⟨p ++ a :: q, nr⟩ s = some p.length)
    (hf : findRange ⟨p ++ a :: q, nr⟩ e = some p.length) :
    (widen ⟨p ++ a :: q, nr⟩ mem s e = none ∧ (nr = 0 ∨ mem = false)) ∨
      ∃ p' x q' nr', widen ⟨p ++ a :: q, nr⟩ mem s e = some (p'.length, ⟨p' ++ x :: q', nr'⟩) ∧
        Widened ⟨p ++ a :: q, nr⟩ s e p' x q' := by
  unfold widen
  simp only [hs, hf, if_pos, endsBefore_place (Nat.lt_of_le_of_lt hse he)]
  by_cases hgap : a.e + 1 < s
  · rw [decide_eq_true hgap]
    rcases allocRange_cases ⟨p ++ a :: q, nr⟩ mem with ⟨halloc, hnone⟩ | halloc
    · rw [halloc]
      exact .inl ⟨rfl, hnone⟩
    rw [halloc]
    refine .inr ⟨p ++ [a], { s := s, e := e }, q, nr - 1, by simp, ?_⟩
    rw [append_cons] at h ⊢
    refine widened_new h hse he (fun y hy => ?_) hq
    rcases mem_append.1 hy with hy | hy
    · have := hp y hy
      omega
    · rwa [mem_singleton.1 hy]
  · rw [decide_eq_false hgap, if_neg Bool.false_ne_true]
    have hw := widened_across (d := []) h ha hse he hp
      (by simpa using ha.trans hse) (fun n hn hns => ⟨a, by simp, hn, by omega⟩) hq
    refine .inr ⟨p, _, q, nr, ?_, hw⟩
    simp only [range_place]
    split
    · rw [setEnd_place, Nat.max_eq_right (by omega)]
    · rw [Nat.max_eq_left (by omega)]

theorem swallow_reached {p l d q : List Range} (h : Canonical ulongMod (d ++ y :: q))
    (hl : ∀ z ∈ l, z ∈ d ++ [y]) (hx : x.e = max y.e e) (hq : ∀ z ∈ q, e < z.s) :
    swallow p.length (p ++ x :: (l ++ q)).length ⟨p ++ x :: (l ++ q), nr⟩ =
      ⟨p ++ x :: q, nr + l.length⟩ := by
  rw [append_cons] at h
  obtain ⟨hcd, hcq, hdq⟩ := canonical_append.1 h
  refine swallow_eq (fun z hz => ?_) (fun z hz => ?_) ?_
  · have := le_last hcd (hl z hz)
    omega
  · have h₁ := hq z hz
    have h₂ := hdq y (by simp) z hz
    have h₃ := hcq.valid z hz
    omega
  · simp only [length_append, length_cons]
    omega

theorem widen_first {x : Option Nat}
    (h : Wf ⟨p ++ (d ++ y :: q), nr⟩) (hs : findRange ⟨p ++ (d ++ y :: q), nr⟩ s = x)
    (hx : placeAfter x = p.length) (hbefore : endsBefore ⟨p ++ (d ++ y :: q), nr⟩ x s = true)
    (hf : findRange ⟨p ++ (d ++ y :: q), nr⟩ e = some (p ++ d).length) (hq : ∀ z ∈ q, e < z.s) :
    ∃ nr', widen ⟨p ++ (d ++ y :: q), nr⟩ mem s e =
      some (p.length, ⟨p ++ { s := s, e := max y.e e } :: q, nr'⟩) := by
  obtain ⟨b, l, hb⟩ := exists_cons_of_ne_nil (show d ++ [y] ≠ [] by simp)
  have hlist : d ++ y :: q = b :: (l ++ q) := by
    rw [append_cons, hb, cons_append]
  have hlast : range ⟨p ++ (d ++ y :: q), nr⟩ (p ++ d).length = y := by
    rw [← append_assoc]
    exact range_place
  have hne : x ≠ some (p ++ d).length := by
    rintro rfl
    simp only [placeAfter, length_append] at hx
    omega
  have hmax : (if e < y.e then y.e else e) = max y.e e := by split <;> omega
  refine ⟨nr + l.length, ?_⟩
  unfold widen
  simp only [hs, hf, if_neg hne, Option.getD_some, hlast, hbefore, if_true, hx, hmax]
  rw [hlist, setStart_place, setEnd_place]
  rw [swallow_reached (canonical_append.1 h).2.1 (fun z hz => ?_) rfl hq]
  rw [hb]
  exact mem_cons_of_mem b hz

theorem widen_last (h : Wf ⟨p ++ a :: (d ++ y :: q), nr⟩) (he : s < ulongMod) (hs : s ≤ a.e + 1)
    (hfs : findRange ⟨p ++ a :: (d ++ y :: q), nr⟩ s = some p.length)
    (hf : findRange ⟨p ++ a :: (d ++ y :: q), nr⟩ e = some (p ++ a :: d).length)
    (hq : ∀ z ∈ q, e < z.s) :
    ∃ nr', widen ⟨p ++ a :: (d ++ y :: q), nr⟩ mem s e =
      some (p.length, ⟨p ++ { s := a.s, e := max y.e e } :: q, nr'⟩) := by
  obtain ⟨-, -, hcd⟩ := canonical_cons.1 (canonical_append.1 h).2.1
  have hlast : range ⟨p ++ a :: (d ++ y :: q), nr⟩ (p ++ a :: d).length = y := by
    rw [← cons_append, ← append_assoc]
    exact range_place
  have hne : some p.length ≠ some (p ++ a :: d).length := by simp
  have hmax : (if e < y.e then y.e else e) = max y.e e := by split <;> omega
  refine ⟨nr + (d ++ [y]).length, ?_⟩
  unfold widen
  simp only [hfs, hf, if_neg hne, Option.getD_some, hlast, endsBefore_place he,
    decide_eq_false (Nat.not_lt.2 hs), Bool.false_eq_true, if_false, setEnd_place, hmax]
  rw [append_cons d, swallow_reached hcd (fun z hz => hz) rfl hq]

theorem widen_spec (h : Wf r) (hse : s ≤ e) (he : e < ulongMod) :
    (r.widen mem s e = none ∧ (r.nrRanges = 0 ∨ mem = false)) ∨
      ∃ p x q nr, r.widen mem s e = some (p.length, ⟨p ++ x :: q, nr⟩) ∧ Widened r s e p x q := by
  have hloc := located h hse
  have hs := Nat.lt_of_le_of_lt hse he
  generalize hfs : r.findRange s = x, hfe : r.findRange e = y at hloc
  cases hloc with
  | outside q nr hq =>
    rcases allocRange_cases ⟨q, nr⟩ mem with ⟨halloc, hnone⟩ | halloc
    · refine .inl ⟨?_, hnone⟩
      simp only [widen, hfs, hfe, if_pos, halloc, Option.map_none]
    · refine .inr ⟨[], { s := s, e := e }, q, nr - 1, ?_,
        widened_new (p := []) h hse he (by simp) hq⟩
      simp only [widen, hfs, hfe, if_pos, halloc]
      rfl
  | first d y q nr hd hq =>
    obtain ⟨nr', hwiden⟩ := @widen_first mem s e [] d q y nr none h hfs rfl rfl hfe hq
    exact .inr ⟨[], _, q, nr', hwiden, widened_across (p := []) h (Nat.le_refl s) hse he (by simp)
      (fun z hz => ⟨(hd z hz).1.le, (hd z hz).2⟩) (fun n hn hns => absurd hns (by omega)) hq⟩
  | within p a q nr hp ha hq => exact widen_within_spec h hse he hp ha hq hfs hfe
  | across p a d y q nr hp ha hd hq =>
    by_cases hgap : a.e + 1 < s
    · have hbefore : endsBefore ⟨p ++ a :: (d ++ y :: q), nr⟩ (some p.length) s = true := by
        rw [endsBefore_place hs, decide_eq_true hgap]
      rw [append_cons] at h hfs hfe hbefore ⊢
      obtain ⟨nr', hwiden⟩ := @widen_first mem s e (p ++ [a]) d q y nr (some p.length) h hfs
        (by simp [placeAfter]) hbefore (by rw [hfe]; simp) hq
      refine .inr ⟨p ++ [a], _, q, nr', hwiden, widened_across h (Nat.le_refl s) hse he
        (fun z hz => ?_) (fun z hz => ⟨(hd z hz).1.le, (hd z hz).2⟩)
        (fun n hn hns => absurd hns (by omega)) hq⟩
      rcases mem_append.1 hz with hz | hz
      · have := hp z hz
        omega
      · rwa [mem_singleton.1 hz]
    · obtain ⟨nr', hwiden⟩ := @widen_last mem s e p d q a y nr h hs (by omega) hfs hfe hq
      refine .inr ⟨p, _, q, nr', hwiden, widened_across (d := a :: d) h ha hse he hp
        (fun z hz => ?_) (fun n hn hns => ⟨a, by simp, hn, by omega⟩) hq⟩
      rcases mem_cons.1 hz with rfl | hz
      · exact ⟨Nat.le_refl _, ha.trans hse⟩
      · have := hd z hz
        exact ⟨by omega, this.2⟩

/-- **`rangeset_add_range` is set union** on canonical lists, unless a range cannot be allocated;
the queries answer for the set. -/
theorem addRange_union (r : Rangeset) (mem : Bool) (s e : Nat) (h : Wf r) (hse : s ≤ e)
    (he : e < ulongMod) :
    ((r.addRange mem s e = (enomem, r) ∧ (r.nrRanges = 0 ∨ mem = false)) ∨
      ((r.addRange mem s e).1 = 0 ∧ Wf (r.addRange mem s e).2 ∧
        (r.addRange mem s e).2.elements = r.elements ∪ Set.Icc s e)) ∧
      (r.containsRange s e = true ↔ Set.Icc s e ⊆ r.elements) ∧
      (r.overlapsRange s e = true ↔ (Set.Icc s e ∩ r.elements).Nonempty) := by
  refine ⟨?_, containsRange_iff h hse, overlapsRange_iff h hse⟩
  unfold addRange
  rcases widen_spec h hse he with ⟨hnone, hwhy⟩ | ⟨p, x, q, nr, hsome, hw⟩
  · rw [hnone]
    exact .inl ⟨rfl, hwhy⟩
  · rw [hsome]
    exact .inr ⟨rfl, joinNext_spec hw⟩

/-- `[6, 19]` joins two ranges into one. -/
theorem addRange_union_joined :
    let r : Rangeset := ⟨[⟨0, 5⟩, ⟨20, 30⟩], -3⟩
    r.addRange true 6 19 = (0, ⟨[⟨0, 30⟩], -2⟩) ∧
      (r.addRange true 6 19).2.elements = r.elements ∪ Set.Icc 6 19 := by
  have hwf : Wf ⟨[⟨0, 5⟩, ⟨20, 30⟩], -3⟩ := by
    constructor
    · decide
    · decide
  have hadd : addRange ⟨[⟨0, 5⟩, ⟨20, 30⟩], -3⟩ true 6 19 = (0, ⟨[⟨0, 30⟩], -2⟩) := by decide
  refine ⟨hadd, ?_⟩
  rcases (addRange_union _ true 6 19 hwf (by decide) (by decide)).1 with ⟨hno, -⟩ | ⟨-, -, hunion⟩
  · cases hno
  · exact hunion

end XenVmi.Rangeset
