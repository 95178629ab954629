import Mathlib.Data.Set.Basic
import Mathlib.Data.List.Basic
import Mathlib.Order.Interval.Set.Basic

/-!
# Lists of closed ranges

Sets of naturals as lists of closed ranges `[s, e]`. A list is canonical if its ranges are nonempty,
below a bound, and in order with a gap between any two of them; it is then determined by the set.
-/

namespace XenVmi.Lib

open List

structure ClosedRange where
  s : ℕ
  e : ℕ
  deriving DecidableEq, Repr, Inhabited

def denote (l : List ClosedRange) : Set ℕ := {n | ∃ x ∈ l, x.s ≤ n ∧ n ≤ x.e}

/-- The ranges are nonempty, below `M`, and in order with gaps. -/
structure Canonical (M : ℕ) (l : List ClosedRange) : Prop where
  valid : ∀ x ∈ l, x.s ≤ x.e ∧ x.e < M
  apart : l.Pairwise fun x y => x.e + 1 < y.s

section Denote

variable {n : ℕ} {x : ClosedRange} {l p q : List ClosedRange}

@[simp] theorem not_mem_denote_nil : n ∉ denote [] := by
  rintro ⟨x, hx, -⟩
  cases hx

@[simp] theorem mem_denote_cons : n ∈ denote (x :: l) ↔ (x.s ≤ n ∧ n ≤ x.e) ∨ n ∈ denote l := by
  constructor
  · rintro ⟨y, hy, hn⟩
    rcases mem_cons.1 hy with rfl | hy
    · exact .inl hn
    · exact .inr ⟨y, hy, hn⟩
  · rintro (hn | ⟨y, hy, hn⟩)
    · exact ⟨x, mem_cons_self, hn⟩
    · exact ⟨y, mem_cons_of_mem _ hy, hn⟩

@[simp] theorem mem_denote_append : n ∈ denote (p ++ q) ↔ n ∈ denote p ∨ n ∈ denote q := by
  induction p with
  | nil => simp
  | cons x p ih => rw [cons_append, mem_denote_cons, mem_denote_cons, ih, or_assoc]

theorem lt_of_mem_denote {k : ℕ} (h : ∀ y ∈ l, y.e < k) (hn : n ∈ denote l) : n < k := by
  obtain ⟨y, hy, -, he⟩ := hn
  exact Nat.lt_of_le_of_lt he (h y hy)

theorem gt_of_mem_denote {k : ℕ} (h : ∀ y ∈ l, k < y.s) (hn : n ∈ denote l) : k < n := by
  obtain ⟨y, hy, hs, -⟩ := hn
  exact Nat.lt_of_lt_of_le (h y hy) hs

end Denote

section Canonical

variable {M : ℕ} {x : ClosedRange} {l p q : List ClosedRange}

theorem canonical_nil : Canonical M [] := ⟨nofun, .nil⟩

theorem canonical_append :
    Canonical M (p ++ q) ↔ Canonical M p ∧ Canonical M q ∧ ∀ x ∈ p, ∀ y ∈ q, x.e + 1 < y.s := by
  constructor
  · rintro ⟨hv, ha⟩
    obtain ⟨hp, hq, hpq⟩ := pairwise_append.1 ha
    exact ⟨⟨fun x hx => hv x (mem_append_left _ hx), hp⟩,
      ⟨fun x hx => hv x (mem_append_right _ hx), hq⟩, hpq⟩
  · rintro ⟨hp, hq, hpq⟩
    refine ⟨fun x hx => ?_, pairwise_append.2 ⟨hp.apart, hq.apart, hpq⟩⟩
    rcases mem_append.1 hx with hx | hx
    · exact hp.valid x hx
    · exact hq.valid x hx

theorem canonical_cons :
    Canonical M (x :: l) ↔ (x.s ≤ x.e ∧ x.e < M) ∧ (∀ y ∈ l, x.e + 1 < y.s) ∧ Canonical M l := by
  constructor
  · rintro ⟨hv, ha⟩
    obtain ⟨hx, hl⟩ := pairwise_cons.1 ha
    exact ⟨hv x mem_cons_self, hx, fun y hy => hv y (mem_cons_of_mem _ hy), hl⟩
  · rintro ⟨hx, hxl, hl⟩
    refine ⟨fun y hy => ?_, pairwise_cons.2 ⟨hxl, hl.apart⟩⟩
    rcases mem_cons.1 hy with rfl | hy
    · exact hx
    · exact hl.valid y hy

end Canonical

theorem Canonical.exists_split {M : ℕ} {l : List ClosedRange} (hl : Canonical M l) (s : ℕ) :
    ∃ p q, l = p ++ q ∧ (∀ x ∈ p, x.s ≤ s) ∧ ∀ x ∈ q, s < x.s := by
  induction l with
  | nil => exact ⟨[], [], rfl, nofun, nofun⟩
  | cons y l ih =>
    obtain ⟨hy, hyl, hl⟩ := canonical_cons.1 hl
    by_cases hs : y.s ≤ s
    · obtain ⟨p, q, rfl, hp, hq⟩ := ih hl
      refine ⟨y :: p, q, rfl, fun x hx => ?_, hq⟩
      rcases mem_cons.1 hx with rfl | hx
      · exact hs
      · exact hp x hx
    · refine ⟨[], y :: l, rfl, nofun, fun x hx => ?_⟩
      rcases mem_cons.1 hx with rfl | hx
      · omega
      · have := hyl x hx
        omega

end XenVmi.Lib
