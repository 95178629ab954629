import XenVmi.Rangeset.Ops

/-!
# Places in a rangeset

What the functions on ranges do to a list that is written out around the place they work on:
`p ++ a :: q`, where `a` has the place `p.length`.
-/

namespace XenVmi.Rangeset

open XenVmi.Lib List

variable {p q : List Range} {a b : Range} {nr : Int} {s e : Nat}

theorem findFrom_of_lt {i : Nat} {x : Option Nat} (hq : ∀ y ∈ q, s < y.s) :
    findFrom s q i x = x := by
  cases q with
  | nil => rfl
  | cons y q => rw [findFrom, if_pos (hq y mem_cons_self)]

theorem findFrom_append {i : Nat} {x : Option Nat} (hp : ∀ y ∈ p, y.s ≤ s) (ha : a.s ≤ s)
    (hq : ∀ y ∈ q, s < y.s) : findFrom s (p ++ a :: q) i x = some (i + p.length) := by
  induction p generalizing i x with
  | nil => rw [nil_append, findFrom, if_neg (by omega), findFrom_of_lt hq]; rfl
  | cons y p ih =>
    have hy := hp y mem_cons_self
    rw [cons_append, findFrom, if_neg (by omega),
      ih fun z hz => hp z (mem_cons_of_mem _ hz), length_cons]
    congr 1
    omega

theorem findRange_none (hq : ∀ y ∈ q, s < y.s) : findRange ⟨q, nr⟩ s = none := findFrom_of_lt hq

theorem findRange_some (hp : ∀ y ∈ p, y.s ≤ s) (ha : a.s ≤ s) (hq : ∀ y ∈ q, s < y.s) :
    findRange ⟨p ++ a :: q, nr⟩ s = some p.length := by
  rw [findRange, findFrom_append hp ha hq, Nat.zero_add]

/-! ## At a place -/

theorem modify_place (f : Range → Range) : (p ++ a :: q).modify p.length f = p ++ f a :: q := by
  induction p with
  | nil => rfl
  | cons x p ih => rw [length_cons, cons_append, modify_succ_cons, ih, cons_append]

theorem insertIdx_place : (p ++ q).insertIdx p.length b = p ++ b :: q := by
  induction p with
  | nil => rfl
  | cons x p ih =>
    rw [length_cons, cons_append, insertIdx_succ_cons, ih, cons_append]

theorem eraseIdx_place : (p ++ a :: q).eraseIdx p.length = p ++ q := by
  induction p with
  | nil => rfl
  | cons x p ih =>
    rw [length_cons, cons_append, eraseIdx_cons_succ, ih, cons_append]

@[simp] theorem range_place : range ⟨p ++ a :: q, nr⟩ p.length = a := by
  simp [range]

@[simp] theorem range_place_succ : range ⟨p ++ a :: b :: q, nr⟩ (p.length + 1) = b := by
  simp [range]

@[simp] theorem nextRange_last : nextRange ⟨p ++ [a], nr⟩ p.length = none := by
  simp [nextRange]

@[simp] theorem nextRange_place :
    nextRange ⟨p ++ a :: b :: q, nr⟩ p.length = some (p.length + 1) := by
  simp [nextRange]

@[simp] theorem setStart_place :
    setStart ⟨p ++ a :: q, nr⟩ p.length s = ⟨p ++ { a with s := s } :: q, nr⟩ := by
  rw [setStart, modify_place]

@[simp] theorem setEnd_place :
    setEnd ⟨p ++ a :: q, nr⟩ p.length e = ⟨p ++ { a with e := e } :: q, nr⟩ := by
  rw [setEnd, modify_place]

@[simp] theorem insertRange_place :
    insertRange ⟨p ++ a :: q, nr⟩ (some p.length) b = ⟨p ++ a :: b :: q, nr⟩ := by
  have h := insertIdx_place (p := p ++ [a]) (q := q) (b := b)
  rw [length_append, append_assoc, append_assoc] at h
  exact congrArg (Rangeset.mk · nr) h

@[simp] theorem destroyRange_place :
    destroyRange ⟨p ++ a :: q, nr⟩ p.length = ⟨p ++ q, nr + 1⟩ := by
  rw [destroyRange, eraseIdx_place]

@[simp] theorem destroyRange_place_succ :
    destroyRange ⟨p ++ a :: b :: q, nr⟩ (p.length + 1) = ⟨p ++ a :: q, nr + 1⟩ := by
  have h := eraseIdx_place (p := p ++ [a]) (a := b) (q := q)
  rw [length_append, append_assoc, append_assoc] at h
  exact congrArg (Rangeset.mk · (nr + 1)) h

end XenVmi.Rangeset
