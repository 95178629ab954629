import Mathlib.Data.List.Basic
import Mathlib.Data.Nat.ModEq

/-!
# Rings of cells

Position `p` of a stream lives in cell `p % N` of a ring. `RingHolds N data C xs`: the cells hold
`xs` from position `C` on. Positions kept modulo `2 * N` tell a full ring from an empty one.
-/

namespace XenVmi.Lib

open List

variable {β : Type*} {N C : ℕ} {data data' : ℕ → β} {xs ys : List β}

/-! ## Cells -/

def RingHolds (N : ℕ) (data : ℕ → β) (C : ℕ) (xs : List β) : Prop :=
  ∀ i b, xs[i]? = some b → data ((C + i) % N) = b

theorem ringHolds_nil : RingHolds N data C [] := by
  intro i b h
  simp at h

theorem ringHolds_append :
    RingHolds N data C (xs ++ ys) ↔
      RingHolds N data C xs ∧ RingHolds N data (C + xs.length) ys := by
  constructor
  · intro h
    refine ⟨fun i b hi => h i b ?_, fun i b hi => ?_⟩
    · rw [List.getElem?_append_left (List.getElem?_eq_some_iff.1 hi).1]
      exact hi
    · rw [Nat.add_assoc]
      refine h (xs.length + i) b ?_
      rw [List.getElem?_append_right (Nat.le_add_right _ _), Nat.add_sub_cancel_left]
      exact hi
  · rintro ⟨hx, hy⟩ i b hi
    by_cases hlt : i < xs.length
    · rw [List.getElem?_append_left hlt] at hi
      exact hx i b hi
    · obtain ⟨k, rfl⟩ := Nat.exists_eq_add_of_le (Nat.le_of_not_lt hlt)
      rw [List.getElem?_append_right (Nat.le_add_right _ _), Nat.add_sub_cancel_left] at hi
      rw [← Nat.add_assoc]
      exact hy k b hi

theorem mod_ne_of_lt {i k : ℕ} (hik : i < k) (hk : k - i < N) : (C + i) % N ≠ (C + k) % N := by
  intro h
  have hdvd : N ∣ (C + k) - (C + i) := (Nat.modEq_iff_dvd' (by omega)).1 h
  have := Nat.le_of_dvd (by omega) hdvd
  omega

theorem RingHolds.keep {n : ℕ} (h : RingHolds N data C xs) (hfit : xs.length + n ≤ N)
    (hw : ∀ j < N, (∀ k < n, j ≠ (C + xs.length + k) % N) → data' j = data j) :
    RingHolds N data' C xs := by
  intro i b hi
  have hlt : i < xs.length := (List.getElem?_eq_some_iff.1 hi).1
  rw [← h i b hi]
  refine hw _ (Nat.mod_lt _ (by omega)) fun k hk => ?_
  rw [Nat.add_assoc]
  exact mod_ne_of_lt (by omega) (by omega)

theorem add_mod_ite {M d : ℕ} (p : ℕ) (hd : d < M) :
    (p + d) % M = if M ≤ p % M + d then p % M + d - M else p % M + d := by
  rw [Nat.add_mod_eq_ite, Nat.mod_eq_of_lt hd]

variable {p d : ℕ}

theorem cell_add (h : p % N + d < N) : (p + d) % N = p % N + d := by
  rw [add_mod_ite p (by omega), if_neg (by omega)]

theorem cell_add_wrapped (hN : 0 < N) (hd : d ≤ N) (h : N ≤ p % N + d) :
    (p + d) % N = p % N + d - N := by
  rcases Nat.lt_or_eq_of_le hd with hlt | rfl
  · rw [add_mod_ite p hlt, if_pos h]
  · rw [Nat.add_mod_right, Nat.add_sub_cancel]

theorem cell_lt_iff (hN : 0 < N) (hpos : 0 < d) (hd : d ≤ N) :
    p % N < (p + d) % N ↔ p % N + d < N := by
  constructor
  · intro h
    by_contra hge
    rw [cell_add_wrapped hN hd (by omega)] at h
    omega
  · intro h
    rw [cell_add h]
    omega

def readCells (data : ℕ → β) (a n : ℕ) : List β := (List.range n).map fun i => data (a + i)

theorem readCells_getElem? (a n i : ℕ) :
    (readCells data a n)[i]? = if i < n then some (data (a + i)) else none := by
  unfold readCells
  rw [List.getElem?_map]
  split
  · rename_i h
    rw [List.getElem?_range h]
    rfl
  · rename_i h
    rw [List.getElem?_eq_none (by simpa using h)]
    rfl

theorem RingHolds.read (h : RingHolds N data C xs) (hfit : C % N + xs.length ≤ N) :
    readCells data (C % N) xs.length = xs := by
  apply ext_getElem?
  intro i
  rw [readCells_getElem?]
  split
  · rename_i hi
    have hb : xs[i]? = some xs[i] := List.getElem?_eq_getElem hi
    rw [hb, ← h i _ hb, Nat.add_mod, Nat.mod_eq_of_lt (a := i) (by omega),
      Nat.mod_eq_of_lt (a := C % N + i) (by omega)]
  · rename_i hi
    exact (List.getElem?_eq_none (Nat.le_of_not_lt hi)).symm

/-- What goes up to the end of the ring, and what goes to its start. -/
theorem length_halves (hN : 0 < N) (hend : N ≤ C % N + xs.length) :
    (xs.take (N - C % N)).length = N - C % N ∧
      (xs.drop (N - C % N)).length = C % N + xs.length - N ∧
      (C + (xs.take (N - C % N)).length) % N = 0 := by
  have hlt := Nat.mod_lt C hN
  have hlen : (xs.take (N - C % N)).length = N - C % N := length_take_of_le (by omega)
  refine ⟨hlen, by rw [length_drop]; omega, ?_⟩
  have := Nat.div_add_mod C N
  rw [hlen, show C + (N - C % N) = N * (C / N) + N by omega]
  simp

theorem RingHolds.read_split (h : RingHolds N data C xs) (hN : 0 < N)
    (hend : N ≤ C % N + xs.length) (hfit : xs.length ≤ N) :
    readCells data (C % N) (N - C % N) = xs.take (N - C % N) ∧
      readCells data 0 (C % N + xs.length - N) = xs.drop (N - C % N) := by
  have hlt := Nat.mod_lt C hN
  have hx : xs = xs.take (N - C % N) ++ xs.drop (N - C % N) := (take_append_drop _ _).symm
  rw [hx, ringHolds_append] at h
  obtain ⟨hlen, hrest, hzero⟩ := length_halves hN hend
  refine ⟨?_, ?_⟩
  · have := h.1.read (by omega)
    rwa [hlen] at this
  · have := h.2.read (by omega)
    rwa [hzero, hrest] at this

/-! ## Writing -/

def writeCells (data : ℕ → β) (a : ℕ) (xs : List β) : ℕ → β :=
  fun i => if a ≤ i then xs[i - a]?.getD (data i) else data i

theorem writeCells_nil (a : ℕ) : writeCells data a [] = data := by
  funext i
  simp [writeCells]

theorem writeCells_of_outside {a j : ℕ} (h : ∀ k < xs.length, j ≠ a + k) :
    writeCells data a xs j = data j := by
  unfold writeCells
  split
  · have hlen : xs.length ≤ j - a := by
      by_contra hlt
      exact h (j - a) (by omega) (by omega)
    rw [List.getElem?_eq_none hlen]
    rfl
  · rfl

/-- `data'` is `data` with `xs` written from position `C` on. -/
structure RingWrite (N : ℕ) (data data' : ℕ → β) (C : ℕ) (xs : List β) : Prop where
  holds : RingHolds N data' C xs
  frame : ∀ j < N, (∀ k < xs.length, j ≠ (C + k) % N) → data' j = data j

theorem ringWrite_linear (hfit : C % N + xs.length ≤ N) :
    RingWrite N data (writeCells data (C % N) xs) C xs := by
  have hcell : ∀ k < xs.length, (C + k) % N = C % N + k := fun k hk => by
    rw [Nat.add_mod, Nat.mod_eq_of_lt (a := k) (by omega),
      Nat.mod_eq_of_lt (by omega)]
  constructor
  · intro i b hi
    have hlt : i < xs.length := (List.getElem?_eq_some_iff.1 hi).1
    rw [hcell i hlt, writeCells, if_pos (by omega), Nat.add_sub_cancel_left, hi]
    rfl
  · intro j _ hj
    refine writeCells_of_outside fun k hk => ?_
    rw [← hcell k hk]
    exact hj k hk

theorem RingHolds.write (h : RingHolds N data C xs)
    (hw : RingWrite N data data' (C + xs.length) ys) (hfit : xs.length + ys.length ≤ N) :
    RingHolds N data' C (xs ++ ys) :=
  ringHolds_append.2 ⟨h.keep hfit hw.frame, hw.holds⟩

theorem RingWrite.append {data'' : ℕ → β} (h : RingWrite N data data' C xs)
    (h' : RingWrite N data' data'' (C + xs.length) ys) (hfit : xs.length + ys.length ≤ N) :
    RingWrite N data data'' C (xs ++ ys) := by
  refine ⟨h.holds.write h' hfit, fun j hj hout => ?_⟩
  rw [length_append] at hout
  rw [h'.frame j hj fun k hk => ?_, h.frame j hj fun k hk => hout k (by omega)]
  rw [Nat.add_assoc]
  exact hout _ (by omega)

theorem ringWrite_split (hN : 0 < N) (hend : N < C % N + xs.length) (hfit : xs.length ≤ N) :
    RingWrite N data
      (writeCells (writeCells data (C % N) (xs.take (N - C % N))) 0 (xs.drop (N - C % N)))
        C xs := by
  have hlt := Nat.mod_lt C hN
  obtain ⟨hlen, hrest, hzero⟩ := length_halves hN hend.le
  have hfirst : RingWrite N data (writeCells data (C % N) (xs.take (N - C % N))) C
      (xs.take (N - C % N)) := ringWrite_linear (by omega)
  have hsecond := hfirst.append (ringWrite_linear (by rw [hrest]; omega)) (by omega)
  rwa [hzero, take_append_drop] at hsecond

/-- Blocks one after another from position `p` on, none of which reaches past the end of the
ring. -/
def NoStraddle (N : ℕ) : ℕ → List (List β) → Prop
  | _, [] => True
  | p, c :: l => p % N + c.length ≤ N ∧ NoStraddle N (p + c.length) l

theorem noStraddle_append {l l' : List (List β)} :
    NoStraddle N p (l ++ l') ↔ NoStraddle N p l ∧ NoStraddle N (p + l.flatten.length) l' := by
  induction l generalizing p with
  | nil => simp [NoStraddle]
  | cons c l ih =>
    simp only [cons_append, NoStraddle, ih, flatten_cons, length_append, and_assoc,
      Nat.add_assoc]

theorem NoStraddle.split {l : List (List β)} (h : NoStraddle N p l) (hN : 0 < N)
    (hend : N ≤ p % N + l.flatten.length) : ∃ a b, l = a ++ b ∧ a.flatten.length = N - p % N := by
  have hlt := Nat.mod_lt p hN
  induction l generalizing p with
  | nil =>
    simp only [flatten_nil, length_nil] at hend
    omega
  | cons c l ih =>
    obtain ⟨hc, hl⟩ := h
    rw [flatten_cons, length_append] at hend
    rcases Nat.lt_or_eq_of_le hc with hc | hc
    · have hcell := cell_add hc
      obtain ⟨a, b, rfl, ha⟩ := ih hl (by omega) (Nat.mod_lt _ hN)
      refine ⟨c :: a, b, rfl, ?_⟩
      rw [flatten_cons, length_append]
      omega
    · refine ⟨[c], l, rfl, ?_⟩
      rw [flatten_singleton]
      omega

/-! ## Positions modulo twice the size -/

theorem index_mod (p : ℕ) : p % (2 * N) % N = p % N := Nat.mod_mod_of_dvd p (Dvd.intro_left 2 rfl)

theorem cell_eq (hN : 0 < N) (p : ℕ) :
    p % N = if p % (2 * N) < N then p % (2 * N) else p % (2 * N) - N := by
  have hlt := Nat.mod_lt p (show 0 < 2 * N by omega)
  rw [← index_mod p]
  split
  · rename_i h
    exact Nat.mod_eq_of_lt h
  · rename_i h
    rw [Nat.mod_eq_sub_mod (Nat.le_of_not_lt h), Nat.mod_eq_of_lt (by omega)]

theorem distance_eq (hN : 0 < N) (hC : C ≤ p) (hp : p ≤ C + N) :
    p - C = if p % (2 * N) < C % (2 * N) then p % (2 * N) + 2 * N - C % (2 * N)
      else p % (2 * N) - C % (2 * N) := by
  obtain ⟨d, rfl⟩ := Nat.exists_eq_add_of_le hC
  rw [add_mod_ite C (show d < 2 * N by omega)]
  split <;> split <;> omega

theorem room_to_end_eq (hN : 0 < N) (p : ℕ) :
    N - p % N = if p % (2 * N) < N then N - p % (2 * N) else 2 * N - p % (2 * N) := by
  rw [cell_eq hN p]
  split <;> omega

end XenVmi.Lib
