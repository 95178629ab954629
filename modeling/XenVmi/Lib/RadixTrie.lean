import Mathlib.Logic.Function.Basic
import Mathlib.Tactic.Common

/-!
# Radix tries that grow on demand

A `Trie α h` has leaves of type `α` below `h` levels of tables, whose entries are made when a path,
the list of the indices from the top down, first needs them.
-/

namespace XenVmi.Lib

open List

universe u

def Trie (α : Type u) : ℕ → Type u
  | 0 => α
  | h + 1 => ℕ → Option (Trie α h)

namespace Trie

variable {α : Type u} {h : ℕ}

def entry (t : Trie α (h + 1)) (i : ℕ) : Option (Trie α h) := t i

def setEntry (t : Trie α (h + 1)) (i : ℕ) (x : Trie α h) : Trie α (h + 1) :=
  fun j => if j = i then some x else t j

@[simp] theorem entry_setEntry_self (t : Trie α (h + 1)) (i : ℕ) (x : Trie α h) :
    entry (setEntry t i x) i = some x := if_pos rfl

theorem entry_setEntry_of_ne (t : Trie α (h + 1)) {i j : ℕ} (x : Trie α h) (hne : j ≠ i) :
    entry (setEntry t i x) j = entry t j := if_neg hne

def fresh (z : α) : (h : ℕ) → Trie α h
  | 0 => z
  | _ + 1 => fun _ => none

def find : (h : ℕ) → Trie α h → List ℕ → Option α
  | 0, t, _ => some t
  | _ + 1, _, [] => none
  | h + 1, t, i :: is => (entry t i).bind fun t' => find h t' is

def modify (f : α → α) : (h : ℕ) → Trie α h → List ℕ → Trie α h
  | 0, t, _ => f t
  | _ + 1, t, [] => t
  | h + 1, t, i :: is =>
    match entry t i with
    | none => t
    | some t' => setEntry t i (modify f h t' is)

/-- Make what is missing on the path; with each index comes whether the allocation succeeds. -/
def grow (z : α) : (h : ℕ) → Trie α h → List (ℕ × Bool) → Trie α h × Bool
  | 0, t, _ => (t, true)
  | _ + 1, t, [] => (t, false)
  | h + 1, t, (i, ok) :: is =>
    match entry t i with
    | some t' => (setEntry t i (grow z h t' is).1, (grow z h t' is).2)
    | none =>
      if ok then (setEntry t i (grow z h (fresh z h) is).1, (grow z h (fresh z h) is).2)
      else (t, false)

theorem find_modify (f : α → α) (t : Trie α h) {p q : List ℕ} (hp : p.length = h)
    (hq : q.length = h) :
    find h (modify f h t p) q = if q = p then (find h t q).map f else find h t q := by
  induction h generalizing p q with
  | zero =>
    rw [eq_nil_of_length_eq_zero hp, eq_nil_of_length_eq_zero hq]
    rfl
  | succ h ih =>
    obtain ⟨i, is, rfl⟩ := exists_cons_of_length_eq_add_one hp
    obtain ⟨j, js, rfl⟩ := exists_cons_of_length_eq_add_one hq
    simp only [modify]
    cases hi : entry t i with
    | none =>
      dsimp only
      split
      · rename_i heq
        obtain ⟨rfl, -⟩ := List.cons.inj heq
        simp [find, hi]
      · rfl
    | some t' =>
      simp only [find]
      by_cases hji : j = i
      · subst hji
        simp only [entry_setEntry_self, hi, Option.bind_some, List.cons.injEq, true_and]
        exact ih t' (Nat.succ.inj hp) (Nat.succ.inj hq)
      · rw [entry_setEntry_of_ne _ _ hji, if_neg fun heq => hji (List.cons.inj heq).1]

variable {q : List ℕ} {p : List (ℕ × Bool)}

theorem find_fresh (z : α) (hq : q.length = h) :
    find h (fresh z h) q = if h = 0 then some z else none := by
  cases h with
  | zero => rfl
  | succ h =>
    obtain ⟨j, js, rfl⟩ := exists_cons_of_length_eq_add_one hq
    rfl

theorem grow_ok (z : α) (t : Trie α h) (hp : p.length = h)
    (hok : ∀ x ∈ p, x.2 = true) : (grow z h t p).2 = true := by
  induction h generalizing p with
  | zero => rfl
  | succ h ih =>
    obtain ⟨⟨i, ok⟩, is, rfl⟩ := exists_cons_of_length_eq_add_one hp
    have hrest : ∀ t', (grow z h t' is).2 = true := fun t' =>
      ih t' (Nat.succ.inj hp) fun x hx => hok x (mem_cons_of_mem _ hx)
    have htop : ok = true := hok (i, ok) mem_cons_self
    simp only [grow]
    cases entry t i with
    | none =>
      rw [if_pos htop]
      exact hrest _
    | some t' => exact hrest t'

theorem find_grow (z : α) (t : Trie α h) (hp : p.length = h)
    (hq : q.length = h) (hok : ∀ x ∈ p, x.2 = true) :
    find h (grow z h t p).1 q =
      if q = p.map Prod.fst then some ((find h t q).getD z) else find h t q := by
  induction h generalizing p q with
  | zero =>
    rw [eq_nil_of_length_eq_zero hp, eq_nil_of_length_eq_zero hq]
    rfl
  | succ h ih =>
    obtain ⟨⟨i, ok⟩, is, rfl⟩ := exists_cons_of_length_eq_add_one hp
    obtain ⟨j, js, rfl⟩ := exists_cons_of_length_eq_add_one hq
    have hrest : ∀ t', find h (grow z h t' is).1 js =
        if js = is.map Prod.fst then some ((find h t' js).getD z) else find h t' js := fun t' =>
      ih t' (Nat.succ.inj hp) (Nat.succ.inj hq) fun x hx => hok x (mem_cons_of_mem _ hx)
    have htop : ok = true := hok (i, ok) mem_cons_self
    simp only [grow, map_cons, List.cons.injEq]
    by_cases hji : j = i
    · subst hji
      cases hi : entry t j with
      | some t' => simp [find, hi, hrest]
      | none =>
        -- a new table has no leaf, a new leaf is `z`
        have hfresh : find h (fresh z h) js = _ := find_fresh z (Nat.succ.inj hq)
        simp only [htop, if_true, find, entry_setEntry_self, Option.bind_some, hrest, hi,
          Option.bind_none, Option.getD_none, true_and]
        split
        · rw [hfresh]
          split <;> rfl
        · rename_i hne
          rw [hfresh, if_neg]
          rintro rfl
          exact hne (by rw [eq_nil_of_length_eq_zero (Nat.succ.inj hp),
            eq_nil_of_length_eq_zero (Nat.succ.inj hq)]; rfl)
    · cases entry t i with
      | some t' => simp [find, entry_setEntry_of_ne _ _ hji, hji]
      | none => simp [htop, find, entry_setEntry_of_ne _ _ hji, hji]

end Trie

end XenVmi.Lib
