import Mathlib.Logic.Relation
import Mathlib.Data.List.Basic

/-!
# Fallible steps, loops and runs

`Ensures E x Q`: the program `x` in `Except ε` ends with a result that meets `Q`, or with an error
that meets `E`. `Reaches step guard`: runs of a fallible step function whose steps meet a guard.
-/

namespace XenVmi.Lib

open List

universe u

variable {ε ι : Type*} {σ α β : Type u}

/-! ## Results and errors -/

def Ensures (E : ε → Prop) (x : Except ε α) (Q : α → Prop) : Prop :=
  match x with
  | .ok a => Q a
  | .error e => E e

section Ensures

variable {E : ε → Prop} {P : α → Prop} {Q : α → Prop} {R : β → Prop}

@[simp] theorem ok_bind (a : α) (f : α → Except ε β) : (Except.ok a >>= f) = f a := rfl

variable {a : α} {x : Except ε α} {f : α → Except ε β} {b : β}

theorem Ensures.ok (h : Q a) : Ensures E (.ok a) Q := h

theorem Ensures.pure (h : Q a) : Ensures E (Pure.pure a) Q := h

theorem Ensures.mono (h : Ensures E x P) (imp : ∀ a, P a → Q a) : Ensures E x Q := by
  cases x with
  | ok a => exact imp a h
  | error e => exact h

theorem Ensures.weaken (h : Ensures (fun _ => False) x Q) : Ensures E x Q := by
  cases x with
  | ok a => exact h
  | error e => exact h.elim

theorem Ensures.mono_error {E' : ε → Prop} (h : Ensures E x Q)
    (imp : ∀ e, E e → E' e) : Ensures E' x Q := by
  cases x with
  | ok a => exact h
  | error e => exact imp e h

theorem Ensures.bind (h : Ensures E x P)
    (next : ∀ a, P a → Ensures E (f a) R) : Ensures E (x >>= f) R := by
  cases x with
  | ok a => exact next a h
  | error e => exact h

theorem Ensures.and (h : Ensures E x P) (h' : Ensures (fun _ => True) x Q) :
    Ensures E x fun a => P a ∧ Q a := by
  cases x with
  | ok a => exact ⟨h, h'⟩
  | error e => exact h

theorem Ensures.of_ok (h : Ensures E x Q) (hx : x = .ok a) : Q a := by
  subst hx
  exact h

theorem Ensures.of_error {e : ε} (h : Ensures E x Q) (hx : x = .error e) : E e := by
  subst hx
  exact h

theorem Ensures.exists_ok (h : Ensures (fun _ => False) x Q) : ∃ a, x = .ok a ∧ Q a := by
  cases x with
  | ok a => exact ⟨a, rfl, h⟩
  | error e => exact h.elim

/-- Whether a closed program ends with a result that meets `P` is settled by running it. -/
instance decidableExistsOk [DecidablePred P] (x : Except ε α) : Decidable (∃ a, x = .ok a ∧ P a) :=
  decidable_of_iff (x.toOption.any fun a => P a) (by cases x <;> simp [Except.toOption])

theorem exists_ok_of_except_map {f : α → β} (h : x.map f = .ok b) : ∃ a, x = .ok a ∧ f a = b := by
  cases x with
  | ok a => exact ⟨a, rfl, Except.ok.inj h⟩
  | error e => cases h

theorem exists_ok_of_bind (h : x >>= f = .ok b) : ∃ a, x = .ok a ∧ f a = .ok b := by
  cases x with
  | ok a => exact ⟨a, rfl, h⟩
  | error e => cases h

end Ensures

theorem foldl_invariant {f : σ → ι → σ} (P : σ → Prop) {l : List ι} {s : σ}
    (step : ∀ s, ∀ x ∈ l, P s → P (f s x)) (init : P s) : P (l.foldl f s) := by
  induction l generalizing s with
  | nil => exact init
  | cons x l ih =>
    exact ih (fun s y hy => step s y (mem_cons_of_mem _ hy))
      (step s x mem_cons_self init)

theorem foldl_range_invariant {f : σ → Nat → σ} (P : Nat → σ → Prop) {n : Nat} {s : σ}
    (step : ∀ k s, k < n → P k s → P (k + 1) (f s k)) (init : P 0 s) :
    P n ((List.range n).foldl f s) := by
  induction n with
  | zero => exact init
  | succ n ih =>
    rw [range_succ, foldl_append]
    exact step n _ (Nat.lt_succ_self n) (ih fun k s hk => step k s (Nat.lt_succ_of_lt hk))

theorem Ensures.foldlM_range {E : ε → Prop} {f : σ → Nat → Except ε σ} (P : Nat → σ → Prop)
    {n : Nat} {s : σ} (step : ∀ k s, k < n → P k s → Ensures E (f s k) (P (k + 1)))
    (init : P 0 s) : Ensures E ((List.range n).foldlM f s) (P n) := by
  induction n with
  | zero => exact init
  | succ n ih =>
    rw [range_succ, foldlM_append]
    refine Ensures.bind (ih fun k s hk => step k s (Nat.lt_succ_of_lt hk)) fun s hs => ?_
    exact Ensures.bind (step n s (Nat.lt_succ_self n) hs) fun _ h => Ensures.pure h

/-! ## Runs -/

section Runs

variable (step : σ → ι → Except ε σ) (guard : σ → ι → Prop)

def Next (s s' : σ) : Prop := ∃ a, guard s a ∧ step s a = .ok s'

def Reaches : σ → σ → Prop := Relation.ReflTransGen (Next step guard)

variable {step guard} {s s' : σ}

theorem Reaches.invariant {P : σ → Prop}
    (keeps : ∀ s a s', guard s a → step s a = .ok s' → P s → P s') (run : Reaches step guard s s')
    (init : P s) : P s' := by
  induction run with
  | refl => exact init
  | tail _ next ih =>
    obtain ⟨a, hg, hs⟩ := next
    exact keeps _ a _ hg hs ih

/-- If every step that the guard allows succeeds and keeps `P`, every state that is reached has
it. -/
theorem Reaches.invariant_of_total {P : σ → Prop}
    (total : ∀ s a, guard s a → P s → ∃ s', step s a = .ok s' ∧ P s')
    (run : Reaches step guard s s')
    (init : P s) : P s' := by
  refine run.invariant (fun s a s' hg hs hP => ?_) init
  obtain ⟨t, ht, hPt⟩ := total s a hg hP
  rw [hs] at ht
  cases ht
  exact hPt

theorem Reaches.of_foldlM {l : List ι} (hg : ∀ a ∈ l, ∀ s, guard s a)
    (h : l.foldlM step s = .ok s') : Reaches step guard s s' := by
  induction l generalizing s with
  | nil =>
    cases h
    exact .refl
  | cons a l ih =>
    obtain ⟨t, hs, h⟩ := exists_ok_of_bind h
    exact .head ⟨a, hg a mem_cons_self s, hs⟩
      (ih (fun b hb => hg b (mem_cons_of_mem _ hb)) h)

theorem Reaches.exists_of_foldlM {P : σ → Prop} {l : List ι} (hg : ∀ a ∈ l, ∀ s, guard s a)
    (h : ∃ s', l.foldlM step s = .ok s' ∧ P s') : ∃ s', Reaches step guard s s' ∧ P s' :=
  h.imp fun _ hs => ⟨.of_foldlM hg hs.1, hs.2⟩

theorem Reaches.of_foldlM_checked [∀ s a, Decidable (guard s a)] {l : List ι} {e : ε}
    (h : l.foldlM (fun s a => if guard s a then step s a else .error e) s = .ok s') :
    Reaches step guard s s' := by
  induction l generalizing s with
  | nil =>
    cases h
    exact .refl
  | cons a l ih =>
    rw [foldlM_cons] at h
    obtain ⟨t, hs, h⟩ := exists_ok_of_bind h
    split at hs
    · rename_i hg
      exact .head ⟨a, hg, hs⟩ (ih h)
    · cases hs

theorem Reaches.exists_of_checked [∀ s a, Decidable (guard s a)] {P : σ → Prop} {l : List ι} {e : ε}
    (h : ∃ s', l.foldlM (fun s a => if guard s a then step s a else .error e) s = .ok s' ∧ P s') :
    ∃ s', Reaches step guard s s' ∧ P s' :=
  h.imp fun _ hs => ⟨.of_foldlM_checked hs.1, hs.2⟩

end Runs

end XenVmi.Lib
