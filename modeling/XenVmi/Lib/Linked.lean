import Mathlib.Data.List.Range
import Mathlib.Data.List.Nodup

/-!
# Lists linked through a table

`Linked next nil l`: the cells of `l` are chained in order by the table `next`, and the last one
leads to `nil`. The rules say how a list survives writes to the table. `DLinked` has links in both
directions.
-/

namespace XenVmi.Lib

open List

/-- A write that keeps what `g` reads of a cell. -/
theorem apply_update_of_eq {α β γ : Type*} [DecidableEq α] {f : α → β} {a : α} {b : β} (g : β → γ)
    (h : g b = g (f a)) : ∀ x, g (Function.update f a b x) = g (f x) :=
  (Function.forall_update_iff f fun x v => g v = g (f x)).2 ⟨h, fun _ _ => rfl⟩

variable {α : Type*} {next next' : α → α} {nil : α} {l : List α}

/-- The cells of `l` are chained by `next`, and the last one leads to `nil`. -/
def Linked (next : α → α) (nil : α) : List α → Prop
  | [] => True
  | a :: l => next a = l.headD nil ∧ Linked next nil l

theorem Linked.congr (h : Linked next nil l) (same : ∀ a ∈ l, next' a = next a) :
    Linked next' nil l := by
  induction l with
  | nil => trivial
  | cons a l ih =>
    obtain ⟨hnext, hl⟩ := h
    refine ⟨?_, ih hl fun b hb => same b (mem_cons_of_mem a hb)⟩
    rw [same a mem_cons_self, hnext]

theorem Linked.concat {t b : α} (h : Linked next nil (l ++ [t])) (same : ∀ a ∈ l, next' a = next a)
    (last : next' t = b) (stop : next' b = nil) : Linked next' nil (l ++ [t] ++ [b]) := by
  induction l with
  | nil => exact ⟨last, stop, trivial⟩
  | cons a l ih =>
    obtain ⟨hnext, hl⟩ := h
    refine ⟨?_, ih hl fun c hc => same c (mem_cons_of_mem a hc)⟩
    rw [same a mem_cons_self, hnext]
    cases l <;> rfl

theorem linked_block {next : ℕ → ℕ} {nil a n : ℕ} {l : List ℕ} (h : Linked next nil l)
    (block : ∀ i < n, next (a + i) = a + i + 1) (last : next (a + n) = l.headD nil) :
    Linked next nil (List.range' a (n + 1) ++ l) := by
  induction n generalizing a with
  | zero => exact ⟨last, h⟩
  | succ n ih =>
    refine ⟨?_, ih (fun i hi => ?_) ?_⟩
    · exact block 0 (Nat.succ_pos n)
    · have := block (i + 1) (by omega)
      rwa [← Nat.add_assoc, Nat.add_right_comm] at this
    · rw [← last]
      congr 1
      omega

theorem Linked.remove {x : α} {l₁ l₂ : List α} (h : Linked next nil (l₁ ++ x :: l₂))
    (last : ∀ a ∈ l₁.getLast?, next' a = next x) (init : ∀ a ∈ l₁.dropLast, next' a = next a)
    (rest : ∀ a ∈ l₂, next' a = next a) : Linked next' nil (l₁ ++ l₂) := by
  induction l₁ with
  | nil => exact Linked.congr h.2 rest
  | cons a l ih =>
    obtain ⟨hnext, hl⟩ := h
    cases l with
    | nil => exact ⟨(last a rfl).trans hl.1, hl.2.congr rest⟩
    | cons b l =>
      refine ⟨?_, ih hl (fun c hc => last c hc) fun c hc => init c (mem_cons_of_mem a hc)⟩
      rw [init a mem_cons_self, hnext]
      rfl

/-! ## Links in both directions -/

variable {prev prev' : α → α}

/-- The cells of `l` are chained by `next`, and in reverse by `prev`. -/
structure DLinked (next prev : α → α) (nil : α) (l : List α) : Prop where
  forward : Linked next nil l
  backward : Linked prev nil l.reverse

theorem DLinked.congr (h : DLinked next prev nil l) (hnext : ∀ a ∈ l, next' a = next a)
    (hprev : ∀ a ∈ l, prev' a = prev a) : DLinked next' prev' nil l :=
  ⟨h.forward.congr hnext, h.backward.congr fun a ha => hprev a (mem_reverse.1 ha)⟩

theorem Linked.next_eq {x : α} {l₁ l₂ : List α} (h : Linked next nil (l₁ ++ x :: l₂)) :
    next x = l₂.headD nil := by
  induction l₁ with
  | nil => exact h.1
  | cons a l ih => exact ih h.2

theorem DLinked.prev_eq {x : α} {l₁ l₂ : List α} (h : DLinked next prev nil (l₁ ++ x :: l₂)) :
    prev x = l₁.getLastD nil := by
  have hback := h.backward
  rw [reverse_append, reverse_cons, append_assoc, singleton_append] at hback
  rw [hback.next_eq, headD_eq_head?_getD, List.head?_reverse, getLastD_eq_getLast?]

theorem DLinked.cons {x : α} (h : DLinked next prev nil l) (hx : next' x = l.headD nil)
    (hnext : ∀ a ∈ l, next' a = next a) (hnil : prev' x = nil) (hhead : ∀ a ∈ l.head?, prev' a = x)
    (hrest : ∀ a ∈ l.tail, prev' a = prev a) : DLinked next' prev' nil (x :: l) := by
  refine ⟨⟨hx, h.forward.congr hnext⟩, ?_⟩
  cases l with
  | nil => exact ⟨hnil, trivial⟩
  | cons a l =>
    rw [reverse_cons, reverse_cons]
    have hback := h.backward
    rw [reverse_cons] at hback
    exact hback.concat (fun b hb => hrest b (mem_reverse.1 hb)) (hhead a rfl) hnil

theorem DLinked.remove {x : α} {l₁ l₂ : List α} (h : DLinked next prev nil (l₁ ++ x :: l₂))
    (hlast : ∀ a ∈ l₁.getLast?, next' a = next x) (hinit : ∀ a ∈ l₁.dropLast, next' a = next a)
    (hafter : ∀ a ∈ l₂, next' a = next a) (hhead : ∀ a ∈ l₂.head?, prev' a = prev x)
    (htail : ∀ a ∈ l₂.tail, prev' a = prev a) (hbefore : ∀ a ∈ l₁, prev' a = prev a) :
    DLinked next' prev' nil (l₁ ++ l₂) := by
  refine ⟨h.forward.remove hlast hinit hafter, ?_⟩
  have hback := h.backward
  rw [reverse_append, reverse_cons, append_assoc] at hback
  rw [reverse_append]
  refine hback.remove (fun a ha => hhead a ?_) (fun a ha => htail a ?_) fun a ha =>
    hbefore a (mem_reverse.1 ha)
  · rwa [List.getLast?_reverse] at ha
  · rwa [dropLast_reverse, mem_reverse] at ha

/-! A cell of a list without repetitions knows its neighbours. -/

section Neighbours

variable {x : α} {l₁ l₂ : List α} (h : DLinked next prev nil (l₁ ++ x :: l₂))

include h

theorem DLinked.prev_mem (hne : prev x ≠ nil) : l₁.getLast? = some (prev x) := by
  rw [h.prev_eq, getLastD_eq_getLast?] at hne ⊢
  cases hlast : l₁.getLast? with
  | none => rw [hlast] at hne; exact absurd rfl hne
  | some a => rfl

theorem DLinked.next_mem (hne : next x ≠ nil) : l₂.head? = some (next x) := by
  rw [h.forward.next_eq, headD_eq_head?_getD] at hne ⊢
  cases hhead : l₂.head? with
  | none => rw [hhead] at hne; exact absurd rfl hne
  | some a => rfl

theorem DLinked.eq_nil (hnil : nil ∉ l₁) (heq : prev x = nil) : l₁ = [] := by
  cases hlast : l₁.getLast? with
  | none => exact List.getLast?_eq_none_iff.1 hlast
  | some a =>
    rw [h.prev_eq, getLastD_eq_getLast?, hlast] at heq
    exact absurd (heq ▸ mem_of_getLast? hlast) hnil

omit h

variable [DecidableEq α]

theorem DLinked.unlink (h : DLinked next prev nil (l₁ ++ x :: l₂)) (hnd : (l₁ ++ x :: l₂).Nodup)
    (hnil : nil ∉ l₁ ++ x :: l₂)
    (hnext : ∀ a, next' a = if prev x ≠ nil ∧ a = prev x then next x else next a)
    (hprev : ∀ a, prev' a = if next x ≠ nil ∧ a = next x then prev x else prev a) :
    DLinked next' prev' nil (l₁ ++ l₂) := by
  rw [nodup_append, nodup_cons] at hnd
  obtain ⟨hnd₁, ⟨-, hnd₂⟩, hdisj⟩ := hnd
  rw [mem_append, mem_cons, not_or, not_or] at hnil
  obtain ⟨hnil₁, -, hnil₂⟩ := hnil
  refine h.remove (fun a ha => ?_) (fun a ha => ?_) (fun a ha => ?_) (fun a ha => ?_)
    (fun a ha => ?_) fun a ha => ?_
  · have heq : prev x = a := by rw [h.prev_eq, getLastD_eq_getLast?, ha]; rfl
    rw [hnext, if_pos ⟨fun hx => hnil₁ (hx ▸ heq ▸ mem_of_getLast? ha), heq.symm⟩]
  · rw [hnext, if_neg]
    rintro ⟨hne, rfl⟩
    rw [← dropLast_append_getLast? _ (h.prev_mem hne), nodup_append] at hnd₁
    exact hnd₁.2.2 _ ha _ (mem_singleton_self _) rfl
  · rw [hnext, if_neg]
    rintro ⟨hne, rfl⟩
    exact hdisj _ (mem_of_getLast? (h.prev_mem hne)) _ (mem_cons_of_mem _ ha) rfl
  · have heq : next x = a := by rw [h.forward.next_eq, headD_eq_head?_getD, ha]; rfl
    rw [hprev, if_pos ⟨fun hx => hnil₂ (hx ▸ heq ▸ mem_of_head? ha), heq.symm⟩]
  · rw [hprev, if_neg]
    rintro ⟨hne, rfl⟩
    have hhead := h.next_mem hne
    cases l₂ with
    | nil => cases ha
    | cons b l₂ =>
      rw [List.head?_cons, Option.some.injEq] at hhead
      rw [nodup_cons, hhead] at hnd₂
      exact hnd₂.1 ha
  · rw [hprev, if_neg]
    rintro ⟨hne, rfl⟩
    exact hdisj _ ha _ (mem_cons_of_mem _ (mem_of_head? (h.next_mem hne))) rfl

theorem DLinked.unlink_head (h : DLinked next prev nil (l₁ ++ x :: l₂))
    (hnil : nil ∉ l₁ ++ x :: l₂) :
    (l₁ ++ l₂).headD nil = if prev x = nil then next x else (l₁ ++ x :: l₂).headD nil := by
  rw [mem_append, not_or] at hnil
  split
  · rename_i heq
    rw [h.eq_nil hnil.1 heq, h.forward.next_eq, nil_append]
  · rename_i hne
    have hlast := h.prev_mem hne
    cases l₁ with
    | nil => cases hlast
    | cons a l => rfl

end Neighbours

end XenVmi.Lib
