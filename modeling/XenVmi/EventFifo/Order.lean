import Mathlib.Tactic.ByContra
import Mathlib.Data.List.Nodup
import XenVmi.Lib.Linked
import XenVmi.Lib.Runs
import XenVmi.EventFifo.Queues

/-!
# FIFO event queues lose and duplicate nothing

`Chains s chain`: `chain q` is the queue `q`, from its head along the LINK fields. An event is
LINKED exactly when it is on the queue that its channel was linked to last. A tail that is out of
date is not LINKED, unless its event was linked again; then `evtchn_fifo_set_pending` has cleared
it.
-/

namespace XenVmi.EventFifo

open Function XenVmi.Lib List

variable {n : ℕ} {s s' : Fifo n} {chain : Queue n → List ℕ} {q : Queue n} {p port : ℕ}

namespace Fifo

def isPending (s : Fifo n) (port : ℕ) : Bool := (s.word port).getLsbD EventFifo.pending
def isMasked (s : Fifo n) (port : ℕ) : Bool := (s.word port).getLsbD masked
def isLinked (s : Fifo n) (port : ℕ) : Bool := (s.word port).getLsbD linked
def link (s : Fifo n) (port : ℕ) : ℕ := linkOf (s.word port)

end Fifo

structure Chains (s : Fifo n) (chain : Queue n → List ℕ) : Prop where
  head : ∀ q, s.head q = (chain q).headD 0
  linked : ∀ q, Linked s.link 0 (chain q)
  nodup : ∀ q, (chain q).Nodup
  mem : ∀ q p, p ∈ chain q ↔ s.isLinked p = true ∧ s.oldQueue p = q
  tail : ∀ q, chain q ≠ [] → (chain q).getLast? = some (s.tail q)
  oldQueue_tail : ∀ q, s.tail q ≠ 0 → s.oldQueue (s.tail q) = q
  real : ∀ p, s.isLinked p = true → p ≠ 0 ∧ p < s.numEvtchns
  bare : ∀ p, s.isLinked p = false → s.link p = 0

/-! ## Calls that leave the queues alone -/

/-- Same queues: the same words are LINKED to the same events, with the same heads and tails. -/
structure SameQueues (s s' : Fifo n) : Prop where
  numEvtchns : s'.numEvtchns = s.numEvtchns
  isLinked : ∀ p, s'.isLinked p = s.isLinked p
  link : ∀ p, s'.link p = s.link p
  oldQueue : ∀ p, s'.oldQueue p = s.oldQueue p
  head : s'.head = s.head
  tail : s'.tail = s.tail
  controlBlock : s'.controlBlock = s.controlBlock

theorem SameQueues.refl : SameQueues s s :=
  ⟨rfl, fun _ => rfl, fun _ => rfl, fun _ => rfl, rfl, rfl, rfl⟩

theorem SameQueues.chains (h : SameQueues s s') (hc : Chains s chain) : Chains s' chain where
  head q := by rw [h.head, hc.head]
  linked q := (hc.linked q).congr fun p _ => h.link p
  nodup := hc.nodup
  mem q p := by rw [h.isLinked, h.oldQueue, hc.mem]
  tail q hq := by rw [h.tail, hc.tail q hq]
  oldQueue_tail q hq := by
    rw [h.tail] at hq ⊢
    rw [h.oldQueue, hc.oldQueue_tail q hq]
  real p hp := by
    rw [h.isLinked] at hp
    rw [h.numEvtchns]
    exact hc.real p hp
  bare p hp := by
    rw [h.isLinked] at hp
    rw [h.link, hc.bare p hp]

variable {w : BitVec 32} {i : ℕ}

theorem sameQueues_setWord (hlinked : w.getLsbD linked = s.isLinked port)
    (hlink : linkOf w = s.link port) : SameQueues s (s.setWord port w) where
  numEvtchns := rfl
  isLinked := apply_update_of_eq (fun v : BitVec 32 => v.getLsbD linked) hlinked
  link := apply_update_of_eq linkOf hlink
  oldQueue _ := rfl
  head := rfl
  tail := rfl
  controlBlock := rfl

theorem sameQueues_setEvtchn {e : Evtchn n}
    (hold : (e.lastVcpuId, e.lastPriority) = s.oldQueue port) :
    SameQueues s (s.setEvtchn port e) where
  numEvtchns := rfl
  isLinked _ := rfl
  link _ := rfl
  oldQueue := apply_update_of_eq (fun e : Evtchn n => (e.lastVcpuId, e.lastPriority)) hold
  head := rfl
  tail := rfl
  controlBlock := rfl

theorem sameQueues_setBit (h : i = pending ∨ i = masked) :
    SameQueues s (s.setWord port (setBit (s.word port) i)) := by
  refine sameQueues_setWord ?_ ?_
  · rw [getLsbD_setBit (by rcases h with rfl | rfl <;> decide)]
    rcases h with rfl | rfl <;> rfl
  · rcases h with rfl | rfl <;> exact linkOf_setBit (by decide) (by decide)

theorem sameQueues_clearBit (h : i = pending ∨ i = masked) :
    SameQueues s (s.setWord port (clearBit (s.word port) i)) := by
  refine sameQueues_setWord ?_ ?_
  · rw [getLsbD_clearBit (by rcases h with rfl | rfl <;> decide)]
    rcases h with rfl | rfl <;> rfl
  · rcases h with rfl | rfl <;> exact linkOf_clearBit (by decide) (by decide)

/-! ## Linking an event -/

theorem Chains.tail_linked (hc : Chains s chain) (hq : chain q ≠ []) :
    s.tail q ≠ 0 ∧ s.isLinked (s.tail q) = true := by
  have hlast : s.tail q ∈ chain q := mem_of_getLast? (hc.tail q hq)
  have hlinked := ((hc.mem q _).1 hlast).1
  exact ⟨(hc.real _ hlinked).1, hlinked⟩

structure Enqueued (s s' : Fifo n) (q : Queue n) (port t : ℕ) : Prop where
  numEvtchns : s'.numEvtchns = s.numEvtchns
  controlBlock : s'.controlBlock = s.controlBlock
  isLinked : ∀ p, s'.isLinked p = (decide (p = port) || s.isLinked p)
  oldQueue : ∀ p, s'.oldQueue p = if p = port then q else s.oldQueue p
  tail : ∀ x, s'.tail x = if x = q then port else if x = s.oldQueue port ∧ s.tail x = port then 0
    else s.tail x
  found : t = if q = s.oldQueue port ∧ s.tail q = port then 0 else s.tail q
  link : ∀ p, s'.link p =
    if (t ≠ 0 ∧ (t = port ∨ s.isLinked t = true)) ∧ p = t then port else s.link p
  head : ∀ x, s'.head x =
    if ¬ (t ≠ 0 ∧ (t = port ∨ s.isLinked t = true)) ∧ x = q then port else s.head x

theorem Enqueued.chains {t : ℕ} (h : Enqueued s s' q port t) (hc : Chains s chain)
    (hport : port ≠ 0 ∧ port < s.numEvtchns) (hbare : s.isLinked port = false) :
    Chains s' (update chain q (chain q ++ [port])) := by
  -- the tail that is found is not the event itself
  have hnot : ∀ x, s.tail x = port → x = s.oldQueue port := fun x hx => by
    rw [← hx, hc.oldQueue_tail x (by rw [hx]; exact hport.1)]
  have ht : t ≠ port := by
    rw [h.found]
    split
    · exact hport.1.symm
    · rename_i hq
      exact fun htail => hq ⟨hnot q htail, htail⟩
  have hout : ∀ x, port ∉ chain x := fun x hx => by
    rw [((hc.mem x port).1 hx).1] at hbare
    cases hbare
  have hfound : t ≠ 0 → t = s.tail q := by
    rw [h.found]
    split
    · exact fun h => absurd rfl h
    · exact fun _ => rfl
  have htail_ne : ∀ x, chain x ≠ [] → s.tail x ≠ port := fun x hx htail => by
    have hl := (hc.tail_linked hx).2
    rw [htail, hbare] at hl
    cases hl
  have hlinkport : s'.link port = 0 := by
    rw [h.link, if_neg (fun hp => ht hp.2.symm), hc.bare port hbare]
  -- a word of another queue is not the tail of this one
  have hother : ∀ x, x ≠ q → ∀ p ∈ chain x, s'.link p = s.link p := by
    intro x hx p hp
    rw [h.link, if_neg]
    rintro ⟨⟨hne, -⟩, rfl⟩
    rw [hfound hne] at hp hne
    exact hx (((hc.mem x _).1 hp).2.symm.trans (hc.oldQueue_tail q hne))
  have hlast : chain q ≠ [] → t = s.tail q ∧ t ≠ 0 ∧ s.isLinked t = true := by
    intro hq
    have heq : t = s.tail q := by
      rw [h.found, if_neg (fun hp => htail_ne q hq hp.2)]
    rw [heq]
    exact ⟨rfl, hc.tail_linked hq⟩
  have hempty : chain q = [] → ¬ (t ≠ 0 ∧ (t = port ∨ s.isLinked t = true)) := by
    rintro hq ⟨hne, hp | hl⟩
    · exact ht hp
    · rw [hfound hne] at hl hne
      have hmem := (hc.mem q _).2 ⟨hl, hc.oldQueue_tail q hne⟩
      rw [hq] at hmem
      cases hmem
  refine ⟨fun x => ?_, (forall_update_iff chain fun _ => Linked s'.link 0).2
      ⟨?_, fun x hx => (hc.linked x).congr (hother x hx)⟩,
    (forall_update_iff chain fun _ => List.Nodup).2 ⟨?_, fun x _ => hc.nodup x⟩,
    fun x p => ?_, fun x hx => ?_, fun x hx => ?_, fun p hp => ?_, fun p hp => ?_⟩
  · -- heads
    rw [h.head, update_apply]
    by_cases hx : x = q
    · subst x
      rw [if_pos rfl]
      by_cases hq : chain q = []
      · rw [if_pos ⟨hempty hq, rfl⟩, hq]
        rfl
      · obtain ⟨-, hne, hl⟩ := hlast hq
        rw [if_neg (fun hp => hp.1 ⟨hne, .inr hl⟩), hc.head]
        cases hchain : chain q with
        | nil => exact absurd hchain hq
        | cons a l => rfl
    · rw [if_neg (fun hp => hx hp.2), if_neg hx, hc.head]
  · -- links
    by_cases hq : chain q = []
    · rw [hq]
      exact ⟨hlinkport, trivial⟩
    obtain ⟨htq, hne, hl⟩ := hlast hq
    have hsplit : (chain q).dropLast ++ [t] = chain q := by
      rw [htq]
      exact dropLast_append_getLast? _ (hc.tail q hq)
    have hdrop : t ∉ (chain q).dropLast := by
      have hnd := hc.nodup q
      rw [← hsplit] at hnd
      exact fun hmem => (disjoint_of_nodup_append hnd) hmem mem_cons_self
    rw [← hsplit]
    refine Linked.concat (hsplit ▸ hc.linked q) (fun p hp => ?_) ?_ hlinkport
    · rw [h.link, if_neg]
      rintro ⟨-, rfl⟩
      exact hdrop hp
    · rw [h.link, if_pos ⟨⟨hne, .inr hl⟩, rfl⟩]
  · -- no event twice
    exact nodup_append_comm.1 (nodup_cons.2 ⟨hout q, hc.nodup q⟩)
  · -- members
    rw [h.isLinked, h.oldQueue]
    by_cases hp : p = port
    · subst p
      by_cases hx : x = q
      · simp [hx]
      · simp [hx, hout x, Ne.symm hx]
    · by_cases hx : x = q
      · subst x
        simp [hp, hc.mem]
      · simp [hp, hx, hc.mem]
  · -- tails
    rw [h.tail, update_apply] at *
    by_cases hxq : x = q
    · rw [if_pos hxq, if_pos hxq, List.getLast?_concat]
    · rw [if_neg hxq] at hx ⊢
      rw [if_neg hxq, if_neg (fun hp => htail_ne x hx hp.2), hc.tail x hx]
  · rw [h.tail] at hx ⊢
    rw [h.oldQueue]
    by_cases hxq : x = q
    · rw [if_pos hxq, if_pos rfl, hxq]
    · rw [if_neg hxq] at hx ⊢
      split at hx
      · exact absurd rfl hx
      · rename_i hold
        rw [if_neg hold, if_neg (fun htail => hold ⟨hnot x htail, htail⟩), hc.oldQueue_tail x hx]
  · rw [h.isLinked, Bool.or_eq_true, decide_eq_true_iff] at hp
    rw [h.numEvtchns]
    rcases hp with rfl | hp
    · exact hport
    · exact hc.real p hp
  · rw [h.isLinked, Bool.or_eq_false_iff, decide_eq_false_iff_not] at hp
    rw [h.link, if_neg, hc.bare p hp.2]
    rintro ⟨⟨-, htp | hl⟩, rfl⟩
    · exact hp.1 htp
    · rw [hp.2] at hl
      cases hl

section Enqueue

variable {old : Queue n}

theorem Fifo.dropTail_eq : s.dropTail old port =
    { s with tail := fun x => if x = old ∧ s.tail x = port then 0 else s.tail x } := by
  unfold Fifo.dropTail
  split
  · congr 1
    funext x
    by_cases hx : x = old
    · simp_all
    · simp [hx]
  rename_i htail
  have hkeep : (fun x => if x = old ∧ s.tail x = port then 0 else s.tail x) = s.tail := by
    funext x
    rw [if_neg]
    rintro ⟨rfl, hx⟩
    exact htail hx
  rw [hkeep]

theorem Fifo.moveTo_spec (hq : q = s.queueOf port) (hold : old = s.oldQueue port) :
    ∃ evtchn, s.moveTo old q port = { s with evtchn } ∧
      ∀ p, ({ s with evtchn } : Fifo n).oldQueue p = if p = port then q else s.oldQueue p := by
  unfold Fifo.moveTo
  split
  · refine ⟨_, rfl, fun p => ?_⟩
    unfold Fifo.oldQueue
    simp only [update_apply]
    split
    · exact hq.symm
    · rfl
  rename_i hsame
  refine ⟨s.evtchn, rfl, fun p => ?_⟩
  split
  · subst p
    rw [← not_not.1 hsame, hold]
  · rfl

theorem Fifo.linkTail_spec (hport : port < 2 ^ linkBits) :
    ∃ word, (s.linkTail q port).1 = { s with word } ∧
      ((s.linkTail q port).2 = true ↔ s.tail q ≠ 0 ∧ s.isLinked (s.tail q) = true) ∧
      (∀ p j, linkBits ≤ j → j ≠ busy → (word p).getLsbD j = (s.word p).getLsbD j) ∧
      ∀ p, linkOf (word p) =
        if (s.tail q ≠ 0 ∧ s.isLinked (s.tail q) = true) ∧ p = s.tail q then port
        else s.link p := by
  unfold Fifo.linkTail
  split
  · rename_i htail
    cases hl : s.isLinked (s.tail q) with
    | true =>
      refine ⟨_, rfl, ?_, fun p j hj hne => ?_, fun p => ?_⟩
      · rw [setLink_of_linked hl]
        simp [htail]
      · rw [setLink_of_linked hl]
        exact apply_update_of_eq (fun v : BitVec 32 => v.getLsbD j) (getLsbD_relink hport hj hne) p
      · rw [setLink_of_linked hl, update_apply]
        by_cases hp : p = s.tail q
        · rw [if_pos hp, if_pos ⟨⟨htail, rfl⟩, hp⟩, linkOf_relink hport]
        · rw [if_neg hp, if_neg (fun h => hp h.2)]
          rfl
    | false =>
      refine ⟨s.word, ?_, ?_, fun _ _ _ _ => rfl, fun p => ?_⟩
      · rw [setLink_of_not_linked hl]
        simp [Fifo.setWord]
      · rw [setLink_of_not_linked hl]
        simp
      · rw [if_neg (fun h => by cases h.1.2)]
        rfl
  · rename_i htail
    refine ⟨s.word, rfl, ?_, fun _ _ _ _ => rfl, fun p => ?_⟩
    · simp [not_not.1 htail]
    · rw [if_neg (fun h => htail h.1.1)]
      rfl

theorem Fifo.signal_eq (b : Bool) :
    ∃ ready eventsPending, s.signal q b = { s with ready, eventsPending } := by
  unfold Fifo.signal
  split
  · exact ⟨_, _, rfl⟩
  · exact ⟨s.ready, s.eventsPending, rfl⟩

theorem enqueue_spec (hcb : ∀ v, s.controlBlock v = true) (hport : port < 2 ^ linkBits) :
    (∃ t, Enqueued s (s.enqueue (s.evtchn port).notifyVcpuId port) (s.queueOf port) port t) ∧
      (∀ p, (s.enqueue (s.evtchn port).notifyVcpuId port).isPending p = s.isPending p) ∧
      ∀ p, (s.enqueue (s.evtchn port).notifyVcpuId port).isMasked p = s.isMasked p := by
  have hword : ∀ p j, (update s.word port (setBit (s.word port) linked) p).getLsbD j =
      (decide (p = port ∧ j = linked) || (s.word p).getLsbD j) := by
    intro p j
    rw [update_apply]
    by_cases hp : p = port
    · subst p
      rw [if_pos rfl, getLsbD_setBit (by decide)]
      simp
    · simp [hp]
  have hlink : ∀ p, linkOf (update s.word port (setBit (s.word port) linked) p) =
      s.link p :=
    apply_update_of_eq linkOf (linkOf_setBit (by decide) (by decide))
  let tails : Queue n → ℕ := fun x => if x = s.oldQueue port ∧ s.tail x = port then 0 else s.tail x
  let s₂ : Fifo n := { s.setWord port (setBit (s.word port) linked) with tail := tails }
  have hlinked : ∀ p, s₂.isLinked p = (decide (p = port) || s.isLinked p) := by
    intro p
    refine (hword p linked).trans ?_
    simp [Fifo.isLinked]
  obtain ⟨evtchn, hmove, hold⟩ := Fifo.moveTo_spec (show s.queueOf port = s₂.queueOf port
    from rfl) (show s.oldQueue port = s₂.oldQueue port from rfl)
  obtain ⟨word, htail, hres, hbits, hlinks⟩ := Fifo.linkTail_spec (s := { s₂ with evtchn })
    hport
  have hcond : (tails (s.queueOf port) ≠ 0 ∧ s₂.isLinked (tails (s.queueOf port)) = true) ↔
      tails (s.queueOf port) ≠ 0 ∧
        (tails (s.queueOf port) = port ∨ s.isLinked (tails (s.queueOf port)) = true) := by
    rw [hlinked, Bool.or_eq_true, decide_eq_true_iff]
  have hres' := hres.trans hcond
  generalize hr : (Fifo.linkTail { s₂ with evtchn } (s.queueOf port) port).2 = r at hres'
  obtain ⟨ready, eventsPending, hsignal⟩ := Fifo.signal_eq
    r
  have henq : s.enqueue (s.evtchn port).notifyVcpuId port =
      { ({ s₂ with evtchn, word } : Fifo n).append (s.queueOf port) port r with
        ready, eventsPending } := by
    rw [← hsignal]
    unfold Fifo.enqueue
    rw [if_neg (by rw [hcb]; simp)]
    dsimp only
    rw [Fifo.dropTail_eq]
    let q := s.queueOf port
    let s₃ := s₂.moveTo (s.oldQueue port) q port
    show ((s₃.linkTail q port).1.append q port (s₃.linkTail q port).2).signal q
      (s₃.linkTail q port).2 = _
    simp only [s₃, q]
    rw [hmove, htail, hr]
  rw [henq]
  refine ⟨⟨tails (s.queueOf port), rfl, rfl, fun p => ?_, hold, fun x => ?_, rfl, fun p => ?_,
    fun x => ?_⟩, fun p => ?_, fun p => ?_⟩
  · exact (hbits p linked (by decide) (by decide)).trans (hlinked p)
  · exact update_apply _ _ _ _
  · exact (hlinks p).trans (if_congr (and_congr_left' hcond) rfl (hlink p))
  · show (if r = true then s.head else update s.head _ port) x = _
    by_cases hr' : r = true
    · rw [if_pos hr', if_neg (fun h => h.1 (hres'.1 hr'))]
    · rw [if_neg hr', update_apply]
      by_cases hx : x = s.queueOf port
      · rw [if_pos hx, if_pos ⟨fun h => hr' (hres'.2 h), hx⟩]
      · rw [if_neg hx, if_neg (fun h => hx h.2)]
  · refine (hbits p pending (by decide) (by decide)).trans ((hword p pending).trans ?_)
    simp [Fifo.isPending, show ¬ pending = linked by decide]
  · refine (hbits p masked (by decide) (by decide)).trans ((hword p masked).trans ?_)
    simp [Fifo.isMasked, show ¬ masked = linked by decide]

end Enqueue

/-! ## Raising and unmasking -/

def Fifo.PendingReal (s : Fifo n) : Prop := ∀ p, s.isPending p = true → p ≠ 0 ∧ p < s.numEvtchns

/-- A call that raised or unmasked `port`: it left the queues alone, or linked the event. -/
structure Raised (s s' : Fifo n) (port : ℕ) (chain chain' : Queue n → List ℕ) : Prop where
  chains : Chains s' chain'
  controlBlock : s'.controlBlock = s.controlBlock
  change : chain' = chain ∧ s'.isLinked port = s.isLinked port ∨
    s.isLinked port = false ∧ s'.isLinked port = true ∧
      chain' = update chain (s.queueOf port) (chain (s.queueOf port) ++ [port])
  isPending : ∀ p ≠ port, s'.isPending p = s.isPending p
  isMasked : ∀ p ≠ port, s'.isMasked p = s.isMasked p
  isLinked : ∀ p ≠ port, s'.isLinked p = s.isLinked p
  real : s'.PendingReal
  due : s'.isPending port = true → s'.isMasked port = false → s'.isLinked port = true

theorem SameQueues.raised (h : SameQueues s s') (hc : Chains s chain)
    (hbits : ∀ p ≠ port, s'.isPending p = s.isPending p ∧ s'.isMasked p = s.isMasked p)
    (hreal : s'.PendingReal)
    (hdue : s'.isPending port = true → s'.isMasked port = false → s'.isLinked port = true) :
    Raised s s' port chain chain where
  chains := h.chains hc
  controlBlock := h.controlBlock
  change := .inl ⟨rfl, h.isLinked port⟩
  isPending p hp := (hbits p hp).1
  isMasked p hp := (hbits p hp).2
  isLinked p _ := h.isLinked p
  real := hreal
  due := hdue

theorem isPending_setWord :
    (s.setWord port w).isPending p = if p = port then w.getLsbD pending else s.isPending p := by
  unfold Fifo.isPending Fifo.setWord
  simp only [update_apply]
  split <;> rfl

theorem isMasked_setWord :
    (s.setWord port w).isMasked p = if p = port then w.getLsbD masked else s.isMasked p := by
  unfold Fifo.isMasked Fifo.setWord
  simp only [update_apply]
  split <;> rfl

theorem bits_setWord (s : Fifo n) (port : ℕ) (w : BitVec 32) (p : ℕ) (hp : p ≠ port) :
    (s.setWord port w).isPending p = s.isPending p ∧
    (s.setWord port w).isMasked p = s.isMasked p := by
  rw [isPending_setWord, isMasked_setWord, if_neg hp, if_neg hp]
  exact ⟨rfl, rfl⟩

theorem setPending_raised (hc : Chains s chain) (hcb : ∀ v, s.controlBlock v = true)
    (hreal : s.PendingReal) (hport : port ≠ 0) :
    ∃ chain', Raised s (s.setPending (s.evtchn port).notifyVcpuId port) port chain chain' := by
  unfold Fifo.setPending Fifo.wordFromPort
  by_cases hnum : s.numEvtchns ≤ port
  · -- the page of the word is missing
    rw [if_pos hnum]
    refine ⟨chain, SameQueues.raised ?_ hc (fun _ _ => ⟨rfl, rfl⟩) hreal
      fun hp _ => absurd (hreal port hp).2 (Nat.not_lt.2 hnum)⟩
    exact sameQueues_setEvtchn rfl
  rw [if_neg hnum]
  dsimp only
  have hsame : SameQueues s (s.setWord port (setBit (s.word port) pending)) :=
    sameQueues_setBit (.inl rfl)
  have hbits := bits_setWord s port (setBit (s.word port) pending)
  set s₁ := s.setWord port (setBit (s.word port) pending) with hs₁
  have hreal₁ : s₁.PendingReal := fun p hp => by
    by_cases heq : p = port
    · exact heq ▸ ⟨hport, Nat.not_le.1 hnum⟩
    · rw [(hbits p heq).1] at hp
      exact hreal p hp
  have hmasked : s₁.isMasked port = s.isMasked port := by
    rw [isMasked_setWord, if_pos rfl, getLsbD_setBit (by decide)]
    rfl
  split
  · rename_i hfree
    obtain ⟨⟨t, henq⟩, hpend, hmask⟩ := enqueue_spec (s := s₁) hcb
      (show port < _ from Nat.lt_of_lt_of_le (Nat.not_le.1 hnum) s.fits)
    have hbare : s₁.isLinked port = false := (hsame.isLinked port).trans hfree.2
    have hlinked : (s₁.enqueue (s₁.evtchn port).notifyVcpuId port).isLinked port = true := by
      rw [henq.isLinked]
      simp
    refine ⟨_, henq.chains (hsame.chains hc) ⟨hport, Nat.not_le.1 hnum⟩ hbare, henq.controlBlock,
      .inr ⟨hfree.2, hlinked, rfl⟩, fun p hp => ?_, fun p hp => ?_, fun p hp => ?_, fun p hp => ?_,
      fun _ _ => hlinked⟩
    · exact (hpend p).trans (hbits p hp).1
    · exact (hmask p).trans (hbits p hp).2
    · refine (henq.isLinked p).trans ?_
      rw [hsame.isLinked]
      simp [hp]
    · have := hreal₁ p ((hpend p).symm.trans hp)
      exact ⟨this.1, Nat.lt_of_lt_of_eq this.2 henq.numEvtchns.symm⟩
  · rename_i hfree
    refine ⟨chain, hsame.raised hc hbits hreal₁ fun _ hm => ?_⟩
    rw [hsame.isLinked]
    rw [hmasked] at hm
    by_contra hl
    exact hfree ⟨hm, Bool.eq_false_iff.2 hl⟩

theorem unmask_raised (hc : Chains s chain) (hcb : ∀ v, s.controlBlock v = true)
    (hreal : s.PendingReal) : ∃ chain', Raised s (s.unmask port) port chain chain' := by
  unfold Fifo.unmask Fifo.wordFromPort
  by_cases hnum : s.numEvtchns ≤ port
  · rw [if_pos hnum]
    exact ⟨chain, SameQueues.refl.raised hc (fun _ _ => ⟨rfl, rfl⟩) hreal
      fun hp _ => absurd (hreal port hp).2 (Nat.not_lt.2 hnum)⟩
  rw [if_neg hnum]
  dsimp only
  have hsame : SameQueues s (s.setWord port (clearBit (s.word port) masked)) :=
    sameQueues_clearBit (.inr rfl)
  have hbits := bits_setWord s port (clearBit (s.word port) masked)
  set s₁ := s.setWord port (clearBit (s.word port) masked) with hs₁
  have hpending : ∀ p, s₁.isPending p = s.isPending p := by
    intro p
    by_cases hp : p = port
    · rw [isPending_setWord, if_pos hp, hp, getLsbD_clearBit (by decide)]
      rfl
    · exact (hbits p hp).1
  have hreal₁ : s₁.PendingReal := fun p hp => hreal p ((hpending p).symm.trans hp)
  split
  · rename_i hp
    obtain ⟨chain', h⟩ := setPending_raised (hsame.chains hc) hcb hreal₁ (hreal port hp).1
    refine ⟨chain', h.chains, h.controlBlock, ?_, fun p hp => (h.isPending p hp).trans (hpending p),
      fun p hp => (h.isMasked p hp).trans (hbits p hp).2,
      fun p hp => (h.isLinked p hp).trans (hsame.isLinked p), h.real, h.due⟩
    have hchange := h.change
    rw [hsame.isLinked] at hchange
    exact hchange
  · rename_i hp
    refine ⟨chain, hsame.raised hc hbits hreal₁ fun hp' _ => ?_⟩
    rw [hpending] at hp'
    exact absurd hp' hp

theorem guestPop_eq (hhead : s.head q ≠ 0) : s.guestPop q =
    { s.setWord (s.head q) (clearBit (s.word (s.head q)) linked &&& ~~~linkMask) with
      head := update s.head q (s.link (s.head q)) } :=
  if_neg hhead

theorem guestPop_chains (hc : Chains s chain) (hhead : s.head q ≠ 0) :
    ∃ l, chain q = s.head q :: l ∧ Chains (s.guestPop q) (update chain q l) ∧
      (∀ p, (s.guestPop q).isLinked p = (decide (p ≠ s.head q) && s.isLinked p)) ∧
      (∀ p, (s.guestPop q).isPending p = s.isPending p) ∧
      ∀ p, (s.guestPop q).isMasked p = s.isMasked p := by
  obtain ⟨a, l, hchain⟩ : ∃ a l, chain q = a :: l := by
    cases hq : chain q with
    | nil =>
      rw [hc.head, hq] at hhead
      exact absurd rfl hhead
    | cons a l => exact ⟨a, l, rfl⟩
  obtain rfl : s.head q = a := by rw [hc.head, hchain]; rfl
  have hnd := hc.nodup q
  have hlinks := hc.linked q
  rw [hchain, nodup_cons] at hnd
  rw [hchain] at hlinks
  have hword : ∀ p j, ((s.guestPop q).word p).getLsbD j =
      (decide (¬ (p = s.head q ∧ (j = linked ∨ j < linkBits))) && (s.word p).getLsbD j) := by
    intro p j
    rw [guestPop_eq hhead, Fifo.setWord]
    dsimp only
    rw [update_apply]
    by_cases hp : p = s.head q
    · rw [if_pos hp, BitVec.getLsbD_and, getLsbD_clearBit (by decide), BitVec.getLsbD_not,
        getLsbD_linkMask, hp]
      by_cases hj : j < 32
      · by_cases hlow : j < linkBits
        · simp [hlow]
        · by_cases hl : j = linked <;> simp [hj, hl, hlow]
      · simp [BitVec.getLsbD_of_ge _ j (Nat.le_of_not_lt hj)]
    · simp [hp]
  have hlinked : ∀ p, (s.guestPop q).isLinked p = (decide (p ≠ s.head q) && s.isLinked p) := by
    intro p
    refine (hword p linked).trans ?_
    simp [Fifo.isLinked]
  have hlink : ∀ p, p ≠ s.head q → (s.guestPop q).link p = s.link p := by
    intro p hp
    refine linkOf_congr fun j _ => ?_
    rw [hword]
    simp [hp]
  have hcleared : (s.guestPop q).link (s.head q) = 0 := by
    refine Eq.trans (b := linkOf 0) (linkOf_congr fun j hj => ?_) (by decide)
    rw [hword]
    simp [hj]
  have hpop := guestPop_eq hhead
  have hheads : (s.guestPop q).head = update s.head q (s.link (s.head q)) := by rw [hpop]
  have htail : (s.guestPop q).tail = s.tail := by rw [hpop]; rfl
  have hold : (s.guestPop q).oldQueue = s.oldQueue := by rw [hpop]; rfl
  have hnum : (s.guestPop q).numEvtchns = s.numEvtchns := by rw [hpop]; rfl
  -- the head is on no other queue
  have hmem : s.head q ∈ chain q := by
    rw [hchain]
    exact mem_cons_self
  have hother : ∀ x, x ≠ q → s.head q ∉ chain x := fun x hx h =>
    hx (((hc.mem x _).1 h).2.symm.trans ((hc.mem q _).1 hmem).2)
  refine ⟨l, hchain, ⟨fun x => ?_, (forall_update_iff chain fun _ => Linked (s.guestPop q).link 0).2
      ⟨hlinks.2.congr fun p hp => hlink p fun heq => hnd.1 (heq ▸ hp), fun x hx =>
        (hc.linked x).congr fun p hp => hlink p fun heq => hother x hx (heq ▸ hp)⟩,
    (forall_update_iff chain fun _ => List.Nodup).2 ⟨hnd.2, fun x _ => hc.nodup x⟩,
    fun x p => ?_, fun x hx => ?_, fun x hx => ?_, fun p hp => ?_, fun p hp => ?_⟩, hlinked,
      fun p => ?_,
    fun p => ?_⟩
  · rw [hheads, update_apply, update_apply]
    split
    · exact hlinks.1
    · exact hc.head x
  · rw [hlinked, hold, Bool.and_eq_true, decide_eq_true_iff, and_assoc, ← hc.mem, update_apply]
    by_cases hx : x = q
    · subst x
      rw [if_pos rfl, hchain, mem_cons]
      constructor
      · exact fun hp => ⟨fun heq => hnd.1 (heq ▸ hp), .inr hp⟩
      · exact fun hp => hp.2.resolve_left hp.1
    · rw [if_neg hx]
      exact ⟨fun hp => ⟨fun heq => hother x hx (heq ▸ hp), hp⟩, fun hp => hp.2⟩
  · rw [htail]
    rw [update_apply] at hx ⊢
    by_cases hxq : x = q
    · subst x
      rw [if_pos rfl] at hx ⊢
      rw [← hc.tail q (by rw [hchain]; simp), hchain, List.getLast?_cons,
        List.getLast?_eq_some_getLast hx]
      rfl
    · rw [if_neg hxq] at hx ⊢
      exact hc.tail x hx
  · rw [htail] at hx ⊢
    rw [hold]
    exact hc.oldQueue_tail x hx
  · rw [hlinked, Bool.and_eq_true] at hp
    rw [hnum]
    exact hc.real p hp.2
  · by_cases heq : p = s.head q
    · rw [heq, hcleared]
    · rw [hlinked] at hp
      rw [hlink p heq]
      exact hc.bare p (by simpa [heq] using hp)
  · refine (hword p pending).trans ?_
    simp [Fifo.isPending, show ¬ pending = linked by decide, show ¬ pending < linkBits by decide]
  · refine (hword p masked).trans ?_
    simp [Fifo.isMasked, show ¬ masked = linked by decide, show ¬ masked < linkBits by decide]

/-! ## Steps and runs -/

variable {h : History n}

/-- The queues hold what they were given and have not given back, and an event that is due is on
one, unless the guest took it. -/
structure History.Inv (h : History n) (chain : Queue n → List ℕ) : Prop where
  chains : Chains h.fifo chain
  order : ∀ q, h.links q = h.pops q ++ chain q
  controlBlock : ∀ v, h.fifo.controlBlock v = true
  real : h.fifo.PendingReal
  due : ∀ p, h.fifo.isPending p = true → h.fifo.isMasked p = false →
    h.fifo.isLinked p = true ∨ h.popped p = true

theorem History.Inv.raised {chain' : Queue n → List ℕ} (inv : h.Inv chain)
    (hr : Raised h.fifo s' port chain chain') : (h.raised port s').Inv chain' where
  chains := hr.chains
  order q := by
    show (if h.fifo.isLinked port = false ∧ s'.isLinked port = true then _ else h.links) q = _
    rcases hr.change with ⟨rfl, hsame⟩ | ⟨hbare, hlinked, rfl⟩
    · rw [if_neg (fun hc => by rw [hsame, hc.1] at hc; cases hc.2)]
      exact inv.order q
    rw [if_pos ⟨hbare, hlinked⟩, update_apply, update_apply]
    split
    · rename_i hq
      rw [inv.order, ← hq, append_assoc]
      rfl
    · exact inv.order q
  controlBlock v := by
    show s'.controlBlock v = true
    rw [hr.controlBlock, inv.controlBlock]
  real := hr.real
  due p hp hm := by
    show s'.isLinked p = true ∨ update h.popped port false p = true
    by_cases heq : p = port
    · subst p
      exact .inl (hr.due hp hm)
    · rw [update_of_ne heq, hr.isLinked p heq]
      exact inv.due p ((hr.isPending p heq).symm.trans hp) ((hr.isMasked p heq).symm.trans hm)

theorem History.Inv.same (inv : h.Inv chain) (hs : SameQueues h.fifo s')
    (hpending : ∀ p, s'.isPending p = true → h.fifo.isPending p = true)
    (hmasked : ∀ p, s'.isMasked p = false → h.fifo.isMasked p = false) :
    ({ h with fifo := s' } : History n).Inv chain where
  chains := hs.chains inv.chains
  order := inv.order
  controlBlock v := by
    show s'.controlBlock v = true
    rw [hs.controlBlock, inv.controlBlock]
  real p hp := by
    show p ≠ 0 ∧ p < s'.numEvtchns
    rw [hs.numEvtchns]
    exact inv.real p (hpending p hp)
  due p hp hm := by
    show s'.isLinked p = true ∨ _
    rw [hs.isLinked]
    exact inv.due p (hpending p hp) (hmasked p hm)

theorem History.Inv.setWord (inv : h.Inv chain) (hs : SameQueues h.fifo (h.fifo.setWord port w))
    (hpending : w.getLsbD pending = true → h.fifo.isPending port = true)
    (hmasked : w.getLsbD masked = false → h.fifo.isMasked port = false) :
    ({ h with fifo := h.fifo.setWord port w } : History n).Inv chain :=
  inv.same hs
    ((forall_update_iff h.fifo.word fun p v => v.getLsbD pending = true →
      h.fifo.isPending p = true).2 ⟨hpending, fun _ _ hp => hp⟩)
    ((forall_update_iff h.fifo.word fun p v => v.getLsbD masked = false →
      h.fifo.isMasked p = false).2 ⟨hmasked, fun _ _ hm => hm⟩)

theorem History.Inv.attempt (port : ℕ) {r : Except Errno (Fifo n)} (inv : h.Inv chain)
    (hr : ∀ s', r = .ok s' → ∃ e : Evtchn n, s' = h.fifo.setEvtchn port e ∧
      (e.lastVcpuId, e.lastPriority) = h.fifo.oldQueue port) : (h.attempt r).Inv chain := by
  cases r with
  | error e => exact inv
  | ok s' =>
    obtain ⟨e, rfl, he⟩ := hr s' rfl
    exact inv.same (sameQueues_setEvtchn he) (fun _ hp => hp) (fun _ hm => hm)

theorem History.Inv.guestPop (inv : h.Inv chain) : ∃ chain', (h.step (.guestPop q)).Inv chain' := by
  rw [History.step]
  split
  · exact ⟨chain, inv⟩
  rename_i hhead
  obtain ⟨l, hchain, hc, hlinked, hpending, hmasked⟩ := guestPop_chains inv.chains hhead
  have hpop := guestPop_eq hhead
  have hnum : (h.fifo.guestPop q).numEvtchns = h.fifo.numEvtchns := by rw [hpop]; rfl
  have hcb : (h.fifo.guestPop q).controlBlock = h.fifo.controlBlock := by rw [hpop]; rfl
  refine ⟨_, hc, fun x => ?_, fun v => ?_, fun p hp => ?_, fun p hp hm => ?_⟩
  · show h.links x = update h.pops q (h.pops q ++ [h.fifo.head q]) x ++ _
    rw [update_apply, update_apply, inv.order]
    split
    · subst x
      rw [hchain, append_assoc]
      rfl
    · rfl
  · show (h.fifo.guestPop q).controlBlock v = true
    rw [hcb, inv.controlBlock]
  · show p ≠ 0 ∧ p < (h.fifo.guestPop q).numEvtchns
    rw [hnum]
    exact inv.real p ((hpending p).symm.trans hp)
  · show (h.fifo.guestPop q).isLinked p = true ∨ update h.popped _ true p = true
    rw [hlinked, update_apply]
    by_cases heq : p = h.fifo.head q
    · exact .inr (if_pos heq)
    · simpa [heq] using inv.due p ((hpending p).symm.trans hp) ((hmasked p).symm.trans hm)

theorem step_inv (inv : h.Inv chain) (a : Action n) : ∃ chain', (h.step a).Inv chain' := by
  cases a with
  | setPending port =>
    obtain ⟨chain', hr⟩ := setPending_raised inv.chains inv.controlBlock inv.real port.2
    exact ⟨chain', inv.raised hr⟩
  | unmask port =>
    obtain ⟨chain', hr⟩ := unmask_raised inv.chains inv.controlBlock inv.real
    exact ⟨chain', inv.raised hr⟩
  | clearPending port =>
    rw [History.step, Fifo.clearPending, Fifo.wordFromPort]
    by_cases hnum : h.fifo.numEvtchns ≤ port
    · rw [if_pos hnum]
      exact ⟨chain, inv⟩
    rw [if_neg hnum]
    refine ⟨chain, inv.setWord (sameQueues_clearBit (.inl rfl)) (fun hp => ?_) fun hm => ?_⟩
    · rw [getLsbD_clearBit (by decide)] at hp
      simp at hp
    · rw [getLsbD_clearBit (by decide)] at hm
      exact hm
  | setPriority port priority =>
    refine ⟨chain, inv.attempt port fun s' hs => ?_⟩
    unfold Fifo.setPriority at hs
    split at hs
    · cases hs
    · cases hs
      exact ⟨_, rfl, rfl⟩
  | bindVcpu port vcpu =>
    refine ⟨chain, inv.attempt port fun s' hs => ?_⟩
    unfold Fifo.bindVcpu at hs
    split at hs
    · cases hs
      exact ⟨_, rfl, rfl⟩
    · cases hs
  | guestMask port =>
    rw [History.step, Fifo.guestMask, Fifo.wordFromPort]
    by_cases hnum : h.fifo.numEvtchns ≤ port
    · rw [if_pos hnum]
      exact ⟨chain, inv⟩
    rw [if_neg hnum]
    refine ⟨chain, inv.setWord (sameQueues_setBit (.inr rfl)) (fun hp => ?_) fun hm => ?_⟩
    · rw [getLsbD_setBit (by decide)] at hp
      exact hp
    · rw [getLsbD_setBit (by decide)] at hm
      simp at hm
  | guestPop q => exact inv.guestPop

theorem History.Initial.inv (start : h.Initial) : h.Inv fun _ => [] where
  chains := by
    have hbit : ∀ p j, (h.fifo.word p).getLsbD j = false := fun p j => by
      rw [start.word]
      exact BitVec.getLsbD_zero
    refine ⟨start.head, fun _ => trivial, fun _ => nodup_nil, fun q p => ?_, fun q hq => ?_,
      fun q hq => ?_, fun p hp => ?_, fun p _ => ?_⟩
    · simp [Fifo.isLinked, hbit]
    · exact absurd rfl hq
    · exact absurd (start.tail q) hq
    · rw [Fifo.isLinked, hbit] at hp
      cases hp
    · rw [Fifo.link, start.word]
      decide
  order q := by rw [start.links, start.pops]; rfl
  controlBlock := start.controlBlock
  real p hp := by
    rw [Fifo.isPending, start.word] at hp
    cases hp
  due p hp := by
    rw [Fifo.isPending, start.word] at hp
    cases hp

/-- **The queues lose nothing**: after any calls and anything the guest did, `chain q` holds the
events that were linked to `q` and not taken, in that order; a LINKED event is on one queue, once;
and one that is PENDING and not MASKED is LINKED, unless the guest took it. -/
theorem queues_lose_nothing (start : h.Initial) (actions : List (Action n)) :
    ∃ chain : Queue n → List ℕ,
      (∀ q, 0 ∉ chain q ∧ (actions.foldl History.step h).fifo.head q = (chain q).headD 0 ∧
        Linked (actions.foldl History.step h).fifo.link 0 (chain q) ∧
        ∀ last ∈ (chain q).getLast?, (actions.foldl History.step h).fifo.tail q = last) ∧
      (∀ p, (actions.foldl History.step h).fifo.isLinked p = true →
        ∃ q, (chain q).count p = 1 ∧ ∀ q', p ∈ chain q' → q' = q) ∧
      (∀ q, (actions.foldl History.step h).links q =
        (actions.foldl History.step h).pops q ++ chain q) ∧
      ∀ p, (actions.foldl History.step h).fifo.isPending p = true →
        (actions.foldl History.step h).fifo.isMasked p = false →
        (actions.foldl History.step h).fifo.isLinked p = true ∨
          (actions.foldl History.step h).popped p = true := by
  obtain ⟨chain, inv⟩ := foldl_invariant (fun h : History n => ∃ chain, h.Inv chain)
    (fun h a _ ⟨_, inv⟩ => step_inv inv a) ⟨_, start.inv⟩
  generalize actions.foldl History.step h = h' at inv
  have hc := inv.chains
  refine ⟨chain, fun q => ⟨fun h0 => ?_, hc.head q, hc.linked q, fun last hlast => ?_⟩,
    fun p hp => ?_, inv.order, inv.due⟩
  · exact (hc.real 0 ((hc.mem q 0).1 h0).1).1 rfl
  · have hq : chain q ≠ [] := by
      rintro hq
      rw [hq] at hlast
      cases hlast
    rw [hc.tail q hq] at hlast
    exact Option.some.inj hlast
  · refine ⟨h'.fifo.oldQueue p, ?_, fun q' hq' => ((hc.mem q' p).1 hq').2.symm⟩
    exact count_eq_one_of_mem (hc.nodup _) ((hc.mem _ p).2 ⟨hp, rfl⟩)

def oneVcpu : History 1 where
  fifo :=
    { numEvtchns := 1024
      fits := by decide
      word := fun _ => 0
      evtchn := fun _ => ⟨7, 0, 0, 0, false⟩
      controlBlock := fun _ => true
      head := fun _ => 0
      ready := fun _ => false
      tail := fun _ => 0
      eventsPending := fun _ => false }
  links := fun _ => []
  pops := fun _ => []
  popped := fun _ => false

/-- Port 1 is raised again after the guest took it, and is behind port 2 now. -/
theorem queues_lose_nothing_reraised :
    ∃ chain : Queue 1 → List ℕ, chain (0, 7) = [2, 1] ∧
      ([.setPending ⟨1, by decide⟩, .setPending ⟨2, by decide⟩, .guestPop (0, 7),
        .setPending ⟨1, by decide⟩].foldl History.step oneVcpu).fifo.head (0, 7) = 2 := by
  have start : oneVcpu.Initial := ⟨fun _ => rfl, fun _ => rfl, fun _ => rfl, fun _ => rfl,
    fun _ => rfl, fun _ => rfl⟩
  obtain ⟨chain, hchain, -, horder, -⟩ := queues_lose_nothing start
    [.setPending ⟨1, by decide⟩, .setPending ⟨2, by decide⟩, .guestPop (0, 7),
      .setPending ⟨1, by decide⟩]
  have hqueue : [2, 1] = chain (0, 7) := by
    have hlinks : [1] ++ [2, 1] = [1] ++ chain (0, 7) := horder (0, 7)
    exact append_cancel_left hlinks
  refine ⟨chain, hqueue.symm, ?_⟩
  rfl

end XenVmi.EventFifo
