import XenVmi.TimerQueue.Entries

/-!
# The operations on one timer

The operations keep the queues in order (`Good`) and change no record but that of their timer. If
the timer is in a queue afterwards, the softirq of its CPU is pending, or another timer there does
not expire later.
-/

namespace XenVmi.TimerQueue

open Function XenVmi.Lib State

variable {s s' s'' : State} {t x c : ℕ} {r r' : Timer}

structure Good (s : State) : Prop where
  inv : Inv s ∅
  home : ∀ t, s.status t ≠ .invalid → s.status t ≠ .killed → s.present (s.cpu t) = true
  killed : ∀ t, s.status t = .killed → s.cpu t = cpuKilled
  present_lt : ∀ c, s.present c = true → c < cpuKilled

/-- The record of `t` is `r` now, and softirqs may have been raised. -/
structure Turns (s s' : State) (t : ℕ) (r : Timer) : Prop where
  timer : s'.timer = update s.timer t r
  pending : ∀ c, s.softirqPending c = true → s'.softirqPending c = true
  deadline : s'.timerDeadline = s.timerDeadline
  phase : s'.phase = s.phase
  present : s'.present = s.present

theorem Rewrites.turns (h : Rewrites s s' t r) : Turns s s' t r :=
  ⟨h.timer, fun c hc => by rw [h.pending, hc], h.deadline, h.phase, h.present⟩

theorem Turns.trans (h : Turns s s' t r) (h' : Turns s' s'' t r') : Turns s s'' t r' where
  timer := by rw [h'.timer, h.timer, update_idem]
  pending c hc := h'.pending c (h.pending c hc)
  deadline := h'.deadline.trans h.deadline
  phase := h'.phase.trans h.phase
  present := h'.present.trans h.present

theorem Turns.refl : Turns s s t (s.timer t) :=
  ⟨(update_eq_self t s.timer).symm, fun _ h => h, rfl, rfl, rfl⟩

theorem Turns.self (h : Turns s s' t r) : s'.timer t = r := by rw [h.timer, update_self]

theorem Turns.other (h : Turns s s' t r) (hx : x ≠ t) : s'.timer x = s.timer x := by
  rw [h.timer, update_of_ne hx]

theorem queued_of_timer_eq (h : s'.timer x = s.timer x) : s'.Queued c x ↔ s.Queued c x := by
  unfold State.Queued State.status State.cpu
  rw [h]

theorem expires_of_timer_eq (h : s'.timer x = s.timer x) : s'.expires x = s.expires x := by
  rw [State.expires, h, State.expires]

theorem notify_turns (s : State) (t c : ℕ) (head : Bool) :
    Turns s (s.notify c head) t (s.timer t) := by
  unfold State.notify
  split
  · refine ⟨(update_eq_self t s.timer).symm, fun c' hc => ?_, rfl, rfl, rfl⟩
    show update s.softirqPending c true c' = true
    rw [update_apply]
    split
    · rfl
    · exact hc
  · exact Turns.refl

theorem notify_inv {L : Set ℕ} (inv : Inv s L) (head : Bool) : Inv (s.notify c head) L := by
  unfold State.notify
  split
  · exact inv.of_queues rfl rfl rfl
  · exact inv

/-! ## Parts of the operations -/

theorem diff_limbo : insert t (∅ : Set ℕ) \ {t} = ∅ := by simp

theorem Inv.deactivateTimer (inv : Inv s ∅) (hst : s.status t = .inHeap ∨ s.status t = .inList) :
    ∃ s', s.deactivateTimer t = .ok s' ∧ Inv s' ∅ ∧
      Turns s s' t { s.timer t with status := .inactive } := by
  obtain ⟨r, hr, hinv, hrw⟩ := inv.removeEntry (Set.notMem_empty t) hst
  have hn := notify_turns r.1 t (s.cpu t) r.2
  have hself : ((r.1.notify (s.cpu t) r.2).setStatus t .inactive).timer t =
      { s.timer t with status := .inactive } := by
    rw [State.setStatus, timer_setTimer, hn.self, hrw.self]
  unfold State.deactivateTimer
  rw [hr, ok_bind]
  refine ⟨_, rfl, ?_, ?_⟩
  · rw [← diff_limbo (t := t)]
    refine Inv.addInactive ((notify_inv hinv r.2).setStatus (Set.mem_insert t ∅) .inactive)
      (Set.mem_insert t ∅) ?_ ?_
    · rw [State.status, hself]
    · rw [State.cpu, hself, State.cpu]
  · refine (hrw.turns.trans hn).trans ⟨?_, fun _ h => h, rfl, rfl, rfl⟩
    show update (r.1.notify (s.cpu t) r.2).timer t
      { (r.1.notify (s.cpu t) r.2).timer t with status := .inactive } = _
    rw [hn.self, hrw.self]

theorem delInactive_setStatus (st : Status) :
    (s.setStatus t st).delInactive t = (s.delInactive t).setStatus t st := by
  have hcpu : (s.setStatus t st).cpu t = s.cpu t := by
    rw [State.setStatus, State.cpu, timer_setTimer]
    rfl
  unfold State.delInactive
  rw [hcpu]
  rfl

theorem Inv.activateTimer (inv : Inv s ∅) (hst : s.status t = .inactive) :
    ∃ s', s.activateTimer t = .ok s' ∧ Inv s' ∅ ∧
      (∃ st, (st = .inHeap ∨ st = .inList) ∧ Turns s s' t { s.timer t with status := st }) ∧
      (s'.softirqPending (s.cpu t) = true ∨
        ∃ y ≠ t, s.Queued (s.cpu t) y ∧ s.expires y ≤ s.expires t) := by
  unfold State.activateTimer
  rw [if_neg (not_not.2 hst), delInactive_setStatus]
  have hinv₁ := (inv.delInactive hst).setStatus (Set.mem_insert t ∅) .invalid
  set s₁ := (s.delInactive t).setStatus t .invalid with hs₁
  have hrw : Rewrites s s₁ t { s.timer t with status := .invalid } := ⟨rfl, rfl, rfl, rfl, rfl⟩
  have hst₁ : s₁.status t = .invalid := by rw [State.status, hrw.self]
  obtain ⟨r, hr, hadd⟩ := hinv₁.addEntry (Set.mem_insert t ∅) hst₁
  rw [hr, ok_bind]
  have hn := notify_turns r.1 t (s.cpu t) r.2
  refine ⟨_, rfl, ?_, ?_, ?_⟩
  · rw [← diff_limbo (t := t)]
    exact notify_inv hadd.inv r.2
  · obtain ⟨st, hst, h⟩ := hadd.exists_rewrites
    have := (hrw.turns.trans h.turns).trans hn
    rw [h.self, hrw.self] at this
    exact ⟨st, hst, this⟩
  · cases hhead : r.2 with
    | true => exact .inl (update_self _ _ _)
    | false =>
      obtain ⟨y, hyt, hy, hle⟩ := hadd.covered hhead
      rw [queued_of_timer_eq (hrw.other hyt)] at hy
      rw [expires_of_timer_eq (hrw.other hyt), State.expires, State.expires, hrw.self] at hle
      rw [State.cpu, hrw.self] at hy
      exact .inr ⟨y, hyt, hy, hle⟩

/-- The expiry time of a timer that is in no queue may change. -/
theorem Inv.setExpires {L : Set ℕ} (inv : Inv s L) (hin : s.status t = .inactive) (e : ℤ) :
    Inv (s.setTimer t { s.timer t with expires := e }) L := by
  have hexp : ∀ x, s.status x ≠ .inactive →
      (s.setTimer t { s.timer t with expires := e }).expires x = s.expires x := fun x hx =>
    congrArg Timer.expires (update_of_ne (fun h : x = t => hx (h ▸ hin)) _ _)
  have hrec : ∀ x, (s.setTimer t { s.timer t with expires := e }).status x = s.status x ∧
      (s.setTimer t { s.timer t with expires := e }).cpu x = s.cpu x := fun x => by
    unfold State.status State.cpu
    by_cases hx : x = t
    · rw [hx, timer_setTimer]
      exact ⟨rfl, rfl⟩
    · rw [timer_setTimer_of_ne _ _ hx]
      exact ⟨rfl, rfl⟩
  refine { inv with
    heap := fun c => (inv.heap c).congr (fun _ _ _ => rfl) (fun _ _ => rfl) fun x hx => hexp x ?_
    sorted := fun c => (inv.sorted c).imp_of_mem fun ha hb hab => ?_
    heap_mem := fun c x => by rw [(hrec x).1, (hrec x).2]; exact inv.heap_mem c x
    list_mem := fun c x => by rw [(hrec x).1, (hrec x).2]; exact inv.list_mem c x
    inactive_mem := fun c x => by rw [(hrec x).1, (hrec x).2]; exact inv.inactive_mem c x }
  · rw [((inv.heap_mem c x).1 hx).1]
    decide
  · rw [hexp _ (by rw [((inv.list_mem c _).1 ha).1]; decide),
      hexp _ (by rw [((inv.list_mem c _).1 hb).1]; decide)]
    exact hab

theorem Inv.quiesce (inv : Inv s ∅)
    (hst : s.status t = .inactive ∨ s.status t = .inHeap ∨ s.status t = .inList) :
    ∃ s', s.quiesce t = .ok s' ∧ Inv s' ∅ ∧
      Turns s s' t { s.timer t with status := .inactive } := by
  unfold State.quiesce State.activeTimer
  by_cases hactive : s.status t = .inHeap ∨ s.status t = .inList
  · rw [if_pos (decide_eq_true hactive)]
    exact inv.deactivateTimer hactive
  rw [if_neg (by simpa using hactive)]
  refine ⟨s, rfl, inv, ?_⟩
  have hself : s.timer t = { s.timer t with status := .inactive } := by
    have hin : (s.timer t).status = .inactive := hst.resolve_right hactive
    rw [← hin]
  rw [← hself]
  exact Turns.refl

/-! ## The operations -/

structure Worked (s s' : State) (t : ℕ) : Prop where
  good : Good s'
  others : ∀ x ≠ t, s'.timer x = s.timer x
  pending : ∀ c, s.softirqPending c = true → s'.softirqPending c = true
  deadline : s'.timerDeadline = s.timerDeadline
  phase : s'.phase = s.phase
  due : ∀ c, s'.Queued c t → s'.softirqPending c = true ∨
    ∃ y ≠ t, s'.Queued c y ∧ s'.expires y ≤ s'.expires t

theorem Good.rewrite (good : Good s) (inv : Inv s' ∅) (htimer : s'.timer = update s.timer t r)
    (hpresent : s'.present = s.present)
    (hhome : r.status ≠ .invalid → r.status ≠ .killed → s.present r.cpu = true)
    (hkilled : r.status = .killed → r.cpu = cpuKilled) : Good s' := by
  have hself : s'.timer t = r := by rw [htimer, update_self]
  have hother : ∀ x ≠ t, s'.status x = s.status x ∧ s'.cpu x = s.cpu x := fun x hx => by
    unfold State.status State.cpu
    rw [htimer, update_of_ne hx]
    exact ⟨rfl, rfl⟩
  refine ⟨inv, fun x hx hx' => ?_, fun x hx => ?_, fun c hc => good.present_lt c (hpresent ▸ hc)⟩
  · rw [hpresent]
    by_cases hxt : x = t
    · subst x
      unfold State.status at hx hx'
      rw [State.cpu, hself]
      rw [hself] at hx hx'
      exact hhome hx hx'
    · rw [(hother x hxt).2]
      rw [(hother x hxt).1] at hx hx'
      exact good.home x hx hx'
  · by_cases hxt : x = t
    · subst x
      rw [State.status, hself] at hx
      rw [State.cpu, hself]
      exact hkilled hx
    · rw [(hother x hxt).2]
      rw [(hother x hxt).1] at hx
      exact good.killed x hx

theorem Good.live (good : Good s) (hst : s.status t ≠ .invalid) (hcpu : s.cpu t ≠ cpuKilled) :
    (s.status t = .inactive ∨ s.status t = .inHeap ∨ s.status t = .inList) ∧
      s.present (s.cpu t) = true := by
  have hk : s.status t ≠ .killed := fun h => hcpu (good.killed t h)
  refine ⟨?_, good.home t hst hk⟩
  revert hst hk
  cases s.status t <;> simp

theorem Worked.none (good : Good s) (ht : ∀ c, ¬ s.Queued c t) : Worked s s t :=
  ⟨good, fun _ _ => rfl, fun _ h => h, rfl, rfl, fun c h => absurd h (ht c)⟩

theorem Good.not_queued (good : Good s) (ht : s.cpu t = cpuKilled) (c : ℕ) : ¬ s.Queued c t := by
  intro h
  have hlive : s.present (s.cpu t) = true := by
    refine good.home t ?_ ?_ <;> rcases h.1 with h | h <;> rw [h] <;> decide
  have := good.present_lt _ hlive
  omega

theorem Turns.not_queued (h : Turns s s' t r) (hr : r.status ≠ .inHeap ∧ r.status ≠ .inList)
    (c : ℕ) :
    ¬ s'.Queued c t := by
  unfold State.Queued State.status
  rw [h.self]
  exact fun hq => hq.1.elim hr.1 hr.2

variable (good : Good s)

include good

theorem Worked.off (inv : Inv s' ∅) (h : Turns s s' t r)
    (hhome : r.status ≠ .invalid → r.status ≠ .killed → s.present r.cpu = true)
    (hkilled : r.status = .killed → r.cpu = cpuKilled)
    (hr : r.status ≠ .inHeap ∧ r.status ≠ .inList) : Worked s s' t :=
  ⟨good.rewrite inv h.timer h.present hhome hkilled, fun _ hx => h.other hx, h.pending,
    h.deadline, h.phase, fun c hq => absurd hq (h.not_queued hr c)⟩

theorem Worked.activate (inv : Inv s' ∅) (h : Turns s s' t r)
    (hst : r.status = .inactive) (hhome : s.present r.cpu = true) :
    ∃ s'', s'.activateTimer t = .ok s'' ∧ Worked s s'' t := by
  have hstatus : s'.status t = .inactive := by rw [State.status, h.self, hst]
  obtain ⟨s'', hs, hinv, ⟨st, hst', ht⟩, hdue⟩ := inv.activateTimer hstatus
  rw [h.self] at ht
  replace ht := h.trans ht
  refine ⟨s'', hs, good.rewrite hinv ht.timer ht.present (fun _ _ => hhome) (fun hk => ?_),
    fun _ hx => ht.other hx, ht.pending, ht.deadline, ht.phase, fun c hq => ?_⟩
  · rcases hst' with rfl | rfl <;> cases hk
  · have hc : s'.cpu t = c := by
      rw [← hq.2, State.cpu, State.cpu, h.self, ht.self]
    rw [hc] at hdue
    refine hdue.imp_right ?_
    rintro ⟨y, hyt, hy, hle⟩
    refine ⟨y, hyt, ?_, ?_⟩
    · rw [queued_of_timer_eq (ht.other hyt)]
      exact (queued_of_timer_eq (h.other hyt)).1 hy
    · rw [expires_of_timer_eq (ht.other hyt), State.expires, State.expires, ht.self]
      rw [expires_of_timer_eq (h.other hyt), State.expires, State.expires, h.self] at hle
      exact hle

theorem initTimer_worked (hst : s.status t = .invalid ∨ s.status t = .killed)
    (hc : s.present c = true) : ∃ s', s.initTimer t c = .ok s' ∧ Worked s s' t := by
  unfold State.initTimer
  have hne : c ≠ cpuKilled := Nat.ne_of_lt (good.present_lt c hc)
  rw [if_neg hne]
  -- a timer that is new or killed is in no structure, so it may as well be in limbo
  have hlimbo : Inv s (insert t ∅) := good.inv.of_unqueued fun x h1 h2 => by
    refine ⟨?_, fun h => absurd h (Set.notMem_empty x)⟩
    rintro (rfl | h)
    · exact absurd hst (not_or.2 ⟨h1, h2⟩)
    · exact h
  have hself := timer_setTimer s t ⟨0, c, .inactive⟩
  refine ⟨_, rfl, Worked.off good (r := ⟨0, c, .inactive⟩) ?_ ⟨rfl, fun _ h => h, rfl, rfl, rfl⟩
    (fun _ _ => hc) nofun ⟨by simp, by simp⟩⟩
  rw [← diff_limbo (t := t)]
  refine (hlimbo.setTimer (Set.mem_insert t ∅) _).addInactive (Set.mem_insert t ∅) ?_ ?_
  · rw [State.status, hself]
  · rw [State.cpu, hself]

theorem setTimerExpiry_worked (hst : s.status t ≠ .invalid) (e : ℤ) :
    ∃ s', s.setTimerExpiry t e = .ok s' ∧ Worked s s' t := by
  unfold State.setTimerExpiry
  split
  · rename_i hk
    exact ⟨s, rfl, .none good (good.not_queued hk)⟩
  rename_i hk
  obtain ⟨hlive, hhome⟩ := good.live hst hk
  obtain ⟨s₁, hs₁, hinv, ht⟩ := good.inv.quiesce hlive
  have hin : s₁.status t = .inactive := by rw [State.status, ht.self]
  rw [hs₁, ok_bind]
  refine Worked.activate good (hinv.setExpires hin e)
    (ht.trans ⟨rfl, fun _ h => h, rfl, rfl, rfl⟩) hin ?_
  show s.present (s₁.timer t).cpu = true
  rw [ht.self]
  exact hhome

theorem stopTimer_worked (hst : s.status t ≠ .invalid) :
    ∃ s', s.stopTimer t = .ok s' ∧ Worked s s' t := by
  unfold State.stopTimer
  split
  · rename_i hk
    exact ⟨s, rfl, .none good (good.not_queued hk)⟩
  · rename_i hk
    obtain ⟨hlive, hhome⟩ := good.live hst hk
    obtain ⟨s₁, hs₁, hinv, ht⟩ := good.inv.quiesce hlive
    exact ⟨s₁, hs₁, .off good hinv ht (fun _ _ => hhome) nofun ⟨by simp, by simp⟩⟩

omit good

theorem Inv.moveInactive (inv : Inv s ∅) (hst : s.status t = .inactive) (new : ℕ) :
    Inv (((s.delInactive t).setTimer t { (s.delInactive t).timer t with cpu := new }).addInactive
      new t) ∅ := by
  have hself : ((s.delInactive t).setTimer t
      { (s.delInactive t).timer t with cpu := new }).timer t = { s.timer t with cpu := new } :=
    update_self _ _ _
  rw [← diff_limbo (t := t)]
  refine ((inv.delInactive hst).setTimer (Set.mem_insert t ∅) _).addInactive
    (Set.mem_insert t ∅) ?_ ?_
  · rw [State.status, hself]
    exact hst
  · rw [State.cpu, hself]

theorem migrateTimer_worked {new : ℕ} (good : Good s) (hst : s.status t ≠ .invalid)
    (hnew : s.present new = true) :
    ∃ s', s.migrateTimer t new = .ok s' ∧
      (s' = s ∧ (s.cpu t = new ∨ s.cpu t = cpuKilled) ∨ s.cpu t ≠ new ∧ Worked s s' t) := by
  unfold State.migrateTimer
  split
  · rename_i hk
    exact ⟨s, rfl, .inl ⟨rfl, hk⟩⟩
  rename_i hk
  rw [not_or] at hk
  obtain ⟨hlive, hhome⟩ := good.live hst hk.2
  obtain ⟨s₁, hs₁, hinv, ht⟩ := good.inv.quiesce hlive
  have hin : s₁.status t = .inactive := by rw [State.status, ht.self]
  have hinv₂ := hinv.moveInactive hin new
  have ht₂ : Turns s (((s₁.delInactive t).setTimer t { (s₁.delInactive t).timer t with
      cpu := new }).addInactive new t) t { s₁.timer t with cpu := new } :=
    ht.trans ⟨rfl, fun _ h => h, rfl, rfl, rfl⟩
  rw [hs₁, ok_bind]
  split
  · obtain ⟨s', hs', hw⟩ := Worked.activate good hinv₂ ht₂ hin hnew
    exact ⟨s', hs', .inr ⟨hk.1, hw⟩⟩
  · refine ⟨_, rfl, .inr ⟨hk.1, .off good hinv₂ ht₂ (fun _ _ => hnew) (fun h => ?_) ?_⟩⟩
    · rw [show s₁.status t = .killed from h] at hin
      cases hin
    · rw [show (s₁.timer t).status = .inactive from hin]
      exact ⟨by decide, by decide⟩

theorem killTimer_worked (good : Good s) (hst : s.status t ≠ .invalid)
    (hrun : (s.timers c).running ≠ some t) : ∃ s', s.killTimer c t = .ok s' ∧ Worked s s' t := by
  unfold State.killTimer
  rw [if_neg hrun]
  split
  · rename_i hk
    exact ⟨s, rfl, .none good (good.not_queued hk)⟩
  rename_i hk
  obtain ⟨hlive, hhome⟩ := good.live hst hk
  obtain ⟨s₁, hs₁, hinv, ht⟩ := good.inv.quiesce hlive
  have hin : s₁.status t = .inactive := by rw [State.status, ht.self]
  rw [hs₁, ok_bind]
  refine ⟨_, rfl, .off good ?_ (ht.trans ⟨rfl, fun _ h => h, rfl, rfl, rfl⟩)
    (fun _ h => absurd rfl h) (fun _ => rfl) ⟨by simp, by simp⟩⟩
  -- killed timers are in no structure, so the timer need not stay in limbo
  have hlimbo := (hinv.delInactive hin).setTimer (Set.mem_insert t ∅)
    { (s₁.delInactive t).timer t with status := .killed, cpu := cpuKilled }
  have hkilled : ((s₁.delInactive t).setTimer t { (s₁.delInactive t).timer t with
      status := .killed, cpu := cpuKilled }).status t = .killed := by
    rw [State.status, timer_setTimer]
  refine hlimbo.of_unqueued fun x _ h2 => ⟨fun h => absurd h (Set.notMem_empty x), ?_⟩
  rintro (rfl | h)
  · exact absurd hkilled h2
  · exact h

end XenVmi.TimerQueue
