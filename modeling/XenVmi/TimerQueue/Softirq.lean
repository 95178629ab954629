import XenVmi.TimerQueue.Operations

/-!
# `timer_softirq_action` and CPUs that are removed

One step of the softirq ends in a callback (`Executes`) or at the end of the function (`Leaves`).
When a loop is done, no timer is left that expires before the time that was sampled.
-/

namespace XenVmi.TimerQueue

open Function XenVmi.Lib State List

variable {s s' : State} {L : Set ℕ} {t x c slop : ℕ} {now now' : ℤ} {armed : Bool} {p : Phase}

theorem enterSoftirq_inv (inv : Inv s L) (newheap : Option (ℕ → ℕ)) :
    Inv (s.enterSoftirq c newheap) L := by
  have hsame : Inv ({ s with softirqPending := update s.softirqPending c false }.setPhase c
      .entered) L :=
    inv.of_queues rfl rfl rfl
  cases newheap with
  | none => exact hsame
  | some fresh =>
    unfold State.enterSoftirq
    dsimp only
    split
    · exact hsame
    refine inv.of_limbo (fun _ _ => rfl) (fun c' => ?_) (fun c' => ?_) (fun c' => ?_) fun _ _ => rfl
    · show ((update s.timers c _ c').list = _ ∧ (update s.timers c _ c').inactive = _)
      by_cases hc : c' = c
      · rw [hc, update_self]
        exact ⟨rfl, rfl⟩
      · rw [update_of_ne hc]
        exact ⟨rfl, rfl⟩
    · show ((update s.timers c _ c').size = _ ∧ ∀ i ≤ _, (update s.timers c _ c').heap i = _)
      by_cases hc : c' = c
      · rw [hc, update_self]
        exact ⟨rfl, fun i hi => if_pos (hi.trans (inv.size_le c))⟩
      · rw [update_of_ne hc]
        exact ⟨rfl, fun _ _ => rfl⟩
    · show ((update s.timers c _ c').limit ∈ [0, 15, 255, 4095, 65535] ∧
        (s.timers c').limit ≤ (update s.timers c _ c').limit)
      have hlimit := inv.limit_mem c'
      by_cases hc : c' = c
      · subst c'
        rw [update_self]
        show (((s.timers c).limit + 1) * 16 - 1) % 2 ^ 16 ∈ [0, 15, 255, 4095, 65535] ∧
          (s.timers c).limit ≤ (((s.timers c).limit + 1) * 16 - 1) % 2 ^ 16
        simp only [mem_cons, not_mem_nil, or_false] at hlimit ⊢
        rcases hlimit with h | h | h | h | h <;> rw [h] <;> decide
      · rw [update_of_ne hc]
        exact ⟨hlimit, le_rfl⟩

/-- The timer `t` leaves its queue and its callback is called. -/
structure Executes (s s' : State) (c t : ℕ) (p : Phase) : Prop where
  inv : Inv s' ∅
  queued : s.Queued c t
  timer : s'.timer = update s.timer t { s.timer t with status := .inactive }
  pending : s'.softirqPending = s.softirqPending
  deadline : s'.timerDeadline = s.timerDeadline
  phase : s'.phase = update s.phase c p
  present : s'.present = s.present
  running : (s'.timers c).running = some t

theorem executeTimer_spec {s₁ : State} (inv : Inv s₁ (insert t ∅)) (hq : s.Queued c t)
    (h : QueuesOnly s s₁) : Executes s (s₁.executeTimer c t p) c t p := by
  have hself : (s₁.setStatus t .inactive).timer t = { s₁.timer t with status := .inactive } :=
    timer_setTimer _ _ _
  have hinv := (inv.setStatus (Set.mem_insert t ∅) .inactive).addInactive (c := c)
    (Set.mem_insert t ∅) (by rw [State.status, hself])
    (by rw [State.cpu, hself, h.timer]; exact hq.2)
  rw [diff_limbo] at hinv
  refine ⟨hinv.of_timers (fun _ _ => rfl) (fun c' => ?_) fun _ _ => rfl, hq, ?_, h.pending,
    h.deadline, ?_, h.present, ?_⟩
  · show ∃ running, update _ c _ c' = _
    by_cases hc : c' = c
    · rw [hc, update_self]
      exact ⟨_, rfl⟩
    · rw [update_of_ne hc]
      exact ⟨_, rfl⟩
  · show update s₁.timer t { s₁.timer t with status := .inactive } = _
    rw [h.timer]
  · show update s₁.phase c p = _
    rw [h.phase]
  · simp [State.executeTimer, State.setPhase, State.setTimers]

/-! ## The end -/

def Refiled (s s' : State) (x : ℕ) : Prop :=
  ∃ st, (st = .inHeap ∨ st = .inList) ∧ s'.timer x = { s.timer x with status := st }

theorem refile_spec {l : List ℕ} (inv : Inv s L) (hnd : l.Nodup) (hl : ∀ x ∈ l, x ∈ L) :
    ∃ s', s.refile l = .ok s' ∧ Inv s' (L \ {x | x ∈ l}) ∧ (∀ x ∉ l, s'.timer x = s.timer x) ∧
      (∀ x ∈ l, Refiled s s' x) ∧ s'.softirqPending = s.softirqPending ∧
      s'.timerDeadline = s.timerDeadline ∧ s'.phase = s.phase ∧ s'.present = s.present := by
  induction l generalizing s L with
  | nil =>
    refine ⟨s, rfl, ?_, fun _ _ => rfl, fun x hx => absurd hx not_mem_nil, rfl, rfl, rfl, rfl⟩
    have : L \ {x | x ∈ ([] : List ℕ)} = L := by simp
    rw [this]
    exact inv
  | cons t l ih =>
    rw [nodup_cons] at hnd
    have ht := hl t mem_cons_self
    have hself : (s.setStatus t .invalid).timer t = { s.timer t with status := .invalid } :=
      timer_setTimer _ _ _
    obtain ⟨r, hr, hadd⟩ := (inv.setStatus ht .invalid).addEntry ht (by rw [State.status, hself])
    obtain ⟨s', hs', hinv, hout, hin, hpending, hdeadline, hphase, hpresent⟩ :=
      ih hadd.inv hnd.2 fun x hx => ⟨hl x (mem_cons_of_mem t hx), fun h => hnd.1 (h ▸ hx)⟩
    obtain ⟨st, hst, hrw⟩ := hadd.exists_rewrites
    rw [hself] at hrw
    have hother : ∀ x ≠ t, r.1.timer x = s.timer x := fun x hx =>
      (hrw.other hx).trans (timer_setTimer_of_ne _ _ hx)
    refine ⟨s', ?_, ?_, fun x hx => ?_, fun x hx => ?_, hpending.trans hrw.pending,
      hdeadline.trans hrw.deadline, hphase.trans hrw.phase, hpresent.trans hrw.present⟩
    · rw [State.refile, hr, ok_bind, hs']
    · have : L \ {x | x ∈ t :: l} = (L \ {t}) \ {x | x ∈ l} := by
        ext x
        simp [not_or, and_assoc]
      rw [this]
      exact hinv
    · rw [mem_cons, not_or] at hx
      rw [hout x hx.2, hother x hx.1]
    · by_cases hxt : x = t
      · subst x
        exact ⟨st, hst, by rw [hout t hnd.1, hrw.self]⟩
      · obtain ⟨st', hst', h⟩ := hin x ((mem_cons.1 hx).resolve_left hxt)
        exact ⟨st', hst', by rw [h, hother x hxt]⟩

theorem Inv.head_le {l : List ℕ} (inv : Inv s ∅) (hl : (s.timers c).list = t :: l)
    (hst : s.status x = .inList) (hc : s.cpu x = c) : s.expires t ≤ s.expires x := by
  have hmem := (inv.list_mem c x).2 ⟨hst, hc, Set.notMem_empty x⟩
  have hsorted := inv.sorted c
  rw [hl] at hmem hsorted
  rcases mem_cons.1 hmem with rfl | hmem
  · exact le_rfl
  · exact (pairwise_cons.1 hsorted).1 x hmem

theorem Inv.earliest_le (inv : Inv s ∅) (hx : s.Queued c x) : s.earliest c ≤ s.expires x := by
  have hheap : (s.timers c).size ≠ 0 → s.status x = .inHeap →
      s.expires ((s.timers c).heap 1) ≤ s.expires x := fun _ hst =>
    (inv.heap c).root_le ((inv.heap_mem c x).2 ⟨hst, hx.2, Set.notMem_empty x⟩)
  have hsize : s.status x = .inHeap → (s.timers c).size ≠ 0 := fun hst h0 => by
    obtain ⟨i, hi, hin, -⟩ := (inv.heap_mem c x).2 ⟨hst, hx.2, Set.notMem_empty x⟩
    omega
  unfold State.earliest
  cases hl : (s.timers c).list with
  | nil =>
    rcases hx.1 with hst | hst
    · rw [if_pos (hsize hst)]
      exact hheap (hsize hst) hst
    · have := (inv.list_mem c x).2 ⟨hst, hx.2, Set.notMem_empty x⟩
      rw [hl] at this
      cases this
  | cons t l =>
    dsimp only
    rcases hx.1 with hst | hst
    · rw [if_pos (hsize hst)]
      split
      · rename_i hlt
        exact hlt.le.trans (hheap (hsize hst) hst)
      · exact hheap (hsize hst) hst
    have hle := inv.head_le hl hst hx.2
    generalize (if (s.timers c).size ≠ 0 then _ else stimeMax) = d
    split
    · exact hle
    · rename_i hlt
      exact (not_lt.1 hlt).trans hle

/-- The softirq is done on the CPU `c`, which has read the time `now'` for the deadline. -/
structure Leaves (slop : ℕ) (s s' : State) (c : ℕ) (now' : ℤ) : Prop where
  inv : Inv s' ∅
  timer : ∀ x, s'.timer x = s.timer x ∨ s.Queued c x ∧ Refiled s s' x
  pending : ∀ c, s.softirqPending c = true → s'.softirqPending c = true
  deadline : ∀ c' ≠ c, s'.timerDeadline c' = s.timerDeadline c'
  due : ∀ x, s'.Queued c x → s'.expires x < stimeMax →
    s'.timerDeadline c ≠ 0 ∧ s'.timerDeadline c ≤ max (s'.expires x) (now' + slop)
  phase : s'.phase = update s.phase c .idle
  present : s'.present = s.present

theorem leaveSoftirq_spec (slop c : ℕ) (armed : Bool) (inv : Inv s ∅) (hnow : 0 < now') :
    ∃ s', s.leaveSoftirq slop c now' armed = .ok s' ∧ Leaves slop s s' c now' := by
  have hempty : Inv (s.setTimers c { s.timers c with list := [] }) {x | x ∈ (s.timers c).list} := by
    refine inv.setList List.Pairwise.nil nodup_nil (fun x => ?_) fun x hx => ?_
    · refine ⟨fun h => absurd h not_mem_nil, fun h => absurd ?_ h.2.2⟩
      exact (inv.list_mem c x).2 ⟨h.1, h.2.1, Set.notMem_empty x⟩
    · refine ⟨fun h => absurd ((inv.list_mem c x).1 h) fun h => hx ⟨h.1, h.2.1⟩, fun h => ?_⟩
      exact absurd h (Set.notMem_empty x)
  obtain ⟨s₁, hs₁, hinv, hout, hin, hpending, hdeadline, hphase, hpresent⟩ :=
    refile_spec hempty (inv.list_nodup c) fun x hx => hx
  rw [Set.sdiff_self] at hinv
  unfold State.leaveSoftirq
  dsimp only
  rw [hs₁, ok_bind]
  have hrec : ∀ x, s₁.timer x = s.timer x ∨ s.Queued c x ∧ Refiled s s₁ x := fun x => by
    by_cases hx : x ∈ (s.timers c).list
    · have := (inv.list_mem c x).1 hx
      exact .inr ⟨⟨.inr this.1, this.2.1⟩, hin x hx⟩
    · exact .inl (hout x hx)
  have hn : Turns { s₁ with timerDeadline := _ } (s₁.reprogram slop c now' armed) 0 (s₁.timer 0) :=
    notify_turns _ 0 c (!armed)
  have hinv₂ : Inv (s₁.reprogram slop c now' armed) ∅ := notify_inv (c := c)
    (s := { s₁ with timerDeadline := update s₁.timerDeadline c _ })
    (hinv.of_queues rfl rfl rfl) (!armed)
  generalize s₁.reprogram slop c now' armed = s₂ at hn hinv₂
  have htimer : (s₂.setPhase c .idle).timer = s₁.timer := hn.timer.trans (update_eq_self _ _)
  have hdue : (s₂.setPhase c .idle).timerDeadline = update s₁.timerDeadline c
      (if s₁.earliest c = stimeMax then 0 else max (s₁.earliest c) (now' + slop)) := hn.deadline
  refine ⟨s₂.setPhase c .idle, rfl, hinv₂.of_queues rfl rfl rfl, fun x => ?_,
    fun c' h => hn.pending c' (by rw [hpending]; exact h), fun c' hc => ?_, fun x hx hlt => ?_, ?_,
    hn.present.trans hpresent⟩
  · unfold Refiled
    rw [htimer]
    exact hrec x
  · rw [hdue, update_of_ne hc, hdeadline]
    rfl
  · rw [queued_of_timer_eq (congrFun htimer x)] at hx
    rw [expires_of_timer_eq (congrFun htimer x)] at hlt ⊢
    have hle := hinv.earliest_le hx
    rw [hdue, update_self, if_neg (by omega)]
    omega
  · show update s₂.phase c .idle = _
    rw [hn.phase, hphase]
    rfl

/-- How a loop step ends: in a callback of a timer from the list, or at the end of the function. -/
def ListOutcome (slop : ℕ) (s s' : State) (c : ℕ) (now now' : ℤ) : Prop :=
  (∃ t, Executes s s' c t (.inList now)) ∨
    Leaves slop s s' c now' ∧ ∀ x, s.status x = .inList → s.cpu x = c → now ≤ s.expires x

theorem listLoop_spec (slop c : ℕ) (now : ℤ) (armed : Bool) (inv : Inv s ∅) (hnow : 0 < now') :
    ∃ s', s.listLoop slop c now now' armed = .ok s' ∧ ListOutcome slop s s' c now now' := by
  unfold State.listLoop
  cases hl : (s.timers c).list with
  | nil =>
    obtain ⟨s', hs', hleave⟩ := leaveSoftirq_spec slop c armed inv hnow
    refine ⟨s', hs', .inr ⟨hleave, fun x hst hc => ?_⟩⟩
    have := (inv.list_mem c x).2 ⟨hst, hc, Set.notMem_empty x⟩
    rw [hl] at this
    cases this
  | cons t l =>
    have ht := (inv.list_mem c t).1 (by rw [hl]; exact mem_cons_self)
    dsimp only
    split
    · obtain ⟨r, hr, hinv, hq⟩ := inv.removeFromList ht.2.2 ht.1
      have hr' : r.1 = s.setTimers c { s.timers c with list := l } := by
        rw [State.removeFromList, ht.2.1, hl, if_pos mem_cons_self, erase_cons_head] at hr
        cases hr
        rfl
      rw [hr'] at hinv hq
      exact ⟨_, rfl, .inl ⟨t, executeTimer_spec hinv ⟨.inr ht.1, ht.2.1⟩ hq⟩⟩
    · rename_i hge
      obtain ⟨s', hs', hleave⟩ := leaveSoftirq_spec slop c armed inv hnow
      exact ⟨s', hs', .inr ⟨hleave, fun x hst hc => (not_lt.1 hge).trans (inv.head_le hl hst hc)⟩⟩

theorem heapLoop_spec (slop c : ℕ) (now : ℤ) (armed : Bool) (inv : Inv s ∅) (hnow : 0 < now') :
    ∃ s', s.heapLoop slop c now now' armed = .ok s' ∧
      ((∃ t, Executes s s' c t (.inHeap now)) ∨
        (∀ x, s.status x = .inHeap → s.cpu x = c → now ≤ s.expires x) ∧
          ListOutcome slop s s' c now now') := by
  unfold State.heapLoop
  dsimp only
  split
  · rename_i hready
    have ht := (inv.heap_mem c ((s.timers c).heap 1)).1
      ⟨1, le_rfl, Nat.one_le_iff_ne_zero.2 hready.1, rfl⟩
    have hinv := inv.removeFromHeap ht.2.2 ht.1
    rw [ht.2.1] at hinv
    exact ⟨_, rfl, .inl ⟨_, executeTimer_spec hinv ⟨.inl ht.1, ht.2.1⟩ ⟨rfl, rfl, rfl, rfl, rfl⟩⟩⟩
  rename_i hready
  obtain ⟨s', hs', hout⟩ := listLoop_spec slop c now armed inv hnow
  refine ⟨s', hs', .inr ⟨fun x hst hc => ?_, hout⟩⟩
  have hmem := (inv.heap_mem c x).2 ⟨hst, hc, Set.notMem_empty x⟩
  have hsize : (s.timers c).size ≠ 0 := by
    obtain ⟨i, hi, hin, -⟩ := hmem
    omega
  exact (not_lt.1 fun h => hready ⟨hsize, h⟩).trans ((inv.heap c).root_le hmem)

/-! ## Removal of a CPU -/

section Removal

variable {old new : ℕ}

def State.queueLength (s : State) (c : ℕ) : ℕ := (s.timers c).size + (s.timers c).list.length

theorem addEntry_timers {r : State × Bool} (h : s.addEntry t = .ok r) (hc : c ≠ s.cpu t) :
    r.1.timers c = s.timers c := by
  unfold State.addEntry at h
  split at h
  · cases h
  dsimp only at h
  have hcpu : (({ s with heapOffset := update s.heapOffset t 0 } : State).setStatus t
      .inHeap).cpu t = s.cpu t := by
    rw [State.setStatus, State.cpu, timer_setTimer]
    rfl
  have hheap : ∀ s₁ : State, (s₁.addToHeap (s.cpu t) t).1.timers c = s₁.timers c := fun s₁ => by
    unfold State.addToHeap
    dsimp only
    split
    · rfl
    · exact update_of_ne hc _ _
  rw [hcpu] at h
  split at h
  · cases h
    exact hheap _
  · cases h
    exact (update_of_ne hc _ _).trans (hheap _)

def State.front (s : State) (c : ℕ) : Option ℕ :=
  if (s.timers c).size ≠ 0 then some ((s.timers c).heap 1) else (s.timers c).list.head?

theorem Inv.front_none (inv : Inv s ∅) (h : s.front c = none) (x : ℕ) : ¬ s.Queued c x := by
  unfold State.front at h
  split at h
  · cases h
  rename_i hsize
  rintro ⟨hst | hst, hc⟩
  · obtain ⟨i, hi, hin, -⟩ := (inv.heap_mem c x).2 ⟨hst, hc, Set.notMem_empty x⟩
    omega
  · have := (inv.list_mem c x).2 ⟨hst, hc, Set.notMem_empty x⟩
    rw [List.head?_eq_none_iff.1 h] at this
    cases this

theorem Inv.front_some (inv : Inv s ∅) (h : s.front c = some t) : s.Queued c t ∧
    ∀ r, s.removeEntry t = .ok r → r.1.queueLength c + 1 = s.queueLength c := by
  unfold State.front at h
  split at h
  · rename_i hsize
    cases h
    have ht := (inv.heap_mem c ((s.timers c).heap 1)).1
      ⟨1, le_rfl, Nat.one_le_iff_ne_zero.2 hsize, rfl⟩
    refine ⟨⟨.inl ht.1, ht.2.1⟩, fun r hr => ?_⟩
    have hlt := inv.limit_lt c
    have hle := inv.size_le c
    unfold State.removeEntry at hr
    rw [ht.1, ht.2.1] at hr
    cases hr
    unfold State.queueLength
    have hts : ((s.removeFromHeap c ((s.timers c).heap 1)).1.setStatus ((s.timers c).heap 1)
        .invalid).timers c = { s.timers c with
          heap := ((s.cells c).remove s.expires (s.timers c).size
            (s.heapOffset ((s.timers c).heap 1))).heap
          size := ((s.timers c).size - 1) % 2 ^ 16 } := update_self _ _ _
    rw [hts]
    dsimp only
    omega
  · have hmem := mem_of_head? h
    have ht := (inv.list_mem c t).1 hmem
    refine ⟨⟨.inr ht.1, ht.2.1⟩, fun r hr => ?_⟩
    unfold State.removeEntry at hr
    rw [ht.1] at hr
    rw [State.removeFromList, ht.2.1, if_pos hmem] at hr
    cases hr
    unfold State.queueLength
    have hts : ((s.setTimers c { s.timers c with list := (s.timers c).list.erase t }).setStatus t
        .invalid).timers c = { s.timers c with list := (s.timers c).list.erase t } :=
      update_self _ _ _
    rw [hts]
    dsimp only
    have := length_erase_of_mem hmem
    have := length_pos_of_mem hmem
    omega

structure Handover (s s' : State) (old new : ℕ) : Prop where
  inv : Inv s' ∅
  timer : ∀ x, s'.timer x = s.timer x ∨ s.Queued old x ∧ s'.Queued new x ∧
    s'.expires x = s.expires x
  pending : s'.softirqPending = s.softirqPending
  deadline : s'.timerDeadline = s.timerDeadline
  phase : s'.phase = s.phase
  present : s'.present = s.present

theorem Inv.handOver (inv : Inv s ∅) (hne : old ≠ new) (ht : s.Queued old t) :
    ∃ r r', s.removeEntry t = .ok r ∧
      (r.1.setTimer t { r.1.timer t with cpu := new }).addEntry t = .ok r' ∧
      Handover s r'.1 old new ∧ r'.1.timers old = r.1.timers old ∧
      (∀ x ≠ t, r'.1.timer x = s.timer x) ∧
      (r'.2 = false → ∃ y, s.Queued new y ∧ s.expires y ≤ s.expires t) := by
  obtain ⟨r, hr, hinv, hrw⟩ := inv.removeEntry (Set.notMem_empty t) ht.1
  have hself : (r.1.setTimer t { r.1.timer t with cpu := new }).timer t =
      { s.timer t with cpu := new, status := .invalid } := by
    rw [timer_setTimer, hrw.self]
  have hcpu : (r.1.setTimer t { r.1.timer t with cpu := new }).cpu t = new := by
    rw [State.cpu, hself]
  have hother : ∀ x ≠ t, (r.1.setTimer t { r.1.timer t with cpu := new }).timer x = s.timer x :=
    fun x hx => (timer_setTimer_of_ne _ _ hx).trans (hrw.other hx)
  obtain ⟨r', hr', hadd⟩ := (hinv.setTimer (Set.mem_insert t ∅)
    { r.1.timer t with cpu := new }).addEntry (Set.mem_insert t ∅) (by rw [State.status, hself])
  obtain ⟨st, hst, hrw'⟩ := hadd.exists_rewrites
  rw [hself] at hrw'
  have hinv' := hadd.inv
  rw [diff_limbo] at hinv'
  have htimers := addEntry_timers (c := old) hr' (by rw [hcpu]; exact hne)
  have hothers : ∀ x ≠ t, r'.1.timer x = s.timer x :=
    fun x hx => (hrw'.other hx).trans (hother x hx)
  refine ⟨r, r', hr, hr', ⟨hinv', fun x => ?_, hrw'.pending.trans hrw.pending,
    hrw'.deadline.trans hrw.deadline, hrw'.phase.trans hrw.phase, hrw'.present.trans hrw.present⟩,
    htimers, hothers, fun hhead => ?_⟩
  · by_cases hx : x = t
    · subst x
      refine .inr ⟨ht, ?_, ?_⟩
      · unfold State.Queued State.status State.cpu
        rw [hrw'.self]
        exact ⟨hst, rfl⟩
      · rw [State.expires, hrw'.self, State.expires]
    · exact .inl (hothers x hx)
  · obtain ⟨y, hyt, hy, hle⟩ := hadd.covered hhead
    rw [hcpu, queued_of_timer_eq (hother y hyt)] at hy
    rw [expires_of_timer_eq (hother y hyt), State.expires, State.expires, hself] at hle
    exact ⟨y, hy, hle⟩

theorem moveActive_succ (rounds : ℕ) (head : Bool) :
    moveActive old new (rounds + 1) s head =
      match s.front old with
      | none => .ok (s, head)
      | some t => (do
        let r ← s.removeEntry t
        let r ← (r.1.setTimer t { r.1.timer t with cpu := new }).addEntry t
        moveActive old new rounds r.1 (head || r.2)) := rfl

theorem moveActive_spec (inv : Inv s ∅) (hne : old ≠ new) (head : Bool) {rounds : ℕ}
    (hrounds : s.queueLength old ≤ rounds) :
    ∃ r, moveActive old new rounds s head = .ok r ∧ Handover s r.1 old new ∧
      (∀ x, ¬ r.1.Queued old x) ∧ (head = true → r.2 = true) ∧
      ∀ x, r.1.Queued new x → r.2 = true ∨ ∃ y, s.Queued new y ∧ s.expires y ≤ r.1.expires x := by
  have hsame : Handover s s old new := ⟨inv, fun _ => .inl rfl, rfl, rfl, rfl, rfl⟩
  have hdone : s.front old = none → ∀ x, ¬ s.Queued old x := inv.front_none
  induction rounds generalizing s head with
  | zero =>
    refine ⟨(s, head), rfl, hsame, hdone ?_, fun h => h, fun x hx => .inr ⟨x, hx, le_rfl⟩⟩
    unfold State.queueLength at hrounds
    unfold State.front
    rw [if_neg (by omega), List.head?_eq_none_iff]
    exact length_eq_zero_iff.1 (by omega)
  | succ rounds ih =>
    rw [moveActive_succ]
    cases hfront : s.front old with
    | none =>
      exact ⟨(s, head), rfl, hsame, hdone hfront, fun h => h, fun x hx => .inr ⟨x, hx, le_rfl⟩⟩
    | some t =>
      obtain ⟨hqueued, hlength⟩ := inv.front_some hfront
      obtain ⟨r, r', hr, hr', hover, hts, hothers, hcov⟩ := inv.handOver hne hqueued
      have hlen : r'.1.queueLength old ≤ rounds := by
        have := hlength r hr
        unfold State.queueLength at this hrounds ⊢
        rw [hts]
        omega
      obtain ⟨r'', hr'', hover', hnone, hhead, hcov'⟩ := ih hover.inv (head || r'.2) hlen
        ⟨hover.inv, fun _ => .inl rfl, rfl, rfl, rfl, rfl⟩ hover.inv.front_none
      dsimp only
      rw [hr, ok_bind, hr', ok_bind, hr'']
      refine ⟨r'', rfl, ⟨hover'.inv, fun x => ?_, hover'.pending.trans hover.pending,
        hover'.deadline.trans hover.deadline, hover'.phase.trans hover.phase,
        hover'.present.trans hover.present⟩, hnone, fun h => hhead (by rw [h]; rfl), fun x hx => ?_⟩
      · rcases hover'.timer x with h' | ⟨hold, hnew, hexp⟩
        · rcases hover.timer x with h | ⟨hold, hnew, hexp⟩
          · exact .inl (h'.trans h)
          · exact .inr ⟨hold, (queued_of_timer_eq h').2 hnew, (expires_of_timer_eq h').trans hexp⟩
        · rcases hover.timer x with h | ⟨-, hnew', -⟩
          · exact .inr ⟨(queued_of_timer_eq h).1 hold, hnew, hexp.trans (expires_of_timer_eq h)⟩
          · exact absurd (hold.2.symm.trans hnew'.2) hne
      · -- a timer that was covered is covered by one that was there before
        rcases hcov' x hx with h | ⟨y, hy, hle⟩
        · exact .inl h
        by_cases hyt : y = t
        · subst y
          cases hnew : r'.2 with
          | true => exact .inl (hhead (by rw [hnew, Bool.or_true]))
          | false =>
            obtain ⟨z, hz, hzt⟩ := hcov hnew
            have hexp : r'.1.expires t = s.expires t := by
              rcases hover.timer t with h | ⟨-, -, h⟩
              · exact expires_of_timer_eq h
              · exact h
            exact .inr ⟨z, hz, hzt.trans (hexp ▸ hle)⟩
        · have h := hothers y hyt
          exact .inr ⟨y, (queued_of_timer_eq h).1 hy, (expires_of_timer_eq h) ▸ hle⟩

theorem moveInactive_spec (new : ℕ) {l : List ℕ} (inv : Inv s ∅) (hnd : l.Nodup)
    (hl : ∀ x ∈ l, s.status x = .inactive) :
    Inv (moveInactive new s l) ∅ ∧ (∀ x ∉ l, (moveInactive new s l).timer x = s.timer x) ∧
      (∀ x ∈ l, (moveInactive new s l).timer x = { s.timer x with cpu := new }) ∧
      (moveInactive new s l).softirqPending = s.softirqPending ∧
      (moveInactive new s l).timerDeadline = s.timerDeadline ∧
      (moveInactive new s l).phase = s.phase ∧ (moveInactive new s l).present = s.present := by
  induction l generalizing s with
  | nil => exact ⟨inv, fun _ _ => rfl, fun x hx => absurd hx not_mem_nil, rfl, rfl, rfl, rfl⟩
  | cons t l ih =>
    rw [nodup_cons] at hnd
    have hinv₁ := inv.moveInactive (hl t mem_cons_self) new
    set s₁ := ((s.delInactive t).setTimer t { (s.delInactive t).timer t with cpu :=
      new }).addInactive new t with hs₁
    have hself : s₁.timer t = { s.timer t with cpu := new } := update_self _ _ _
    have hother : ∀ x ≠ t, s₁.timer x = s.timer x := fun x hx => update_of_ne hx _ _
    have hne : ∀ x ∈ l, x ≠ t := fun x hx h => hnd.1 (h ▸ hx)
    obtain ⟨hinv, hout, hin, hpending, hdeadline, hphase, hpresent⟩ := ih hinv₁ hnd.2 fun x hx => by
      rw [State.status, hother x (hne x hx)]
      exact hl x (mem_cons_of_mem t hx)
    refine ⟨hinv, fun x hx => ?_, fun x hx => ?_, hpending, hdeadline, hphase, hpresent⟩
    · rw [mem_cons, not_or] at hx
      exact (hout x hx.2).trans (hother x hx.1)
    · rcases mem_cons.1 hx with rfl | hx
      · exact (hout x hnd.1).trans hself
      · have h := hin x hx
        rw [hother x (hne x hx)] at h
        exact h

structure Removes (s s' : State) (old new : ℕ) : Prop where
  good : Good s'
  timer : ∀ x, s.cpu x ≠ old → s'.timer x = s.timer x
  pending : ∀ c, s.softirqPending c = true → s'.softirqPending c = true
  deadline : s'.timerDeadline = s.timerDeadline
  phase : s'.phase = s.phase
  due : ∀ x, s'.Queued new x → s'.softirqPending new = true ∨
    ∃ y, s.Queued new y ∧ s.expires y ≤ s'.expires x
  others : ∀ c x, c ≠ new → s'.Queued c x → s.Queued c x ∧ s'.expires x = s.expires x

theorem migrateTimersFromCpu_spec (good : Good s) (hne : old ≠ new) (hnew : s.present new = true) :
    ∃ s', s.migrateTimersFromCpu old new = .ok s' ∧ Removes s s' old new := by
  obtain ⟨r, hr, hover, hnone, -, hcov⟩ := moveActive_spec good.inv hne false le_rfl
  have hin : ∀ x ∈ (r.1.timers old).inactive, r.1.status x = .inactive := fun x hx =>
    ((hover.inv.inactive_mem old x).1 hx).1
  obtain ⟨hinv, hout, hmoved, hpending, hdeadline, hphase, hpresent⟩ :=
    moveInactive_spec new hover.inv (hover.inv.inactive_nodup old) hin
  unfold State.migrateTimersFromCpu
  rw [State.queueLength] at hr
  rw [hr, ok_bind]
  set s₂ := moveInactive new r.1 (r.1.timers old).inactive with hs₂
  have hn := notify_turns s₂ 0 new r.2
  -- the records at the end
  have htimer : ({ s₂.notify new r.2 with present := update s₂.present old false } :
      State).timer = s₂.timer := by
    show (s₂.notify new r.2).timer = _
    rw [hn.timer, update_eq_self]
  refine ⟨_, rfl, ?_⟩
  generalize hs' : ({ s₂.notify new r.2 with present := update s₂.present old false } :
    State) = s' at htimer
  have hpres : s'.present = update s.present old false := by
    rw [← hs', ← hover.present, ← hpresent]
  have hqueued : ∀ c x, s'.Queued c x ↔ r.1.Queued c x := fun c x => by
    rw [queued_of_timer_eq (congrFun htimer x)]
    by_cases hx : x ∈ (r.1.timers old).inactive
    · unfold State.Queued State.status State.cpu
      rw [hmoved x hx, show (r.1.timer x).status = .inactive from hin x hx]
      simp
    · exact queued_of_timer_eq (hout x hx)
  have hexpires : ∀ x, s'.expires x = r.1.expires x := fun x => by
    rw [expires_of_timer_eq (congrFun htimer x)]
    by_cases hx : x ∈ (r.1.timers old).inactive
    · rw [State.expires, hmoved x hx, State.expires]
    · exact expires_of_timer_eq (hout x hx)
  have hsame : ∀ x, s.cpu x ≠ old → s'.timer x = s.timer x := fun x hx => by
    have hr : r.1.timer x = s.timer x := (hover.timer x).resolve_right fun h => hx h.1.2
    have hx' : x ∉ (r.1.timers old).inactive := fun h => by
      have := ((hover.inv.inactive_mem old x).1 h).2.1
      rw [State.cpu, hr] at this
      exact hx this
    rw [htimer, hout x hx', hr]
  have hfinal : ∀ x, s'.status x ≠ .invalid → s'.status x ≠ .killed → s'.cpu x ≠ old ∧
      (s'.cpu x = new ∨ s.cpu x ≠ old ∧ s'.timer x = s.timer x) := by
    intro x h1 h2
    by_cases hx : s.cpu x = old
    · suffices hc : s'.cpu x = new by
        rw [hc]
        exact ⟨hne.symm, .inl rfl⟩
      by_cases hmem : x ∈ (r.1.timers old).inactive
      · rw [State.cpu, htimer, hmoved x hmem]
      have hrec : s'.timer x = r.1.timer x := by rw [htimer, hout x hmem]
      rcases hover.timer x with h | ⟨-, hq, -⟩
      · -- it was not active, so it was invalid, inactive or killed
        have hcpu : r.1.cpu x = old := by rw [State.cpu, h]; exact hx
        rw [State.status, hrec] at h1 h2
        exfalso
        cases hst : r.1.status x with
        | invalid => exact h1 hst
        | killed => exact h2 hst
        | inactive => exact hmem ((hover.inv.inactive_mem old x).2 ⟨hst, hcpu, Set.notMem_empty x⟩)
        | inHeap => exact hnone x ⟨.inl hst, hcpu⟩
        | inList => exact hnone x ⟨.inr hst, hcpu⟩
      · rw [State.cpu, hrec]
        exact hq.2
    · have := hsame x hx
      refine ⟨?_, .inr ⟨hx, this⟩⟩
      rw [State.cpu, this]
      exact hx
  refine ⟨⟨?_, fun x h1 h2 => ?_, fun x hx => ?_, fun c hc => ?_⟩, hsame, fun c hc => ?_, ?_, ?_,
    fun x hx => ?_, fun c x hc hx => ?_⟩
  · rw [← hs']
    exact (notify_inv hinv r.2).of_queues rfl rfl rfl
  · obtain ⟨hold, hcpu⟩ := hfinal x h1 h2
    rw [hpres, update_of_ne hold]
    rcases hcpu with h | ⟨-, h⟩
    · rw [h, hnew]
    · rw [State.status, h] at h1 h2
      rw [State.cpu, h]
      exact good.home x h1 h2
  · by_cases hmem : x ∈ (r.1.timers old).inactive
    · rw [State.status, htimer, hmoved x hmem] at hx
      rw [show (r.1.timer x).status = .inactive from hin x hmem] at hx
      cases hx
    · have hrec : s'.timer x = r.1.timer x := by rw [htimer, hout x hmem]
      rcases hover.timer x with h | ⟨-, hq, -⟩
      · rw [State.status, hrec, h] at hx
        rw [State.cpu, hrec, h]
        exact good.killed x hx
      · rw [State.status, hrec] at hx
        rcases hq.1 with h | h <;> exact absurd (h.symm.trans hx) (by decide)
  · rw [hpres, update_apply] at hc
    split at hc
    · cases hc
    · exact good.present_lt c hc
  · rw [← hs']
    exact hn.pending c (by rw [hpending, hover.pending]; exact hc)
  · rw [← hs']
    exact hn.deadline.trans (hdeadline.trans hover.deadline)
  · rw [← hs']
    exact hn.phase.trans (hphase.trans hover.phase)
  · rw [hqueued] at hx
    rw [hexpires]
    refine (hcov x hx).imp_left fun h => ?_
    rw [← hs', h]
    exact update_self _ _ _
  · rw [hqueued] at hx
    rw [hexpires]
    rcases hover.timer x with h | ⟨-, hq, -⟩
    · exact ⟨(queued_of_timer_eq h).1 hx, expires_of_timer_eq h⟩
    · exact absurd (hx.2.symm.trans hq.2) hc

end Removal

end XenVmi.TimerQueue
