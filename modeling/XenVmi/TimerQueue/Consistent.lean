import Mathlib.Data.List.Nodup
import XenVmi.TimerQueue.Softirq

/-!
# Timer queues are consistent

Every step of every run works, and keeps the queues of all CPUs in order (`step_good`): also the
steps that happen while callbacks run, on any number of CPUs.
-/

namespace XenVmi.TimerQueue

open Function XenVmi.Lib State List

variable {s s' : State} {t x c slop : ℕ} {now now' : ℤ} {armed : Bool} {p : Phase}

theorem Good.of_timer (good : Good s) (inv : Inv s' ∅) (htimer : s'.timer = s.timer)
    (hpresent : s'.present = s.present) : Good s' := by
  refine ⟨inv, fun t h1 h2 => ?_, fun t h => ?_, fun c hc => good.present_lt c (hpresent ▸ hc)⟩
  · unfold State.status at h1 h2
    rw [htimer] at h1 h2
    rw [hpresent, State.cpu, htimer]
    exact good.home t h1 h2
  · rw [State.status, htimer] at h
    rw [State.cpu, htimer]
    exact good.killed t h

theorem Executes.good (h : Executes s s' c t p) (good : Good s) : Good s' := by
  have hhome : s.present (s.cpu t) = true := by
    refine good.home t ?_ ?_ <;> rcases h.queued.1 with h | h <;> rw [h] <;> decide
  exact good.rewrite h.inv h.timer h.present (fun _ _ => hhome) nofun

theorem Leaves.good (h : Leaves slop s s' c now') (good : Good s) : Good s' := by
  have hcases : ∀ x, s'.cpu x = s.cpu x ∧ (s'.status x = s.status x ∨
      (s.status x = .inHeap ∨ s.status x = .inList) ∧
        (s'.status x = .inHeap ∨ s'.status x = .inList)) := by
    intro x
    unfold State.cpu State.status
    rcases h.timer x with h | ⟨hq, st, hst, h⟩ <;> rw [h]
    · exact ⟨rfl, .inl rfl⟩
    · exact ⟨rfl, .inr ⟨hq.1, hst⟩⟩
  refine ⟨h.inv, fun x h1 h2 => ?_, fun x hx => ?_, fun c hc => good.present_lt c (h.present ▸ hc)⟩
  · rw [h.present, (hcases x).1]
    rcases (hcases x).2 with hst | ⟨hst, -⟩
    · rw [hst] at h1 h2
      exact good.home x h1 h2
    · exact good.home x (by rcases hst with h | h <;> rw [h] <;> decide)
        (by rcases hst with h | h <;> rw [h] <;> decide)
  · rw [(hcases x).1]
    rcases (hcases x).2 with hst | ⟨-, hst⟩
    · exact good.killed x (hst ▸ hx)
    · rw [hx] at hst
      rcases hst with h | h <;> cases h

theorem enterSoftirq_good (good : Good s) (newheap : Option (ℕ → ℕ)) :
    Good (s.enterSoftirq c newheap) := by
  refine good.of_timer (enterSoftirq_inv good.inv newheap) ?_ ?_
  all_goals
    unfold State.enterSoftirq
    cases newheap with
    | none => rfl
    | some fresh =>
      dsimp only
      split <;> rfl

theorem Good.returned (good : Good s) (c : ℕ) :
    Good (s.setTimers c { s.timers c with running := none }) := by
  refine good.of_timer (good.inv.of_timers (fun _ _ => rfl) (fun c' => ?_) fun _ _ => rfl) rfl rfl
  by_cases hc : c' = c
  · rw [hc]
    exact ⟨none, update_self _ _ _⟩
  · exact ⟨(s.timers c').running, update_of_ne hc _ _⟩

theorem cpuUp_good (good : Good s) (dummy : ℕ → ℕ) (hc : s.present c = false)
    (hlt : c < cpuKilled) :
    Good (s.cpuUp c dummy) := by
  have hnone : ∀ x, s.status x ≠ .invalid → s.status x ≠ .killed → s.cpu x ≠ c := by
    rintro x h1 h2 rfl
    rw [good.home x h1 h2] at hc
    cases hc
  have inv := good.inv
  have hno : ∀ {st x}, st ≠ .invalid → st ≠ .killed →
      ¬ (s.status x = st ∧ s.cpu x = c ∧ x ∉ (∅ : Set ℕ)) := by
    rintro st x h1 h2 ⟨rfl, hx, -⟩
    exact hnone x h1 h2 hx
  have hup : Inv (s.setTimers c { s.timers c with heap := dummy, size := 0, limit := 0, inactive :=
    [] }) ∅ :=
    inv.setQueues (fun _ (_ : ¬ (_ = Status.inactive ∧ _)) => Iff.rfl) Cells.Heap.zero le_rfl
      mem_cons_self (inv.sorted c) (inv.list_nodup c) nodup_nil
      (fun _ => iff_of_false Cells.not_mem_zero (hno (by decide) (by decide))) (inv.list_mem c)
      (fun _ => iff_of_false not_mem_nil (hno (by decide) (by decide))) fun _ _ _ _ => rfl
  refine ⟨hup.of_queues rfl rfl rfl, fun x h1 h2 => ?_, good.killed, fun c' h => ?_⟩
  · show update s.present c true (s.cpu x) = true
    rw [update_of_ne (hnone x h1 h2)]
    exact good.home x h1 h2
  · have h' : update s.present c true c' = true := h
    rw [update_apply] at h'
    split at h'
    · subst c'
      exact hlt
    · exact good.present_lt c' h'

theorem loop_good (good : Good s) (hnow : 0 < now') :
    (∃ s', s.heapLoop slop c now now' armed = .ok s' ∧ Good s') ∧
      ∃ s', s.listLoop slop c now now' armed = .ok s' ∧ Good s' := by
  have hlist : ∀ {s'}, ListOutcome slop s s' c now now' → Good s' := by
    rintro s' (⟨t, h⟩ | ⟨h, -⟩)
    · exact h.good good
    · exact h.good good
  refine ⟨?_, ?_⟩
  · obtain ⟨s', hs', ⟨t, h⟩ | ⟨-, h⟩⟩ := heapLoop_spec slop c now armed good.inv hnow
    · exact ⟨s', hs', h.good good⟩
    · exact ⟨s', hs', hlist h⟩
  · obtain ⟨s', hs', h⟩ := listLoop_spec slop c now armed good.inv hnow
    exact ⟨s', hs', hlist h⟩

theorem step_good {a : Action} (ha : Admits s a) (good : Good s) :
    ∃ s', step slop s a = .ok s' ∧ Good s' := by
  cases a with
  | init t c =>
    obtain ⟨s', hs, hw⟩ := initTimer_worked good ha.1 ha.2
    exact ⟨s', hs, hw.good⟩
  | set t e =>
    obtain ⟨s', hs, hw⟩ := setTimerExpiry_worked good ha e
    exact ⟨s', hs, hw.good⟩
  | stop t =>
    obtain ⟨s', hs, hw⟩ := stopTimer_worked good ha
    exact ⟨s', hs, hw.good⟩
  | migrate t new =>
    obtain ⟨s', hs, ⟨rfl, -⟩ | ⟨-, hw⟩⟩ := migrateTimer_worked good ha.1 ha.2
    · exact ⟨s', hs, good⟩
    · exact ⟨s', hs, hw.good⟩
  | kill c t =>
    obtain ⟨s', hs, hw⟩ := killTimer_worked good ha.1 ha.2
    exact ⟨s', hs, hw.good⟩
  | softirq c newheap => exact ⟨_, rfl, enterSoftirq_good good newheap⟩
  | sample c now now' armed => exact (loop_good good ha.2).1
  | callbackReturns c now' armed =>
    rw [step, State.resumeSoftirq]
    cases hp : s.phase c with
    | idle => exact absurd hp ha.1
    | entered => exact absurd hp ha.2.1
    | inHeap now => exact (loop_good (good.returned c) ha.2.2).1
    | inList now => exact (loop_good (good.returned c) ha.2.2).2
  | cpuUp c dummy => exact ⟨_, rfl, cpuUp_good good dummy ha.1 ha.2⟩
  | cpuDead old new =>
    obtain ⟨s', hs, hr⟩ := migrateTimersFromCpu_spec good ha.2.2.1 ha.2.1
    exact ⟨s', hs, hr.good⟩

theorem boot_good : Good State.boot := by
  refine ⟨⟨fun _ => Cells.Heap.zero, fun _ => le_rfl, fun _ => mem_cons_self,
    fun _ => List.Pairwise.nil, fun _ => nodup_nil, fun _ => nodup_nil,
    fun _ _ => iff_of_false Cells.not_mem_zero ?_, fun _ _ => iff_of_false not_mem_nil ?_,
    fun _ _ => iff_of_false not_mem_nil ?_⟩, fun _ h => absurd rfl h, fun _ h => ?_, fun _ h => ?_⟩
  · exact fun h => by cases h.1
  · exact fun h => by cases h.1
  · exact fun h => by cases h.1
  · cases h
  · cases h

theorem run_good (run : Reaches (step slop) Admits .boot s) : Good s :=
  run.invariant_of_total (fun _ _ => step_good) boot_good

/-- **The queues are consistent** in every run: heaps with right offsets, sorted lists, and each
timer in the one structure that its status says. No step stops the hypervisor. -/
theorem timer_queues_consistent (run : Reaches (step slop) Admits .boot s) :
    (∀ c, (∀ i, 2 ≤ i → i ≤ (s.timers c).size →
          s.expires ((s.timers c).heap (i / 2)) ≤ s.expires ((s.timers c).heap i)) ∧
        (∀ i, 1 ≤ i → i ≤ (s.timers c).size → s.heapOffset ((s.timers c).heap i) = i) ∧
        (s.timers c).size ≤ (s.timers c).limit ∧
        ((s.timers c).list.Pairwise fun a b => s.expires a ≤ s.expires b) ∧
        ∀ t, ((List.range' 1 (s.timers c).size).map (s.timers c).heap).count t =
            (if s.status t = .inHeap ∧ s.cpu t = c then 1 else 0) ∧
          (s.timers c).list.count t = (if s.status t = .inList ∧ s.cpu t = c then 1 else 0) ∧
          (s.timers c).inactive.count t = (if s.status t = .inactive ∧ s.cpu t = c then 1 else 0)) ∧
      ∀ a, Admits s a → ∃ s', step slop s a = .ok s' := by
  have good := run_good run
  have inv := good.inv
  have hif : ∀ {l : List ℕ} {P : Prop} [Decidable P] {t}, l.Nodup → (t ∈ l ↔ P) →
      l.count t = if P then 1 else 0 := by
    intro l P _ t hnd hP
    rw [hnd.count]
    exact if_congr hP rfl rfl
  refine ⟨fun c => ⟨(inv.heap c).ordered, (inv.heap c).indexed, inv.size_le c, inv.sorted c,
    fun t => ⟨hif ?_ ?_, hif (inv.list_nodup c) ?_, hif (inv.inactive_nodup c) ?_⟩⟩, fun a ha => ?_⟩
  · refine List.Nodup.map_on (fun i hi j hj heq => ?_) nodup_range'
    rw [mem_range'_1] at hi hj
    rw [← (inv.heap c).indexed i hi.1 (by omega), ← (inv.heap c).indexed j hj.1 (by omega)]
    exact congrArg s.heapOffset heq
  · refine Iff.trans ?_ ((inv.heap_mem c t).trans (by simp))
    rw [mem_map]
    constructor
    · rintro ⟨i, hi, rfl⟩
      rw [mem_range'_1] at hi
      exact ⟨i, hi.1, by omega, rfl⟩
    · rintro ⟨i, hi, hin, rfl⟩
      exact ⟨i, mem_range'_1.2 ⟨hi, by omega⟩, rfl⟩
  · exact (inv.list_mem c t).trans (by simp)
  · exact (inv.inactive_mem c t).trans (by simp)
  · obtain ⟨s', hs, -⟩ := step_good ha good
    exact ⟨s', hs⟩

/-- Two timers are set while there is no heap yet. The softirq makes one and runs the timer that is
due, whose callback sets it again. -/
def resetRun : List Action :=
  [.cpuUp 0 fun _ => 0, .init 1 0, .init 2 0, .set 1 100, .set 2 50, .softirq 0 (some fun _ => 0),
    .sample 0 60 60 true, .set 2 80, .callbackReturns 0 70 true]

theorem timer_queues_consistent_reset : ∃ s, Reaches (step 5) Admits .boot s ∧
    (s.timers 0).size = 2 ∧ (s.timers 0).list.count 2 = 0 ∧
    ((List.range' 1 (s.timers 0).size).map (s.timers 0).heap).count 2 = 1 := by
  obtain ⟨s, run, hsize, hst, hcpu⟩ : ∃ s, Reaches (step 5) Admits .boot s ∧
      (s.timers 0).size = 2 ∧ s.status 2 = .inHeap ∧ s.cpu 2 = 0 :=
    Reaches.exists_of_checked (l := resetRun) (e := .assertion) (by decide +kernel)
  have h := ((timer_queues_consistent run).1 0).2.2.2.2 2
  refine ⟨s, run, hsize, ?_, ?_⟩
  · rw [h.2.1, if_neg (fun h => by rw [hst] at h; cases h.1)]
  · rw [h.1, if_pos ⟨hst, hcpu⟩]

end XenVmi.TimerQueue
