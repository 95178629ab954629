import Mathlib.Data.Set.Insert
import Mathlib.Data.List.Nodup
import XenVmi.Lib.Runs
import XenVmi.TimerQueue.State

/-!
# Timers enter and leave the queues

`Inv s L`: every CPU's heap, list and list of inactive timers are in order and hold the timers whose
status says so, but for those in limbo, `L`: taken out of one structure and not yet put into
another.
-/

namespace XenVmi.TimerQueue

open Function XenVmi.Lib State List

variable {s s' s'' : State} {L L' : Set ℕ} {t x c : ℕ}

def State.Queued (s : State) (c t : ℕ) : Prop :=
  (s.status t = .inHeap ∨ s.status t = .inList) ∧ s.cpu t = c

structure Inv (s : State) (L : Set ℕ) : Prop where
  heap : ∀ c, (s.cells c).Heap s.expires (s.timers c).size
  size_le : ∀ c, (s.timers c).size ≤ (s.timers c).limit
  /-- The limits a heap can have: it is the dummy heap or has grown, and has 16 bits for its
  limit. -/
  limit_mem : ∀ c, (s.timers c).limit ∈ [0, 15, 255, 4095, 65535]
  sorted : ∀ c, (s.timers c).list.Pairwise fun a b => s.expires a ≤ s.expires b
  list_nodup : ∀ c, (s.timers c).list.Nodup
  inactive_nodup : ∀ c, (s.timers c).inactive.Nodup
  heap_mem : ∀ c t, (s.cells c).Mem (s.timers c).size t ↔ s.status t = .inHeap ∧ s.cpu t = c ∧ t ∉ L
  list_mem : ∀ c t, t ∈ (s.timers c).list ↔ s.status t = .inList ∧ s.cpu t = c ∧ t ∉ L
  inactive_mem : ∀ c t, t ∈ (s.timers c).inactive ↔ s.status t = .inactive ∧ s.cpu t = c ∧ t ∉ L

variable (inv : Inv s L)

include inv

theorem Inv.limit_lt (c : ℕ) : (s.timers c).limit < 2 ^ 16 := by
  have h := inv.limit_mem c
  simp only [mem_cons, not_mem_nil, or_false] at h
  omega

/-! ## Writes -/

theorem Inv.of_limbo (htimer : ∀ x ∉ L, s'.timer x = s.timer x)
    (hlists : ∀ c, (s'.timers c).list = (s.timers c).list ∧
      (s'.timers c).inactive = (s.timers c).inactive)
    (hheap : ∀ c, (s'.timers c).size = (s.timers c).size ∧
      ∀ i ≤ (s.timers c).size, (s'.timers c).heap i = (s.timers c).heap i)
    (hlimit : ∀ c, (s'.timers c).limit ∈ [0, 15, 255, 4095, 65535] ∧
      (s.timers c).limit ≤ (s'.timers c).limit)
    (hoffset : ∀ x ∉ L, s'.heapOffset x = s.heapOffset x) : Inv s' L := by
  have hstatus : ∀ x ∉ L, s'.status x = s.status x := fun x hx => by
    rw [State.status, htimer x hx, State.status]
  have hcpu : ∀ x ∉ L, s'.cpu x = s.cpu x := fun x hx => by rw [State.cpu, htimer x hx, State.cpu]
  have hexpires : ∀ x ∉ L, s'.expires x = s.expires x := fun x hx => by
    rw [State.expires, htimer x hx, State.expires]
  have hsame : ∀ {st c x}, s.status x = st ∧ s.cpu x = c ∧ x ∉ L ↔
      s'.status x = st ∧ s'.cpu x = c ∧ x ∉ L := fun {st c x} =>
    ⟨fun h => ⟨(hstatus x h.2.2).trans h.1, (hcpu x h.2.2).trans h.2.1, h.2.2⟩,
      fun h => ⟨(hstatus x h.2.2).symm.trans h.1, (hcpu x h.2.2).symm.trans h.2.1, h.2.2⟩⟩
  refine ⟨fun c => ?_, fun c => ?_, fun c => (hlimit c).1, fun c => ?_, fun c => ?_, fun c => ?_,
    fun c x => ?_, fun c x => ?_, fun c x => ?_⟩
  · rw [(hheap c).1]
    exact (inv.heap c).congr (fun i _ hi => (hheap c).2 i hi)
      (fun x hx => hoffset x ((inv.heap_mem c x).1 hx).2.2)
      fun x hx => hexpires x ((inv.heap_mem c x).1 hx).2.2
  · rw [(hheap c).1]
    exact (inv.size_le c).trans (hlimit c).2
  · rw [(hlists c).1]
    refine (inv.sorted c).imp_of_mem fun ha hb hab => ?_
    rw [hexpires _ ((inv.list_mem c _).1 ha).2.2, hexpires _ ((inv.list_mem c _).1 hb).2.2]
    exact hab
  · rw [(hlists c).1]
    exact inv.list_nodup c
  · rw [(hlists c).2]
    exact inv.inactive_nodup c
  · rw [(hheap c).1]
    exact (Cells.mem_congr fun i _ hi => (hheap c).2 i hi).trans ((inv.heap_mem c x).trans hsame)
  · rw [(hlists c).1, inv.list_mem]
    exact hsame
  · rw [(hlists c).2, inv.inactive_mem]
    exact hsame

theorem Inv.of_timers (htimer : ∀ x ∉ L, s'.timer x = s.timer x)
    (htimers : ∀ c, ∃ running, s'.timers c = { s.timers c with running })
    (hoffset : ∀ x ∉ L, s'.heapOffset x = s.heapOffset x) : Inv s' L := by
  have hq : ∀ c, (s'.timers c).list = (s.timers c).list ∧
      (s'.timers c).inactive = (s.timers c).inactive ∧ (s'.timers c).size = (s.timers c).size ∧
      (s'.timers c).heap = (s.timers c).heap ∧ (s'.timers c).limit = (s.timers c).limit := by
    intro c
    obtain ⟨running, h⟩ := htimers c
    rw [h]
    exact ⟨rfl, rfl, rfl, rfl, rfl⟩
  refine inv.of_limbo htimer (fun c => ⟨(hq c).1, (hq c).2.1⟩)
    (fun c => ⟨(hq c).2.2.1, fun i _ => congrFun (hq c).2.2.2.1 i⟩) (fun c => ?_) hoffset
  rw [(hq c).2.2.2.2]
  exact ⟨inv.limit_mem c, le_rfl⟩

theorem Inv.of_queues (htimer : s'.timer = s.timer) (htimers : s'.timers = s.timers)
    (hoffset : s'.heapOffset = s.heapOffset) : Inv s' L :=
  inv.of_timers (fun x _ => congrFun htimer x) (fun c => ⟨_, congrFun htimers c⟩)
    fun x _ => congrFun hoffset x

theorem Inv.setTimer (ht : t ∈ L) (r : Timer) : Inv (s.setTimer t r) L :=
  inv.of_timers (fun x hx => timer_setTimer_of_ne s r fun h : x = t => hx (h ▸ ht))
    (fun c => ⟨(s.timers c).running, rfl⟩) fun _ _ => rfl

theorem Inv.setStatus (ht : t ∈ L) (st : Status) : Inv (s.setStatus t st) L :=
  inv.setTimer ht _

omit inv

theorem limbo_congr {st : Status} (h : s.status x = st → s.cpu x = c → (x ∈ L' ↔ x ∈ L)) :
    s.status x = st ∧ s.cpu x = c ∧ x ∉ L ↔ s.status x = st ∧ s.cpu x = c ∧ x ∉ L' :=
  and_congr_right fun hst => and_congr_right fun hc => not_congr (h hst hc).symm

/-- Limbo matters to no other queue than that of status `st` of CPU `c`. -/
theorem apart_iff {st st' : Status} {c' : ℕ}
    (hL : ∀ x, ¬ (s.status x = st ∧ s.cpu x = c) → (x ∈ L' ↔ x ∈ L)) (h : ¬ (st' = st ∧ c' = c)) :
    s.status x = st' ∧ s.cpu x = c' ∧ x ∉ L ↔ s.status x = st' ∧ s.cpu x = c' ∧ x ∉ L' :=
  limbo_congr fun hst hc => hL x (by rw [hst, hc]; exact h)

/-- Timers that are in no queue may be in limbo or not. -/
theorem Inv.of_unqueued (inv : Inv s L)
    (h : ∀ x, s.status x ≠ .invalid → s.status x ≠ .killed → (x ∈ L' ↔ x ∈ L)) : Inv s L' :=
  { inv with
    heap_mem := fun c x => (inv.heap_mem c x).trans
      (limbo_congr fun hst _ => h x (by simp [hst]) (by simp [hst]))
    list_mem := fun c x => (inv.list_mem c x).trans
      (limbo_congr fun hst _ => h x (by simp [hst]) (by simp [hst]))
    inactive_mem := fun c x => (inv.inactive_mem c x).trans
      (limbo_congr fun hst _ => h x (by simp [hst]) (by simp [hst])) }

theorem Inv.setQueues {ts : Timers} {o : ℕ → ℕ} {st : Status} (inv : Inv s L)
    (hL : ∀ x, ¬ (s.status x = st ∧ s.cpu x = c) → (x ∈ L' ↔ x ∈ L))
    (hheap : (Cells.mk ts.heap o).Heap s.expires ts.size) (hsize : ts.size ≤ ts.limit)
    (hlimit : ts.limit ∈ [0, 15, 255, 4095, 65535])
    (hsorted : ts.list.Pairwise fun a b => s.expires a ≤ s.expires b) (hnodup : ts.list.Nodup)
    (hnodup' : ts.inactive.Nodup)
    (hmem : ∀ x, (Cells.mk ts.heap o).Mem ts.size x ↔ s.status x = .inHeap ∧ s.cpu x = c ∧ x ∉ L')
    (hlist : ∀ x, x ∈ ts.list ↔ s.status x = .inList ∧ s.cpu x = c ∧ x ∉ L')
    (hinactive : ∀ x, x ∈ ts.inactive ↔ s.status x = .inactive ∧ s.cpu x = c ∧ x ∉ L')
    (hoffset : ∀ c' x, c' ≠ c → (s.cells c').Mem (s.timers c').size x → o x = s.heapOffset x) :
    Inv { s.setTimers c ts with heapOffset := o } L' := by
  have hself : (s.setTimers c ts).timers c = ts := update_self _ _ _
  have hother : ∀ c', c' ≠ c → (s.setTimers c ts).timers c' = s.timers c' := fun c' hc =>
    update_of_ne hc _ _
  refine ⟨fun c' => ?_, fun c' => ?_, fun c' => ?_, fun c' => ?_, fun c' => ?_, fun c' => ?_,
    fun c' x => ?_, fun c' x => ?_, fun c' x => ?_⟩ <;>
    by_cases hc : c' = c <;>
    simp only [State.cells, hc, hself, hother, ne_eq, not_false_eq_true]
  · exact hheap
  · exact (inv.heap c').congr (fun _ _ _ => rfl) (fun x hx => hoffset c' x hc hx) fun _ _ => rfl
  · exact hsize
  · exact inv.size_le c'
  · exact hlimit
  · exact inv.limit_mem c'
  · exact hsorted
  · exact inv.sorted c'
  · exact hnodup
  · exact inv.list_nodup c'
  · exact hnodup'
  · exact inv.inactive_nodup c'
  · exact hmem x
  · exact (inv.heap_mem c' x).trans (apart_iff hL fun h => hc h.2)
  · exact hlist x
  · exact (inv.list_mem c' x).trans (apart_iff hL fun h => hc h.2)
  · exact hinactive x
  · exact (inv.inactive_mem c' x).trans (apart_iff hL fun h => hc h.2)

variable (inv : Inv s L)

include inv

theorem Inv.setCells {h : Cells ℕ} {n : ℕ} (hheap : h.Heap s.expires n)
    (hn : n ≤ (s.timers c).limit)
    (hmem : ∀ x, h.Mem n x ↔ s.status x = .inHeap ∧ s.cpu x = c ∧ x ∉ L')
    (hoffset : ∀ c' x, c' ≠ c → (s.cells c').Mem (s.timers c').size x → h.offset x = s.heapOffset x)
    (hL : ∀ x, ¬ (s.status x = .inHeap ∧ s.cpu x = c) → (x ∈ L' ↔ x ∈ L)) :
    Inv (s.setCells c h n) L' := by
  unfold State.setCells
  rw [Nat.mod_eq_of_lt (Nat.lt_of_le_of_lt hn (inv.limit_lt c))]
  exact inv.setQueues hL hheap hn (inv.limit_mem c) (inv.sorted c) (inv.list_nodup c)
    (inv.inactive_nodup c) hmem (fun x => (inv.list_mem c x).trans (apart_iff hL (by simp)))
    (fun x => (inv.inactive_mem c x).trans (apart_iff hL (by simp))) hoffset

theorem Inv.setList {list : List ℕ} (hsorted : list.Pairwise fun a b => s.expires a ≤ s.expires b)
    (hnodup : list.Nodup) (hlist : ∀ x, x ∈ list ↔ s.status x = .inList ∧ s.cpu x = c ∧ x ∉ L')
    (hL : ∀ x, ¬ (s.status x = .inList ∧ s.cpu x = c) → (x ∈ L' ↔ x ∈ L)) :
    Inv (s.setTimers c { s.timers c with list }) L' :=
  inv.setQueues hL (inv.heap c) (inv.size_le c) (inv.limit_mem c) hsorted hnodup
    (inv.inactive_nodup c) (fun x => (inv.heap_mem c x).trans (apart_iff hL (by simp))) hlist
    (fun x => (inv.inactive_mem c x).trans (apart_iff hL (by simp))) fun _ _ _ _ => rfl

theorem Inv.setInactive {inactive : List ℕ} (hnodup : inactive.Nodup)
    (hinactive : ∀ x, x ∈ inactive ↔ s.status x = .inactive ∧ s.cpu x = c ∧ x ∉ L')
    (hL : ∀ x, ¬ (s.status x = .inactive ∧ s.cpu x = c) → (x ∈ L' ↔ x ∈ L)) :
    Inv (s.setTimers c { s.timers c with inactive }) L' :=
  inv.setQueues hL (inv.heap c) (inv.size_le c) (inv.limit_mem c) (inv.sorted c)
    (inv.list_nodup c) hnodup (fun x => (inv.heap_mem c x).trans (apart_iff hL (by simp)))
    (fun x => (inv.list_mem c x).trans (apart_iff hL (by simp))) hinactive fun _ _ _ _ => rfl

omit inv

section Limbo

variable {st : Status} (hst : s.status t = st) (hc : s.cpu t = c)

include hst hc

theorem mem_insert_of_apart (hx : ¬ (s.status x = st ∧ s.cpu x = c)) : x ∈ insert t L ↔ x ∈ L := by
  have hxt : x ≠ t := by
    rintro rfl
    exact hx ⟨hst, hc⟩
  exact ⟨fun h => h.resolve_left hxt, .inr⟩

theorem mem_sdiff_of_apart (hx : ¬ (s.status x = st ∧ s.cpu x = c)) : x ∈ L \ {t} ↔ x ∈ L := by
  have hxt : x ≠ t := by
    rintro rfl
    exact hx ⟨hst, hc⟩
  exact ⟨fun h => h.1, fun h => ⟨h, hxt⟩⟩

theorem arrived_iff : x = t ∨ s.status x = st ∧ s.cpu x = c ∧ x ∉ L ↔
    s.status x = st ∧ s.cpu x = c ∧ x ∉ L \ {t} := by
  constructor
  · rintro (rfl | h)
    · exact ⟨hst, hc, fun hx => hx.2 rfl⟩
    · exact ⟨h.1, h.2.1, fun hx => h.2.2 hx.1⟩
  · rintro ⟨h1, h2, h3⟩
    by_cases hxt : x = t
    · exact .inl hxt
    · exact .inr ⟨h1, h2, fun hx => h3 ⟨hx, hxt⟩⟩

omit hst hc

theorem removed_iff : x ≠ t ∧ s.status x = st ∧ s.cpu x = c ∧ x ∉ L ↔
    s.status x = st ∧ s.cpu x = c ∧ x ∉ insert t L := by
  constructor
  · exact fun h => ⟨h.2.1, h.2.2.1, fun hx => hx.elim h.1 h.2.2.2⟩
  · exact fun h => ⟨fun hx => h.2.2 (.inl hx), h.1, h.2.1, fun hx => h.2.2 (.inr hx)⟩

end Limbo

/-! ## Frames -/

structure QueuesOnly (s s' : State) : Prop where
  timer : s'.timer = s.timer
  pending : s'.softirqPending = s.softirqPending
  deadline : s'.timerDeadline = s.timerDeadline
  phase : s'.phase = s.phase
  present : s'.present = s.present

structure Rewrites (s s' : State) (t : ℕ) (r : Timer) : Prop where
  timer : s'.timer = update s.timer t r
  pending : s'.softirqPending = s.softirqPending
  deadline : s'.timerDeadline = s.timerDeadline
  phase : s'.phase = s.phase
  present : s'.present = s.present

variable {l : List ℕ} {r : Timer}

theorem Rewrites.self (h : Rewrites s s' t r) : s'.timer t = r := by
  rw [h.timer, update_self]

theorem Rewrites.other (h : Rewrites s s' t r) (hx : x ≠ t) : s'.timer x = s.timer x := by
  rw [h.timer, update_of_ne hx]

variable (inv : Inv s L)

include inv

theorem Inv.addInactive (ht : t ∈ L) (hst : s.status t = .inactive)
    (hc : s.cpu t = c) : Inv (s.addInactive c t) (L \ {t}) := by
  have hout : t ∉ (s.timers c).inactive := fun h => ((inv.inactive_mem c t).1 h).2.2 ht
  refine inv.setInactive (nodup_cons.2 ⟨hout, inv.inactive_nodup c⟩) (fun x => ?_) fun x hx =>
    mem_sdiff_of_apart hst hc hx
  rw [mem_cons, inv.inactive_mem]
  exact arrived_iff hst hc

theorem Inv.delInactive (hst : s.status t = .inactive) : Inv (s.delInactive t) (insert t L) := by
  refine inv.setInactive ((inv.inactive_nodup _).erase t) (fun x => ?_) fun x hx =>
    mem_insert_of_apart hst rfl hx
  rw [(inv.inactive_nodup _).mem_erase_iff, inv.inactive_mem]
  exact removed_iff

theorem Inv.removeFromHeap (ht : t ∉ L) (hst : s.status t = .inHeap) :
    Inv (s.removeFromHeap (s.cpu t) t).1 (insert t L) := by
  have hmem := (inv.heap_mem (s.cpu t) t).2 ⟨hst, rfl, ht⟩
  obtain ⟨h1, hn, hcell⟩ := (inv.heap (s.cpu t)).indexed.offset_of_mem hmem
  obtain ⟨hheap, hmem', hoffset⟩ := (inv.heap (s.cpu t)).remove ⟨h1, hn⟩
  have hle := inv.size_le (s.cpu t)
  refine inv.setCells hheap (by omega) (fun x => ?_) (fun c' x hc hx => ?_) fun x hx =>
    mem_insert_of_apart hst rfl hx
  · refine (hmem' x).trans ?_
    rw [hcell, inv.heap_mem]
    exact removed_iff
  · refine hoffset x fun hx' => hc ?_
    rw [← ((inv.heap_mem c' x).1 hx).2.1, ((inv.heap_mem _ x).1 hx').2.1]

theorem Inv.removeFromList (ht : t ∉ L) (hst : s.status t = .inList) :
    ∃ r, s.removeFromList (s.cpu t) t = .ok r ∧ Inv r.1 (insert t L) ∧ QueuesOnly s r.1 := by
  have hmem := (inv.list_mem (s.cpu t) t).2 ⟨hst, rfl, ht⟩
  refine ⟨_, if_pos hmem, ?_, rfl, rfl, rfl, rfl, rfl⟩
  refine inv.setList ((inv.sorted _).sublist erase_sublist) ((inv.list_nodup _).erase t)
    (fun x => ?_) fun x hx => mem_insert_of_apart hst rfl hx
  rw [(inv.list_nodup _).mem_erase_iff, inv.list_mem]
  exact removed_iff

theorem Inv.removeEntry (ht : t ∉ L) (hst : s.status t = .inHeap ∨ s.status t = .inList) :
    ∃ r, s.removeEntry t = .ok r ∧ Inv r.1 (insert t L) ∧
      Rewrites s r.1 t { s.timer t with status := .invalid } := by
  unfold State.removeEntry
  rcases hst with hst | hst
  · rw [hst]
    refine ⟨_, rfl, (inv.removeFromHeap ht hst).setStatus (Set.mem_insert t L) _, rfl, rfl, rfl,
      rfl, rfl⟩
  obtain ⟨r, hr, hinv, hq⟩ := inv.removeFromList ht hst
  rw [hst]
  rw [hr]
  refine ⟨_, rfl, hinv.setStatus (Set.mem_insert t L) _, ?_, hq.pending, hq.deadline, hq.phase,
    hq.present⟩
  show update r.1.timer t { r.1.timer t with status := .invalid } = _
  rw [hq.timer]

omit inv

/-! ## Entering a queue -/

theorem mem_insertByExpiry : x ∈ s.insertByExpiry t l ↔ x = t ∨ x ∈ l := by
  induction l with
  | nil => simp [insertByExpiry]
  | cons y l ih =>
    rw [insertByExpiry]
    split
    · rw [mem_cons, ih, mem_cons]
      exact or_left_comm
    · rw [mem_cons]

theorem nodup_insertByExpiry (h : l.Nodup) (ht : t ∉ l) : (s.insertByExpiry t l).Nodup := by
  induction l with
  | nil => exact nodup_singleton t
  | cons y l ih =>
    rw [nodup_cons] at h
    rw [mem_cons, not_or] at ht
    rw [insertByExpiry]
    split
    · refine nodup_cons.2 ⟨fun hy => ?_, ih h.2 ht.2⟩
      exact (mem_insertByExpiry.1 hy).elim (Ne.symm ht.1) h.1
    · exact nodup_cons.2 ⟨fun hy => (mem_cons.1 hy).elim ht.1 ht.2, nodup_cons.2 h⟩

theorem sorted_insertByExpiry (h : l.Pairwise fun a b => s.expires a ≤ s.expires b) :
    (s.insertByExpiry t l).Pairwise fun a b => s.expires a ≤ s.expires b := by
  induction l with
  | nil => exact pairwise_singleton _ _
  | cons y l ih =>
    have hall := pairwise_cons.1 h
    rw [insertByExpiry]
    split
    · rename_i hle
      refine pairwise_cons.2 ⟨fun b hb => ?_, ih hall.2⟩
      rcases mem_insertByExpiry.1 hb with rfl | hb
      · exact hle
      · exact hall.1 b hb
    · rename_i hlt
      refine pairwise_cons.2 ⟨fun b hb => ?_, h⟩
      rcases mem_cons.1 hb with rfl | hb
      · exact (not_le.1 hlt).le
      · exact (not_le.1 hlt).le.trans (hall.1 b hb)

theorem head_insertByExpiry (h : ¬ (s.insertByExpiry t l).head? = some t) :
    ∃ y ∈ l, s.expires y ≤ s.expires t := by
  cases l with
  | nil => exact absurd rfl h
  | cons y l =>
    rw [insertByExpiry] at h
    split at h
    · rename_i hle
      exact ⟨y, mem_cons_self, hle⟩
    · exact absurd rfl h

theorem Inv.addToList (inv : Inv s L) (ht : t ∈ L) (hst : s.status t = .inList) :
    Inv (s.addToList (s.cpu t) t).1 (L \ {t}) := by
  have hout : t ∉ (s.timers (s.cpu t)).list := fun h => ((inv.list_mem _ t).1 h).2.2 ht
  refine inv.setList (sorted_insertByExpiry (inv.sorted _))
    (nodup_insertByExpiry (inv.list_nodup _) hout) (fun x => ?_) fun x hx =>
    mem_sdiff_of_apart hst rfl hx
  rw [mem_insertByExpiry, inv.list_mem]
  exact arrived_iff hst rfl

theorem Inv.addToHeap (inv : Inv s L) (ht : t ∈ L) (hst : s.status t = .inHeap)
    (hroom : (s.timers (s.cpu t)).size ≠ (s.timers (s.cpu t)).limit) :
    Inv (s.addToHeap (s.cpu t) t).1 (L \ {t}) ∧ (s.addToHeap (s.cpu t) t).1.heapOffset t ≠ 0 ∧
      QueuesOnly s (s.addToHeap (s.cpu t) t).1 ∧
      ((s.addToHeap (s.cpu t) t).2 = false →
        ∃ y ≠ t, s.Queued (s.cpu t) y ∧ s.expires y ≤ s.expires t) := by
  have hout : ¬ (s.cells (s.cpu t)).Mem (s.timers (s.cpu t)).size t := fun h =>
    ((inv.heap_mem _ t).1 h).2.2 ht
  obtain ⟨hheap, hmem, hoffset⟩ := (inv.heap (s.cpu t)).insert hout
  have hle := inv.size_le (s.cpu t)
  have hself := hheap.indexed.offset_of_mem ((hmem t).2 (.inl rfl))
  unfold State.addToHeap
  rw [if_neg hroom]
  dsimp only
  refine ⟨inv.setCells hheap (by omega) (fun x => ?_) (fun c' x hc hx => ?_) fun x hx =>
    mem_sdiff_of_apart hst rfl hx, ?_, ⟨rfl, rfl, rfl, rfl, rfl⟩, fun hhead => ?_⟩
  · rw [hmem, inv.heap_mem]
    exact arrived_iff hst rfl
  · have hx' := (inv.heap_mem c' x).1 hx
    refine hoffset x (fun hxt => hx'.2.2 (hxt ▸ ht)) fun hx'' => hc ?_
    rw [← hx'.2.1, ((inv.heap_mem _ x).1 hx'').2.1]
  · exact Nat.one_le_iff_ne_zero.1 hself.1
  · -- the root is another timer
    have hroot := (hmem _).1 ⟨1, le_rfl, by omega, rfl⟩
    have hne : ((s.cells (s.cpu t)).insert s.expires (s.timers (s.cpu t)).size t).heap 1 ≠ t := by
      intro heq
      have h1 := hheap.indexed 1 le_rfl (by omega)
      rw [heq] at h1
      rw [h1] at hhead
      cases hhead
    have hy := (inv.heap_mem _ _).1 (hroot.resolve_left hne)
    exact ⟨_, hne, ⟨.inl hy.1, hy.2.1⟩, hheap.root_le ((hmem t).2 (.inl rfl))⟩

/-- The timer left limbo. If it is not a new head, some timer that was there does not expire later.
-/
structure Added (s s' : State) (L : Set ℕ) (t : ℕ) (head : Bool) : Prop where
  inv : Inv s' (L \ {t})
  rewrites : Rewrites s s' t { s.timer t with status := .inHeap } ∨
    Rewrites s s' t { s.timer t with status := .inList }
  covered : head = false → ∃ y ≠ t, s.Queued (s.cpu t) y ∧ s.expires y ≤ s.expires t

theorem Added.exists_rewrites {head : Bool} (h : Added s s' L t head) :
    ∃ st, (st = .inHeap ∨ st = .inList) ∧ Rewrites s s' t { s.timer t with status := st } :=
  h.rewrites.elim (fun h => ⟨.inHeap, .inl rfl, h⟩) fun h => ⟨.inList, .inr rfl, h⟩

theorem Inv.addEntry (inv : Inv s L) (ht : t ∈ L) (hst : s.status t = .invalid) :
    ∃ r, s.addEntry t = .ok r ∧ Added s r.1 L t r.2 := by
  unfold State.addEntry
  rw [if_neg (not_not.2 hst)]
  dsimp only
  set s₁ := { s with heapOffset := update s.heapOffset t 0 }.setStatus t .inHeap with hs₁
  have hinv₁ : Inv s₁ L := by
    refine inv.of_timers (fun x hx => ?_) (fun c => ⟨(s.timers c).running, rfl⟩) fun x hx => ?_
    · exact update_of_ne (fun h : x = t => hx (h ▸ ht)) _ _
    · exact update_of_ne (fun h : x = t => hx (h ▸ ht)) _ _
  have hself : s₁.timer t = { s.timer t with status := .inHeap } := update_self _ _ _
  have hother : ∀ y, y ≠ t → s₁.timer y = s.timer y := fun y hy => update_of_ne hy _ _
  have hcpu : s₁.cpu t = s.cpu t := by rw [State.cpu, hself, State.cpu]
  have hexpires : s₁.expires t = s.expires t := by rw [State.expires, hself, State.expires]
  have hst₁ : s₁.status t = .inHeap := by rw [State.status, hself]
  have hold : ∀ c y, y ≠ t → s₁.Queued c y → s.Queued c y := fun c y hy h => by
    unfold State.Queued State.status State.cpu at h ⊢
    rw [hother y hy] at h
    exact h
  have hkey : ∀ y, y ≠ t → s₁.expires y = s.expires y := fun y hy => by
    rw [State.expires, hother y hy, State.expires]
  by_cases hroom : (s₁.timers (s₁.cpu t)).size = (s₁.timers (s₁.cpu t)).limit
  · have hfull : s₁.addToHeap (s₁.cpu t) t = (s₁, false) := if_pos hroom
    rw [hfull]
    rw [if_neg (not_not.2 (show s₁.heapOffset t = 0 from update_self _ _ _))]
    have hst₂ : (s₁.setStatus t .inList).status t = .inList := by
      rw [State.setStatus, State.status, timer_setTimer]
    have hcpu₂ : (s₁.setStatus t .inList).cpu t = s₁.cpu t := by
      rw [State.setStatus, State.cpu, timer_setTimer]
      rfl
    refine ⟨_, rfl, ?_, .inr ⟨?_, rfl, rfl, rfl, rfl⟩, fun hhead => ?_⟩
    · rw [← hcpu₂]
      exact (hinv₁.setStatus ht .inList).addToList ht hst₂
    · show update s₁.timer t { s₁.timer t with status := .inList } = _
      rw [hself]
      exact update_idem _ _ _
    · have hhead' : ¬ (((s₁.setStatus t .inList).insertByExpiry t
          ((s₁.setStatus t .inList).timers (s₁.cpu t)).list).head? = some t) := by
        intro h
        have hhead : (_ == _) = false := hhead
        rw [h] at hhead
        simp at hhead
      obtain ⟨y, hy, hle⟩ := head_insertByExpiry hhead'
      have hmem := (hinv₁.list_mem (s₁.cpu t) y).1 hy
      have hyt : y ≠ t := fun h => hmem.2.2 (h ▸ ht)
      refine ⟨y, hyt, hcpu ▸ hold _ y hyt ⟨.inr hmem.1, hmem.2.1⟩, ?_⟩
      have h1 : (s₁.setStatus t .inList).expires y = s.expires y := by
        refine Eq.trans ?_ (hkey y hyt)
        exact congrArg Timer.expires (update_of_ne hyt _ _)
      have h2 : (s₁.setStatus t .inList).expires t = s.expires t := by
        rw [← hexpires]
        rw [State.setStatus, State.expires, timer_setTimer]
        rfl
      rw [h1, h2] at hle
      exact hle
  · obtain ⟨hinv, hoffset, hq, hcov⟩ := hinv₁.addToHeap ht hst₁ hroom
    rw [if_pos hoffset]
    refine ⟨_, rfl, hinv, .inl ⟨hq.timer, hq.pending, hq.deadline, hq.phase, hq.present⟩,
      fun hhead => ?_⟩
    obtain ⟨y, hyt, hy, hle⟩ := hcov hhead
    rw [hkey y hyt, hexpires] at hle
    exact ⟨y, hyt, hcpu ▸ hold _ y hyt hy, hle⟩

end XenVmi.TimerQueue
