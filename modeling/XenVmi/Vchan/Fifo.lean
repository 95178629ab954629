import XenVmi.Vchan.Flow
import Mathlib.Data.List.Forall2

/-!
# A vchan as a byte FIFO

`IsFifo`: in each direction, what the successful reads have returned is a prefix of what the writing
calls have published. `do_send` and `do_recv` return -1 when the notification fails, after they have
moved the index. The loop of `libxenvchan_write` adds that -1 to `pos` and sends the same bytes
again.
-/

namespace XenVmi.Vchan

open XenVmi.Lib List

variable {g : Geometry} {c c' : Chan} {s d : Side} {call : Call} {f f' : Frame} {ok : Bool}
  {a : Act}
  {N C n : ℕ} {S : List UInt8} {l : Lane} {r r' : Ring} {nx : Next}

/-! ## The property -/

structure Contributes (x : Sent) (part : List UInt8) : Prop where
  of_buffer : part <+: x.call.given
  length : ∀ r, x.result = some r → 0 ≤ r → (part.length : ℤ) = r

def returned (xs : List Received) : List UInt8 :=
  (xs.filter fun x => decide (0 ≤ x.result)).flatMap (·.data)

/-- The writing calls that have been made, the last of them perhaps still on its way. -/
def Chan.calls (c : Chan) (d : Side) : List Sent :=
  c.sent d ++ ((c.proc d).writing.map fun x => ⟨x.1, none⟩).toList

structure IsFifo (c : Chan) (d : Side) : Prop where
  counted : ∀ x ∈ c.received d.peer, 0 ≤ x.result → (x.data.length : ℤ) = x.result
  stream : ∃ parts, List.Forall₂ Contributes (c.calls d) parts ∧
    returned (c.received d.peer) <+: parts.flatten

/-! ## The accounts of one direction -/

def Lane.current (l : Lane) : List UInt8 :=
  match l.writer with
  | none => []
  | some (call, f) => call.given.take (Call.published f)

def Lane.taken (l : Lane) : List UInt8 :=
  match l.reader with
  | none => []
  | some (_, f) => f.taken

structure Account (l : Lane) (S : List UInt8) (C : ℕ) : Prop where
  sized : ∀ call f, l.writer = some (call, f) → call.streams = true → call.size < 2 ^ 32
  sent : ∃ parts, List.Forall₂ Contributes l.sent parts ∧ S = parts.flatten ++ l.current
  taken : S.take C = returned l.received ++ l.taken
  counted : ∀ x ∈ l.received, 0 ≤ x.result → (x.data.length : ℤ) = x.result

theorem returned_append (xs : List Received) (x : Received) :
    returned (xs ++ [x]) = returned xs ++ if 0 ≤ x.result then x.data else [] := by
  unfold returned
  split <;> simp [*]

theorem take_contributes {m : ℕ} {r : ℤ} (hm : m ≤ call.size) (hr : 0 ≤ r → r = m) :
    Contributes ⟨call, some r⟩ (call.given.take m) := by
  refine ⟨ take_prefix _ _, ?_⟩
  rintro r' heq h
  cases heq
  rw [hr h, length_take_of_le]
  unfold Call.given
  rwa [Call.length_bytes]

namespace Account

variable (h : Account l S C)

include h

theorem writer_next (hl : l.writer = some (call, f)) (hm : Call.published f ≤ call.size)
    (hnx : nx.Meets (fun f' => Call.published f' = Call.published f)
      (call.Settles (Call.published f))) : Account (l.writerNext call nx) S C := by
  obtain ⟨parts, hparts, hS⟩ := h.sent
  have hcur : l.current = call.given.take (Call.published f) := by rw [Lane.current, hl]
  cases nx with
  | goto f' =>
    refine ⟨?_, ⟨parts, hparts, ?_⟩, h.taken, h.counted⟩
    · intro call' f'' heq
      cases heq
      exact h.sized call f hl
    · show S = parts.flatten ++ call.given.take (Call.published f')
      rw [hS, hcur, show Call.published f' = _ from hnx]
  | ret r =>
    refine ⟨?_, ⟨parts ++ [call.given.take (Call.published f)], ?_, ?_⟩, h.taken, h.counted⟩
    · intro call' f'' heq
      cases heq
    · exact rel_append hparts
        (.cons (take_contributes hm fun hr => hnx (h.sized call f hl) hr) .nil)
    · show S = _ ++ []
      rw [hS, hcur, flatten_append, flatten_singleton, append_nil]

theorem reader_next (hl : l.reader = some (call, f))
    (hnx : nx.Meets (fun f' => f'.taken = f.taken) (Returns f)) :
    Account (l.readerNext call f nx) S C := by
  have htaken : l.taken = f.taken := by rw [Lane.taken, hl]
  cases nx with
  | goto f' =>
    refine ⟨h.sized, h.sent, ?_, h.counted⟩
    show S.take C = returned l.received ++ f'.taken
    rw [show f'.taken = _ from hnx, ← htaken, h.taken]
  | ret r =>
    have hret : Returns f r := hnx
    refine ⟨h.sized, h.sent, ?_, ?_⟩
    · show S.take C = returned (l.received ++ [⟨f.got, r⟩]) ++ []
      rw [returned_append, append_nil, h.taken, htaken]
      congr 1
      split
      · exact (hret.taken ‹_›).1.symm
      · exact hret.failed (not_le.1 ‹_›)
    · intro x hx
      rcases mem_append.1 hx with hx | hx
      · exact h.counted x hx
      · rw [mem_singleton] at hx
        subst hx
        exact fun hr => (hret.taken hr).2

theorem publish (hl : l.writer = some (call, f)) (hC : C ≤ S.length)
    (hpub : Call.published f' = Call.published f + n) (hin : Call.published f + n ≤ call.size) :
    Account ((l.setRing r').writerNext call (.goto f'))
      (S ++ call.bytes (Call.published f) n) C := by
  obtain ⟨parts, hparts, hS⟩ := h.sent
  have hcur : l.current = call.given.take (Call.published f) := by rw [Lane.current, hl]
  refine ⟨?_, ⟨parts, hparts, ?_⟩, ?_, h.counted⟩
  · intro call' f'' heq
    cases heq
    exact h.sized call f hl
  · show _ = parts.flatten ++ call.given.take (Call.published f')
    rw [hpub, Call.given_take_add hin, ← append_assoc, ← hcur, ← hS]
  · rw [take_append_of_le_length hC]
    exact h.taken

theorem take (hl : l.reader = some (call, f)) (ht : f'.taken = f.taken ++ (S.drop C).take n) :
    Account ((l.setRing r').readerNext call f (.goto f')) S (C + n) := by
  refine ⟨h.sized, h.sent, ?_, h.counted⟩
  show S.take (C + n) = returned l.received ++ f'.taken
  have htaken : l.taken = f.taken := by rw [Lane.taken, hl]
  rw [take_add, h.taken, htaken, ht, append_assoc]

end Account

/-! ## One step -/

theorem lane_writer_of_busy (hp : c.proc s = .busy call f) (hw : call.op.writes = true) :
    (c.lane s).writer = some (call, f) := by
  simp [Chan.lane, hp, Proc.writing, hw]

theorem lane_reader_of_busy (hp : c.proc s = .busy call f) (hw : call.op.writes = false) :
    (c.lane s.peer).reader = some (call, f) := by
  simp [Chan.lane, hp, Proc.reading, hw]

theorem published_le (h : Staged N r.buffer n C call f) : Call.published f ≤ call.size := by
  refine Nat.le_trans (Nat.add_le_add_left ?_ _) h.inside
  cases f.pc <;> first | exact Nat.le_refl _ | exact Nat.zero_le _

theorem run_writes (hp : c.proc s = .busy call f) (hw : call.op.writes = true)
    (h : c.run g s call f ok = .ok c') (hok : StreamNotified call f ok)
    (hflow : Flow (g.size s) (c.lane s) S C) :
    ∃ S', Flow (g.size s) (c'.lane s) S' C ∧
      (Account (c.lane s) S C → Account (c'.lane s) S' C) := by
  have hl := lane_writer_of_busy hp hw
  have hst := hflow.writer call f hl
  have hd : call.op.lane s = s := if_pos hw
  obtain ⟨c₁, nx, hsame, rfl, hlocal⟩ | ⟨r', f', rfl, hmoves⟩ := run_cases h
  · rw [hd] at hlocal
    have hnx := hlocal.writer hw hst (hflow.space (g.order_le s)) hflow.le hflow.fits
      (g.size_le s) hok
    rw [lane_next_writes hw, hsame.lane]
    refine ⟨S, hflow.writer_next (hnx.mono (fun _ h => h.1) fun _ _ => trivial), fun ha => ?_⟩
    exact ha.writer_next hl (published_le hst) (hnx.mono (fun _ h => h.2) fun _ h => h)
  · rw [hd] at hmoves ⊢
    obtain ⟨n, hflow', hpub, hin⟩ := hflow.writer_moves (g.order_le s) hl hw hmoves
    rw [lane_next_writes hw, lane_setRing_self]
    exact ⟨_, hflow', fun ha => ha.publish hl hflow.le hpub hin⟩

theorem run_reads (hp : c.proc s = .busy call f) (hw : call.op.writes = false)
    (h : c.run g s call f ok = .ok c') (hflow : Flow (g.size s.peer) (c.lane s.peer) S C) :
    ∃ C', Flow (g.size s.peer) (c'.lane s.peer) S C' ∧
      (ReadNotified f ok → Account (c.lane s.peer) S C → Account (c'.lane s.peer) S C') := by
  have hl := lane_reader_of_busy hp hw
  have hd : call.op.lane s = s.peer := if_neg (by simp [hw])
  obtain ⟨c₁, nx, hsame, rfl, hlocal⟩ | ⟨r', f', rfl, hmoves⟩ := run_cases h
  · rw [hd] at hlocal
    have hnx := hlocal.reader hw (hflow.reader call f hl) (hflow.ready (g.order_le s.peer)) hflow.le
      hflow.fits (g.size_le s.peer)
    rw [lane_next_reads hw, hsame.lane]
    refine ⟨C, hflow.reader_next (hnx.mono (fun _ h => h.1) fun _ _ => trivial), fun hok ha => ?_⟩
    exact ha.reader_next hl (hnx.mono (fun _ h => h.2) fun _ h => h hok)
  · rw [hd] at hmoves ⊢
    obtain ⟨n, hflow', ht⟩ := hflow.reader_moves (g.order_le s.peer) hl hw hmoves
    rw [lane_next_reads hw, lane_setRing_self]
    exact ⟨_, hflow', fun _ ha => ha.take hl ht⟩

theorem call_keeps {f₀ : Frame} (hp : c.proc s = .idle) (hflow : Flow (g.size d) (c.lane d) S C) :
    Flow (g.size d) ((c.next s call f₀ (.goto (call.enter 0))).lane d) S C ∧
      ((call.streams = true → call.size < 2 ^ 32) → Account (c.lane d) S C →
        Account ((c.next s call f₀ (.goto (call.enter 0))).lane d) S C) := by
  rcases (call.op.lane s).eq_or_eq_peer d with rfl | rfl
  · cases hw : call.op.writes with
    | true =>
      have hd : call.op.lane s = s := if_pos hw
      rw [hd] at hflow ⊢
      rw [lane_next_writes hw]
      have hpc : (call.enter 0).pc = .isOpen := if_pos hw
      refine ⟨hflow.writer_next (staged_of_amount (Nat.zero_le _) (fun _ => rfl) ?_ ?_), ?_⟩
      · rw [hpc]; rfl
      · rw [hpc]; trivial
      · intro hsize ha
        obtain ⟨parts, hparts, hS⟩ := ha.sent
        refine ⟨?_, ⟨parts, hparts, ?_⟩, ha.taken, ha.counted⟩
        · intro call' f' heq
          cases heq
          exact hsize
        · have hcur : (c.lane s).current = [] := by simp [Lane.current, Chan.lane, hp, Proc.writing]
          have hpub : Call.published (call.enter 0) = 0 := by
            unfold Call.published
            rw [hpc]
            rfl
          rw [hS, hcur]
          show _ = parts.flatten ++ call.given.take (Call.published (call.enter 0))
          rw [hpub, take_zero]
    | false =>
      have hd : call.op.lane s = s.peer := if_neg (by simp [hw])
      rw [hd] at hflow ⊢
      rw [lane_next_reads hw]
      have hpc : (call.enter 0).pc = .measure := if_neg (by simp [hw])
      refine ⟨hflow.reader_next (show Fetched _ _ _ _ (call.enter 0).pc by rw [hpc]; rfl), ?_⟩
      intro _ ha
      refine ⟨ha.sized, ha.sent, ?_, ha.counted⟩
      rw [ha.taken]
      simp [Lane.taken, Lane.readerNext, Frame.taken, hpc, Chan.lane, hp, Proc.reading]
  · rw [lane_call_other hp]
    exact ⟨hflow, fun _ ha => ha⟩

/-- No notification of a blocking `libxenvchan_write` fails. -/
def StreamsNotified (c : Chan) : Act → Prop
  | .run s ok => ∀ call f, c.proc s = .busy call f → StreamNotified call f ok
  | _ => True

/-- No notification of a reading call fails, and a blocking `libxenvchan_write` has a size that an
`int` can tell. -/
def ReadsNotified (c : Chan) : Act → Prop
  | .call _ call => call.streams = true → call.size < 2 ^ 32
  | .run s ok => ∀ call f, c.proc s = .busy call f → call.op.writes = false → ReadNotified f ok
  | .event _ => True

theorem step_keeps (h : c.step g a = .ok c') (hg : StreamsNotified c a)
    (hflow : Flow (g.size d) (c.lane d) S C) :
    ∃ S' C', Flow (g.size d) (c'.lane d) S' C' ∧
      (ReadsNotified c a → Account (c.lane d) S C → Account (c'.lane d) S' C') := by
  cases a with
  | event s =>
    cases h
    exact ⟨S, C, hflow, fun _ ha => ha⟩
  | call s call =>
    obtain ⟨hp, rfl⟩ := step_call (f := ⟨.wait, 0, []⟩) h
    exact ⟨S, C, (call_keeps hp hflow).1, fun hr => (call_keeps hp hflow).2 hr⟩
  | run s ok =>
    obtain ⟨call, f, hp, hrun⟩ := step_run h
    rcases (call.op.lane s).eq_or_eq_peer d with rfl | rfl
    · cases hw : call.op.writes with
      | true =>
        have hd : call.op.lane s = s := if_pos hw
        rw [hd] at hflow ⊢
        obtain ⟨S', hflow', hacc⟩ := run_writes hp hw hrun (hg call f hp) hflow
        exact ⟨S', C, hflow', fun _ => hacc⟩
      | false =>
        have hd : call.op.lane s = s.peer := if_neg (by simp [hw])
        rw [hd] at hflow ⊢
        obtain ⟨C', hflow', hacc⟩ := run_reads hp hw hrun hflow
        exact ⟨S, C', hflow', fun hr => hacc (hr call f hp hw)⟩
    · rw [run_lane_other hp hrun]
      exact ⟨S, C, hflow, fun _ ha => ha⟩

/-! ## Runs -/

theorem initial_flow (hinit : Initial c) (d : Side) : Flow N (c.lane d) [] 0 := by
  refine ⟨hinit.prod d, hinit.cons d, Nat.le_refl _, Nat.zero_le _, ringHolds_nil, ?_, ?_⟩ <;>
    intro call f heq
  · simp [Chan.lane, hinit.proc, Proc.writing] at heq
  · simp [Chan.lane, hinit.proc, Proc.reading] at heq

theorem initial_account (hinit : Initial c) (d : Side) : Account (c.lane d) [] 0 := by
  constructor <;>
    simp [Chan.lane, hinit.proc, hinit.sent, hinit.received, Proc.writing, Proc.reading,
      Lane.current, Lane.taken, returned]

theorem Account.isFifo (h : Account (c.lane d) S C) : IsFifo c d := by
  obtain ⟨parts, hparts, hS⟩ := h.sent
  have hpre : returned (c.received d.peer) <+: S :=
    (show returned (c.received d.peer) <+: S.take C from ⟨_, h.taken.symm⟩).trans
      ( take_prefix C S)
  refine ⟨h.counted, ?_⟩
  cases hw : (c.lane d).writer with
  | none =>
    have hcalls : c.calls d = c.sent d := by
      rw [Chan.calls, show (c.proc d).writing = none from hw]
      exact append_nil _
    rw [hcalls]
    refine ⟨parts, hparts, ?_⟩
    rwa [hS, Lane.current, hw, append_nil] at hpre
  | some x =>
    obtain ⟨call, f⟩ := x
    have hcalls : c.calls d = c.sent d ++ [⟨call, none⟩] := by
      rw [Chan.calls, show (c.proc d).writing = some (call, f) from hw]
      rfl
    rw [hcalls]
    refine ⟨parts ++ [call.given.take (Call.published f)], rel_append hparts (.cons ?_ .nil), ?_⟩
    · exact ⟨ take_prefix _ _, nofun⟩
    · have hcur : (c.lane d).current = call.given.take (Call.published f) := by
        rw [Lane.current, hw]
      rwa [flatten_append, flatten_singleton, ← hcur, ← hS]

/-- **Both directions are byte FIFOs** if only `libxenvchan_send` and the non-blocking
`libxenvchan_write` see their notifications fail. -/
theorem vchan_is_fifo {c₀ : Chan} (hinit : Initial c₀)
    (run : Reaches (Chan.step g) (fun c a => StreamsNotified c a ∧ ReadsNotified c a) c₀ c)
      (d : Side) :
    IsFifo c d := by
  have hinv : ∃ S C, Flow (g.size d) (c.lane d) S C ∧ Account (c.lane d) S C := by
    refine run.invariant (P := fun c => ∃ S C, Flow (g.size d) (c.lane d) S C ∧
      Account (c.lane d) S C) ?_ ⟨[], 0, initial_flow hinit d, initial_account hinit d⟩
    rintro c a c' ⟨hs, hr⟩ hstep ⟨S, C, hflow, hacc⟩
    obtain ⟨S', C', hflow', hkeep⟩ := step_keeps hstep hs hflow
    exact ⟨S', C', hflow', hkeep hr hacc⟩
  obtain ⟨S, C, -, hacc⟩ := hinv
  exact hacc.isFifo

def smallRings : Geometry := ⟨fun _ => 10, fun _ => Nat.le_refl _, fun _ => by decide⟩

def freshChan : Chan where
  ring _ := ⟨0, 0, fun _ => 0⟩
  notify _ b := b = .write
  pending _ := false
  proc _ := .idle
  sent _ := []
  received _ := []

theorem initial_freshChan : Initial freshChan := by
  constructor <;> intro s <;> rfl

theorem one_lt_size : 1 < 2 ^ 63 := by decide

theorem five_lt_size : 5 < 2 ^ 63 := by decide

/-- A blocking `libxenvchan_write` of two bytes. -/
def writeTwo : Call where
  op := .write
  blocking := true
  data i := if i = 0 then 97 else if i = 1 then 98 else 0
  size := 2
  size_lt := by decide

def readUpTo (n : ℕ) (h : n < 2 ^ 63) : Call := ⟨.read, true, fun _ => 0, n, h⟩

def writeReadRun : List Act :=
  [.call .client writeTwo, .call .server (readUpTo 5 five_lt_size)] ++
    List.replicate 6 (.run .client true) ++ List.replicate 6 (.run .server true)

theorem vchan_is_fifo_write_read :
    ∃ c, writeReadRun.foldlM (Chan.step smallRings) freshChan = .ok c ∧
      returned (c.received .server) = [97, 98] ∧ IsFifo c .client := by
  obtain ⟨c, hc, hret⟩ : ∃ c, writeReadRun.foldlM (Chan.step smallRings) freshChan = .ok c ∧
      returned (c.received .server) = [97, 98] := by
    decide +kernel
  refine ⟨c, hc, hret, vchan_is_fifo initial_freshChan (.of_foldlM (fun a ha c => ?_) hc) .client⟩
  simp only [writeReadRun, mem_append, mem_cons, not_mem_nil, or_false,
    mem_replicate] at ha
  rcases ha with ((rfl | rfl) | ⟨-, rfl⟩) | ⟨-, rfl⟩
  · exact ⟨trivial, fun _ => by decide⟩
  · exact ⟨trivial, nofun⟩
  · exact ⟨fun _ _ _ _ _ _ => rfl, fun _ _ _ _ _ _ => rfl⟩
  · exact ⟨fun _ _ _ _ _ _ => rfl, fun _ _ _ _ _ _ => rfl⟩

/-- **Nothing is lost or doubled**: between calls, what the writing calls have published is what the
reads have returned and, behind it, the bytes that are ready in the ring. -/
theorem vchan_conserves {c₀ : Chan} (hinit : Initial c₀)
    (run : Reaches (Chan.step g) (fun c a => StreamsNotified c a ∧ ReadsNotified c a) c₀ c)
    (hidle : ∀ s, c.proc s = .idle) (d : Side) :
    ∃ parts held, Forall₂ Contributes (c.sent d) parts ∧
      parts.flatten = returned (c.received d.peer) ++ held ∧
      held.length = rawGetDataReady (g.size d) (c.ring d) ∧
      ∃ C, (c.ring d).cons = BitVec.ofNat 32 C ∧ RingHolds (g.size d) (c.ring d).buffer C held := by
  obtain ⟨S, C, hflow, hacc⟩ : ∃ S C, Flow (g.size d) (c.lane d) S C ∧ Account (c.lane d) S C := by
    refine run.invariant (P := fun c => ∃ S C, Flow (g.size d) (c.lane d) S C ∧
      Account (c.lane d) S C) ?_ ⟨[], 0, initial_flow hinit d, initial_account hinit d⟩
    rintro c a c' ⟨hs, hr⟩ hstep ⟨S, C, hflow, hacc⟩
    obtain ⟨S', C', hflow', hkeep⟩ := step_keeps hstep hs hflow
    exact ⟨S', C', hflow', hkeep hr hacc⟩
  obtain ⟨parts, hparts, hS⟩ := hacc.sent
  have htaken := hacc.taken
  simp only [Lane.current, Lane.taken, Chan.lane, hidle, Proc.writing, Proc.reading,
    append_nil] at hS htaken
  refine ⟨parts, S.drop C, hparts, ?_, ?_, C, hflow.cons, hflow.held⟩
  · rw [← hS, ← htaken, take_append_drop]
  · rw [length_drop]
    exact (hflow.ready (g.order_le d)).symm

/-- Two bytes are written and not read. -/
theorem vchan_conserves_write : ∃ (c : Chan) (parts : _) (held : _),
    Forall₂ Contributes (c.sent .client) parts ∧
      parts.flatten = returned (c.received .server) ++ held ∧ held.length = 2 := by
  obtain ⟨c, hc, hready, hidle⟩ : ∃ c,
      (Act.call .client writeTwo :: replicate 6 (.run .client true)).foldlM (Chan.step smallRings)
        freshChan = .ok c ∧ rawGetDataReady (smallRings.size .client) (c.ring .client) = 2 ∧
      ∀ s, c.proc s = .idle := ⟨_, rfl, by decide +kernel, fun s => by cases s <;> rfl⟩
  have run : Reaches (Chan.step smallRings) (fun c a => StreamsNotified c a ∧ ReadsNotified c a)
      freshChan c := by
    refine .of_foldlM (fun a ha c => ?_) hc
    rcases mem_cons.1 ha with rfl | ha
    · exact ⟨trivial, fun _ => by decide⟩
    · obtain ⟨-, rfl⟩ := mem_replicate.1 ha
      exact ⟨fun _ _ _ _ _ _ => rfl, fun _ _ _ _ _ _ => rfl⟩
  obtain ⟨parts, held, hparts, hsum, hlen, -⟩ :=
    vchan_conserves initial_freshChan run hidle .client
  exact ⟨c, parts, held, hparts, hsum, hlen.trans hready⟩

theorem IsFifo.length_le (h : IsFifo c d) :
    (returned (c.received d.peer)).length ≤ ((c.calls d).map fun x => x.call.size).sum := by
  obtain ⟨parts, hparts, hpre⟩ := h.stream
  refine Nat.le_trans hpre.length_le ?_
  clear hpre
  generalize c.calls d = calls at hparts
  induction hparts with
  | nil => exact Nat.le_refl _
  | cons hx _ ih =>
    rw [flatten_cons, length_append, map_cons, sum_cons]
    refine Nat.add_le_add ?_ ih
    have hle := hx.of_buffer.length_le
    rwa [Call.given, Call.length_bytes] at hle

/-- The client writes two bytes and the notification fails; a byte from the server ends its wait; it
sends its bytes again and returns; the server reads. -/
def resendRun : List Act :=
  .call .client writeTwo :: List.replicate 5 (Act.run .client true) ++ [.run .client false] ++
  .call .server { writeTwo with size := 1, size_lt := one_lt_size } ::
    List.replicate 6 (.run .server true) ++
  List.replicate 6 (.run .client true) ++
  .call .server (readUpTo 5 five_lt_size) :: List.replicate 4 (.run .server true)

/-- The bytes are sent again, with the byte before the buffer in front of them. -/
theorem failed_notify_resends :
    ∃ c, resendRun.foldlM (Chan.step smallRings) freshChan = .ok c ∧
      returned (c.received .server) = [97, 98, 0, 97, 98] ∧ ¬ IsFifo c .client := by
  obtain ⟨c, hc, hret, hsum⟩ : ∃ c, resendRun.foldlM (Chan.step smallRings) freshChan = .ok c ∧
      returned (c.received .server) = [97, 98, 0, 97, 98] ∧
      ((c.calls .client).map fun x => x.call.size).sum = 2 := by
    decide +kernel
  refine ⟨c, hc, hret, fun h => ?_⟩
  have hle := h.length_le
  rw [show Side.client.peer = .server from rfl, hret, hsum] at hle
  exact absurd hle (by decide)

end XenVmi.Vchan
