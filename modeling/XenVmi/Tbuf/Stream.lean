import XenVmi.Tbuf.Insert
import Mathlib.Data.List.Forall2

/-!
# The buffer as a queue of records

`Queue cfg s gone live`: the records stored so far are `gone ++ live`, as bytes; `gone` has been
consumed, and the data area holds `live`.
-/

namespace XenVmi.Tbuf

open XenVmi.Lib List

def bytesOf (l : List (List Byte)) : Nat := l.flatten.length

@[simp] theorem bytesOf_append (l l' : List (List Byte)) :
    bytesOf (l ++ l') = bytesOf l + bytesOf l' := by
  simp [bytesOf]

@[simp] theorem bytesOf_singleton (bs : List Byte) : bytesOf [bs] = bs.length := by
  simp [bytesOf]

/-- The data area holds the records `live`; the records `gone` stood there before. -/
structure Queue (cfg : TbufConfig) (s : Tracer) (gone live : List (List Byte)) : Prop where
  pos : At cfg s (bytesOf gone) (bytesOf gone + bytesOf live)
  encodes : List.Forall₂ Encodes s.stored (gone ++ live)
  holds : RingHolds cfg.dataSize s.dataByte (bytesOf gone) live.flatten
  inArea : ∀ st ∈ s.stored, st.offset + st.size ≤ cfg.dataSize
  blocks : NoStraddle cfg.dataSize 0 (gone ++ live)
  quiet : s.warnings = []

def Tracer.ring (s : Tracer) : Bool × Nat × Nat × (Nat → Nat → Byte) × List Warning × List Stored :=
  (s.initDone, s.cons, s.prod, s.page, s.warnings, s.stored)

section Queue

variable {cfg : TbufConfig} {s s' : Tracer} {gone live : List (List Byte)}

theorem Queue.congr (q : Queue cfg s gone live) (h : s'.ring = s.ring) :
    Queue cfg s' gone live := by
  simp only [Tracer.ring, Prod.mk.injEq] at h
  obtain ⟨hinit, hcons, hprod, hpage, hwarn, hstored⟩ := h
  have hbyte : s'.dataByte = s.dataByte := by
    funext i
    rw [Tracer.dataByte, hpage, Tracer.dataByte]
  refine ⟨⟨hprod ▸ q.pos.prod, hcons ▸ q.pos.cons, q.pos.le, q.pos.fits, q.pos.prod_mod,
    q.pos.cons_mod, hinit ▸ q.pos.init⟩, hstored ▸ q.encodes, hbyte ▸ q.holds, hstored ▸ q.inArea,
    q.blocks, hwarn ▸ q.quiet⟩

variable {bs : List Byte} {st : Stored}

theorem Queue.exists_encodes (q : Queue cfg s gone live) (h : bs ∈ gone ++ live) :
    ∃ st, Encodes st bs := by
  obtain ⟨i, hi, hbs⟩ := mem_iff_getElem.1 h
  have hst := q.encodes.get (by rw [q.encodes.length_eq]; exact hi) hi
  rw [get_eq_getElem, get_eq_getElem, hbs] at hst
  exact ⟨_, hst⟩

theorem Encodes.length_mod (h : Encodes st bs) : bs.length % 4 = 0 := by
  obtain ⟨extra, rfl, hmod, -, -⟩ := h.layout
  rw [length_recBytes]
  split <;> omega

theorem Queue.insert (q : Queue cfg s gone live)
    (hi : Inserted cfg s (bytesOf gone + bytesOf live) st bs s')
    (hend : (bytesOf gone + bytesOf live) % cfg.dataSize + bs.length ≤ cfg.dataSize)
    (hroom : bytesOf live + bs.length ≤ cfg.dataSize) : Queue cfg s' gone (live ++ [bs]) := by
  have hlen : bytesOf (live ++ [bs]) = bytesOf live + bs.length := by simp
  refine ⟨⟨?_, ?_, ?_, ?_, ?_, ?_, ?_⟩, ?_, ?_, ?_, ?_, ?_⟩
  · rw [hi.prod, hlen, Nat.add_assoc]
  · rw [hi.rest]
    exact q.pos.cons
  · omega
  · omega
  · have := q.pos.prod_mod
    have := hi.encodes.length_mod
    omega
  · exact q.pos.cons_mod
  · rw [hi.rest]
    exact q.pos.init
  · rw [hi.stored, ← append_assoc]
    exact rel_append q.encodes (.cons hi.encodes .nil)
  · rw [flatten_append, flatten_singleton, ringHolds_append]
    have hfl : live.flatten.length = bytesOf live := rfl
    refine ⟨q.holds.keep hroom fun j hj hne => ?_, fun i b hb => ?_⟩
    · -- outside the record nothing has changed
      rw [hi.bytes j]
      split
      · rw [List.getElem?_eq_none, Option.getD_none]
        by_contra hlt
        refine hne (j - (bytesOf gone + bytesOf live) % cfg.dataSize) (by omega) ?_
        rw [hfl, cell_add (by omega)]
        omega
      · rfl
    · have hib : i < bs.length := (List.getElem?_eq_some_iff.1 hb).1
      rw [hfl, cell_add (by omega), hi.bytes, if_pos (by omega), Nat.add_sub_cancel_left, hb]
      rfl
  · intro st' hst'
    rw [hi.stored, mem_append, mem_singleton] at hst'
    rcases hst' with hst' | rfl
    · exact q.inArea st' hst'
    · rw [hi.offset, ← hi.encodes.size]
      exact hend
  · rw [← append_assoc, noStraddle_append, flatten_append, length_append]
    refine ⟨q.blocks, ?_, trivial⟩
    rw [Nat.zero_add]
    exact hend
  · rw [hi.rest]
    exact q.quiet

theorem Queue.posAt (q : Queue cfg s gone live) {P : Nat} (hP : P = bytesOf gone + bytesOf live) :
    At cfg s (bytesOf gone) P := hP ▸ q.pos

end Queue

/-! ## The space up to the end of the data area -/

/-- `bytes_to_wrap` at position `P`. -/
def room (cfg : TbufConfig) (P : Nat) : Nat := cfg.dataSize - P % cfg.dataSize

theorem room_add (cfg : TbufConfig) {P n : Nat} (h : n ≤ room cfg P) :
    room cfg (P + n) = if room cfg P - n = 0 then cfg.dataSize else room cfg P - n := by
  have hN := le_dataSize cfg
  have hlt := Nat.mod_lt P (show 0 < cfg.dataSize by omega)
  unfold room at h ⊢
  by_cases hn : n = cfg.dataSize
  · rw [hn, Nat.add_mod_right, if_pos]
    · omega
    · omega
  · rw [add_mod_ite P (show n < cfg.dataSize by omega)]
    split <;> split <;> omega

theorem room_add_room (cfg : TbufConfig) (P : Nat) : room cfg (P + room cfg P) = cfg.dataSize := by
  rw [room_add cfg (Nat.le_refl _), if_pos (Nat.sub_self _)]

theorem le_room_iff {cfg : TbufConfig} {P n : Nat} :
    n ≤ room cfg P ↔ P % cfg.dataSize + n ≤ cfg.dataSize := by
  have hN := le_dataSize cfg
  have hlt := Nat.mod_lt P (show 0 < cfg.dataSize by omega)
  unfold room
  omega

section DryRun

variable {cfg : TbufConfig} {lost w n : Nat}

theorem dryRun_zero (cfg : TbufConfig) (w n : Nat) :
    dryRun cfg 0 w n = if w < n then w + n else n := by
  unfold dryRun
  split_ifs <;> simp_all

theorem dryRun_wrap (hl : lost ≠ 0) (hw : w < lostRecSize) :
    dryRun cfg lost w n = w + dryRun cfg lost cfg.dataSize n := by
  have hN := le_dataSize cfg
  unfold dryRun lostRecSize at *
  simp only [if_pos hl, if_pos hw, if_neg (show ¬ cfg.dataSize < 4 + 8 + 16 by omega)]
  split_ifs <;> omega

theorem dryRun_lost (hl : lost ≠ 0) (hw : lostRecSize ≤ w) :
    dryRun cfg lost w n = lostRecSize +
      dryRun cfg 0 (if w - lostRecSize = 0 then cfg.dataSize else w - lostRecSize) n := by
  unfold dryRun
  simp only [if_pos hl, if_neg (Nat.not_lt.2 hw)]
  split_ifs <;> omega

end DryRun

/-! ## The stages of a call -/

/-- `s'` comes from `s` by storing the records `new`, `n` bytes in all. -/
structure Stores (cfg : TbufConfig) (gone live : List (List Byte)) (s s' : Tracer)
    (new : List Stored) (n : Nat) : Prop where
  queue : ∃ chunks, Queue cfg s' gone (live ++ chunks) ∧ bytesOf chunks = n
  stored : s'.stored = s.stored ++ new
  area : ∀ i, cfg.dataSize ≤ i → s'.dataByte i = s.dataByte i

/-- A record that `insert_wrap_record` has stored. -/
def Stored.IsWrap (st : Stored) : Prop := st.kind = .wrap ∧ st.event = trcTraceWrapBuffer

/-- A record that `insert_lost_records` has stored, with the lost records counted in `s`. -/
def Stored.IsLost (s : Tracer) (st : Stored) : Prop :=
  st.kind = .lost ∧ st.event = trcLostRecords ∧ ∃ c, st.data = some (lostData c s)

structure Stored.IsEvent (c : Call) (st : Stored) : Prop where
  kind : st.kind = .event
  event : st.event = c.event
  cycles : st.tsc.isSome = c.cycles
  data : st.data = c.data.map (readBytes · c.extraBytes)

section Stages

variable {cfg : TbufConfig} {s : Tracer} {gone live : List (List Byte)} {c : Call}

variable {P : Nat} (q : Queue cfg s gone live) (hP : P = bytesOf gone + bytesOf live)

include q

theorem stores_nil : Stores cfg gone live s s [] 0 :=
  ⟨⟨[], by simpa using q, rfl⟩, by simp, fun _ _ => rfl⟩

include hP

theorem stores_inserted (kind : Kind) (event : BitVec 32) {extra : Nat}
    (hdvd : extra % 4 = 0) (hmax : extra ≤ 28) (cycles : Bool) (data : Option (Nat → Byte))
    (hend : calcRecSize cycles extra ≤ room cfg P)
    (hroom : bytesOf live + calcRecSize cycles extra ≤ cfg.dataSize) :
    Stores cfg gone live s
      (inserted cfg s P kind event extra cycles data)
      [recordAt cfg s P kind event extra cycles data]
      (calcRecSize cycles extra) := by
  subst hP
  obtain ⟨bs, hi, hlen⟩ := inserted_spec cfg s _ kind event hdvd hmax
    cycles data
  rw [le_room_iff, ← hlen] at hend
  rw [← hlen] at hroom
  refine ⟨⟨[bs], q.insert hi hend hroom, by simpa using hlen⟩, rfl, fun i hle => ?_⟩
  rw [hi.bytes, if_pos (by omega), List.getElem?_eq_none (by omega)]
  rfl

theorem insertWrapRecord_spec {size : Nat} (hsize : room cfg P < size) (hmax : size ≤ 40)
    (hroom : bytesOf live + room cfg P ≤ cfg.dataSize) :
    ∃ s' st, insertWrapRecord cfg size s = .ok s' ∧ s'.lost = s.lost ∧ st.IsWrap ∧
      Stores cfg gone live s s' [st] (room cfg P) := by
  obtain ⟨extra, cycles, hdvd, hle, hrec, heq⟩ := insertWrapRecord_eq (q.posAt hP) hsize hmax
  have hst := stores_inserted q hP .wrap trcTraceWrapBuffer hdvd hle cycles none (by rw [hrec]; rfl)
    (by rw [hrec]; exact hroom)
  rw [hrec] at hst
  exact ⟨_, _, heq, rfl, ⟨rfl, rfl⟩, hst⟩

theorem wrapForLost_spec (m : Nat)
    (hdue : bytesOf live + dryRun cfg s.lost (room cfg P) m ≤ cfg.dataSize) :
    ∃ s' new n, wrapForLost cfg s = .ok (room cfg (P + n), s') ∧
      Stores cfg gone live s s' new n ∧ s'.lost = s.lost ∧ (∀ st ∈ new, st.IsWrap) ∧
      n + dryRun cfg s.lost (room cfg (P + n)) m = dryRun cfg s.lost (room cfg P) m ∧
      (s.lost ≠ 0 → lostRecSize ≤ room cfg (P + n)) := by
  unfold wrapForLost
  rw [calcBytesToWrap_eq (q.posAt hP), ok_bind]
  simp only [show cfg.dataSize - P % cfg.dataSize = room cfg P from rfl]
  by_cases hw : s.lost ≠ 0 ∧ room cfg P < lostRecSize
  · rw [if_pos hw]
    rw [dryRun_wrap hw.1 hw.2] at hdue ⊢
    obtain ⟨s', st, heq, hl, hwrap, hst⟩ := insertWrapRecord_spec q hP hw.2 (by decide) (by omega)
    refine ⟨s', [st], _, ?_, hst, hl, by simpa using hwrap, ?_, fun _ => ?_⟩
    · rw [heq, room_add_room]
      rfl
    · rw [room_add_room]
    · rw [room_add_room]
      have := le_dataSize cfg
      unfold lostRecSize
      omega
  · rw [if_neg hw]
    refine ⟨s, [], 0, rfl, stores_nil q, rfl, by simp, by simp, fun hl => ?_⟩
    exact Nat.le_of_not_lt fun hlt => hw ⟨hl, hlt⟩

theorem putLost_spec (c : Call) (m : Nat) (hfit : s.lost ≠ 0 → lostRecSize ≤ room cfg P)
    (hdue : bytesOf live + dryRun cfg s.lost (room cfg P) m ≤ cfg.dataSize) :
    ∃ s' new n, putLost cfg c (room cfg P) s = .ok (room cfg (P + n), s') ∧
      Stores cfg gone live s s' new n ∧ s'.lost = 0 ∧
      (new = [] ∧ s.lost = 0 ∨ ∃ st, new = [st] ∧ st.IsLost s) ∧
      n + dryRun cfg 0 (room cfg (P + n)) m = dryRun cfg s.lost (room cfg P) m := by
  unfold putLost
  by_cases hl : s.lost ≠ 0
  · have hle := hfit hl
    rw [dryRun_lost hl hle, ← room_add cfg hle] at hdue ⊢
    rw [if_pos hl]
    -- the counter is cleared before the record is written
    have q₀ : Queue cfg { s with lost := 0 } gone live := q.congr rfl
    have hst := stores_inserted q₀ hP .lost trcLostRecords (by decide) (by decide) true
      (some fun i => (lostData c s).getD i 0) hle
      (Nat.le_trans (Nat.add_le_add_left (Nat.le_add_right _ _) _) hdue)
    have heq : insertLostRecords cfg c s = _ :=
      insertRecord_eq (q₀.posAt hP) .lost trcLostRecords 16
      (by decide) (by decide) true (le_room_iff.1 hle) (some fun i => (lostData c s).getD i 0)
    rw [heq, ok_bind]
    refine ⟨_, _, lostRecSize, ?_, ⟨hst.queue, hst.stored, hst.area⟩, rfl,
      .inr ⟨_, rfl, rfl, rfl, c, ?_⟩, rfl⟩
    · rw [room_add cfg hle]
      rfl
    · rfl
  · rw [if_neg hl]
    refine ⟨s, [], 0, rfl, stores_nil q, not_not.1 hl, .inl ⟨rfl, not_not.1 hl⟩, ?_⟩
    rw [not_not.1 hl, Nat.add_zero, Nat.zero_add]

omit q hP

theorem recSize_le (c : Call) : c.recSize ≤ 40 := by
  refine calcRecSize_le ?_ c.cycles
  unfold Call.extraBytes traceExtraMax
  omega

include q hP

theorem wrapForEvent_spec (c : Call)
    (hdue : bytesOf live + dryRun cfg 0 (room cfg P) c.recSize ≤ cfg.dataSize) :
    ∃ s' new n, wrapForEvent cfg c (room cfg P) s = .ok s' ∧
      Stores cfg gone live s s' new n ∧ s'.lost = s.lost ∧ (∀ st ∈ new, st.IsWrap) ∧
      n + c.recSize = dryRun cfg 0 (room cfg P) c.recSize ∧
      c.recSize ≤ room cfg (P + n) := by
  have hrec := recSize_le c
  rw [dryRun_zero] at hdue ⊢
  unfold wrapForEvent
  by_cases hw : room cfg P < c.recSize
  · rw [if_pos hw] at hdue ⊢
    rw [if_pos hw]
    obtain ⟨s', st, heq, hl, hwrap, hst⟩ := insertWrapRecord_spec q hP hw hrec (by omega)
    refine ⟨s', [st], _, heq, hst, hl, by simpa using hwrap, rfl, ?_⟩
    rw [room_add_room]
    omega
  · rw [if_neg hw] at hdue ⊢
    rw [if_neg hw]
    exact ⟨s, [], 0, rfl, stores_nil q, rfl, by simp, Nat.zero_add _, Nat.le_of_not_lt hw⟩

theorem putEvent_spec (c : Call) (below : Bool) (hfit : c.recSize ≤ room cfg P)
    (hdue : bytesOf live + c.recSize ≤ cfg.dataSize) :
    ∃ s' st, putEvent cfg c below s = .ok s' ∧ Stores cfg gone live s s' [st] c.recSize ∧
      s'.lost = s.lost ∧ st.IsEvent c := by
  have hextra : c.extraBytes % 4 = 0 ∧ c.extraBytes ≤ 28 := by
    unfold Call.extraBytes traceExtraMax
    omega
  have hst := stores_inserted q hP .event c.event hextra.1 hextra.2 c.cycles c.data hfit hdue
  have heq := insertRecord_eq (q.posAt hP) .event c.event c.extraBytes hextra.1 hextra.2 c.cycles
    (le_room_iff.1 hfit) c.data
  have hev : Stored.IsEvent c (recordAt cfg s P .event c.event c.extraBytes c.cycles c.data) := by
    refine ⟨rfl, rfl, ?_, rfl⟩
    cases c.cycles <;> rfl
  have hl : (inserted cfg s P .event c.event c.extraBytes c.cycles c.data).lost = s.lost := rfl
  unfold putEvent
  rw [show c.recSize = calcRecSize c.cycles c.extraBytes from rfl, heq, ok_bind]
  generalize inserted cfg s P .event c.event c.extraBytes c.cycles c.data = s' at hst hl
  cases below with
  | false => exact ⟨s', _, rfl, hst, hl, hev⟩
  | true =>
    obtain ⟨chunks, q', hlen⟩ := hst.queue
    rw [if_pos rfl, calcUnconsumedBytes_eq q'.pos, ok_bind]
    split
    · exact ⟨_, _, rfl, ⟨⟨chunks, q'.congr rfl, hlen⟩, hst.stored, hst.area⟩, hl, hev⟩
    · exact ⟨s', _, rfl, hst, hl, hev⟩

/-- First half of a call: the event is filtered out, does not fit, or is written as the dry run has
counted. -/
theorem startTrace_eq {c : Call} (hc : c.extraWord ≤ traceExtraMax ∨ cfg.debug = false) :
    startTrace cfg c s =
      if s.accepts c.event = false then .ok (none, s)
      else if cfg.dataSize <
          bytesOf live + dryRun cfg s.lost (room cfg P) c.recSize then
        .ok (none, dropRecord cfg s)
      else
        .ok (some { below := decide (bytesOf live < cfg.highwater)
                    totalSize :=
                      dryRun cfg s.lost (room cfg P) c.recSize }, s) := by
  have hfits := (q.posAt hP).fits
  unfold startTrace
  rw [if_neg (by simp [q.pos.init]), show cfg.assert (c.extraWord ≤ traceExtraMax) .extraWords
    = .ok () from if_pos hc, ok_bind]
  split
  · rfl
  rw [calcUnconsumedBytes_eq (q.posAt hP), ok_bind, calcBytesAvail_eq (q.posAt hP), ok_bind,
    calcBytesToWrap_eq (q.posAt hP), ok_bind,
    show P - bytesOf gone = bytesOf live by rw [hP, Nat.add_sub_cancel_left]]
  simp only [show cfg.dataSize - P % cfg.dataSize = room cfg P from rfl]
  generalize dryRun cfg s.lost (room cfg P) c.recSize = total
  by_cases ht : cfg.dataSize < bytesOf live + total
  · rw [if_pos (by omega), if_pos ht]
    rfl
  · rw [if_neg (by omega), if_neg ht]
    rfl

omit q hP

theorem startTrace_eq_error (hinit : s.initDone = true) {c : Call}
    (hc : ¬ (c.extraWord ≤ traceExtraMax ∨ cfg.debug = false)) :
    startTrace cfg c s = .error .extraWords := by
  have hcheck : cfg.assert (c.extraWord ≤ traceExtraMax) .extraWords = .error .extraWords :=
    if_neg hc
  unfold startTrace
  rw [if_neg (by simp [hinit]), hcheck]
  rfl

end Stages

end XenVmi.Tbuf
