import XenVmi.Tbuf.Pipeline

/-!
# The invariant of the pipeline

`Queue`: the records stored and not yet consumed stand between `cons` and `prod`. `PcInv`: a call
that is being written has the space its dry run has counted. `ReaderInv`: the window of the consumer
ends at a record. `History`: no event goes uncounted.
-/

namespace XenVmi.Tbuf

open XenVmi.Lib

/-! ## The call in progress -/

def Pc.pending : Pc → Option Call
  | .idle => none
  | .wrapLost c _ | .lost c _ _ | .wrapEvent c _ _ | .event c _ => some c

/-- The bytes that the current call has still to store, `prod` being at position `P`. -/
def Pc.due (cfg : TbufConfig) (lost P : Nat) : Pc → Nat
  | .idle => 0
  | .wrapLost c _ | .lost c _ _ => dryRun cfg lost (room cfg P) c.recSize
  | .wrapEvent c _ _ => dryRun cfg 0 (room cfg P) c.recSize
  | .event c _ => c.recSize

/-- What the local variables of the current call say, `prod` being at position `P`. -/
def Pc.Locals (cfg : TbufConfig) (lost P : Nat) : Pc → Prop
  | .lost _ _ b => b = room cfg P ∧ (lost ≠ 0 → lostRecSize ≤ b)
  | .wrapEvent _ _ b => b = room cfg P ∧ lost = 0
  | .event c _ => c.recSize ≤ room cfg P
  | _ => True

structure PcInv (cfg : TbufConfig) (w : Pipeline) (gone live : List (List Byte)) : Prop where
  fits : bytesOf live + w.pc.due cfg w.tr.lost (bytesOf gone + bytesOf live) ≤ cfg.dataSize
  target : w.target = (bytesOf gone + bytesOf live +
    w.pc.due cfg w.tr.lost (bytesOf gone + bytesOf live)) % (2 * cfg.dataSize)
  locals : w.pc.Locals cfg w.tr.lost (bytesOf gone + bytesOf live)

/-- What the consumer has read and written, in a buffer that holds `live` after `gone`. -/
def ReaderInv (cfg : TbufConfig) (gone live : List (List Byte)) (out : List Byte) : Reader → Prop
  | .idle => out = gone.flatten
  | .window cons prod => out = gone.flatten ∧ cons = bytesOf gone % (2 * cfg.dataSize) ∧
    ∃ seen, seen <+: live ∧ 0 < bytesOf seen ∧
      prod = (bytesOf gone + bytesOf seen) % (2 * cfg.dataSize)
  | .second prod => ∃ seen, seen <+: live ∧
    prod = (bytesOf gone + bytesOf seen) % (2 * cfg.dataSize) ∧
    cfg.dataSize ≤ bytesOf gone % cfg.dataSize + bytesOf seen ∧
    out = gone.flatten ++ seen.flatten.take (cfg.dataSize - bytesOf gone % cfg.dataSize)
  | .written prod => ∃ seen, seen <+: live ∧
    prod = (bytesOf gone + bytesOf seen) % (2 * cfg.dataSize) ∧ out = (gone ++ seen).flatten

/-! ## The history -/

def Stored.carried (st : Stored) : Nat :=
  match st.kind, st.data with
  | .lost, some (b₀ :: b₁ :: b₂ :: b₃ :: _) => (ofLe32 b₀ b₁ b₂ b₃).toNat
  | _, _ => 0

def eventsOf (l : List Stored) : List Stored := l.filter (·.kind = .event)

def carriedBy (l : List Stored) : Nat := (l.map Stored.carried).sum

/-- The events stored are accepted calls in order, and every accepted call is counted. -/
structure History (w : Pipeline) : Prop where
  kinds : ∀ st ∈ w.tr.stored,
    st.kind = .event ∨ st.IsWrap ∨ (st.kind = .lost ∧ st.event = trcLostRecords)
  events : ∃ calls, (calls ++ w.pc.pending.toList).Sublist w.accepted ∧
    List.Forall₂ Stored.IsEvent calls (eventsOf w.tr.stored)
  counted : w.dropped < 2 ^ 32 → w.tr.lost ≤ w.dropped ∧
    w.accepted.length = (eventsOf w.tr.stored).length + carriedBy w.tr.stored + w.tr.lost +
      w.pc.pending.toList.length

def Inv (cfg : TbufConfig) (w : Pipeline) : Prop :=
  ∃ gone live, Queue cfg w.tr gone live ∧ PcInv cfg w gone live ∧
    ReaderInv cfg gone live w.out w.reader ∧ History w

/-! ## Bytes that are waiting to be consumed -/

/-- From `s` to `s'` no byte between `cons` and `prod` has changed, and none behind the data
area. -/
structure Undisturbed (cfg : TbufConfig) (s s' : Tracer) : Prop where
  waiting : ∀ i < windowSize cfg s.cons s.prod,
    s'.dataByte ((s.cons + i) % cfg.dataSize) = s.dataByte ((s.cons + i) % cfg.dataSize)
  area : ∀ i, cfg.dataSize ≤ i → s'.dataByte i = s.dataByte i

section Undisturbed

variable {cfg : TbufConfig} {s s' : Tracer} {gone live seen : List (List Byte)}

theorem windowSize_eq (gone : List (List Byte)) (h : bytesOf seen ≤ cfg.dataSize) :
    windowSize cfg (bytesOf gone % (2 * cfg.dataSize))
      ((bytesOf gone + bytesOf seen) % (2 * cfg.dataSize)) = bytesOf seen := by
  have hN := le_dataSize cfg
  have hd := distance_eq (N := cfg.dataSize) (by omega)
    (Nat.le_add_right (bytesOf gone) (bytesOf seen)) (by omega)
  rw [Nat.add_sub_cancel_left] at hd
  exact hd.symm

theorem Queue.windowSize_eq (q : Queue cfg s gone live) :
    windowSize cfg s.cons s.prod = bytesOf live := by
  rw [q.pos.cons, q.pos.prod]
  refine Tbuf.windowSize_eq gone ?_
  have := q.pos.fits
  omega

theorem undisturbed_of_page (h : s'.page = s.page) : Undisturbed cfg s s' := by
  have hbyte : s'.dataByte = s.dataByte := by
    funext i
    rw [Tracer.dataByte, h, Tracer.dataByte]
  exact ⟨fun i _ => by rw [hbyte], fun i _ => by rw [hbyte]⟩

theorem Stores.undisturbed {new : List Stored} {n : Nat} (q : Queue cfg s gone live)
    (hst : Stores cfg gone live s s' new n) : Undisturbed cfg s s' := by
  obtain ⟨chunks, q', -⟩ := hst.queue
  refine ⟨fun i hi => ?_, hst.area⟩
  rw [q.windowSize_eq] at hi
  have hcell : (s.cons + i) % cfg.dataSize = (bytesOf gone + i) % cfg.dataSize := by
    rw [q.pos.cons, Nat.add_mod, index_mod, ← Nat.add_mod]
  have hold := q'.holds
  rw [List.flatten_append, ringHolds_append] at hold
  obtain ⟨b, hb⟩ : ∃ b, live.flatten[i]? = some b := ⟨_, List.getElem?_eq_getElem hi⟩
  rw [hcell, q.holds i b hb, hold.1 i b hb]

end Undisturbed

/-! ## The producer -/

section Producer

variable {cfg : TbufConfig} {w : Pipeline} {gone live : List (List Byte)} {s' : Tracer} {pc' : Pc}
  {new : List Stored} {n : Nat}

theorem ReaderInv.append {out : List Byte} {r : Reader} (h : ReaderInv cfg gone live out r)
    (chunks : List (List Byte)) : ReaderInv cfg gone (live ++ chunks) out r := by
  cases r with
  | idle => exact h
  | window cons prod =>
    obtain ⟨ho, hc, seen, hs, hrest⟩ := h
    exact ⟨ho, hc, seen, hs.trans (List.prefix_append _ _), hrest⟩
  | second | written =>
    obtain ⟨seen, hs, hrest⟩ := h
    exact ⟨seen, hs.trans (List.prefix_append _ _), hrest⟩

theorem Inv.advance (p : PcInv cfg w gone live) (r : ReaderInv cfg gone live w.out w.reader)
    (hst : Stores cfg gone live w.tr s' new n)
    (hdue : n + pc'.due cfg s'.lost (bytesOf gone + bytesOf live + n)
      = w.pc.due cfg w.tr.lost (bytesOf gone + bytesOf live))
    (hloc : pc'.Locals cfg s'.lost (bytesOf gone + bytesOf live + n))
    (hh : History { w with tr := s', pc := pc' }) : Inv cfg { w with tr := s', pc := pc' } := by
  obtain ⟨chunks, q', rfl⟩ := hst.queue
  have hfits := p.fits
  have htarget := p.target
  rw [← hdue] at hfits htarget
  have hpos : bytesOf gone + bytesOf (live ++ chunks)
      = bytesOf gone + bytesOf live + bytesOf chunks := by
    rw [bytesOf_append, Nat.add_assoc]
  refine ⟨gone, live ++ chunks, q', ⟨?_, ?_, ?_⟩, r.append chunks, hh⟩
  · rw [hpos]
    simp only
    omega
  · rw [hpos, Nat.add_assoc _ (bytesOf chunks)]
    exact htarget
  · rw [hpos]
    exact hloc

theorem eventsOf_append (l l' : List Stored) : eventsOf (l ++ l') = eventsOf l ++ eventsOf l' :=
  List.filter_append _ _

theorem carriedBy_append (l l' : List Stored) :
    carriedBy (l ++ l') = carriedBy l + carriedBy l' := by
  simp [carriedBy]

theorem History.advance (h : History w) (hs : s'.stored = w.tr.stored ++ new)
    (hk : ∀ st ∈ new, st.kind = .event ∨ st.IsWrap ∨ (st.kind = .lost ∧ st.event = trcLostRecords))
    (he : ∃ calls, List.Forall₂ Stored.IsEvent calls (eventsOf new) ∧
      calls ++ pc'.pending.toList = w.pc.pending.toList)
    (hc : w.tr.lost < 2 ^ 32 → carriedBy new + s'.lost = w.tr.lost) :
    History { w with tr := s', pc := pc' } := by
  obtain ⟨new_calls, hnew, hpend⟩ := he
  obtain ⟨calls, hsub, hcalls⟩ := h.events
  refine ⟨fun st hst => ?_, ⟨calls ++ new_calls, ?_, ?_⟩, fun hd => ?_⟩
  · simp only [hs, List.mem_append] at hst
    exact hst.elim (h.kinds st) (hk st)
  · rw [List.append_assoc, hpend]
    exact hsub
  · simp only [hs, eventsOf_append]
    exact List.rel_append hcalls hnew
  · obtain ⟨hlost, hcount⟩ := h.counted hd
    have hcarried := hc (Nat.lt_of_le_of_lt hlost hd)
    have hlen := hnew.length_eq
    rw [← hpend, List.length_append] at hcount
    simp only [hs, eventsOf_append, carriedBy_append, List.length_append]
    exact ⟨by omega, by omega⟩

theorem eventsOf_wrap (h : ∀ st ∈ new, st.IsWrap) : eventsOf new = [] := by
  refine List.filter_eq_nil_iff.2 fun st hst => ?_
  simp [(h st hst).1]

theorem carriedBy_wrap (h : ∀ st ∈ new, st.IsWrap) : carriedBy new = 0 := by
  induction new with
  | nil => rfl
  | cons st new ih =>
    have hst : st.carried = 0 := by simp [Stored.carried, (h st List.mem_cons_self).1]
    have hrest : carriedBy new = 0 := ih fun x hx => h x (List.mem_cons_of_mem _ hx)
    rw [carriedBy, List.map_cons, List.sum_cons, hst, Nat.zero_add]
    exact hrest

theorem History.wraps (h : History w) (hs : s'.stored = w.tr.stored ++ new)
    (hw : ∀ st ∈ new, st.IsWrap) (hl : s'.lost = w.tr.lost)
    (hp : pc'.pending = w.pc.pending) : History { w with tr := s', pc := pc' } := by
  refine h.advance hs (fun st hst => .inr (.inl (hw st hst))) ⟨[], ?_, by rw [hp]; rfl⟩ fun _ => ?_
  · rw [eventsOf_wrap hw]
    exact .nil
  · rw [carriedBy_wrap hw, hl, Nat.zero_add]

theorem Stored.IsLost.carried {s : Tracer} {st : Stored} (h : st.IsLost s) (hl : s.lost < 2 ^ 32) :
    st.carried = s.lost := by
  obtain ⟨hk, -, c, hd⟩ := h
  simp only [Stored.carried, hk, hd, lostData, le32, List.cons_append, List.nil_append,
    ofLe32_le32, BitVec.toNat_ofNat]
  exact Nat.mod_eq_of_lt hl

theorem proceed_inv (h : Inv cfg w) :
    ∃ w', w.proceed cfg = .ok w' ∧ Inv cfg w' ∧ Undisturbed cfg w.tr w'.tr := by
  have hw := h
  obtain ⟨gone, live, q, p, r, hh⟩ := h
  have hfits := p.fits
  have hloc := p.locals
  unfold Pipeline.proceed
  cases hpc : w.pc with
  | idle => exact ⟨w, rfl, hw, undisturbed_of_page rfl⟩
  | wrapLost c started =>
    rw [hpc] at hfits
    obtain ⟨s', new, n, heq, hst, hl, hwrap, hdue, hroom⟩ := wrapForLost_spec q rfl c.recSize hfits
    simp only [heq, ok_bind]
    refine ⟨_, rfl, Inv.advance p r hst ?_ ⟨rfl, by rwa [hl]⟩
      (hh.wraps hst.stored hwrap hl (by rw [hpc]; rfl)), hst.undisturbed q⟩
    rw [hpc, hl]
    exact hdue
  | lost c started b =>
    rw [hpc] at hfits hloc
    obtain ⟨rfl, hroom⟩ := hloc
    obtain ⟨s', new, n, heq, hst, hl, hnew, hdue⟩ := putLost_spec q rfl c c.recSize hroom hfits
    simp only [heq, ok_bind]
    refine ⟨_, rfl, Inv.advance p r hst (by rw [hpc]; exact hdue) ⟨rfl, hl⟩ ?_, hst.undisturbed q⟩
    rcases hnew with ⟨rfl, h0⟩ | ⟨st, rfl, hlost⟩
    · exact hh.wraps hst.stored (by simp) (by rw [hl, h0]) (by rw [hpc]; rfl)
    · -- the counter goes into the record
      refine hh.advance hst.stored (by simp [hlost.1, hlost.2.1]) ⟨[], ?_, by rw [hpc]; rfl⟩
        fun hlt => ?_
      · simp [eventsOf, hlost.1]
      · simp [carriedBy, hlost.carried hlt, hl]
  | wrapEvent c started b =>
    rw [hpc] at hfits hloc
    obtain ⟨rfl, h0⟩ := hloc
    obtain ⟨s', new, n, heq, hst, hl, hwrap, hdue, hroom⟩ := wrapForEvent_spec q rfl c hfits
    simp only [heq, ok_bind]
    exact ⟨_, rfl, Inv.advance p r hst (by rw [hpc]; exact hdue) hroom
      (hh.wraps hst.stored hwrap hl (by rw [hpc]; rfl)), hst.undisturbed q⟩
  | event c started =>
    rw [hpc] at hfits hloc
    obtain ⟨s', st, heq, hst, hl, hev⟩ := putEvent_spec q rfl c started.below hloc hfits
    simp only [heq, ok_bind]
    refine ⟨_, rfl, Inv.advance p r hst (by rw [hpc]; rfl) trivial ?_, hst.undisturbed q⟩
    refine hh.advance hst.stored (by simp [hev.kind]) ⟨[c], ?_, by rw [hpc]; rfl⟩ fun _ => ?_
    · simp [eventsOf, hev.kind, hev]
    · simp [carriedBy, Stored.carried, hev.kind, hl]

theorem History.accept (h : History w) (hidle : w.pc = .idle) (c : Call) (started : Started)
    (target : Nat) :
    History { w with pc := .wrapLost c started, accepted := w.accepted ++ [c], target :=
      target } := by
  obtain ⟨calls, hsub, hcalls⟩ := h.events
  refine ⟨h.kinds, ⟨calls, ?_, hcalls⟩, fun hd => ?_⟩
  · rw [hidle] at hsub
    refine List.Sublist.append ?_ (List.Sublist.refl _)
    simpa [Pc.pending] using hsub
  · obtain ⟨hlost, hcount⟩ := h.counted hd
    rw [hidle] at hcount
    refine ⟨hlost, ?_⟩
    simpa [Pc.pending] using hcount

theorem History.drop (h : History w) (hidle : w.pc = .idle) (c : Call) :
    History { w with
      tr := dropRecord cfg w.tr, accepted := w.accepted ++ [c], dropped := w.dropped + 1 } := by
  have hstored : (dropRecord cfg w.tr).stored = w.tr.stored := by
    unfold dropRecord
    simp only
    split <;> rfl
  have hlost : (dropRecord cfg w.tr).lost = (w.tr.lost + 1) % 2 ^ 64 := by
    unfold dropRecord
    simp only
    split <;> rfl
  obtain ⟨calls, hsub, hcalls⟩ := h.events
  refine ⟨by simpa only [hstored] using h.kinds, ⟨calls, ?_, by simpa only [hstored] using hcalls⟩,
    fun hd => ?_⟩
  · exact hsub.trans (List.sublist_append_left _ _)
  · simp only at hd
    obtain ⟨hle, hcount⟩ := h.counted (by omega)
    rw [hidle] at hcount
    simp only [hlost, hstored, hidle, List.length_append, List.length_singleton]
    exact ⟨by omega, by omega⟩

theorem call_inv (h : Inv cfg w) (hidle : w.pc = .idle) {c : Call}
    (hc : c.extraWord ≤ traceExtraMax ∨ cfg.debug = false) :
    ∃ w', w.call cfg c = .ok w' ∧ Inv cfg w' ∧ w'.tr.page = w.tr.page := by
  have hw := h
  obtain ⟨gone, live, q, p, r, hh⟩ := h
  unfold Pipeline.call
  rw [startTrace_eq q rfl hc]
  by_cases hf : w.tr.accepts c.event = false
  · rw [if_pos hf, ok_bind, if_pos (.inr hf)]
    exact ⟨w, rfl, hw, rfl⟩
  rw [if_neg hf]
  split
  · rw [ok_bind, if_neg (by simp [q.pos.init, hf])]
    have hring : (dropRecord cfg w.tr).ring = w.tr.ring := by
      unfold dropRecord
      simp only
      split <;> rfl
    have hpage : (dropRecord cfg w.tr).page = w.tr.page := by
      unfold dropRecord
      simp only
      split <;> rfl
    refine ⟨_, rfl, ⟨gone, live, q.congr hring, ⟨?_, ?_, ?_⟩, r, hh.drop hidle c⟩, hpage⟩
    · have := p.fits
      simp only [hidle, Pc.due] at this ⊢
      exact this
    · have := p.target
      simp only [hidle, Pc.due] at this ⊢
      exact this
    · simp only [hidle]
      trivial
  · rename_i hfit
    rw [ok_bind, if_neg (by simp [q.pos.init, hf])]
    refine ⟨_, rfl, ⟨gone, live, q, ⟨Nat.le_of_not_lt hfit, ?_, trivial⟩, r,
      hh.accept hidle c _ _⟩, rfl⟩
    simp only [Pc.due]
    rw [q.pos.prod, Nat.mod_add_mod]

end Producer

/-! ## The consumer -/

section Consumer

variable {cfg : TbufConfig} {w : Pipeline} {gone live seen : List (List Byte)}

theorem Queue.seen_le (q : Queue cfg w.tr gone live) (hs : seen <+: live) :
    bytesOf seen ≤ cfg.dataSize := by
  obtain ⟨rest, rfl⟩ := hs
  have := q.pos.fits
  rw [bytesOf_append] at this
  omega

theorem Queue.holds_seen (q : Queue cfg w.tr gone live) (hs : seen <+: live) :
    RingHolds cfg.dataSize w.tr.dataByte (bytesOf gone) seen.flatten := by
  obtain ⟨rest, rfl⟩ := hs
  have h := q.holds
  rw [List.flatten_append, ringHolds_append] at h
  exact h.1

theorem read_inv (h : Inv cfg w) (hidle : w.reader = .idle) :
    ∃ w', w.read cfg = .ok w' ∧ Inv cfg w' ∧ w'.tr = w.tr := by
  have hw := h
  obtain ⟨gone, live, q, p, r, hh⟩ := h
  rw [hidle] at r
  unfold Pipeline.read
  by_cases heq : w.tr.cons = w.tr.prod
  · rw [if_pos heq]
    exact ⟨w, rfl, hw, rfl⟩
  rw [if_neg heq]
  have hle := q.seen_le (List.prefix_refl live)
  have hwin := windowSize_eq gone hle
  have hpos : 0 < bytesOf live := by
    by_contra h0
    rw [q.pos.cons, q.pos.prod, Nat.eq_zero_of_not_pos h0] at heq
    exact heq rfl
  rw [q.pos.cons, q.pos.prod]
  have hC := Nat.mod_lt (bytesOf gone) (show 0 < 2 * cfg.dataSize by omega)
  have hP := Nat.mod_lt (bytesOf gone + bytesOf live) (show 0 < 2 * cfg.dataSize by omega)
  unfold monitorAssert
  rw [if_pos hC, if_pos hP, hwin, if_pos hpos, if_pos hle]
  exact ⟨_, rfl, ⟨gone, live, q, ⟨p.fits, p.target, p.locals⟩,
    ⟨r, rfl, live, List.prefix_refl live, hpos, rfl⟩, hh.kinds, hh.events, hh.counted⟩, rfl⟩

theorem write_inv (h : Inv cfg w) : Inv cfg (w.write cfg) := by
  have hw := h
  obtain ⟨gone, live, q, p, r, hh⟩ := h
  have hN := le_dataSize cfg
  unfold Pipeline.write
  cases hr : w.reader with
  | idle => exact hw
  | written prod => exact hw
  | window cons prod =>
    rw [hr] at r
    obtain ⟨hout, rfl, seen, hs, hpos, rfl⟩ := r
    have hle := q.seen_le hs
    have hhold := q.holds_seen hs
    simp only [index_mod, windowSize_eq gone hle,
      cell_lt_iff (show 0 < cfg.dataSize by omega) hpos hle]
    by_cases hlt : bytesOf gone % cfg.dataSize + bytesOf seen < cfg.dataSize
    · rw [if_pos hlt]
      have hread : readCells w.tr.dataByte (bytesOf gone % cfg.dataSize) (bytesOf seen)
          = seen.flatten := hhold.read (Nat.le_of_lt hlt)
      rw [hread, hout]
      exact ⟨gone, live, q, ⟨p.fits, p.target, p.locals⟩, ⟨seen, hs, rfl, by simp⟩, hh.kinds,
        hh.events, hh.counted⟩
    · rw [if_neg hlt]
      have hwrap := Nat.le_of_not_lt hlt
      rw [(hhold.read_split (by omega) hwrap hle).1, hout]
      exact ⟨gone, live, q, ⟨p.fits, p.target, p.locals⟩, ⟨seen, hs, rfl, hwrap, rfl⟩, hh.kinds,
        hh.events, hh.counted⟩
  | second prod =>
    rw [hr] at r
    obtain ⟨seen, hs, rfl, hwrap, hout⟩ := r
    have hle := q.seen_le hs
    have hread : readCells w.tr.dataByte 0
        (bytesOf gone % cfg.dataSize + bytesOf seen - cfg.dataSize)
        = _ := ((q.holds_seen hs).read_split (by omega) hwrap hle).2
    simp only [index_mod, cell_add_wrapped (show 0 < cfg.dataSize by omega) hle hwrap]
    rw [hread, hout, List.append_assoc, List.take_append_drop, ← List.flatten_append]
    exact ⟨gone, live, q, ⟨p.fits, p.target, p.locals⟩, ⟨seen, hs, rfl, rfl⟩, hh.kinds,
      hh.events, hh.counted⟩

theorem bytesOf_mod {l : List (List Byte)} (h : ∀ bs ∈ l, bs.length % 4 = 0) :
    bytesOf l % 4 = 0 := by
  induction l with
  | nil => rfl
  | cons bs l ih =>
    have hbs := h bs List.mem_cons_self
    have hl := ih fun x hx => h x (List.mem_cons_of_mem _ hx)
    have hadd : bytesOf (bs :: l) = bs.length + bytesOf l := by simp [bytesOf]
    omega

theorem store_inv (h : Inv cfg w) : Inv cfg w.store := by
  have hw := h
  obtain ⟨gone, live, q, p, r, hh⟩ := h
  unfold Pipeline.store
  cases hr : w.reader with
  | idle | window | second => exact hw
  | written prod =>
    rw [hr] at r
    obtain ⟨seen, ⟨rest, rfl⟩, rfl, hout⟩ := r
    have hpos : bytesOf gone + bytesOf (seen ++ rest) = bytesOf (gone ++ seen) + bytesOf rest := by
      simp only [bytesOf_append]
      omega
    have hmod : bytesOf (gone ++ seen) % 4 = 0 := by
      refine bytesOf_mod fun bs hbs => ?_
      obtain ⟨st, hst⟩ : ∃ st, Encodes st bs := by
        refine q.exists_encodes ?_
        rw [← List.append_assoc]
        exact List.mem_append_left _ hbs
      exact hst.length_mod
    have hholds := q.holds
    rw [List.flatten_append, ringHolds_append] at hholds
    have hfits := q.pos.fits
    have hpfits := p.fits
    have hptarget := p.target
    have hplocals := p.locals
    rw [hpos] at hpfits hptarget hplocals
    rw [bytesOf_append] at hpfits
    refine ⟨gone ++ seen, rest,
      ⟨⟨?_, ?_, ?_, ?_, ?_, hmod, q.pos.init⟩, ?_, ?_, q.inArea, ?_, q.quiet⟩,
        ⟨?_, hptarget, hplocals⟩, hout, hh.kinds, hh.events, hh.counted⟩
    · rw [← hpos]
      exact q.pos.prod
    · rw [bytesOf_append]
    · omega
    · omega
    · rw [← hpos]
      exact q.pos.prod_mod
    · rw [List.append_assoc]
      exact q.encodes
    · rw [bytesOf_append]
      exact hholds.2
    · rw [List.append_assoc]
      exact q.blocks
    · simp only
      omega

theorem write_tr (w : Pipeline) : (w.write cfg).tr = w.tr := by
  unfold Pipeline.write
  split
  · simp only
    split <;> rfl
  · rfl
  · rfl

theorem store_page (w : Pipeline) : w.store.tr.page = w.tr.page := by
  unfold Pipeline.store
  split <;> rfl

end Consumer

/-! ## Steps and runs -/

/-- In a debug build a call with more than seven words of extra data fails an `ASSERT`. -/
def Act.Sized (cfg : TbufConfig) : Act → Prop
  | .call c => c.extraWord ≤ traceExtraMax ∨ cfg.debug = false
  | _ => True

section Steps

variable {cfg : TbufConfig} {w w' : Pipeline} {a : Act}

theorem Inv.setFilter (h : Inv cfg w) (mask : BitVec 32) (traced : Bool) :
    Inv cfg { w with tr := { w.tr with eventMask := mask, cpuTraced := traced } } := by
  obtain ⟨gone, live, q, p, r, hh⟩ := h
  exact ⟨gone, live, q.congr rfl, ⟨p.fits, p.target, p.locals⟩, r, hh.kinds, hh.events, hh.counted⟩

theorem step_inv (h : Inv cfg w) (ha : a.Sized cfg) :
    ∃ w', step cfg w a = .ok w' ∧ Inv cfg w' ∧ Undisturbed cfg w.tr w'.tr := by
  unfold step
  cases a with
  | call c =>
    cases hpc : w.pc with
    | idle =>
      obtain ⟨w', heq, hi, hpage⟩ := call_inv h hpc ha
      exact ⟨w', heq, hi, undisturbed_of_page hpage⟩
    | _ => exact ⟨w, rfl, h, undisturbed_of_page rfl⟩
  | proceed => exact proceed_inv h
  | read =>
    cases hr : w.reader with
    | idle =>
      obtain ⟨w', heq, hi, htr⟩ := read_inv h hr
      exact ⟨w', heq, hi, undisturbed_of_page (by rw [htr])⟩
    | _ => exact ⟨w, rfl, h, undisturbed_of_page rfl⟩
  | write => exact ⟨_, rfl, write_inv h, undisturbed_of_page (by rw [write_tr])⟩
  | store => exact ⟨_, rfl, store_inv h, undisturbed_of_page (store_page w)⟩
  | setEvtMask mask => exact ⟨_, rfl, h.setFilter mask w.tr.cpuTraced, undisturbed_of_page rfl⟩
  | setCpuMask traced => exact ⟨_, rfl, h.setFilter w.tr.eventMask traced, undisturbed_of_page rfl⟩

theorem fresh_inv (cfg : TbufConfig) (page : Nat → Nat → Byte) (mask : BitVec 32) :
    Inv cfg (.fresh page mask) := by
  refine ⟨[], [], ⟨⟨?_, ?_, le_rfl, Nat.le_add_right _ _, rfl, rfl, rfl⟩, .nil, ringHolds_nil, ?_,
    trivial, rfl⟩, ⟨Nat.zero_le _, ?_, trivial⟩, rfl, ?_, ⟨[], List.nil_sublist _, .nil⟩, fun _ =>
    ⟨le_rfl, rfl⟩⟩
  · exact (Nat.zero_mod _).symm
  · exact (Nat.zero_mod _).symm
  · intro st hst
    cases hst
  · exact (Nat.zero_mod _).symm
  · intro st hst
    cases hst

theorem step_unsized (h : Inv cfg w) (ha : ¬ a.Sized cfg) :
    step cfg w a = .ok w ∨ step cfg w a = .error .extraWords := by
  cases a with
  | call c =>
    unfold step
    cases hpc : w.pc with
    | idle =>
      obtain ⟨gone, live, q, -⟩ := h
      refine .inr ?_
      simp only [Pipeline.call, startTrace_eq_error q.pos.init ha]
      rfl
    | _ => exact .inl rfl
  | _ => exact absurd trivial ha

theorem step_keeps (h : Inv cfg w) (hs : step cfg w a = .ok w') : Inv cfg w' := by
  by_cases ha : a.Sized cfg
  · obtain ⟨v, hv, hi, -⟩ := step_inv h ha
    rw [hv] at hs
    cases hs
    exact hi
  rcases step_unsized h ha with hv | hv
  · rw [hv] at hs
    cases hs
    exact h
  · rw [hv] at hs
    cases hs

theorem run_inv {guard : Pipeline → Act → Prop} {page : Nat → Nat → Byte} {mask : BitVec 32}
    (run : Reaches (step cfg) guard (.fresh page mask) w) : Inv cfg w :=
  run.invariant (fun _ _ _ _ hs h => step_keeps h hs) (fresh_inv cfg page mask)

end Steps

end XenVmi.Tbuf
