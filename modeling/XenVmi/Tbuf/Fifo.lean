import XenVmi.Tbuf.Invariant

/-!
# The trace pipeline end to end

Three facts about every run of `__trace_var` against `monitor_tbufs` on one buffer. The event of a
record is the 28-bit field of `struct t_rec`.
-/

namespace XenVmi.Tbuf

open XenVmi.Lib List

/-! ## A buffer of one page

Calls and passes for the concrete runs below. -/

def onePage : TbufConfig where
  pages := 1
  pages_pos := by decide
  pages_lt := by decide
  debug := true
  getCycles := fun n => BitVec.ofNat 64 (100 + n)
  stack := fun _ _ => 0

def sampleCall (words : Nat) : Call where
  event := 0x00081001#32
  cycles := true
  extra := 4 * words
  data := some fun i => BitVec.ofNat 8 (i + 1)
  did := 1
  vid := 0

def onePageStart : Pipeline := .fresh (fun _ _ => 0) 0x00081001#32

/-- A call of `__trace_var` that is not interrupted. -/
def wholeCall (words : Nat) : List Act :=
  [.call (sampleCall words), .proceed, .proceed, .proceed, .proceed]

/-- A pass of `monitor_tbufs`. -/
def wholePass : List Act := [.read, .write, .write, .store]

/-! ## What the consumer writes -/

/-- The record `r`, read off the stream, is the stored record `st`. -/
structure Shows (st : Stored) (r : TRec) : Prop where
  event : r.event = st.event.setWidth 28
  tsc : r.tsc = st.tsc
  extra : ∀ d, st.data = some d → r.extra = d

section Fifo

variable {cfg : TbufConfig} {w : Pipeline} {gone live : List (List Byte)}

theorem Encodes.isRec {st : Stored} {bs : List Byte} (h : Encodes st bs) :
    ∃ r, IsRec r bs ∧ Shows st r := by
  obtain ⟨extra, rfl, hmod, hle, hdata⟩ := h.layout
  exact ⟨_, ⟨recBytes_ne_nil, fun rest => decodeRec_recBytes hmod hle rest⟩, rfl, rfl, hdata⟩

theorem decode_encoded {sts : List Stored} {chunks : List (List Byte)}
    (h : List.Forall₂ Encodes sts chunks) :
    ∃ recs, decode chunks.flatten = some recs ∧ List.Forall₂ Shows sts recs := by
  have hrecs : ∃ recs, List.Forall₂ IsRec recs chunks ∧ List.Forall₂ Shows sts recs := by
    induction h with
    | nil => exact ⟨[], .nil, .nil⟩
    | cons hst _ ih =>
      obtain ⟨r, hr, hs⟩ := hst.isRec
      obtain ⟨recs, hrs, hss⟩ := ih
      exact ⟨r :: recs, .cons hr hrs, .cons hs hss⟩
  obtain ⟨recs, hr, hs⟩ := hrecs
  exact ⟨recs, decode_flatten hr, hs⟩

theorem ReaderInv.out_eq (q : Queue cfg w.tr gone live) {r : Reader} {out : List Byte}
    (h : ReaderInv cfg gone live out r) :
    ∃ written, written <+: gone ++ live ∧ out = written.flatten ∧ (r = .idle → written = gone) := by
  cases r with
  | idle => exact ⟨gone, prefix_append _ _, h, fun _ => rfl⟩
  | window cons prod => exact ⟨gone, prefix_append _ _, h.1, fun _ => rfl⟩
  | written prod =>
    obtain ⟨seen, hs, -, hout⟩ := h
    exact ⟨gone ++ seen, (prefix_append_right_inj _).2 hs, hout, nofun⟩
  | second prod =>
    -- the first piece ends with the data area, and so does a record
    obtain ⟨seen, ⟨rest, rfl⟩, -, hwrap, hout⟩ := h
    have hN := le_dataSize cfg
    have hblocks := q.blocks
    rw [← append_assoc, noStraddle_append, noStraddle_append, Nat.zero_add] at hblocks
    obtain ⟨a, b, rfl, ha⟩ := hblocks.1.2.split (by omega) hwrap
    refine ⟨gone ++ a, ⟨b ++ rest, by simp⟩, ?_, nofun⟩
    rw [hout, flatten_append, flatten_append]
    rw [show cfg.dataSize - bytesOf gone % cfg.dataSize = a.flatten.length from ha.symm,
      take_left]

theorem Queue.live_eq_nil (q : Queue cfg w.tr gone live) (h : w.tr.cons = w.tr.prod) :
    live = [] := by
  have hwin := q.windowSize_eq
  rw [h, windowSize, if_neg (Nat.lt_irrefl _)] at hwin
  cases live with
  | nil => rfl
  | cons bs live =>
    obtain ⟨st, hst⟩ := q.exists_encodes (show bs ∈ gone ++ bs :: live by simp)
    obtain ⟨extra, rfl, -⟩ := hst.layout
    have hpos : 0 < (recBytes st.event st.tsc extra).length := length_pos_iff.2 recBytes_ne_nil
    simp only [bytesOf, flatten_cons, length_append] at hwin
    omega

theorem extraBytes_eq {c : Call} (h : c.extra ≤ 4 * traceExtraMax) :
    c.extraBytes = 4 * ((c.extra + 3) / 4) := by
  unfold Call.extraBytes Call.extraWord traceExtraMax at *
  split <;> omega

/-- **The pipeline is a FIFO.** What the consumer has written decodes to the first records stored;
the events among them are accepted calls, in order and with their data. -/
theorem pipeline_fifo (cfg : TbufConfig) (page : Nat → Nat → Byte) (mask : BitVec 32) {w : Pipeline}
    (run : Reaches (step cfg) (fun _ _ => True) (.fresh page mask) w) :
    ∃ n recs calls, decode w.out = some recs ∧
      List.Forall₂ Shows (w.tr.stored.take n) recs ∧
      (w.reader = .idle → w.tr.cons = w.tr.prod → n = w.tr.stored.length) ∧
      (∀ st ∈ w.tr.stored,
        st.kind = .event ∨ st.IsWrap ∨ (st.kind = .lost ∧ st.event = trcLostRecords)) ∧
      calls.Sublist w.accepted ∧ List.Forall₂ Stored.IsEvent calls (eventsOf w.tr.stored) ∧
      ∀ c ∈ calls, c.extra ≤ 4 * traceExtraMax → c.extraBytes = 4 * ((c.extra + 3) / 4) := by
  obtain ⟨gone, live, q, -, r, hh⟩ := run_inv run
  obtain ⟨written, ⟨rest, hpre⟩, hout, hidle⟩ := r.out_eq q
  obtain ⟨calls, hsub, hcalls⟩ := hh.events
  have henc : List.Forall₂ Encodes (w.tr.stored.take written.length) written := by
    have := forall₂_take written.length q.encodes
    rwa [← hpre, take_left] at this
  obtain ⟨recs, hdec, hshow⟩ := decode_encoded henc
  refine ⟨written.length, recs, calls, ?_, hshow, fun hr hcp => ?_, hh.kinds,
    (sublist_append_left _ _).trans hsub, hcalls, fun c _ hc => extraBytes_eq hc⟩
  · rw [hout, hdec]
  · rw [q.encodes.length_eq, q.live_eq_nil hcp, append_nil, hidle hr]

/-- One event of one word, written out by one pass: 16 bytes that decode to it. -/
theorem pipeline_fifo_one_event :
    ∃ w recs, Reaches (step onePage) (fun _ _ => True) onePageStart w ∧
      w.out.length = 16 ∧ decode w.out = some recs ∧ List.Forall₂ Shows w.tr.stored recs := by
  obtain ⟨w, run, hlen, hidle, hcp⟩ : ∃ w, Reaches (step onePage) (fun _ _ => True) onePageStart w ∧
      w.out.length = 16 ∧ w.reader = .idle ∧ w.tr.cons = w.tr.prod :=
    Reaches.exists_of_foldlM (l := wholeCall 1 ++ wholePass) (fun _ _ _ => trivial)
      (by decide +kernel)
  obtain ⟨n, recs, calls, hdec, hshow, hall, -⟩ := pipeline_fifo onePage _ _ run
  rw [hall hidle hcp, take_length] at hshow
  exact ⟨w, recs, run, hlen, hdec, hshow⟩

end Fifo

/-! ## The ring -/

structure RingSafe (cfg : TbufConfig) (w : Pipeline) : Prop where
  prod_mod : w.tr.prod % 4 = 0
  cons_mod : w.tr.cons % 4 = 0
  prod_lt : w.tr.prod < 2 * cfg.dataSize
  cons_lt : w.tr.cons < 2 * cfg.dataSize
  unconsumed : windowSize cfg w.tr.cons w.tr.prod ≤ cfg.dataSize
  inArea : ∀ st ∈ w.tr.stored, st.offset + st.size ≤ cfg.dataSize
  /-- neither `bogus` nor the branch "access beyond end of buffer" has printed anything -/
  quiet : w.tr.warnings = []
  /-- the calls so far have moved `prod` to where their dry runs said -/
  settled : w.pc = .idle → w.tr.prod = w.target

section Safety

variable {cfg : TbufConfig} {w : Pipeline}

theorem Inv.ringSafe (h : Inv cfg w) : RingSafe cfg w := by
  obtain ⟨gone, live, q, p, -, -⟩ := h
  have hN := le_dataSize cfg
  refine ⟨?_, ?_, ?_, ?_, ?_, q.inArea, q.quiet, fun hidle => ?_⟩
  · rw [q.pos.prod, index_mod_four q.pos.prod_mod]
  · rw [q.pos.cons, index_mod_four q.pos.cons_mod]
  · rw [q.pos.prod]
    exact Nat.mod_lt _ (by omega)
  · rw [q.pos.cons]
    exact Nat.mod_lt _ (by omega)
  · have := q.pos.fits
    rw [q.windowSize_eq]
    omega
  · rw [q.pos.prod, p.target, hidle, Pc.due, Nat.add_zero]

theorem Inv.proceed_four (h : Inv cfg w) (hpc : w.pc.stagesLeft = 4) :
    ∃ w', [Act.proceed, .proceed, .proceed, .proceed].foldlM (step cfg) w = .ok w' ∧ Inv cfg w' ∧
      w'.pc = .idle ∧ w'.target = w.target := by
  obtain ⟨w₁, h₁, i₁, -⟩ := proceed_inv h
  obtain ⟨w₂, h₂, i₂, -⟩ := proceed_inv i₁
  obtain ⟨w₃, h₃, i₃, -⟩ := proceed_inv i₂
  obtain ⟨w₄, h₄, i₄, -⟩ := proceed_inv i₃
  obtain ⟨s₁, t₁⟩ := proceed_stage h₁
  obtain ⟨s₂, t₂⟩ := proceed_stage h₂
  obtain ⟨s₃, t₃⟩ := proceed_stage h₃
  obtain ⟨s₄, t₄⟩ := proceed_stage h₄
  refine ⟨w₄, ?_, i₄, ?_, by rw [t₄, t₃, t₂, t₁]⟩
  · simp only [foldlM_cons, foldlM_nil, step, h₁, h₂, h₃, h₄, ok_bind]
    rfl
  · exact Pc.eq_idle (by omega)

variable {c : Call} {started : Started} {s : Tracer}

theorem Inv.startTrace_some (h : Inv cfg w)
    (hs : startTrace cfg c w.tr = .ok (some started, s)) : s = w.tr := by
  obtain ⟨gone, live, q, -⟩ := h
  by_cases hc : c.extraWord ≤ traceExtraMax ∨ cfg.debug = false
  · rw [startTrace_eq q rfl hc] at hs
    split at hs
    · cases hs
    · split at hs
      · cases hs
      · cases hs
        rfl
  · rw [startTrace_eq_error q.pos.init hc] at hs
    cases hs

theorem Inv.traceVar_advances (h : Inv cfg w) (hidle : w.pc = .idle)
    (hs : startTrace cfg c w.tr = .ok (some started, s)) :
    ∃ s', traceVar cfg c w.tr = .ok s' ∧
      s'.prod = (w.tr.prod + started.totalSize) % (2 * cfg.dataSize) := by
  obtain rfl : s = w.tr := h.startTrace_some hs
  have hf : ¬ (w.tr.initDone = false ∨ w.tr.accepts c.event = false) := by
    intro hf
    cases startTrace_filtered hf hs
  have hcall : step cfg w (.call c) = .ok { w with
      pc := .wrapLost c started, accepted := w.accepted ++ [c]
      target := (w.tr.prod + started.totalSize) % (2 * cfg.dataSize) } := by
    simp only [step, hidle, Pipeline.call, hs, ok_bind, if_neg hf]
    rfl
  obtain ⟨w', hrun, hi, hend, ht⟩ := (step_keeps h hcall).proceed_four rfl
  have htv := traceVar_uninterrupted cfg w c hidle
  rw [foldlM_cons, hcall, ok_bind, hrun] at htv
  refine ⟨w'.tr, htv.symm, ?_⟩
  rw [hi.ringSafe.settled hend, ht]

/-- **The ring is safe.** The indices are in range, no record reaches past the data area, every step
succeeds, up to the check of `__trace_var` on the size of its argument, and overwrites no byte that
is waiting. -/
theorem ring_safe (cfg : TbufConfig) (page : Nat → Nat → Byte) (mask : BitVec 32) {w : Pipeline}
    (run : Reaches (step cfg) (fun _ _ => True) (.fresh page mask) w) :
    RingSafe cfg w ∧
      (∀ a, a.Sized cfg → ∃ w', step cfg w a = .ok w' ∧ Undisturbed cfg w.tr w'.tr) ∧
      (∀ a f, step cfg w a = .error f → f = .extraWords ∧ ¬ a.Sized cfg) ∧
      ∀ c started s, w.pc = .idle → startTrace cfg c w.tr = .ok (some started, s) →
        ∃ s', traceVar cfg c w.tr = .ok s' ∧
          s'.prod = (w.tr.prod + started.totalSize) % (2 * cfg.dataSize) := by
  have h := run_inv run
  refine ⟨h.ringSafe, fun a ha => ?_, fun a f hf => ?_,
    fun c started s hidle hs => h.traceVar_advances hidle hs⟩
  · obtain ⟨w', hw', -, hu⟩ := step_inv h ha
    exact ⟨w', hw', hu⟩
  · have ha : ¬ a.Sized cfg := by
      intro ha
      obtain ⟨w', hw', -⟩ := step_inv h ha
      rw [hw'] at hf
      cases hf
    rcases step_unsized h ha with hv | hv
    · rw [hv] at hf
      cases hf
    · rw [hv] at hf
      cases hf
      exact ⟨rfl, ha⟩

/-- The ring after one event of one word. -/
theorem ring_safe_one_event :
    ∃ w, Reaches (step onePage) (fun _ _ => True) onePageStart w ∧
      w.tr.prod = 16 ∧ RingSafe onePage w := by
  obtain ⟨w, run, hprod⟩ : ∃ w, Reaches (step onePage) (fun _ _ => True) onePageStart w ∧
      w.tr.prod = 16 :=
    Reaches.exists_of_foldlM (l := wholeCall 1) (fun _ _ _ => trivial) (by decide +kernel)
  exact ⟨w, run, hprod, (ring_safe onePage _ _ run).1⟩

end Safety

/-- **No event is lost unaccounted.** With fewer than `2 ^ 32` drops, the events that passed the
filter are those stored, those counted as lost, and the one that is being written. -/
theorem events_accounted (cfg : TbufConfig) (page : Nat → Nat → Byte) (mask : BitVec 32)
    {w : Pipeline} (run : Reaches (step cfg) (fun _ _ => True) (.fresh page mask) w)
    (hd : w.dropped < 2 ^ 32) :
    w.accepted.length = (eventsOf w.tr.stored).length + carriedBy w.tr.stored + w.tr.lost +
      w.pc.pending.toList.length := by
  obtain ⟨-, -, -, -, -, hh⟩ := run_inv run
  exact (hh.counted hd).2

/-- The data area of one page takes 102 events of seven words; the next one is counted. -/
theorem events_accounted_one_dropped :
    ∃ w, Reaches (step onePage) (fun _ _ => True) onePageStart w ∧
      w.accepted.length = 103 ∧ w.tr.lost = 1 ∧
      103 = (eventsOf w.tr.stored).length + carriedBy w.tr.stored + 1 := by
  obtain ⟨w, run, hacc, hlost, hdrop, hleft⟩ :
      ∃ w, Reaches (step onePage) (fun _ _ => True) onePageStart w ∧
        w.accepted.length = 103 ∧ w.tr.lost = 1 ∧ w.dropped = 1 ∧ w.pc.stagesLeft = 0 :=
    Reaches.exists_of_foldlM (l := (List.replicate 103 (wholeCall 7)).flatten)
      (fun _ _ _ => trivial) (by decide +kernel)
  have hcount := events_accounted onePage _ _ run (by omega)
  rw [hacc, hlost, Pc.eq_idle hleft] at hcount
  exact ⟨w, run, hacc, hlost, hcount⟩

end XenVmi.Tbuf
