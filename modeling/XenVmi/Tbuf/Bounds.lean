import XenVmi.Tbuf.Stream

/-!
# What the trace code touches

`prod` and `cons` are shared with dom0, which may store any value there. `bogus` looks at each of
them, and not at how far they are apart. The MFNs of the pages are listed in `t_info`, behind its
header.
-/

namespace XenVmi.Tbuf

open XenVmi.Lib

/-! ## The pages of the buffer -/

/-- Nothing was written outside the pages of the buffer. -/
def OwnPages (cfg : TbufConfig) (s s' : Tracer) : Prop :=
  ∀ p o, cfg.pages ≤ p ∨ 4096 ≤ o → s'.page p o = s.page p o

/-- The slot, and the page after it if there is one, lie in the buffer. -/
structure Slot.InBuffer (cfg : TbufConfig) (slot : Slot) : Prop where
  page : slot.page < cfg.pages
  offset : slot.offset < 4096
  next : slot.hasNext = true → slot.page + 1 < cfg.pages

section Pages

variable {cfg : TbufConfig} {s s' : Tracer} {slot : Slot} {r : Nat × Tracer}

theorem OwnPages.of_page (h : s'.page = s.page) : OwnPages cfg s s' := fun _ _ _ => by rw [h]

theorem OwnPages.trans {s'' : Tracer} (h : OwnPages cfg s s') (h' : OwnPages cfg s' s'') :
    OwnPages cfg s s'' := fun p o hpo => (h' p o hpo).trans (h p o hpo)

theorem not_of_bugOn {c : Prop} [Decidable c] {f : Fault} {u : Unit} (h : bugOn c f = .ok u) :
    ¬ c := fun hc => by
  rw [bugOn, if_pos hc] at h
  cases h

theorem bogus_page (prod cons : Nat) : (bogus cfg prod cons s).2.page = s.page := by
  unfold bogus
  split <;> rfl

/-- What `calc_unconsumed_bytes` and `calc_bytes_to_wrap` have in common. -/
theorem checked_page {x y : Nat} {p q : Prop} [Decidable p] [Decidable q] {f g : Fault}
    (h : (if (bogus cfg s.prod s.cons s).1 then return (x, (bogus cfg s.prod s.cons s).2) else do
      cfg.assert p f
      cfg.assert q g
      return (y, (bogus cfg s.prod s.cons s).2)) = Except.ok r) : r.2.page = s.page := by
  split at h
  · cases h
    exact bogus_page _ _
  · obtain ⟨_, -, h⟩ := exists_ok_of_bind h
    obtain ⟨_, -, h⟩ := exists_ok_of_bind h
    cases h
    exact bogus_page _ _

theorem calcUnconsumedBytes_page (h : calcUnconsumedBytes cfg s = .ok r) : r.2.page = s.page :=
  checked_page h

theorem calcBytesToWrap_page (h : calcBytesToWrap cfg s = .ok r) : r.2.page = s.page :=
  checked_page h

theorem bogus_or_in_range (b : Bool × Tracer)
    (hb : (if s.initDone then bogus cfg s.prod s.cons s else (true, s)) = b) :
    b.2.page = s.page ∧ (b.1 = true ∨ s.prod < 2 * cfg.dataSize) := by
  subst hb
  unfold bogus
  split
  · split
    · exact ⟨rfl, .inl rfl⟩
    · exact ⟨rfl, .inr (by omega)⟩
  · exact ⟨rfl, .inl rfl⟩

theorem nextRecord_inBuffer {r : Option Slot × Tracer} (h : nextRecord cfg s = .ok r) :
    r.2.page = s.page ∧ ∀ slot, r.1 = some slot → slot.InBuffer cfg := by
  have hadd := dataSize_add cfg
  unfold nextRecord at h
  dsimp only at h
  generalize hb : (if s.initDone then bogus cfg s.prod s.cons s else (true, s)) = b at h
  obtain ⟨hpage, hrange⟩ := bogus_or_in_range b hb
  split at h
  case isTrue =>
    cases h
    exact ⟨hpage, fun _ h => by cases h⟩
  case isFalse hok =>
    have hprod := hrange.resolve_left hok
    obtain ⟨_, -, h⟩ := exists_ok_of_bind h
    cases h
    refine ⟨hpage, fun slot h => ?_⟩
    cases h
    refine ⟨?_, Nat.mod_lt _ (by decide), fun h => of_decide_eq_true h⟩
    rw [Nat.div_lt_iff_lt_mul (by decide)]
    split <;> omega

variable {p o : Nat} {page : Nat → Nat → Byte} {bs : List Byte} {c : Call}

theorem writePage_own {nr offset : Nat} (hnr : nr < cfg.pages) (hlen : offset + bs.length ≤ 4096)
    (hpo : cfg.pages ≤ p ∨ 4096 ≤ o) : writePage page nr offset bs p o = page p o := by
  unfold writePage
  split
  · rw [List.getElem?_eq_none (by omega)]
    rfl
  · rfl

theorem writeRecord_own (h : slot.InBuffer cfg)
    (hlen : bs.length ≤ 4096) (hnext : 4096 - slot.offset < bs.length → slot.hasNext = true)
    (hpo : cfg.pages ≤ p ∨ 4096 ≤ o) : writeRecord page slot bs p o = page p o := by
  have hoff := h.offset
  unfold writeRecord
  split
  case isTrue hlt =>
    rw [writePage_own (h.next (hnext hlt)) (by rw [List.length_drop]; omega) hpo,
      writePage_own h.page (by rw [List.length_take]; omega) hpo]
  case isFalse => exact writePage_own h.page (by omega) hpo

theorem insertRecord_own {kind : Kind} {event : BitVec 32} {extra recSize : Nat} {cycles : Bool}
    {data : Option (Nat → Byte)} (hsize : recSize ≤ 4096)
    (h : insertRecord cfg kind event extra cycles recSize data s = .ok s') : OwnPages cfg s s' := by
  obtain ⟨_, hrec, h⟩ := exists_ok_of_bind h
  obtain ⟨_, -, h⟩ := exists_ok_of_bind h
  obtain ⟨⟨o, s₁⟩, hr, h⟩ := exists_ok_of_bind h
  obtain ⟨hpage, hslot⟩ := nextRecord_inBuffer hr
  cases o with
  | none =>
    cases h
    exact .of_page hpage
  | some slot =>
    have hlen : (recBytes event (if cycles then some (cfg.getCycles s₁.clock) else none)
        (extraOf cfg s₁ slot recSize extra data)).length = recSize := by
      rw [length_recBytes_eq, length_extraOf]
      exact not_not.1 (not_of_bugOn hrec)
    dsimp only at h
    split at h
    case isTrue =>
      cases h
      exact .of_page hpage
    case isFalse hfit =>
      have hnext : 4096 - slot.offset < recSize → slot.hasNext = true := fun hlt =>
        Bool.eq_true_of_not_eq_false fun hn => hfit ⟨hlt, hn⟩
      obtain ⟨_, -, h⟩ := exists_ok_of_bind h
      cases h
      exact fun p o hpo =>
        (writeRecord_own (hslot slot rfl) (hlen.trans_le hsize) (by rwa [hlen]) hpo).trans
        (congrFun (congrFun hpage p) o)

theorem insertWrapRecord_own {size : Nat} (hsize : size ≤ 4096)
    (h : insertWrapRecord cfg size s = .ok s') : OwnPages cfg s s' := by
  obtain ⟨w, hw, h⟩ := exists_ok_of_bind h
  obtain ⟨_, hle, h⟩ := exists_ok_of_bind h
  have hle := not_of_bugOn hle
  refine (OwnPages.of_page (calcBytesToWrap_page hw)).trans ?_
  split at h
  · obtain ⟨_, -, h⟩ := exists_ok_of_bind h
    exact insertRecord_own (by omega) h
  · exact insertRecord_own (by omega) h

theorem startTrace_page {r : Option Started × Tracer} (h : startTrace cfg c s = .ok r) :
    r.2.page = s.page := by
  unfold startTrace at h
  split at h
  · cases h
    rfl
  obtain ⟨_, -, h⟩ := exists_ok_of_bind h
  split at h
  · cases h
    rfl
  obtain ⟨u, hu, h⟩ := exists_ok_of_bind h
  obtain ⟨t, ht, h⟩ := exists_ok_of_bind h
  obtain ⟨v, hv, ht⟩ := exists_ok_of_bind ht
  obtain ⟨w, hw, h⟩ := exists_ok_of_bind h
  cases ht
  have hpage : w.2.page = s.page := (calcBytesToWrap_page hw).trans
    ((calcUnconsumedBytes_page hv).trans (calcUnconsumedBytes_page hu))
  dsimp only at h
  split at h
  · cases h
    rw [← hpage]
    dsimp only [dropRecord]
    split <;> rfl
  · cases h
    exact hpage

theorem wrapForLost_own (h : wrapForLost cfg s = .ok r) : OwnPages cfg s r.2 := by
  obtain ⟨w, hw, h⟩ := exists_ok_of_bind h
  have hown : OwnPages cfg s w.2 := .of_page (calcBytesToWrap_page hw)
  split at h
  · obtain ⟨_, hs, h⟩ := exists_ok_of_bind h
    cases h
    exact hown.trans (insertWrapRecord_own (by decide) hs)
  · cases h
    exact hown

theorem putLost_own {n : Nat} (h : putLost cfg c n s = .ok r) : OwnPages cfg s r.2 := by
  unfold putLost at h
  split at h
  · obtain ⟨_, hs, h⟩ := exists_ok_of_bind h
    cases h
    have hown := insertRecord_own (show lostRecSize ≤ 4096 by decide) hs
    exact hown
  · cases h
    exact .of_page rfl

theorem wrapForEvent_own {n : Nat} (h : wrapForEvent cfg c n s = .ok s') : OwnPages cfg s s' := by
  unfold wrapForEvent at h
  split at h
  · exact insertWrapRecord_own (by have := recSize_le c; omega) h
  · cases h
    exact .of_page rfl

theorem putEvent_own {below : Bool} (h : putEvent cfg c below s = .ok s') : OwnPages cfg s s' := by
  obtain ⟨s₁, hs, h⟩ := exists_ok_of_bind h
  refine (insertRecord_own (by have := recSize_le c; omega) hs).trans ?_
  split at h
  · obtain ⟨u, hu, h⟩ := exists_ok_of_bind h
    split at h <;> cases h
    · exact .of_page (calcUnconsumedBytes_page hu)
    · exact .of_page (calcUnconsumedBytes_page hu)
  · cases h
    exact .of_page rfl

theorem traceVar_own (h : traceVar cfg c s = .ok s') : OwnPages cfg s s' := by
  obtain ⟨⟨started, s₁⟩, h₁, h⟩ := exists_ok_of_bind h
  refine (OwnPages.of_page (startTrace_page h₁)).trans ?_
  cases started with
  | none =>
    cases h
    exact .of_page rfl
  | some started =>
    obtain ⟨w, hw, h⟩ := exists_ok_of_bind h
    obtain ⟨l, hl, h⟩ := exists_ok_of_bind h
    obtain ⟨s₂, h₂, h⟩ := exists_ok_of_bind h
    exact (wrapForLost_own hw).trans
      ((putLost_own hl).trans ((wrapForEvent_own h₂).trans (putEvent_own h)))

/-! ## The distance of the indices -/

/-- An index that `bogus` lets pass. -/
def InRange (cfg : TbufConfig) (i : Nat) : Prop := i % 4 = 0 ∧ i < 2 * cfg.dataSize

/-- How far `prod` is ahead of `cons`, modulo twice the size of the data area. -/
def ahead (cfg : TbufConfig) (s : Tracer) : Nat :=
  (s.prod + 2 * cfg.dataSize - s.cons) % (2 * cfg.dataSize)

theorem bogus_iff : (bogus cfg s.prod s.cons s).1 = true ↔
    ¬ (InRange cfg s.prod ∧ InRange cfg s.cons) := by
  unfold bogus InRange
  rw [and_three, and_three]
  split
  · exact iff_of_true rfl (by omega)
  · exact iff_of_false Bool.false_ne_true (by omega)

theorem bogus_of_inRange (hp : InRange cfg s.prod) (hc : InRange cfg s.cons) :
    bogus cfg s.prod s.cons s = (false, s) := by
  unfold InRange at hp hc
  rw [bogus, if_neg]
  rw [and_three, and_three]
  omega

theorem ahead_eq (hp : InRange cfg s.prod) (hc : InRange cfg s.cons) :
    (if 2 ^ 31 ≤ u32Sub s.prod s.cons then u32 (u32Sub s.prod s.cons + 2 * cfg.dataSize)
      else u32Sub s.prod s.cons) = ahead cfg s := by
  have hlt := dataSize_lt cfg
  obtain ⟨-, hp⟩ := hp
  obtain ⟨-, hc⟩ := hc
  have hmod : ahead cfg s =
      if s.cons ≤ s.prod then s.prod - s.cons else s.prod + 2 * cfg.dataSize - s.cons := by
    unfold ahead
    split
    · rw [Nat.sub_add_comm ‹_›, Nat.add_mod_right, Nat.mod_eq_of_lt (by omega)]
    · exact Nat.mod_eq_of_lt (by omega)
  rw [hmod]
  unfold u32Sub u32
  split_ifs <;> omega

theorem calcUnconsumedBytes_of_inRange (hp : InRange cfg s.prod) (hc : InRange cfg s.cons) :
    calcUnconsumedBytes cfg s =
      cfg.assert (ahead cfg s ≤ cfg.dataSize) .unconsumedTooBig >>=
        fun _ => .ok (ahead cfg s, s) := by
  have hlt := dataSize_lt cfg
  have hahead : ahead cfg s < 2 * cfg.dataSize := Nat.mod_lt _ (Nat.zero_lt_of_lt hp.2)
  unfold calcUnconsumedBytes
  simp only [bogus_of_inRange hp hc, Bool.false_eq_true, if_false, ahead_eq hp hc]
  rw [assert_eq (by omega)]
  rfl

/-- **The producer with any indices** is safe just when indices that `bogus` lets pass are at most
`data_size` apart. -/
theorem shared_indices_tolerated_iff (cfg : TbufConfig) (s : Tracer) :
    (((bogus cfg s.prod s.cons s).1 = true ∧ (bogus cfg s.prod s.cons s).2.initDone = false ∨
        ∃ x ≤ cfg.dataSize, calcUnconsumedBytes cfg s = .ok (x, s) ∧
          calcBytesAvail cfg s = .ok (cfg.dataSize - x, s)) ∧
      ∀ c s', traceVar cfg c s = .ok s' → OwnPages cfg s s') ↔
    (InRange cfg s.prod ∧ InRange cfg s.cons → ahead cfg s ≤ cfg.dataSize) := by
  have hlt := dataSize_lt cfg
  rw [and_iff_left fun c s' h => traceVar_own h]
  by_cases hr : InRange cfg s.prod ∧ InRange cfg s.cons
  · have hu := calcUnconsumedBytes_of_inRange hr.1 hr.2
    refine ⟨?_, fun h => .inr ⟨ahead cfg s, h hr, ?_⟩⟩
    · rintro (⟨h, -⟩ | ⟨y, hy, h, -⟩) -
      · exact absurd hr (bogus_iff.1 h)
      · obtain ⟨_, -, h⟩ := exists_ok_of_bind (hu.symm.trans h)
        cases h
        exact hy
    · have hle := h hr
      rw [assert_eq hle, ok_bind] at hu
      refine ⟨hu, ?_⟩
      rw [calcBytesAvail, hu, ok_bind, u32Sub]
      show Except.ok _ = _
      congr 2
      omega
  · have hb := bogus_iff.2 hr
    refine iff_of_true (.inl ⟨hb, ?_⟩) fun h => absurd h hr
    unfold bogus at hb ⊢
    split
    case isTrue => rfl
    case isFalse h =>
      rw [if_neg h] at hb
      cases hb

/-- dom0 stores two indices that are in range and more than a buffer apart. -/
def farApart : Tracer := { Tracer.fresh (fun _ _ => 0) 0 with prod := 4092 }

theorem indices_too_far_apart :
    let cfg : TbufConfig := ⟨1, by decide, by decide, false, fun _ => 0, fun _ _ => 0⟩
    (bogus cfg farApart.prod farApart.cons farApart).1 = false ∧
      (calcUnconsumedBytes cfg farApart).map Prod.fst = .ok 4092 ∧ cfg.dataSize = 4088 ∧
      (calcBytesAvail cfg farApart).map Prod.fst = .ok 4294967292 := by
  decide +kernel

end Pages

/-! ## The list of MFNs in `t_info` -/

/-- `calc_tinfo_first_offset`: the words of `struct t_info` with the offsets of `NR_CPUS` CPUs. -/
def calcTinfoFirstOffset (nrCpus : Nat) : Nat := (2 + 2 * nrCpus + 3) / 4

/-- `PFN_UP` -/
def pfnUp (bytes : Nat) : Nat := (bytes + 4095) / 4096

/-- `t_info_pages` of `calculate_tbuf_size`: the header is counted in words, the list in bytes. -/
def tInfoPages (firstOffset onlineCpus pages : Nat) : Nat :=
  pfnUp (u32 (firstOffset + u32 (onlineCpus * pages * 4)))

/-- `mfn_offset[cpu]` of `alloc_trace_bufs`, a `uint16_t`. -/
def mfnOffset (firstOffset pages cpu : Nat) : Nat := (firstOffset + cpu * pages) % 2 ^ 16

section MfnList

variable {first n req : Nat}

/-- The limits of the 32-bit indices and of `tbuf_size` are weaker than that of `mfn_offset`. -/
theorem calculateTbufSize_eq (req first n : Nat) :
    calculateTbufSize req first n = min req ((65535 - first) / max 1 (n - 1)) := by
  have hle := Nat.div_le_self (65535 - first) (n - 1)
  unfold calculateTbufSize
  by_cases h1 : n - 1 = 0
  · simp only [h1, ne_eq, not_true_eq_false, if_false, Nat.max_zero, Nat.div_one]
    split_ifs <;> omega
  · rw [Nat.max_eq_right (Nat.one_le_iff_ne_zero.2 h1)]
    simp only [h1, ne_eq, not_false_eq_true, if_true, Nat.reducePow, Nat.reduceSub]
    split_ifs <;> omega

theorem calculateTbufSize_mul_le (req first n : Nat) :
    (n - 1) * calculateTbufSize req first n ≤ 65535 - first ∧
      calculateTbufSize req first n ≤ 65535 := by
  rw [calculateTbufSize_eq]
  have hdiv := Nat.div_mul_le_self (65535 - first) (max 1 (n - 1))
  have hle := Nat.div_le_self (65535 - first) (max 1 (n - 1))
  refine ⟨?_, by omega⟩
  calc (n - 1) * min req ((65535 - first) / max 1 (n - 1))
      ≤ max 1 (n - 1) * ((65535 - first) / max 1 (n - 1)) :=
        Nat.mul_le_mul (Nat.le_max_right _ _) (Nat.min_le_right _ _)
    _ ≤ 65535 - first := by rwa [Nat.mul_comm]

/-- **The lists of MFNs** fit just when the page that the count of `calculate_tbuf_size` ends in,
header in words and lists in bytes, has room for the other three bytes of each word of the
header. -/
theorem mfn_lists_fit_iff (nrCpus n req : Nat) (hn : 0 < n)
    (hfirst : calcTinfoFirstOffset nrCpus < 2 ^ 16) :
    let first := calcTinfoFirstOffset nrCpus
    let pages := calculateTbufSize req first n
    let header := (2 * nrCpus + 5) / 4
    let perCpu := min req ((65535 - header) / max 1 (n - 1))
    ((∀ cpu < n, mfnOffset first pages cpu = first + cpu * pages) ∧
      (∀ cpu < n, first ≤ mfnOffset first pages cpu) ∧
      (∀ cpu < n, ∀ cpu' < cpu, mfnOffset first pages cpu' + pages ≤ mfnOffset first pages cpu) ∧
      ∀ cpu < n, ∀ i < pages, mfnOffset first pages cpu + i < tInfoPages first n pages * 1024) ↔
    (0 < perCpu → 3 * header ≤ (4096 - (header + 4 * (n * perCpu)) % 4096) % 4096) := by
  intro first pages header perCpu
  have hheader : header = first := by
    show (2 * nrCpus + 5) / 4 = (2 + 2 * nrCpus + 3) / 4
    omega
  have hpages : perCpu = pages := by
    show min req ((65535 - header) / _) = calculateTbufSize req first n
    rw [hheader, calculateTbufSize_eq]
  rw [hheader, hpages]
  obtain ⟨hmul, hle⟩ : (n - 1) * pages ≤ 65535 - first ∧ pages ≤ 65535 :=
    calculateTbufSize_mul_le req first n
  have hfirst : first < 2 ^ 16 := hfirst
  have hoff (cpu : Nat) (h : cpu < n) : mfnOffset first pages cpu = first + cpu * pages := by
    have : cpu * pages ≤ (n - 1) * pages := Nat.mul_le_mul_right _ (by omega)
    exact Nat.mod_eq_of_lt (by omega)
  have hstep {cpu cpu' : Nat} (h : cpu' < cpu) : cpu' * pages + pages ≤ cpu * pages := by
    rw [← Nat.succ_mul]
    exact Nat.mul_le_mul_right _ h
  have hlast : (n - 1) * pages + pages = n * pages := by
    rw [← Nat.succ_mul]
    congr 1
    omega
  -- nothing wraps in 32 bits
  have hinfo : tInfoPages first n pages = (first + 4 * (n * pages) + 4095) / 4096 := by
    unfold tInfoPages pfnUp u32
    omega
  constructor
  · rintro ⟨-, -, -, hin⟩ hpos
    have := hin (n - 1) (by omega) (pages - 1) (by omega)
    rw [hoff _ (by omega)] at this
    omega
  · intro hfit
    refine ⟨hoff, fun cpu h => ?_, fun cpu h cpu' h' => ?_, fun cpu h i hi => ?_⟩
    · rw [hoff cpu h]
      omega
    · have := hstep h'
      rw [hoff cpu h, hoff cpu' (by omega)]
      omega
    · have := hstep h
      rw [hoff cpu h]
      omega

theorem mfn_lists_fit_iff_three_pages :
    calculateTbufSize 3 (calcTinfoFirstOffset 256) 8 = 3 ∧
      ∀ cpu < 8, ∀ i < 3, mfnOffset (calcTinfoFirstOffset 256) 3 cpu + i <
        tInfoPages (calcTinfoFirstOffset 256) 8 3 * 1024 :=
  ⟨by decide, ((mfn_lists_fit_iff 256 8 3 (by decide) (by decide)).2 (by decide)).2.2.2⟩

/-- With 256 possible CPUs, eight online and 120 pages for each, one page is taken for 1089 words.
-/
theorem mfn_list_runs_over :
    calculateTbufSize 120 (calcTinfoFirstOffset 256) 8 = 120 ∧
      tInfoPages (calcTinfoFirstOffset 256) 8 120 = 1 ∧
      mfnOffset (calcTinfoFirstOffset 256) 120 7 + 119 = 1088 := by
  decide

end MfnList

end XenVmi.Tbuf
