import XenVmi.Tbuf.Buffer
import Mathlib.Tactic.SplitIfs

/-!
# What one record does to the buffer

`At cfg s C P`: `prod` and `cons` are the positions `P` and `C` of an endless stream, modulo twice
the size of the data area, and the bytes in between fit.
-/

namespace XenVmi.Tbuf

open XenVmi.Lib

/-! ## Sizes -/

section Sizes

variable (cfg : TbufConfig)

theorem dataSize_add : cfg.dataSize + 8 = 4096 * cfg.pages := by
  have := cfg.pages_pos
  unfold TbufConfig.dataSize
  omega

theorem le_dataSize : 4088 ≤ cfg.dataSize := by
  have := dataSize_add cfg
  omega

theorem dataSize_lt : cfg.dataSize < 2 ^ 28 := by
  have := cfg.pages_lt
  have := dataSize_add cfg
  omega

theorem dataSize_mod : cfg.dataSize % 4 = 0 := by
  have := dataSize_add cfg
  omega

end Sizes

theorem and_three (n : Nat) : n &&& 3 = n % 4 := Nat.and_two_pow_sub_one_eq_mod n 2

section Checks

variable {cfg : TbufConfig} {c : Prop} [Decidable c] {f : Fault}

theorem assert_eq (h : c) : cfg.assert c f = .ok () := if_pos (.inl h)

theorem bugOn_eq (h : ¬ c) : bugOn c f = .ok () := if_neg h

end Checks

/-! ## Positions -/

/-- `prod` and `cons` stand at the positions `P` and `C` of the stream. -/
structure At (cfg : TbufConfig) (s : Tracer) (C P : Nat) : Prop where
  prod : s.prod = P % (2 * cfg.dataSize)
  cons : s.cons = C % (2 * cfg.dataSize)
  le : C ≤ P
  fits : P ≤ C + cfg.dataSize
  prod_mod : P % 4 = 0
  cons_mod : C % 4 = 0
  init : s.initDone = true

section At

variable {cfg : TbufConfig} {s : Tracer} {C P : Nat}

theorem index_mod_four (hP : P % 4 = 0) : P % (2 * cfg.dataSize) % 4 = 0 := by
  have h4 : 4 ∣ 2 * cfg.dataSize := Dvd.dvd.mul_left (Nat.dvd_of_mod_eq_zero (dataSize_mod cfg)) 2
  rw [Nat.mod_mod_of_dvd P h4, hP]

variable (h : At cfg s C P)

include h

theorem bogus_eq : bogus cfg s.prod s.cons s = (false, s) := by
  have hpos : 0 < 2 * cfg.dataSize := by have := le_dataSize cfg; omega
  unfold bogus
  rw [if_neg]
  rw [and_three, and_three, h.prod, h.cons, index_mod_four h.prod_mod, index_mod_four h.cons_mod]
  have := Nat.mod_lt P hpos
  have := Nat.mod_lt C hpos
  omega

theorem calcUnconsumedBytes_eq : calcUnconsumedBytes cfg s = .ok (P - C, s) := by
  have hN := le_dataSize cfg
  have hlt := dataSize_lt cfg
  have hd := distance_eq (by omega) h.le h.fits
  have hC := Nat.mod_lt C (show 0 < 2 * cfg.dataSize by omega)
  have hfit := h.fits
  -- the 32-bit arithmetic gives the distance of the positions
  have hx : (if 2 ^ 31 ≤ u32Sub s.prod s.cons then u32 (u32Sub s.prod s.cons + 2 * cfg.dataSize)
      else u32Sub s.prod s.cons) = P - C := by
    rw [h.prod, h.cons]
    unfold u32Sub u32
    split_ifs at hd ⊢ <;> omega
  unfold calcUnconsumedBytes
  simp only [bogus_eq h, Bool.false_eq_true, if_false, hx]
  rw [assert_eq (by omega), assert_eq (by omega)]
  rfl

theorem calcBytesAvail_eq : calcBytesAvail cfg s = .ok (cfg.dataSize - (P - C), s) := by
  have hlt := dataSize_lt cfg
  have hfit := h.fits
  unfold calcBytesAvail u32Sub
  rw [calcUnconsumedBytes_eq h]
  show Except.ok _ = _
  congr 2
  omega

theorem calcBytesToWrap_eq : calcBytesToWrap cfg s = .ok (cfg.dataSize - P % cfg.dataSize, s) := by
  have hN := le_dataSize cfg
  have hlt := dataSize_lt cfg
  have hr := room_to_end_eq (show 0 < cfg.dataSize by omega) P
  have hm := Nat.mod_lt P (show 0 < cfg.dataSize by omega)
  have hx : (if 2 ^ 31 ≤ u32Sub cfg.dataSize s.prod ∨ u32Sub cfg.dataSize s.prod = 0 then
      u32 (u32Sub cfg.dataSize s.prod + cfg.dataSize) else u32Sub cfg.dataSize s.prod)
      = cfg.dataSize - P % cfg.dataSize := by
    rw [h.prod]
    unfold u32Sub u32
    split_ifs at hr ⊢ <;> omega
  unfold calcBytesToWrap
  simp only [bogus_eq h, Bool.false_eq_true, if_false, hx]
  rw [assert_eq (by omega), assert_eq (by omega)]
  rfl

omit h

def slotAt (cfg : TbufConfig) (P : Nat) : Slot where
  next := P % (2 * cfg.dataSize)
  page := (P % cfg.dataSize + 8) / 4096
  offset := (P % cfg.dataSize + 8) % 4096
  hasNext := decide ((P % cfg.dataSize + 8) / 4096 + 1 < cfg.pages)

theorem nextRecord_eq (h : At cfg s C P) : nextRecord cfg s = .ok (some (slotAt cfg P), s) := by
  have hN := le_dataSize cfg
  have hm := Nat.mod_lt P (show 0 < cfg.dataSize by omega)
  have hx : (if cfg.dataSize ≤ s.prod then s.prod - cfg.dataSize else s.prod)
      = P % cfg.dataSize := by
    rw [h.prod, cell_eq (show 0 < cfg.dataSize by omega) P]
    split_ifs <;> omega
  unfold nextRecord
  simp only [h.init, if_true, bogus_eq h, Bool.false_eq_true, if_false, hx]
  rw [assert_eq hm, h.prod]
  rfl

end At

/-! ## One record -/

/-- The bytes `bs` are the record `st`. Where there was no `extra_data` they may say anything. -/
structure Encodes (st : Stored) (bs : List Byte) : Prop where
  size : bs.length = st.size
  layout : ∃ extra, bs = recBytes st.event st.tsc extra ∧ extra.length % 4 = 0 ∧
    extra.length ≤ 28 ∧ ∀ d, st.data = some d → extra = d

/-- `s'` is `s` with the record `st`, as the bytes `bs`, at position `P`. -/
structure Inserted (cfg : TbufConfig) (s : Tracer) (P : Nat) (st : Stored) (bs : List Byte)
    (s' : Tracer) : Prop where
  encodes : Encodes st bs
  offset : st.offset = P % cfg.dataSize
  prod : s'.prod = (P + bs.length) % (2 * cfg.dataSize)
  stored : s'.stored = s.stored ++ [st]
  bytes : ∀ i, s'.dataByte i =
    if P % cfg.dataSize ≤ i then bs[i - P % cfg.dataSize]?.getD (s.dataByte i) else s.dataByte i
  /-- `struct t_buf` itself -/
  head : ∀ o < 8, s'.page 0 o = s.page 0 o
  rest : s' = { s with page := s'.page, prod := s'.prod, clock := s'.clock, stored := s'.stored }

section Memory

variable {bs : List Byte} {slot : Slot} {a : Nat}

theorem writeRecord_linear (hpage : slot.page = a / 4096) (hoff : slot.offset = a % 4096)
    (hlen : bs.length ≤ 4096) (page : Nat → Nat → Byte) (x : Nat) :
    writeRecord page slot bs (x / 4096) (x % 4096) =
      if a ≤ x then bs[x - a]?.getD (page (x / 4096) (x % 4096))
      else page (x / 4096) (x % 4096) := by
  unfold writeRecord writePage
  rw [hpage, hoff]
  by_cases hsplit : 4096 - a % 4096 < bs.length
  · rw [if_pos hsplit]
    by_cases hx : a ≤ x
    · rw [if_pos hx]
      by_cases hnext : x / 4096 = a / 4096 + 1
      · rw [if_pos ⟨hnext, Nat.zero_le _⟩, if_neg (by omega), List.getElem?_drop,
          show 4096 - a % 4096 + (x % 4096 - 0) = x - a by omega]
      rw [if_neg (by omega)]
      by_cases hsame : x / 4096 = a / 4096
      · rw [if_pos (by omega), List.getElem?_take_of_lt (by omega),
          show x % 4096 - a % 4096 = x - a by omega]
      · rw [if_neg (by omega), List.getElem?_eq_none (by omega)]
        rfl
    · rw [if_neg hx, if_neg (by omega), if_neg (by omega)]
  · rw [if_neg hsplit]
    by_cases hx : a ≤ x
    · rw [if_pos hx]
      by_cases hsame : x / 4096 = a / 4096
      · rw [if_pos (by omega), show x % 4096 - a % 4096 = x - a by omega]
      · rw [if_neg (by omega), List.getElem?_eq_none (by omega)]
        rfl
    · rw [if_neg hx, if_neg (by omega)]

end Memory

@[simp] theorem length_readBytes (p : Nat → Byte) (n : Nat) : (readBytes p n).length = n := by
  simp [readBytes]

section Insert

variable {cfg : TbufConfig} {s : Tracer} {C P : Nat}

theorem length_recBytes_eq (event : BitVec 32) (cycles : Bool) (tsc : BitVec 64)
    (extra : List Byte) :
    (recBytes event (if cycles then some tsc else none) extra).length
      = calcRecSize cycles extra.length := by
  rw [length_recBytes]
  cases cycles <;> rfl

theorem nextIndex_eq (P : Nat) {n : Nat} (hn : n ≤ 40) :
    (if 2 * cfg.dataSize ≤ u32 (P % (2 * cfg.dataSize) + n) then
      u32 (P % (2 * cfg.dataSize) + n) - 2 * cfg.dataSize
    else u32 (P % (2 * cfg.dataSize) + n)) = (P + n) % (2 * cfg.dataSize) := by
  have hN := le_dataSize cfg
  have hlt := dataSize_lt cfg
  have hP := Nat.mod_lt P (show 0 < 2 * cfg.dataSize by omega)
  have hu : u32 (P % (2 * cfg.dataSize) + n) = P % (2 * cfg.dataSize) + n :=
    Nat.mod_eq_of_lt (by omega)
  rw [hu, add_mod_ite P (by omega)]

theorem calcRecSize_le {extra : Nat} (hmax : extra ≤ 28) (cycles : Bool) :
    calcRecSize cycles extra ≤ 40 := by
  unfold calcRecSize
  split <;> omega

theorem length_extraOf (cfg : TbufConfig) (s : Tracer) (slot : Slot) (recSize extra : Nat)
    (data : Option (Nat → Byte)) : (extraOf cfg s slot recSize extra data).length = extra := by
  cases data <;> simp [extraOf]

/-- The record that `__insert_record` stores at position `P`. -/
def recordAt (cfg : TbufConfig) (s : Tracer) (P : Nat) (kind : Kind) (event : BitVec 32)
    (extra : Nat) (cycles : Bool) (data : Option (Nat → Byte)) : Stored where
  kind := kind
  event := event
  tsc := if cycles then some (cfg.getCycles s.clock) else none
  data := data.map (readBytes · extra)
  offset := P % cfg.dataSize
  size := calcRecSize cycles extra

/-- The state after `__insert_record` of a record that fits, at position `P`. -/
def inserted (cfg : TbufConfig) (s : Tracer) (P : Nat) (kind : Kind) (event : BitVec 32)
    (extra : Nat) (cycles : Bool) (data : Option (Nat → Byte)) : Tracer :=
  { s with
    page := writeRecord s.page (slotAt cfg P)
      (recBytes event (if cycles then some (cfg.getCycles s.clock) else none)
        (extraOf cfg s (slotAt cfg P) (calcRecSize cycles extra) extra data))
    prod := (P + calcRecSize cycles extra) % (2 * cfg.dataSize)
    clock := if cycles then s.clock + 1 else s.clock
    stored := s.stored ++ [recordAt cfg s P kind event extra cycles data] }

theorem insertRecord_eq (h : At cfg s C P) (kind : Kind) (event : BitVec 32) (extra : Nat)
    (hdvd : extra % 4 = 0) (hmax : extra ≤ 28) (cycles : Bool)
    (hfit : P % cfg.dataSize + calcRecSize cycles extra ≤ cfg.dataSize)
    (data : Option (Nat → Byte)) :
    insertRecord cfg kind event extra cycles (calcRecSize cycles extra) data s
      = .ok (inserted cfg s P kind event extra cycles data) := by
  have hadd := dataSize_add cfg
  have hsize := calcRecSize_le hmax cycles
  -- the record does not run past the last page
  have hpage : ¬ (4096 - (slotAt cfg P).offset < calcRecSize cycles extra ∧
      (slotAt cfg P).hasNext = false) := by
    simp only [slotAt, decide_eq_false_iff_not]
    omega
  have hoff : 4096 * (slotAt cfg P).page + (slotAt cfg P).offset - 8 = P % cfg.dataSize := by
    simp only [slotAt]
    omega
  unfold insertRecord
  rw [bugOn_eq (by simp), ok_bind, bugOn_eq (by rw [and_three]; omega), ok_bind, nextRecord_eq h,
    ok_bind]
  simp only [if_neg hpage, hoff]
  rw [show (slotAt cfg P).next = P % (2 * cfg.dataSize) from rfl, nextIndex_eq P hsize,
    assert_eq (Nat.mod_lt _ (by omega))]
  rfl

theorem inserted_spec (cfg : TbufConfig) (s : Tracer) (P : Nat) (kind : Kind) (event : BitVec 32)
    {extra : Nat} (hdvd : extra % 4 = 0) (hmax : extra ≤ 28) (cycles : Bool)
    (data : Option (Nat → Byte)) :
    ∃ bs, Inserted cfg s P (recordAt cfg s P kind event extra cycles data) bs
      (inserted cfg s P kind event extra cycles data) ∧ bs.length = calcRecSize cycles extra := by
  have hsize := calcRecSize_le hmax cycles
  have hlen := length_extraOf cfg s (slotAt cfg P) (calcRecSize cycles extra) extra data
  generalize hd : extraOf cfg s (slotAt cfg P) (calcRecSize cycles extra) extra data = extraData
    at hlen
  generalize ht : (if cycles then some (cfg.getCycles s.clock) else none) = tsc
  have hbs : (recBytes event tsc extraData).length = calcRecSize cycles extra := by
    rw [← ht, length_recBytes_eq, hlen]
  refine ⟨recBytes event tsc extraData, ⟨⟨hbs, extraData, ?_, by omega, by omega, ?_⟩, rfl, ?_, rfl,
    ?_, ?_, rfl⟩, hbs⟩
  · rw [recordAt, ht]
  · intro d hdata
    cases data with
    | none => cases hdata
    | some p =>
      cases hdata
      exact hd.symm
  · rw [hbs]
    rfl
  · intro i
    simp only [inserted, ht, hd, Tracer.dataByte]
    rw [writeRecord_linear rfl rfl (by omega)]
    simp only [Nat.add_le_add_iff_right, Nat.add_sub_add_right]
  · intro o ho
    have h0 : o / 4096 = 0 := Nat.div_eq_of_lt (by omega)
    have hm : o % 4096 = o := Nat.mod_eq_of_lt (by omega)
    have hw := writeRecord_linear
      (show (slotAt cfg P).page = (P % cfg.dataSize + 8) / 4096 from rfl) rfl
      (show (recBytes event tsc extraData).length ≤ 4096 by omega) s.page o
    rw [h0, hm, if_neg (by omega)] at hw
    simp only [inserted, ht, hd]
    exact hw

theorem roomToEnd_mod (cfg : TbufConfig) (hP : P % 4 = 0) :
    0 < cfg.dataSize - P % cfg.dataSize ∧ (cfg.dataSize - P % cfg.dataSize) % 4 = 0 := by
  have hN := le_dataSize cfg
  have hm := dataSize_mod cfg
  have hlt := Nat.mod_lt P (show 0 < cfg.dataSize by omega)
  have hdvd := Nat.mod_mod_of_dvd P (Nat.dvd_of_mod_eq_zero hm)
  omega

theorem insertWrapRecord_eq (h : At cfg s C P) {size : Nat}
    (hsize : cfg.dataSize - P % cfg.dataSize < size) (hmax : size ≤ 40) :
    ∃ extra cycles, extra % 4 = 0 ∧ extra ≤ 28 ∧
      calcRecSize cycles extra = cfg.dataSize - P % cfg.dataSize ∧
      insertWrapRecord cfg size s
        = .ok (inserted cfg s P .wrap trcTraceWrapBuffer extra cycles none) := by
  obtain ⟨hpos, hmod⟩ := roomToEnd_mod cfg h.prod_mod
  generalize hw : cfg.dataSize - P % cfg.dataSize = w at *
  unfold insertWrapRecord
  rw [calcBytesToWrap_eq h, ok_bind, hw]
  simp only [show u32Sub w 4 = w - 4 by unfold u32Sub; omega]
  rw [bugOn_eq (by omega)]
  by_cases hcyc : traceExtraMax < (w - 4) / 4
  · rw [if_pos hcyc]
    unfold traceExtraMax at hcyc ⊢
    simp only [show u32Sub (w - 4) 8 = w - 12 by unfold u32Sub; omega]
    have hrec : calcRecSize true (w - 12) = w := by
      unfold calcRecSize
      simp only [if_true]
      omega
    refine ⟨w - 12, true, by omega, by omega, hrec, ?_⟩
    rw [assert_eq (by omega)]
    have := insertRecord_eq h .wrap trcTraceWrapBuffer (w - 12) (by omega) (by omega) true
      (by omega) none
    rwa [hrec] at this
  · rw [if_neg hcyc]
    unfold traceExtraMax at hcyc
    have hrec : calcRecSize false (w - 4) = w := by
      unfold calcRecSize
      simp only [Bool.false_eq_true, if_false]
      omega
    refine ⟨w - 4, false, by omega, by omega, hrec, ?_⟩
    have := insertRecord_eq h .wrap trcTraceWrapBuffer (w - 4) (by omega) (by omega) false
      (by omega) none
    rwa [hrec] at this

end Insert

end XenVmi.Tbuf
