import XenVmi.Tbuf.Membuf
import Mathlib.Data.List.Infix

/-!
# Whole windows in the memory buffer

`Membuf.Holds`: from `cons` on the buffer holds windows, and no header of them is cut by the end of
the buffer. While a window comes in, `Membuf.Writing` says what is there of it.
-/

namespace XenVmi.Tbuf

open XenVmi.Lib List

/-! ## Windows in the buffer -/

theorem asLong_eq {x : Nat} (h : x < 2 ^ 63) : asLong x = x := by
  unfold asLong
  rw [BitVec.toInt_eq_toNat_of_lt, BitVec.toNat_ofNat, Nat.mod_eq_of_lt (by omega)]
  rw [BitVec.toNat_ofNat, Nat.mod_eq_of_lt (by omega)]
  omega

theorem asInt_eq {x : Nat} (h : x < 2 ^ 31) : asInt x = x := by
  unfold asInt
  rw [BitVec.toInt_eq_toNat_of_lt, BitVec.toNat_ofNat, Nat.mod_eq_of_lt (by omega)]
  rw [BitVec.toNat_ofNat, Nat.mod_eq_of_lt (by omega)]
  omega

section Windows

variable {N C : Nat} {buf buf' : Nat → Byte} {ws live : List Window} {w : Window}

@[simp] theorem CpuChange.length_bytes (r : CpuChange) : r.bytes.length = 12 := rfl

theorem Window.length_bytes (w : Window) : w.bytes.length = 12 + w.size := by
  rw [Window.bytes, length_append, CpuChange.length_bytes, Window.size]

theorem Window.change_length (h : w.size < 2 ^ 31) : w.change.length = w.bytes.length := by
  rw [Window.length_bytes, CpuChange.length, Window.change, BitVec.toNat_ofNat,
    Nat.mod_eq_of_lt (by omega)]

def total (ws : List Window) : Nat := (ws.flatMap Window.bytes).length

@[simp] theorem total_nil : total [] = 0 := rfl

@[simp] theorem total_cons : total (w :: ws) = w.bytes.length + total ws := by
  simp [total]

@[simp] theorem total_append : total (ws ++ live) = total ws + total live := by
  simp [total]

/-- No header of the windows from position `C` on reaches past the end of the buffer. -/
def HeadersFit (N : Nat) : Nat → List Window → Prop
  | _, [] => True
  | C, w :: ws => C % N + 12 ≤ N ∧ HeadersFit N (C + w.bytes.length) ws

structure WindowsAt (N : Nat) (buf : Nat → Byte) (C : Nat) (ws : List Window) : Prop where
  headers : HeadersFit N C ws
  holds : RingHolds N buf C (ws.flatMap Window.bytes)
  small : ∀ w ∈ ws, w.size < 2 ^ 31

theorem windowsAt_nil : WindowsAt N buf C [] := ⟨trivial, ringHolds_nil, nofun⟩

theorem windowsAt_cons : WindowsAt N buf C (w :: ws) ↔
    C % N + 12 ≤ N ∧ RingHolds N buf C w.bytes ∧ w.size < 2 ^ 31 ∧
      WindowsAt N buf (C + w.bytes.length) ws := by
  constructor
  · rintro ⟨⟨hfit, hrest⟩, hold, hsmall⟩
    rw [flatMap_cons, ringHolds_append] at hold
    exact ⟨hfit, hold.1, hsmall w mem_cons_self, hrest, hold.2,
      fun v hv => hsmall v (mem_cons_of_mem _ hv)⟩
  · rintro ⟨hfit, hw, hsmall, ⟨hrest, hold, hsmalls⟩⟩
    refine ⟨⟨hfit, hrest⟩, ?_, ?_⟩
    · rw [flatMap_cons, ringHolds_append]
      exact ⟨hw, hold⟩
    · intro v hv
      rcases mem_cons.1 hv with rfl | hv
      · exact hsmall
      · exact hsmalls v hv

theorem headersFit_append : HeadersFit N C (ws ++ live) ↔
    HeadersFit N C ws ∧ HeadersFit N (C + total ws) live := by
  induction ws generalizing C with
  | nil => exact ⟨fun h => ⟨trivial, h⟩, fun h => h.2⟩
  | cons w ws ih =>
    simp only [cons_append, HeadersFit, ih, total_cons, Nat.add_assoc, and_assoc]

theorem windowsAt_append : WindowsAt N buf C (ws ++ live) ↔
    WindowsAt N buf C ws ∧ WindowsAt N buf (C + total ws) live := by
  induction ws generalizing C with
  | nil => exact ⟨fun h => ⟨windowsAt_nil, h⟩, fun h => h.2⟩
  | cons w ws ih =>
    rw [cons_append, windowsAt_cons, windowsAt_cons, ih, total_cons, Nat.add_assoc]
    simp only [and_assoc]

theorem headersFit_congr {D : Nat} (h : C % N = D % N) (hw : HeadersFit N C ws) :
    HeadersFit N D ws := by
  induction ws generalizing C D with
  | nil => trivial
  | cons w ws ih =>
    refine ⟨h ▸ hw.1, ih ?_ hw.2⟩
    rw [Nat.add_mod, h, ← Nat.add_mod]

theorem WindowsAt.congr {D : Nat} (h : C % N = D % N) (hw : WindowsAt N buf C ws) :
    WindowsAt N buf D ws := by
  refine ⟨headersFit_congr h hw.headers, fun i b hi => ?_, hw.small⟩
  rw [← hw.holds i b hi, Nat.add_mod, ← h, ← Nat.add_mod]

theorem wordAt_of_holds {v : BitVec 32} (h : RingHolds N buf C (le32 v)) (hfit : C % N + 4 ≤ N) :
    wordAt buf (C % N) = v := by
  have hread := h.read hfit
  rw [length_le32] at hread
  simp only [readCells, le32, List.range, List.range.loop, map_cons, map_nil, Nat.add_zero,
    List.cons.injEq, and_true] at hread
  obtain ⟨h₀, h₁, h₂, h₃⟩ := hread
  rw [wordAt, h₀, h₁, h₂, h₃, ofLe32_le32]

theorem readRec_eq {cfg : MembufConfig} {mb : Membuf}
    (h : WindowsAt cfg.size mb.buf C (w :: ws)) : mb.readRec cfg C = .ok w.change := by
  obtain ⟨hfit, hold, -⟩ := windowsAt_cons.1 h
  rw [Window.bytes, CpuChange.bytes] at hold
  obtain ⟨⟨⟨h₀, h₁⟩, h₂⟩, -⟩ : ((_ ∧ _) ∧ _) ∧ _ := by
    simpa only [ringHolds_append, length_append, length_le32] using hold
  have c₁ : (C + 4) % cfg.size = C % cfg.size + 4 := cell_add (by omega)
  have c₂ : (C + (4 + 4)) % cfg.size = C % cfg.size + 8 := cell_add (by omega)
  have w₀ := wordAt_of_holds h₀ (by omega)
  have w₁ := wordAt_of_holds h₁ (by omega)
  have w₂ := wordAt_of_holds h₂ (by omega)
  rw [c₁] at w₁
  rw [c₂] at w₂
  rw [Membuf.readRec, if_pos hfit, Membuf.recAt, w₀, w₁, w₂]

end Windows

section Loops

variable {cfg : MembufConfig} {mb : Membuf} {live : List Window}

theorem afterFreeing_of_nonpos {need last : Int} (h : need ≤ 0) (l : List CpuChange) :
    afterFreeing need last l = (last, l) := by
  cases l with
  | nil => rfl
  | cons r l => rw [afterFreeing, if_neg (by omega)]

theorem le_afterFreeing (need : Int) {last : Int} (h : -2 ^ 31 ≤ last) (l : List CpuChange) :
    -2 ^ 31 ≤ (afterFreeing need last l).1 := by
  induction l generalizing need last with
  | nil => exact h
  | cons r l ih =>
    rw [afterFreeing]
    split
    · exact ih _ (by simpa using BitVec.le_toInt r.cpu)
    · exact h

theorem freeLoop_eq (fuel : Nat) (need last : Int)
    (hw : WindowsAt cfg.size mb.buf mb.cons live) (hne : live ≠ []) (hneed : need ≤ total live)
    (hlt : mb.cons + total live < 2 ^ 64) (hfuel : need < fuel) (hpos : 0 < fuel) :
    ∃ gone rest, live = gone ++ rest ∧ need ≤ total gone ∧
      afterFreeing need last (live.map Window.change) =
        ((afterFreeing need last (live.map Window.change)).1, rest.map Window.change) ∧
      freeLoop cfg fuel need last mb = .ok ((afterFreeing need last (live.map Window.change)).1,
        { mb with cons := mb.cons + total gone }) := by
  induction live generalizing fuel need last mb with
  | nil => exact absurd rfl hne
  | cons w ws ih =>
    obtain ⟨fuel, rfl⟩ := Nat.exists_eq_succ_of_ne_zero hpos.ne'
    obtain ⟨-, -, hsmall, hws⟩ := windowsAt_cons.1 hw
    have hlen := Window.change_length hsmall
    have hsize := w.length_bytes
    rw [total_cons] at hneed hlt
    have hcons : mb.consIncrement w.bytes.length =
        { mb with cons := mb.cons + w.bytes.length } := by
      rw [Membuf.consIncrement, u64, Nat.mod_eq_of_lt (by omega)]
    have hheader : w.change.header = cpuChangeHeader := rfl
    rw [freeLoop, readRec_eq hw, ok_bind, if_neg (not_not.2 hheader)]
    by_cases hp : 0 < need
    · simp only [if_pos hp, map_cons, afterFreeing, hlen, hcons]
      by_cases hp' : 0 < need - w.bytes.length
      · rw [if_pos hp']
        have hne' : ws ≠ [] := by
          rintro rfl
          rw [total_nil] at hneed
          omega
        obtain ⟨gone, rest, rfl, hgone, hafter, hrun⟩ :=
          @ih { mb with cons := mb.cons + w.bytes.length } fuel (need - w.bytes.length)
            w.change.cpu.toInt hws hne' (by omega) (by simpa [Nat.add_assoc] using hlt) (by omega)
            (by omega)
        refine ⟨w :: gone, rest, rfl, ?_, hafter, ?_⟩
        · rw [total_cons]
          omega
        · rw [hrun, total_cons, Nat.add_assoc]
      · rw [if_neg hp', afterFreeing_of_nonpos (by omega)]
        refine ⟨[w], ws, rfl, by rw [total_cons, total_nil]; omega, rfl, ?_⟩
        rw [total_cons, total_nil, Nat.add_zero]
        rfl
    · rw [if_neg hp, afterFreeing_of_nonpos (by omega)]
      exact ⟨[], w :: ws, rfl, by rw [total_nil]; omega, rfl, rfl⟩

theorem skipLoop_eq {fuel : Nat} {last : Int} (hw : WindowsAt cfg.size mb.buf mb.cons live)
    (hprod : mb.prod = mb.cons + total live) (hlt : mb.prod < 2 ^ 64)
    (hhead : mb.prod % cfg.size + 12 ≤ cfg.size)
    (hstop : SkipStops (mb.recAt cfg mb.prod).cpu.toInt last (live.map Window.change))
    (hfuel : 2 ^ 31 - last < fuel) (hpos : 0 < fuel) :
    ∃ gone rest, live = gone ++ rest ∧
      skipLoop cfg fuel last mb = .ok { mb with cons := mb.cons + total gone } := by
  induction live generalizing fuel last mb with
  | nil =>
    obtain ⟨fuel, rfl⟩ := Nat.exists_eq_succ_of_ne_zero hpos.ne'
    rw [total_nil, Nat.add_zero] at hprod
    refine ⟨[], [], rfl, ?_⟩
    have hread : mb.readRec cfg mb.cons = .ok (mb.recAt cfg mb.prod) := by
      rw [Membuf.readRec, ← hprod, if_pos hhead]
    rw [skipLoop, hread, ok_bind, if_neg (Int.not_lt.2 hstop)]
    rfl
  | cons w ws ih =>
    obtain ⟨fuel, rfl⟩ := Nat.exists_eq_succ_of_ne_zero hpos.ne'
    obtain ⟨-, -, hsmall, hws⟩ := windowsAt_cons.1 hw
    rw [total_cons] at hprod
    have hcons : mb.consIncrement w.change.length =
        { mb with cons := mb.cons + w.bytes.length } := by
      rw [Membuf.consIncrement, Window.change_length hsmall, u64, Nat.mod_eq_of_lt (by omega)]
    rw [skipLoop, readRec_eq hw, ok_bind]
    by_cases hup : last < w.change.cpu.toInt
    · have hcpu := BitVec.toInt_lt (x := w.change.cpu)
      rw [if_pos hup, hcons]
      obtain ⟨gone, rest, rfl, hrun⟩ :=
        @ih { mb with cons := mb.cons + w.bytes.length } fuel w.change.cpu.toInt hws
          (by rw [hprod, Nat.add_assoc]) hlt hhead (hstop hup) (by omega) (by omega)
      refine ⟨w :: gone, rest, rfl, ?_⟩
      rw [hrun, total_cons, Nat.add_assoc]
    · rw [if_neg hup]
      exact ⟨[], w :: ws, rfl, rfl⟩

theorem changesFrom_eq {C fuel : Nat} (hw : WindowsAt cfg.size mb.buf C live)
    (hprod : mb.prod = C + total live) (hfuel : total live ≤ fuel) :
    mb.changesFrom cfg fuel C = live.map Window.change := by
  induction live generalizing C fuel with
  | nil =>
    rw [total_nil, Nat.add_zero] at hprod
    cases fuel with
    | zero => rfl
    | succ fuel => rw [Membuf.changesFrom, if_pos (by omega), map_nil]
  | cons w ws ih =>
    have hread := readRec_eq hw
    obtain ⟨hfit, -, hsmall, hws⟩ := windowsAt_cons.1 hw
    have hsize := w.length_bytes
    rw [total_cons] at hprod hfuel
    obtain ⟨fuel, rfl⟩ := Nat.exists_eq_succ_of_ne_zero (show fuel ≠ 0 by omega)
    rw [Membuf.readRec, if_pos hfit] at hread
    rw [Membuf.changesFrom, if_neg (by omega), Except.ok.inj hread, Window.change_length hsmall,
      ih hws (by omega) (by omega), map_cons]

end Loops

/-! ## Between windows -/

/-- The buffer holds the windows `live`, and nothing is pending. -/
structure Membuf.Holds (cfg : MembufConfig) (mb : Membuf) (live : List Window) : Prop where
  windows : WindowsAt cfg.size mb.buf mb.cons live
  prod : mb.prod = mb.cons + total live
  fits : total live ≤ cfg.size
  idle : mb.pendingSize = 0
  bound : mb.prod ≤ 2 ^ 29 ∨ mb.prod < 2 * cfg.size

/-- The window `w` is being written behind `live`, and `done` is what has come of its data. -/
structure Membuf.Writing (cfg : MembufConfig) (mb : Membuf) (live : List Window) (w : Window)
    (done : List Byte) : Prop where
  headers : HeadersFit cfg.size mb.cons (live ++ [w])
  holds : RingHolds cfg.size mb.buf mb.cons (live.flatMap Window.bytes ++ (w.change.bytes ++ done))
  small : ∀ v ∈ live ++ [w], v.size < 2 ^ 31
  prod : mb.prod = mb.cons + total live
  fits : total (live ++ [w]) ≤ cfg.size
  pendingProd : mb.pendingProd = mb.prod + 12 + done.length
  pendingSize : mb.pendingSize + done.length = w.size
  bound : mb.prod ≤ 2 ^ 29 ∨ mb.prod < 2 * cfg.size

section Steps

variable {cfg : MembufConfig} {mb : Membuf} {live : List Window} {w : Window}

theorem Membuf.Holds.prod_lt (h : mb.Holds cfg live) : mb.prod < 2 ^ 60 := by
  have := cfg.size_le
  rcases h.bound with hb | hb <;> omega

theorem Membuf.free_eq (hle : mb.cons ≤ mb.prod) (hfit : mb.prod - mb.cons ≤ cfg.size) :
    mb.free cfg = cfg.size - (mb.prod - mb.cons) := by
  have := cfg.size_le
  unfold Membuf.free u64Sub
  rw [show mb.prod + 2 ^ 64 - mb.cons = mb.prod - mb.cons + 2 ^ 64 by omega, Nat.add_mod_right,
    Nat.mod_eq_of_lt (a := mb.prod - mb.cons) (by omega)]
  rw [show cfg.size + 2 ^ 64 - (mb.prod - mb.cons) =
    cfg.size - (mb.prod - mb.cons) + 2 ^ 64 by omega,
    Nat.add_mod_right, Nat.mod_eq_of_lt (by omega)]

theorem Membuf.Holds.changes_eq (h : mb.Holds cfg live) :
    mb.changes cfg = live.map Window.change := by
  have hprod := h.prod
  exact changesFrom_eq h.windows hprod (by omega)

theorem makeRoom_spec (h : mb.Holds cfg live) (hw : mb.Admits cfg w)
    (hfull : ¬ w.size + 12 < cfg.size - (mb.prod - mb.cons)) :
    ∃ gone rest, live = gone ++ rest ∧ total rest + 12 + w.size ≤ cfg.size ∧
      makeRoom cfg (w.size + 12 - (cfg.size - (mb.prod - mb.cons) : Nat)) mb =
        .ok { mb with cons := mb.cons + total gone } := by
  have hprod := h.prod
  have hfits := h.fits
  have hlt : mb.prod < 2 ^ 64 := h.prod_lt.trans (by decide)
  have hwin := h.windows
  have hw₀ := hw.fits
  obtain ⟨hne, hstop⟩ := hw.room.resolve_left hfull
  simp only [h.changes_eq, ne_eq, map_eq_nil_iff] at hne hstop
  generalize hneed : (w.size + 12 - (cfg.size - (mb.prod - mb.cons) : Nat) : Int) = need at hstop ⊢
  obtain ⟨freed, kept, rfl, hfreed, hafter, hfree⟩ :=
    freeLoop_eq (need.toNat + 1) need (-1) hwin hne (by omega) (by omega) (by omega) (by omega)
  rw [hafter] at hstop
  have hlast := le_afterFreeing need (show -2 ^ 31 ≤ (-1 : Int) by decide)
    ((freed ++ kept).map Window.change)
  generalize (afterFreeing need (-1) ((freed ++ kept).map Window.change)).1 = last at *
  rw [total_append] at hprod hfits
  obtain ⟨skipped, rest, rfl, hskip⟩ :=
    @skipLoop_eq cfg { mb with cons := mb.cons + total freed } kept (2 ^ 32 + 1) last
      (windowsAt_append.1 hwin).2 (by rw [hprod, Nat.add_assoc]) hlt hw.header hstop
      (by omega) (by omega)
  refine ⟨freed ++ skipped, rest, (append_assoc _ _ _).symm, ?_, ?_⟩
  · rw [total_append] at hprod hfits
    omega
  · rw [makeRoom, hfree, ok_bind, hskip, total_append, Nat.add_assoc]

theorem writeRec_spec (hwin : WindowsAt cfg.size mb.buf mb.cons live)
    (hprod : mb.prod = mb.cons + total live) (hfits : total live + 12 + w.size ≤ cfg.size)
    (hsmall : w.size < 2 ^ 31) (hhead : mb.prod % cfg.size + 12 ≤ cfg.size)
    (hbound : mb.prod ≤ 2 ^ 29 ∨ mb.prod < 2 * cfg.size) :
    ∃ mb', mb.writeRec cfg w.change mb.prod = .ok mb' ∧
      Membuf.Writing cfg { mb' with pendingProd := u64 (mb'.prod + 12), pendingSize := w.size }
        live w [] := by
  have hsize := cfg.size_le
  have hwr : RingWrite cfg.size mb.buf (writeCells mb.buf (mb.prod % cfg.size) w.change.bytes)
      mb.prod w.change.bytes := ringWrite_linear hhead
  refine ⟨_, if_pos hhead, ?_, ?_, ?_, hprod, ?_, ?_, rfl, hbound⟩
  · rw [headersFit_append]
    exact ⟨hwin.headers, by rwa [← hprod], trivial⟩
  · rw [append_nil]
    refine hwin.holds.write ?_ ?_
    · rw [hprod] at hwr ⊢
      exact hwr
    · exact Nat.le_trans (Nat.le_add_right _ _) hfits
  · intro v hv
    rcases mem_append.1 hv with hv | hv
    · exact hwin.small v hv
    · rw [mem_singleton.1 hv]
      exact hsmall
  · rw [total_append, total_cons, total_nil, Window.length_bytes]
    omega
  · show u64 (mb.prod + 12) = mb.prod + 12 + 0
    rw [u64, Nat.mod_eq_of_lt (by omega)]

theorem ensureRoom_spec (h : mb.Holds cfg live) (hw : mb.Admits cfg w) :
    ∃ rest, rest <:+ live ∧ total rest + 12 + w.size ≤ cfg.size ∧
      ensureRoom cfg w.size mb = .ok { mb with cons := mb.prod - total rest } := by
  have hprod := h.prod
  have hfits := h.fits
  have hw₀ := hw.fits
  have hsize := cfg.size_le
  have hfree : mb.free cfg = cfg.size - (mb.prod - mb.cons) := Membuf.free_eq (by omega) (by omega)
  unfold ensureRoom
  rw [u64, Nat.mod_eq_of_lt (by omega), hfree, asLong_eq (by omega), asLong_eq (by omega)]
  by_cases hfull : w.size + 12 < cfg.size - (mb.prod - mb.cons)
  · refine ⟨live, suffix_refl _, by omega, ?_⟩
    rw [if_pos (by exact_mod_cast hfull), hprod, Nat.add_sub_cancel, ← hprod]
  · obtain ⟨gone, rest, rfl, hr, hrun⟩ := makeRoom_spec h hw hfull
    refine ⟨rest, suffix_append _ _, hr, ?_⟩
    rw [total_append] at hprod
    rw [if_neg (by exact_mod_cast hfull), show mb.prod - total rest = mb.cons + total gone by omega]
    exact_mod_cast hrun

theorem reserveWindow_spec (h : mb.Holds cfg live) (hw : mb.Admits cfg w) :
    ∃ mb' rest, reserveWindow cfg w.cpu w.size mb = .ok mb' ∧ rest <:+ live ∧
      mb'.Writing cfg rest w [] := by
  have hprod := h.prod
  obtain ⟨rest, ⟨gone, rfl⟩, hr, hrun⟩ := ensureRoom_spec h hw
  rw [total_append] at hprod
  have hwin := (windowsAt_append.1 h.windows).2
  rw [show mb.cons + total gone = mb.prod - total rest by omega] at hwin
  obtain ⟨mb', hwr, hwriting⟩ := @writeRec_spec cfg { mb with cons := mb.prod - total rest } rest w
    hwin (by simp only; omega) hr hw.size_lt hw.header h.bound
  refine ⟨_, rest, ?_, suffix_append _ _, hwriting⟩
  rw [reserveWindow, if_neg (by rw [h.idle]; decide), if_neg (by omega), hrun, ok_bind]
  change (Membuf.writeRec cfg w.change mb.prod _ >>= _) = _
  rw [hwr]
  rfl

theorem copyIn_spec {bs : List Byte} {i : Nat} (hpos : 0 < cfg.size) (hfits : bs.length ≤ cfg.size)
    (hsmall : bs.length < 2 ^ 31) :
    ∃ buf', mb.copyIn cfg bs i = .ok { mb with buf := buf' } ∧
      RingWrite cfg.size mb.buf buf' i bs := by
  unfold Membuf.copyIn
  by_cases hend : cfg.size < i % cfg.size + bs.length
  · refine ⟨_, ?_, ringWrite_split hpos hend hfits⟩
    rw [if_pos hend, asInt_eq (by omega)]
    simp only [Int.toNat_natCast]
    rw [if_neg (by omega)]
  · exact ⟨_, if_neg hend, ringWrite_linear (by omega)⟩

/-- The window is in the buffer, and `MEMBUF_PROD_SET` once more changes nothing. -/
structure Membuf.Written (cfg : MembufConfig) (mb : Membuf) (live : List Window) : Prop where
  holds : ∃ rest, rest <:+ live ∧ mb.Holds cfg rest
  again : mb.prodSet cfg mb.pendingProd = .ok mb
  pendingProd : mb.pendingProd < 2 ^ 64

theorem resetProd_eq (cfg : MembufConfig) (cons : Nat) {d : Nat} (hpos : 0 < cfg.size)
    (hd : d ≤ cfg.size) :
    (if (cons + d) % cfg.size < cons % cfg.size then u64 ((cons + d) % cfg.size + cfg.size)
      else (cons + d) % cfg.size) = cons % cfg.size + if d = cfg.size then 0 else d := by
  have hsize := cfg.size_le
  have hc := Nat.mod_lt cons hpos
  rcases Nat.lt_or_eq_of_le hd with hlt | rfl
  · rw [add_mod_ite cons hlt, u64, if_neg hlt.ne]
    split <;> split <;> omega
  · rw [Nat.add_mod_right, if_neg (Nat.lt_irrefl _), if_pos rfl, Nat.add_zero]

theorem prodSet_spec (hpos : 0 < cfg.size) (hwin : WindowsAt cfg.size mb.buf mb.cons live)
    (hx : mb.pendingProd = mb.cons + total live) (hle : mb.prod ≤ mb.pendingProd)
    (hfits : total live ≤ cfg.size) (hlt : mb.pendingProd < 2 ^ 64) (hidle : mb.pendingSize = 0) :
    ∃ mb', mb.prodSet cfg mb.pendingProd = .ok mb' ∧ mb'.Written cfg live := by
  have hreset' := resetProd_eq cfg mb.cons hpos hfits
  by_cases hreset : 2 ^ 29 < mb.pendingProd
  · have hc := Nat.mod_lt mb.cons hpos
    have hcle := Nat.mod_le mb.cons cfg.size
    have hmod : mb.cons % cfg.size = mb.cons % cfg.size % cfg.size := (Nat.mod_mod _ _).symm
    have hset : ∀ m : Membuf, m.prod ≤ mb.pendingProd → m.cons % cfg.size = mb.cons % cfg.size →
        m.prodSet cfg mb.pendingProd = .ok { m with
          prod := mb.cons % cfg.size + if total live = cfg.size then 0 else total live
          cons := mb.cons % cfg.size } := by
      intro m hm hcons
      rw [Membuf.prodSet, if_neg (by omega), if_pos hreset]
      simp only [hcons, hx, hreset']
    refine ⟨_, hset mb hle rfl, ?_, ?_, hlt⟩
    · by_cases hfull : total live = cfg.size
      · rw [if_pos hfull]
        exact ⟨[], nil_suffix, windowsAt_nil, rfl, Nat.zero_le _, hidle, .inr (by simp only; omega)⟩
      · rw [if_neg hfull]
        exact ⟨live, suffix_refl _, hwin.congr hmod, rfl, hfits, hidle,
          .inr (by simp only; omega)⟩
    · refine hset _ ?_ hmod.symm
      simp only
      split <;> omega
  · have hset : ∀ m : Membuf, m.prod ≤ mb.pendingProd →
        m.prodSet cfg mb.pendingProd = .ok { m with prod := mb.pendingProd } := by
      intro m hm
      rw [Membuf.prodSet, if_neg (by omega), if_neg hreset]
    exact ⟨_, hset mb hle, ⟨live, suffix_refl _, hwin, hx, hfits, hidle,
      .inl (Nat.le_of_not_lt hreset)⟩, hset _ (Nat.le_refl _), hlt⟩

/-- What has come of the window's data when it is on its way, or all there. -/
def Membuf.Progress (cfg : MembufConfig) (mb : Membuf) (live : List Window) (w : Window)
    (done : List Byte) : Prop :=
  (mb.Writing cfg live w done ∧ done.length < w.size) ∨
    (mb.Written cfg (live ++ [w]) ∧ done.length = w.size)

theorem membufWrite_spec {done bs rest : List Byte} (h : mb.Writing cfg live w done)
    (hdata : w.data = done ++ bs ++ rest) :
    ∃ mb', membufWrite cfg mb bs = .ok mb' ∧ mb'.Progress cfg live w (done ++ bs) := by
  have hsize := cfg.size_le
  have hlen : w.size = done.length + bs.length + rest.length := by
    rw [Window.size, hdata, length_append, length_append]
  have hfits := h.fits
  rw [total_append, total_cons, total_nil, Window.length_bytes] at hfits
  have hprod := h.prod
  have hpp := h.pendingProd
  have hps := h.pendingSize
  have hsmall := h.small w (by simp)
  have hbound : mb.pendingProd + bs.length < 2 ^ 64 := by
    rcases h.bound with hb | hb <;> omega
  obtain ⟨buf', hcopy, hwr⟩ :=
    @copyIn_spec cfg mb bs mb.pendingProd (by omega) (by omega) (by omega)
  rw [membufWrite, Membuf.free_eq (by omega) (by omega), if_neg (by omega),
    if_neg (by omega), hcopy, ok_bind]
  have hpos : mb.cons + (live.flatMap Window.bytes ++ (w.change.bytes ++ done)).length =
      mb.pendingProd := by
    rw [length_append, length_append, CpuChange.length_bytes, hpp, hprod, total]
    omega
  have hholds := h.holds.write (hpos ▸ hwr) (by
    rw [length_append, length_append, CpuChange.length_bytes]
    change total live + _ + _ ≤ _
    omega)
  rw [append_assoc, append_assoc] at hholds
  simp only [u64, Nat.mod_eq_of_lt hbound]
  by_cases hend : mb.pendingSize - bs.length = 0
  · rw [if_pos hend]
    obtain rfl : rest = [] := eq_nil_of_length_eq_zero (by omega)
    rw [append_nil] at hdata
    have hwin : WindowsAt cfg.size buf' mb.cons (live ++ [w]) := by
      refine ⟨h.headers, ?_, h.small⟩
      rw [flatMap_append, flatMap_singleton, Window.bytes, hdata]
      exact hholds
    have htotal : mb.pendingProd + bs.length = mb.cons + total (live ++ [w]) := by
      rw [total_append, total_cons, total_nil, Window.length_bytes]
      omega
    obtain ⟨mb', hset, hwritten⟩ := @prodSet_spec cfg
      { mb with buf := buf', pendingProd := mb.pendingProd + bs.length
                pendingSize := mb.pendingSize - bs.length }
      (live ++ [w]) (by omega) hwin htotal (by simp only; omega) h.fits hbound hend
    refine ⟨mb', hset, .inr ⟨hwritten, ?_⟩⟩
    rw [Window.size, hdata]
  · rw [if_neg hend]
    refine ⟨_, rfl, .inl ⟨⟨h.headers, hholds, h.small, hprod, h.fits, ?_, ?_, h.bound⟩, ?_⟩⟩
    · rw [length_append]
      show mb.pendingProd + bs.length = mb.prod + 12 + _
      omega
    · rw [length_append]
      show mb.pendingSize - bs.length + _ = _
      omega
    · rw [length_append]
      omega

theorem membufWrite_nil (hpos : 0 < cfg.size) (h : mb.Written cfg live) :
    membufWrite cfg mb [] = .ok mb := by
  obtain ⟨rest, -, hrest⟩ := h.holds
  have hcopy : mb.copyIn cfg [] mb.pendingProd = .ok mb := by
    have hlt := Nat.mod_lt mb.pendingProd hpos
    unfold Membuf.copyIn
    rw [if_neg (by rw [length_nil]; omega), writeCells_nil]
  rw [membufWrite, length_nil, if_neg (Nat.not_lt_zero _), if_neg (Nat.not_lt_zero _), hcopy,
    ok_bind]
  simp only [Nat.add_zero, Nat.sub_zero, u64, Nat.mod_eq_of_lt h.pendingProd,
    if_pos hrest.idle]
  exact h.again

theorem pieces_spec (pieces : List (List Byte)) {done : List Byte} (hpos : 0 < cfg.size)
    (h : mb.Progress cfg live w done) (hdata : w.data = done ++ pieces.flatten) :
    ∃ mb', pieces.foldlM (membufWrite cfg) mb = .ok mb' ∧ mb'.Written cfg (live ++ [w]) := by
  have hlen : w.size = done.length + pieces.flatten.length := by
    rw [Window.size, hdata, length_append]
  induction pieces generalizing mb done with
  | nil =>
    rw [flatten_nil, length_nil] at hlen
    rcases h with ⟨-, hlt⟩ | ⟨hwritten, -⟩
    · omega
    · exact ⟨mb, rfl, hwritten⟩
  | cons bs pieces ih =>
    rw [flatten_cons, length_append] at hlen
    rw [flatten_cons, ← append_assoc] at hdata
    have hstep : ∃ mb', membufWrite cfg mb bs = .ok mb' ∧ mb'.Progress cfg live w (done ++ bs) := by
      rcases h with ⟨hwriting, -⟩ | ⟨hwritten, hall⟩
      · exact membufWrite_spec hwriting hdata
      · obtain rfl : bs = [] := eq_nil_of_length_eq_zero (by omega)
        exact ⟨mb, membufWrite_nil hpos hwritten, .inr ⟨hwritten, by rwa [append_nil]⟩⟩
    obtain ⟨mb', hmb', hprogress⟩ := hstep
    rw [foldlM_cons, hmb', ok_bind]
    exact ih hprogress hdata (by rw [length_append]; omega)

theorem writeWindow_spec (h : mb.Holds cfg live) (hw : mb.Admits cfg w) :
    ∃ mb' rest, writeWindow cfg mb w = .ok mb' ∧ rest <:+ live ++ [w] ∧ mb'.Holds cfg rest := by
  have hfits := hw.fits
  obtain ⟨mb₁, kept, hreserve, hkept, hwriting⟩ := reserveWindow_spec h hw
  -- the first piece is there, even if the window is empty
  obtain ⟨bs, pieces, hp⟩ := exists_cons_of_ne_nil w.pieces_ne
  have hdata : w.data = [] ++ bs ++ pieces.flatten := by
    rw [Window.data, hp, flatten_cons, nil_append]
  obtain ⟨mb₂, hfirst, hprogress⟩ := membufWrite_spec hwriting hdata
  obtain ⟨mb₃, hrest, hwritten⟩ := pieces_spec pieces (by omega) hprogress hdata
  obtain ⟨rest, hsuf, hholds⟩ := hwritten.holds
  refine ⟨mb₃, rest, ?_, hsuf.trans ?_, hholds⟩
  · rw [writeWindow, hreserve, ok_bind, hp, foldlM_cons, hfirst, ok_bind, hrest]
  · obtain ⟨gone, rfl⟩ := hkept
    exact ⟨gone, (append_assoc _ _ _).symm⟩

end Steps

/-! ## Runs -/

section Runs

variable {cfg : MembufConfig} {r : Recorded}

def Recorded.Inv (cfg : MembufConfig) (r : Recorded) : Prop :=
  ∃ live, live <:+ r.written ∧ r.mb.Holds cfg live

theorem Recorded.Inv.whole (h : r.Inv cfg) : Whole cfg r := by
  obtain ⟨live, hsuf, hlive⟩ := h
  have hprod := hlive.prod
  have hfits := hlive.fits
  refine ⟨by omega, by omega, live, hsuf, ?_, fun w hw => ?_⟩
  · rw [Membuf.contents, show r.mb.prod - r.mb.cons = total live by omega, total]
    apply ext_getElem?
    intro i
    by_cases hi : i < (live.flatMap Window.bytes).length
    · rw [List.getElem?_map, List.getElem?_range hi, List.getElem?_eq_getElem hi]
      exact congrArg some (hlive.windows.holds i _ (List.getElem?_eq_getElem hi))
    · rw [List.getElem?_eq_none (by simpa using hi), List.getElem?_eq_none (by simpa using hi)]
  · have hsmall := hlive.windows.small w hw
    change (BitVec.ofNat 32 w.size).toNat = w.size
    rw [BitVec.toNat_ofNat, Nat.mod_eq_of_lt (by omega)]

theorem Recorded.Inv.write (h : r.Inv cfg) {w : Window} (hw : r.mb.Admits cfg w) :
    ∃ r', r.write cfg w = .ok r' ∧ r'.Inv cfg := by
  obtain ⟨live, ⟨gone, hgone⟩, hlive⟩ := h
  obtain ⟨mb', rest, hrun, hrest, hholds⟩ := writeWindow_spec hlive hw
  refine ⟨{ mb := mb', written := r.written ++ [w] }, ?_, rest, hrest.trans ?_, hholds⟩
  · rw [Recorded.write, hrun]
    rfl
  · exact ⟨gone, by rw [← hgone, append_assoc]⟩

theorem alloc_inv (cfg : MembufConfig) (buf : Nat → Byte) :
    Recorded.Inv cfg { mb := .alloc buf, written := [] } :=
  ⟨[], nil_suffix, windowsAt_nil, rfl, Nat.zero_le _, rfl, .inl (Nat.zero_le _)⟩

theorem Recorded.Inv.of_reaches {buf : Nat → Byte} (run : Reaches (Recorded.write cfg)
    (fun r w => r.mb.Admits cfg w) { mb := .alloc buf, written := [] } r) : r.Inv cfg :=
  run.invariant_of_total (fun _ _ hw h => h.write hw) (alloc_inv cfg buf)

/-- **The memory buffer is a sequence of whole windows**, in every run in which each window is
admitted by the buffer it finds. -/
theorem windows_whole (cfg : MembufConfig) (buf : Nat → Byte) {r : Recorded}
    (run : Reaches (Recorded.write cfg) (fun r w => r.mb.Admits cfg w)
      { mb := .alloc buf, written := [] } r) :
    Whole cfg r ∧ ∀ w, r.mb.Admits cfg w → ∃ r', r.write cfg w = .ok r' ∧ Whole cfg r' := by
  have h := Recorded.Inv.of_reaches run
  refine ⟨h.whole, fun w hw => ?_⟩
  obtain ⟨r', hr', h'⟩ := h.write hw
  exact ⟨r', hr', h'.whole⟩

end Runs

def plainWindow (cpu : BitVec 32) (n : Nat) : Window where
  cpu := cpu
  pieces := [List.replicate n 0]
  pieces_ne := cons_ne_nil _ _

def smallMembuf : MembufConfig where
  size := 32
  size_le := by decide

def blank : Recorded := { mb := .alloc fun _ => 0, written := [] }

theorem windows_whole_two :
    ∃ r, Reaches (Recorded.write smallMembuf) (fun r w => r.mb.Admits smallMembuf w) blank r ∧
      r.mb.cons = 16 ∧ r.mb.prod = 32 ∧ Whole smallMembuf r := by
  obtain ⟨r₁, h₁, hadmits, r₂, h₂, hcons, hprod⟩ :
      ∃ r₁, blank.write smallMembuf (plainWindow 1 4) = .ok r₁ ∧
        r₁.mb.Admits smallMembuf (plainWindow 0 4) ∧
        ∃ r₂, r₁.write smallMembuf (plainWindow 0 4) = .ok r₂ ∧
          r₂.mb.cons = 16 ∧ r₂.mb.prod = 32 := by decide +kernel
  have run : Reaches (Recorded.write smallMembuf) (fun r w => r.mb.Admits smallMembuf w) blank r₂ :=
    .tail (.single ⟨plainWindow 1 4, by decide, h₁⟩) ⟨plainWindow 0 4, hadmits, h₂⟩
  exact ⟨r₂, run, hcons, hprod, (windows_whole smallMembuf _ run).1⟩

/-- The skipping goes on past `prod`, over what is left of the first window: `cons` ends up inside
the third one. -/
theorem skip_passes_prod :
    (∀ w ∈ [plainWindow 1 4, plainWindow 0 4, plainWindow 0 20], w.size + 12 ≤ smallMembuf.size) ∧
      ∃ r, [plainWindow 1 4, plainWindow 0 4, plainWindow 0 20].foldlM (Recorded.write smallMembuf)
        blank = .ok r ∧ r.mb.cons = 48 ∧ r.mb.prod = 64 ∧ ¬ Whole smallMembuf r := by
  obtain ⟨r, hr, hcons, hprod, hnone⟩ :
      ∃ r, [plainWindow 1 4, plainWindow 0 4, plainWindow 0 20].foldlM (Recorded.write smallMembuf)
        blank = .ok r ∧ r.mb.cons = 48 ∧ r.mb.prod = 64 ∧
          ∀ live ∈ r.written.tails, r.mb.contents smallMembuf ≠ live.flatMap Window.bytes := by
    decide +kernel
  refine ⟨by decide +kernel, r, hr, hcons, hprod, fun h => ?_⟩
  obtain ⟨live, hsuf, hbytes, -⟩ := h.windows
  exact hnone live ((mem_tails _ _).2 hsuf) hbytes

end XenVmi.Tbuf
