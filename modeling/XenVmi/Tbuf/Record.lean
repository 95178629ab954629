import Mathlib.Data.List.Basic
import Mathlib.Logic.Basic

/-!
# Trace records

`struct t_rec` (`xen/public/trace.h:280-296`) as bytes: the header word has the event in its low 28
bits, then the number of extra words, then the flag for the time stamp.
-/

namespace XenVmi.Tbuf

open List

abbrev Byte := BitVec 8

/-! ## Words -/

def le32 (w : BitVec 32) : List Byte :=
  [w.extractLsb' 0 8, w.extractLsb' 8 8, w.extractLsb' 16 8, w.extractLsb' 24 8]

def le64 (w : BitVec 64) : List Byte := le32 (w.extractLsb' 0 32) ++ le32 (w.extractLsb' 32 32)

def ofLe32 (b₀ b₁ b₂ b₃ : Byte) : BitVec 32 := b₃ ++ b₂ ++ b₁ ++ b₀

@[simp] theorem length_le32 (w : BitVec 32) : (le32 w).length = 4 := rfl

@[simp] theorem length_le64 (w : BitVec 64) : (le64 w).length = 8 := rfl

theorem ofLe32_le32 (w : BitVec 32) :
    ofLe32 (w.extractLsb' 0 8) (w.extractLsb' 8 8) (w.extractLsb' 16 8) (w.extractLsb' 24 8) =
      w := by
  have h₁ : w.extractLsb' 24 8 ++ w.extractLsb' 16 8 = w.extractLsb' 16 16 :=
    BitVec.extractLsb'_append_extractLsb'_eq_extractLsb' rfl
  have h₂ : w.extractLsb' 16 16 ++ w.extractLsb' 8 8 = w.extractLsb' 8 24 :=
    BitVec.extractLsb'_append_extractLsb'_eq_extractLsb' rfl
  have h₃ : w.extractLsb' 8 24 ++ w.extractLsb' 0 8 = w.extractLsb' 0 32 :=
    BitVec.extractLsb'_append_extractLsb'_eq_extractLsb' rfl
  rw [ofLe32, h₁, h₂, h₃, BitVec.extractLsb'_eq_self]

/-! ## The header -/

/-- The header word: `event:28`, `extra_u32:3`, `cycles_included:1`. -/
def header (event : BitVec 32) (extraWord : Nat) (cycles : Bool) : BitVec 32 :=
  BitVec.ofBool cycles ++ BitVec.ofNat 3 extraWord ++ event.setWidth 28

def trcHdToEvent (h : BitVec 32) : BitVec 28 := h.extractLsb' 0 28

def trcHdExtra (h : BitVec 32) : Nat := (h.extractLsb' 28 3).toNat

def trcHdIncludesCycleCount (h : BitVec 32) : Bool := h.getLsbD 31

section Header

variable {event : BitVec 32} {extraWord : Nat} {cycles : Bool}

@[simp] theorem trcHdToEvent_header :
    trcHdToEvent (header event extraWord cycles) = event.setWidth 28 :=
  BitVec.extractLsb'_append_eq_right

@[simp] theorem trcHdExtra_header (h : extraWord ≤ 7) :
    trcHdExtra (header event extraWord cycles) = extraWord := by
  unfold trcHdExtra header
  rw [BitVec.extractLsb'_append_eq_of_le (Nat.le_refl 28), Nat.sub_self,
    BitVec.extractLsb'_append_eq_right, BitVec.toNat_ofNat]
  exact Nat.mod_eq_of_lt (by omega)

@[simp] theorem trcHdIncludesCycleCount_header :
    trcHdIncludesCycleCount (header event extraWord cycles) = cycles := by
  unfold trcHdIncludesCycleCount header
  rw [BitVec.getLsbD_append, if_neg (by decide), BitVec.getLsbD_append, if_neg (by decide)]
  cases cycles <;> rfl

end Header

/-! ## Records -/

structure TRec where
  event : BitVec 28
  tsc : Option (BitVec 64)
  extra : List Byte
  deriving Repr, DecidableEq

/-- The time stamp of a record: `cycles_lo`, `cycles_hi`. -/
def tscBytes : Option (BitVec 64) → List Byte
  | none => []
  | some tsc => le64 tsc

def recBytes (event : BitVec 32) (tsc : Option (BitVec 64)) (extra : List Byte) : List Byte :=
  le32 (header event (extra.length / 4) tsc.isSome) ++ tscBytes tsc ++ extra

def decodeExtra (h : BitVec 32) (tsc : Option (BitVec 64)) (bs : List Byte) :
    Option (TRec × List Byte) :=
  let n := 4 * trcHdExtra h
  if bs.length < n then none
  else some ({ event := trcHdToEvent h, tsc := tsc, extra := bs.take n }, bs.drop n)

def decodeRec : List Byte → Option (TRec × List Byte)
  | b₀ :: b₁ :: b₂ :: b₃ :: bs =>
    let h := ofLe32 b₀ b₁ b₂ b₃
    if trcHdIncludesCycleCount h then
      match bs with
      | c₀ :: c₁ :: c₂ :: c₃ :: c₄ :: c₅ :: c₆ :: c₇ :: bs =>
        decodeExtra h (some (ofLe32 c₄ c₅ c₆ c₇ ++ ofLe32 c₀ c₁ c₂ c₃)) bs
      | _ => none
    else decodeExtra h none bs
  | _ => none

def decodeFuel : (fuel : Nat) → List Byte → Option (List TRec)
  | _, [] => some []
  | 0, _ :: _ => none
  | fuel + 1, b :: bs =>
    match decodeRec (b :: bs) with
    | none => none
    | some (r, rest) => (decodeFuel fuel rest).map (r :: ·)

def decode (bs : List Byte) : Option (List TRec) := decodeFuel bs.length bs

section Decode

variable {event : BitVec 32} {tsc : Option (BitVec 64)} {extra : List Byte}

theorem length_recBytes :
    (recBytes event tsc extra).length = 4 + (if tsc.isSome then 8 else 0) + extra.length := by
  cases tsc with
  | none => simp [recBytes, tscBytes]
  | some tsc =>
    simp only [recBytes, tscBytes, length_append, length_le32, length_le64, Option.isSome_some,
      if_true]

theorem recBytes_ne_nil : recBytes event tsc extra ≠ [] := by
  simp [recBytes, le32]

theorem decodeExtra_append (hdvd : extra.length % 4 = 0) (hle : extra.length ≤ 28)
    (cycles : Bool) (rest : List Byte) :
    decodeExtra (header event (extra.length / 4) cycles) tsc (extra ++ rest) =
      some ({ event := event.setWidth 28, tsc := tsc, extra := extra }, rest) := by
  have hn : 4 * (extra.length / 4) = extra.length := by omega
  unfold decodeExtra
  rw [trcHdExtra_header (by omega), hn, trcHdToEvent_header]
  simp

theorem decodeRec_recBytes (hdvd : extra.length % 4 = 0) (hle : extra.length ≤ 28)
    (rest : List Byte) :
    decodeRec (recBytes event tsc extra ++ rest) =
      some ({ event := event.setWidth 28, tsc := tsc, extra := extra }, rest) := by
  cases tsc with
  | none =>
    simp only [recBytes, tscBytes, le32, append_nil, cons_append, nil_append,
      decodeRec, ofLe32_le32, trcHdIncludesCycleCount_header, Option.isSome_none,
      Bool.false_eq_true, if_false]
    exact decodeExtra_append hdvd hle false rest
  | some tsc =>
    have htsc : tsc.extractLsb' 32 32 ++ tsc.extractLsb' 0 32 = tsc := by
      have h : tsc.extractLsb' 32 32 ++ tsc.extractLsb' 0 32 = tsc.extractLsb' 0 64 :=
        BitVec.extractLsb'_append_extractLsb'_eq_extractLsb' rfl
      rw [h, BitVec.extractLsb'_eq_self]
    simp only [recBytes, tscBytes, le64, le32, cons_append, nil_append, decodeRec,
      ofLe32_le32, trcHdIncludesCycleCount_header, Option.isSome_some, if_true, htsc]
    exact decodeExtra_append hdvd hle true rest

def IsRec (r : TRec) (bs : List Byte) : Prop :=
  bs ≠ [] ∧ ∀ rest, decodeRec (bs ++ rest) = some (r, rest)

variable {rs : List TRec} {chunks : List (List Byte)}

theorem decodeFuel_flatten
    (h : List.Forall₂ IsRec rs chunks) {fuel : Nat} (hf : chunks.flatten.length ≤ fuel) :
    decodeFuel fuel chunks.flatten = some rs := by
  induction h generalizing fuel with
  | nil => cases fuel <;> rfl
  | @cons r c rs chunks hr _ ih =>
    obtain ⟨hne, hdec⟩ := hr
    have hpos : 0 < c.length := length_pos_iff.2 hne
    rw [flatten_cons, length_append] at hf
    obtain ⟨fuel, rfl⟩ : ∃ n, fuel = n + 1 := ⟨fuel - 1, by omega⟩
    rw [flatten_cons]
    cases hc : c ++ chunks.flatten with
    | nil =>
      rw [append_eq_nil_iff] at hc
      exact absurd hc.1 hne
    | cons b bs =>
      rw [decodeFuel, ← hc, hdec]
      have hrest : decodeFuel fuel chunks.flatten = some rs := ih (by omega)
      simp only [hrest, Option.map_some]

theorem decode_flatten (h : List.Forall₂ IsRec rs chunks) : decode chunks.flatten = some rs :=
  decodeFuel_flatten h (Nat.le_refl _)

end Decode

end XenVmi.Tbuf
