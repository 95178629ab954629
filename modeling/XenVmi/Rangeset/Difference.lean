import XenVmi.Rangeset.Union

/-!
# Removing from a rangeset

If `s` and `e` belong to the same range, or to none, `rangeset_remove_range` is set difference.
Otherwise it shortens the range in front of `[s, e]` to end at `s - 1` without asking where it
ended; and at the top of the `unsigned long` range `e + 1` is `0`.
-/

namespace XenVmi.Rangeset

open XenVmi.Lib List

variable {r : Rangeset} {mem : Bool} {s e : Nat}

def Removes (r : Rangeset) (s e : Nat) (res : Int × Rangeset) : Prop :=
  res = (enomem, r) ∨ (res.1 = 0 ∧ Wf res.2 ∧ res.2.elements = r.elements \ Set.Icc s e)

/-- `s` and `e` belong to the same range; or `e` is not the highest value, and the range that `s`
belongs to ends at `s - 1` or later. -/
def CutsSafely (r : Rangeset) (s e : Nat) : Prop :=
  r.findRange s = r.findRange e ∨
    (e + 1 < ulongMod ∧ ∀ x, r.findRange s = some x → s ≤ (r.range x).e + 1)

theorem denote_replace {p d m q : List Range} (h : Canonical ulongMod (p ++ (d ++ q)))
    (hm : Canonical ulongMod m) (hspan : ∀ z ∈ m, (∀ y ∈ p, y.e + 1 < z.s) ∧ ∀ y ∈ q, z.e + 1 < y.s)
    (hp : ∀ y ∈ p, y.e < s) (hq : ∀ y ∈ q, e < y.s)
    (hd : ∀ n, n ∈ denote m ↔ n ∈ denote d ∧ ¬ (s ≤ n ∧ n ≤ e)) :
    Canonical ulongMod (p ++ (m ++ q)) ∧
      denote (p ++ (m ++ q)) = denote (p ++ (d ++ q)) \ Set.Icc s e := by
  obtain ⟨hcp, hcd, hpd⟩ := canonical_append.1 h
  obtain ⟨-, hcq, -⟩ := canonical_append.1 hcd
  refine ⟨canonical_append.2 ⟨hcp, canonical_append.2 ⟨hm, hcq, fun z hz => (hspan z hz).2⟩,
    fun y hy z hz => ?_⟩, ?_⟩
  · rcases mem_append.1 hz with hz | hz
    · exact (hspan z hz).1 y hy
    · exact hpd y hy z (mem_append_right _ hz)
  · ext n
    simp only [mem_denote_append, hd, Set.mem_sdiff, Set.mem_Icc]
    have h₁ : n ∈ denote p → n < s := lt_of_mem_denote hp
    have h₂ : n ∈ denote q → e < n := gt_of_mem_denote hq
    constructor
    · rintro (hn | hn | hn)
      · have := h₁ hn
        exact ⟨.inl hn, by omega⟩
      · exact ⟨.inr (.inl hn.1), hn.2⟩
      · have := h₂ hn
        exact ⟨.inr (.inr hn), by omega⟩
    · rintro ⟨hn | hn | hn, hout⟩
      · exact .inl hn
      · exact .inr (.inl ⟨hn, hout⟩)
      · exact .inr (.inr hn)

/-! ## Within one range -/

theorem ulongPred_eq (hpos : 0 < s) (hs : s < ulongMod) : ulongPred s = s - 1 := by
  unfold ulongPred
  rw [show s + ulongMod - 1 = s - 1 + ulongMod by omega, Nat.add_mod_right,
    Nat.mod_eq_of_lt (by omega)]

theorem ulong_succ (he : e + 1 < ulongMod) : ulong (e + 1) = e + 1 := Nat.mod_eq_of_lt he

theorem canonical_singleton {x : Range} (hx : x.s ≤ x.e) (hlt : x.e < ulongMod) :
    Canonical ulongMod [x] :=
  canonical_cons.2 ⟨⟨hx, hlt⟩, nofun, canonical_nil⟩

variable {p d q : List Range} {a y : Range} {nr nr' : Int}

theorem removeWithin_spec (h : Wf ⟨p ++ a :: q, nr⟩) (hse : s ≤ e) (he : e < ulongMod)
    (hp : ∀ y ∈ p, y.e + 1 < a.s) (ha : a.s ≤ s) (hq : ∀ y ∈ q, e < y.s ∧ a.e + 1 < y.s) :
    Removes ⟨p ++ a :: q, nr⟩ s e (removeWithin ⟨p ++ a :: q, nr⟩ mem p.length s e) := by
  have hva : a.s ≤ a.e ∧ a.e < ulongMod := h.valid a (by simp)
  have hps : ∀ y ∈ p, y.e < s := fun y hy => by have := hp y hy; omega
  -- what remains of `a`
  have hrest : ∀ (m : List Range) (nr' : Int), Canonical ulongMod m →
      (∀ z ∈ m, a.s ≤ z.s ∧ z.e ≤ a.e) →
      (∀ n, n ∈ denote m ↔ (a.s ≤ n ∧ n ≤ a.e) ∧ ¬ (s ≤ n ∧ n ≤ e)) →
      Removes ⟨p ++ a :: q, nr⟩ s e (0, ⟨p ++ (m ++ q), nr'⟩) := by
    intro m nr' hm hspan hd
    have hrep := denote_replace (d := [a]) h hm
      (fun z hz => ⟨fun y hy => by have := hp y hy; have := hspan z hz; omega,
        fun y hy => by have := hq y hy; have := hspan z hz; omega⟩)
      hps (fun y hy => (hq y hy).1) (fun n => by rw [hd]; simp)
    exact .inr ⟨rfl, hrep.1, hrep.2⟩
  simp only [removeWithin, range_place]
  split_ifs with h₁ h₂ h₃ h₄ h₅
  · refine hrest [a] nr (canonical_singleton hva.1 hva.2) (by simp) fun n => ?_
    simp only [mem_denote_cons, not_mem_denote_nil, or_false]
    omega
  · rcases allocRange_cases ⟨p ++ a :: q, nr⟩ mem with ⟨halloc, -⟩ | halloc
    · rw [halloc]
      exact .inl rfl
    · simp only [halloc, setEnd_place, insertRange_place, ulongPred_eq (show 0 < s by omega)
        (show s < ulongMod by omega), ulong_succ (show e + 1 < ulongMod by omega)]
      refine hrest [⟨a.s, s - 1⟩, ⟨e + 1, a.e⟩] (nr - 1) ?_ ?_ fun n => ?_
      · refine canonical_cons.2 ⟨⟨by simp only; omega, by simp only; omega⟩, ?_,
          canonical_singleton (by simp only; omega) hva.2⟩
        intro y hy
        rw [mem_singleton.1 hy]
        simp only
        omega
      · simp only [mem_cons, not_mem_nil, or_false, forall_eq_or_imp, forall_eq]
        omega
      · simp only [mem_denote_cons, not_mem_denote_nil, or_false]
        omega
  · rw [destroyRange_place]
    refine hrest [] (nr + 1) canonical_nil (fun z hz => absurd hz not_mem_nil) fun n => ?_
    simp only [not_mem_denote_nil, false_iff]
    omega
  · rw [setStart_place, ulong_succ (by omega)]
    refine hrest [⟨e + 1, a.e⟩] nr (canonical_singleton (by simp only; omega) hva.2) ?_ fun n => ?_
    · simp only [mem_singleton, forall_eq]
      omega
    · simp only [mem_denote_cons, not_mem_denote_nil, or_false]
      omega
  · rw [setEnd_place, ulongPred_eq (by omega) (by omega)]
    refine hrest [⟨a.s, s - 1⟩] nr
      (canonical_singleton (by simp only; omega) (by simp only; omega)) ?_ fun n => ?_
    · simp only [mem_singleton, forall_eq]
      omega
    · simp only [mem_denote_cons, not_mem_denote_nil, or_false]
      omega
  · omega

/-! ## Across ranges -/

theorem destroyUpTo_eq :
    destroyUpTo p.length d.length ⟨p ++ (d ++ q), nr⟩ = ⟨p ++ q, nr + d.length⟩ := by
  induction d generalizing nr with
  | nil => simp [destroyUpTo]
  | cons y d ih =>
    rw [cons_append, length_cons, destroyUpTo, destroyRange_place, ih]
    congr 1
    omega

/-- What `x->s = e + 1` leaves of the last range that is reached. -/
def remainder (e : Nat) (y : Range) : List Range :=
  if y.e < ulong (e + 1) then [] else [{ y with s := ulong (e + 1) }]

theorem cutLast_eq :
    ∃ nr', (if ((setStart ⟨p ++ y :: q, nr⟩ p.length (ulong (e + 1))).range p.length).e <
          ((setStart ⟨p ++ y :: q, nr⟩ p.length (ulong (e + 1))).range p.length).s
        then (setStart ⟨p ++ y :: q, nr⟩ p.length (ulong (e + 1))).destroyRange p.length
        else setStart ⟨p ++ y :: q, nr⟩ p.length (ulong (e + 1))) =
      ⟨p ++ (remainder e y ++ q), nr'⟩ := by
  simp only [setStart_place, range_place, destroyRange_place, remainder]
  split
  · exact ⟨nr + 1, rfl⟩
  · exact ⟨nr, rfl⟩

theorem removeAcross_whole {x : Option Nat}
    (hx : x.getD 0 = p.length) (hd : ∀ z ∈ d ++ [y], s ≤ z.s) :
    ∃ nr', removeAcross ⟨p ++ (d ++ y :: q), nr⟩ x (p ++ d).length s e =
      ⟨p ++ (remainder e y ++ q), nr'⟩ := by
  have hfirst : ¬ (range ⟨p ++ (d ++ y :: q), nr⟩ p.length).s < s := by
    cases d with
    | nil => simpa using hd y (by simp)
    | cons z d => simpa using hd z (by simp)
  have hcount : (p ++ d).length - p.length = d.length := by
    rw [length_append, Nat.add_sub_cancel_left]
  simp only [removeAcross, hx, if_neg hfirst, hcount, destroyUpTo_eq]
  exact cutLast_eq

theorem removeAcross_cut (ha : a.s < s) :
    ∃ nr', removeAcross ⟨p ++ a :: (d ++ y :: q), nr⟩ (some p.length) (p ++ a :: d).length s e =
      ⟨p ++ ({ a with e := ulongPred s } :: remainder e y ++ q), nr'⟩ := by
  have hcount : (p ++ a :: d).length - (p.length + 1) = d.length := by
    rw [length_append, length_cons]
    omega
  have hplace : p.length + 1 = (p ++ [({ a with e := ulongPred s } : Range)]).length := by simp
  simp only [removeAcross, Option.getD_some, range_place, if_pos ha, setEnd_place, hcount]
  rw [← singleton_append, ← append_assoc, hplace, destroyUpTo_eq]
  obtain ⟨nr', h⟩ := @cutLast_eq e (p ++ [({ a with e := ulongPred s } : Range)]) q y
    (nr + d.length)
  exact ⟨nr', by rw [h]; simp⟩

theorem remainder_spec (he : e + 1 < ulongMod) (hy : y.s ≤ e) (hlt : y.e < ulongMod) :
    Canonical ulongMod (remainder e y) ∧
      (∀ z ∈ remainder e y, e + 1 ≤ z.s ∧ z.e = y.e) ∧
      ∀ n, n ∈ denote (remainder e y) ↔ (y.s ≤ n ∧ n ≤ y.e) ∧ e < n := by
  unfold remainder
  rw [ulong_succ he]
  split
  · refine ⟨canonical_nil, nofun, fun n => ?_⟩
    simp only [not_mem_denote_nil, false_iff]
    omega
  · refine ⟨canonical_singleton (by simp only; omega) hlt, by simp, fun n => ?_⟩
    simp only [mem_denote_cons, not_mem_denote_nil, or_false]
    omega

theorem remainder_top (he : e + 1 = ulongMod) : remainder e y = [{ y with s := 0 }] := by
  have hzero : ulong (e + 1) = 0 := by rw [he, ulong, Nat.mod_self]
  rw [remainder, hzero, if_neg (Nat.not_lt_zero _)]

theorem not_removes {res : Int × Rangeset} {n : Nat} (hrc : res.1 = 0) (hn : n ∈ res.2.elements)
    (hbad : n ∉ r.elements ∨ n ∈ Set.Icc s e) : ¬ Removes r s e res := by
  rintro (rfl | ⟨-, -, hel⟩)
  · cases hrc
  · rw [hel] at hn
    rcases hbad with hbad | hbad
    · exact hbad hn.1
    · exact hn.2 hbad

theorem mem_denote_block (h : Canonical ulongMod (d ++ [y]))
    (hd : ∀ z ∈ d ++ [y], s ≤ z.s ∧ z.s ≤ e) (n : Nat) :
    (n ∈ denote (d ++ [y]) ∧ ¬ (s ≤ n ∧ n ≤ e)) ↔ (y.s ≤ n ∧ n ≤ y.e) ∧ e < n := by
  obtain ⟨-, -, hdy⟩ := canonical_append.1 h
  have hy := hd y (by simp)
  constructor
  · rintro ⟨⟨z, hz, hzn, hnz⟩, hout⟩
    have hzs := hd z hz
    rcases mem_append.1 hz with hz | hz
    · have := hdy z hz y (by simp)
      omega
    · obtain rfl := mem_singleton.1 hz
      omega
  · rintro ⟨hn, hlt⟩
    exact ⟨⟨y, by simp, hn⟩, by omega⟩

theorem removes_whole_iff (h : Wf ⟨p ++ (d ++ y :: q), nr⟩) (he : e < ulongMod)
    (hp : ∀ z ∈ p, z.e + 1 < s) (hd : ∀ z ∈ d ++ [y], s ≤ z.s ∧ z.s ≤ e) (hq : ∀ z ∈ q, e < z.s) :
    Removes ⟨p ++ (d ++ y :: q), nr⟩ s e (0, ⟨p ++ (remainder e y ++ q), nr'⟩) ↔
      e + 1 < ulongMod := by
  have hy := hd y (by simp)
  have hblock : d ++ y :: q = d ++ [y] ++ q := by simp
  rw [hblock] at h ⊢
  obtain ⟨-, hcd, -⟩ := canonical_append.1 h
  obtain ⟨hcd, -, hdq⟩ := canonical_append.1 hcd
  have hvy := hcd.valid y (by simp)
  constructor
  · intro hrem
    by_contra htop
    refine not_removes rfl ?_ (.inr hy) hrem
    rw [remainder_top (by omega)]
    exact ⟨{ y with s := 0 }, by simp, Nat.zero_le _, hvy.1⟩
  · intro htop
    obtain ⟨hcm, hspan, hmem⟩ := remainder_spec htop hy.2 hvy.2
    have hrep := denote_replace (s := s) h hcm (fun z hz => ?_)
      (fun z hz => by have := hp z hz; omega) hq
      (fun n => by rw [hmem, mem_denote_block hcd hd])
    · exact .inr ⟨rfl, hrep.1, hrep.2⟩
    · obtain ⟨hzs, hze⟩ := hspan z hz
      refine ⟨fun a ha => ?_, fun b hb => ?_⟩
      · have := hp a ha
        omega
      · have := hdq y (by simp) b hb
        omega

theorem removes_cut_iff (h : Wf ⟨p ++ a :: (d ++ y :: q), nr⟩) (he : e < ulongMod) (ha : a.s < s)
    (hd : ∀ z ∈ d ++ [y], s < z.s ∧ z.s ≤ e) (hq : ∀ z ∈ q, e < z.s) :
    Removes ⟨p ++ a :: (d ++ y :: q), nr⟩ s e
        (0, ⟨p ++ ({ a with e := ulongPred s } :: remainder e y ++ q), nr'⟩) ↔
      e + 1 < ulongMod ∧ s ≤ a.e + 1 := by
  have hy := hd y (by simp)
  have hblock : a :: (d ++ y :: q) = a :: (d ++ [y]) ++ q := by simp
  rw [ulongPred_eq (by omega) (by omega)]
  rw [hblock] at h ⊢
  obtain ⟨hcp, hcd, hpd⟩ := canonical_append.1 h
  obtain ⟨hcd, -, hdq⟩ := canonical_append.1 hcd
  obtain ⟨hva, had, hcd⟩ := canonical_cons.1 hcd
  have hvy := hcd.valid y (by simp)
  have hay := had y (by simp)
  constructor
  · intro hrem
    constructor
    · by_contra htop
      refine not_removes rfl ?_ (.inr ⟨hy.1.le, hy.2⟩) hrem
      rw [remainder_top (by omega)]
      exact ⟨{ y with s := 0 }, by simp, Nat.zero_le _, hvy.1⟩
    · by_contra hgap
      -- `s - 1` lies in the gap behind `a`, and is an element now
      refine not_removes (n := s - 1) rfl ⟨{ a with e := s - 1 }, by simp, ?_, Nat.le_refl _⟩
        (.inl ?_) hrem
      · simp only
        omega
      · rintro ⟨z, hz, hzn, hnz⟩
        rcases mem_append.1 hz with hz | hz
        · have := hpd z hz a (by simp)
          omega
        rcases mem_append.1 hz with hz | hz
        · rcases mem_cons.1 hz with rfl | hz
          · omega
          · have := hd z hz
            omega
        · have := hq z hz
          omega
  · rintro ⟨htop, hs⟩
    obtain ⟨hcm, hspan, hmem⟩ := remainder_spec htop hy.2 hvy.2
    have hrep := denote_replace (s := s) (m := { a with e := s - 1 } :: remainder e y) h
      (canonical_cons.2 ⟨⟨by simp only; omega, by simp only; omega⟩, fun z hz => ?_, hcm⟩)
      (fun z hz => ?_) (fun z hz => by have := hpd z hz a (by simp); omega) hq (fun n => ?_)
    · exact .inr ⟨rfl, hrep.1, hrep.2⟩
    · have := hspan z hz
      simp only
      omega
    · rcases mem_cons.1 hz with rfl | hz
      · refine ⟨fun b hb => hpd b hb a (by simp), fun b hb => ?_⟩
        have := hq b hb
        simp only
        omega
      · obtain ⟨hzs, hze⟩ := hspan z hz
        refine ⟨fun b hb => ?_, fun b hb => ?_⟩
        · have := hpd b hb a (by simp)
          omega
        · have := hdq y (by simp) b hb
          omega
    · have hn := mem_denote_block hcd (fun z hz => ⟨(hd z hz).1.le, (hd z hz).2⟩) n
      rw [mem_denote_cons, mem_denote_cons, hmem, ← hn]
      simp only
      constructor
      · rintro (hn | hn)
        · exact ⟨.inl (by omega), by omega⟩
        · exact ⟨.inr hn.1, hn.2⟩
      · rintro ⟨hn | hn, hno⟩
        · refine .inl ?_
          omega
        · exact .inr ⟨hn, hno⟩

/-- **`rangeset_remove_range` is set difference** on canonical lists, or fails without a change,
just when `CutsSafely` holds. -/
theorem removeRange_difference_iff (r : Rangeset) (mem : Bool) (s e : Nat) (h : Wf r) (hse : s ≤ e)
    (he : e < ulongMod) : Removes r s e (r.removeRange mem s e) ↔ CutsSafely r s e := by
  have hloc := located h hse
  unfold removeRange CutsSafely
  generalize hfs : r.findRange s = x, hfe : r.findRange e = y at hloc
  cases hloc with
  | outside q nr hq =>
    simp only [if_pos, true_or, iff_true]
    refine .inr ⟨rfl, h, Set.ext fun n => ⟨fun hn => ⟨hn, fun hin => ?_⟩, fun hn => hn.1⟩⟩
    have := gt_of_mem_denote hq hn
    exact absurd hin.2 (by omega)
  | first d y q nr hd hq =>
    obtain ⟨nr', hacross⟩ := @removeAcross_whole s e [] d q y nr none rfl fun z hz => (hd z hz).1.le
    rw [nil_append, nil_append] at hacross
    simp only [reduceCtorEq, if_false, Option.getD_some, hacross, false_or, false_implies,
      implies_true, and_true]
    exact removes_whole_iff (p := []) h he (by simp) (fun z hz => ⟨(hd z hz).1.le, (hd z hz).2⟩) hq
  | within p a q nr hp ha hq =>
    simp only [if_pos, true_or, iff_true]
    have hqa := (canonical_cons.1 (canonical_append.1 h).2.1).2.1
    exact removeWithin_spec h hse he hp ha fun z hz => ⟨hq z hz, hqa z hz⟩
  | across p a d y q nr hp ha hd hq =>
    have hne : some p.length ≠ some (p ++ a :: d).length := by simp
    simp only [Option.getD_some, hne, if_false, false_or, Option.some.injEq, forall_eq',
      range_place]
    rcases Nat.lt_or_eq_of_le ha with hlt | rfl
    · obtain ⟨nr', hacross⟩ := @removeAcross_cut s e p d q a y nr hlt
      rw [hacross]
      exact removes_cut_iff h he hlt hd hq
    -- `a` starts at `s`, and goes with the others
    have hall : ∀ z ∈ a :: d ++ [y], a.s ≤ z.s ∧ z.s ≤ e := fun z hz => by
      rcases mem_cons.1 hz with rfl | hz
      · exact ⟨Nat.le_refl _, hse⟩
      · exact ⟨(hd z hz).1.le, (hd z hz).2⟩
    have hva : a.s ≤ a.e ∧ a.e < ulongMod := h.valid a (by simp)
    have hle : a.s ≤ a.e + 1 := hva.1.trans (Nat.le_succ _)
    obtain ⟨nr', hacross⟩ := @removeAcross_whole a.s e p (a :: d) q y nr (some p.length) rfl
      fun z hz => (hall z hz).1
    rw [← cons_append, hacross,
      @removes_whole_iff a.s e p (a :: d) q y nr nr' h he hp hall hq]
    simp only [hle, and_true]

/-- `[25, 40]` starts within one range and ends in another. -/
theorem removeRange_difference_iff_two_ranges :
    Wf ⟨[⟨20, 30⟩, ⟨35, 50⟩], -3⟩ ∧
      removeRange ⟨[⟨20, 30⟩, ⟨35, 50⟩], -3⟩ true 25 40 = (0, ⟨[⟨20, 24⟩, ⟨41, 50⟩], -3⟩) ∧
      Removes ⟨[⟨20, 30⟩, ⟨35, 50⟩], -3⟩ 25 40 (0, ⟨[⟨20, 24⟩, ⟨41, 50⟩], -3⟩) := by
  have hwf : Wf ⟨[⟨20, 30⟩, ⟨35, 50⟩], -3⟩ := by
    constructor
    · decide
    · decide
  have hrun : removeRange ⟨[⟨20, 30⟩, ⟨35, 50⟩], -3⟩ true 25 40 =
      (0, ⟨[⟨20, 24⟩, ⟨41, 50⟩], -3⟩) := by decide
  have hsafe : CutsSafely ⟨[⟨20, 30⟩, ⟨35, 50⟩], -3⟩ 25 40 := by
    refine .inr ⟨by decide, fun x hx => ?_⟩
    obtain rfl : 0 = x := Option.some.inj hx
    decide
  have h := (removeRange_difference_iff _ true 25 40 hwf (by decide) (by decide)).2 hsafe
  exact ⟨hwf, hrun, h⟩

/-- Removing `[10, 25]` from `[0, 5]` and `[20, 30]` adds the elements from `6` to `9`. -/
theorem removeRange_adds_elements :
    Wf ⟨[⟨0, 5⟩, ⟨20, 30⟩], -3⟩ ∧
      removeRange ⟨[⟨0, 5⟩, ⟨20, 30⟩], -3⟩ true 10 25 = (0, ⟨[⟨0, 9⟩, ⟨26, 30⟩], -3⟩) ∧
      7 ∉ elements ⟨[⟨0, 5⟩, ⟨20, 30⟩], -3⟩ ∧ 7 ∈ elements ⟨[⟨0, 9⟩, ⟨26, 30⟩], -3⟩ ∧
      ¬ Removes ⟨[⟨0, 5⟩, ⟨20, 30⟩], -3⟩ 10 25 (0, ⟨[⟨0, 9⟩, ⟨26, 30⟩], -3⟩) := by
  have hold : 7 ∉ elements ⟨[⟨0, 5⟩, ⟨20, 30⟩], -3⟩ := by simp [elements]
  have hnew : 7 ∈ elements ⟨[⟨0, 9⟩, ⟨26, 30⟩], -3⟩ := by simp [elements]
  refine ⟨?_, by decide, hold, hnew, not_removes rfl hnew (.inl hold)⟩
  constructor
  · decide
  · decide

end XenVmi.Rangeset
