import XenVmi.Tbuf.Stream

/-!
# Producer and consumer

`xentrace` takes records out with `monitor_tbufs` (`tools/xentrace/xentrace.c:696-768`), with no
lock. A step is the first half of `__trace_var` (`call`), one of the four stages of its second half
(`proceed`), a part of a pass of the consumer, or a change of the filter. `accepted`, `dropped` and
`target` are for the statements.
-/

namespace XenVmi.Tbuf

open XenVmi.Lib

/-- Where a call of `__trace_var` stands. -/
inductive Pc where
  | idle
  | wrapLost (c : Call) (started : Started)
  | lost (c : Call) (started : Started) (bytesToWrap : Nat)
  | wrapEvent (c : Call) (started : Started) (bytesToWrap : Nat)
  | event (c : Call) (started : Started)

/-- Where a pass of `monitor_tbufs` over the buffer stands. -/
inductive Reader where
  | idle
  | window (cons prod : Nat)
  | second (prod : Nat)
  | written (prod : Nat)
  deriving Repr, DecidableEq

structure Pipeline where
  tr : Tracer
  pc : Pc
  reader : Reader
  out : List Byte
  accepted : List Call
  dropped : Nat
  target : Nat

/-- Right after `alloc_trace_bufs`. -/
def Pipeline.fresh (page : Nat → Nat → Byte) (eventMask : BitVec 32) : Pipeline where
  tr := .fresh page eventMask
  pc := .idle
  reader := .idle
  out := []
  accepted := []
  dropped := 0
  target := 0

/-- The first half of `__trace_var`. -/
def Pipeline.call (cfg : TbufConfig) (w : Pipeline) (c : Call) : Except Fault Pipeline := do
  let r ← startTrace cfg c w.tr
  if w.tr.initDone = false ∨ w.tr.accepts c.event = false then return { w with tr := r.2 }
  else
    let w := { w with tr := r.2, accepted := w.accepted ++ [c] }
    match r.1 with
    | none => return { w with dropped := w.dropped + 1 }
    | some started =>
      return { w with
        pc := .wrapLost c started
        target := (w.tr.prod + started.totalSize) % (2 * cfg.dataSize) }

def Pipeline.proceed (cfg : TbufConfig) (w : Pipeline) : Except Fault Pipeline :=
  match w.pc with
  | .idle => return w
  | .wrapLost c started => do
    let r ← wrapForLost cfg w.tr
    return { w with tr := r.2, pc := .lost c started r.1 }
  | .lost c started bytesToWrap => do
    let r ← putLost cfg c bytesToWrap w.tr
    return { w with tr := r.2, pc := .wrapEvent c started r.1 }
  | .wrapEvent c started bytesToWrap => do
    let s ← wrapForEvent cfg c bytesToWrap w.tr
    return { w with tr := s, pc := .event c started }
  | .event c started => do
    let s ← putEvent cfg c started.below w.tr
    return { w with tr := s, pc := .idle }

/-! ## The consumer -/

def monitorAssert (c : Prop) [Decidable c] : Except Fault Unit :=
  if c then .ok () else .error .monitor

def windowSize (cfg : TbufConfig) (cons prod : Nat) : Nat :=
  if prod < cons then prod + 2 * cfg.dataSize - cons else prod - cons

def Pipeline.read (cfg : TbufConfig) (w : Pipeline) : Except Fault Pipeline := do
  let cons := w.tr.cons
  let prod := w.tr.prod
  if cons = prod then return w
  else
    monitorAssert (cons < 2 * cfg.dataSize)
    monitorAssert (prod < 2 * cfg.dataSize)
    monitorAssert (0 < windowSize cfg cons prod)
    monitorAssert (windowSize cfg cons prod ≤ cfg.dataSize)
    return { w with reader := .window cons prod }

/-- `write_buffer` of a piece of the window: in one go, or first up to the end of the data area and
then from its start. -/
def Pipeline.write (cfg : TbufConfig) (w : Pipeline) : Pipeline :=
  match w.reader with
  | .window cons prod =>
    let start := cons % cfg.dataSize
    if start < prod % cfg.dataSize then
      { w with
        out := w.out ++ readCells w.tr.dataByte start (windowSize cfg cons prod)
        reader := .written prod }
    else
      { w with
        out := w.out ++ readCells w.tr.dataByte start (cfg.dataSize - start)
        reader := .second prod }
  | .second prod =>
    { w with
      out := w.out ++ readCells w.tr.dataByte 0 (prod % cfg.dataSize)
      reader := .written prod }
  | _ => w

/-- The pass ends: `meta[i]->cons = prod`. -/
def Pipeline.store (w : Pipeline) : Pipeline :=
  match w.reader with
  | .written prod => { w with tr := { w.tr with cons := prod }, reader := .idle }
  | _ => w

/-! ## Steps -/

inductive Act where
  | call (c : Call)
  | proceed
  | read
  | write
  | store
  | setEvtMask (mask : BitVec 32)
  | setCpuMask (traced : Bool)

def step (cfg : TbufConfig) (w : Pipeline) : Act → Except Fault Pipeline
  | .call c =>
    match w.pc with
    | .idle => w.call cfg c
    | _ => return w
  | .proceed => w.proceed cfg
  | .read =>
    match w.reader with
    | .idle => w.read cfg
    | _ => return w
  | .write => return w.write cfg
  | .store => return w.store
  | .setEvtMask mask => return { w with tr := { w.tr with eventMask := mask } }
  | .setCpuMask traced => return { w with tr := { w.tr with cpuTraced := traced } }

def Pc.stagesLeft : Pc → Nat
  | .idle => 0
  | .event _ _ => 1
  | .wrapEvent _ _ _ => 2
  | .lost _ _ _ => 3
  | .wrapLost _ _ => 4

theorem Pc.eq_idle {pc : Pc} (h : pc.stagesLeft = 0) : pc = .idle := by
  cases pc with
  | idle => rfl
  | _ => cases h

theorem proceed_stage {cfg : TbufConfig} {w w' : Pipeline} (h : w.proceed cfg = .ok w') :
    w'.pc.stagesLeft = w.pc.stagesLeft - 1 ∧ w'.target = w.target := by
  unfold Pipeline.proceed at h
  cases hpc : w.pc with
  | idle =>
    simp only [hpc] at h
    cases h
    exact ⟨by rw [hpc]; rfl, rfl⟩
  | wrapLost | lost | wrapEvent | event =>
    simp only [hpc] at h
    obtain ⟨r, -, h⟩ := exists_ok_of_bind h
    cases h
    exact ⟨rfl, rfl⟩

theorem startTrace_filtered {cfg : TbufConfig} {c : Call} {s : Tracer} {r : Option Started × Tracer}
    (hf : s.initDone = false ∨ s.accepts c.event = false) (h : startTrace cfg c s = .ok r) :
    r.1 = none := by
  unfold startTrace at h
  by_cases hi : s.initDone = false
  · rw [if_pos hi] at h
    cases h
    rfl
  · rw [if_neg hi] at h
    obtain ⟨-, -, h⟩ := exists_ok_of_bind h
    rw [if_pos (hf.resolve_left hi)] at h
    cases h
    rfl

theorem traceVar_uninterrupted (cfg : TbufConfig) (w : Pipeline) (c : Call) (h : w.pc = .idle) :
    ([.call c, .proceed, .proceed, .proceed, .proceed].foldlM (step cfg) w).map (·.tr)
      = traceVar cfg c w.tr := by
  simp only [List.foldlM_cons, List.foldlM_nil, step, h, Pipeline.call, traceVar]
  cases hs : startTrace cfg c w.tr with
  | error f => rfl
  | ok r =>
    obtain ⟨started, s⟩ := r
    simp only [ok_bind]
    by_cases hf : w.tr.initDone = false ∨ w.tr.accepts c.event = false
    · obtain rfl : started = none := startTrace_filtered hf hs
      simp only [if_pos hf, pure_bind]
      rfl
    rw [if_neg hf]
    cases started with
    | none =>
      rfl
    | some started =>
      simp only [pure_bind, Pipeline.proceed]
      -- each side runs the same four stages
      cases wrapForLost cfg s with
      | error f => rfl
      | ok r =>
        simp only [ok_bind, pure_bind]
        cases putLost cfg c r.1 r.2 with
        | error f => rfl
        | ok r =>
          simp only [ok_bind, pure_bind]
          cases wrapForEvent cfg c r.1 r.2 with
          | error f => rfl
          | ok s =>
            simp only [ok_bind, pure_bind]
            cases putEvent cfg c started.below s with
            | error f => rfl
            | ok s => rfl

end XenVmi.Tbuf
