import XenVmi.Tbuf.Buffer

/-!
# The event filter

`trace_will_trace_event` (`common/trace.c:309-337`) and the masks that `parse_evtmask` builds
(`tools/xentrace/xentrace.c:929-947`). A class mask has a low byte of 0, and the filter compares low
bytes.
-/

namespace XenVmi.Tbuf

/-- "Copied from `__trace_var()`". -/
def traceWillTraceEvent (s : Tracer) (event : BitVec 32) : Bool :=
  if s.initDone = false then false
  else if s.eventMask &&& event = 0 then false
  else if (s.eventMask >>> 16) &&& (event >>> 16) = 0 then false
  else if ((s.eventMask >>> 12) &&& 0xf) &&& ((event >>> 12) &&& 0xf) = 0 then false
  else if s.eventMask &&& 0xff ≠ event &&& 0xff then false
  else s.cpuTraced

/-- `TRC_GEN`, `TRC_SCHED`, `TRC_DOM0OP`, `TRC_HVM` and `TRC_ALL`, by the names of the options. -/
def classMask : String → Option (BitVec 32)
  | "gen" => some 0x0001f000
  | "sched" => some 0x0002f000
  | "dom0op" => some 0x0004f000
  | "hvm" => some 0x0008f000
  | "all" => some 0x0ffff000
  | _ => none

/-- `parse_evtmask`; `argtol` reads a number. -/
def parseEvtmask (argtol : String → BitVec 32) (evtMask : BitVec 32) (arg : String) : BitVec 32 :=
  match classMask arg with
  | some m => evtMask ||| m
  | none => argtol arg

theorem classMask_low {arg : String} {m : BitVec 32} (h : classMask arg = some m) :
    m &&& 0xff = 0 := by
  unfold classMask at h
  split at h <;> cases h <;> rfl

theorem parseEvtmask_low (argtol : String → BitVec 32) {args : List String} {m : BitVec 32}
    (hargs : ∀ a ∈ args, (classMask a).isSome) (hm : m &&& 0xff = 0) :
    args.foldl (parseEvtmask argtol) m &&& 0xff = 0 := by
  induction args generalizing m with
  | nil => exact hm
  | cons a args ih =>
    refine ih (fun b hb => hargs b (List.mem_cons_of_mem a hb)) ?_
    obtain ⟨k, hk⟩ := Option.isSome_iff_exists.1 (hargs a List.mem_cons_self)
    rw [parseEvtmask, hk]
    show (m ||| k) &&& 0xff = 0
    rw [BitVec.and_or_distrib_right, hm, classMask_low hk]
    rfl

/-- **What a union of classes selects**: of the events whose class and subclass intersect the mask,
those with a low byte of 0. The verdict of `trace_will_trace_event` is that of `__trace_var`. -/
theorem class_mask_selects_iff (argtol : String → BitVec 32) (args : List String)
    (hargs : ∀ a ∈ args, (classMask a).isSome) (s : Tracer) (hcpu : s.cpuTraced = true)
    (hmask : s.eventMask = args.foldl (parseEvtmask argtol) 0) (event : BitVec 32)
    (hclass : (s.eventMask >>> 16) &&& (event >>> 16) ≠ 0)
    (hsub : ((s.eventMask >>> 12) &&& 0xf) &&& ((event >>> 12) &&& 0xf) ≠ 0) :
    (s.accepts event = true ↔ event &&& 0xff = 0) ∧
      ∀ (s : Tracer) (event : BitVec 32),
        traceWillTraceEvent s event = (s.initDone && s.accepts event) := by
  refine ⟨?_, fun s event => ?_⟩
  · have hlow : s.eventMask &&& 0xff = 0 := hmask ▸ parseEvtmask_low argtol hargs rfl
    have hany : s.eventMask &&& event ≠ 0 := fun h => hclass (by
      rw [← BitVec.ushiftRight_and_distrib, h]
      rfl)
    unfold Tracer.accepts
    rw [if_neg hany, if_neg hclass, if_neg hsub, hlow, hcpu]
    by_cases h : event &&& 0xff = 0
    · rw [if_neg (not_not.2 h.symm)]
      exact iff_of_true rfl h
    · rw [if_pos (Ne.symm h)]
      exact iff_of_false Bool.noConfusion h
  · unfold traceWillTraceEvent Tracer.accepts
    cases s.initDone <;> rfl

def schedTracer : Tracer := .fresh (fun _ _ => 0) 0x0002f000

/-- `TRC_SCHED_MIN` itself passes the mask of `-e sched`. -/
theorem class_mask_selects_iff_sched : schedTracer.accepts 0x00021000 = true :=
  (class_mask_selects_iff (fun _ => 0) ["sched"] (by decide) schedTracer rfl rfl 0x00021000
    (by decide) (by decide)).1.2 (by decide)

/-- `TRC_SCHED_RUNSTATE_CHANGE` is of class `sched`, and the mask of `-e sched` filters it out. -/
theorem runstate_change_filtered_out :
    ["sched"].foldl (parseEvtmask fun _ => 0) 0 = schedTracer.eventMask ∧
      schedTracer.cpuTraced = true ∧
      (schedTracer.eventMask >>> 16) &&& (0x00021001#32 >>> 16) ≠ 0 ∧
      ((schedTracer.eventMask >>> 12) &&& 0xf) &&& ((0x00021001#32 >>> 12) &&& 0xf) ≠ 0 ∧
      schedTracer.accepts 0x00021001 = false := by
  decide

end XenVmi.Tbuf
