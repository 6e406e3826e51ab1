import Mathlib.Algebra.Order.Ring.Rat
import Mathlib.Data.List.Induction
import Mathlib.Tactic.NormNum
import Wallpiper.Foundations.RingBuffer

/-!
# Frame statistics

The times of the displayed and of the captured frames are kept in two ring
buffers of 4096 places, from which the statistics panel counts the frames of
the last second.  Times are exact numbers of seconds.
-/

namespace Wallpiper.Overlay

open Foundations

/-- `WP_FRAME_STATS_CAPACITY` is 4096. -/
abbrev FrameStatRing := RingBuffer ℚ 4096

def statsWindowSeconds : ℚ := 3

structure FrameStats where
  display : FrameStatRing
  capture : FrameStatRing

/-- `calloc` clears the memory. -/
def wpFrameStatsCreate : FrameStats where
  display := ⟨fun _ ↦ 0, 0, 0⟩
  capture := ⟨fun _ ↦ 0, 0, 0⟩

def ringRecord (ring : FrameStatRing) (now : ℚ) : FrameStatRing :=
  let ring := if ring.count = 4096 then ring.dropFirst else ring
  (ring.push now).dropWhile fun time ↦ decide (statsWindowSeconds < now - time)

def ringFpsInLastSecond (ring : FrameStatRing) (now : ℚ) : ℕ :=
  (List.range ring.count).countP fun i ↦ decide (now - ring.get i ≤ 1)

def wpFrameStatsRecordDisplay (stats : FrameStats) (now : ℚ) : FrameStats :=
  { stats with display := ringRecord stats.display now }

def wpFrameStatsRecordCapture (stats : FrameStats) (now : ℚ) : FrameStats :=
  { stats with capture := ringRecord stats.capture now }

/-- The numbers that the panel shows.  The frames of the sparkline and its last
and greatest are in milliseconds. -/
structure StatsPanel where
  displayFps : ℕ
  captureFps : ℕ
  lastMs : ℚ
  peakMs : ℚ
  sparkline : List ℚ
  deriving DecidableEq, Repr

def deltasMs (ring : FrameStatRing) : List ℚ :=
  (List.range (ring.count - 1)).map fun i ↦ (ring.get (i + 1) - ring.get i) * 1000

/-- The clock is read once for each of the two rings. -/
def wpRenderStatsPanel (stats : FrameStats) (now now' : ℚ) : StatsPanel :=
  let deltas := deltasMs stats.display
  { displayFps := ringFpsInLastSecond stats.display now
    captureFps := ringFpsInLastSecond stats.capture now'
    lastMs := deltas.getLastD 0
    peakMs := deltas.foldl (fun peak delta ↦ if peak < delta then delta else peak) 0
    sparkline := deltas.drop (deltas.length - min deltas.length 40) }

/-- A frame is displayed or captured. -/
inductive StatsOp where
  | display (now : ℚ)
  | capture (now : ℚ)

def StatsOp.time : StatsOp → ℚ
  | .display now | .capture now => now

def FrameStats.step (stats : FrameStats) : StatsOp → FrameStats
  | .display now => wpFrameStatsRecordDisplay stats now
  | .capture now => wpFrameStatsRecordCapture stats now

def FrameStats.run (ops : List StatsOp) : FrameStats := ops.foldl FrameStats.step wpFrameStatsCreate

/-- The times at which frames were displayed. -/
def displayTimes (ops : List StatsOp) : List ℚ :=
  ops.filterMap fun
    | .display now => some now
    | .capture _ => none

def captureTimes (ops : List StatsOp) : List ℚ :=
  ops.filterMap fun
    | .display _ => none
    | .capture now => some now

/-! ## What a ring holds -/

/-- The ring holds the window of the times recorded so far. -/
structure Holds (ring : FrameStatRing) (times : List ℚ) : Prop where
  wellFormed : ring.WellFormed
  content : IsLongestSuffix (Recent 4096 statsWindowSeconds times) ring.content times

theorem holds_empty (cells : Fin 4096 → ℚ) : Holds ⟨cells, 0, 0⟩ [] where
  wellFormed := ⟨Nat.zero_lt_succ _, Nat.zero_le _⟩
  content := ⟨List.suffix_rfl, ⟨Nat.zero_le _, fun _ hnewest ↦ absurd hnewest (by simp)⟩,
    fun _ hu _ ↦ hu⟩

theorem content_ringRecord {ring : FrameStatRing} (h : ring.count ≤ 4096) (now : ℚ) :
    (ringRecord ring now).content =
      dropOld statsWindowSeconds now (makeRoom 4096 ring.content ++ [now]) := by
  rw [ringRecord, RingBuffer.content_dropWhile, dropOld, makeRoom, RingBuffer.length_content]
  split
  · rename_i hfull
    have hroom : ring.dropFirst.count < 4096 := by
      rw [RingBuffer.count_dropFirst]
      omega
    rw [RingBuffer.content_push hroom, RingBuffer.content_dropFirst]
  · rw [RingBuffer.content_push (by omega)]

theorem wellFormed_ringRecord {ring : FrameStatRing} (h : ring.WellFormed) (now : ℚ) :
    (ringRecord ring now).WellFormed := by
  have hcount := h.count
  rw [ringRecord]
  refine RingBuffer.WellFormed.dropWhile ?_ _
  split
  · rename_i hfull
    refine h.dropFirst.push ?_ now
    rw [RingBuffer.count_dropFirst]
    omega
  · exact h.push (by omega) now

theorem Holds.record {ring : FrameStatRing} {times : List ℚ} (h : Holds ring times) {now : ℚ}
    (hsorted : (times ++ [now]).Pairwise (· ≤ ·)) :
    Holds (ringRecord ring now) (times ++ [now]) where
  wellFormed := wellFormed_ringRecord h.wellFormed now
  content := by
    rw [content_ringRecord h.wellFormed.count]
    exact h.content.record (by decide) hsorted

theorem ringFps_eq_countP {ring : FrameStatRing} {now : ℚ} (hle : ∀ x ∈ ring.content, x ≤ now) :
    ringFpsInLastSecond ring now = ring.content.countP fun x ↦ Within 1 now x := by
  rw [ringFpsInLastSecond, RingBuffer.content, List.countP_map]
  refine List.countP_congr fun i hi ↦ ?_
  have hx := hle (ring.get i) (List.mem_map_of_mem hi)
  rw [Function.comp_apply, decide_eq_true_iff, decide_eq_true_iff, within_iff hx]

theorem Holds.fps {ring : FrameStatRing} {times : List ℚ} (h : Holds ring times)
    (hsorted : times.Pairwise (· ≤ ·)) {now : ℚ} (hle : ∀ x ∈ times, x ≤ now) :
    ringFpsInLastSecond ring now = min 4096 (times.countP fun x ↦ Within 1 now x) := by
  rw [ringFps_eq_countP fun x hx ↦ hle x (h.content.suffix.subset hx)]
  exact h.content.countP_within (by decide) hsorted hle

/-! ## Runs -/

theorem displayTimes_concat (ops : List StatsOp) (op : StatsOp) :
    displayTimes (ops ++ [op]) = displayTimes ops ++ displayTimes [op] :=
  List.filterMap_append

theorem captureTimes_concat (ops : List StatsOp) (op : StatsOp) :
    captureTimes (ops ++ [op]) = captureTimes ops ++ captureTimes [op] :=
  List.filterMap_append

theorem displayTimes_sublist (ops : List StatsOp) :
    (displayTimes ops).Sublist (ops.map StatsOp.time) := by
  induction ops with
  | nil => exact List.Sublist.refl _
  | cons op ops ih =>
      cases op with
      | display now => exact ih.cons_cons now
      | capture now => exact ih.cons now

theorem captureTimes_sublist (ops : List StatsOp) :
    (captureTimes ops).Sublist (ops.map StatsOp.time) := by
  induction ops with
  | nil => exact List.Sublist.refl _
  | cons op ops ih =>
      cases op with
      | display now => exact ih.cons now
      | capture now => exact ih.cons_cons now

theorem FrameStats.run_concat (ops : List StatsOp) (op : StatsOp) :
    FrameStats.run (ops ++ [op]) = (FrameStats.run ops).step op := by
  rw [FrameStats.run, List.foldl_append, FrameStats.run]
  rfl

theorem FrameStats.run_holds {ops : List StatsOp}
    (hsorted : (ops.map StatsOp.time).Pairwise (· ≤ ·)) :
    Holds (FrameStats.run ops).display (displayTimes ops) ∧
      Holds (FrameStats.run ops).capture (captureTimes ops) := by
  induction ops using List.reverseRecOn with
  | nil => exact ⟨holds_empty _, holds_empty _⟩
  | append_singleton ops op ih =>
      have hdisplay := hsorted.sublist (displayTimes_sublist (ops ++ [op]))
      have hcapture := hsorted.sublist (captureTimes_sublist (ops ++ [op]))
      rw [List.map_append] at hsorted
      obtain ⟨hold_display, hold_capture⟩ := ih (List.pairwise_append.mp hsorted).1
      rw [displayTimes_concat] at hdisplay ⊢
      rw [captureTimes_concat] at hcapture ⊢
      rw [FrameStats.run_concat]
      cases op with
      | display now =>
          refine ⟨hold_display.record hdisplay, ?_⟩
          rw [show captureTimes [.display now] = [] from rfl, List.append_nil]
          exact hold_capture
      | capture now =>
          refine ⟨?_, hold_capture.record hcapture⟩
          rw [show displayTimes [.capture now] = [] from rfl, List.append_nil]
          exact hold_display

/-- After every run of records at times that do not decrease, each ring holds the
longest suffix of its times that fits and is within three seconds of the newest,
and the panel counts the frames of the last second up to the capacity. -/
theorem frameStats_refine_times (ops : List StatsOp)
    (hsorted : (ops.map StatsOp.time).Pairwise (· ≤ ·)) :
    ((FrameStats.run ops).display.head < 4096 ∧ (FrameStats.run ops).display.count ≤ 4096 ∧
        IsLongestSuffix (Recent 4096 3 (displayTimes ops)) (FrameStats.run ops).display.content
          (displayTimes ops)) ∧
      ((FrameStats.run ops).capture.head < 4096 ∧ (FrameStats.run ops).capture.count ≤ 4096 ∧
        IsLongestSuffix (Recent 4096 3 (captureTimes ops)) (FrameStats.run ops).capture.content
          (captureTimes ops)) ∧
      ∀ now now', (∀ op ∈ ops, op.time ≤ now) → now ≤ now' →
        (wpRenderStatsPanel (FrameStats.run ops) now now').displayFps =
            min 4096 ((displayTimes ops).countP fun x ↦ Within 1 now x) ∧
          (wpRenderStatsPanel (FrameStats.run ops) now now').captureFps =
            min 4096 ((captureTimes ops).countP fun x ↦ Within 1 now' x) := by
  obtain ⟨hdisplay, hcapture⟩ := FrameStats.run_holds hsorted
  refine ⟨⟨hdisplay.wellFormed.head, hdisplay.wellFormed.count, hdisplay.content⟩,
    ⟨hcapture.wellFormed.head, hcapture.wellFormed.count, hcapture.content⟩,
    fun now now' hnow hlater ↦ ?_⟩
  have hle : ∀ x ∈ ops.map StatsOp.time, x ≤ now := by
    intro x hx
    obtain ⟨op, hop, rfl⟩ := List.mem_map.mp hx
    exact hnow op hop
  exact ⟨hdisplay.fps (hsorted.sublist (displayTimes_sublist ops))
      fun x hx ↦ hle x ((displayTimes_sublist ops).subset hx),
    hcapture.fps (hsorted.sublist (captureTimes_sublist ops))
      fun x hx ↦ (hle x ((captureTimes_sublist ops).subset hx)).trans hlater⟩

theorem frameStats_refine_times_threeFrames :
    (wpRenderStatsPanel (FrameStats.run [.display 1, .capture 2, .display (7 / 2)])
        4 4).displayFps =
        min 4096 ([1, 7 / 2].countP fun x ↦ Within (1 : ℚ) 4 x) := by
  have hsorted : ([StatsOp.display 1, .capture 2, .display (7 / 2)].map StatsOp.time).Pairwise
      (· ≤ ·) := by
    norm_num [StatsOp.time]
  refine ((frameStats_refine_times _ hsorted).2.2 4 4 ?_ le_rfl).1
  simp only [List.mem_cons, List.not_mem_nil, or_false, forall_eq_or_imp, forall_eq, StatsOp.time]
  norm_num

end Wallpiper.Overlay
