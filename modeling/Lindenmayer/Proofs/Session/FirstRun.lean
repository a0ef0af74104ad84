import Lindenmayer.Proofs.Session.Modes
import Lindenmayer.Proofs.Session.Sight
import Lindenmayer.Session.Window

/-!
# The first run of a session

What a new session comes to when it is asked for one run and nothing is done while it waits. It fails
if the mode is unknown. Otherwise the configuration, if it can be drawn at all, is on the picture in
full and on record with its counts. If it was grown, it has been laid down batch by batch, with one
wait between any two of them.
-/
namespace Lindenmayer

/-- The seconds that a growth with a delay in doubles waits. -/
theorem Growth.gap?_real {σ : Type} {g : Growth σ} {x : Float} (h : g.delay = .real x) :
    g.gap? = some (if 0 < x then x + frameInterval else frameInterval) := by
  rw [gap?, h]
  by_cases hx : 0 < x
  · rw [if_pos hx]
    exact if_pos (decide_eq_true hx)
  · rw [if_neg hx]
    exact if_neg (by rw [Numeric.positive, decide_eq_false hx]; exact Bool.false_ne_true)

namespace Session

variable {s : Session}

/-- The session shows these segments in full, has them on record with their counts, and reports no
error. -/
structure Shows (segments : List Segment) (stats : Stats) (s : Session) : Prop where
  failure : s.failure = none
  status : s.status.isError = false
  lastSegments : s.lastSegments = some segments.toArray
  stats : s.stats = some stats
  shown : s.stage.picture.segments = segments

/-- The segments were laid down in batches, with one wait between any two of them. -/
structure LaidDown (n : Nat) (seconds : Float) (segments : List Segment) (s : Session) : Prop where
  strokes : Batched n segments s.stage.picture.strokes.toList
  log : s.stage.log.toList = .clear :: Event.row 0 seconds s.stage.picture.strokes.toList

theorem Rendered.shows {segments : List Segment} {stats : Stats}
    (h : Rendered segments.toArray stats s) : Shows segments stats s where
  failure := h.failure
  status := by rw [h.status]
  lastSegments := h.lastSegments
  stats := h.stats
  shown := h.shown

theorem GrownAs.shows {n : Nat} {segments : List Segment} {stats : Stats} {r : Session}
    (h : GrownAs n segments.toArray s r) (hr : Rendered segments.toArray stats r) :
    Shows segments stats s := by
  have hshown := h.shown
  obtain ⟨_, _, _, _, -, -, -, -, -, -, rfl⟩ := h
  exact ⟨hr.failure, rfl, hr.lastSegments, hr.stats, hshown⟩

section Drawing

variable {segments : List Segment} {stats : Stats} {n : Nat} {x : Float}
  (hdraw : s.config.draw s.limit = .ok (segments, stats)) (hbatch : s.batch.int? = some ↑n)
  (hn : 1 ≤ n) (hdelay : s.delay = .real x) (hpositive : s.delay.below 0 = false)
  (hpending : s.pending = none) (hquiet : s.onWait = .quiet)
include hdraw hbatch hn hdelay hpositive hpending hquiet

theorem shows_settle (hfailure : s.failure = none) (mode : Mode) :
    Shows segments stats (s.drawRun mode).settle := by
  have hrendered := rendered_settle hpending hfailure hdraw
  cases mode with
  | render => exact hrendered.shows
  | grow =>
    have hgap : (s.sprout n segments).gap? ≠ none := by
      rw [Growth.gap?_real hdelay]
      exact Option.some_ne_none _
    exact (grownAs_settle hdraw hbatch hn hpositive hpending hquiet fun _ => hgap).shows hrendered

/-- What a session grows on a new stage. -/
theorem laidDown_settle (hstage : s.stage = Stage.empty) :
    LaidDown n (if 0 < x then x + frameInterval else frameInterval) segments
      (s.drawRun .grow).settle := by
  have hgap : (s.sprout n segments).gap? =
      some (if 0 < x then x + frameInterval else frameInterval) := Growth.gap?_real hdelay
  have hgrow := drawRun_grow hdraw hbatch hn hpositive
  obtain ⟨strokes, log, hstrokes, hlog, hsettle⟩ :=
    settle_of_canDraw (by rw [hgrow]) (by rw [hgrow, hpending]) (by rw [hgrow, hquiet])
      (canDraw_drawRun hdraw hbatch hn hpositive) hn rfl fun _ => by simp [hgap]
  have hpicture : (s.drawRun .grow).settle.stage.picture.strokes.toList = strokes := by
    rw [hsettle, hgrow]
    exact congrArg Array.toList Array.empty_append
  constructor
  · rw [hpicture]
    exact hstrokes
  · rw [hpicture, hsettle]
    dsimp only
    rw [hlog _ hgap, hgrow, hstage]
    rfl

end Drawing

section Window

variable {config : Config} {batch delay : Numeric} {n : Nat} {x : Float} {limit : Limit}
  {events : Schedule WindowEvent} {segments : List Segment} {stats : Stats}

/-- The first run of a window fails if it is asked for something that is no mode. -/
theorem failure_shown_of_unknown {value : Value} (hmode : Mode.ofValue? value = none) :
    (shown config value batch delay limit events).failure = some (.unknownMode value) := by
  have hrun : shown config value batch delay limit events =
      ({ opened config batch delay limit events with
        reply := none, failure := none }.fail (.unknownMode value)).settle := by
    change Session.settle (request _ value) = _
    rw [request, hmode]
  rw [hrun, settle_of_idle rfl]
  rfl

/-- Any other first run, in whose waits nothing is done, shows the drawing. -/
theorem shows_shown {value : Value} {mode : Mode} (hmode : Mode.ofValue? value = some mode)
    (hquiet : events.next.2 = .quiet) (hdraw : config.draw limit = .ok (segments, stats))
    (hn : 1 ≤ n) (hx : (Numeric.real x).below 0 = false) :
    Shows segments stats (shown config value (.whole n) (.real x) limit events) ∧
      (mode = .grow → LaidDown n (if 0 < x then x + frameInterval else frameInterval) segments
        (shown config value (.whole n) (.real x) limit events)) := by
  have hwaits : (events.next.2.map WindowEvent.command) = .quiet := by
    rw [hquiet]
    rfl
  obtain ⟨view, viewport, printed, hbegin⟩ :=
    exists_beginRun (opened config (.whole n) (.real x) limit events).poised mode
  rw [shown, command_run rfl hmode, hbegin]
  constructor
  · exact shows_settle hdraw rfl hn rfl hx rfl hwaits rfl mode
  · rintro rfl
    exact laidDown_settle hdraw rfl hn rfl hx rfl hwaits rfl

end Window

end Session

end Lindenmayer
