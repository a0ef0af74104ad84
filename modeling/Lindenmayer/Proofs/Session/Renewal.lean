import Lindenmayer.Proofs.Animation.Past
import Lindenmayer.Proofs.Session.Picture
import Lindenmayer.Proofs.Session.Sight

/-!
# Every run starts afresh

A run stops what is live, matches the view to the canvas, clears the status and wipes the picture
before anything is drawn. What is left of the time before is the growths made and the lines printed
so far, and nothing that a session does depends on those. So a run in any session at rest is the run
of a new session with that past in front of it, and two sessions with the same settings run alike.
-/
namespace Lindenmayer

/-- The number of a growth after all those of the past. -/
def Phase.after (p : Stage.Past Segment) : Phase → Phase
  | idle => idle
  | choosing last => choosing (last.map p.number)
  | growing id => growing (p.number id)
  | waiting id rest => waiting (p.number id) rest

namespace Session

/-- What a session has behind it. -/
structure Past extends Stage.Past Segment where
  printed : Array (List Char)

/-- The session with a past in front of what has happened in it. -/
def after (s : Session) (p : Past) : Session :=
  { s with
    stage := s.stage.after p.toPast
    phase := s.phase.after p.toPast
    printed := p.printed ++ s.printed
    reply := s.reply.map p.number }

/-! What is done in the session. -/

theorem isRunning_after (s : Session) (p : Past) : (s.after p).isRunning = s.isRunning := by
  have hphase : (s.after p).phase = s.phase.after p.toPast := rfl
  rw [isRunning, isRunning, hphase]
  cases s.phase with
  | idle => rfl
  | choosing last => rfl
  | growing id => rfl
  | waiting id rest => rfl

theorem print_after (s : Session) (p : Past) (line : List Char) :
    (s.after p).print line = (s.print line).after p := by
  simp only [print, after, Array.push_append]

theorem setStatus_after (s : Session) (p : Past) (text : List Char) (isError : Bool) :
    (s.after p).setStatus text isError = (s.setStatus text isError).after p := by
  rw [setStatus, setStatus]
  split
  · rfl
  · exact print_after { s with status := ⟨text, isError⟩ } p text

theorem applyCanvas_after (s : Session) (p : Past) :
    (s.after p).applyCanvas = (s.applyCanvas.1, s.applyCanvas.2.after p) := by
  have hcanvas : (s.after p).canvas = s.canvas := rfl
  have hviewport : (s.after p).viewport = s.viewport := rfl
  rw [applyCanvas, applyCanvas, hcanvas, hviewport]
  dsimp only
  split
  · rw [print_after]
  · split
    · rfl
    · rw [View.showCanvas_eq, View.showCanvas_eq]
      rfl

theorem stopStage_after (s : Session) (p : Past) : (s.after p).stopStage = s.stopStage.after p := by
  have hstop := s.stage.stop_after p.toPast
  rw [stopStage, stopStage, after, after]
  dsimp only
  rw [hstop]

theorem renderAll_of_wiped {s : Session} {p : Past} {stage : Stage Segment}
    {segments : Array Segment}
    (h : stage.drawAll segments = (s.stage.drawAll segments).after p.toPast) :
    { s.after p with stage := stage }.renderAll segments = (s.renderAll segments).after p := by
  rw [renderAll, renderAll, ← setStatus_after]
  simp only [after, h]

theorem renderAll_after (s : Session) (p : Past) (segments : Array Segment) :
    (s.after p).renderAll segments = (s.renderAll segments).after p :=
  renderAll_of_wiped (s.stage.drawAll_after p.toPast segments)

theorem resize_after (s : Session) (p : Past) : (s.after p).resize = s.resize.after p := by
  have hlast : (s.applyCanvas.2.after p).lastSegments = s.applyCanvas.2.lastSegments := rfl
  rw [resize, resize, applyCanvas_after, applyCanvas_eq]
  cases s.noticed s.canvas with
  | false => rfl
  | true =>
    dsimp only
    rw [hlast]
    cases s.applyCanvas.2.lastSegments with
    | none => rfl
    | some segments => exact s.applyCanvas.2.renderAll_after p segments

theorem enqueue_after (s : Session) (p : Past) (mode : Mode) :
    (s.after p).enqueue mode = (s.enqueue mode).after p := by
  rw [enqueue, enqueue, isRunning_after]
  split
  · exact stopStage_after { s with pending := some mode, reply := none } p
  · rfl

theorem request_after (s : Session) (p : Past) (mode : Value) :
    (s.after p).request mode = (s.request mode).after p := by
  rw [request, request]
  split
  · rfl
  · exact s.enqueue_after p _

theorem stop_after (s : Session) (p : Past) : (s.after p).stop = s.stop.after p := by
  have hstop := stopStage_after { s with pending := none } p
  rw [stop, stop, ← setStatus_after, ← hstop]
  rfl

theorem changeIterations_after (s : Session) (p : Past) (delta : Numeric) :
    (s.after p).changeIterations delta = (s.changeIterations delta).after p := by
  have hconfig : (s.after p).config = s.config := rfl
  rw [changeIterations, changeIterations, hconfig]
  split
  · rfl
  · split
    · split
      · exact s.setStatus_after p _ true
      · rfl
    · next config _ => exact enqueue_after { s with config := config } p s.lastMode

theorem pressKey_after (s : Session) (p : Past) (key : List Char) :
    (s.after p).pressKey key = (s.pressKey key).after p := by
  rw [pressKey, pressKey]
  split
  · exact s.enqueue_after p .render
  · split
    · exact s.enqueue_after p .grow
    · split
      · exact s.stop_after p
      · split
        · exact s.changeIterations_after p _
        · split
          · exact s.changeIterations_after p _
          · rfl

theorem perform_after (s : Session) (p : Past) (c : SessionCommand) :
    (s.after p).perform c = (s.perform c).after p := by
  cases c with
  | run mode =>
    cases mode with
    | none => exact s.enqueue_after p s.lastMode
    | some mode => exact s.request_after p mode
  | request mode => exact s.request_after p mode
  | key name =>
    cases name with
    | none => rfl
    | some key => exact s.pressKey_after p key
  | stop => exact s.stop_after p
  | close => exact s.stopStage_after p
  | resize size =>
    cases size with
    | none => exact s.resize_after p
    | some size => exact resize_after { s with canvas := size } p
  | changeIterations delta => exact s.changeIterations_after p delta
  | configure settings =>
    rw [perform, perform]
    cases Config.make settings with
    | error e => rfl
    | ok config => rfl
  | setStatus text isError => exact s.setStatus_after p text isError
  | setBatch batch => rfl
  | setLimit limit => rfl

theorem beginGrowth_of_wiped {s : Session} {p : Past} {stage : Stage Segment}
    {segments : Array Segment}
    (h : stage.start segments s.batch s.delay =
      ((s.stage.start segments s.batch s.delay).1.map p.number,
        (s.stage.start segments s.batch s.delay).2.after p.toPast)) :
    { s.after p with stage := stage }.beginGrowth segments =
      (s.beginGrowth segments).after p := by
  have hstart : ({ s.after p with stage := stage } : Session).stage.start segments
      ({ s.after p with stage := stage } : Session).batch
      ({ s.after p with stage := stage } : Session).delay = _ := h
  rw [beginGrowth, beginGrowth, hstart]
  rcases s.stage.start segments s.batch s.delay with ⟨e | id, started⟩
  · rfl
  · have hstatus := setStatus_after { s with stage := started } p "Growing...".toList false
    exact congrArg (fun t : Session => { t with phase := .growing (p.number id) }) hstatus

theorem beginGrowth_after (s : Session) (p : Past) (segments : Array Segment) :
    (s.after p).beginGrowth segments = (s.beginGrowth segments).after p :=
  beginGrowth_of_wiped (s.stage.start_after p.toPast segments s.batch s.delay)

theorem drawRun_after (s : Session) (p : Past) (mode : Mode) :
    (s.after p).drawRun mode = (s.drawRun mode).after p := by
  have hdraw : (s.after p).config.draw (s.after p).limit = s.config.draw s.limit := rfl
  rw [drawRun, drawRun, hdraw]
  cases s.config.draw s.limit with
  | error e =>
    dsimp only
    split
    · rw [setStatus_after]
      rfl
    · rfl
  | ok drawn =>
    obtain ⟨segments, stats⟩ := drawn
    cases mode with
    | render =>
      have hrender := renderAll_after { s with
        lastSegments := some segments.toArray
        lastMode := .render
        stats := some stats } p segments.toArray
      exact congrArg (fun t : Session => { t with phase := .choosing none }) hrender
    | grow =>
      exact beginGrowth_after { s with
        lastSegments := some segments.toArray
        lastMode := .grow
        stats := some stats } p segments.toArray

theorem beginRun_after (s : Session) (p : Past) (mode : Mode) :
    (s.after p).beginRun mode = (s.beginRun mode).after p := by
  rw [beginRun_eq, beginRun_eq, stopStage_after, applyCanvas_after, setStatus_after, drawRun_after]

theorem endGrowth_after (s : Session) (p : Past) (id : Nat) :
    (s.after p).endGrowth (p.number id) = (s.endGrowth id).after p := by
  have hgrown : (s.after p).stage.hasGrown (p.number id) = s.stage.hasGrown id :=
    s.stage.hasGrown_after p.toPast id
  rw [endGrowth, endGrowth, hgrown]
  split
  · rw [setStatus_after]
    rfl
  · rfl

theorem beginWait_after (s : Session) (p : Past) (id : Nat) :
    (s.after p).beginWait (p.number id) = (s.beginWait id).after p := by
  have hgrowth : (s.after p).stage.growths[p.number id]? = s.stage.growths[id]? :=
    s.stage.growth_after p.toPast id
  rw [beginWait, beginWait, hgrowth]
  split
  · rfl
  · next seconds _ =>
    have hwait := s.stage.wait_after p.toPast id seconds
    exact congrArg (fun stage => { s.after p with
      stage := stage
      onWait := s.onWait.next.2
      phase := .waiting (p.number id) s.onWait.next.1 }) hwait

theorem tick_after (s : Session) (p : Past) (id : Nat) :
    (s.after p).tick (p.number id) = (s.tick id).after p := by
  have hopen : (s.after p).stage.openTick (p.number id) =
      ((s.stage.openTick id).1, (s.stage.openTick id).2.after p.toPast) :=
    s.stage.openTick_after p.toPast id
  rw [tick, tick, hopen]
  rcases s.stage.openTick id with ⟨_ | stop, stage⟩
  · exact endGrowth_after { s with stage := stage } p id
  · dsimp only
    rw [stage.closeTick_after p.toPast id stop]
    rcases stage.closeTick id stop with ⟨_ | _, stage⟩
    · exact endGrowth_after { s with stage := stage } p id
    · exact beginWait_after { s with stage := stage } p id

/-! The whole course. -/

theorem step_after (s : Session) (p : Past) : (s.after p).step = s.step.after p := by
  have hphase : (s.after p).phase = s.phase.after p.toPast := rfl
  have hpending : (s.after p).pending = s.pending := rfl
  rw [step, step, hphase]
  cases s.phase with
  | idle => rfl
  | choosing last =>
    dsimp only [Phase.after]
    rw [hpending]
    cases s.pending with
    | none => rfl
    | some mode => exact beginRun_after { s with pending := none, phase := .choosing last } p mode
  | growing id => exact s.tick_after p id
  | waiting id rest =>
    cases rest with
    | nil => rfl
    | cons c rest => exact perform_after { s with phase := .waiting id rest } p c

theorem settle_after (s : Session) (p : Past) : (s.after p).settle = s.settle.after p := by
  induction s using settle.induct with
  | case1 s hrun ih =>
    have hrun' : (s.after p).isRunning = true := (s.isRunning_after p).trans hrun
    rw [settle_of_running hrun', settle_of_running hrun, step_after, ih]
  | case2 s hrest =>
    have hrest' : ¬ (s.after p).isRunning = true := by rwa [isRunning_after]
    rw [settle, dif_neg hrest', settle, dif_neg hrest]

/-! A run begins with nothing but the settings and what is printed and made so far. -/

def past (s : Session) : Past := ⟨s.stage.past, s.printed⟩

/-- A new session with the settings, the canvas and the schedule of this one. -/
def renewed (s : Session) : Session := new s.config s.batch s.delay s.limit s.canvas s.onWait

/-- What is drawn takes the place of everything drawn before. -/
theorem drawRun_eq_after {s : Session} {mode : Mode} {segments : List Segment} {stats : Stats}
    (hphase : s.phase = .choosing none) (hreply : s.reply = none)
    (hdraw : s.config.draw s.limit = .ok (segments, stats))
    (hstart : mode = .grow → Startable s.batch s.delay) :
    s.drawRun mode = ({ s with
      stage := .empty
      lastSegments := none
      lastMode := .grow
      stats := none
      printed := #[] }.drawRun mode).after s.past := by
  let fresh : Session := { s with
    stage := .empty
    lastSegments := some segments.toArray
    lastMode := mode
    stats := some stats
    printed := #[] }
  have hfresh : ({ s with
      lastSegments := some segments.toArray
      lastMode := mode
      stats := some stats } : Session) = { fresh.after s.past with stage := s.stage } := by
    simp [fresh, after, past, hphase, hreply, Phase.after]
  rw [drawRun, drawRun, hdraw]
  dsimp only
  rw [hfresh]
  cases mode with
  | render =>
    have hrender := renderAll_of_wiped (s := fresh) (p := s.past)
      (s.stage.drawAll_eq_after segments.toArray)
    exact congrArg (fun t : Session => { t with phase := .choosing none }) hrender
  | grow =>
    obtain ⟨hbatch, hdelay, _⟩ := hstart rfl
    have hbegin := s.stage.start_of_wiped (t := .empty) s.stage.clear_eq_after hbatch hdelay
      segments.toArray
    exact beginGrowth_of_wiped (s := fresh) (p := s.past) hbegin

/-- A run in a session at rest is the run of a new session, with the past in front of it. -/
theorem command_run_eq_after {s : Session} {value : Value} {mode : Mode}
    {segments : List Segment} {stats : Stats} (hs : Reached s) (hidle : s.phase = .idle)
    (hwidth : s.canvas.width ≠ 0) (hheight : s.canvas.height ≠ 0)
    (hmode : Mode.ofValue? value = some mode)
    (hdraw : s.config.draw s.limit = .ok (segments, stats))
    (hstart : mode = .grow → Startable s.batch s.delay) :
    s.command (.run (some value)) = (s.renewed.command (.run (some value))).after s.past := by
  have hmatched : s.poised.Matched := hs.matched.of_sight rfl
  have hrenewed : s.renewed.poised.Matched := by
    intro canvas hcanvas
    cases hcanvas
  have hbegin := beginRun_of_area (s := s.poised) hwidth hheight hmatched mode
  have hbegin' := beginRun_of_area (s := s.renewed.poised) hwidth hheight hrenewed mode
  have hpast : Past.mk s.stage.stop.past s.printed = s.past := by
    rw [past, Stage.past_stop]
  rw [command_run hidle hmode, command_run rfl hmode, ← settle_after, hbegin, hbegin', ← hpast]
  congr 1
  exact drawRun_eq_after rfl rfl hdraw hstart

/-- The sessions have the same settings and the same canvas, and the same commands come in their
waits. -/
structure Alike (s t : Session) : Prop where
  config : t.config = s.config
  batch : t.batch = s.batch
  delay : t.delay = s.delay
  limit : t.limit = s.limit
  canvas : t.canvas = s.canvas
  onWait : t.onWait = s.onWait

/-- What has become of `s` in `t` has become of `s'` in `t'`: they end alike and show the same, and
the same waits were made and the same growths, which differ in their numbers only. -/
structure SameCourse (s s' t t' : Session) : Prop where
  failure : t'.failure = t.failure
  reply : ∃ reply : Option Nat, t.reply = reply.map (s.stage.growths.size + ·) ∧
    t'.reply = reply.map (s'.stage.growths.size + ·)
  picture : t'.stage.picture = t.stage.picture
  lastSegments : t'.lastSegments = t.lastSegments
  lastMode : t'.lastMode = t.lastMode
  stats : t'.stats = t.stats
  status : t'.status = t.status
  config : t'.config = t.config
  pending : t'.pending = t.pending
  viewport : t'.viewport = t.viewport
  view : t'.view = t.view
  waits : ∃ waits, t.stage.waits = s.stage.waits ++ waits ∧
    t'.stage.waits = s'.stage.waits ++ waits
  growths : ∀ k : Nat, t'.stage.growths[s'.stage.growths.size + k]? =
    t.stage.growths[s.stage.growths.size + k]?

theorem number_past (s : Session) (id : Nat) : s.past.number id = s.stage.growths.size + id :=
  congrArg (· + id) (Stage.size_stop s.stage)

theorem reply_after_past (s t : Session) :
    (t.after s.past).reply = t.reply.map (s.stage.growths.size + ·) := by
  cases hr : t.reply with
  | none => simp [after, hr]
  | some id => simp [after, hr, number_past]

theorem waits_after_past (s t : Session) :
    (t.after s.past).stage.waits = s.stage.waits ++ t.stage.waits :=
  t.stage.waits_after s.stage.past

theorem growth_after_past (s t : Session) (k : Nat) :
    (t.after s.past).stage.growths[s.stage.growths.size + k]? = t.stage.growths[k]? := by
  rw [← number_past]
  exact t.stage.growth_after s.stage.past k

/-- Two sessions at rest with the same settings, on a canvas that has an area, run alike whatever has
happened in them before: a drawing that succeeds, and starts to grow if it is to grow, ends in both
in the same way. -/
theorem run_same_course {s s' : Session} {value : Value} {mode : Mode} {segments : List Segment}
    {stats : Stats} (hs : Reached s) (hs' : Reached s') (hidle : s.phase = .idle)
    (hidle' : s'.phase = .idle) (halike : Alike s s') (hwidth : s.canvas.width ≠ 0)
    (hheight : s.canvas.height ≠ 0) (hmode : Mode.ofValue? value = some mode)
    (hdraw : s.config.draw s.limit = .ok (segments, stats))
    (hstart : mode = .grow → Startable s.batch s.delay) :
    SameCourse s s' (s.command (.run (some value))) (s'.command (.run (some value))) := by
  obtain ⟨hconfig, hbatch, hdelay, hlimit, hcanvas, honWait⟩ := halike
  have hrenewed : s'.renewed = s.renewed := by
    rw [renewed, renewed, hconfig, hbatch, hdelay, hlimit, hcanvas, honWait]
  have hrun := command_run_eq_after hs hidle hwidth hheight hmode hdraw hstart
  rw [← hcanvas] at hwidth hheight
  rw [← hconfig, ← hlimit] at hdraw
  rw [← hbatch, ← hdelay] at hstart
  have hrun' := command_run_eq_after hs' hidle' hwidth hheight hmode hdraw hstart
  rw [hrenewed] at hrun'
  rw [hrun, hrun']
  generalize s.renewed.command (.run (some value)) = t
  constructor
  case reply => exact ⟨t.reply, reply_after_past s t, reply_after_past s' t⟩
  case waits => exact ⟨t.stage.waits, waits_after_past s t, waits_after_past s' t⟩
  case growths =>
    intro k
    rw [growth_after_past, growth_after_past]
  all_goals rfl

/-- A session that draws two segments, with a growth behind it. -/
def seasoned : Session :=
  step^[6] ((new ⟨"FF".toList, [], 0, 90, 1, Config.defaultPen⟩ (.whole 1) (.whole 0)
    Config.defaultLimit (.ofPixels 100 80) (.ofNumbered [(2, [.key (some ['g'])])])).perform
      (.run (some (.text "grow".toList))))

/-- The same session without anything behind it. -/
def unseasoned : Session :=
  new ⟨"FF".toList, [], 0, 90, 1, Config.defaultPen⟩ (.whole 1) (.whole 0) Config.defaultLimit
    (.ofPixels 100 80) (.ofNumbered [(1, [.key (some ['g'])])])

theorem turns_iterate {p : SessionCommand → Prop} (s : Session) (n : Nat) :
    Turns p s (step^[n] s) := by
  induction n generalizing s with
  | zero => exact .refl
  | succ n ih =>
    rw [Function.iterate_succ_apply]
    exact .head (.step s) (ih s.step)

theorem reached_seasoned : Reached seasoned :=
  ⟨_, _, _, _, _, _, .head (.begin _ _ rfl trivial) (turns_iterate _ 6)⟩

/-- In both sessions a key in the first wait asks for the drawing to grow again. -/
theorem seasoned_runs_like_unseasoned :
    SameCourse seasoned unseasoned (seasoned.command (.run (some (.text "grow".toList))))
      (unseasoned.command (.run (some (.text "grow".toList)))) := by
  have hok : (seasoned.config.draw seasoned.limit).isOk = true := by decide +kernel
  cases hdraw : seasoned.config.draw seasoned.limit with
  | error e =>
    rw [hdraw] at hok
    cases hok
  | ok drawn =>
    have hidle : seasoned.phase = .idle := idle_of_not_running (by decide +kernel)
    have hmode : Mode.ofValue? (.text "grow".toList) = some .grow := by decide +kernel
    exact run_same_course reached_seasoned ⟨_, _, _, _, _, _, .refl⟩ hidle rfl
      ⟨rfl, rfl, rfl, rfl, rfl, rfl⟩ (by decide +kernel) (by decide +kernel) hmode hdraw
      fun _ => ⟨rfl, rfl, 1, rfl⟩

end Session

end Lindenmayer
