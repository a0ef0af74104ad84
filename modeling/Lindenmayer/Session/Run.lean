import Lindenmayer.Session.State

/-!
# Running a session

A session runs one mode at a time. A run that is asked for while another is in progress is only
noted, and the growth in progress is stopped; when it has ended, the latest mode noted is run. An
error ends everything in progress. The module shows that a session always comes to rest, because
every further run was asked for by a command that its schedule held.
-/
namespace Lindenmayer

namespace Session

/-- Notes the mode; a session at rest begins to run it. -/
def enqueue (s : Session) (mode : Mode) : Session :=
  if s.isRunning then { s with pending := some mode, reply := none }.stopStage
  else { s with pending := some mode, reply := none, phase := .choosing none }

def request (s : Session) (mode : Value) : Session :=
  match Mode.ofValue? mode with
  | none => s.fail (.unknownMode mode)
  | some mode => s.enqueue mode

def run (s : Session) : Option Value → Session
  | none => s.enqueue s.lastMode
  | some mode => s.request mode

def stop (s : Session) : Session :=
  { s with pending := none }.stopStage.setStatus "Stopped.".toList false

/-- Draws again with more or fewer iterations; a count that is refused is only reported. -/
def changeIterations (s : Session) (delta : Numeric) : Session :=
  match Numeric.addInt? s.config.iterations delta with
  | none => s.fail .countTooLarge
  | some iterations =>
    match Config.make (s.config.settings iterations) with
    | .error e => if e.isReport then s.setStatus e.message true else s.fail (.config e)
    | .ok config => { s with config := config }.enqueue s.lastMode

def pressKey (s : Session) (key : List Char) : Session :=
  if key = ['r'] then s.enqueue .render
  else if key = ['g'] then s.enqueue .grow
  else if key = "escape".toList then s.stop
  else if key = "up".toList then s.changeIterations (.whole 1)
  else if key = "down".toList then s.changeIterations (.whole (-1))
  else s

def perform (s : Session) : SessionCommand → Session
  | .run mode => s.run mode
  | .request mode => s.request mode
  | .key none => s
  | .key (some name) => s.pressKey name
  | .stop => s.stop
  | .close => s.stopStage
  | .resize none => s.resize
  | .resize (some size) => { s with canvas := size }.resize
  | .changeIterations delta => s.changeIterations delta
  | .configure settings =>
    match Config.make settings with
    | .error e => s.fail (.config e)
    | .ok config => { s with config := config }
  | .setStatus text isError => s.setStatus text isError
  | .setBatch batch => { s with batch := batch }
  | .setLimit limit => { s with limit := limit }

/-- Begins to grow the segments. -/
def beginGrowth (s : Session) (segments : Array Segment) : Session :=
  match s.stage.start segments s.batch s.delay with
  | (.error e, stage) => { s with stage := stage }.fail (.growth e)
  | (.ok id, stage) =>
    { { s with stage := stage }.setStatus "Growing...".toList false with phase := .growing id }

/-- Draws the configuration in a mode. One that cannot be drawn is only reported, and what was
drawn before stays on record. -/
def drawRun (s : Session) (mode : Mode) : Session :=
  match s.config.draw s.limit with
  | .error e =>
    if e.isReport then { s.setStatus e.message true with phase := .choosing none }
    else s.fail (.drawing e)
  | .ok (segments, stats) =>
    let segments := segments.toArray
    let s := { s with lastSegments := some segments, lastMode := mode, stats := some stats }
    match mode with
    | .render => { s.renderAll segments with phase := .choosing none }
    | .grow => s.beginGrowth segments

/-- Begins a run: what grows is stopped, the view is matched to the canvas and the status cleared
before the configuration is drawn. -/
def beginRun (s : Session) (mode : Mode) : Session :=
  match s.stopStage.applyCanvas with
  | (.error e, s) => s.fail (.view e)
  | (.ok _, s) => (s.setStatus [] false).drawRun mode

/-- A growth has drawn its last batch, or was kept from drawing another. -/
def endGrowth (s : Session) (id : Nat) : Session :=
  if s.stage.hasGrown id then
    { s.setStatus "Grown.".toList false with phase := .choosing (some id) }
  else { s with phase := .choosing (some id) }

/-- Waits after a batch. -/
def beginWait (s : Session) (id : Nat) : Session :=
  match (s.stage.growths[id]?).bind Growth.gap? with
  | none => s.fail (.growth .delayTooLong)
  | some seconds =>
    { s with
      stage := s.stage.wait id seconds
      onWait := s.onWait.next.2
      phase := .waiting id s.onWait.next.1 }

/-- Draws a batch and waits, or ends the growth. -/
def tick (s : Session) (id : Nat) : Session :=
  match s.stage.openTick id with
  | (none, stage) => { s with stage := stage }.endGrowth id
  | (some stop, stage) =>
    match stage.closeTick id stop with
    | (false, stage) => { s with stage := stage }.endGrowth id
    | (true, stage) => { s with stage := stage }.beginWait id

/-- Goes on with what the session is in the middle of. -/
def step (s : Session) : Session :=
  match s.phase with
  | .idle => s
  | .choosing last =>
    match s.pending with
    | none => { s with phase := .idle, reply := last }
    | some mode => { s with pending := none }.beginRun mode
  | .growing id => s.tick id
  | .waiting id [] => { s with phase := .growing id }
  | .waiting id (c :: rest) => { s with phase := .waiting id rest }.perform c

/-- The commands of the wait that a session is in. -/
def waitingCommands : Phase → List SessionCommand
  | .waiting _ rest => rest
  | _ => []

/-- The commands still to be performed and the run that is asked for; a command may ask for a run,
so it counts twice, and once more while it has yet to come out of the schedule. -/
def load (s : Session) : Nat :=
  3 * s.onWait.weight + 2 * (waitingCommands s.phase).length + (if s.pending.isSome then 1 else 0)

/-- How far a session is from rest if no command interferes. -/
def distance (s : Session) : Nat :=
  match s.phase with
  | .idle => 0
  | .choosing _ => 1
  | .growing id => 2 * s.stage.remaining id + 2
  | .waiting id _ => 2 * s.stage.remaining id + 3

/-- Neither the schedule nor what the session is in the middle of has changed, except that an
error may have ended the latter. -/
def Undisturbed (s t : Session) : Prop :=
  t.onWait = s.onWait ∧ (t.phase = s.phase ∨ t.phase = .idle)

theorem Undisturbed.refl (s : Session) : Undisturbed s s := ⟨rfl, Or.inl rfl⟩

theorem Undisturbed.trans {s t u : Session} (h : Undisturbed s t) (h' : Undisturbed t u) :
    Undisturbed s u := by
  refine ⟨h'.1.trans h.1, ?_⟩
  rcases h'.2 with e' | e'
  · rcases h.2 with e | e
    · exact Or.inl (e'.trans e)
    · exact Or.inr (e'.trans e)
  · exact Or.inr e'

theorem undisturbed_fail (s : Session) (e : SessionError) : Undisturbed s (s.fail e) :=
  ⟨rfl, Or.inr rfl⟩

theorem undisturbed_setStatus (s : Session) (text : List Char) (isError : Bool) :
    Undisturbed s (s.setStatus text isError) := by
  rw [setStatus_eq]
  exact ⟨rfl, Or.inl rfl⟩

theorem undisturbed_stopStage (s : Session) : Undisturbed s s.stopStage := ⟨rfl, Or.inl rfl⟩

theorem undisturbed_applyCanvas (s : Session) : Undisturbed s s.applyCanvas.2 := by
  obtain ⟨_, _, _, h⟩ := exists_applyCanvas s
  rw [h]
  exact ⟨rfl, Or.inl rfl⟩

theorem undisturbed_renderAll (s : Session) (segments : Array Segment) :
    Undisturbed s (s.renderAll segments) :=
  .trans ⟨rfl, Or.inl rfl⟩ (undisturbed_setStatus _ _ _)

theorem undisturbed_resize (s : Session) : Undisturbed s s.resize := by
  have h := undisturbed_applyCanvas s
  unfold resize
  split
  · next t ht => rw [ht] at h; exact h.trans (undisturbed_fail _ _)
  · next t ht => rw [ht] at h; exact h
  · next t ht =>
    rw [ht] at h
    split
    · exact h
    · exact h.trans (undisturbed_renderAll _ _)

theorem undisturbed_enqueue {s : Session} (h : s.isRunning = true) (mode : Mode) :
    Undisturbed s (s.enqueue mode) := by
  unfold enqueue
  rw [if_pos h]
  exact ⟨rfl, Or.inl rfl⟩

theorem undisturbed_request {s : Session} (h : s.isRunning = true) (mode : Value) :
    Undisturbed s (s.request mode) := by
  unfold request
  split
  · exact undisturbed_fail _ _
  · exact undisturbed_enqueue h _

theorem undisturbed_stop (s : Session) : Undisturbed s s.stop :=
  .trans (t := { s with pending := none }.stopStage) ⟨rfl, Or.inl rfl⟩ (undisturbed_setStatus _ _ _)

theorem undisturbed_changeIterations {s : Session} (h : s.isRunning = true) (delta : Numeric) :
    Undisturbed s (s.changeIterations delta) := by
  unfold changeIterations
  split
  · exact undisturbed_fail _ _
  · split
    · split
      · exact undisturbed_setStatus _ _ _
      · exact undisturbed_fail _ _
    · next config _ =>
      exact .trans (t := { s with config := config }) ⟨rfl, Or.inl rfl⟩
        (undisturbed_enqueue (s := { s with config := config }) h _)

theorem undisturbed_pressKey {s : Session} (h : s.isRunning = true) (key : List Char) :
    Undisturbed s (s.pressKey key) := by
  unfold pressKey
  split
  · exact undisturbed_enqueue h _
  · split
    · exact undisturbed_enqueue h _
    · split
      · exact undisturbed_stop s
      · split
        · exact undisturbed_changeIterations h _
        · split
          · exact undisturbed_changeIterations h _
          · exact .refl s

/-- While a run is in progress a command can only note what to do next. -/
theorem undisturbed_perform {s : Session} (h : s.isRunning = true) (c : SessionCommand) :
    Undisturbed s (s.perform c) := by
  unfold perform
  split
  · next mode =>
    cases mode with
    | none => exact undisturbed_enqueue h _
    | some mode => exact undisturbed_request h mode
  · exact undisturbed_request h _
  · exact .refl s
  · exact undisturbed_pressKey h _
  · exact undisturbed_stop s
  · exact undisturbed_stopStage s
  · exact undisturbed_resize s
  · next size => exact .trans (t := { s with canvas := size }) ⟨rfl, Or.inl rfl⟩ (undisturbed_resize _)
  · exact undisturbed_changeIterations h _
  · split
    · exact undisturbed_fail _ _
    · exact ⟨rfl, Or.inl rfl⟩
  · exact undisturbed_setStatus _ _ _
  · exact ⟨rfl, Or.inl rfl⟩
  · exact ⟨rfl, Or.inl rfl⟩

theorem load_of_undisturbed {s t : Session} (h : Undisturbed s t) : t.load ≤ s.load + 1 := by
  have hcommands : (waitingCommands t.phase).length ≤ (waitingCommands s.phase).length := by
    rcases h.2 with e | e
    · exact Nat.le_of_eq (congrArg (fun phase => (waitingCommands phase).length) e)
    · simp [e, waitingCommands]
  unfold load
  rw [h.1]
  split <;> split <;> omega

theorem pending_setStatus (s : Session) (text : List Char) (isError : Bool) :
    (s.setStatus text isError).pending = s.pending := by
  rw [setStatus_eq]

theorem pending_applyCanvas (s : Session) : s.applyCanvas.2.pending = s.pending := by
  obtain ⟨_, _, _, h⟩ := exists_applyCanvas s
  rw [h]

/-- Nothing waits to be performed or run, and the schedule is the given one. -/
def Unloaded (onWait : Schedule SessionCommand) (s : Session) : Prop :=
  s.onWait = onWait ∧ waitingCommands s.phase = [] ∧ s.pending = none

theorem load_of_unloaded {onWait : Schedule SessionCommand} {s : Session} (h : Unloaded onWait s) :
    s.load = 3 * onWait.weight := by
  simp [load, h.1, h.2.1, h.2.2]

theorem unloaded_drawRun {onWait : Schedule SessionCommand} {s : Session}
    (hwait : s.onWait = onWait) (hpending : s.pending = none) (mode : Mode) :
    Unloaded onWait (s.drawRun mode) := by
  unfold drawRun
  split
  · split
    · exact ⟨(undisturbed_setStatus _ _ _).1.trans hwait, rfl,
        (pending_setStatus _ _ _).trans hpending⟩
    · exact ⟨hwait, rfl, hpending⟩
  · dsimp only
    split
    · exact ⟨(undisturbed_setStatus _ _ _).1.trans hwait, rfl,
        (pending_setStatus _ _ _).trans hpending⟩
    · unfold beginGrowth
      split
      · exact ⟨hwait, rfl, hpending⟩
      · exact ⟨(undisturbed_setStatus _ _ _).1.trans hwait, rfl,
          (pending_setStatus _ _ _).trans hpending⟩

theorem unloaded_beginRun {s : Session} (h : s.pending = none) (mode : Mode) :
    Unloaded s.onWait (s.beginRun mode) := by
  have hwait : s.stopStage.applyCanvas.2.onWait = s.onWait := (undisturbed_applyCanvas _).1
  have hpending : s.stopStage.applyCanvas.2.pending = none := (pending_applyCanvas _).trans h
  unfold beginRun
  split
  · next t ht =>
    rw [ht] at hwait hpending
    exact ⟨hwait, rfl, hpending⟩
  · next t ht =>
    rw [ht] at hwait hpending
    exact unloaded_drawRun ((undisturbed_setStatus _ _ _).1.trans hwait)
      ((pending_setStatus _ _ _).trans hpending) mode

/-- The order in which the steps descend: first the load, then the distance from rest. -/
def Descends (t s : Session) : Prop := t.load < s.load ∨ t.load = s.load ∧ t.distance < s.distance

theorem descends_endGrowth {s t : Session} {id : Nat} (hphase : s.phase = .growing id)
    (hwait : t.onWait = s.onWait) (hpending : t.pending = s.pending) :
    Descends (t.endGrowth id) s := by
  have h : (t.endGrowth id).onWait = t.onWait ∧ (t.endGrowth id).pending = t.pending ∧
      (t.endGrowth id).phase = .choosing (some id) := by
    unfold endGrowth
    split
    · exact ⟨(undisturbed_setStatus _ _ _).1, pending_setStatus _ _ _, rfl⟩
    · exact ⟨rfl, rfl, rfl⟩
  obtain ⟨hwait', hpending', hphase'⟩ := h
  right
  constructor
  · simp [load, hwait', hpending', hphase', hwait, hpending, hphase, waitingCommands]
  · simp only [distance, hphase', hphase]
    omega

theorem descends_tick {s : Session} {id : Nat} (hphase : s.phase = .growing id) :
    Descends (s.tick id) s := by
  unfold tick
  split
  · exact descends_endGrowth hphase rfl rfl
  · next stop opened hopen =>
    split
    · exact descends_endGrowth hphase rfl rfl
    · next closed hclose =>
      unfold beginWait
      split
      · right
        constructor
        · simp only [fail, load, hphase, waitingCommands]
          rfl
        · simp only [fail, distance, hphase]
          omega
      · next seconds _ =>
        have hweight := s.onWait.weight_next
        have hload : s.load = 3 * s.onWait.weight + if s.pending.isSome then 1 else 0 := by
          simp [load, hphase, waitingCommands]
        cases hnext : s.onWait.next.1 with
        | cons c rest =>
          left
          rw [hnext, List.length_cons] at hweight
          rw [hload]
          simp only [load, waitingCommands, List.length_cons]
          omega
        | nil =>
          right
          rw [hnext, List.length_nil] at hweight
          constructor
          · rw [hload]
            simp only [load, waitingCommands, List.length_nil]
            omega
          · obtain ⟨g, hg, rfl, hgrowths⟩ := Stage.exists_of_openTick hopen
            obtain ⟨g', hg', hlt, hclosed⟩ := Stage.exists_of_closeTick hclose
            rw [hgrowths, hg] at hg'
            obtain rfl := Option.some.inj hg'
            have hbefore : s.stage.remaining id = g.total - g.cursor := by
              simp [Stage.remaining, hg, Growth.remaining]
            have hafter : (closed.wait id seconds).remaining id = g.total - g.nextStop := by
              have hw : (closed.wait id seconds).growths = closed.growths := rfl
              simp [Stage.remaining, hw, hclosed, Growth.remaining, Growth.total]
            have hmoved := Growth.cursor_lt_nextStop hlt
            simp only [distance, hphase, hbefore, hafter]
            omega

/-- Every step comes nearer to rest. -/
theorem descends_step {s : Session} (h : s.isRunning = true) : Descends s.step s := by
  unfold step
  split
  · next hphase => simp [isRunning, hphase] at h
  · next last hphase =>
    split
    · next hpending =>
      right
      simp [load, distance, hphase, waitingCommands]
    · next mode hpending =>
      left
      have hload : s.load = 3 * s.onWait.weight + 1 := by
        simp [load, hphase, hpending, waitingCommands]
      have := load_of_unloaded (unloaded_beginRun (s := { s with pending := none }) rfl mode)
      rw [this, hload]
      exact Nat.lt_succ_self _
  · next id hphase => exact descends_tick hphase
  · next id hphase =>
    right
    constructor
    · simp [load, hphase, waitingCommands]
    · simp only [distance, hphase]
      omega
  · next id c rest hphase =>
    left
    have hload : { s with phase := .waiting id rest }.load + 2 = s.load := by
      simp only [load, hphase, waitingCommands, List.length_cons]
      omega
    have := load_of_undisturbed
      (undisturbed_perform (s := { s with phase := .waiting id rest }) rfl c)
    omega

/-- Goes on until the session is at rest. -/
def settle (s : Session) : Session :=
  if _h : s.isRunning = true then settle s.step else s
termination_by (s.load, s.distance)
decreasing_by
  rcases descends_step (s := s) (by assumption) with hload | ⟨hload, hdistance⟩
  · exact Prod.Lex.left _ _ hload
  · rw [hload]
    exact Prod.Lex.right _ hdistance

/-- Commands that are asked for the growth they ran; the others have no answer. -/
def answers : SessionCommand → Bool
  | .run _ => true
  | .request _ => true
  | _ => false

/-- Performs a command of a session at rest, and everything that follows from it. -/
def command (s : Session) (c : SessionCommand) : Session :=
  let s := ({ s with reply := none, failure := none }.perform c).settle
  if answers c then s else { s with reply := none }

end Session

end Lindenmayer
