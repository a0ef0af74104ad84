import Lindenmayer.Animation.Schedule
import Lindenmayer.Config
import Lindenmayer.Surface.Canvas
import Lindenmayer.Surface.Strokes

/-!
# Sessions

A session draws one configuration after another on a canvas, all at once or growing, and reports
what it does in a status line. This module holds its state and the changes that need no running:
the status, the canvas and its viewport, and the commands a session takes.
-/
namespace Lindenmayer

inductive Mode where
  | render
  | grow
  deriving DecidableEq

namespace Mode

def name : Mode → List Char
  | render => "render".toList
  | grow => "grow".toList

def all : List Mode := [render, grow]

/-- The mode of that name. -/
def ofValue? : Value → Option Mode
  | .text s => all.find? fun m => m.name == s
  | _ => none

end Mode

structure Status where
  text : List Char
  isError : Bool
  deriving DecidableEq

namespace Status

def blank : Status := ⟨[], false⟩

def color (s : Status) : String := if s.isError then "#ff6b6b" else Surface.strokeColor

end Status

/-- Why a command of a session fails. -/
inductive SessionError where
  | unknownMode (given : Value)
  | config (e : ConfigError)
  | drawing (e : DrawingError)
  /-- The canvas has no view. -/
  | view (e : ViewFault)
  | growth (e : GrowthError)
  /-- A count of iterations exceeds every finite double. -/
  | countTooLarge

/-- The text of an error, if it has one. -/
def SessionError.message? : SessionError → Option (List Char)
  | unknownMode given =>
    some (Value.said ("mode must be one of (".toList ++
      Value.separated (Mode.all.map fun m => Text.quote m.name) ++ "), got ".toList) given)
  | config e => some e.message
  | drawing e => some e.message
  | view e => e.message?
  | growth e => some e.message
  | countTooLarge => some Numeric.tooLarge

inductive SessionCommand where
  /-- Without a mode, the mode of the latest drawing. -/
  | run (mode : Option Value)
  | request (mode : Value)
  | key (name : Option (List Char))
  | stop
  | close
  /-- The canvas takes a new size, if one is given, and the session notices. -/
  | resize (size : Option Canvas)
  | changeIterations (delta : Numeric)
  | configure (settings : Settings)
  | setStatus (text : List Char) (isError : Bool)
  | setBatch (batch : Numeric)
  | setLimit (limit : Limit)

/-- What a session is in the middle of. -/
inductive Phase where
  | idle
  /-- About to look for a requested mode; `last` is the growth of the latest run, if it grew. -/
  | choosing (last : Option Nat)
  /-- The growth is about to draw a batch. -/
  | growing (id : Nat)
  /-- The growth waits while the commands are performed. -/
  | waiting (id : Nat) (rest : List SessionCommand)

structure Session where
  config : Config
  batch : Numeric
  delay : Numeric
  limit : Limit
  canvas : Canvas
  stage : Stage Segment
  view : View
  viewport : Option Canvas
  lastSegments : Option (Array Segment)
  lastMode : Mode
  stats : Option Stats
  status : Status
  /-- The mode of the next run. -/
  pending : Option Mode
  phase : Phase
  onWait : Schedule SessionCommand
  /-- The lines printed so far. -/
  printed : Array (List Char)
  reply : Option Nat
  failure : Option SessionError

namespace Session

def new (config : Config) (batch delay : Numeric) (limit : Limit) (canvas : Canvas)
    (onWait : Schedule SessionCommand) : Session where
  config := config
  batch := batch
  delay := delay
  limit := limit
  canvas := canvas
  stage := Stage.empty
  view := View.initial
  viewport := none
  lastSegments := none
  lastMode := .grow
  stats := none
  status := Status.blank
  pending := none
  phase := .idle
  onWait := onWait
  printed := #[]
  reply := none
  failure := none

def isRunning (s : Session) : Bool :=
  match s.phase with
  | .idle => false
  | _ => true

def print (s : Session) (line : List Char) : Session := { s with printed := s.printed.push line }

/-- Shows a status, and prints it unless it is blank. -/
def setStatus (s : Session) (text : List Char) (isError : Bool) : Session :=
  let s := { s with status := ⟨text, isError⟩ }
  if text.isEmpty then s else s.print text

theorem setStatus_eq (s : Session) (text : List Char) (isError : Bool) :
    s.setStatus text isError = { s with
      status := ⟨text, isError⟩
      printed := if text.isEmpty then s.printed else s.printed.push text } := by
  rw [setStatus]
  cases text.isEmpty with
  | true => rfl
  | false => rfl

def statsText (s : Stats) : List Char :=
  "expanded length: ".toList ++ Number.groupedText s.expandedLength ++
    "\nsegments: ".toList ++ Number.groupedText s.segmentCount

/-- What the session shows about its latest drawing. -/
def statsLine (s : Session) : List Char := (s.stats.map statsText).getD []

def fail (s : Session) (e : SessionError) : Session :=
  { s with phase := .idle, failure := some e }

/-- Matches the view to a canvas that has changed its size; a canvas without area is only
reported. The answer is whether the view changed. -/
def applyCanvas (s : Session) : Except ViewFault Bool × Session :=
  if s.canvas.width = 0 ∨ s.canvas.height = 0 then
    (.ok false, s.print ("canvas has zero size: ".toList ++ Number.intText s.canvas.width ++
      'x' :: Number.intText s.canvas.height))
  else if s.viewport = some s.canvas then (.ok false, s)
  else
    let s := { s with viewport := some s.canvas }
    match s.view.showCanvas (.whole s.canvas.width) (.whole s.canvas.height) with
    | .ok v => (.ok true, { s with view := v })
    | .error e => (.error e.fault, { s with view := e.view })

/-- Matching the view to the canvas touches the view, the viewport and the lines printed only. -/
theorem exists_applyCanvas (s : Session) : ∃ view viewport printed, s.applyCanvas.2 =
    { s with view := view, viewport := viewport, printed := printed } := by
  rw [applyCanvas]
  dsimp only
  split
  · exact ⟨s.view, s.viewport, _, rfl⟩
  · split
    · exact ⟨s.view, s.viewport, s.printed, rfl⟩
    · split
      · exact ⟨_, _, s.printed, rfl⟩
      · exact ⟨_, _, s.printed, rfl⟩

def stopStage (s : Session) : Session := { s with stage := s.stage.stop }

def rendered : List Char := "Rendered.".toList

/-- Draws everything at once. -/
def renderAll (s : Session) (segments : Array Segment) : Session :=
  { s with stage := s.stage.drawAll segments }.setStatus rendered false

/-- A growing drawing is not resumed on a canvas of another size but shown in full. -/
def resize (s : Session) : Session :=
  match s.applyCanvas with
  | (.error e, s) => s.fail (.view e)
  | (.ok false, s) => s
  | (.ok true, s) =>
    match s.lastSegments with
    | none => s
    | some segments => s.renderAll segments

end Session

end Lindenmayer
