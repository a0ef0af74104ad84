import Lindenmayer.CommandLine.Options
import Lindenmayer.Session.Window
import Lindenmayer.Surface.Image
import Lindenmayer.Turtle.Rows

/-!
# The program

A command line asks for one drawing. If it can be drawn, its counts are reported, and then exactly
one thing happens: the drawing is skipped because it has too many segments, its segments are written
as a table, it becomes an image, or a window shows it. If it cannot be drawn, the program says why
and leaves nothing behind.
-/
namespace Lindenmayer

/-- Why the program fails. -/
inductive ProgramError where
  | file (path : List Char) (e : PathError)
  /-- The name of the rules file cannot be a path. -/
  | noPath
  /-- The rules file is not encoded as text. -/
  | noText
  | config (e : ConfigError)
  | drawing (e : DrawingError)
  | image (e : ImageError)
  | session (e : SessionError)
  /-- An option whose value is left out cannot do without it. -/
  | noValue (key : OptionKey)

/-- The text of the errors that the program reports itself; any other one breaks it off. -/
def ProgramError.report? : ProgramError → Option (List Char)
  | file path e =>
    some ("[Errno ".toList ++ Number.intText e.code ++ "] ".toList ++ e.reason.toList ++
      ':' :: ' ' :: Text.quote path)
  | config e => if e.isReport then some e.message else none
  | drawing e => if e.isReport then some e.message else none
  | _ => none

inductive Ending where
  | exit (status : Nat)
  | broken (e : ProgramError)

/-- What a run of the program leaves behind. -/
inductive Product where
  | nothing
  | table (segments : List Segment)
  /-- An image of what is on the surface, with its name if it lies in the working folder. -/
  | image (file : Option (List Char)) (surface : Surface)
  /-- The file of an image that was not painted. -/
  | unpainted (file : Option (List Char))
  | window (session : Session)

structure Outcome where
  ending : Ending
  /-- What is said on the error channel. -/
  complaint : List Char
  /-- The counts reported before anything else is printed. -/
  stats : Option Stats
  /-- The lines printed after the counts. -/
  lines : List (List Char)
  product : Product

namespace Outcome

/-- Nothing is drawn. -/
def silent (status : Nat) (complaint : List Char) : Outcome :=
  ⟨.exit status, complaint, none, [], .nothing⟩

def failed (e : ProgramError) : Outcome :=
  match e.report? with
  | some text => silent 2 ("error: ".toList ++ text)
  | none => ⟨.broken e, [], none, [], .nothing⟩

/-- The program breaks off once the counts have been reported. -/
def brokenAfter (stats : Stats) (e : ProgramError) : Outcome :=
  ⟨.broken e, [], some stats, [], .nothing⟩

/-- A time given in microseconds, in seconds with six places. -/
def secondsText (micros : Nat) : List Char :=
  Number.intText (micros / 1000000 : Nat) ++
    '.' :: (Number.intText (1000000 + micros % 1000000 : Nat)).drop 1

/-- The counts of a drawing that took the given time. -/
def countLines (elapsed : List Char) (s : Stats) : List (List Char) :=
  ["generated ".toList ++ Number.intText s.segmentCount ++ " segments in ".toList ++ elapsed ++
      " s".toList,
    "expanded length: ".toList ++ Number.groupedText s.expandedLength ++ "  segments: ".toList ++
      Number.groupedText s.segmentCount]

/-- All lines printed, given the time that the drawing took. -/
def printed (o : Outcome) (elapsed : List Char) : List (List Char) :=
  (o.stats.map (countLines elapsed)).getD [] ++ o.lines

end Outcome

/-- The name of the file that a table of segments is written to. -/
def tableName : List Char := "segments.txt".toList

def wroteLine (name : List Char) : List Char := "wrote ".toList ++ name

/-- What is left of an image that could not be made. -/
def ImageError.product : ImageError → Product
  | unpainted file => .unpainted file
  | _ => .nothing

/-- What is printed, how the program ends and what is left when the image of some segments has been
asked for. -/
def imageOutcome (segments : List Segment) (stats : Option Stats) (name : List Char)
    (around : Surroundings) : Outcome :=
  match Image.draw segments name around with
  | .ok (file, surface) => ⟨.exit 0, [], stats, [wroteLine name], .image file surface⟩
  | .error e => ⟨.broken (.image e), [], stats, [], e.product⟩

namespace Options

/-- The text of the rules: from the file, if one is named, and otherwise from the command line,
where a line feed may be spelled out. -/
def readRules (o : Options) (around : Surroundings) : Except ProgramError (List Char) :=
  if o.isVoid .rulesFile then .error (.noValue .rulesFile) else
  match o.rulesFile with
  | none =>
    if o.isVoid .rules then .error (.noValue .rules) else .ok (Text.unescapeNewlines o.rulesText)
  | some path =>
    if !isPath path then .error .noPath
    else
      match around.read path with
      | .error e => .error (.file path e)
      | .ok content =>
        match String.fromUTF8? content with
        | none => .error .noText
        | some text => .ok (Text.normalizeLineEnds text.toList)

def config (o : Options) (around : Surroundings) : Except ProgramError Config :=
  match o.readRules around with
  | .error e => .error e
  | .ok rulesText => (Config.make (o.settings rulesText)).mapError .config

def limit (o : Options) : Limit := if o.isVoid .maxLength then .void else .atMost o.maxLength

/-- Whether there are too many segments to be put out. -/
def skips (o : Options) (count : Nat) : Bool := decide (0 ≤ o.maxSegments ∧ o.maxSegments < count)

def skipLine (o : Options) : List Char :=
  "...maximum of ".toList ++ Number.intText o.maxSegments ++
    " segments exceeded, skipping output!".toList

/-- The delay between batches in seconds. -/
def delaySeconds (o : Options) : Float := o.delay / 1000

/-- Shows the configuration in a window, where it is drawn anew. -/
def showWindow (o : Options) (c : Config) (stats : Stats) (events : Schedule WindowEvent) :
    Outcome :=
  let session := Session.shown c o.modeValue (.whole o.batch) (.real o.delaySeconds) o.limit events
  let ending := match session.failure with
    | some e => .broken (.session e)
    | none => .exit 0
  ⟨ending, [], some stats, session.printed.toList, .window session⟩

/-- What becomes of a drawing. -/
def deliver (o : Options) (c : Config) (segments : List Segment) (stats : Stats)
    (around : Surroundings) (events : Schedule WindowEvent) : Outcome :=
  if o.isVoid .maxSegments then .brokenAfter stats (.noValue .maxSegments)
  else if o.skips segments.length then ⟨.exit 0, [], some stats, [o.skipLine], .nothing⟩
  else if o.textOnly then ⟨.exit 0, [], some stats, [wroteLine tableName], .table segments⟩
  else if o.isVoid .image then
    .brokenAfter stats
      (if (Image.paint segments around.paintsAtOnce).1.isOk then .noValue .image else .image .notFinite)
  else
    match o.image with
    | some name => imageOutcome segments (some stats) name around
    | none => o.showWindow c stats events

/-- Draws and delivers what the options ask for. -/
def run (o : Options) (around : Surroundings) (events : Schedule WindowEvent) : Outcome :=
  match o.config around with
  | .error e => .failed e
  | .ok c =>
    match c.draw o.limit with
    | .error e => .failed (.drawing e)
    | .ok (segments, stats) => o.deliver c segments stats around events

/-- The greatest number of segments is not left out, and there are no more. -/
structure Admits (o : Options) (count : Nat) : Prop where
  given : o.isVoid .maxSegments = false
  few : ¬ (0 ≤ o.maxSegments ∧ o.maxSegments < count)

section Outcomes

variable {o : Options} {c : Config} {segments : List Segment} {stats : Stats}
  {around : Surroundings} {events : Schedule WindowEvent}

/-! What becomes of a drawing, in each of the cases. -/

theorem deliver_of_void (hvoid : o.isVoid .maxSegments = true) :
    o.deliver c segments stats around events = .brokenAfter stats (.noValue .maxSegments) := by
  rw [deliver, if_pos hvoid]

theorem deliver_of_many (hgiven : o.isVoid .maxSegments = false)
    (hmany : 0 ≤ o.maxSegments ∧ o.maxSegments < segments.length) :
    o.deliver c segments stats around events =
      ⟨.exit 0, [], some stats, [o.skipLine], .nothing⟩ := by
  have hskips : o.skips segments.length = true := decide_eq_true hmany
  rw [deliver, if_neg (Bool.eq_false_iff.1 hgiven), if_pos hskips]

theorem Admits.skips_eq_false {count : Nat} (h : o.Admits count) : o.skips count = false :=
  decide_eq_false h.few

theorem deliver_table (h : o.Admits segments.length) (htable : o.textOnly = true) :
    o.deliver c segments stats around events =
      ⟨.exit 0, [], some stats, [wroteLine tableName], .table segments⟩ := by
  rw [deliver, h.given, h.skips_eq_false, htable]
  rfl

theorem deliver_voidImage (h : o.Admits segments.length) (htable : o.textOnly = false)
    (hvoid : o.isVoid .image = true) :
    o.deliver c segments stats around events = .brokenAfter stats
      (if (Image.paint segments around.paintsAtOnce).1.isOk then .noValue .image else .image .notFinite) := by
  rw [deliver, h.given, h.skips_eq_false, htable, hvoid]
  rfl

theorem deliver_image {name : List Char} (h : o.Admits segments.length)
    (htable : o.textOnly = false) (hgiven : o.isVoid .image = false)
    (himage : o.image = some name) :
    o.deliver c segments stats around events =
      imageOutcome segments (some stats) name around := by
  rw [deliver, h.given, h.skips_eq_false, htable, hgiven, himage]
  rfl

theorem deliver_window (h : o.Admits segments.length) (htable : o.textOnly = false)
    (hgiven : o.isVoid .image = false) (himage : o.image = none) :
    o.deliver c segments stats around events = o.showWindow c stats events := by
  rw [deliver, h.given, h.skips_eq_false, htable, hgiven, himage]
  rfl

theorem run_of_config_error {e : ProgramError} (hc : o.config around = .error e) :
    o.run around events = .failed e := by
  rw [run, hc]

theorem run_of_draw_error {e : DrawingError} (hc : o.config around = .ok c)
    (he : c.draw o.limit = .error e) :
    o.run around events = if e.isReport then .silent 2 ("error: ".toList ++ e.message)
      else ⟨.broken (.drawing e), [], none, [], .nothing⟩ := by
  rw [run, hc]
  dsimp only
  rw [he]
  dsimp only
  rw [Outcome.failed, ProgramError.report?]
  cases e.isReport <;> rfl

theorem run_of_draw_ok {drawn : List Segment × Stats}
    (hc : o.config around = .ok c) (hdraw : c.draw o.limit = .ok drawn) :
    o.run around events = o.deliver c drawn.1 drawn.2 around events := by
  rw [run, hc]
  dsimp only
  rw [hdraw]

end Outcomes

end Options

namespace Program

def name : List Char := "lsystem-grow".toList

/-- Runs the program under a name with the given arguments; `events` says what happens while its
window waits. -/
def run (name : List Char) (arguments : List (List Char)) (around : Surroundings)
    (events : Schedule WindowEvent) : Outcome :=
  match Options.ofArguments arguments with
  | .error .help => .silent 0 []
  | .error (.usage e) => .silent 2 (name ++ ": error: ".toList ++ e.message)
  | .error (.noValue key) => .failed (.noValue key)
  | .ok o => o.run around events

/-- Draws the image of the segments that a text holds; the name of the image is the default one. -/
def plot (text : List Char) (around : Surroundings) : Option Outcome :=
  (Segment.ofText? text).map fun segments => imageOutcome segments none Image.defaultName around

end Program

end Lindenmayer
