import Lindenmayer.Expansion
import Lindenmayer.Rules.Text
import Lindenmayer.Turtle.Drawing
import Lindenmayer.Value

/-!
# Configurations

What to draw: a start word, rules as text, a number of iterations, a turn, a step and a pen. The
three numbers may arrive as any value; they are checked in a fixed order, and the first that
cannot be used is reported.
-/
namespace Lindenmayer

structure Config where
  start : Word
  rulesText : List Char
  iterations : Nat
  /-- The turn in degrees. -/
  angle : Float
  step : Float
  pen : Pen

/-- The settings that are numbers. -/
inductive Setting where
  | iterations
  | angle
  | step
  deriving DecidableEq

def Setting.name : Setting → String
  | iterations => "iterations"
  | angle => "angle"
  | step => "step"

/-- Why a setting is refused. -/
inductive SettingFault where
  /-- A truth value is no number of anything. -/
  | truthValue
  | noNumber (given : Value)
  /-- It is no number, and it cannot be repeated in a message. -/
  | unwritable
  | notFinite
  | negativeOrFractional (x : Float)
  | notPositive (x : Float)

structure ConfigError where
  setting : Setting
  fault : SettingFault

def ConfigError.message (e : ConfigError) : List Char :=
  let about (text : List Char) := e.setting.name.toList ++ ' ' :: text
  match e.fault with
  | .truthValue => about "must be a number".toList
  | .noNumber given => about ("must be a number, got ".toList ++ given.written)
  | .unwritable => Number.tooLong
  | .notFinite => about "must be finite".toList
  | .negativeOrFractional x => about ("must be an integer >= 0, got ".toList ++ Number.floatText x)
  | .notPositive x => about ("must be > 0, got ".toList ++ Number.floatText x)

/-- Whether the error says which setting is refused and why. One that cannot do so is a failure of
its own. -/
def ConfigError.isReport (e : ConfigError) : Bool :=
  match e.fault with
  | .unwritable => false
  | _ => true

namespace Value

/-- The double that a value stands for: a number, or a text that spells one. -/
def toFloat? : Value → Option Float
  | number n => n.toFloat?
  | text s => Number.readFloat? s
  | _ => none

/-- The finite double that a setting stands for. -/
def toFinite (v : Value) : Except SettingFault Float :=
  match v with
  | number (.truth _) => .error .truthValue
  | v =>
    match v.toFloat? with
    | none => .error (if v.isWritable then .noNumber v else .unwritable)
    | some x => if x.isFinite then .ok x else .error .notFinite

/-- The natural number that a setting stands for. -/
def toCount (v : Value) : Except SettingFault Nat :=
  match v.toFinite with
  | .error e => .error e
  | .ok x =>
    match Number.Binary64.ofFloat x with
    | .finite d =>
      if x < 0 ∨ ¬ d.IsWhole then .error (.negativeOrFractional x) else .ok d.truncate.toNat
    | _ => .error .notFinite

/-- The positive double that a setting stands for. -/
def toPositive (v : Value) : Except SettingFault Float :=
  match v.toFinite with
  | .error e => .error e
  | .ok x => if x ≤ 0 then .error (.notPositive x) else .ok x

end Value

/-- A configuration as it is asked for. -/
structure Settings where
  start : Option (List Char)
  rulesText : Option (List Char)
  iterations : Value
  angle : Value
  step : Value
  pen : Pen

namespace Config

/-- The symbols that draw if nothing else is said. -/
def defaultPen : Pen := .only ['A', 'B', 'F']

def defaultStart : Word := ['F']

/-- The greatest length of a word if nothing else is said. -/
def defaultMaxLength : Int := 2000000

/-- The given start word without white space at its ends, or the default in place of none. -/
def startWord (given : Option (List Char)) : Word :=
  match Text.strip (given.getD []) with
  | [] => defaultStart
  | w => w

def named (setting : Setting) (r : Except SettingFault α) : Except ConfigError α :=
  r.mapError fun fault => ⟨setting, fault⟩

/-- The configuration that the settings ask for. -/
def make (s : Settings) : Except ConfigError Config := do
  let iterations ← named .iterations s.iterations.toCount
  let angle ← named .angle s.angle.toFinite
  let step ← named .step s.step.toPositive
  return {
    start := startWord s.start
    rulesText := s.rulesText.getD []
    iterations := iterations
    angle := angle
    step := step
    pen := s.pen }

/-- The settings that ask for a configuration, with a number of iterations of one's own. -/
def settings (c : Config) (iterations : Numeric) : Settings where
  start := some c.start
  rulesText := some c.rulesText
  iterations := .number iterations
  angle := .number (.real c.angle)
  step := .number (.real c.step)
  pen := c.pen

end Config

/-- The length of the expanded word and the number of segments drawn. -/
structure Stats where
  expandedLength : Nat
  segmentCount : Nat
  deriving DecidableEq

/-- How long a word may grow. -/
inductive Limit where
  | unlimited
  | atMost (length : Int)
  /-- An empty list stands in place of a number, so no word can be measured by it. -/
  | void
  deriving DecidableEq

/-- Why a configuration cannot be drawn. -/
inductive DrawingError where
  | rules (e : RuleError)
  | overgrown (e : Overgrowth)
  /-- A word was to be measured by a void limit. -/
  | unmeasured
  | disoriented (e : Disoriented)
  deriving DecidableEq

def DrawingError.message : DrawingError → List Char
  | rules e => e.message
  | overgrown e => e.message
  | unmeasured => "'>' not supported between instances of 'int' and 'list'".toList
  | disoriented e => e.message

/-- Whether the error is one that a user of the program can mend; any other breaks off what is going
on. -/
def DrawingError.isReport : DrawingError → Bool
  | rules _ => true
  | overgrown e => e.isReport
  | _ => false

namespace Limit

/-- The number that the length of a word is compared with. Every word is longer than minus one, so
each comparison with a void limit shows. -/
def bound : Limit → Option Int
  | unlimited => none
  | atMost n => some n
  | void => some (-1)

/-- What it means that a word has outgrown the bound. -/
def fault (limit : Limit) (e : Overgrowth) : DrawingError :=
  match limit with
  | void => .unmeasured
  | _ => .overgrown e

end Limit

namespace Config

def defaultLimit : Limit := .atMost defaultMaxLength

/-- The expanded word of a configuration. -/
def expand (c : Config) (limit : Limit) : Except DrawingError Word :=
  match RuleTable.ofText c.rulesText with
  | .error e => .error (.rules e)
  | .ok t => (t.expand limit.bound c.iterations c.start).mapError limit.fault

def gait (c : Config) : Gait := .ofDegrees c.step c.angle

/-- Reads the rules, expands the start word and follows the result. -/
def draw (c : Config) (limit : Limit) : Except DrawingError (List Segment × Stats) :=
  match c.expand limit with
  | .error e => .error e
  | .ok w =>
    match w.segments c.gait c.pen with
    | .error e => .error (.disoriented e)
    | .ok segments => .ok (segments, ⟨w.length, segments.length⟩)

theorem expand_error {c : Config} {limit : Limit} {e : DrawingError}
    (h : c.expand limit = .error e) :
    (∃ fault, e = .rules fault) ∨ ∃ overgrowth, e = limit.fault overgrowth := by
  rw [expand] at h
  split at h
  · next fault _ => exact Or.inl ⟨fault, (Except.error.inj h).symm⟩
  · next t _ =>
    cases hexpand : t.expand limit.bound c.iterations c.start with
    | ok w =>
      rw [hexpand] at h
      cases h
    | error overgrowth =>
      rw [hexpand] at h
      exact Or.inr ⟨overgrowth, (Except.error.inj h).symm⟩

theorem draw_ok_iff {c : Config} {limit : Limit} {segments : List Segment} {stats : Stats} :
    c.draw limit = .ok (segments, stats) ↔ ∃ w, c.expand limit = .ok w ∧
      w.segments c.gait c.pen = .ok segments ∧ stats = ⟨w.length, segments.length⟩ := by
  cases hw : c.expand limit with
  | error e => simp [draw, hw]
  | ok w =>
    cases hsegments : w.segments c.gait c.pen with
    | error e => simp [draw, hw, hsegments]
    | ok drawn =>
      simp only [draw, hw, hsegments, Except.ok.injEq, Prod.mk.injEq]
      constructor
      · rintro ⟨rfl, rfl⟩
        exact ⟨w, rfl, hsegments, rfl⟩
      · rintro ⟨_, rfl, h, rfl⟩
        obtain rfl := Except.ok.inj (hsegments.symm.trans h)
        exact ⟨rfl, rfl⟩

theorem draw_error_iff {c : Config} {limit : Limit} {e : DrawingError} :
    c.draw limit = .error e ↔ c.expand limit = .error e ∨
      ∃ w d, c.expand limit = .ok w ∧ w.segments c.gait c.pen = .error d ∧ e = .disoriented d := by
  cases hw : c.expand limit with
  | error e => simp [draw, hw]
  | ok w =>
    cases hsegments : w.segments c.gait c.pen with
    | error d =>
      simp only [draw, hw, hsegments, Except.error.injEq, reduceCtorEq, false_or]
      constructor
      · rintro rfl
        exact ⟨w, d, rfl, hsegments, rfl⟩
      · rintro ⟨_, _, hv, h, rfl⟩
        obtain rfl := Except.ok.inj hv
        rw [Except.error.inj (hsegments.symm.trans h)]
    | ok drawn => simp [draw, hw, hsegments]

end Config

end Lindenmayer
