import Lindenmayer.CommandLine.Arguments
import Lindenmayer.Gallery
import Lindenmayer.Session.State

/-!
# Options of the program

What the command line asks for. Options are read from left to right and the last of equal ones
wins; the first fault found ends the reading, and the request for help does so too. An option whose
value is left out is remembered as void. Where a value of any kind may stand it has an empty list,
text becomes empty, and a use that needs more than that fails.
-/
namespace Lindenmayer

inductive OptionKey where
  | help
  | iterations
  | start
  | rules
  | rulesFile
  | angle
  | step
  | pen
  | mode
  | batch
  | delay
  | maxSegments
  | maxLength
  | textOnly
  | image
  deriving DecidableEq

namespace OptionKey

def form (key : OptionKey) (names : List String) (takesValue : Bool) : OptionForm OptionKey :=
  ⟨key, names.map String.toList, takesValue⟩

/-- The options of the program in the order in which they are listed. -/
def forms : List (OptionForm OptionKey) := [
  form help ["-h", "--help"] false,
  form iterations ["-n"] true,
  form start ["--axiom"] true,
  form rules ["--rules"] true,
  form rulesFile ["--rules-file"] true,
  form angle ["--angle"] true,
  form step ["--step"] true,
  form pen ["--draw-chars"] true,
  form mode ["--mode"] true,
  form batch ["--batch"] true,
  form delay ["--delay"] true,
  form maxSegments ["-x"] true,
  form maxLength ["--max-length"] true,
  form textOnly ["-t"] false,
  form image ["-o"] true]

end OptionKey

/-- What the place for a word is called. -/
def wordLabel : List Char := "LSYSTEM".toList

/-- One line that lists the options and the word. -/
def usageLine (program : List Char) : List Char :=
  Text.joinWith ' ' ("usage:".toList :: program ::
    OptionKey.forms.map (fun f => '[' :: f.label ++ [']']) ++ ['[' :: wordLabel ++ [']']])

/-- Why a command line is refused. -/
inductive UsageError where
  | arguments (e : ArgumentFault OptionKey)
  | notWhole (label value : List Char)
  | notReal (label value : List Char)
  | notAmong (label value : List Char) (choices : List (List Char))
  | leftOver (others : List (List Char))
  | batchBelowOne
  | negativeDelay

namespace UsageError

def about (label text : List Char) : List Char := "argument ".toList ++ label ++ ':' :: ' ' :: text

def message : UsageError → List Char
  | arguments (.ambiguous argument names) =>
    "ambiguous option: ".toList ++ argument ++ " could match ".toList ++ Value.separated names
  | arguments (.missingValue form) => about form.label "expected one argument".toList
  | arguments (.ignoredValue form value) =>
    about form.label ("ignored explicit argument ".toList ++ Text.quote value)
  | notWhole label value => about label ("invalid int value: ".toList ++ Text.quote value)
  | notReal label value => about label ("invalid float value: ".toList ++ Text.quote value)
  | notAmong label value choices =>
    about label ("invalid choice: ".toList ++ Text.quote value ++ " (choose from ".toList ++
      Value.separated (choices.map Text.quote) ++ [')'])
  | leftOver others => "unrecognized arguments: ".toList ++ Text.joinWith ' ' others
  | batchBelowOne => "--batch must be at least 1".toList
  | negativeDelay => "--delay must be >= 0".toList

end UsageError

/-- Why the reading of options ends without options. -/
inductive Stop where
  | help
  | usage (e : UsageError)
  /-- The option is void and needs a value. -/
  | noValue (key : OptionKey)

structure Options where
  preset : Option Preset
  iterations : Int
  start : List Char
  rulesText : List Char
  rulesFile : Option (List Char)
  angle : Option Float
  step : Float
  pen : Option Pen
  mode : Mode
  batch : Int
  /-- In milliseconds. -/
  delay : Float
  /-- A negative number sets no limit. -/
  maxSegments : Int
  maxLength : Int
  textOnly : Bool
  image : Option (List Char)
  /-- The options whose latest occurrence left out the value. -/
  void : List OptionKey

namespace Options

/-- What an empty command line asks for. -/
def default : Options where
  preset := none
  iterations := 4
  start := Config.defaultStart
  rulesText := "F=F[+F]F[-F]F".toList
  rulesFile := none
  angle := none
  step := 8
  pen := none
  mode := .grow
  batch := 1
  delay := 10
  maxSegments := 100000
  maxLength := Config.defaultMaxLength
  textOnly := false
  image := none
  void := []

def isVoid (o : Options) (key : OptionKey) : Bool := o.void.contains key

def whole (label value : List Char) : Except UsageError Int :=
  match Number.readInt? value with
  | some i => .ok i
  | none => .error (.notWhole label value)

def real (label value : List Char) : Except UsageError Float :=
  match Number.readFloat? value with
  | some x => .ok x
  | none => .error (.notReal label value)

def modeNamed (label value : List Char) : Except UsageError Mode :=
  match Mode.ofValue? (.text value) with
  | some m => .ok m
  | none => .error (.notAmong label value (Mode.all.map Mode.name))

def withPreset (o : Options) (name : List Char) : Except UsageError Options :=
  match Preset.find? name with
  | some p => .ok { o with preset := some p }
  | none => .error (.notAmong wordLabel name (Preset.all.map Preset.name))

/-- The options changed by one that takes a value. -/
def withValue (o : Options) (form : OptionForm OptionKey) (v : List Char) :
    Except UsageError Options :=
  let label := form.label
  match form.option with
  | .iterations => (whole label v).map fun i => { o with iterations := i }
  | .start => .ok { o with start := v }
  | .rules => .ok { o with rulesText := v }
  | .rulesFile => .ok { o with rulesFile := some v }
  | .angle => (real label v).map fun x => { o with angle := some x }
  | .step => (real label v).map fun x => { o with step := x }
  | .pen => .ok { o with pen := some (.only v) }
  | .mode => (modeNamed label v).map fun m => { o with mode := m }
  | .batch => (whole label v).map fun i => { o with batch := i }
  | .delay => (real label v).map fun x => { o with delay := x }
  | .maxSegments => (whole label v).map fun i => { o with maxSegments := i }
  | .maxLength => (whole label v).map fun i => { o with maxLength := i }
  | .image => .ok { o with image := some v }
  | .help => .ok o
  | .textOnly => .ok o

/-- The options changed by one that takes no value. -/
def withFlag (o : Options) (form : OptionForm OptionKey) : Except Stop Options :=
  match form.option with
  | .help => .error .help
  | .textOnly => .ok { o with textOnly := true }
  | _ => .ok o

/-- An option counts as void until it occurs again with a value. -/
def leaveOut (o : Options) (key : OptionKey) : Options := { o with void := key :: o.void }

def withSetting (o : Options) (form : OptionForm OptionKey) (v : List Char) :
    Except UsageError Options :=
  { o with void := o.void.filter (· ≠ form.option) }.withValue form v

/-- The options changed by the items of a command line, and the arguments left over. -/
def readItems (o : Options) :
    List (Item OptionKey) → Except Stop (Options × List (List Char))
  | [] => .ok (o, [])
  | .flag form :: rest => do readItems (← o.withFlag form) rest
  | .setting form v :: rest => do readItems (← (o.withSetting form v).mapError .usage) rest
  | .void form :: rest => readItems (o.leaveOut form.option) rest
  | .word name :: rest => do readItems (← (o.withPreset name).mapError .usage) rest
  | .leftOver s :: rest => (readItems o rest).map fun (o, others) => (o, s :: others)
  | .fault e :: _ => .error (.usage (.arguments e))

/-- What must hold of the options as a whole. -/
def check (o : Options) (leftOver : List (List Char)) : Except Stop Options :=
  if !leftOver.isEmpty then .error (.usage (.leftOver leftOver))
  else if o.isVoid .batch then .error (.noValue .batch)
  else if o.batch < 1 then .error (.usage .batchBelowOne)
  else if o.isVoid .delay then .error (.noValue .delay)
  else if o.delay < 0 then .error (.usage .negativeDelay)
  else .ok o

/-- The options that a command line asks for. -/
def ofArguments (arguments : List (List Char)) : Except Stop Options := do
  let (o, leftOver) ← default.readItems (Item.ofArguments OptionKey.forms arguments)
  o.check leftOver

/-- The turn in degrees if neither an option nor a preset sets it. -/
def defaultAngle : Int := 25

/-- What a void option holds where a value of any kind may stand, and the given value otherwise. -/
def valueUnlessVoid (o : Options) (key : OptionKey) (v : Value) : Value :=
  if o.isVoid key then .list [] else v

def angleValue? (o : Options) : Option Value :=
  if o.isVoid .angle then some (.list []) else o.angle.map fun x => .number (.real x)

def penGiven? (o : Options) : Option Pen := if o.isVoid .pen then some (.only []) else o.pen

def modeValue (o : Options) : Value := o.valueUnlessVoid .mode (.text o.mode.name)

/-- The settings to draw with, given the text of the rules. A preset keeps its start word and its
rules. -/
def settings (o : Options) (rulesText : List Char) : Settings :=
  let iterations := o.valueUnlessVoid .iterations (.number (.whole o.iterations))
  let step := o.valueUnlessVoid .step (.number (.real o.step))
  match o.preset with
  | some p => p.settings iterations o.angleValue? step o.penGiven?
  | none => {
      start := if o.isVoid .start then none else some o.start
      rulesText := some rulesText
      iterations := iterations
      angle := o.angleValue?.getD (.number (.whole defaultAngle))
      step := step
      pen := o.penGiven?.getD Config.defaultPen }

end Options

end Lindenmayer
