import Lindenmayer.Text.Digit
import Lindenmayer.Text.Lines

/-!
# Arguments of a command line

An argument is a word or begins with dashes and names an option. An option of one letter may have
its value attached and may be packed into one argument with others; a long name may be shortened as
long as it fits one option only. A value may be attached after an equals sign, which after one
letter that takes no value only leads to further letters. Two dashes alone make words of all that
follows, and attached to an option they leave it without its value. One word has a place; other
words and unknown options are left over.
-/
namespace Lindenmayer

/-- An option with its names, each with its dashes. -/
structure OptionForm (ο : Type) where
  option : ο
  names : List (List Char)
  takesValue : Bool

/-- What an argument is, whatever stands beside it. -/
inductive Token (ο : Type) where
  | word (s : List Char)
  /-- Two dashes alone. -/
  | dashes
  /-- An option and what is attached to its name; `short` says that the name has one dash, so that
  further options may be attached. -/
  | option (form : OptionForm ο) (short : Bool) (attached : Option (List Char))
  | unknown (s : List Char)

/-- Why arguments cannot be taken apart. -/
inductive ArgumentFault (ο : Type) where
  | ambiguous (argument : List Char) (names : List (List Char))
  | missingValue (form : OptionForm ο)
  | ignoredValue (form : OptionForm ο) (value : List Char)

/-- A part of the command line that can be acted upon. -/
inductive Item (ο : Type) where
  /-- An option that takes no value. -/
  | flag (form : OptionForm ο)
  | setting (form : OptionForm ο) (value : List Char)
  /-- An option whose value is left out. -/
  | void (form : OptionForm ο)
  | word (s : List Char)
  | leftOver (s : List Char)
  /-- Nothing follows a fault. -/
  | fault (e : ArgumentFault ο)

namespace OptionForm

variable {ο : Type}

def named? (forms : List (OptionForm ο)) (name : List Char) : Option (OptionForm ο) :=
  forms.find? fun f => f.names.contains name

/-- The names of an option as messages show them. -/
def label (form : OptionForm ο) : List Char := Text.joinWith '/' form.names

/-- The names that begin with the given characters, in order. -/
def completions (forms : List (OptionForm ο)) (start : List Char) :
    List (OptionForm ο × List Char) :=
  forms.flatMap fun f => (f.names.filter fun name => start.isPrefixOf name).map fun name => (f, name)

end OptionForm

namespace Token

variable {ο : Type}

def twoDashes : List Char := ['-', '-']

def isLong (name : List Char) : Bool := twoDashes.isPrefixOf name

/-- The part before the first equals sign and, if there is one, the part after it. -/
def cutAttached (argument : List Char) : List Char × Option (List Char) :=
  match Text.cutAt? '=' argument with
  | none => (argument, none)
  | some (name, value) => (name, some value)

/-- The names that an argument may shorten, or the one-letter option that it begins with. -/
def candidates (forms : List (OptionForm ο)) (argument : List Char) :
    List (List Char × Token ο) :=
  if isLong argument then
    let (start, attached) := cutAttached argument
    (OptionForm.completions forms start).map fun (form, name) =>
      (name, .option form false attached)
  else
    let name := argument.take 2
    match OptionForm.named? forms name with
    | none => []
    | some form => [(name, .option form true (some (argument.drop 2)))]

/-- Digits with at most one point, which stands before the last of them. -/
def isUnsignedNumber (s : List Char) : Bool :=
  match s.dropWhile Text.isDigit with
  | [] => !s.isEmpty
  | '.' :: fraction => !fraction.isEmpty && fraction.all Text.isDigit
  | _ => false

def dropFinalNewline (s : List Char) : List Char :=
  if s.getLast? = some '\n' then s.dropLast else s

/-- A minus sign and a number without an exponent, which is a word. -/
def isNegativeNumber : List Char → Bool
  | '-' :: rest => isUnsignedNumber rest || isUnsignedNumber (dropFinalNewline rest)
  | _ => false

example : isNegativeNumber ['-', '.', '5'] = true := by decide +kernel

example : isNegativeNumber ['-', '1', 'e', '2'] = false := by decide +kernel

/-- What an argument is that begins with a dash and is neither a name nor one dash. -/
def ofDashed (forms : List (OptionForm ο)) (argument : List Char) :
    Except (ArgumentFault ο) (Token ο) :=
  let (start, attached) := cutAttached argument
  match if attached.isSome then OptionForm.named? forms start else none with
  | some form => .ok (.option form (!isLong start) attached)
  | none =>
    match candidates forms argument with
    | [(_, token)] => .ok token
    | [] =>
      if isNegativeNumber argument || argument.contains ' ' then .ok (.word argument)
      else .ok (.unknown argument)
    | several => .error (.ambiguous argument (several.map Prod.fst))

def ofArgument (forms : List (OptionForm ο)) (argument : List Char) :
    Except (ArgumentFault ο) (Token ο) :=
  match argument with
  | '-' :: _ :: _ =>
    match OptionForm.named? forms argument with
    | some form => .ok (.option form (!isLong argument) none)
    | none => ofDashed forms argument
  | _ => .ok (.word argument)

/-- An ambiguous argument anywhere before two dashes is a fault of the whole command line. -/
def ofArguments (forms : List (OptionForm ο)) :
    List (List Char) → Except (ArgumentFault ο) (List (Token ο))
  | [] => .ok []
  | argument :: rest =>
    if argument = twoDashes then .ok (.dashes :: rest.map .word)
    else
      match ofArgument forms argument with
      | .error e => .error e
      | .ok t => (ofArguments forms rest).map (t :: ·)

end Token

namespace Item

variable {ο : Type}

/-- An option that takes a value, which is attached to it. -/
def ofAttached (form : OptionForm ο) (attached : List Char) : Item ο :=
  if attached = Token.twoDashes then .void form else .setting form attached

/-- The options in one argument, the first of them with the rest of the argument attached. The
last one may still lack its value and is then returned apart. -/
def unpack (forms : List (OptionForm ο)) (form : OptionForm ο) (attached : List Char) :
    Except (ArgumentFault ο) (List (Item ο) × Option (OptionForm ο)) :=
  if form.takesValue then .ok ([ofAttached form attached], none)
  else
    match attached with
    | [] => .error (.ignoredValue form [])
    | c :: rest =>
      match OptionForm.named? forms ['-', c], rest with
      | none, rest => .error (.ignoredValue form (c :: rest))
      | some following, [] =>
        if following.takesValue then .ok ([.flag form], some following)
        else .ok ([.flag form, .flag following], none)
      | some following, d :: rest =>
        (unpack forms following (d :: rest)).map fun (done, last) => (.flag form :: done, last)

/-- The options of one argument, and the one among them that takes the next word as its value. -/
def ofOption (forms : List (OptionForm ο)) (form : OptionForm ο) (short : Bool) :
    Option (List Char) → Except (ArgumentFault ο) (List (Item ο) × Option (OptionForm ο))
  | none => if form.takesValue then .ok ([], some form) else .ok ([.flag form], none)
  | some attached =>
    if short || form.takesValue then unpack forms form attached
    else .error (.ignoredValue form attached)

/-- The items of a command line; `free` says whether the place for a word is free. Two dashes next
to the word that has the place are passed over. -/
def ofTokens (forms : List (OptionForm ο)) (free : Bool) : List (Token ο) → List (Item ο)
  | [] => []
  | .unknown s :: rest => .leftOver s :: ofTokens forms free rest
  | .dashes :: rest =>
    if free then ofTokens forms true rest else .leftOver Token.twoDashes :: ofTokens forms false rest
  | .word s :: rest =>
    if free then
      match rest with
      | .dashes :: rest => .word s :: ofTokens forms false rest
      | rest => .word s :: ofTokens forms false rest
    else .leftOver s :: ofTokens forms false rest
  | .option form short attached :: rest =>
    match ofOption forms form short attached with
    | .error e => [.fault e]
    | .ok (done, none) => done ++ ofTokens forms free rest
    | .ok (done, some last) =>
      match rest with
      | .word v :: rest => done ++ .setting last v :: ofTokens forms free rest
      | _ => [.fault (.missingValue last)]

def ofArguments (forms : List (OptionForm ο)) (arguments : List (List Char)) : List (Item ο) :=
  match Token.ofArguments forms arguments with
  | .error e => [.fault e]
  | .ok tokens => ofTokens forms true tokens

end Item

end Lindenmayer
