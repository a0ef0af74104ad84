import Lindenmayer.Rules.Table
import Lindenmayer.Text.Blank
import Lindenmayer.Text.Lines
import Lindenmayer.Text.Quoted

/-!
# Rules as text

One rule a line: a symbol, an equals sign and its replacement. White space around either side is
dropped, as are blank lines and lines that begin with a number sign. The first line that is no
rule makes the whole text unreadable.
-/
namespace Lindenmayer

inductive RuleError where
  /-- No equals sign in the line. -/
  | noEquals (line : List Char)
  /-- What stands before the first equals sign is not one symbol. -/
  | notOneSymbol (left : List Char)
  deriving DecidableEq

def RuleError.message : RuleError → List Char
  | noEquals line => "bad rule line (expected X=...): ".toList ++ Text.quote line
  | notOneSymbol left => "rule LHS must be a single character: ".toList ++ Text.quote left

namespace RuleTable

/-- Neither blank nor a comment. -/
def isRuleLine (line : List Char) : Bool :=
  match line with
  | [] => false
  | c :: _ => c != '#'

/-- The lines of the text that must be rules, without white space at their ends. -/
def ruleLines (text : List Char) : List (List Char) :=
  ((Text.splitOn '\n' text).map Text.strip).filter isRuleLine

def readLine (line : List Char) : Except RuleError (Char × Word) :=
  match Text.cutAt? '=' line with
  | none => .error (.noEquals line)
  | some (left, right) =>
    match Text.strip left with
    | [c] => .ok (c, Text.strip right)
    | left => .error (.notOneSymbol left)

/-- Adds the rules of the lines to the table, one after the other. -/
def addLines : RuleTable → List (List Char) → Except RuleError RuleTable
  | t, [] => .ok t
  | t, line :: rest =>
    match readLine line with
    | .error e => .error e
    | .ok (c, replacement) => addLines (t.insert [c] replacement) rest

def ofText (text : List Char) : Except RuleError RuleTable :=
  addLines empty (ruleLines (Text.strip text))

/-- Entries as lines that `ofText` reads. -/
def write (entries : List (Word × Word)) : List Char :=
  Text.joinWith '\n' (entries.map fun e => e.1 ++ '=' :: e.2)

end RuleTable

end Lindenmayer
