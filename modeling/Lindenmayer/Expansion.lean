import Lindenmayer.Number.Decimal
import Lindenmayer.Rules.Table

/-!
# Expansion

A generation replaces every symbol of a word at once. Expansion repeats this a given number of
times; it stops early at a word that a generation leaves unchanged, and fails at the first
generation whose word is longer than the limit, if there is one.
-/
namespace Lindenmayer

/-- The word of a generation is too long. -/
structure Overgrowth where
  limit : Int
  generation : Nat
  iterations : Int
  deriving DecidableEq

/-- Whether the error can say which word is too long. One that cannot is a failure of its own. -/
def Overgrowth.isReport (e : Overgrowth) : Bool :=
  Number.isWritable e.limit && Number.isWritable e.generation && Number.isWritable e.iterations

def Overgrowth.message (e : Overgrowth) : List Char :=
  if e.isReport then
    "expansion exceeds ".toList ++ Number.intText e.limit ++ " symbols after ".toList ++
      Number.intText e.generation ++ " of ".toList ++ Number.intText e.iterations ++
      " iterations".toList
  else Number.tooLong

theorem Overgrowth.message_of_not_isReport {e : Overgrowth} (h : e.isReport = false) :
    e.message = Number.tooLong := by
  rw [message, if_neg (Bool.eq_false_iff.1 h)]

/-- The limit that a word exceeds, if it does. -/
def exceeded? (limit : Option Int) (w : Word) : Option Int :=
  limit.filter fun m => decide (m < (w.length : Int))

namespace RuleTable

/-- One generation. -/
def substitute (t : RuleTable) (w : Word) : Word := w.flatMap t.replace

/-- The words of `remaining` more generations after `done` of them. -/
def grow (t : RuleTable) (limit : Option Int) (iterations : Int) :
    (remaining done : Nat) → Word → Except Overgrowth Word
  | 0, _, w => .ok w
  | remaining + 1, done, w =>
    let next := t.substitute w
    if next = w then .ok w
    else match exceeded? limit next with
      | some m => .error ⟨m, done + 1, iterations⟩
      | none => grow t limit iterations remaining (done + 1) next

/-- A negative number of iterations is none. -/
def expand (t : RuleTable) (limit : Option Int) (iterations : Int) (start : Word) :
    Except Overgrowth Word :=
  t.grow limit iterations iterations.toNat 0 start

theorem substitute_nil (t : RuleTable) : t.substitute [] = [] := rfl

theorem substitute_append (t : RuleTable) (u v : Word) :
    t.substitute (u ++ v) = t.substitute u ++ t.substitute v := by
  simp [substitute]

end RuleTable

end Lindenmayer
