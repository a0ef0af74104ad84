/-!
# Rule tables

A rule table maps symbols to replacement words. Keys are words of any length, but only a key of
one symbol can ever match, because words are expanded symbol by symbol. A later entry for a key
hides an earlier one; a symbol without a rule stands for itself.
-/
namespace Lindenmayer

abbrev Word := List Char

/-- The entries, newest first. -/
structure RuleTable where
  entries : List (Word × Word)

namespace RuleTable

def empty : RuleTable := ⟨[]⟩

def insert (t : RuleTable) (key replacement : Word) : RuleTable := ⟨(key, replacement) :: t.entries⟩

def ofList (entries : List (Word × Word)) : RuleTable := ⟨entries.reverse⟩

def get? (t : RuleTable) (key : Word) : Option Word :=
  (t.entries.find? fun e => e.1 == key).map Prod.snd

/-- The word that takes the place of a symbol. -/
def replace (t : RuleTable) (c : Char) : Word := (t.get? [c]).getD [c]

/-- The entries of the table that no newer one hides. -/
def visible (entries : List (Word × Word)) : List (Word × Word) :=
  match entries with
  | [] => []
  | e :: rest => e :: (visible rest).filter fun f => f.1 != e.1

/-- Words ordered by their first difference, a word before its continuations. -/
def wordLe : Word → Word → Bool
  | [], _ => true
  | _ :: _, [] => false
  | a :: s, b :: t => a.toNat < b.toNat || (a == b && wordLe s t)

def insertInOrder (e : Word × Word) : List (Word × Word) → List (Word × Word)
  | [] => [e]
  | f :: rest => if wordLe e.1 f.1 then e :: f :: rest else f :: insertInOrder e rest

/-- The rules in force, in the order of their keys. -/
def toList (t : RuleTable) : List (Word × Word) := (visible t.entries).foldr insertInOrder []

theorem get?_empty (key : Word) : empty.get? key = none := rfl

theorem get?_insert (t : RuleTable) (key replacement other : Word) :
    (t.insert key replacement).get? other = if key = other then some replacement else t.get? other := by
  by_cases h : key = other
  · simp [get?, insert, h]
  · simp [get?, insert, h]

theorem replace_of_get?_eq_none {t : RuleTable} {c : Char} (h : t.get? [c] = none) :
    t.replace c = [c] := by
  simp [replace, h]

end RuleTable

end Lindenmayer
