/-!
# Schedules

What is to happen at the first, second, third … of a row of occasions. A schedule is finite: it
lists the occasions at which something happens, each after a number of quiet ones, and is used up
one occasion at a time.
-/
namespace Lindenmayer

/-- Each entry holds the number of quiet occasions before it and what happens then. -/
structure Schedule (α : Type) where
  entries : List (Nat × List α)

namespace Schedule

variable {α : Type}

def quiet : Schedule α := ⟨[]⟩

/-- What happens now, and the schedule from the next occasion on. -/
def next (s : Schedule α) : List α × Schedule α :=
  match s.entries with
  | [] => ([], s)
  | (0, items) :: rest => (items, ⟨rest⟩)
  | (n + 1, items) :: rest => ([], ⟨(n, items) :: rest⟩)

/-- How much is still to happen. -/
def weight (s : Schedule α) : Nat := s.entries.foldr (fun e n => e.2.length + n) 0

/-- Entries in order after occasion `last`, each with its own number, as gaps between them. -/
def gaps : (last : Nat) → List (Nat × List α) → List (Nat × List α)
  | _, [] => []
  | last, (n, items) :: rest =>
    if last < n then (n - last - 1, items) :: gaps n rest else gaps last rest

def insertInOrder (e : Nat × List α) : List (Nat × List α) → List (Nat × List α)
  | [] => [e]
  | f :: rest => if e.1 ≤ f.1 then e :: f :: rest else f :: insertInOrder e rest

/-- The schedule of occasions given with their numbers, the first being 1. -/
def ofNumbered (entries : List (Nat × List α)) : Schedule α :=
  ⟨gaps 0 (entries.foldr insertInOrder [])⟩

/-- The same schedule of other things. -/
def map {β : Type} (f : α → β) (s : Schedule α) : Schedule β :=
  ⟨s.entries.map fun e => (e.1, e.2.map f)⟩

/-- Nothing is lost or added when an occasion passes. -/
theorem weight_next (s : Schedule α) : s.next.1.length + s.next.2.weight = s.weight := by
  rcases s with ⟨_ | ⟨⟨_ | n, items⟩, rest⟩⟩ <;> simp [next, weight]

example : (ofNumbered [(3, ['b']), (1, ['a'])]).entries = [(0, ['a']), (1, ['b'])] := by
  decide +kernel

end Schedule

end Lindenmayer
