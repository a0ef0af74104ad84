/-!
# Sets of code points

A property of characters with many ranges is kept as the sorted list of its edges: the code
points at which membership changes, counted from "not a member" at zero. A code point belongs to
the set when an odd number of edges lie at or below it. Nothing is claimed here about where the
edges come from; each table module says which property it lists.
-/
namespace Lindenmayer.Text

structure CodeSet where
  edges : Array Nat

namespace CodeSet

/-- How many entries of the sorted `edges` are at most `n`, given that the answer lies between
`lo` and `hi`. Each round halves the interval, so `rounds` need not exceed the bit length of
its width. -/
def rankBetween (edges : Array Nat) (n : Nat) : (rounds lo hi : Nat) → Nat
  | 0, lo, _ => lo
  | rounds + 1, lo, hi =>
    if lo < hi then
      let mid := (lo + hi) / 2
      if edges.getD mid 0 ≤ n then rankBetween edges n rounds (mid + 1) hi
      else rankBetween edges n rounds lo mid
    else lo

/-- How many edges are at most `n`. -/
def rank (s : CodeSet) (n : Nat) : Nat :=
  rankBetween s.edges n (s.edges.size.log2 + 2) 0 s.edges.size

def contains (s : CodeSet) (c : Char) : Bool := s.rank c.toNat % 2 == 1

end CodeSet

/-- The edge itself is inside, the next edge outside. -/
example : ((CodeSet.mk #[10, 13, 20, 21]).rank 12, (CodeSet.mk #[10, 13, 20, 21]).rank 13) = (1, 2) := by
  decide

end Lindenmayer.Text
