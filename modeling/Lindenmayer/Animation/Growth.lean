import Lindenmayer.Value

/-!
# Growths

A growth draws a list of segments a batch at a time. It remembers how many it has drawn and whether
it was cancelled; between two batches it waits for one frame and the delay asked for.
-/
namespace Lindenmayer

/-- Why a growth cannot start or wait. -/
inductive GrowthError where
  | batchBelowOne (batch : Numeric)
  | negativeDelay (delay : Numeric)
  | batchNoNumber
  | batchInfinite
  /-- The delay exceeds every finite double. -/
  | delayTooLong

def GrowthError.message : GrowthError → List Char
  | batchBelowOne batch => Value.said "batch must be at least 1, got ".toList (.number batch)
  | negativeDelay delay => Value.said "delay must be >= 0, got ".toList (.number delay)
  | batchNoNumber => "cannot convert float NaN to integer".toList
  | batchInfinite => "cannot convert float infinity to integer".toList
  | delayTooLong => Numeric.tooLarge

/-- The length of a frame in seconds, at sixty frames a second. -/
def frameInterval : Float := 1 / 60

structure Growth (σ : Type) where
  segments : Array σ
  batch : Numeric
  delay : Numeric
  cursor : Nat
  cancelled : Bool

namespace Growth

variable {σ : Type}

def new (segments : Array σ) (batch delay : Numeric) : Growth σ :=
  ⟨segments, batch, delay, 0, false⟩

def total (g : Growth σ) : Nat := g.segments.size

def done (g : Growth σ) : Bool := decide (g.total ≤ g.cursor)

def remaining (g : Growth σ) : Nat := g.total - g.cursor

/-- The number of segments in a batch, never less than one. -/
def stride (g : Growth σ) : Nat :=
  match g.batch.int? with
  | some n => max 1 n.toNat
  | none => 1

/-- Where the cursor stands after the next batch. -/
def nextStop (g : Growth σ) : Nat := min (g.cursor + g.stride) g.total

/-- The segments from the cursor up to `stop`. -/
def slice (g : Growth σ) (stop : Nat) : Array σ := g.segments.extract g.cursor stop

/-- The seconds between two batches. -/
def gap? (g : Growth σ) : Option Float :=
  if g.delay.positive then g.delay.toFloat?.map (· + frameInterval) else some frameInterval

def written (g : Growth σ) : List Char :=
  "AnimationHandle(".toList ++ Number.intText g.cursor ++ '/' :: Number.intText g.total ++
    ", batch=".toList ++ g.batch.written ++ ", cancelled=".toList ++
    Numeric.truthText g.cancelled ++ [')']

theorem stride_pos (g : Growth σ) : 0 < g.stride := by
  unfold stride
  split <;> omega

theorem nextStop_le_total (g : Growth σ) : g.nextStop ≤ g.total := Nat.min_le_right _ _

/-- A batch that does not reach the end moves the cursor on. -/
theorem cursor_lt_nextStop {g : Growth σ} (h : g.nextStop < g.total) : g.cursor < g.nextStop := by
  have hs := g.stride_pos
  unfold nextStop at h ⊢
  omega

end Growth

end Lindenmayer
