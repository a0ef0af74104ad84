import Lindenmayer.Animation.Growth

/-!
# The stage

A picture made of strokes, the growths that ever drew on it, and the one that is live. Only the
live growth draws; starting another one or drawing everything at once cancels it first. A stage
keeps the record of what happened on it, each stroke with the growth that made it.
-/
namespace Lindenmayer

/-- The strokes on a surface, each a batch of segments. A stroke of no segments leaves none. -/
structure Picture (σ : Type) where
  strokes : Array (Array σ)

namespace Picture

variable {σ : Type}

def blank : Picture σ := ⟨#[]⟩

def stroke (p : Picture σ) (segments : Array σ) : Picture σ :=
  if segments.isEmpty then p else ⟨p.strokes.push segments⟩

def segmentCount (p : Picture σ) : Nat := p.strokes.foldl (fun n s => n + s.size) 0

/-- All segments in the order in which they were drawn. -/
def segments (p : Picture σ) : List σ := p.strokes.toList.flatMap Array.toList

end Picture

/-- What happens on a stage. -/
inductive Event (σ : Type) where
  | clear
  /-- Segments drawn by a growth, or all at once. -/
  | stroke (source : Option Nat) (segments : Array σ)
  | wait (growth : Nat) (seconds : Float)

/-- Growths are numbered in the order in which they were made. -/
structure Stage (σ : Type) where
  picture : Picture σ
  growths : Array (Growth σ)
  live : Option Nat
  log : Array (Event σ)

namespace Stage

variable {σ : Type}

def empty : Stage σ := ⟨Picture.blank, #[], none, #[]⟩

def record (s : Stage σ) (e : Event σ) : Stage σ := { s with log := s.log.push e }

def clear (s : Stage σ) : Stage σ := { s with picture := Picture.blank }.record .clear

def stroke (s : Stage σ) (source : Option Nat) (segments : Array σ) : Stage σ :=
  { s with picture := s.picture.stroke segments }.record (.stroke source segments)

def wait (s : Stage σ) (id : Nat) (seconds : Float) : Stage σ := s.record (.wait id seconds)

def cancel (s : Stage σ) (id : Nat) : Stage σ :=
  { s with growths := s.growths.modify id fun g => { g with cancelled := true } }

/-- The growth is no longer live, if it was. -/
def release (s : Stage σ) (id : Nat) : Stage σ :=
  if s.live = some id then { s with live := none } else s

/-- Cancels the live growth. -/
def stop (s : Stage σ) : Stage σ :=
  match s.live with
  | none => s
  | some id => { s.cancel id with live := none }

/-- A growth that this stage will never let draw. -/
def addDetached (s : Stage σ) (segments : Array σ) (batch delay : Numeric) : Stage σ :=
  { s with growths := s.growths.push (.new segments batch delay) }

/-- The whole part of a batch size. -/
def wholeBatch : Numeric → Except GrowthError Int
  | .truth b => .ok (if b then 1 else 0)
  | .whole i => .ok i
  | .real x =>
    match Number.Binary64.ofFloat x with
    | .nan => .error .batchNoNumber
    | .infinite _ => .error .batchInfinite
    | .finite d => .ok d.truncate

/-- Wipes the picture for a new growth, which becomes live. A batch size that has no whole part
is noticed only after the live growth was cancelled and the picture wiped. -/
def start (s : Stage σ) (segments : Array σ) (batch delay : Numeric) :
    Except GrowthError Nat × Stage σ :=
  if batch.below 1 then (.error (.batchBelowOne batch), s)
  else if delay.below 0 then (.error (.negativeDelay delay), s)
  else
    let s := s.stop.clear
    match wholeBatch batch with
    | .error e => (.error e, s)
    | .ok n =>
      let id := s.growths.size
      (.ok id, { s.addDetached segments (.whole n) delay with live := some id })

/-- Draws everything in one stroke. -/
def drawAll (s : Stage σ) (segments : Array σ) : Stage σ := s.stop.clear.stroke none segments

/-- Draws the next batch of a growth and says where its cursor will then stand. A growth that is
cancelled or not live draws nothing. -/
def openTick (s : Stage σ) (id : Nat) : Option Nat × Stage σ :=
  match s.growths[id]? with
  | none => (none, s)
  | some g =>
    if g.cancelled = true ∨ s.live ≠ some id then (none, s.release id)
    else (some g.nextStop, s.stroke (some id) (g.slice g.nextStop))

/-- Moves the cursor after a batch; the answer is whether another one should follow. -/
def closeTick (s : Stage σ) (id stop : Nat) : Bool × Stage σ :=
  let s := { s with growths := s.growths.modify id fun g => { g with cursor := stop } }
  match s.growths[id]? with
  | none => (false, s)
  | some g => if g.done || g.cancelled then (false, s.release id) else (true, s)

/-- The segments that the growth has yet to draw. -/
def remaining (s : Stage σ) (id : Nat) : Nat :=
  match s.growths[id]? with
  | none => 0
  | some g => g.remaining

/-- The growth has drawn everything and was not cancelled. -/
def hasGrown (s : Stage σ) (id : Nat) : Bool :=
  match s.growths[id]? with
  | none => false
  | some g => g.done && !g.cancelled

theorem growths_release (s : Stage σ) (id : Nat) : (s.release id).growths = s.growths := by
  unfold release
  split <;> rfl

/-- A tick that another one should follow stops before the end. -/
theorem exists_of_closeTick {s t : Stage σ} {id stop : Nat}
    (h : s.closeTick id stop = (true, t)) :
    ∃ g, s.growths[id]? = some g ∧ stop < g.total ∧
      t.growths[id]? = some { g with cursor := stop } := by
  unfold closeTick at h
  dsimp only at h
  split at h
  · simp at h
  · next g hg =>
    rw [Array.getElem?_modify] at hg
    split at h
    · simp at h
    · next hdone =>
      obtain ⟨_, rfl⟩ := Prod.mk.inj h
      simp only [if_true] at hg
      obtain ⟨g', hg', rfl⟩ := Option.map_eq_some_iff.1 hg
      refine ⟨g', hg', ?_, ?_⟩
      · simp only [Growth.done, Growth.total, Bool.or_eq_true, not_or] at hdone
        exact Nat.lt_of_not_le fun hle => hdone.1 (decide_eq_true hle)
      · simp [Array.getElem?_modify, hg']

theorem exists_of_openTick {s t : Stage σ} {id stop : Nat}
    (h : s.openTick id = (some stop, t)) :
    ∃ g, s.growths[id]? = some g ∧ stop = g.nextStop ∧ t.growths = s.growths := by
  unfold openTick at h
  split at h
  · simp at h
  · next g hg =>
    split at h
    · simp at h
    · obtain ⟨hstop, rfl⟩ := Prod.mk.inj h
      exact ⟨g, hg, (Option.some.inj hstop).symm, rfl⟩

end Stage

end Lindenmayer
