import Lindenmayer.Config
import Lindenmayer.Proofs.Number.Range

/-!
# The heading of a turtle

Whether a turtle can follow a word depends on its heading alone: it fails exactly at a symbol that
draws when the symbols before it have made the heading infinite. Where a turtle stands does not
matter, so headings are followed here on their own. Every turn adds or subtracts the same angle, and
an angle below `2 ^ 970` never takes a finite heading out of the range of doubles, however many
turns a word makes.
-/
namespace Lindenmayer

open Number.Binary64

/-- The heading of a turtle and the headings it has saved, the latest first. -/
structure Compass where
  heading : Float
  saved : List Float

namespace Compass

def initial : Compass := ⟨Pose.initial.heading, []⟩

/-- What an action does to the headings. -/
def steer (g : Gait) (c : Compass) : Action → Compass
  | .right => { c with heading := c.heading + g.turn }
  | .left => { c with heading := c.heading - g.turn }
  | .save => { c with saved := c.heading :: c.saved }
  | .restore =>
    match c.saved with
    | [] => c
    | heading :: saved => ⟨heading, saved⟩
  | .draw => c
  | .ignore => c

variable (g : Gait) (pen : Pen)

/-- The headings after a word. -/
def after (c : Compass) (w : Word) : Compass := w.foldl (fun c x => c.steer g (pen.action x)) c

/-- Some symbol of the word draws, and the symbols before it make the heading infinite. -/
def Fails (c : Compass) (w : Word) : Prop :=
  ∃ u x v, w = u ++ x :: v ∧ pen.action x = .draw ∧ (c.after g pen u).heading.isInf = true

theorem not_fails_nil (c : Compass) : ¬ c.Fails g pen [] := by
  rintro ⟨u, x, v, h, -⟩
  simp at h

theorem fails_cons_iff (c : Compass) (x : Char) (w : Word) :
    c.Fails g pen (x :: w) ↔
      (pen.action x = .draw ∧ c.heading.isInf = true) ∨
        (c.steer g (pen.action x)).Fails g pen w := by
  constructor
  · rintro ⟨u, y, v, hw, hdraw, hinf⟩
    cases u with
    | nil =>
      obtain ⟨rfl, rfl⟩ := List.cons.inj hw
      exact Or.inl ⟨hdraw, hinf⟩
    | cons z u =>
      obtain ⟨rfl, rfl⟩ := List.cons.inj hw
      exact Or.inr ⟨u, y, v, rfl, hdraw, hinf⟩
  · rintro (⟨hdraw, hinf⟩ | ⟨u, y, v, rfl, hdraw, hinf⟩)
    · exact ⟨[], x, w, rfl, hdraw, hinf⟩
    · exact ⟨x :: u, y, v, rfl, hdraw, hinf⟩

end Compass

namespace Turtle

def compass (t : Turtle) : Compass := ⟨t.pose.heading, t.saved.map Pose.heading⟩

variable {g : Gait} {pen : Pen} {t : Turtle} {a : Action}

theorem compass_act {o : Option Segment} {t' : Turtle} (h : t.act g a = .ok (o, t')) :
    t'.compass = t.compass.steer g a := by
  obtain ⟨pose, saved⟩ := t
  cases a with
  | right => cases h; rfl
  | left => cases h; rfl
  | save => cases h; rfl
  | ignore => cases h; rfl
  | restore => cases saved <;> cases h <;> rfl
  | draw =>
    by_cases hinf : pose.heading.isInf = true
    · simp [act, Pose.advance, hinf] at h
    · rw [act, Pose.advance, if_neg hinf] at h
      cases h
      rfl

theorem act_error_iff : t.act g a = .error ⟨⟩ ↔ a = .draw ∧ t.compass.heading.isInf = true := by
  obtain ⟨pose, saved⟩ := t
  cases a with
  | right => simp [act]
  | left => simp [act]
  | save => simp [act]
  | ignore => simp [act]
  | restore => cases saved <;> simp [act]
  | draw =>
    by_cases hinf : pose.heading.isInf = true
    · simp [act, Pose.advance, compass, hinf]
    · simp [act, Pose.advance, compass, hinf]

theorem follow_error_iff {drawn : List Segment} {w : Word} :
    t.follow g pen drawn w = .error ⟨⟩ ↔ t.compass.Fails g pen w := by
  induction w generalizing t drawn with
  | nil => simp [follow, Compass.not_fails_nil]
  | cons x w ih =>
    rw [Compass.fails_cons_iff, follow]
    cases hact : t.act g (pen.action x) with
    | error e => exact ⟨fun _ => Or.inl (act_error_iff.1 hact), fun _ => rfl⟩
    | ok r =>
      obtain ⟨segment, t'⟩ := r
      have hnot : ¬ (pen.action x = .draw ∧ t.compass.heading.isInf = true) := by
        rw [← act_error_iff (g := g), hact]
        exact nofun
      rw [or_iff_right hnot, ← compass_act hact]
      cases segment with
      | none => exact ih
      | some s => exact ih

end Turtle

/-- The word makes a turtle fail that starts to follow it. -/
def Word.LosesHeading (w : Word) (g : Gait) (pen : Pen) : Prop := Compass.initial.Fails g pen w

theorem Word.segments_error_iff {w : Word} {g : Gait} {pen : Pen} :
    w.segments g pen = .error ⟨⟩ ↔ w.LosesHeading g pen := by
  have hfollow : Turtle.initial.follow g pen [] w = .error ⟨⟩ ↔ w.LosesHeading g pen :=
    Turtle.follow_error_iff
  rw [← hfollow, segments]
  cases Turtle.initial.follow g pen [] w <;> simp [Except.map]

/-! Headings that never leave the range of doubles. -/

namespace Compass

structure IsFinite (c : Compass) : Prop where
  heading : c.heading.isFinite = true
  saved : ∀ heading ∈ c.saved, heading.isFinite = true

variable {g : Gait} {c : Compass}

theorem isFinite_initial : initial.IsFinite where
  heading := by decide +kernel
  saved := nofun

theorem isFinite_steer (hg : IsBelow 970 g.turn) (h : c.IsFinite) (a : Action) :
    (c.steer g a).IsFinite := by
  cases a with
  | right => exact ⟨isFinite_add h.heading hg, h.saved⟩
  | left => exact ⟨isFinite_sub h.heading hg, h.saved⟩
  | save => exact ⟨h.heading, List.forall_mem_cons.2 ⟨h.heading, h.saved⟩⟩
  | draw => exact h
  | ignore => exact h
  | restore =>
    obtain ⟨heading, saved⟩ := c
    cases saved with
    | nil => exact h
    | cons top saved =>
      obtain ⟨htop, hsaved⟩ := List.forall_mem_cons.1 h.saved
      exact ⟨htop, hsaved⟩

theorem isFinite_after (hg : IsBelow 970 g.turn) (pen : Pen) (h : c.IsFinite) (w : Word) :
    (c.after g pen w).IsFinite := by
  induction w generalizing c with
  | nil => exact h
  | cons x w ih => exact ih (isFinite_steer hg h (pen.action x))

end Compass

theorem Word.not_losesHeading {g : Gait} (hg : IsBelow 970 g.turn) (w : Word) (pen : Pen) :
    ¬ w.LosesHeading g pen := by
  rintro ⟨u, x, v, -, -, hinf⟩
  have hfinite := (Compass.isFinite_after hg pen Compass.isFinite_initial u).heading
  rw [isInf_of_isFinite hfinite] at hinf
  exact Bool.noConfusion hinf

namespace Config

/-- A bound, in degrees, of the angles that are safe in every word. -/
@[irreducible]
def maxSteadyAngle : Float := 1e292

/-- The angle is small enough for headings to stay finite. -/
def IsSteady (c : Config) : Prop := -maxSteadyAngle ≤ c.angle ∧ c.angle ≤ maxSteadyAngle

instance (c : Config) : Decidable c.IsSteady := inferInstanceAs (Decidable (_ ∧ _))

theorem isBelow_turn {c : Config} (h : c.IsSteady) : IsBelow 970 c.gait.turn := by
  have hlow : IsBelow 973 (-maxSteadyAngle) := by decide +kernel
  have hhigh : IsBelow 973 maxSteadyAngle := by decide +kernel
  have hpi : IsBelow 2 pi := by decide +kernel
  have hdivisor : IsAtLeast 7 180 := by decide +kernel
  have hangle : IsBelow 973 c.angle := isBelow_of_between hlow hhigh h.1 h.2
  have hproduct : IsBelow 976 (c.angle * pi) := isBelow_mul (by decide) (by decide) hangle hpi
  exact isBelow_div (by decide) (by decide) hproduct hdivisor

theorem word_not_losesHeading {c : Config} (h : c.IsSteady) (w : Word) :
    ¬ w.LosesHeading c.gait c.pen :=
  w.not_losesHeading (isBelow_turn h) c.pen

end Config

end Lindenmayer
