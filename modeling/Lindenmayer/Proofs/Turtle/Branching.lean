import Lindenmayer.Proofs.Turtle.Brackets
import Lindenmayer.Proofs.Turtle.Heading
import Lindenmayer.Turtle.Walk

/-!
# Branches without a stack

A turtle that saves and restores poses draws what a walker draws that has one pose and no memory and
reads the word as a forest: after a group it goes on from the pose it had before, and an opening
bracket that is never closed is nothing to it. Putting a balanced word between brackets somewhere
into a word therefore adds its segments and changes no other.
-/
namespace Lindenmayer

/-- Drawing from a state: the segments in their order and the state after them. -/
abbrev Draws (σ : Type) := σ → Except WalkError (List Segment × σ)

namespace Draws

variable {σ : Type}

def nothing : Draws σ := fun s => .ok ([], s)

def andThen (d e : Draws σ) : Draws σ := fun s =>
  match d s with
  | .error err => .error err
  | .ok (drawn, t) => (e t).map fun r => (drawn ++ r.1, r.2)

/-- Draws the same and stays where it was. -/
def aside (d : Draws σ) : Draws σ := fun s => (d s).map fun r => (r.1, s)

variable {d e : Draws σ} {s t : σ} {drawn segments : List Segment} {err : WalkError}

theorem andThen_of_error (h : d s = .error err) : d.andThen e s = .error err := by
  rw [andThen, h]

theorem andThen_of_ok (h : d s = .ok (drawn, t)) :
    d.andThen e s = (e t).map fun r => (drawn ++ r.1, r.2) := by
  rw [andThen, h]

/-- What draws nothing only leads to another state. -/
theorem andThen_of_ok_nil (h : d s = .ok ([], t)) : d.andThen e s = e t := by
  rw [andThen_of_ok h]
  cases e t <;> rfl

theorem nothing_andThen (d : Draws σ) : nothing.andThen d = d :=
  funext fun _ => andThen_of_ok_nil rfl

theorem andThen_nothing (d : Draws σ) : d.andThen nothing = d := by
  funext s
  cases h : d s with
  | error err => exact andThen_of_error h
  | ok r =>
    rw [andThen_of_ok h]
    simp [nothing, Except.map]

theorem andThen_assoc (d e f : Draws σ) : (d.andThen e).andThen f = d.andThen (e.andThen f) := by
  funext s
  simp only [andThen]
  cases d s with
  | error err => rfl
  | ok r =>
    cases he : e r.2 with
    | error err => simp [he, Except.map]
    | ok q => cases hf : f q.2 <;> simp [he, hf, Except.map]

theorem andThen_eq_ok_iff :
    d.andThen e s = .ok (segments, t) ↔
      ∃ a s' b, d s = .ok (a, s') ∧ e s' = .ok (b, t) ∧ segments = a ++ b := by
  constructor
  · intro h
    cases hd : d s with
    | error err => simp [andThen_of_error hd] at h
    | ok r =>
      rw [andThen_of_ok hd] at h
      cases he : e r.2 with
      | error err => simp [he, Except.map] at h
      | ok q =>
        simp only [he, Except.map, Except.ok.injEq, Prod.mk.injEq] at h
        obtain ⟨rfl, rfl⟩ := h
        exact ⟨r.1, r.2, q.1, rfl, he, rfl⟩
  · rintro ⟨a, s', b, hd, he, rfl⟩
    rw [andThen_of_ok hd, he]
    rfl

end Draws

namespace Pen

variable (pen : Pen) {c : Char}

theorem action_ne_save (h : c ≠ '[') : pen.action c ≠ .save := by
  grind [action]

theorem action_ne_restore (h : c ≠ ']') : pen.action c ≠ .restore := by
  grind [action]

end Pen

namespace Word

variable {pen : Pen} {c : Char}

theorem untilDrawing?_cons_of_draw (h : pen.action c = .draw) (w : Word) :
    untilDrawing? (c :: w) pen = some [c] := by
  simp [untilDrawing?, h]

theorem untilDrawing?_cons_of_ne (h : pen.action c ≠ .draw) (w : Word) :
    untilDrawing? (c :: w) pen = (untilDrawing? w pen).map (c :: ·) := by
  have hsteers : decide (pen.action c ≠ .draw) = true := decide_eq_true h
  simp only [untilDrawing?, List.dropWhile_cons, List.takeWhile_cons, hsteers, if_true]
  cases List.dropWhile (fun c => decide (pen.action c ≠ .draw)) w <;> rfl

end Word

namespace Pose

variable (step : Numeric) (turn : Float)

/-- The step ahead. An infinite heading is noticed before a step that is too large. -/
def stride (p : Pose) : Except WalkError (Segment × Pose) :=
  if p.heading.isInf then .error (.disoriented ⟨⟩)
  else
    match step.toFloat? with
    | none => .error .tooLarge
    | some length =>
      let ahead : Point :=
        ⟨p.position.x + length * p.heading.cos, p.position.y + length * p.heading.sin⟩
      .ok (⟨p.position, ahead⟩, { p with position := ahead })

/-- A step that a double holds is the step of the gait. -/
theorem stride_eq_advance {step : Numeric} {g : Gait} (h : step.toFloat? = some g.step) (p : Pose) :
    p.stride step = (p.advance g).mapError WalkError.disoriented := by
  rw [stride, advance]
  split
  · rfl
  · rw [h]
    rfl

/-- What a symbol other than a bracket does. -/
def obey : Action → Draws Pose
  | .right => fun p => .ok ([], { p with heading := p.heading + turn })
  | .left => fun p => .ok ([], { p with heading := p.heading - turn })
  | .draw => fun p => (p.stride step).map fun r => ([r.1], r.2)
  | _ => Draws.nothing

end Pose

section

variable (step : Numeric) (turn : Float) (pen : Pen)

def Forest.draw : Forest → Draws Pose
  | .empty => Draws.nothing
  | .symbol before c _ => before.draw.andThen (Pose.obey step turn (pen.action c))
  | .group before inside => before.draw.andThen inside.draw.aside

def Thicket.drawBelow : List Forest → Draws Pose
  | [] => Draws.nothing
  | f :: below => (drawBelow below).andThen (f.draw step turn pen)

def Thicket.draw (t : Thicket) : Draws Pose :=
  (drawBelow step turn pen t.below).andThen (t.top.draw step turn pen)

end

/-- The segments of a thicket with a step and a turn in degrees. -/
def Thicket.walk (t : Thicket) (step angle : Numeric) (pen : Pen) :
    Except WalkError (List Segment) :=
  match angle.toFloat? with
  | none => .error .tooLarge
  | some degrees => (t.draw step (degrees * pi / 180) pen Pose.initial).map Prod.fst

namespace Turtle

section

variable (step : Numeric) (turn : Float) (pen : Pen)

/-- What the pose alone does, with the saved poses left as they are. -/
def onPose (d : Draws Pose) : Draws Turtle := fun t =>
  (d t.pose).map fun r => (r.1, { t with pose := r.2 })

def save : Draws Turtle := fun t => .ok ([], { t with saved := t.pose :: t.saved })

def restore : Draws Turtle := fun t =>
  match t.saved with
  | [] => .ok ([], t)
  | pose :: saved => .ok ([], ⟨pose, saved⟩)

/-- What a symbol does. -/
def obey (c : Char) : Draws Turtle :=
  if c = '[' then save
  else if c = ']' then restore
  else onPose (Pose.obey step turn (pen.action c))

/-- Follows a word, whatever kind of number the step is. -/
def trace : Word → Draws Turtle
  | [] => Draws.nothing
  | c :: w => (obey step turn pen c).andThen (trace w)

theorem trace_append (u v : Word) :
    trace step turn pen (u ++ v) = (trace step turn pen u).andThen (trace step turn pen v) := by
  induction u with
  | nil => exact (Draws.nothing_andThen _).symm
  | cons c u ih => rw [List.cons_append, trace, ih, trace, Draws.andThen_assoc]

theorem trace_singleton (c : Char) : trace step turn pen [c] = obey step turn pen c :=
  Draws.andThen_nothing _

end

theorem onPose_andThen (d e : Draws Pose) :
    onPose (d.andThen e) = (onPose d).andThen (onPose e) := by
  funext t
  simp only [onPose, Draws.andThen]
  cases d t.pose with
  | error err => rfl
  | ok r => cases he : e r.2 <;> simp [Except.map, he]

/-- Between the brackets of a group the saved poses may be used, and are there again afterwards. -/
theorem save_onPose_restore (d : Draws Pose) :
    save.andThen ((onPose d).andThen restore) = onPose d.aside := by
  funext t
  simp only [save, restore, onPose, Draws.andThen, Draws.aside]
  cases d t.pose <;> simp [Except.map]

/-- After drawing aside the turtle is the one from before. -/
theorem eq_of_onPose_aside {d : Draws Pose} {t t' : Turtle} {segments : List Segment}
    (h : onPose d.aside t = .ok (segments, t')) : t' = t := by
  simp only [onPose, Draws.aside] at h
  cases hd : d t.pose with
  | error err => simp [hd, Except.map] at h
  | ok r =>
    simp only [hd, Except.map, Except.ok.injEq, Prod.mk.injEq] at h
    exact h.2.symm

variable {step : Numeric} {turn : Float} {pen : Pen}

theorem trace_forest (f : Forest) :
    trace step turn pen f.word = onPose (f.draw step turn pen) := by
  induction f with
  | empty => rfl
  | symbol before c plain ih =>
    rw [Forest.word, trace_append, ih, trace_singleton, Forest.draw, onPose_andThen, obey,
      if_neg plain.1, if_neg plain.2]
  | group before inside ihb ihi =>
    rw [Forest.word, trace_append, ihb, trace, trace_append, ihi, trace_singleton, Forest.draw,
      onPose_andThen, ← save_onPose_restore]
    rfl

/-- To the pose of the turtle, `d` is the same as `e`. -/
def Shows (d : Draws Turtle) (e : Draws Pose) : Prop :=
  ∀ t, (d t).map (fun r => (r.1, r.2.pose)) = e t.pose

theorem shows_nothing : Shows Draws.nothing Draws.nothing := fun _ => rfl

/-- An opening bracket alone is nothing to the pose. -/
theorem shows_save : Shows save Draws.nothing := fun _ => rfl

theorem shows_onPose (d : Draws Pose) : Shows (onPose d) d := by
  intro t
  rw [onPose]
  cases d t.pose <;> rfl

theorem Shows.andThen {d d' : Draws Turtle} {e e' : Draws Pose} (h : Shows d e)
    (h' : Shows d' e') : Shows (d.andThen d') (e.andThen e') := by
  intro t
  rw [Draws.andThen, Draws.andThen, ← h t]
  cases d t with
  | error err => rfl
  | ok r =>
    simp only [Except.map]
    rw [← h' r.2]
    cases d' r.2 <;> rfl

theorem shows_wordBelow (below : List Forest) :
    Shows (trace step turn pen (Thicket.wordBelow below))
      (Thicket.drawBelow step turn pen below) := by
  induction below with
  | nil => exact shows_nothing
  | cons f below ih =>
    have hforest : Shows (trace step turn pen f.word) (f.draw step turn pen) := by
      rw [trace_forest]
      exact shows_onPose _
    rw [Thicket.wordBelow, trace_append, trace_append, trace_singleton, Thicket.drawBelow,
      ← Draws.andThen_nothing ((Thicket.drawBelow step turn pen below).andThen _)]
    exact (ih.andThen hforest).andThen shows_save

theorem shows_thicket (th : Thicket) :
    Shows (trace step turn pen th.word) (th.draw step turn pen) := by
  rw [Thicket.word, trace_append, trace_forest]
  exact (shows_wordBelow th.below).andThen (shows_onPose _)

/-- Closing brackets beyond the saved poses do nothing. -/
theorem trace_withoutSurplus (w : Word) (t : Turtle) :
    trace step turn pen (w.withoutSurplus t.saved.length) t = trace step turn pen w t := by
  induction w generalizing t with
  | nil => simp
  | cons c w ih =>
    obtain ⟨pose, saved⟩ := t
    by_cases hopen : c = '['
    · subst hopen
      have hsave : obey step turn pen '[' ⟨pose, saved⟩ = .ok ([], ⟨pose, pose :: saved⟩) := rfl
      rw [Word.withoutSurplus_open, trace, trace, Draws.andThen_of_ok_nil hsave,
        Draws.andThen_of_ok_nil hsave]
      exact ih ⟨pose, pose :: saved⟩
    · by_cases hclose : c = ']'
      · subst hclose
        cases saved with
        | nil =>
          have hstay : obey step turn pen ']' ⟨pose, []⟩ = .ok ([], ⟨pose, []⟩) := rfl
          rw [List.length_nil, Word.withoutSurplus_close_zero, trace,
            Draws.andThen_of_ok_nil hstay]
          exact ih ⟨pose, []⟩
        | cons top saved =>
          have hback : obey step turn pen ']' ⟨pose, top :: saved⟩ = .ok ([], ⟨top, saved⟩) := rfl
          rw [List.length_cons, Word.withoutSurplus_close_succ, trace, trace,
            Draws.andThen_of_ok_nil hback, Draws.andThen_of_ok_nil hback]
          exact ih ⟨top, saved⟩
      · have hplain : obey step turn pen c = onPose (Pose.obey step turn (pen.action c)) := by
          rw [obey, if_neg hopen, if_neg hclose]
        rw [Word.withoutSurplus_symbol _ _ ⟨hopen, hclose⟩, trace, trace, hplain, Draws.andThen,
          Draws.andThen, onPose]
        cases Pose.obey step turn (pen.action c) pose with
        | error err => rfl
        | ok r =>
          have hw := ih ⟨r.2, saved⟩
          simp only [Except.map]
          rw [hw]

/-! The turtle of the program. -/

theorem act_of_ne_draw (g : Gait) (t : Turtle) {a : Action} (h : a ≠ .draw) :
    ∃ t', t.act g a = .ok (none, t') := by
  cases a with
  | right => exact ⟨_, rfl⟩
  | left => exact ⟨_, rfl⟩
  | save => exact ⟨_, rfl⟩
  | restore => cases hsaved : t.saved <;> simp [act, hsaved]
  | draw => exact absurd rfl h
  | ignore => exact ⟨_, rfl⟩

/-- A symbol has the effect that the turtle gives it, if a step that it makes is held by a double. -/
theorem obey_eq_act {g : Gait} {c : Char} (h : pen.action c = .draw → step.toFloat? = some g.step)
    (t : Turtle) :
    obey step g.turn pen c t =
      ((t.act g (pen.action c)).mapError WalkError.disoriented).map
        fun r => (r.1.toList, r.2) := by
  by_cases hopen : c = '['
  · subst hopen
    rfl
  · by_cases hclose : c = ']'
    · subst hclose
      obtain ⟨pose, saved⟩ := t
      cases saved <;> rfl
    · rw [obey, if_neg hopen, if_neg hclose, onPose]
      cases ha : pen.action c with
      | right => rfl
      | left => rfl
      | ignore => rfl
      | save => exact absurd ha (pen.action_ne_save hopen)
      | restore => exact absurd ha (pen.action_ne_restore hclose)
      | draw =>
        have hstride : Pose.obey step g.turn .draw t.pose =
            ((t.pose.advance g).mapError WalkError.disoriented).map fun r => ([r.1], r.2) :=
          congrArg (Except.map fun r : Segment × Pose => ([r.1], r.2))
            (t.pose.stride_eq_advance (h ha))
        rw [hstride, act]
        cases t.pose.advance g <;> rfl

theorem follow_eq_trace {g : Gait} (h : step.toFloat? = some g.step) (w : Word)
    (drawn : List Segment) (t : Turtle) :
    (t.follow g pen drawn w).mapError WalkError.disoriented =
      (trace step g.turn pen w t).map fun r => (r.1.reverse ++ drawn, r.2) := by
  induction w generalizing drawn t with
  | nil => rfl
  | cons c w ih =>
    have hobey : obey step g.turn pen c t =
        ((t.act g (pen.action c)).mapError WalkError.disoriented).map fun r => (r.1.toList, r.2) :=
      obey_eq_act (fun _ => h) t
    rw [follow, trace]
    cases hact : t.act g (pen.action c) with
    | error e =>
      rw [hact] at hobey
      rw [Draws.andThen_of_error hobey]
      rfl
    | ok r =>
      obtain ⟨segment, t'⟩ := r
      rw [hact] at hobey
      rw [Draws.andThen_of_ok hobey]
      cases segment with
      | none =>
        simp only [ih]
        cases trace step g.turn pen w t' <;> rfl
      | some segment =>
        simp only [ih]
        cases trace step g.turn pen w t' <;> simp [Except.map]

/-- A step that is too large stops the turtle at the first symbol that draws. -/
theorem trace_of_tooLarge (h : step.toFloat? = none) (w : Word) (t : Turtle) :
    (trace step turn pen w t).map Prod.fst =
      match w.untilDrawing? pen with
      | none => .ok []
      | some beginning =>
        match t.follow ⟨0, turn⟩ pen [] beginning with
        | .error e => .error (.disoriented e)
        | .ok _ => .error .tooLarge := by
  induction w generalizing t with
  | nil => rfl
  | cons c w ih =>
    rw [trace]
    by_cases hdraw : pen.action c = .draw
    · have hobey : obey step turn pen c = onPose (Pose.obey step turn .draw) := by
        grind [obey, Pen.action]
      rw [Word.untilDrawing?_cons_of_draw hdraw]
      by_cases hinf : t.pose.heading.isInf = true
      · have hfail : obey step turn pen c t = .error (.disoriented ⟨⟩) := by
          simp [hobey, onPose, Pose.obey, Pose.stride, hinf, Except.map]
        rw [Draws.andThen_of_error hfail]
        simp [follow, hdraw, act, Pose.advance, hinf, Except.map]
      · have hfail : obey step turn pen c t = .error .tooLarge := by
          simp [hobey, onPose, Pose.obey, Pose.stride, h, hinf, Except.map]
        rw [Draws.andThen_of_error hfail]
        simp [follow, hdraw, act, Pose.advance, hinf, Except.map]
    · obtain ⟨t', hact⟩ := act_of_ne_draw ⟨0, turn⟩ t hdraw
      have hobey : obey step turn pen c t = ((t.act ⟨0, turn⟩ (pen.action c)).mapError
          WalkError.disoriented).map fun r => (r.1.toList, r.2) :=
        obey_eq_act (g := ⟨0, turn⟩) (fun ha => absurd ha hdraw) t
      rw [hact] at hobey
      rw [Draws.andThen_of_ok_nil hobey, ih, Word.untilDrawing?_cons_of_ne hdraw]
      cases Word.untilDrawing? w pen with
      | none => rfl
      | some beginning => simp [follow, hact]

end Turtle

namespace Word

variable {step angle : Numeric} {pen : Pen}

theorem walk_eq_trace {degrees : Float} (h : angle.toFloat? = some degrees) (w : Word) :
    w.walk step angle pen =
      (Turtle.trace step (degrees * pi / 180) pen w Turtle.initial).map Prod.fst := by
  rw [walk, h]
  cases hstep : step.toFloat? with
  | none =>
    rw [Turtle.trace_of_tooLarge hstep]
    cases w.untilDrawing? pen with
    | none => rfl
    | some beginning =>
      simp only [segments, Gait.ofDegrees]
      cases Turtle.initial.follow ⟨0, degrees * pi / 180⟩ pen [] beginning <;> rfl
  | some length =>
    calc (w.segments (.ofDegrees length degrees) pen).mapError WalkError.disoriented
        = ((Turtle.initial.follow (.ofDegrees length degrees) pen [] w).mapError
            WalkError.disoriented).map (fun r => r.1.reverse) := by
          rw [segments]
          cases Turtle.initial.follow (.ofDegrees length degrees) pen [] w <;> rfl
      _ = (Turtle.trace step (degrees * pi / 180) pen w Turtle.initial).map Prod.fst := by
          rw [Turtle.follow_eq_trace (g := .ofDegrees length degrees) hstep, Gait.ofDegrees]
          cases Turtle.trace step (degrees * pi / 180) pen w Turtle.initial <;> simp [Except.map]

/-- What a word draws is decided by its forests. -/
theorem walk_eq_walk_ofWord (w : Word) (step angle : Numeric) (pen : Pen) :
    w.walk step angle pen = (Thicket.ofWord w).walk step angle pen := by
  cases hangle : angle.toFloat? with
  | none => rw [walk, Thicket.walk, hangle]
  | some degrees =>
    have hsurplus : Turtle.trace step (degrees * pi / 180) pen (w.withoutSurplus 0) Turtle.initial =
        Turtle.trace step (degrees * pi / 180) pen w Turtle.initial :=
      Turtle.trace_withoutSurplus w Turtle.initial
    have hshows : Turtle.Shows (Turtle.trace step (degrees * pi / 180) pen (Thicket.ofWord w).word)
        ((Thicket.ofWord w).draw step (degrees * pi / 180) pen) :=
      Turtle.shows_thicket _
    rw [← Thicket.word_ofWord] at hsurplus
    rw [walk_eq_trace hangle, ← hsurplus, Thicket.walk, hangle]
    simp only
    change _ = (Thicket.draw _ _ _ _ Turtle.initial.pose).map _
    rw [← hshows Turtle.initial]
    cases Turtle.trace step (degrees * pi / 180) pen (Thicket.ofWord w).word Turtle.initial <;> rfl

theorem walk_eq_ok_iff {degrees : Float} (h : angle.toFloat? = some degrees) {w : Word}
    {segments : List Segment} :
    w.walk step angle pen = .ok segments ↔
      ∃ t, Turtle.trace step (degrees * pi / 180) pen w Turtle.initial = .ok (segments, t) := by
  rw [walk_eq_trace h]
  cases Turtle.trace step (degrees * pi / 180) pen w Turtle.initial with
  | error err => simp [Except.map]
  | ok r => simp [Except.map, Prod.ext_iff]

/-- A balanced word between brackets of its own adds its segments and changes no other. -/
theorem walk_insert {u s v : Word} (hs : s.IsBalanced) {segments : List Segment}
    (h : walk (u ++ '[' :: (s ++ ']' :: v)) step angle pen = .ok segments) :
    ∃ a b c, u.walk step angle pen = .ok a ∧ walk (u ++ v) step angle pen = .ok (a ++ c) ∧
      segments = a ++ b ++ c := by
  cases hangle : angle.toFloat? with
  | none =>
    rw [walk, hangle] at h
    cases h
  | some degrees =>
    obtain ⟨f, rfl⟩ := isBalanced_iff_exists_forest.1 hs
    have hgroup : u ++ '[' :: (f.word ++ ']' :: v) = u ++ ((Forest.empty.group f).word ++ v) := by
      simp [Forest.word]
    rw [hgroup, walk_eq_ok_iff hangle, Turtle.trace_append, Turtle.trace_append,
      Turtle.trace_forest, Forest.draw, Forest.draw, Draws.nothing_andThen] at h
    obtain ⟨last, h⟩ := h
    obtain ⟨a, t, rest, hu, hrest, rfl⟩ := Draws.andThen_eq_ok_iff.1 h
    obtain ⟨b, t', c, hs, hv, rfl⟩ := Draws.andThen_eq_ok_iff.1 hrest
    obtain rfl := Turtle.eq_of_onPose_aside hs
    refine ⟨a, b, c, (walk_eq_ok_iff hangle).2 ⟨t', hu⟩, (walk_eq_ok_iff hangle).2 ⟨last, ?_⟩, ?_⟩
    · rw [Turtle.trace_append]
      exact Draws.andThen_eq_ok_iff.2 ⟨a, t', c, hu, hv, rfl⟩
    · exact (List.append_assoc a b c).symm

/-- A walk is the walk over the one thicket that the word without its surplus spells, and a balanced
word between brackets of its own can be put in anywhere. -/
theorem walk_branches (step angle : Numeric) (pen : Pen) :
    (∀ w : Word, ∃ t : Thicket, (∀ t' : Thicket, t'.word = w.withoutSurplus 0 ↔ t' = t) ∧
      w.walk step angle pen = t.walk step angle pen) ∧
    ∀ u s v : Word, s.IsBalanced → ∀ segments,
      walk (u ++ '[' :: (s ++ ']' :: v)) step angle pen = .ok segments →
        ∃ a b c, u.walk step angle pen = .ok a ∧ walk (u ++ v) step angle pen = .ok (a ++ c) ∧
          segments = a ++ b ++ c := by
  constructor
  · intro w
    exact ⟨.ofWord w, fun t' => t'.word_eq_withoutSurplus_iff w, w.walk_eq_walk_ofWord step angle pen⟩
  · intro u s v hs segments h
    exact walk_insert hs h

/-- A branch of its own inside another one, in front of a closing bracket without a partner. -/
theorem branch_put_in :
    let u : Word := ['F', '[', '+', 'F']
    let s : Word := ['-', '[', 'F', ']', 'F']
    let v : Word := ['F', ']', 'F', ']', '-', 'F']
    s.IsBalanced ∧ ∃ segments a b c,
      walk (u ++ '[' :: (s ++ ']' :: v)) (.real 10) (.real 90) .letters = .ok segments ∧
        u.walk (.real 10) (.real 90) .letters = .ok a ∧
        walk (u ++ v) (.real 10) (.real 90) .letters = .ok (a ++ c) ∧ segments = a ++ b ++ c := by
  intro u s v
  have hs : s.IsBalanced := by decide
  have hturn : Number.Binary64.IsBelow 970 (Gait.ofDegrees 10 90).turn := by decide +kernel
  have hheading := not_losesHeading hturn (u ++ '[' :: (s ++ ']' :: v)) .letters
  rw [← segments_error_iff] at hheading
  refine ⟨hs, ?_⟩
  cases hdraw : segments (u ++ '[' :: (s ++ ']' :: v)) (.ofDegrees 10 90) .letters with
  | error e => exact absurd hdraw hheading
  | ok segments =>
    have hwalk : walk (u ++ '[' :: (s ++ ']' :: v)) (.real 10) (.real 90) .letters =
        .ok segments := congrArg (Except.mapError WalkError.disoriented) hdraw
    obtain ⟨a, b, c, h⟩ := (walk_branches (.real 10) (.real 90) .letters).2 u s v hs segments hwalk
    exact ⟨segments, a, b, c, hwalk, h⟩

end Word

end Lindenmayer
