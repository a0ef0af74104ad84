import Lindenmayer.Proofs.Stages
import Lindenmayer.Proofs.Turtle.Branching
import Mathlib.Data.List.Induction

/-!
# Counting segments

A symbol leaves at most one segment, and whether it leaves one is decided by the symbol and the pen
alone: neither where the turtle stands nor what it has saved plays a part. So the segments of a
drawing are counted by counting symbols, and symbols that neither steer nor draw can be taken out of
a word, each one or not, without any trace in the drawing.
-/
namespace Lindenmayer

/-- The symbols that steer a turtle and never draw. -/
def steering : Word := ['+', '-', '[', ']']

namespace Pen

variable (pen : Pen) {c : Char}

/-- The symbols that leave a segment: those that draw, unless they steer. -/
def marks (c : Char) : Bool := pen.draws c && !steering.contains c

theorem action_eq_draw_iff : pen.action c = .draw ↔ pen.marks c = true := by
  have hmarks : pen.marks c = true ↔ pen.draws c = true ∧ c ∉ steering := by simp [marks]
  rw [hmarks]
  grind [action, steering]

theorem action_of_idle (hsteer : c ∉ steering) (hdraw : pen.draws c = false) :
    pen.action c = .ignore := by
  grind [action, steering]

end Pen

namespace Pose

variable {step : Numeric} {turn : Float} {p p' : Pose} {s : Segment} {drawn : List Segment}

theorem eq_of_stride (h : p.stride step = .ok (s, p')) : s = ⟨p.position, p'.position⟩ := by
  rw [stride] at h
  split at h
  · cases h
  · split at h
    · cases h
    · cases h
      rfl

/-- A symbol that is no bracket draws from where it stands to where it goes, or stays there. -/
theorem obey_cases {a : Action} (h : obey step turn a p = .ok (drawn, p')) :
    (a = .draw ∧ drawn = [⟨p.position, p'.position⟩]) ∨
      (a ≠ .draw ∧ drawn = [] ∧ p'.position = p.position) := by
  cases a with
  | draw =>
    change (p.stride step).map (fun r => ([r.1], r.2)) = .ok (drawn, p') at h
    cases hstride : p.stride step with
    | error e =>
      rw [hstride] at h
      cases h
    | ok r =>
      rw [hstride] at h
      cases h
      exact Or.inl ⟨rfl, congrArg ([·]) (eq_of_stride hstride)⟩
  | right | left | save | restore | ignore =>
    cases h
    exact Or.inr ⟨nofun, rfl, rfl⟩

end Pose

namespace Turtle

/-- What a symbol may do to a turtle, and the segments that it draws. Headings are left open. -/
inductive Obeys (pen : Pen) : Char → Turtle → List Segment → Turtle → Prop
  | opened (t : Turtle) : Obeys pen '[' t [] ⟨t.pose, t.pose :: t.saved⟩
  | closed (pose top : Pose) (saved : List Pose) :
      Obeys pen ']' ⟨pose, top :: saved⟩ [] ⟨top, saved⟩
  | surplus (pose : Pose) : Obeys pen ']' ⟨pose, []⟩ [] ⟨pose, []⟩
  | stayed {c : Char} {pose pose' : Pose} (saved : List Pose) (plain : c ≠ '[' ∧ c ≠ ']')
      (unmarked : pen.marks c = false) (position : pose'.position = pose.position) :
      Obeys pen c ⟨pose, saved⟩ [] ⟨pose', saved⟩
  | drew {c : Char} (pose pose' : Pose) (saved : List Pose) (plain : c ≠ '[' ∧ c ≠ ']')
      (marked : pen.marks c = true) :
      Obeys pen c ⟨pose, saved⟩ [⟨pose.position, pose'.position⟩] ⟨pose', saved⟩

/-- From the turtle `s` a word may lead to another one and draw these segments on the way. -/
inductive Leads (pen : Pen) (s : Turtle) : Word → List Segment → Turtle → Prop
  | start : Leads pen s [] [] s
  | next {w : Word} {drawn : List Segment} {t : Turtle} {c : Char} {more : List Segment}
      {t' : Turtle} (before : Leads pen s w drawn t) (step : Obeys pen c t more t') :
      Leads pen s (w ++ [c]) (drawn ++ more) t'

variable {step : Numeric} {turn : Float} {pen : Pen} {c : Char} {w : Word} {s t t' : Turtle}
  {drawn more : List Segment}

theorem obeys_of_obey (h : obey step turn pen c t = .ok (drawn, t')) : Obeys pen c t drawn t' := by
  obtain ⟨pose, saved⟩ := t
  by_cases hopen : c = '['
  · subst hopen
    cases h
    exact .opened _
  by_cases hclose : c = ']'
  · subst hclose
    cases saved with
    | nil =>
      cases h
      exact .surplus _
    | cons top saved =>
      cases h
      exact .closed _ _ _
  rw [obey, if_neg hopen, if_neg hclose, onPose] at h
  cases hpose : Pose.obey step turn (pen.action c) pose with
  | error e =>
    simp only [hpose] at h
    cases h
  | ok r =>
    simp only [hpose] at h
    cases h
    rcases Pose.obey_cases hpose with ⟨hdraw, hsegment⟩ | ⟨hdraw, hsegment, hposition⟩
    · rw [hsegment]
      exact .drew _ _ _ ⟨hopen, hclose⟩ (pen.action_eq_draw_iff.1 hdraw)
    · rw [hsegment]
      rw [ne_eq, pen.action_eq_draw_iff, Bool.not_eq_true] at hdraw
      exact .stayed _ ⟨hopen, hclose⟩ hdraw hposition

theorem leads_of_trace (h : trace step turn pen w s = .ok (drawn, t)) : Leads pen s w drawn t := by
  induction w using List.reverseRecOn generalizing drawn t with
  | nil =>
    cases h
    exact .start
  | append_singleton w c ih =>
    rw [trace_append, trace_singleton] at h
    obtain ⟨a, t', b, hw, hc, rfl⟩ := Draws.andThen_eq_ok_iff.1 h
    exact .next (ih hw) (obeys_of_obey hc)

/-- A turtle leaves a segment for each symbol that marks, whatever else it does. -/
theorem Leads.length_eq (h : Leads pen s w drawn t) : drawn.length = w.countP pen.marks := by
  induction h with
  | start => rfl
  | next before step ih =>
    rw [List.length_append, List.countP_append, ih]
    cases step with
    | opened => simp [Pen.marks, steering]
    | closed => simp [Pen.marks, steering]
    | surplus => simp [Pen.marks, steering]
    | stayed saved plain unmarked position => simp [unmarked]
    | drew pose pose' saved plain marked => simp [marked]

/-! Symbols that do nothing. -/

theorem obey_of_idle (hsteer : c ∉ steering) (hdraw : pen.draws c = false) :
    obey step turn pen c = Draws.nothing := by
  have hopen : c ≠ '[' := by
    rintro rfl
    exact hsteer (by decide)
  have hclose : c ≠ ']' := by
    rintro rfl
    exact hsteer (by decide)
  rw [obey, if_neg hopen, if_neg hclose, pen.action_of_idle hsteer hdraw]
  rfl

/-- Symbols may be taken out of a word as long as those that steer or draw all stay. -/
theorem trace_of_sublist {u : Word} (hsub : u.Sublist w)
    (hkept : ∀ x, x ∈ steering ∨ pen.draws x = true → u.count x = w.count x) :
    trace step turn pen u = trace step turn pen w := by
  induction hsub with
  | slnil => rfl
  | @cons u w c hsub ih =>
    -- A symbol that acts would be missing in `u`, which holds no more of it than the rest of `w`.
    have hidle : ¬ (c ∈ steering ∨ pen.draws c = true) := by
      intro hacts
      have hcount := hkept c hacts
      have hle := hsub.count_le c
      rw [List.count_cons_self] at hcount
      omega
    rw [not_or, Bool.not_eq_true] at hidle
    rw [trace, obey_of_idle hidle.1 hidle.2, Draws.nothing_andThen]
    apply ih
    intro x hx
    have hne : c ≠ x := by
      rintro rfl
      simp [hidle] at hx
    rw [hkept x hx, List.count_cons_of_ne hne]
  | @cons_cons u w c hsub ih =>
    have hrest : trace step turn pen u = trace step turn pen w := by
      apply ih
      intro x hx
      have hcount := hkept x hx
      rw [List.count_cons, List.count_cons] at hcount
      omega
    rw [trace, trace, hrest]

end Turtle

namespace Word

variable {step angle : Numeric} {pen : Pen} {u w : Word} {segments : List Segment}

/-- A walk that succeeds turns by an angle that a double holds. -/
theorem exists_degrees_of_walk (h : w.walk step angle pen = .ok segments) :
    ∃ degrees, angle.toFloat? = some degrees := by
  cases hangle : angle.toFloat? with
  | none =>
    rw [walk, hangle] at h
    cases h
  | some degrees => exact ⟨degrees, rfl⟩

theorem exists_trace_of_walk (h : w.walk step angle pen = .ok segments) :
    ∃ turn t, Turtle.trace step turn pen w Turtle.initial = .ok (segments, t) := by
  obtain ⟨degrees, hangle⟩ := exists_degrees_of_walk h
  exact ⟨_, (walk_eq_ok_iff hangle).1 h⟩

theorem length_of_walk (h : w.walk step angle pen = .ok segments) :
    segments.length = w.countP pen.marks := by
  obtain ⟨turn, t, htrace⟩ := exists_trace_of_walk h
  exact (Turtle.leads_of_trace htrace).length_eq

/-- The beginning of a word draws the first of its segments. -/
theorem walk_take (h : w.walk step angle pen = .ok segments) (hu : u <+: w) :
    u.walk step angle pen = .ok (segments.take (u.countP pen.marks)) := by
  obtain ⟨v, rfl⟩ := hu
  obtain ⟨degrees, hangle⟩ := exists_degrees_of_walk h
  obtain ⟨last, htrace⟩ := (walk_eq_ok_iff hangle).1 h
  rw [Turtle.trace_append] at htrace
  obtain ⟨drawn, t, more, hu, -, rfl⟩ := Draws.andThen_eq_ok_iff.1 htrace
  have hwalk : u.walk step angle pen = .ok drawn := (walk_eq_ok_iff hangle).2 ⟨t, hu⟩
  rw [← length_of_walk hwalk, List.take_left]
  exact hwalk

theorem length_of_segments {step degrees : Float}
    (h : w.segments (.ofDegrees step degrees) pen = .ok segments) :
    segments.length = w.countP pen.marks := by
  have hwalk : w.walk (.real step) (.real degrees) pen = .ok segments :=
    congrArg (Except.mapError WalkError.disoriented) h
  exact length_of_walk hwalk

theorem walk_of_sublist (hsub : u.Sublist w)
    (hkept : ∀ x, x ∈ steering ∨ pen.draws x = true → u.count x = w.count x)
    (step angle : Numeric) : u.walk step angle pen = w.walk step angle pen := by
  cases hangle : angle.toFloat? with
  | none => rw [walk, walk, hangle]
  | some degrees =>
    rw [walk_eq_trace hangle, walk_eq_trace hangle, Turtle.trace_of_sublist hsub hkept]

end Word

/-- A drawing has as many segments as its expanded word has symbols that draw, the four that steer
not counted even if the pen names them. In any word, symbols that neither steer nor draw can be left
out one by one, and the drawing stays what it is. -/
theorem segments_counted_by_symbols :
    (∀ (c : Config) (limit : Limit) (segments : List Segment) (stats : Stats),
      c.draw limit = .ok (segments, stats) →
        ∃ w, c.expand limit = .ok w ∧ stats.expandedLength = w.length ∧
          stats.segmentCount = w.countP (fun x => c.pen.draws x && !steering.contains x) ∧
          segments.length = w.countP (fun x => c.pen.draws x && !steering.contains x) ∧
          stats.segmentCount ≤ stats.expandedLength) ∧
    ∀ (u w : Word) (step angle : Numeric) (pen : Pen), u.Sublist w →
      (∀ x, x ∈ steering ∨ pen.draws x = true → u.count x = w.count x) →
        u.walk step angle pen = w.walk step angle pen := by
  constructor
  · intro c limit segments stats h
    obtain ⟨w, hw, hsegments, rfl⟩ := Config.draw_ok_iff.1 h
    have hlength : segments.length = w.countP c.pen.marks := Word.length_of_segments hsegments
    refine ⟨w, hw, rfl, hlength, hlength, ?_⟩
    rw [hlength]
    exact List.countP_le_length
  · intro u w step angle pen hsub hkept
    exact Word.walk_of_sublist hsub hkept step angle

/-- The pen names symbols that steer, and one of the symbols that draw comes from a rule. -/
def Config.ornate : Config :=
  ⟨['F', '[', '+', 'X', ']'], ['X', '=', 'F', '-'], 1, 90, 10, .only ['F', '+', '-', ']']⟩

theorem ornate_counts_two :
    (∃ segments, Config.ornate.draw (.atMost 6) = .ok (segments, ⟨6, 2⟩) ∧ segments.length = 2) ∧
      Word.walk ['F', 'X', '+', 'F'] (.real 10) (.real 90) (.only ['F', '+']) =
        Word.walk ['X', 'F', 'X', '+', 'X', 'F'] (.real 10) (.real 90) (.only ['F', '+']) := by
  obtain ⟨hcounts, hdeletes⟩ := segments_counted_by_symbols
  constructor
  · have hexpand : Config.ornate.expand (.atMost 6) = .ok ['F', '[', '+', 'F', '-', ']'] := by
      decide +kernel
    have hdraws : (Config.ornate.draw (.atMost 6)).isOk = true := by decide +kernel
    obtain ⟨⟨segments, length, count⟩, hdraw⟩ := exists_ok_of_isOk hdraws
    obtain ⟨w, hw, hlength, hcount, hsegments, -⟩ := hcounts _ _ _ _ hdraw
    obtain rfl := Except.ok.inj (hexpand.symm.trans hw)
    obtain rfl : length = 6 := hlength
    obtain rfl : count = 2 := hcount
    exact ⟨segments, hdraw, hsegments⟩
  · apply hdeletes _ _ _ _ _ (by decide)
    intro x hx
    have hne : 'X' ≠ x := by
      rintro rfl
      exact absurd hx (by decide)
    simp only [List.count_cons_of_ne hne, List.count_cons]

end Lindenmayer
