import Lindenmayer.Proofs.Session.Keys
import Lindenmayer.Proofs.Session.Renewal
import Lindenmayer.Proofs.Session.Waits

/-!
# The view and the viewport

A session looks at its canvas when a run begins and when it is told of another size. The viewport is
the last canvas that it looked at, those without area left out, and nothing else ever changes it or
the view. So the view is the initial one until there is a viewport, and then it is the one of the
viewport.
-/
namespace Lindenmayer

namespace Session

def hasArea (canvas : Canvas) : Bool := decide (canvas.width ≠ 0 ∧ canvas.height ≠ 0)

/-- The last of the canvases, those without area left out. -/
def lastWithArea (canvases : List Canvas) : Option Canvas :=
  (canvases.filter hasArea).getLast?

/-- The session has come from a new one, and on the way it has looked at the given canvases, in that
order. -/
inductive Seen : List Canvas → Session → Prop
  | new (config : Config) (batch delay : Numeric) (limit : Limit) (canvas : Canvas)
      (onWait : Schedule SessionCommand) : Seen [] (new config batch delay limit canvas onWait)
  | step {seen : List Canvas} {s : Session} (h : Seen seen s) : Seen (seen ++ s.looks) s.step
  | begin {seen : List Canvas} {s : Session} (h : Seen seen s) (hidle : s.phase = .idle)
      (c : SessionCommand) : Seen (seen ++ s.looksAt c) (s.told c)
  | forget {seen : List Canvas} {s : Session} (h : Seen seen s) :
      Seen seen { s with reply := none }

variable {s t : Session} {seen canvases : List Canvas}

/-! The last canvas with an area. -/

theorem lastWithArea_append (canvases later : List Canvas) :
    lastWithArea (canvases ++ later) = (lastWithArea later).or (lastWithArea canvases) := by
  rw [lastWithArea, List.filter_append, List.getLast?_append]
  rfl

theorem lastWithArea_eq_none_iff :
    lastWithArea canvases = none ↔ ∀ canvas ∈ canvases, hasArea canvas = false := by
  rw [lastWithArea, List.getLast?_eq_none_iff, List.filter_eq_nil_iff]
  simp

theorem hasArea_of_lastWithArea {canvas : Canvas} (h : lastWithArea canvases = some canvas) :
    canvas.width ≠ 0 ∧ canvas.height ≠ 0 := by
  have hmem : canvas ∈ canvases.filter hasArea := List.mem_of_getLast? h
  exact of_decide_eq_true (List.mem_filter.1 hmem).2

/-! What a look at a canvas changes. -/

theorem viewport_applyCanvas (s : Session) :
    s.applyCanvas.2.viewport = (lastWithArea [s.canvas]).or s.viewport := by
  rw [applyCanvas]
  dsimp only
  by_cases hzero : s.canvas.width = 0 ∨ s.canvas.height = 0
  · have hnone : lastWithArea [s.canvas] = none := by
      rw [lastWithArea_eq_none_iff]
      intro canvas hcanvas
      obtain rfl := List.mem_singleton.1 hcanvas
      exact decide_eq_false fun harea => hzero.elim harea.1 harea.2
    rw [if_pos hzero, hnone]
    rfl
  · have hsome : lastWithArea [s.canvas] = some s.canvas := by
      have harea : hasArea s.canvas = true := decide_eq_true (not_or.1 hzero)
      rw [lastWithArea, List.filter_cons_of_pos harea]
      rfl
    rw [if_neg hzero, hsome]
    split
    · next hsame => exact hsame
    · split
      · rfl
      · rfl

/-- The view changes only together with the viewport. -/
theorem view_applyCanvas (h : s.applyCanvas.2.viewport = none) :
    s.viewport = none ∧ s.applyCanvas.2.view = s.view := by
  rw [applyCanvas] at h ⊢
  dsimp only at h ⊢
  split at h
  · next hzero =>
    rw [if_pos hzero]
    exact ⟨h, rfl⟩
  · split at h
    · next hsame => cases hsame.symm.trans h
    · split at h
      · cases h
      · cases h

theorem Sees.viewport_eq (h : Sees s canvases t) :
    t.viewport = (lastWithArea canvases).or s.viewport := by
  cases h with
  | same h => exact congrArg Prod.snd h
  | @anew _ u hu h =>
    have hviewport : u.viewport = s.viewport := congrArg Prod.snd hu
    rw [← hviewport, ← viewport_applyCanvas]
    exact congrArg Prod.snd h

theorem Sees.view_eq (h : Sees s canvases t) (hnone : t.viewport = none) :
    s.viewport = none ∧ t.view = s.view := by
  cases h with
  | same h =>
    obtain ⟨hview, hviewport⟩ := Prod.mk.inj h
    exact ⟨hviewport.symm.trans hnone, hview⟩
  | @anew _ u hu h =>
    obtain ⟨hview, hviewport⟩ := Prod.mk.inj hu
    obtain ⟨hview', hviewport'⟩ := Prod.mk.inj h
    obtain ⟨hblank, hkept⟩ := view_applyCanvas (hviewport'.symm.trans hnone)
    exact ⟨hviewport.symm.trans hblank, hview'.trans (hkept.trans hview)⟩

theorem sees_told (s : Session) (c : SessionCommand) : Sees s (s.looksAt c) (s.told c) :=
  (sees_perform { s with reply := none, failure := none } c).of_sight rfl

/-! What has been seen since the session was new. -/

theorem Seen.viewport_eq (h : Seen seen s) : s.viewport = lastWithArea seen := by
  induction h with
  | new => rfl
  | @step seen s _ ih => rw [lastWithArea_append, (sees_step s).viewport_eq, ih]
  | @begin seen s _ _ c ih => rw [lastWithArea_append, (sees_told s c).viewport_eq, ih]
  | forget _ ih => exact ih

theorem Seen.view_eq (h : Seen seen s) (hnone : s.viewport = none) : s.view = View.initial := by
  induction h with
  | new => rfl
  | @step seen s _ ih =>
    obtain ⟨hblank, hkept⟩ := (sees_step s).view_eq hnone
    exact hkept.trans (ih hblank)
  | @begin seen s _ _ c ih =>
    obtain ⟨hblank, hkept⟩ := (sees_told s c).view_eq hnone
    exact hkept.trans (ih hblank)
  | forget _ ih => exact ih hnone

theorem Seen.turn {p : SessionCommand → Prop} (h : Seen seen s) (hturn : Turn p s t) :
    ∃ later, Seen (seen ++ later) t := by
  cases hturn with
  | step => exact ⟨_, h.step⟩
  | begin c hidle _ => exact ⟨_, h.begin hidle c⟩
  | forget => exact ⟨[], by rw [List.append_nil]; exact h.forget⟩

theorem Reached.exists_seen (h : Reached s) : ∃ seen, Seen seen s := by
  obtain ⟨config, batch, delay, limit, canvas, onWait, hturns⟩ := h
  induction hturns with
  | refl => exact ⟨[], .new config batch delay limit canvas onWait⟩
  | tail _ hturn ih =>
    obtain ⟨seen, hseen⟩ := ih
    obtain ⟨later, hlater⟩ := hseen.turn hturn
    exact ⟨_, hlater⟩

/-- However a session has come to where it is, its viewport is the last canvas with an area that it
has looked at. As long as it has looked at none, the view is the initial one; otherwise it is the
one of the viewport, whatever was drawn or wiped since. -/
theorem viewport_is_last_seen (hs : Reached s) :
    (∃ seen, Seen seen s) ∧ ∀ seen, Seen seen s →
      (s.viewport = none ↔ ∀ canvas ∈ seen, hasArea canvas = false) ∧
      (s.viewport = none → s.view = View.initial) ∧
      ∀ canvas, s.viewport = some canvas →
        (seen.filter hasArea).getLast? = some canvas ∧ canvas.width ≠ 0 ∧ canvas.height ≠ 0 ∧
        View.initial.showCanvas (.whole canvas.width) (.whole canvas.height) = .ok s.view := by
  refine ⟨hs.exists_seen, fun seen hseen => ?_⟩
  have hviewport := hseen.viewport_eq
  refine ⟨?_, hseen.view_eq, fun canvas hcanvas => ?_⟩
  · rw [hviewport]
    exact lastWithArea_eq_none_iff
  · have hlast := hviewport.symm.trans hcanvas
    obtain ⟨hwidth, hheight⟩ := hasArea_of_lastWithArea hlast
    rw [hs.matched canvas hcanvas]
    exact ⟨hlast, hwidth, hheight, View.showCanvas_eq _ canvas⟩

/-- A session that grows on a canvas without area, which takes other sizes in the first wait: one
without width, one with an area, and again one without. -/
def reshaped : Session :=
  step^[20] ((interruptedBy [.resize (some (.ofPixels 0 5)), .resize (some (.ofPixels 200 100)),
    .resize (some (.ofPixels 7 0))]).told (.run (some (.text "grow".toList))))

theorem reached_reshaped : Reached reshaped :=
  ⟨_, _, _, _, _, _, .head (.begin _ _ rfl trivial) (turns_iterate _ 20)⟩

/-- The view is the one of the canvas with an area. -/
theorem reshaped_shows_last_area :
    (∃ seen, Seen seen reshaped ∧ (seen.filter hasArea).getLast? = some (.ofPixels 200 100)) ∧
      View.initial.showCanvas (.whole 200) (.whole 100) = .ok reshaped.view := by
  obtain ⟨⟨seen, hseen⟩, hall⟩ := viewport_is_last_seen reached_reshaped
  have hviewport : reshaped.viewport = some (.ofPixels 200 100) := by decide +kernel
  obtain ⟨-, -, hlast⟩ := hall seen hseen
  obtain ⟨hseen', -, -, hview⟩ := hlast (.ofPixels 200 100) hviewport
  exact ⟨⟨seen, hseen, hseen'⟩, hview⟩

end Session

end Lindenmayer
