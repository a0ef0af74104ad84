import Lindenmayer.Proofs.Session.Course

/-!
# What a session sees of its canvas

The view and the viewport change only when the view is matched to the canvas, which a run does when
it begins and a session does when it is told that the canvas has another size. The view that is shown
for a canvas depends on nothing but its size. So the view is always the one of the viewport.
-/
namespace Lindenmayer

namespace Session

def sight (s : Session) : View × Option Canvas := (s.view, s.viewport)

/-- The view is the one of the viewport, if there is one. -/
def Matched (s : Session) : Prop :=
  ∀ canvas, s.viewport = some canvas → s.view = canvas.view

/-- The canvas that the command looks at. A run looks at it only when it begins. -/
def looksAt (s : Session) : SessionCommand → List Canvas
  | .resize size => [size.getD s.canvas]
  | _ => []

/-- The canvas that is looked at in the next step. -/
def looks (s : Session) : List Canvas :=
  match s.phase with
  | .choosing _ => if s.pending.isSome then [s.canvas] else []
  | .waiting _ (c :: _) => s.looksAt c
  | _ => []

/-- The second session sees what the first does, or what becomes of that when the view is matched to
a canvas, which is then looked at. -/
inductive Sees (s : Session) : List Canvas → Session → Prop
  | same {t : Session} (h : t.sight = s.sight) : Sees s [] t
  | anew {t u : Session} (hu : u.sight = s.sight) (h : t.sight = u.applyCanvas.2.sight) :
      Sees s [u.canvas] t

/-- What is seen when the view is matched to a canvas depends on what was seen before. -/
theorem sight_applyCanvas_eq {s t : Session} (hcanvas : t.canvas = s.canvas)
    (hsight : t.sight = s.sight) : t.applyCanvas.2.sight = s.applyCanvas.2.sight := by
  obtain ⟨hview, hviewport⟩ := Prod.mk.inj hsight
  rw [applyCanvas, applyCanvas, hcanvas, hviewport, hview]
  dsimp only
  split
  · exact hsight
  · split
    · exact hsight
    · split
      · rfl
      · rfl

/-- A canvas that has an area is in view once it is looked at. -/
theorem applyCanvas_of_area {s : Session} (hwidth : s.canvas.width ≠ 0)
    (hheight : s.canvas.height ≠ 0) (hs : s.Matched) :
    s.applyCanvas.2 = { s with view := s.canvas.view, viewport := some s.canvas } := by
  rw [applyCanvas]
  dsimp only
  rw [if_neg (by simp [hwidth, hheight])]
  split
  · next hsame => rw [← hs s.canvas hsame, ← hsame]
  · rw [View.showCanvas_eq]

theorem Matched.applyCanvas {s : Session} (hs : s.Matched) : s.applyCanvas.2.Matched := by
  rw [Session.applyCanvas]
  dsimp only
  split
  · exact hs
  · split
    · exact hs
    · rw [View.showCanvas_eq]
      intro canvas hcanvas
      rw [← Option.some.inj hcanvas]

theorem Matched.of_sight {s t : Session} (hs : s.Matched) (h : t.sight = s.sight) : t.Matched := by
  obtain ⟨hview, hviewport⟩ := Prod.mk.inj h
  intro canvas hcanvas
  rw [hview]
  exact hs canvas (hviewport.symm.trans hcanvas)

theorem Sees.of_sight {s t u : Session} {canvases : List Canvas} (h : Sees u canvases t)
    (hu : u.sight = s.sight) : Sees s canvases t := by
  cases h with
  | same h => exact .same (h.trans hu)
  | anew hv h => exact .anew (hv.trans hu) h

theorem Matched.of_sees {s t : Session} {canvases : List Canvas} (hs : s.Matched)
    (h : Sees s canvases t) : t.Matched := by
  cases h with
  | same h => exact hs.of_sight h
  | anew hu h => exact (hs.of_sight hu).applyCanvas.of_sight h

/-- A run begins with the view of a canvas that has an area. -/
theorem beginRun_of_area {s : Session} (hwidth : s.canvas.width ≠ 0)
    (hheight : s.canvas.height ≠ 0) (hs : s.Matched) (mode : Mode) :
    s.beginRun mode = { s with
      stage := s.stage.stop
      view := s.canvas.view
      viewport := some s.canvas
      status := Status.blank }.drawRun mode := by
  rw [beginRun_eq, applyCanvas_of_area (s := s.stopStage) hwidth hheight (hs.of_sight rfl)]
  rfl

/-! What each operation sees. -/

theorem sight_setStatus (s : Session) (text : List Char) (isError : Bool) :
    (s.setStatus text isError).sight = s.sight := by
  rw [setStatus_eq]
  rfl

theorem sight_enqueue (s : Session) (mode : Mode) : (s.enqueue mode).sight = s.sight := by
  rw [enqueue]
  split <;> rfl

theorem sight_request (s : Session) (mode : Value) : (s.request mode).sight = s.sight := by
  rw [request]
  split
  · rfl
  · exact sight_enqueue s _

theorem sight_changeIterations (s : Session) (delta : Numeric) :
    (s.changeIterations delta).sight = s.sight := by
  rw [changeIterations]
  split
  · rfl
  · split
    · split
      · exact sight_setStatus s _ true
      · rfl
    · exact sight_enqueue _ _

theorem sight_stop (s : Session) : s.stop.sight = s.sight := by
  rw [stop]
  exact sight_setStatus _ _ false

theorem sight_pressKey (s : Session) (key : List Char) : (s.pressKey key).sight = s.sight := by
  rw [pressKey]
  split
  · exact sight_enqueue s _
  · split
    · exact sight_enqueue s _
    · split
      · exact sight_stop s
      · split
        · exact sight_changeIterations s _
        · split
          · exact sight_changeIterations s _
          · rfl

theorem sight_resize (s : Session) : s.resize.sight = s.applyCanvas.2.sight := by
  rw [resize, applyCanvas_eq]
  cases s.noticed s.canvas with
  | false => rfl
  | true =>
    dsimp only
    split
    · rfl
    · exact sight_setStatus _ _ false

theorem sees_perform (s : Session) (c : SessionCommand) : Sees s (s.looksAt c) (s.perform c) := by
  cases c with
  | run mode =>
    cases mode with
    | none => exact .same (sight_enqueue s _)
    | some mode => exact .same (sight_request s mode)
  | request mode => exact .same (sight_request s mode)
  | key name =>
    cases name with
    | none => exact .same rfl
    | some key => exact .same (sight_pressKey s key)
  | stop => exact .same (sight_stop s)
  | close => exact .same rfl
  | resize size =>
    cases size with
    | none => exact .anew rfl (sight_resize s)
    | some size => exact .anew (u := { s with canvas := size }) rfl (sight_resize _)
  | changeIterations delta => exact .same (sight_changeIterations s delta)
  | configure settings =>
    rw [perform]
    cases Config.make settings with
    | error e => exact .same rfl
    | ok config => exact .same rfl
  | setStatus text isError => exact .same (sight_setStatus s text isError)
  | setBatch batch => exact .same rfl
  | setLimit limit => exact .same rfl

theorem sight_drawRun (s : Session) (mode : Mode) : (s.drawRun mode).sight = s.sight := by
  rw [drawRun]
  split
  · split
    · exact sight_setStatus s _ true
    · rfl
  · cases mode with
    | render => exact sight_setStatus _ _ false
    | grow =>
      dsimp only
      rw [beginGrowth]
      split
      · rfl
      · exact sight_setStatus _ _ false

theorem sight_beginRun (s : Session) (mode : Mode) :
    (s.beginRun mode).sight = s.stopStage.applyCanvas.2.sight := by
  rw [beginRun_eq, sight_drawRun]
  exact sight_setStatus _ [] false

theorem sight_endGrowth (s : Session) (id : Nat) : (s.endGrowth id).sight = s.sight := by
  rw [endGrowth]
  split
  · exact sight_setStatus s _ false
  · rfl

theorem sight_tick (s : Session) (id : Nat) : (s.tick id).sight = s.sight := by
  rw [tick]
  split
  · exact sight_endGrowth _ id
  · split
    · exact sight_endGrowth _ id
    · rw [beginWait]
      split <;> rfl

theorem sees_step (s : Session) : Sees s s.looks s.step := by
  rw [looks]
  cases hphase : s.phase with
  | idle =>
    rw [step_of_idle hphase]
    exact .same rfl
  | choosing last =>
    dsimp only
    cases hpending : s.pending with
    | none =>
      rw [step_of_not_pending hphase hpending]
      exact .same rfl
    | some mode =>
      rw [step_of_pending hphase hpending, Option.isSome_some, if_pos rfl]
      exact .anew (s := s) (u := { s with pending := none }.stopStage) rfl (sight_beginRun _ mode)
  | growing id =>
    rw [step_of_growing hphase]
    exact .same (sight_tick s id)
  | waiting id rest =>
    cases rest with
    | nil =>
      rw [step_of_waited hphase]
      exact .same rfl
    | cons c rest =>
      rw [step_of_waiting hphase]
      exact (sees_perform { s with phase := .waiting id rest } c).of_sight rfl

theorem Matched.turn {p : SessionCommand → Prop} {s t : Session} (hs : s.Matched)
    (h : Turn p s t) : t.Matched := by
  cases h with
  | step => exact hs.of_sees (sees_step s)
  | begin c _ _ =>
    have hfresh : Matched { s with reply := none, failure := none } := hs.of_sight rfl
    exact hfresh.of_sees (sees_perform _ c)
  | forget => exact hs.of_sight rfl

theorem Reached.matched {s : Session} (h : Reached s) : s.Matched := by
  obtain ⟨config, batch, delay, limit, canvas, onWait, hturns⟩ := h
  induction hturns with
  | refl =>
    intro canvas hcanvas
    cases hcanvas
  | tail _ hturn ih => exact ih.turn hturn

end Session

end Lindenmayer
