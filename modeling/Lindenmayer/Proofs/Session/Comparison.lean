import Lindenmayer.Proofs.Session.Sight
import Lindenmayer.Proofs.Session.Waits

/-!
# Two sessions side by side

What a session does depends neither on the lines printed so far nor on a canvas that it does not
notice, and on its schedule only when it waits. So two sessions that differ in nothing else do the
same, step by step.
-/
namespace Lindenmayer

namespace Session

/-- The second session is the first one with that canvas, that schedule and other lines printed. -/
def Apart (canvas : Canvas) (onWait : Schedule SessionCommand) (s t : Session) : Prop :=
  ∃ printed, t = { s with canvas := canvas, onWait := onWait, printed := printed }

/-- A look at the canvas tells the two sessions the same: it is the same canvas, or neither session
notices its own. -/
def LookAlike (s t : Session) : Prop :=
  t.canvas = s.canvas ∨ s.noticed s.canvas = false ∧ t.noticed t.canvas = false

/-- The line printed for a canvas without an area; there is none for another. -/
def areaLine (canvas : Canvas) : Array (List Char) :=
  if canvas.width = 0 ∨ canvas.height = 0 then
    #["canvas has zero size: ".toList ++ Number.intText canvas.width ++
      'x' :: Number.intText canvas.height]
  else #[]

variable {canvas : Canvas} {onWait : Schedule SessionCommand} {s t : Session}

theorem Apart.refl (s : Session) : Apart s.canvas s.onWait s s := ⟨s.printed, rfl⟩

theorem Apart.canvas_eq (h : Apart canvas onWait s t) : t.canvas = canvas := by
  obtain ⟨printed, rfl⟩ := h
  rfl

theorem Apart.onWait_eq (h : Apart canvas onWait s t) : t.onWait = onWait := by
  obtain ⟨printed, rfl⟩ := h
  rfl

/-! What does not look at the canvas. -/

theorem Apart.setStatus (h : Apart canvas onWait s t) (text : List Char) (isError : Bool) :
    Apart canvas onWait (s.setStatus text isError) (t.setStatus text isError) := by
  obtain ⟨printed, rfl⟩ := h
  rw [setStatus_eq, setStatus_eq]
  exact ⟨_, rfl⟩

theorem Apart.stopStage (h : Apart canvas onWait s t) :
    Apart canvas onWait s.stopStage t.stopStage := by
  obtain ⟨printed, rfl⟩ := h
  exact ⟨printed, rfl⟩

theorem Apart.enqueue (h : Apart canvas onWait s t) (mode : Mode) :
    Apart canvas onWait (s.enqueue mode) (t.enqueue mode) := by
  obtain ⟨printed, rfl⟩ := h
  rw [Session.enqueue, Session.enqueue]
  by_cases hrun : s.isRunning = true
  · rw [if_pos hrun, if_pos (by exact hrun)]
    exact ⟨printed, rfl⟩
  · rw [if_neg hrun, if_neg (by exact hrun)]
    exact ⟨printed, rfl⟩

theorem Apart.request (h : Apart canvas onWait s t) (mode : Value) :
    Apart canvas onWait (s.request mode) (t.request mode) := by
  rw [Session.request, Session.request]
  cases Mode.ofValue? mode with
  | none =>
    obtain ⟨printed, rfl⟩ := h
    exact ⟨printed, rfl⟩
  | some m => exact h.enqueue m

theorem Apart.stop (h : Apart canvas onWait s t) : Apart canvas onWait s.stop t.stop := by
  obtain ⟨printed, rfl⟩ := h
  have hquit : Apart canvas onWait { s with pending := none }
      { s with pending := none, canvas := canvas, onWait := onWait, printed := printed } :=
    ⟨printed, rfl⟩
  exact hquit.stopStage.setStatus _ _

theorem Apart.changeIterations (h : Apart canvas onWait s t) (delta : Numeric) :
    Apart canvas onWait (s.changeIterations delta) (t.changeIterations delta) := by
  have hconfig : t.config = s.config := by
    obtain ⟨printed, rfl⟩ := h
    rfl
  rw [Session.changeIterations, Session.changeIterations, hconfig]
  cases Numeric.addInt? s.config.iterations delta with
  | none =>
    obtain ⟨printed, rfl⟩ := h
    exact ⟨printed, rfl⟩
  | some iterations =>
    dsimp only
    cases Config.make (s.config.settings iterations) with
    | error e =>
      dsimp only
      split
      · exact h.setStatus _ _
      · obtain ⟨printed, rfl⟩ := h
        exact ⟨printed, rfl⟩
    | ok config =>
      obtain ⟨printed, rfl⟩ := h
      have hnew : Apart canvas onWait { s with config := config }
          { s with config := config, canvas := canvas, onWait := onWait, printed := printed } :=
        ⟨printed, rfl⟩
      exact hnew.enqueue s.lastMode

theorem Apart.pressKey (h : Apart canvas onWait s t) (key : List Char) :
    Apart canvas onWait (s.pressKey key) (t.pressKey key) := by
  rw [Session.pressKey, Session.pressKey]
  split
  · exact h.enqueue _
  · split
    · exact h.enqueue _
    · split
      · exact h.stop
      · split
        · exact h.changeIterations _
        · split
          · exact h.changeIterations _
          · exact h

/-- Commands that do not look at the canvas. -/
theorem Apart.perform (h : Apart canvas onWait s t) {c : SessionCommand} (hc : s.looksAt c = []) :
    Apart canvas onWait (s.perform c) (t.perform c) := by
  cases c with
  | run mode =>
    cases mode with
    | none =>
      have hmode : t.lastMode = s.lastMode := by
        obtain ⟨printed, rfl⟩ := h
        rfl
      rw [Session.perform, Session.perform, run, run, hmode]
      exact h.enqueue s.lastMode
    | some mode => exact h.request mode
  | request mode => exact h.request mode
  | key name =>
    cases name with
    | none => exact h
    | some key => exact h.pressKey key
  | stop => exact h.stop
  | close => exact h.stopStage
  | resize size => cases hc
  | changeIterations delta => exact h.changeIterations delta
  | configure settings =>
    obtain ⟨printed, rfl⟩ := h
    rw [Session.perform, Session.perform]
    cases Config.make settings with
    | error e => exact ⟨printed, rfl⟩
    | ok config => exact ⟨printed, rfl⟩
  | setStatus text isError => exact h.setStatus text isError
  | setBatch batch =>
    obtain ⟨printed, rfl⟩ := h
    exact ⟨printed, rfl⟩
  | setLimit limit =>
    obtain ⟨printed, rfl⟩ := h
    exact ⟨printed, rfl⟩

theorem Apart.renderAll (h : Apart canvas onWait s t) (segments : Array Segment) :
    Apart canvas onWait (s.renderAll segments) (t.renderAll segments) := by
  obtain ⟨printed, rfl⟩ := h
  have hdrawn : Apart canvas onWait { s with stage := s.stage.drawAll segments }
      { s with
        stage := s.stage.drawAll segments
        canvas := canvas
        onWait := onWait
        printed := printed } := ⟨printed, rfl⟩
  exact hdrawn.setStatus _ _

theorem Apart.beginGrowth (h : Apart canvas onWait s t) (segments : Array Segment) :
    Apart canvas onWait (s.beginGrowth segments) (t.beginGrowth segments) := by
  obtain ⟨printed, rfl⟩ := h
  rw [Session.beginGrowth, Session.beginGrowth]
  dsimp only
  rcases s.stage.start segments s.batch s.delay with ⟨e | id, stage⟩
  · exact ⟨printed, rfl⟩
  · dsimp only
    rw [setStatus_eq, setStatus_eq]
    exact ⟨_, rfl⟩

theorem Apart.drawRun (h : Apart canvas onWait s t) (mode : Mode) :
    Apart canvas onWait (s.drawRun mode) (t.drawRun mode) := by
  obtain ⟨printed, rfl⟩ := h
  rw [Session.drawRun, Session.drawRun]
  dsimp only
  cases s.config.draw s.limit with
  | error e =>
    dsimp only
    split
    · rw [setStatus_eq, setStatus_eq]
      exact ⟨_, rfl⟩
    · exact ⟨printed, rfl⟩
  | ok drawn =>
    obtain ⟨segments, stats⟩ := drawn
    have hrecorded : Apart canvas onWait
        { s with lastSegments := some segments.toArray, lastMode := mode, stats := some stats }
        { s with
          lastSegments := some segments.toArray
          lastMode := mode
          stats := some stats
          canvas := canvas
          onWait := onWait
          printed := printed } := ⟨printed, rfl⟩
    cases mode with
    | render =>
      obtain ⟨printed', hrendered⟩ := hrecorded.renderAll segments.toArray
      dsimp only
      rw [hrendered]
      exact ⟨printed', rfl⟩
    | grow => exact hrecorded.beginGrowth segments.toArray

theorem Apart.endGrowth (h : Apart canvas onWait s t) (id : Nat) :
    Apart canvas onWait (s.endGrowth id) (t.endGrowth id) := by
  obtain ⟨printed, rfl⟩ := h
  rw [Session.endGrowth, Session.endGrowth]
  dsimp only
  split
  · rw [setStatus_eq, setStatus_eq]
    exact ⟨_, rfl⟩
  · exact ⟨printed, rfl⟩

/-! What looks at it. -/

theorem applyCanvas_of_unnoticed (h : s.noticed s.canvas = false) :
    s.applyCanvas = (.ok false, { s with printed := s.printed ++ areaLine s.canvas }) := by
  rw [applyCanvas, areaLine]
  dsimp only
  split
  · rw [print, Array.push_eq_append]
  · next harea =>
    split
    · rw [Array.append_empty]
    · next hother =>
      obtain ⟨hwidth, hheight⟩ := not_or.1 harea
      exact absurd ⟨hwidth, hheight, hother⟩ (of_decide_eq_false h)

/-- A canvas that has been looked at is not noticed again. -/
theorem noticed_applyCanvas (s : Session) :
    s.applyCanvas.2.noticed s.applyCanvas.2.canvas = false := by
  rw [noticed, decide_eq_false_iff_not, applyCanvas]
  dsimp only
  split
  · next hzero => exact fun hnew => hzero.elim hnew.1 hnew.2.1
  · split
    · next hsame => exact fun hnew => hnew.2.2 hsame
    · split
      · exact fun hnew => hnew.2.2 rfl
      · exact fun hnew => hnew.2.2 rfl

theorem noticed_eq (hviewport : t.viewport = s.viewport) (hcanvas : t.canvas = s.canvas) :
    t.noticed t.canvas = s.noticed s.canvas := by
  rw [noticed, noticed, hviewport, hcanvas]

theorem Apart.applyCanvas (h : Apart canvas onWait s t) (hlook : LookAlike s t) :
    t.noticed t.canvas = s.noticed s.canvas ∧
      Apart canvas onWait s.applyCanvas.2 t.applyCanvas.2 := by
  rcases hlook with hsame | ⟨hs, ht⟩
  · have hsight : t.sight = s.sight := by
      obtain ⟨printed, rfl⟩ := h
      rfl
    refine ⟨noticed_eq (congrArg Prod.snd hsight) hsame, ?_⟩
    obtain ⟨hview, hviewport⟩ := Prod.mk.inj (sight_applyCanvas_eq hsame hsight)
    obtain ⟨view, viewport, lines, hfirst⟩ := exists_applyCanvas s
    obtain ⟨view', viewport', lines', hsecond⟩ := exists_applyCanvas t
    rw [hfirst, hsecond] at hview hviewport
    obtain rfl : view' = view := hview
    obtain rfl : viewport' = viewport := hviewport
    rw [hfirst, hsecond]
    obtain ⟨printed, rfl⟩ := h
    exact ⟨lines', rfl⟩
  · rw [applyCanvas_of_unnoticed hs, applyCanvas_of_unnoticed ht]
    obtain ⟨printed, rfl⟩ := h
    exact ⟨ht.trans hs.symm, _, rfl⟩

theorem Apart.resize (h : Apart canvas onWait s t) (hlook : LookAlike s t) :
    Apart canvas onWait s.resize t.resize := by
  obtain ⟨hnoticed, hseen⟩ := h.applyCanvas hlook
  rw [Session.resize, Session.resize, applyCanvas_eq, applyCanvas_eq t, hnoticed]
  generalize s.applyCanvas.2 = u at hseen
  generalize t.applyCanvas.2 = v at hseen
  cases s.noticed s.canvas with
  | false => exact hseen
  | true =>
    have hlast : v.lastSegments = u.lastSegments := by
      obtain ⟨lines, rfl⟩ := hseen
      rfl
    dsimp only
    rw [hlast]
    cases u.lastSegments with
    | none => exact hseen
    | some segments => exact hseen.renderAll segments

theorem Apart.beginRun (h : Apart canvas onWait s t) (hlook : LookAlike s t) (mode : Mode) :
    Apart canvas onWait (s.beginRun mode) (t.beginRun mode) := by
  rw [beginRun_eq, beginRun_eq]
  exact ((h.stopStage.applyCanvas hlook).2.setStatus _ _).drawRun mode

/-- A session does not notice a canvas that it has looked at, nor one that has not changed. -/
theorem Sees.unnoticed {canvases : List Canvas} (h : Sees s canvases t)
    (hs : canvases = [] → s.noticed s.canvas = false)
    (hcanvas : t.canvas = canvases.head?.getD s.canvas) : t.noticed t.canvas = false := by
  cases h with
  | same h =>
    rw [noticed_eq (congrArg Prod.snd h) hcanvas]
    exact hs rfl
  | @anew _ u hu h =>
    have hlooked : u.applyCanvas.2.canvas = u.canvas := by
      obtain ⟨_, _, _, hcanvas⟩ := exists_applyCanvas u
      rw [hcanvas]
    rw [noticed_eq (congrArg Prod.snd h) (hcanvas.trans hlooked.symm)]
    exact noticed_applyCanvas u

/-! What a step makes of the canvas. -/

theorem canvas_perform (s : Session) (c : SessionCommand) :
    (s.perform c).canvas = (s.looksAt c).head?.getD s.canvas := by
  cases c with
  | resize size =>
    cases size with
    | none => exact ((Apart.refl s).resize (Or.inl rfl)).canvas_eq
    | some size => exact ((Apart.refl { s with canvas := size }).resize (Or.inl rfl)).canvas_eq
  | _ => exact ((Apart.refl s).perform rfl).canvas_eq

theorem canvas_beginRun (s : Session) (mode : Mode) : (s.beginRun mode).canvas = s.canvas :=
  ((Apart.refl s).beginRun (Or.inl rfl) mode).canvas_eq

theorem Apart.tick (h : Apart canvas s.onWait s t) (id : Nat) :
    Apart canvas (s.tick id).onWait (s.tick id) (t.tick id) := by
  obtain ⟨printed, rfl⟩ := h
  have hends : ∀ stage, Apart canvas ({ s with stage := stage }.endGrowth id).onWait
      ({ s with stage := stage }.endGrowth id)
      ({ s with stage := stage, canvas := canvas, printed := printed }.endGrowth id) := by
    intro stage
    have hkept : Apart canvas s.onWait { s with stage := stage }
        { s with stage := stage, canvas := canvas, printed := printed } := ⟨printed, rfl⟩
    have hself := ((Apart.refl { s with stage := stage }).endGrowth id).onWait_eq
    rw [hself]
    exact hkept.endGrowth id
  rw [Session.tick, Session.tick]
  dsimp only
  split
  · exact hends _
  · split
    · exact hends _
    · rw [beginWait, beginWait]
      dsimp only
      split
      · exact ⟨printed, rfl⟩
      · exact ⟨printed, rfl⟩

theorem canvas_tick (s : Session) (id : Nat) : (s.tick id).canvas = s.canvas :=
  ((Apart.refl s).tick id).canvas_eq

/-- The canvas changes only when it is looked at. -/
theorem canvas_step (s : Session) : s.step.canvas = s.looks.head?.getD s.canvas := by
  rw [looks]
  cases hphase : s.phase with
  | idle => rw [step_of_idle hphase]; rfl
  | choosing last =>
    dsimp only
    cases hpending : s.pending with
    | none => rw [step_of_not_pending hphase hpending]; rfl
    | some mode => rw [step_of_pending hphase hpending]; exact canvas_beginRun _ mode
  | growing id => rw [step_of_growing hphase]; exact canvas_tick s id
  | waiting id rest =>
    cases rest with
    | nil => rw [step_of_waited hphase]; rfl
    | cons c rest => rw [step_of_waiting hphase]; exact canvas_perform _ c

/-- A canvas that is looked at now or was not noticed is not noticed in the next step: when it
changes it is looked at. -/
theorem noticed_step (hs : s.looks = [] → s.noticed s.canvas = false) :
    s.step.noticed s.step.canvas = false :=
  (sees_step s).unnoticed hs (canvas_step s)

/-! What a step makes of two sessions. -/

theorem Apart.own (h : Apart canvas onWait s t) (hwait : s.onWait = onWait) :
    Apart t.canvas s.onWait s t := by
  rw [h.canvas_eq, hwait]
  exact h

/-- Commands of a wait. -/
theorem Apart.perform_in_wait (h : Apart canvas s.onWait s t) (hlook : LookAlike s t)
    (hrun : s.isRunning = true) (c : SessionCommand) :
    Apart (t.perform c).canvas (s.perform c).onWait (s.perform c) (t.perform c) := by
  have hwait : (s.perform c).onWait = s.onWait := (undisturbed_perform hrun c).1
  cases c with
  | resize size =>
    cases size with
    | none => exact (h.resize hlook).own hwait
    | some size =>
      obtain ⟨printed, rfl⟩ := h
      have hsame : Apart size s.onWait { s with canvas := size }
          { s with canvas := size, printed := printed } := ⟨printed, rfl⟩
      exact (hsame.resize (Or.inl rfl)).own hwait
  | _ => exact (h.perform rfl).own hwait

/-- Two sessions with one schedule do the same in a step if they see the same. -/
theorem Apart.step (h : Apart canvas s.onWait s t) (hlook : LookAlike s t) :
    Apart t.step.canvas s.step.onWait s.step t.step := by
  have hsame : ∀ phase,
      Apart canvas s.onWait { s with phase := phase } { t with phase := phase } := by
    obtain ⟨printed, rfl⟩ := h
    exact fun _ => ⟨printed, rfl⟩
  have hphase' : t.phase = s.phase := by
    obtain ⟨printed, rfl⟩ := h
    rfl
  cases hphase : s.phase with
  | idle =>
    rw [step_of_idle hphase, step_of_idle (hphase'.trans hphase)]
    exact h.own rfl
  | choosing last =>
    have hpending' : t.pending = s.pending := by
      obtain ⟨printed, rfl⟩ := h
      rfl
    cases hpending : s.pending with
    | none =>
      rw [step_of_not_pending hphase hpending,
        step_of_not_pending (hphase'.trans hphase) (hpending'.trans hpending)]
      obtain ⟨printed, rfl⟩ := h
      exact ⟨printed, rfl⟩
    | some mode =>
      rw [step_of_pending hphase hpending,
        step_of_pending (hphase'.trans hphase) (hpending'.trans hpending)]
      have hpoised : Apart canvas s.onWait { s with pending := none }
          { t with pending := none } := by
        obtain ⟨printed, rfl⟩ := h
        exact ⟨printed, rfl⟩
      exact (hpoised.beginRun hlook mode).own
        (unloaded_beginRun (s := { s with pending := none }) rfl mode).1
  | growing id =>
    rw [step_of_growing hphase, step_of_growing (hphase'.trans hphase)]
    exact (h.tick id).own rfl
  | waiting id rest =>
    cases rest with
    | nil =>
      rw [step_of_waited hphase, step_of_waited (hphase'.trans hphase)]
      exact (hsame _).own rfl
    | cons c rest =>
      rw [step_of_waiting hphase, step_of_waiting (hphase'.trans hphase)]
      exact (hsame (.waiting id rest)).perform_in_wait hlook rfl c

/-! While the canvas is not noticed. -/

/-- The sessions differ in their canvas, which neither of them notices, and in the lines printed. -/
structure Unseeing (s t : Session) : Prop where
  apart : Apart t.canvas s.onWait s t
  left : s.noticed s.canvas = false
  right : t.noticed t.canvas = false

theorem Unseeing.phase_eq (h : Unseeing s t) : t.phase = s.phase := by
  obtain ⟨printed, heq⟩ := h.apart
  rw [heq]

theorem Unseeing.isRunning_eq (h : Unseeing s t) : t.isRunning = s.isRunning := by
  rw [isRunning, isRunning, h.phase_eq]

theorem Unseeing.step (h : Unseeing s t) : Unseeing s.step t.step where
  apart := h.apart.step (Or.inr ⟨h.left, h.right⟩)
  left := noticed_step fun _ => h.left
  right := noticed_step fun _ => h.right

theorem Unseeing.iterate (h : Unseeing s t) (n : Nat) :
    Unseeing (Session.step^[n] s) (Session.step^[n] t) := by
  induction n generalizing s t with
  | zero => exact h
  | succ n ih =>
    rw [Function.iterate_succ_apply, Function.iterate_succ_apply]
    exact ih h.step

theorem Unseeing.settle (h : Unseeing s t) : Unseeing s.settle t.settle := by
  induction s using Session.settle.induct generalizing t with
  | case1 s hrun ih =>
    have hrun' : t.isRunning = true := h.isRunning_eq.trans hrun
    rw [settle_of_running hrun, settle_of_running hrun']
    exact ih h.step
  | case2 s hrest =>
    have hidle := idle_of_not_running hrest
    have hidle' : t.phase = .idle := h.phase_eq.trans hidle
    rw [settle_of_idle hidle, settle_of_idle hidle']
    exact h

end Session

end Lindenmayer
