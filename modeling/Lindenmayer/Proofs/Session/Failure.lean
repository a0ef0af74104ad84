import Lindenmayer.Proofs.Session.Record
import Lindenmayer.Proofs.Session.Renewal
import Lindenmayer.Proofs.Session.Waits

/-!
# A run that cannot be drawn

When the configuration cannot be drawn, a run has already stopped what was live and matched the view
to the canvas, as a resize does, and from there on it does nothing but report the error. This holds
of the run that a command begins as well as of one that was asked for while another was growing.
-/
namespace Lindenmayer

namespace Session

/-- In the course of a command the session is about to begin a run in the given mode. -/
def ComesToRun (s : Session) (c : SessionCommand) (mode : Mode) (begun : Session) : Prop :=
  ∃ (n : Nat) (last : Option Nat), begun = step^[n] (s.told c) ∧ begun.phase = .choosing last ∧
    begun.pending = some mode

/-- Nothing has failed, and there is no answer yet. -/
def Unanswered (s : Session) : Prop := s.failure = none ∧ s.reply = none

variable {s t : Session} {c : SessionCommand} {mode : Mode}

/-- A command that asks for a run of a session at rest comes to this run. -/
theorem comesToRun_of_ask (hidle : s.phase = .idle) (hc : answers c = true)
    (hask : s.ask c = some (.run mode)) :
    ComesToRun s c mode { s.poised with pending := some mode } := by
  refine ⟨0, none, ?_, rfl, rfl⟩
  have hrun : ∀ requested, s.ask (.run requested) = some (.run mode) →
      { s.poised with pending := some mode } = s.told (.run requested) := by
    intro requested hask
    exact (perform_run_of_ask (s := { s with reply := none, failure := none }) hidle hask).symm
  cases c with
  | run requested => exact hrun requested hask
  | request value => exact hrun (some value) hask
  | _ => cases hc

/-! Until the session rests, nothing has failed and there is no answer. -/

theorem Effect.unanswered (h : Effect s c t) (hs : s.Unanswered) (ht : t.phase ≠ .idle) :
    t.Unanswered := by
  cases h with
  | asks _ hu =>
    obtain ⟨_, _, _, _, _, _, rfl⟩ := hu
    rw [enqueue]
    split
    · exact ⟨hs.1, rfl⟩
    · exact ⟨hs.1, rfl⟩
  | stops _ =>
    rw [stop, setStatus_eq]
    exact hs
  | fails e _ _ => exact absurd rfl ht
  | reports _ _ =>
    rw [setStatus_eq]
    exact hs
  | tells _ _ =>
    rw [setStatus_eq]
    exact hs
  | closes _ => exact hs
  | shows _ hu _ =>
    obtain ⟨_, _, _, _, _, _, rfl⟩ := hu
    rw [renderAll, setStatus_eq]
    exact hs
  | batches _ _ => exact hs
  | aside _ hu =>
    obtain ⟨_, _, _, _, _, _, rfl⟩ := hu
    exact hs

theorem Beginning.unanswered (h : Beginning s mode t) (hs : s.Unanswered) (ht : t.phase ≠ .idle) :
    t.Unanswered := by
  cases h with
  | breaks e _ => exact absurd rfl ht
  | reports hu _ =>
    obtain ⟨_, _, _, _, _, _, rfl⟩ := hu
    rw [setStatus_eq, setStatus_eq]
    exact hs
  | renders hu _ =>
    obtain ⟨_, _, _, _, _, _, rfl⟩ := hu
    rw [renderAll, setStatus_eq, recorded, setStatus_eq]
    exact hs
  | grows hu _ =>
    obtain ⟨_, _, _, _, _, _, rfl⟩ := hu
    obtain ⟨e, u, _, heq⟩ | ⟨n, _, heq⟩ := beginGrowth_cases (recorded _ .grow _ _) _
    · rw [heq] at ht
      exact absurd rfl ht
    · rw [heq, setStatus_eq, recorded, setStatus_eq]
      exact hs

theorem unanswered_endGrowth (hs : s.Unanswered) (stage : Stage Segment) (id : Nat) :
    ({ s with stage := stage }.endGrowth id).Unanswered := by
  rw [endGrowth]
  split
  · rw [setStatus_eq]
    exact hs
  · exact hs

theorem Ticking.unanswered {id : Nat} (h : Ticking s id t) (hs : s.Unanswered)
    (ht : t.phase ≠ .idle) : t.Unanswered := by
  cases h with
  | rests _ => exact unanswered_endGrowth hs _ id
  | lasts _ _ => exact unanswered_endGrowth hs _ id
  | waits _ _ _ => exact hs
  | breaks _ _ => exact absurd rfl ht

theorem Stepping.unanswered (h : Stepping s t) (hs : s.Unanswered) (ht : t.phase ≠ .idle) :
    t.Unanswered := by
  cases h with
  | idles _ => exact hs
  | ends _ _ => exact absurd rfl ht
  | begins _ _ hbegin => exact hbegin.unanswered hs ht
  | ticks _ htick => exact htick.unanswered hs ht
  | resumes _ => exact hs
  | performs _ heffect => exact heffect.unanswered hs ht

theorem unanswered_iterate (hs : s.Sound) {n : Nat}
    (ht : (step^[n] (s.told c)).phase ≠ .idle) : (step^[n] (s.told c)).Unanswered := by
  induction n with
  | zero => exact (effect_perform _ c).unanswered ⟨rfl, rfl⟩ ht
  | succ n ih =>
    rw [Function.iterate_succ_apply'] at ht ⊢
    refine (stepping_step (sound_iterate (sound_told hs c) n).stage).unanswered (ih ?_) ht
    intro hrest
    rw [step_of_idle hrest] at ht
    exact ht hrest

/-! How the run begins. -/

/-- A run of a configuration that cannot be drawn does what a resize does with the view, and reports
the error. -/
theorem beginRun_of_report {e : DrawingError} (hdraw : s.config.draw s.limit = .error e)
    (hreport : e.isReport = true) (mode : Mode) :
    ∃ printed, s.beginRun mode = { s with
      stage := s.stage.stop
      view := s.resize.view
      viewport := s.resize.viewport
      printed := printed
      status := ⟨e.message, true⟩
      phase := .choosing none } := by
  obtain ⟨view, viewport, printed, hcanvas⟩ := exists_applyCanvas s.stopStage
  have hsight : s.stopStage.applyCanvas.2.sight = s.resize.sight := by
    rw [sight_resize]
    exact sight_applyCanvas_eq rfl rfl
  rw [hcanvas] at hsight
  obtain ⟨hview, hviewport⟩ := Prod.mk.inj hsight
  rw [beginRun_eq, hcanvas, setStatus_eq, drawRun, ← hview, ← hviewport]
  dsimp only [stopStage]
  rw [hdraw]
  dsimp only
  rw [if_pos hreport, setStatus_eq]
  exact ⟨_, rfl⟩

/-- The session after a run that was about to begin in it and could not draw the configuration. -/
def unchangedBut (s : Session) (message : List Char) (printed : Array (List Char)) : Session :=
  { s with
    stage := s.stage.stop
    view := s.resize.view
    viewport := s.resize.viewport
    status := ⟨message, true⟩
    failure := none
    pending := none
    phase := .idle
    printed := printed }

/-- A run of a configuration that cannot be drawn is the last one: no other has been asked for. -/
theorem exists_iterate_of_report {last : Option Nat} {e : DrawingError} (hs : s.Unanswered)
    (hphase : s.phase = .choosing last) (hpending : s.pending = some mode)
    (hdraw : s.config.draw s.limit = .error e) (hreport : e.isReport = true) :
    ∃ printed, step^[2] s = s.unchangedBut e.message printed := by
  obtain ⟨hfailure, hreply⟩ := hs
  let poised : Session := { s with pending := none }
  obtain ⟨printed, hbegin⟩ := beginRun_of_report (s := poised) hdraw hreport mode
  have hsight : poised.resize.sight = s.resize.sight := by
    rw [sight_resize, sight_resize]
    exact sight_applyCanvas_eq rfl rfl
  obtain ⟨hview, hviewport⟩ := Prod.mk.inj hsight
  have htwo : step^[2] s = s.step.step := rfl
  refine ⟨printed, ?_⟩
  rw [htwo, step_of_pending hphase hpending, hbegin, step_of_not_pending rfl rfl, hview, hviewport,
    unchangedBut, ← hfailure, ← hreply]

/-- A run of a configuration that cannot be drawn is the end of the command, whether the command
began it or it was asked for while another one grew. It changes nothing but the status: it stops
what is live, sees of the canvas what a resize would see, and reports the error, while the drawing
on record and the picture stay as they were. -/
theorem failed_run_changes_status_only {begun : Session} {e : DrawingError} (hs : Reached s)
    (hrun : ComesToRun s c mode begun)
    (hdraw : begun.config.draw begun.limit = .error e) (hreport : e.isReport = true) :
    (∃ printed, s.command c = begun.unchangedBut e.message printed) ∧
      (s.command c).record = begun.record ∧ (s.command c).stage.live = none ∧
      (s.command c).reply = none ∧ (s.command c).failure = none := by
  obtain ⟨n, last, hbegun, hphase, hpending⟩ := hrun
  have hfresh : begun.Unanswered := by
    rw [hbegun] at hphase ⊢
    exact unanswered_iterate hs.sound (by simp [hphase])
  obtain ⟨printed, hend⟩ := exists_iterate_of_report hfresh hphase hpending hdraw hreport
  obtain ⟨-, hreply⟩ := hfresh
  have hidle : (step^[2] begun).phase = .idle := by
    rw [hend]
    rfl
  rw [hbegun, ← Function.iterate_add_apply] at hidle
  have hcommand : s.command c = begun.unchangedBut e.message printed := by
    rw [command_of_iterate hidle, Function.iterate_add_apply, ← hbegun, hend, ite_eq_left_iff,
      unchangedBut, hreply]
    exact fun _ => rfl
  rw [hcommand]
  exact ⟨⟨printed, rfl⟩, congrArg (Record.mk _ _ _ _) (Stage.picture_stop _), Stage.live_stop _,
    hreply, rfl⟩

/-- Settings that are accepted, with a rule for two symbols. -/
def unruly : Settings where
  start := some "FF".toList
  rulesText := some "FF=F".toList
  iterations := .number (.whole 1)
  angle := .number (.whole 90)
  step := .number (.whole 1)
  pen := Config.defaultPen

/-- A session that is given these settings while it grows, and is then asked to render. -/
def derailed : Session := interruptedBy [.configure unruly, .key (some ['r'])]

/-- The growth was stopped after its first segment, which is still shown. -/
theorem derailed_keeps_first_segment :
    (derailed.command (.run (some (.text "grow".toList)))).failure = none ∧
      (derailed.command (.run (some (.text "grow".toList)))).status =
        ⟨"rule LHS must be a single character: 'FF'".toList, true⟩ ∧
      (derailed.command (.run (some (.text "grow".toList)))).lastMode = .grow ∧
      (derailed.command (.run (some (.text "grow".toList)))).stage.picture.segmentCount = 1 ∧
      (derailed.command (.run (some (.text "grow".toList)))).stage.live = none ∧
      (derailed.command (.run (some (.text "grow".toList)))).reply = none := by
  have hrun : ComesToRun derailed (.run (some (.text "grow".toList))) .render
      (step^[6] (derailed.told (.run (some (.text "grow".toList))))) := ⟨6, some 0, rfl, rfl, rfl⟩
  have hdraw : (step^[6] (derailed.told (.run (some (.text "grow".toList))))).config.draw
      (step^[6] (derailed.told (.run (some (.text "grow".toList))))).limit =
        .error (.rules (.notOneSymbol "FF".toList)) := rfl
  have hs : Reached derailed := reached_interruptedBy _
  obtain ⟨⟨printed, hcommand⟩, hrecord, hlive, hreply, hfailure⟩ :=
    failed_run_changes_status_only hs hrun hdraw rfl
  have hmode := congrArg Record.mode hrecord
  have hpicture := congrArg (fun record => record.picture.segmentCount) hrecord
  exact ⟨hfailure, congrArg Session.status hcommand, hmode, hpicture, hlive, hreply⟩

end Session

end Lindenmayer
