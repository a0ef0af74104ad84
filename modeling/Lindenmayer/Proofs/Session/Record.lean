import Lindenmayer.Proofs.Animation.Refusals
import Lindenmayer.Proofs.Session.Keys
import Lindenmayer.Proofs.Session.Picture

/-!
# The record of a refused run

A run puts its drawing on record before the growth of it begins. If the growth is refused, nothing
is drawn, and what the session tells of its latest drawing is no longer about the picture on its
stage, unless the drawing on record was the same before.
-/
namespace Lindenmayer

namespace Session

/-- What the session tells of its latest drawing, and the picture. -/
structure Record where
  segments : Option (Array Segment)
  mode : Mode
  stats : Option Stats
  statsLine : List Char
  picture : Picture Segment

def record (s : Session) : Record :=
  ⟨s.lastSegments, s.lastMode, s.stats, s.statsLine, s.stage.picture⟩

/-- The drawing of the configuration is on record as that of a growth, but nothing has grown. -/
structure Refused (s t : Session) : Prop where
  drawn : t.Drawn
  mode : t.lastMode = .grow
  config : t.config = s.config
  limit : t.limit = s.limit
  stage : t.stage = s.stage

variable {s : Session}

/-- When the batch or the delay is refused, a growth that fails for it has put its drawing on
record. -/
theorem refused_settle_drawRun {e : GrowthError} (hpending : s.pending = none)
    (hok : s.failure = none) (hrefused : s.batch.below 1 = true ∨ s.delay.below 0 = true)
    (hraised : (s.drawRun .grow).settle.failure = some (.growth e)) :
    Refused s (s.drawRun .grow).settle := by
  rw [drawRun] at hraised ⊢
  cases hdrawn : s.config.draw s.limit with
  | error e' =>
    -- an error of the drawing is reported, or it is no error of the growth
    rw [hdrawn] at hraised
    dsimp only at hraised
    split at hraised
    · have hnothing := (pending_setStatus s e'.message true).trans hpending
      rw [settle_of_not_pending (s := { s.setStatus e'.message true with phase := .choosing none })
        rfl hnothing, setStatus_eq] at hraised
      cases hok.symm.trans hraised
    · rw [settle_of_idle rfl] at hraised
      cases hraised
  | ok drawing =>
    obtain ⟨segments, stats⟩ := drawing
    obtain ⟨e', hstart⟩ := Stage.start_of_refused hrefused s.stage segments.toArray
    dsimp only
    rw [beginGrowth]
    dsimp only
    rw [hstart, settle_of_idle rfl]
    exact ⟨⟨segments, stats, hdrawn, rfl, rfl⟩, rfl, rfl, rfl, rfl⟩

theorem refused_settle_beginRun {e : GrowthError} (hpending : s.pending = none)
    (hok : s.failure = none) (hrefused : s.batch.below 1 = true ∨ s.delay.below 0 = true)
    (hraised : (s.beginRun .grow).settle.failure = some (.growth e)) :
    Refused s.stopStage (s.beginRun .grow).settle := by
  obtain ⟨view, viewport, printed, hcanvas⟩ := exists_applyCanvas s.stopStage
  rw [beginRun] at hraised ⊢
  split at hraised
  · rw [settle_of_idle rfl] at hraised
    cases hraised
  · next hu =>
    rw [hu] at hcanvas
    subst hcanvas
    rw [setStatus_eq] at hraised ⊢
    obtain ⟨hdrawn, hmode, hconfig, hlimit, hstage⟩ :=
      refused_settle_drawRun (s := { s.stopStage with
        view := view, viewport := viewport, printed := printed, status := ⟨[], false⟩ })
        hpending hok hrefused hraised
    exact ⟨hdrawn, hmode, hconfig, hlimit, hstage⟩

/-- The drawing of a configuration under a limit is what the record tells of it. -/
theorem Drawn.record_eq {t : Session} (h : s.Drawn) (h' : t.Drawn) (hconfig : t.config = s.config)
    (hlimit : t.limit = s.limit) : t.lastSegments = s.lastSegments ∧ t.stats = s.stats := by
  obtain ⟨segments, stats, hdraw, hsegments, hstats⟩ := h
  obtain ⟨segments', stats', hdraw', hsegments', hstats'⟩ := h'
  rw [hconfig, hlimit, hdraw] at hdraw'
  obtain ⟨rfl, rfl⟩ := Prod.mk.inj (Except.ok.inj hdraw')
  exact ⟨hsegments'.trans hsegments.symm, hstats'.trans hstats.symm⟩

/-- A run that is to grow with a batch or a delay that is refused changes nothing on the stage but
that it stops what is live. Its drawing is on record all the same, so the record stays what it was
exactly if the same drawing in the same mode was on record before. -/
theorem refused_run_keeps_record_iff {c : SessionCommand} {e : GrowthError}
    (hidle : s.phase = .idle) (hc : answers c = true) (hask : s.ask c = some (.run .grow))
    (hrefused : s.batch.below 1 = true ∨ s.delay.below 0 = true)
    (hraised : (s.command c).failure = some (.growth e)) :
    (s.command c).Drawn ∧ (s.command c).lastMode = .grow ∧
      (s.command c).stage = s.stage.stop ∧
      ((s.command c).record = s.record ↔ s.Drawn ∧ s.lastMode = .grow) := by
  have hcommand := command_of_ask hidle hc hask
  have hrun : Refused s.poised.stopStage (s.command c) := by
    rw [hcommand] at hraised ⊢
    exact refused_settle_beginRun rfl rfl hrefused hraised
  have hconfig : (s.command c).config = s.config := hrun.config
  have hlimit : (s.command c).limit = s.limit := hrun.limit
  have hstage : (s.command c).stage = s.stage.stop := hrun.stage
  refine ⟨hrun.drawn, hrun.mode, hstage, ?_⟩
  constructor
  · intro hkept
    have hmode : (s.command c).lastMode = s.lastMode := congrArg Record.mode hkept
    have hsegments : (s.command c).lastSegments = s.lastSegments := congrArg Record.segments hkept
    have hstats : (s.command c).stats = s.stats := congrArg Record.stats hkept
    have hdrawn := hrun.drawn
    rw [Drawn, hconfig, hlimit, hsegments, hstats] at hdrawn
    exact ⟨hdrawn, hmode.symm.trans hrun.mode⟩
  · rintro ⟨hdrawn, hmode⟩
    obtain ⟨hsegments, hstats⟩ := hdrawn.record_eq hrun.drawn hconfig hlimit
    rw [record, record, statsLine, statsLine, hsegments, hstats, hrun.mode, hmode, hstage,
      Stage.picture_stop]

/-- A new session that draws one segment, with a batch that is refused. -/
def unstartable : Session :=
  new ⟨"F".toList, [], 0, 90, 1, Config.defaultPen⟩ (.whole 0) (.whole 0) Config.defaultLimit
    .empty .quiet

theorem command_unstartable : unstartable.command (.request (.text "grow".toList)) =
    unstartable.poised.beginRun .grow := by
  rw [command_of_ask rfl rfl rfl]
  exact settle_of_idle rfl

/-- When the run is asked for a second time, it is on record already, and nothing changes. -/
theorem unstartable_stays_refused :
    ((unstartable.command (.request (.text "grow".toList))).command (.run none)).record =
      (unstartable.command (.request (.text "grow".toList))).record := by
  have hraised : (unstartable.command (.request (.text "grow".toList))).failure =
      some (.growth (.batchBelowOne (.whole 0))) := by
    rw [command_unstartable]
    rfl
  have hagain : ((unstartable.command (.request (.text "grow".toList))).command (.run none)).failure =
      some (.growth (.batchBelowOne (.whole 0))) := by
    have hask : (unstartable.poised.beginRun .grow).ask (.run none) = some (.run .grow) := rfl
    rw [command_unstartable, command_of_ask rfl rfl hask, settle_of_idle rfl]
    rfl
  obtain ⟨hdrawn, hmode, _, _⟩ :=
    refused_run_keeps_record_iff rfl rfl rfl (Or.inl rfl) hraised
  have hbatch : (unstartable.command (.request (.text "grow".toList))).batch.below 1 = true := by
    rw [command_unstartable]
    rfl
  have hask : (unstartable.command (.request (.text "grow".toList))).ask (.run none) =
      some (.run .grow) := by
    rw [ask, hmode]
  exact (refused_run_keeps_record_iff (phase_command _ _) rfl hask (Or.inl hbatch) hagain).2.2.2.2
    ⟨hdrawn, hmode⟩

/-- A session that has drawn nothing has a segment on record after the refused run, and still an
empty picture. -/
theorem unstartable_records_undrawn :
    unstartable.Idle ∧
    (unstartable.command (.request (.text "grow".toList))).failure =
      some (.growth (.batchBelowOne (.whole 0))) ∧
    unstartable.lastSegments = none ∧ unstartable.statsLine = [] ∧
    (∃ segment, (unstartable.command (.request (.text "grow".toList))).lastSegments =
      some #[segment]) ∧
    (unstartable.command (.request (.text "grow".toList))).statsLine =
      "expanded length: 1\nsegments: 1".toList ∧
    (unstartable.command (.request (.text "grow".toList))).stage.picture.segments = [] := by
  rw [command_unstartable]
  exact ⟨⟨rfl, rfl, rfl⟩, rfl, rfl, rfl, ⟨_, rfl⟩, by decide +kernel, rfl⟩

end Session

end Lindenmayer
