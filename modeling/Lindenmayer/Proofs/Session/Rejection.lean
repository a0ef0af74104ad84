import Lindenmayer.Proofs.Session.Comparison
import Lindenmayer.Proofs.Session.Counts
import Lindenmayer.Proofs.Session.Modes

/-!
# Numbers of iterations that are refused

A change of the number of iterations that is refused says so in the status, and touches nothing
else, unless the number has so many digits that it cannot be said. While a growth waits nothing
looks at the status, and the one that the growth ends with takes its place. So a growth that has
such changes in its waits ends as it would have without them.
-/
namespace Lindenmayer

/-- By how much the command is to change the number of iterations. -/
def SessionCommand.delta? : SessionCommand → Option Numeric
  | .changeIterations delta => some delta
  | .key (some name) =>
    if name = "up".toList then some (.whole 1)
    else if name = "down".toList then some (.whole (-1))
    else none
  | _ => none

/-- Nothing is left to be performed in the wait. -/
def Phase.emptied : Phase → Phase
  | .waiting id _ => .waiting id []
  | phase => phase

/-- The number of iterations would be `i` after the change, which is refused. -/
structure Config.Rejects (c : Config) (delta i : Numeric) (e : ConfigError) : Prop where
  sum : Numeric.addInt? c.iterations delta = some i
  error : make (c.settings i) = .error e

/-- The command is a change that is refused, by a number that can be said. -/
def Config.Declines (c : Config) (d : SessionCommand) : Prop :=
  ∃ delta i e, d.delta? = some delta ∧ c.Rejects delta i e ∧ i.isWritable = true

namespace Session

open SessionCommand

variable {s t : Session} {d : SessionCommand} {delta i : Numeric} {e : ConfigError} {id : Nat}

theorem perform_of_change (h : d.delta? = some delta) :
    s.perform d = s.changeIterations delta := by
  cases d with
  | changeIterations given =>
    obtain rfl := Option.some.inj h
    rfl
  | key name =>
    cases name with
    | none => cases h
    | some name =>
      rw [delta?] at h
      split at h
      · next hup =>
        obtain rfl := Option.some.inj h
        simp [perform, pressKey, hup]
      · split at h
        · next hdown =>
          obtain rfl := Option.some.inj h
          simp [perform, pressKey, hdown]
        · cases h
  | _ => cases h

theorem changeIterations_of_rejects (h : s.config.Rejects delta i e) :
    s.changeIterations delta =
      if i.isWritable then s.setStatus e.message true else s.fail (.config e) := by
  rw [changeIterations, h.sum]
  dsimp only
  rw [h.error]
  dsimp only
  rw [Config.isReport_of_make_settings h.error]

theorem perform_of_declines (h : s.config.Declines d) :
    ∃ text, s.perform d = s.setStatus text true := by
  obtain ⟨delta, i, e, hchange, hrejects, hwritable⟩ := h
  refine ⟨e.message, ?_⟩
  rw [perform_of_change hchange, changeIterations_of_rejects hrejects, if_pos hwritable]

/-! A growth with such changes in its waits, beside one with nothing in them. -/

/-- The second session is in the same growth as the first, with nothing to be performed in its
waits. Only what is printed and the status may differ, and the latter only if there are waits. -/
structure Muffled (id : Nat) (s t : Session) : Prop where
  growth : s.phase.growth? = some id
  pending : s.pending = none
  canDraw : ∃ g, s.stage.CanDraw id g ∧
    (g.gap? = none → s.phase = .growing id ∧ t.status = s.status)
  same : ∃ status printed, t = { s with
    phase := s.phase.emptied, onWait := .quiet, status := status, printed := printed }

variable {rest : List SessionCommand}

theorem Muffled.isRunning (h : Muffled id s t) : t.isRunning = true := by
  have hgrowth := h.growth
  obtain ⟨_, _, rfl⟩ := h.same
  rw [Session.isRunning]
  cases hphase : s.phase with
  | growing k => rfl
  | waiting k rest => rfl
  | _ =>
    rw [hphase] at hgrowth
    cases hgrowth

/-- The second session has nothing to perform meanwhile. -/
theorem Muffled.performs (h : Muffled id s t) (hphase : s.phase = .waiting id (d :: rest))
    (hd : s.config.Declines d) : Muffled id s.step t ∧ s.step.config = s.config := by
  obtain ⟨-, hpending, ⟨g, hcan, hgap⟩, status, printed, rfl⟩ := h
  obtain ⟨text, hperform⟩ := perform_of_declines (s := { s with phase := .waiting id rest }) hd
  rw [step_of_waiting hphase, hperform, setStatus_eq, hphase]
  refine ⟨⟨rfl, hpending, ⟨g, hcan, ?_⟩, status, printed, rfl⟩, rfl⟩
  intro hnone
  cases hphase.symm.trans (hgap hnone).1

theorem Muffled.resumes (h : Muffled id s t) (hphase : s.phase = .waiting id []) :
    Muffled id s.step t.step ∧ s.step.config = s.config := by
  obtain ⟨-, hpending, ⟨g, hcan, hgap⟩, status, printed, rfl⟩ := h
  rw [step_of_waited hphase, step_of_waited (by rw [hphase]; rfl)]
  refine ⟨⟨rfl, hpending, ⟨g, hcan, ?_⟩, status, printed, rfl⟩, rfl⟩
  intro hnone
  cases hphase.symm.trans (hgap hnone).1

/-- Both sessions rest after the first batch that has no wait after it. -/
theorem Muffled.draws (h : Muffled id s t) (hphase : s.phase = .growing id) :
    (Muffled id s.step t.step ∧ s.step.config = s.config) ∨
      ∃ printed, t.settle = { s.settle with onWait := .quiet, printed := printed } := by
  obtain ⟨-, hpending, ⟨g, hcan, hgap⟩, status, printed, ht⟩ := h
  have hphase' : t.phase = .growing id := by rw [ht, hphase]; rfl
  have hcan' : t.stage.CanDraw id g := by rw [ht]; exact hcan
  have hpending' : t.pending = none := by rw [ht]; exact hpending
  rcases g.nextStop_le_total.lt_or_eq with hmore | hlast
  · cases hseconds : g.gap? with
    | none =>
      -- without waits between the batches nothing is performed, and the rest is drawn in one go
      obtain ⟨-, hstatus⟩ := hgap hseconds
      right
      rw [settle_of_gapless hphase hcan hmore hseconds,
        settle_of_gapless hphase' hcan' hmore hseconds]
      rw [ht] at hstatus ⊢
      obtain rfl : status = s.status := hstatus
      exact ⟨printed, rfl⟩
    | some seconds =>
      left
      rw [step_of_growing hphase, tick_of_more hcan hmore hseconds, step_of_growing hphase',
        tick_of_more hcan' hmore hseconds, ht]
      refine ⟨⟨rfl, hpending, ⟨{ g with cursor := g.nextStop }, ?_, ?_⟩, status, printed, rfl⟩, rfl⟩
      · exact ⟨hcan.live, hcan.found_drawBatch, hcan.cancelled⟩
      · intro hnone
        cases hseconds.symm.trans hnone
  · right
    rw [settle_of_last hphase hpending hcan hlast, settle_of_last hphase' hpending' hcan' hlast, ht]
    exact ⟨_, rfl⟩

theorem Muffled.settle (h : Muffled id s t) (hd : ∀ d ∈ s.heard, s.config.Declines d) :
    ∃ printed, t.settle = { s.settle with onWait := .quiet, printed := printed } := by
  -- on the steps of the first session: the second stands still while the first performs a command
  induction s using Session.settle.induct generalizing t with
  | case1 s hrun ih =>
    rw [heard_of_running hrun] at hd
    have hgoes : ∀ {u : Session}, Muffled id s.step u ∧ s.step.config = s.config →
        ∃ printed, u.settle = { s.settle with onWait := .quiet, printed := printed } := by
      rintro u ⟨hstep, hconfig⟩
      rw [settle_of_running hrun]
      refine ih hstep fun d hmem => ?_
      rw [hconfig]
      exact hd d (List.mem_append_right _ hmem)
    have hgrowth := h.growth
    cases hphase : s.phase with
    | idle =>
      rw [hphase] at hgrowth
      cases hgrowth
    | choosing last =>
      rw [hphase] at hgrowth
      cases hgrowth
    | growing k =>
      rw [hphase] at hgrowth
      obtain rfl := Option.some.inj hgrowth
      rcases h.draws hphase with hnext | hends
      · rw [settle_of_running h.isRunning]
        exact hgoes hnext
      · exact hends
    | waiting k rest =>
      rw [hphase] at hgrowth
      obtain rfl := Option.some.inj hgrowth
      cases rest with
      | nil =>
        rw [settle_of_running h.isRunning]
        exact hgoes (h.resumes hphase)
      | cons d rest =>
        refine hgoes (h.performs hphase (hd d ?_))
        simp [imminent, hphase, waitingCommands]
  | case2 s hrest =>
    have hgrowth := h.growth
    rw [idle_of_not_running hrest] at hgrowth
    cases hgrowth

/-! A run with such changes in its waits. -/

/-- A growth may draw when it begins. -/
theorem Beginning.canDraw {mode : Mode} (h : Beginning s mode t) (ht : t.phase = .growing id) :
    ∃ g, t.stage.CanDraw id g := by
  cases h with
  | breaks _ _ => cases ht
  | reports _ _ => cases ht
  | renders _ _ => cases ht
  | @grows u segments stats _ _ =>
    generalize u.recorded .grow segments stats = v at ht
    obtain ⟨e, stage, _, heq⟩ | ⟨n, _, heq⟩ := beginGrowth_cases v segments.toArray
    · rw [heq] at ht
      cases ht
    · rw [heq, setStatus_eq] at ht ⊢
      obtain rfl := Phase.growing.inj ht
      have hadded := v.stage.stop.clear.growth_addDetached segments.toArray (.whole n) v.delay
        v.stage.growths.size
      rw [if_pos v.stage.size_wiped.symm] at hadded
      exact ⟨_, rfl, hadded, rfl⟩

/-- A run that grows has begun in both sessions, or it is over at once. -/
theorem settle_of_beginning {u : Session} (h : Beginning u .grow s) (hu : u.pending = none)
    (ht : Apart s.canvas .quiet s t) (hd : ∀ d ∈ s.heard, s.config.Declines d) :
    ∃ printed, t.settle = { s.settle with onWait := .quiet, printed := printed } := by
  have hpending : s.pending = none := h.pending_eq.trans hu
  obtain ⟨printed, rfl⟩ := ht
  obtain ⟨hphase, -⟩ | ⟨hphase, -⟩ | ⟨hphase, -⟩ := h.phase_cases
  · rw [settle_of_idle (by exact hphase), settle_of_idle hphase]
    exact ⟨printed, rfl⟩
  · rw [settle_of_not_pending (by exact hphase) (by exact hpending),
      settle_of_not_pending hphase hpending]
    exact ⟨printed, rfl⟩
  · obtain ⟨g, hcan⟩ := h.canDraw hphase
    have hemptied : s.phase.emptied = s.phase := by
      rw [hphase]
      rfl
    refine Muffled.settle ⟨congrArg Phase.growth? hphase, hpending, ⟨g, hcan, ?_⟩, s.status,
      printed, ?_⟩ hd
    · exact fun _ => ⟨hphase, rfl⟩
    · rw [hemptied]

theorem settle_of_declined {last : Option Nat} (hphase : s.phase = .choosing last)
    (hpending : s.pending = some .grow) (hd : ∀ d ∈ s.heard, s.config.Declines d) :
    ∃ printed, { s with onWait := .quiet }.settle =
      { s.settle with onWait := .quiet, printed := printed } := by
  have hrun : s.isRunning = true := by simp [isRunning, hphase]
  have hquiet : Apart s.canvas .quiet { s with pending := none }
      { s with pending := none, onWait := .quiet } := ⟨s.printed, rfl⟩
  rw [heard_of_running hrun, step_of_pending hphase hpending] at hd
  rw [settle_of_running (s := { s with onWait := .quiet }) hrun,
    step_of_pending (s := { s with onWait := .quiet }) hphase hpending, settle_of_running hrun,
    step_of_pending hphase hpending]
  refine settle_of_beginning (beginning_beginRun { s with pending := none } .grow) rfl ?_ ?_
  · rw [canvas_beginRun]
    exact hquiet.beginRun (Or.inl rfl) .grow
  · rw [config_beginRun]
    exact fun d hmem => hd d (List.mem_append_right _ hmem)

/-- A change of the number of iterations that is refused changes the status and nothing else, unless
the number that it would come to has so many digits that it cannot be said: then it fails. A run
that grows and has nothing but such changes in its waits ends as it would have without them, in all
but what is printed and what is left of the schedule. -/
theorem rejected_change_is_harmless (s : Session) :
    (∀ (d : SessionCommand) (delta i : Numeric) (e : ConfigError),
      d.delta? = some delta → s.config.Rejects delta i e →
        (i.isWritable = true →
          ∃ printed, s.perform d = { s with status := ⟨e.message, true⟩, printed := printed }) ∧
        (i.isWritable = false → s.perform d = s.fail (.config e))) ∧
    ∀ last, s.phase = .choosing last → s.pending = some .grow →
      (∀ d ∈ s.heard, s.config.Declines d) →
        ∃ printed onWait, s.settle =
          { { s with onWait := .quiet }.settle with printed := printed, onWait := onWait } := by
  refine ⟨fun d delta i e hchange hrejects => ?_, fun last hphase hpending hd => ?_⟩
  · rw [perform_of_change hchange, changeIterations_of_rejects hrejects]
    constructor
    · intro hwritable
      rw [if_pos hwritable, setStatus_eq]
      exact ⟨_, rfl⟩
    · intro hwritable
      rw [hwritable]
      rfl
  · obtain ⟨printed, hsettled⟩ := settle_of_declined hphase hpending hd
    exact ⟨s.settle.printed, s.settle.onWait, by rw [hsettled]⟩

/-- A session that is told twice in a wait to take an iteration away, with none left. -/
def insistent : Session :=
  interruptedBy [.key (some "down".toList), .changeIterations (.whole (-1))]

theorem declines_minus_one {d : SessionCommand} (hd : d.delta? = some (.whole (-1))) :
    insistent.config.Declines d := by
  obtain ⟨e, hmake, -⟩ := insistent.config.make_settings_minus_one
  exact ⟨.whole (-1), .whole (-1), e, hd, ⟨rfl, hmake⟩, by decide +kernel⟩

/-- Both changes are refused, and both segments are drawn. -/
theorem insistent_grows :
    (insistent.told (.run (some (.text "grow".toList)))).heard =
      [.key (some "down".toList), .changeIterations (.whole (-1))] ∧
    (insistent.told (.run (some (.text "grow".toList)))).settle.status = ⟨"Grown.".toList, false⟩ ∧
    (insistent.told (.run (some (.text "grow".toList)))).settle.stage.picture.strokes.size = 2 ∧
    ∃ e : ConfigError,
      (insistent.perform (.key (some "down".toList))).status = ⟨e.message, true⟩ := by
  have hidle : (step^[7] (insistent.told (.run (some (.text "grow".toList))))).phase = .idle :=
    idle_of_not_running (by decide +kernel)
  have hheard : (insistent.told (.run (some (.text "grow".toList)))).heard =
      [.key (some "down".toList), .changeIterations (.whole (-1))] :=
    (heard_eq_heardWithin hidle).trans rfl
  have hdown : (SessionCommand.key (some "down".toList)).delta? = some (.whole (-1)) := by
    simp [delta?]
  have hdeclined : ∀ d ∈ (insistent.told (.run (some (.text "grow".toList)))).heard,
      insistent.config.Declines d := by
    rw [hheard]
    intro d hmem
    rcases List.mem_pair.1 hmem with rfl | rfl
    · exact declines_minus_one hdown
    · exact declines_minus_one rfl
  obtain ⟨-, hrun⟩ :=
    rejected_change_is_harmless (insistent.told (.run (some (.text "grow".toList))))
  obtain ⟨printed, onWait, hsettled⟩ := hrun none rfl rfl hdeclined
  have hquiet := settle_eq_iterate (n := 5)
    (s := { insistent.told (.run (some (.text "grow".toList))) with onWait := .quiet }) rfl
  obtain ⟨e, hmake, -⟩ := insistent.config.make_settings_minus_one
  obtain ⟨honce, -⟩ := rejected_change_is_harmless insistent
  obtain ⟨hsaid, -⟩ := honce _ _ _ e hdown ⟨rfl, hmake⟩
  obtain ⟨lines, hperform⟩ := hsaid (by decide +kernel)
  refine ⟨hheard, ?_, ?_, e, congrArg Session.status hperform⟩
  · exact (congrArg Session.status hsettled).trans (congrArg Session.status hquiet)
  · exact (congrArg (fun t => t.stage.picture.strokes.size) hsettled).trans
      (congrArg (fun t => t.stage.picture.strokes.size) hquiet)

/-- The least change by which one iteration becomes a number that cannot be said. -/
def farTooMany : Numeric := .whole ((Nat.pow 10 Number.maxIntDigits : Nat) - 1)

/-- A new session with one iteration. -/
def moderate : Session :=
  new ⟨"F".toList, [], 1, 90, 1, Config.defaultPen⟩ (.whole 1) (.whole 0) Config.defaultLimit
    (.ofPixels 100 80) .quiet

/-- The change is refused, but it fails, and nothing is reported. -/
theorem moderate_fails_unreported : Reached moderate ∧ moderate.phase = .idle ∧
    (∃ i e, moderate.config.Rejects farTooMany i e) ∧
    (moderate.changeIterations farTooMany).failure ≠ none ∧
    (moderate.changeIterations farTooMany).status = Status.blank := by
  have hnone : (Config.make (moderate.config.settings (.whole (1 +
      ((Nat.pow 10 Number.maxIntDigits : Nat) - 1))))).isOk = false := by decide +kernel
  refine ⟨⟨_, _, _, _, _, _, .refl⟩, rfl, ?_, ?_, ?_⟩
  · cases hmake : Config.make (moderate.config.settings (.whole (1 +
        ((Nat.pow 10 Number.maxIntDigits : Nat) - 1)))) with
    | error e => exact ⟨_, e, rfl, hmake⟩
    | ok c =>
      rw [hmake] at hnone
      cases hnone
  · exact Option.isSome_iff_ne_none.1 (by decide +kernel)
  · decide +kernel

end Session

end Lindenmayer
