import Lindenmayer.CommandLine.Program
import Lindenmayer.Proofs.Config.Recount
import Lindenmayer.Proofs.Expansion.Generations
import Lindenmayer.Proofs.Session.Queue
import Lindenmayer.Proofs.Stages
import Lindenmayer.Proofs.Turtle.Heading

/-!
# What becomes of a configuration that cannot be drawn

Rules that cannot be read and words that grow too long are mistakes of the user: a session shows
them in its status line and stays usable, and the program ends with a message. Two more things can go
wrong and are reported by neither. The angle of a configuration is only checked to be finite, but in
radians it may not be, and repeated turns may add up to infinity; a symbol that draws then breaks
off the session and the program. No word does so if the angle is at most `1e292` degrees in size.
And a limit on the length of words may have too many digits to be repeated when a word outgrows it.
-/
namespace Lindenmayer

/-- Following the expanded word of the configuration fails. -/
def Config.LosesHeading (c : Config) (limit : Limit) : Prop :=
  ∃ w, c.expand limit = .ok w ∧ w.LosesHeading c.gait c.pen

/-- A word of the configuration outgrows the limit, which cannot be said: the limit or the number of
iterations has too many digits. -/
def Config.OutgrowsUnsaid (c : Config) (limit : Limit) : Prop :=
  ∃ M t, limit = .atMost M ∧ RuleTable.ofText c.rulesText = .ok t ∧
    t.Outgrows M c.iterations c.start ∧
    ¬ (Number.isWritable M = true ∧ Number.isWritable c.iterations = true)

namespace Session

/-- A session at rest with this configuration and limit is asked for a run in a mode there is. -/
structure IsAsked (s : Session) (requested : Option Value) (c : Config) (limit : Limit) : Prop where
  config : s.config = c
  limit : s.limit = limit
  phase : s.phase = .idle
  mode : ∃ mode, s.ask (.run requested) = some (.run mode)

/-- A run of a configuration that cannot be drawn. -/
theorem beginRun_of_draw_error {s : Session} {e : DrawingError}
    (he : s.config.draw s.limit = .error e) (mode : Mode) :
    if e.isReport then (s.beginRun mode).phase = .choosing none ∧
      (s.beginRun mode).pending = s.pending ∧ (s.beginRun mode).failure = s.failure ∧
      (s.beginRun mode).status = ⟨e.message, true⟩
    else (s.beginRun mode).phase = .idle ∧ (s.beginRun mode).failure = some (.drawing e) := by
  obtain ⟨view, viewport, printed, hbegin⟩ := s.exists_beginRun mode
  rw [hbegin, drawRun, he]
  dsimp only
  cases hreport : e.isReport with
  | true =>
    rw [setStatus_eq]
    exact ⟨rfl, rfl, rfl, rfl⟩
  | false => exact ⟨rfl, rfl⟩

/-- A session at rest that is asked for a configuration that cannot be drawn. -/
theorem command_of_draw_error {s : Session} {requested : Option Value} {c : Config} {limit : Limit}
    {e : DrawingError} (h : s.IsAsked requested c limit) (he : c.draw limit = .error e) :
    if e.isReport then (s.command (.run requested)).failure = none ∧
      (s.command (.run requested)).status = ⟨e.message, true⟩
    else (s.command (.run requested)).failure = some (.drawing e) := by
  obtain ⟨rfl, rfl, hphase, ⟨mode, hmode⟩⟩ := h
  have hbegin := beginRun_of_draw_error (s := s.poised) he mode
  rw [command_of_ask hphase rfl hmode]
  generalize s.poised.beginRun mode = t at hbegin ⊢
  cases hreport : e.isReport with
  | true =>
    rw [hreport, if_pos rfl] at hbegin
    obtain ⟨hchoosing, hnothing, hfailure, hstatus⟩ := hbegin
    rw [settle_of_not_pending hchoosing hnothing, if_pos rfl]
    exact ⟨hfailure, hstatus⟩
  | false =>
    rw [hreport, if_neg Bool.false_ne_true] at hbegin
    obtain ⟨hidle, hfailure⟩ := hbegin
    rw [settle_of_idle hidle, if_neg Bool.false_ne_true]
    exact hfailure

end Session

namespace DrawingError

variable (e : DrawingError) (c : Config) (limit : Limit)

/-- The error is shown to the user, wherever the configuration is drawn: a session comes to rest
with the message in its status line, and the program ends with status 2 and says nothing else. -/
structure IsShown : Prop where
  session : ∀ (s : Session) (requested : Option Value), s.IsAsked requested c limit →
    (s.command (.run requested)).phase = .idle ∧ (s.command (.run requested)).failure = none ∧
      (s.command (.run requested)).status = ⟨e.message, true⟩
  program : ∀ (o : Options) (around : Surroundings) (events : Schedule WindowEvent),
    o.config around = .ok c → o.limit = limit →
      o.run around events = .silent 2 ("error: ".toList ++ e.message)

/-- The error breaks off whatever draws the configuration. -/
structure BreaksOff : Prop where
  session : ∀ (s : Session) (requested : Option Value), s.IsAsked requested c limit →
    (s.command (.run requested)).failure = some (.drawing e)
  program : ∀ (o : Options) (around : Surroundings) (events : Schedule WindowEvent),
    o.config around = .ok c → o.limit = limit →
      o.run around events = ⟨.broken (.drawing e), [], none, [], .nothing⟩

variable {e c limit}

theorem isShown_of_draw (he : c.draw limit = .error e) (hreport : e.isReport = true) :
    e.IsShown c limit where
  session s requested hs := by
    have h := Session.command_of_draw_error hs he
    rw [if_pos hreport] at h
    exact ⟨s.phase_command _, h⟩
  program o around events hc hlimit := by
    rw [Options.run_of_draw_error hc (hlimit ▸ he), if_pos hreport]

theorem breaksOff_of_draw (he : c.draw limit = .error e) (hreport : e.isReport = false) :
    e.BreaksOff c limit where
  session s requested hs := by
    have h := Session.command_of_draw_error hs he
    rwa [if_neg (by simp [hreport])] at h
  program o around events hc hlimit := by
    rw [Options.run_of_draw_error hc (hlimit ▸ he), if_neg (by simp [hreport])]

end DrawingError

namespace Config

variable {c : Config} {limit : Limit}

/-- A word of the configuration has to be measured: there is a first generation, and it changes the
start word. -/
def IsMeasured (c : Config) : Prop :=
  ∃ t, RuleTable.ofText c.rulesText = .ok t ∧ c.iterations ≠ 0 ∧ t.substitute c.start ≠ c.start

theorem outgrows_void_iff {t : RuleTable} {n : Nat} {w : Word} :
    t.Outgrows (-1) n w ↔ n ≠ 0 ∧ t.substitute w ≠ w := by
  constructor
  · rintro ⟨hn, hchange, -⟩
    exact ⟨by omega, hchange⟩
  · rintro ⟨hn, hchange⟩
    exact ⟨by omega, hchange, 1, by omega, by omega, by omega⟩

/-- Only a void limit cannot measure, and it fails as soon as it has to. -/
theorem expand_unmeasured_iff :
    c.expand limit = .error .unmeasured ↔ limit = .void ∧ c.IsMeasured := by
  constructor
  · intro h
    rw [expand] at h
    cases htable : RuleTable.ofText c.rulesText with
    | error fault =>
      rw [htable] at h
      cases h
    | ok t =>
      rw [htable] at h
      obtain ⟨overgrowth, hexpand, hfault⟩ := error_of_mapError h
      cases limit with
      | unlimited => cases hfault
      | atMost n => cases hfault
      | void =>
        refine ⟨rfl, t, htable, ?_⟩
        rw [← outgrows_void_iff]
        by_contra hout
        cases hexpand.symm.trans (RuleTable.expand_of_not_outgrows hout)
  · rintro ⟨rfl, t, htable, hmeasured⟩
    obtain ⟨generation, -, hfails⟩ := RuleTable.expand_of_outgrows (outgrows_void_iff.2 hmeasured)
    rw [expand, htable]
    exact congrArg (Except.mapError Limit.void.fault) hfails

theorem draw_disoriented_iff :
    c.draw limit = .error (.disoriented ⟨⟩) ↔ c.LosesHeading limit := by
  rw [draw_error_iff, LosesHeading]
  constructor
  · rintro (h | ⟨w, d, hw, hd, -⟩)
    · obtain ⟨fault, hfault⟩ | ⟨overgrowth, hfault⟩ := expand_error h
      · cases hfault
      · cases limit <;> cases hfault
    · exact ⟨w, hw, Word.segments_error_iff.1 hd⟩
  · rintro ⟨w, hw, hloses⟩
    exact Or.inr ⟨w, ⟨⟩, hw, Word.segments_error_iff.2 hloses, rfl⟩

theorem exists_expand_unsaid_iff :
    (∃ e, c.expand limit = .error (.overgrown e) ∧ e.isReport = false) ↔
      c.OutgrowsUnsaid limit := by
  constructor
  · rintro ⟨e, h, hunsaid⟩
    rw [expand] at h
    cases htable : RuleTable.ofText c.rulesText with
    | error fault =>
      rw [htable] at h
      cases h
    | ok t =>
      rw [htable] at h
      obtain ⟨overgrowth, hexpand, hfault⟩ := error_of_mapError h
      cases limit with
      | unlimited => cases (RuleTable.expand_none t c.iterations c.start).symm.trans hexpand
      | void => cases hfault
      | atMost M =>
        obtain rfl := DrawingError.overgrown.inj hfault
        obtain ⟨hout, -, -, -, hsaid⟩ := RuleTable.of_expand_error hexpand
        exact ⟨M, t, rfl, htable, hout, fun hwritable =>
          Bool.eq_false_iff.1 hunsaid (hsaid.2 hwritable)⟩
  · rintro ⟨M, t, rfl, htable, hout, hlong⟩
    obtain ⟨i, -, hfails⟩ := RuleTable.expand_of_outgrows hout
    obtain ⟨-, -, -, -, hsaid⟩ := RuleTable.of_expand_error hfails
    refine ⟨_, ?_, Bool.eq_false_iff.2 (mt hsaid.1 hlong)⟩
    rw [expand, htable]
    exact congrArg (Except.mapError (Limit.atMost M).fault) hfails

/-- A drawing that fails is reported, unless a void limit had to measure a word, the heading was lost
or there is no saying what is too long. -/
theorem isReport_iff_of_draw_error {e : DrawingError} (h : c.draw limit = .error e) :
    e.isReport = true ↔ ¬ (limit = .void ∧ c.IsMeasured) ∧ ¬ c.LosesHeading limit ∧
      ¬ c.OutgrowsUnsaid limit := by
  have hexpand : ∀ e', c.expand limit = .error e' → e = e' := fun e' he' =>
    Except.error.inj (h.symm.trans (draw_error_iff.2 (Or.inl he')))
  rw [← expand_unmeasured_iff, ← draw_disoriented_iff, ← exists_expand_unsaid_iff]
  constructor
  · intro hreport
    refine ⟨?_, ?_, ?_⟩
    · intro hvoid
      obtain rfl := hexpand _ hvoid
      cases hreport
    · intro hloses
      obtain rfl := Except.error.inj (hloses.symm.trans h)
      cases hreport
    · rintro ⟨e', he', hunsaid⟩
      obtain rfl := hexpand _ he'
      rw [DrawingError.isReport, hunsaid] at hreport
      cases hreport
  · rintro ⟨hmeasured, hkept, hsaid⟩
    cases e with
    | rules fault => rfl
    | overgrown fault =>
      rcases draw_error_iff.1 h with hexpand | ⟨w, d, -, -, hd⟩
      · by_contra hunsaid
        rw [DrawingError.isReport, Bool.not_eq_true] at hunsaid
        exact hsaid ⟨fault, hexpand, hunsaid⟩
      · cases hd
    | unmeasured =>
      rcases draw_error_iff.1 h with hexpand | ⟨w, d, -, -, hd⟩
      · exact absurd hexpand hmeasured
      · cases hd
    | disoriented fault =>
      cases fault
      exact absurd h hkept

/-- What cannot be said breaks off everything. -/
theorem exists_draw_unsaid (h : c.OutgrowsUnsaid limit) :
    ∃ e, c.draw limit = .error e ∧ e.isReport = false ∧ e.message = Number.tooLong := by
  obtain ⟨e, hexpand, hunsaid⟩ := exists_expand_unsaid_iff.2 h
  have hmessage : (DrawingError.overgrown e).message = e.message := rfl
  refine ⟨.overgrown e, draw_error_iff.2 (Or.inl hexpand), ?_, ?_⟩
  · rw [DrawingError.isReport, hunsaid]
  · rw [hmessage, Overgrowth.message_of_not_isReport hunsaid]

/-- With the count of iterations of a configuration that was accepted and a limit that has few enough
digits, everything can be said. -/
theorem not_outgrowsUnsaid {settings : Settings} (hmake : make settings = .ok c)
    (hlimit : ∀ M, limit = .atMost M → Number.isWritable M = true) : ¬ c.OutgrowsUnsaid limit := by
  rintro ⟨M, t, hM, -, -, hlong⟩
  exact hlong ⟨hlimit M hM, isWritable_iterations_of_make hmake⟩

theorem IsSteady.not_losesHeading (h : c.IsSteady) (limit : Limit) : ¬ c.LosesHeading limit := by
  rintro ⟨w, -, hw⟩
  exact word_not_losesHeading h w hw

/-- A configuration is drawn, or the user is shown why not, unless following its word fails or a word
outgrows a limit that has too many digits; then the error breaks off everything. An angle of moderate
size rules out the first for every start word, all rules and every limit, and a configuration that
was accepted never has too many digits itself. -/
theorem draws_or_shows_iff (c : Config) (limit : Limit) (hlimit : limit ≠ .void) :
    (((∃ drawn, c.draw limit = .ok drawn) ∨
        ∃ e, c.draw limit = .error e ∧ e.isReport = true ∧ e.IsShown c limit) ↔
      ¬ c.LosesHeading limit ∧ ¬ c.OutgrowsUnsaid limit) ∧
    (c.LosesHeading limit → c.draw limit = .error (.disoriented ⟨⟩) ∧
      (DrawingError.disoriented ⟨⟩).BreaksOff c limit) ∧
    (c.OutgrowsUnsaid limit → ∃ e, c.draw limit = .error e ∧ e.message = Number.tooLong ∧
      e.BreaksOff c limit) ∧
    (c.IsSteady → ¬ c.LosesHeading limit) ∧
    ∀ settings, make settings = .ok c →
      (∀ M, limit = .atMost M → Number.isWritable M = true) → ¬ c.OutgrowsUnsaid limit := by
  refine ⟨⟨?_, ?_⟩, ?_, ?_, ?_, fun settings => not_outgrowsUnsaid⟩
  · rintro (⟨drawn, hdraw⟩ | ⟨e, hdraw, hreport, -⟩)
    · constructor
      · intro hloses
        cases (draw_disoriented_iff.2 hloses).symm.trans hdraw
      · intro hlong
        obtain ⟨e, he, -⟩ := exists_draw_unsaid hlong
        cases he.symm.trans hdraw
    · exact ((isReport_iff_of_draw_error hdraw).1 hreport).2
  · intro hkept
    cases hdraw : c.draw limit with
    | ok drawn => exact Or.inl ⟨drawn, rfl⟩
    | error e =>
      have hreport := (isReport_iff_of_draw_error hdraw).2 ⟨fun hvoid => hlimit hvoid.1, hkept⟩
      exact Or.inr ⟨e, rfl, hreport, DrawingError.isShown_of_draw hdraw hreport⟩
  · intro hloses
    have hdraw := draw_disoriented_iff.2 hloses
    exact ⟨hdraw, DrawingError.breaksOff_of_draw hdraw rfl⟩
  · intro hlong
    obtain ⟨e, hdraw, hunsaid, hmessage⟩ := exists_draw_unsaid hlong
    exact ⟨e, hdraw, hmessage, DrawingError.breaksOff_of_draw hdraw hunsaid⟩
  · intro hsteady
    exact hsteady.not_losesHeading limit

/-- A word that doubles in every generation, by right angles. -/
def doubling : Config := ⟨['F'], ['F', '=', 'F', 'F'], 5, 90, 1, defaultPen⟩

theorem doubling_is_shown : doubling.IsSteady ∧
    ∃ e, doubling.draw (.atMost 3) = .error e ∧ e.isReport = true ∧
      e.IsShown doubling (.atMost 3) := by
  have hsteady : doubling.IsSteady := by decide +kernel
  have hfails : (doubling.draw (.atMost 3)).isOk = false := by decide +kernel
  obtain ⟨hshown, -, -, hkept, -⟩ := draws_or_shows_iff doubling (.atMost 3) (by decide)
  have hsaid : ¬ doubling.OutgrowsUnsaid (.atMost 3) := by
    rintro ⟨M, t, hM, -, -, hlong⟩
    obtain rfl := Limit.atMost.inj hM
    exact hlong (by decide +kernel)
  refine ⟨hsteady, (hshown.2 ⟨hkept hsteady, hsaid⟩).resolve_left ?_⟩
  rintro ⟨drawn, h⟩
  rw [h] at hfails
  cases hfails

/-- A turn of this angle is infinite in radians. -/
def giddy : Settings where
  start := some ['+', 'F']
  rulesText := none
  iterations := .number (.whole 0)
  angle := .number (.real 1e308)
  step := .number (.whole 1)
  pen := defaultPen

theorem giddy_breaks_off : ∃ c, make giddy = .ok c ∧
    c.draw defaultLimit = .error (.disoriented ⟨⟩) ∧
      (DrawingError.disoriented ⟨⟩).isReport = false ∧
        ((Session.new c (.whole 1) (.whole 0) defaultLimit .empty (.ofNumbered [])).command
          (.run none)).failure = some (.drawing (.disoriented ⟨⟩)) := by
  have hrun : ((make giddy).toOption.map fun c =>
      ((c.expand defaultLimit).isOk, (c.draw defaultLimit).isOk)) = some (true, false) := by
    decide +kernel
  cases hmake : make giddy with
  | error e =>
    rw [hmake] at hrun
    cases hrun
  | ok c =>
    rw [hmake] at hrun
    obtain ⟨hword, hfails⟩ := Prod.mk.inj (Option.some.inj hrun)
    cases hdraw : c.draw defaultLimit with
    | ok drawn =>
      rw [hdraw] at hfails
      cases hfails
    | error e =>
      obtain h | ⟨w, d, -, -, rfl⟩ := draw_error_iff.1 hdraw
      · rw [h] at hword
        cases hword
      · exact ⟨c, rfl, hdraw, rfl, (DrawingError.breaksOff_of_draw hdraw rfl).session _ none
          ⟨rfl, rfl, rfl, ⟨.grow, rfl⟩⟩⟩

end Config

end Lindenmayer
