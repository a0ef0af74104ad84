import Lindenmayer.Proofs.CommandLine.Delivery
import Lindenmayer.Proofs.CommandLine.Items
import Lindenmayer.Proofs.Number.Sign
import Lindenmayer.Proofs.Session.FirstRun

/-!
# What the window shows

The window draws the configuration anew, and it checks anew what it was given. Both agree with what
the command line has done before: the drawing is the one whose counts were printed, and a batch size
and a delay that the command line accepts are accepted by a growth, for the delay in seconds is not
below zero if the one in milliseconds is not. Only the mode is not checked if its value was left out,
and then the session does not begin to draw.
-/
namespace Lindenmayer

/-- A growth can start with a batch size of at least one and a delay that is not below zero, which
may be infinite or no number. -/
theorem Session.startable_real {i : Int} {x : Float} (hi : 1 ≤ i) (hx : ¬ x < 0) :
    Startable (.whole i) (.real x) :=
  ⟨decide_eq_false (Int.not_lt.2 hi), decide_eq_false hx, i, rfl⟩

namespace Options

variable {o : Options}

/-- What the options as a whole are checked for. -/
theorem bounds_of_check {others : List (List Char)} (h : o.check others = .ok o) :
    1 ≤ o.batch ∧ ¬ o.delay < 0 := by
  unfold check at h
  split at h
  · cases h
  · split at h
    · cases h
    · split at h
      · cases h
      · next hbatch =>
        split at h
        · cases h
        · split at h
          · cases h
          · next hdelay => exact ⟨Int.not_lt.1 hbatch, hdelay⟩

/-- Milliseconds that are not below zero are no seconds below zero. -/
theorem not_neg_delaySeconds (h : ¬ o.delay < 0) : ¬ o.delaySeconds < 0 := by
  have hthousand : (1000 : Float).toModel.unpack =
      .finite .positive (1000 * 2 ^ 43) (-43) (by decide) := rfl
  exact Number.Binary64.not_neg_div h hthousand

theorem modeValue_of_void (h : o.isVoid .mode = true) : o.modeValue = .list [] := by
  rw [modeValue, valueUnlessVoid, if_pos h]

theorem ofValue?_modeValue (h : o.isVoid .mode = false) :
    Mode.ofValue? o.modeValue = some o.mode := by
  rw [modeValue, valueUnlessVoid, if_neg (Bool.eq_false_iff.1 h)]
  cases o.mode <;> decide +kernel

variable {c : Config} {segments : List Segment} {stats : Stats} {around : Surroundings}
  {events : Schedule WindowEvent} {session : Session}

/-- Whatever becomes of a drawing, its product is a window only if the session was shown. -/
theorem Delivers.session_eq {outcome : Outcome}
    (h : o.Delivers c segments stats around events outcome)
    (hproduct : outcome.product = .window session) :
    session = .shown c o.modeValue (.whole o.batch) (.real o.delaySeconds) o.limit events ∧
      outcome.lines = session.printed.toList ∧
      (session.failure = none → outcome.ending = .exit 0) := by
  cases h with
  | window shown ending _ _ _ _ hsession hending =>
    obtain rfl := Product.window.inj hproduct
    refine ⟨hsession, rfl, ?_⟩
    intro hnone
    rcases hending with ⟨-, hending⟩ | ⟨e, hfailure, -⟩
    · exact hending
    · cases hnone.symm.trans hfailure
  | noImage name e => cases e <;> cases hproduct
  | skips | table | image | voidLimit | voidImage => cases hproduct

theorem product_failed (e : ProgramError) : (Outcome.failed e).product = .nothing := by
  rw [Outcome.failed]
  cases e.report? <;> rfl

/-- What was drawn is delivered, and nothing is otherwise. -/
theorem exists_delivers (h : (o.run around events).product = .window session) :
    ∃ c segments stats, o.config around = .ok c ∧ c.draw o.limit = .ok (segments, stats) ∧
      o.Delivers c segments stats around events (o.run around events) := by
  cases hconfig : o.config around with
  | error e =>
    rw [run_of_config_error hconfig, product_failed] at h
    cases h
  | ok c =>
    cases hdraw : c.draw o.limit with
    | error e =>
      rw [run_of_draw_error hconfig hdraw] at h
      split at h <;> cases h
    | ok drawn =>
      refine ⟨c, drawn.1, drawn.2, rfl, hdraw, ?_⟩
      rw [run_of_draw_ok hconfig hdraw]
      exact o.delivers_deliver c _ _ around events

theorem product_window (events : Schedule WindowEvent) (hconfig : o.config around = .ok c)
    (hdraw : c.draw o.limit = .ok (segments, stats)) (hadmits : o.Admits segments.length)
    (htable : o.textOnly = false) (hgiven : o.isVoid .image = false) (himage : o.image = none) :
    ∃ session, (o.run around events).product = .window session := by
  rw [run_of_draw_ok hconfig hdraw, deliver_window hadmits htable hgiven himage]
  exact ⟨_, rfl⟩

end Options

namespace Program

/-- The options that were read let a growth start. If they lead to a window in which nothing happens
once it listens, the window shows the drawing whose counts were printed, and in the mode of growing
it was laid down in the batches asked for, with one wait between any two of them. The session fails
only if the mode was left out, before it begins to run. -/
theorem window_shows_what_was_counted (name : List Char) (arguments : List (List Char))
    (around : Surroundings) (events : Schedule WindowEvent) (o : Options)
    (ho : Options.ofArguments arguments = .ok o) :
    Session.Startable (.whole o.batch) (.real o.delaySeconds) ∧
    ∀ session, (run name arguments around events).product = .window session →
      events.next.2 = .quiet →
      ∃ c segments stats, o.config around = .ok c ∧ c.draw o.limit = .ok (segments, stats) ∧
        (∀ elapsed, (run name arguments around events).printed elapsed =
          Outcome.countLines elapsed stats ++ session.printed.toList) ∧
        (session.failure = none ↔ o.isVoid .mode = false) ∧
        (o.isVoid .mode = true → session.failure = some (.unknownMode (.list []))) ∧
        (session.failure = none →
          (run name arguments around events).ending = .exit 0 ∧
          session.Shows segments stats ∧
          (o.mode = .grow → session.LaidDown o.batch.toNat
            (if 0 < o.delaySeconds then o.delaySeconds + frameInterval else frameInterval)
            segments)) := by
  obtain ⟨others, -, hcheck⟩ := Options.exists_readItems ho
  obtain ⟨hbatch, hdelay⟩ := Options.bounds_of_check hcheck
  have hstart := Session.startable_real hbatch (Options.not_neg_delaySeconds hdelay)
  refine ⟨hstart, ?_⟩
  intro session hproduct hquiet
  have hrun : run name arguments around events = o.run around events := by
    rw [run, ho]
  rw [hrun] at hproduct ⊢
  obtain ⟨c, segments, stats, hconfig, hdraw, hdelivers⟩ := Options.exists_delivers hproduct
  obtain ⟨hsession, hlines, hending⟩ := hdelivers.session_eq hproduct
  have hwhole : (o.batch.toNat : Int) = o.batch := Int.toNat_of_nonneg (by omega)
  rw [← hwhole] at hsession
  refine ⟨c, segments, stats, hconfig, hdraw, ?_, ?_⟩
  · intro elapsed
    rw [Outcome.printed, hdelivers.stats_eq, hlines]
    rfl
  · cases hmode : o.isVoid .mode with
    | true =>
      have hfails : session.failure = some (.unknownMode (.list [])) := by
        rw [hsession, Options.modeValue_of_void hmode]
        exact Session.failure_shown_of_unknown rfl
      simp [hfails]
    | false =>
      have hvalue := Options.ofValue?_modeValue hmode
      have hn : 1 ≤ o.batch.toNat := by omega
      have hshows := Session.shows_shown hvalue hquiet hdraw hn hstart.2.1
      rw [← hsession] at hshows
      exact ⟨by simp [hshows.1.failure], by simp, fun hnone => ⟨hending hnone, hshows⟩⟩

/-- The first generation of the default system. -/
def firstOptions : Options := { Options.default with iterations := 1 }

def firstArguments : List (List Char) := [['-', 'n'], ['1']]

theorem exists_first_draw : ∃ c segments, firstOptions.config (Folder.surroundings ⟨[]⟩) = .ok c ∧
    c.draw firstOptions.limit = .ok (segments, ⟨11, 5⟩) ∧ firstOptions.Admits segments.length := by
  obtain ⟨c, segments, hconfig, hdraw, hlength⟩ := exists_full_draw
  refine ⟨c, segments, hconfig, hdraw, rfl, ?_⟩
  rw [hlength]
  decide

/-- The five segments grow one by one, with a frame and ten milliseconds between them. -/
theorem first_generation_grows :
    Options.ofArguments firstArguments = .ok firstOptions ∧ ∃ session segments,
      (run name firstArguments (Folder.surroundings ⟨[]⟩) .quiet).product = .window session ∧
      session.failure = none ∧ session.Shows segments ⟨11, 5⟩ ∧
      session.LaidDown 1 (10 / 1000 + frameInterval) segments := by
  have hread : Options.ofArguments firstArguments = .ok firstOptions := rfl
  have hrun : run name firstArguments (Folder.surroundings ⟨[]⟩) .quiet =
      firstOptions.run (Folder.surroundings ⟨[]⟩) .quiet := by
    rw [run, hread]
  have hdelay : 0 < firstOptions.delaySeconds := by decide +kernel
  obtain ⟨c, segments, hconfig, hdraw, hadmits⟩ := exists_first_draw
  obtain ⟨session, hproduct⟩ := Options.product_window .quiet hconfig hdraw hadmits rfl rfl rfl
  rw [← hrun] at hproduct
  obtain ⟨-, hshows⟩ := window_shows_what_was_counted name firstArguments (Folder.surroundings ⟨[]⟩)
    .quiet firstOptions hread
  obtain ⟨c', segments', stats, hconfig', hdraw', -, hiff, -, hshown⟩ :=
    hshows session hproduct rfl
  obtain rfl := Except.ok.inj (hconfig.symm.trans hconfig')
  obtain ⟨rfl, rfl⟩ := Prod.mk.inj (Except.ok.inj (hdraw.symm.trans hdraw'))
  have hnone := hiff.2 rfl
  obtain ⟨-, hshown, hgrown⟩ := hshown hnone
  refine ⟨hread, session, segments, hproduct, hnone, hshown, ?_⟩
  rw [if_pos hdelay] at hgrown
  exact hgrown rfl

/-- The same with the mode left out. -/
def modelessOptions : Options := { firstOptions with void := [.mode] }

def modelessArguments : List (List Char) := [['-', 'n'], ['1'], "--mode=--".toList]

theorem ofArguments_modeless : Options.ofArguments modelessArguments = .ok modelessOptions := by
  have htokens : Token.ofArguments OptionKey.forms modelessArguments =
      .ok [.option (OptionKey.form .iterations ["-n"] true) true none, .word ['1'],
        .option (OptionKey.form .mode ["--mode"] true) false (some Token.twoDashes)] := rfl
  have hitems : Item.ofArguments OptionKey.forms modelessArguments =
      [.setting (OptionKey.form .iterations ["-n"] true) ['1'],
        .void (OptionKey.form .mode ["--mode"] true)] := by
    rw [Item.ofArguments, htokens]
    exact congrArg _ (Item.ofTokens_attached rfl true false Token.twoDashes [])
  rw [Options.ofArguments, hitems]
  rfl

/-- A drawing that is neither too large nor to become a table or an image reaches a window with an
area, in which nothing happens; but the mode was left out, and the session fails. -/
theorem modeless_window_fails :
    Options.ofArguments modelessArguments = .ok modelessOptions ∧
      modelessOptions.textOnly = false ∧ modelessOptions.image = none ∧
      (∃ c segments, modelessOptions.config (Folder.surroundings ⟨[]⟩) = .ok c ∧
        c.draw modelessOptions.limit = .ok (segments, ⟨11, 5⟩) ∧
        modelessOptions.Admits segments.length) ∧
      Session.unheard Session.windowSize (Schedule.quiet : Schedule WindowEvent).next.1 =
        .ofPixels 640 480 ∧
      ∃ session, (run name modelessArguments (Folder.surroundings ⟨[]⟩) .quiet).product =
        .window session ∧ session.failure = some (.unknownMode (.list [])) := by
  have hread : Options.ofArguments modelessArguments = .ok modelessOptions := ofArguments_modeless
  have hrun : run name modelessArguments (Folder.surroundings ⟨[]⟩) .quiet =
      modelessOptions.run (Folder.surroundings ⟨[]⟩) .quiet := by
    rw [run, hread]
  obtain ⟨c, segments, hconfig, hdraw, hlength⟩ : ∃ c segments,
      modelessOptions.config (Folder.surroundings ⟨[]⟩) = .ok c ∧
        c.draw modelessOptions.limit = .ok (segments, ⟨11, 5⟩) ∧ segments.length = 5 :=
    Options.exists_draw_of_counts (by decide +kernel)
  have hadmits : modelessOptions.Admits segments.length := by
    rw [hlength]
    exact ⟨rfl, by decide⟩
  obtain ⟨session, hproduct⟩ := Options.product_window .quiet hconfig hdraw hadmits rfl rfl rfl
  obtain ⟨c', _, _, hconfig', -, hdelivers⟩ := Options.exists_delivers hproduct
  obtain ⟨hsession, -⟩ := hdelivers.session_eq hproduct
  have hfails : session.failure = some (.unknownMode (.list [])) := by
    rw [hsession, Options.modeValue_of_void rfl]
    exact Session.failure_shown_of_unknown rfl
  refine ⟨hread, rfl, rfl, ⟨c, segments, hconfig, hdraw, hadmits⟩, rfl, session, ?_, hfails⟩
  rw [hrun]
  exact hproduct

end Program

end Lindenmayer
