import Lindenmayer.Proofs.Session.Keys
import Lindenmayer.Proofs.Session.Queue

/-!
# What a wait leaves behind

While a growth waits, commands are performed that ask for runs or stop the growth. What the wait
leaves to the session is the last thing they asked for and whether the growth is still live, and
nothing else is looked at when the wait is over or an error breaks it off. When the wait begins,
nothing is asked for and the growth is live, so both depend on the commands of this one wait.
-/
namespace Lindenmayer

namespace SessionCommand

/-- The command runs the session, or a run may be what it asks for. -/
def MayRun : SessionCommand → Prop
  | .run _ => True
  | .request _ => True
  | .changeIterations _ => True
  | .key (some name) => name ∈ drawingKeys
  | _ => False

/-- The command asks to run nothing more. -/
def Quits (c : SessionCommand) : Prop := c = .stop ∨ c = .key (some "escape".toList)

end SessionCommand

namespace Session

open SessionCommand

/-- The command stops a growth that waits, unless it fails. -/
def halts (s : Session) : SessionCommand → Bool
  | .close => true
  | .resize size => s.noticed (size.getD s.canvas) && s.lastSegments.isSome
  | c => (s.ask c).isSome

/-- What the commands ask for when they are performed in the next steps. -/
def asked : Session → List SessionCommand → List Ask
  | _, [] => []
  | s, c :: rest => (s.ask c).toList ++ asked s.step rest

/-- Whether one of the commands stops the growth when they are performed in the next steps. -/
def halted : Session → List SessionCommand → Bool
  | _, [] => false
  | s, c :: rest => s.halts c || halted s.step rest

/-- In the course of a command the growth begins to wait, and the given commands are to be performed
in this wait. -/
def ComesToWait (s : Session) (c : SessionCommand) (id : Nat) (commands : List SessionCommand)
    (wait : Session) : Prop :=
  ∃ n, (step^[n] (s.told c)).phase = .growing id ∧ wait = step^[n + 1] (s.told c) ∧
    wait.phase = .waiting id commands

variable {s : Session}

theorem asked_append (s : Session) (first rest : List SessionCommand) :
    s.asked (first ++ rest) = s.asked first ++ (step^[first.length] s).asked rest := by
  induction first generalizing s with
  | nil => rfl
  | cons c first ih =>
    rw [List.cons_append, asked, ih, asked, List.append_assoc, List.length_cons,
      Function.iterate_succ_apply]

theorem halted_append (s : Session) (first rest : List SessionCommand) :
    s.halted (first ++ rest) = (s.halted first || (step^[first.length] s).halted rest) := by
  induction first generalizing s with
  | nil => rfl
  | cons c first ih =>
    rw [List.cons_append, halted, ih, halted, Bool.or_assoc, List.length_cons,
      Function.iterate_succ_apply]

/-! What stops a growth, one family of commands after another. -/

theorem live_enqueue (hrun : s.isRunning = true) (mode : Mode) :
    (s.enqueue mode).stage.live = none := by
  rw [enqueue, if_pos hrun]
  exact Stage.live_stop _

theorem live_request (hrun : s.isRunning = true) (mode : Value) :
    (s.request mode).stage.live =
      if ((Mode.ofValue? mode).map Ask.run).isSome then none else s.stage.live := by
  rw [request]
  cases Mode.ofValue? mode with
  | none => rfl
  | some m => exact live_enqueue hrun m

theorem live_quit (s : Session) : s.stop.stage.live = none := by
  rw [stop, setStatus_eq]
  exact Stage.live_stop _

theorem live_changeIterations (hrun : s.isRunning = true) (delta : Numeric) :
    (s.changeIterations delta).stage.live =
      if (s.askIterations delta).isSome then none else s.stage.live := by
  obtain ⟨asked, hask⟩ : ∃ asked, s.askIterations delta = asked := ⟨_, rfl⟩
  rw [changeIterations, hask]
  rw [askIterations] at hask
  cases hadd : Numeric.addInt? s.config.iterations delta with
  | none =>
    rw [hadd] at hask
    subst hask
    rfl
  | some iterations =>
    rw [hadd] at hask
    dsimp only at hask ⊢
    cases hmake : Config.make (s.config.settings iterations) with
    | error e =>
      rw [hmake] at hask
      subst hask
      dsimp only
      by_cases hreport : e.isReport = true
      · rw [if_pos hreport, setStatus_eq]
        rfl
      · rw [if_neg hreport]
        rfl
    | ok config =>
      rw [hmake] at hask
      subst hask
      exact live_enqueue (s := { s with config := config }) hrun _

theorem live_pressKey (hrun : s.isRunning = true) (key : List Char) :
    (s.pressKey key).stage.live = if (s.askKey key).isSome then none else s.stage.live := by
  rw [pressKey, askKey]
  by_cases hr : key = ['r']
  · rw [if_pos hr, if_pos hr]
    exact live_enqueue hrun _
  rw [if_neg hr, if_neg hr]
  by_cases hg : key = ['g']
  · rw [if_pos hg, if_pos hg]
    exact live_enqueue hrun _
  rw [if_neg hg, if_neg hg]
  by_cases hescape : key = "escape".toList
  · rw [if_pos hescape, if_pos hescape]
    exact live_quit s
  rw [if_neg hescape, if_neg hescape]
  by_cases hup : key = "up".toList
  · rw [if_pos hup, if_pos hup]
    exact live_changeIterations hrun _
  rw [if_neg hup, if_neg hup]
  by_cases hdown : key = "down".toList
  · rw [if_pos hdown, if_pos hdown]
    exact live_changeIterations hrun _
  rw [if_neg hdown, if_neg hdown]
  rfl

theorem live_resize (s : Session) :
    s.resize.stage.live =
      if s.noticed s.canvas && s.lastSegments.isSome then none else s.stage.live := by
  obtain ⟨view, viewport, printed, hcanvas⟩ := exists_applyCanvas s
  rw [resize, applyCanvas_eq, hcanvas]
  cases s.noticed s.canvas with
  | false => rfl
  | true =>
    dsimp only
    cases s.lastSegments with
    | none => rfl
    | some segments =>
      dsimp only
      rw [renderAll, setStatus_eq]
      exact Stage.live_stop s.stage

theorem live_perform (hrun : s.isRunning = true) (c : SessionCommand) :
    (s.perform c).stage.live = if s.halts c then none else s.stage.live := by
  cases c with
  | run mode =>
    cases mode with
    | none => exact live_enqueue hrun _
    | some mode => exact live_request hrun mode
  | request mode => exact live_request hrun mode
  | key name =>
    cases name with
    | none => rfl
    | some key => exact live_pressKey hrun key
  | stop => exact live_quit s
  | close => exact Stage.live_stop _
  | resize size =>
    cases size with
    | none => exact live_resize s
    | some size => exact live_resize { s with canvas := size }
  | changeIterations delta => exact live_changeIterations hrun delta
  | configure settings =>
    rw [perform]
    cases Config.make settings with
    | error e => rfl
    | ok config => rfl
  | setStatus text isError =>
    rw [perform, setStatus_eq]
    rfl
  | setBatch batch => rfl
  | setLimit limit => rfl

/-! What a wait makes of what is asked for and what is live. -/

/-- A command of a wait that fails changes nothing of what the session will look at. -/
theorem Effect.of_idle {t : Session} {c : SessionCommand} (h : Effect s c t)
    (hrun : s.isRunning = true) (hidle : t.phase = .idle) :
    t.failure ≠ none ∧ t.pending = s.pending ∧ t.stage = s.stage := by
  have hbusy : ∀ u : Session, u.phase = s.phase → u.phase ≠ .idle := by
    intro u hu hrest
    rw [isRunning_of_idle (hu.symm.trans hrest)] at hrun
    cases hrun
  cases h with
  | @asks u mode _ hu =>
    obtain ⟨_, _, _, _, _, _, rfl⟩ := hu
    rw [phase_enqueue] at hidle
    split at hidle
    · exact absurd hidle (hbusy s rfl)
    · cases hidle
  | stops _ =>
    rw [stop, setStatus_eq] at hidle
    exact absurd hidle (hbusy s rfl)
  | fails e _ hu =>
    obtain ⟨_, _, _, _, _, _, rfl⟩ := hu
    exact ⟨by simp [fail], rfl, rfl⟩
  | reports _ _ =>
    rw [setStatus_eq] at hidle
    exact absurd hidle (hbusy s rfl)
  | tells _ _ =>
    rw [setStatus_eq] at hidle
    exact absurd hidle (hbusy s rfl)
  | closes _ => exact absurd hidle (hbusy s rfl)
  | shows _ hu _ =>
    obtain ⟨_, _, _, _, _, _, rfl⟩ := hu
    rw [renderAll, setStatus_eq] at hidle
    exact absurd hidle (hbusy s rfl)
  | batches _ _ => exact absurd hidle (hbusy s rfl)
  | aside _ hu =>
    obtain ⟨_, _, _, _, _, _, rfl⟩ := hu
    exact absurd hidle (hbusy s rfl)

/-- What is live or was cancelled is cancelled at the latest when it is stopped. -/
theorem Effect.held {t : Session} {c : SessionCommand} (h : Effect s c t) (hs : s.stage.Sound)
    {id : Nat} (hheld : s.stage.Held id) : t.stage.Held id := by
  have hstopped := Stage.held_stop hs hheld
  cases h with
  | @asks u mode _ hu =>
    obtain ⟨_, _, _, _, _, _, rfl⟩ := hu
    rw [enqueue]
    split
    · exact Or.inr hstopped
    · exact hheld
  | stops _ =>
    rw [stop, setStatus_eq]
    exact Or.inr hstopped
  | fails e _ hu =>
    obtain ⟨_, _, _, _, _, _, rfl⟩ := hu
    exact hheld
  | reports _ _ =>
    rw [setStatus_eq]
    exact hheld
  | tells _ _ =>
    rw [setStatus_eq]
    exact hheld
  | closes _ => exact Or.inr hstopped
  | shows _ hu _ =>
    obtain ⟨_, _, _, _, _, _, rfl⟩ := hu
    rw [renderAll, setStatus_eq]
    exact Or.inr hstopped
  | batches _ _ => exact hheld
  | aside _ hu =>
    rw [hu.stage_eq]
    exact hheld

theorem iterate_of_idle (h : s.phase = .idle) (n : Nat) : step^[n] s = s :=
  Function.iterate_fixed (step_of_idle h) n

/-- Commands of a wait that do not fail leave to be run what they asked for last, and they leave the
growth live if none of them stops it. -/
theorem after_commands {id : Nat} {commands rest : List SessionCommand} (hs : s.stage.Sound)
    (hphase : s.phase = .waiting id (commands ++ rest)) (hheld : s.stage.Held id)
    (hend : (step^[commands.length] s).phase = .waiting id rest) :
    (step^[commands.length] s).pending = lastAsked s.pending (s.asked commands) ∧
      (step^[commands.length] s).stage.live =
        (if s.halted commands then none else s.stage.live) ∧
      (step^[commands.length] s).stage.Held id := by
  induction commands generalizing s with
  | nil => exact ⟨rfl, rfl, hheld⟩
  | cons c commands ih =>
    rw [List.length_cons, Function.iterate_succ_apply] at hend ⊢
    have hstep : s.step = ({ s with phase := .waiting id (commands ++ rest) } : Session).perform c :=
      step_of_waiting hphase
    have heffect := effect_perform { s with phase := .waiting id (commands ++ rest) } c
    rw [← hstep] at heffect
    have hrunning : s.step.phase ≠ .idle := by
      intro hidle
      rw [iterate_of_idle hidle, hidle] at hend
      cases hend
    obtain ⟨hnext, _, hpending⟩ := (heffect.in_wait rfl).resolve_left fun h => hrunning h.1
    have hlive : s.step.stage.live = if s.halts c then none else s.stage.live := by
      rw [hstep] at hrunning ⊢
      exact live_perform (s := { s with phase := .waiting id (commands ++ rest) }) rfl c
    obtain ⟨hpending', hlive', hheld'⟩ :=
      ih (sound_stage_step hs) hnext (heffect.held hs hheld) hend
    refine ⟨?_, ?_, hheld'⟩
    · rw [hpending', hpending, asked, lastAsked_append]
      rfl
    · rw [hlive', hlive, halted]
      cases s.halts c with
      | true => simp
      | false => rfl

/-! Where a wait begins. -/

/-- Nothing is asked for as long as the growth in progress is live: what asks for something stops
it. -/
def Unasked (s : Session) : Prop :=
  s.phase.growth? ≠ none → s.stage.live ≠ none → s.pending = none

theorem Effect.unasked {t : Session} {c : SessionCommand} (h : Effect s c t) (hs : s.Unasked) :
    t.Unasked := by
  intro hgrowth hlive
  cases h with
  | @asks u mode _ hu =>
    rw [phase_enqueue] at hgrowth
    split at hgrowth
    · next hrun => exact absurd (live_enqueue hrun mode) hlive
    · exact absurd rfl hgrowth
  | stops _ => exact absurd (live_quit s) hlive
  | fails e _ hu => exact absurd rfl hgrowth
  | reports _ _ =>
    rw [setStatus_eq] at hgrowth hlive ⊢
    exact hs hgrowth hlive
  | tells _ _ =>
    rw [setStatus_eq] at hgrowth hlive ⊢
    exact hs hgrowth hlive
  | closes _ => exact absurd (Stage.live_stop _) hlive
  | @shows u segments _ hu _ =>
    rw [renderAll, setStatus_eq] at hlive
    exact absurd (Stage.live_stop u.stage) hlive
  | batches _ _ => exact hs hgrowth hlive
  | aside _ hu =>
    obtain ⟨_, _, _, _, _, _, rfl⟩ := hu
    exact hs hgrowth hlive

theorem Stepping.unasked {t : Session} (h : Stepping s t) (hs : s.Unasked) : t.Unasked := by
  cases h with
  | idles _ => exact hs
  | ends _ _ => exact fun hgrowth => absurd rfl hgrowth
  | begins _ _ ht =>
    intro _ _
    rw [ht.pending_eq]
    rfl
  | @ticks id _ hphase ht =>
    cases ht with
    | rests _ =>
      intro hgrowth
      rw [phase_endGrowth] at hgrowth
      exact absurd rfl hgrowth
    | lasts _ _ =>
      intro hgrowth
      rw [phase_endGrowth] at hgrowth
      exact absurd rfl hgrowth
    | waits hd _ _ =>
      intro _ _
      exact hs (by simp [hphase, Phase.growth?]) (by simp [hd.live])
    | breaks _ _ => exact fun hgrowth => absurd rfl hgrowth
  | resumes hphase =>
    intro _ hlive
    exact hs (by simp [hphase, Phase.growth?]) hlive
  | @performs id c rest _ hphase ht =>
    refine ht.unasked ?_
    intro _ hlive
    exact hs (by simp [hphase, Phase.growth?]) hlive

theorem unasked_iterate (hs : s.Sound) (hunasked : s.Unasked) (n : Nat) : (step^[n] s).Unasked := by
  induction n with
  | zero => exact hunasked
  | succ n ih =>
    rw [Function.iterate_succ_apply']
    exact (stepping_step (sound_iterate hs n).stage).unasked ih

theorem sound_told (hs : s.Sound) (c : SessionCommand) : (s.told c).Sound :=
  (effect_perform _ c).sound (hs.later .refl fun _ hid => hid)

/-- A session at rest that was given a command has no growth in progress yet. -/
theorem unasked_told (hidle : s.phase = .idle) (c : SessionCommand) : (s.told c).Unasked := by
  refine (effect_perform _ c).unasked ?_
  intro hgrowth
  exact absurd (congrArg Phase.growth? hidle) hgrowth

/-- The growth of a tick that ends in a wait is live, and the tick asks for nothing. -/
theorem Ticking.of_waiting {t : Session} {id : Nat} {commands : List SessionCommand}
    (h : Ticking s id t) (hwaiting : t.phase = .waiting id commands) :
    s.stage.live = some id ∧ t.stage.live = some id ∧ t.pending = s.pending := by
  cases h with
  | rests _ =>
    rw [phase_endGrowth] at hwaiting
    cases hwaiting
  | lasts _ _ =>
    rw [phase_endGrowth] at hwaiting
    cases hwaiting
  | waits hd _ _ => exact ⟨hd.live, hd.live, rfl⟩
  | breaks _ _ => cases hwaiting

/-- When a wait begins, the growth is live and nothing is asked for. -/
theorem ComesToWait.begins {c : SessionCommand} {id : Nat} {commands : List SessionCommand}
    {wait : Session} (h : ComesToWait s c id commands wait) (hs : s.Sound) (hidle : s.phase = .idle) :
    wait.stage.Sound ∧ wait.stage.live = some id ∧ wait.pending = none := by
  obtain ⟨n, hgrowing, rfl, hwaiting⟩ := h
  have hsound := sound_iterate (sound_told hs c) n
  have hunasked := unasked_iterate (sound_told hs c) (unasked_told hidle c) n
  rw [Function.iterate_succ_apply'] at hwaiting ⊢
  have htick := ticking_tick hsound.stage id
  rw [← step_of_growing hgrowing] at htick
  obtain ⟨hbefore, hlive, hpending⟩ := htick.of_waiting hwaiting
  refine ⟨sound_stage_step hsound.stage, hlive, ?_⟩
  rw [hpending]
  exact hunasked (by simp [hgrowing, Phase.growth?]) (by simp [hbefore])

/-- What commands of a wait leave behind that do not fail, from the beginning of the wait on. -/
theorem ComesToWait.after_commands {c : SessionCommand} {id : Nat}
    {commands rest : List SessionCommand} {wait : Session}
    (h : ComesToWait s c id (commands ++ rest) wait) (hs : s.Sound) (hidle : s.phase = .idle)
    (hend : (step^[commands.length] wait).phase = .waiting id rest) :
    (step^[commands.length] wait).pending = lastAsked none (wait.asked commands) ∧
      (step^[commands.length] wait).stage.live = (if wait.halted commands then none else some id) ∧
      (step^[commands.length] wait).stage.Held id := by
  obtain ⟨hsound, hlive, hpending⟩ := h.begins hs hidle
  obtain ⟨n, _, _, hphase⟩ := h
  have hafter := Session.after_commands hsound hphase (Or.inl hlive) hend
  rw [hpending, hlive] at hafter
  exact hafter

theorem command_of_iterate {c : SessionCommand} {n : Nat}
    (h : (step^[n] (s.told c)).phase = .idle) :
    s.command c = if answers c then step^[n] (s.told c) else
      { step^[n] (s.told c) with reply := none } := by
  rw [← settle_eq_iterate h]
  rfl

/-- What the session is when it is at rest after a wait is what the command comes to. -/
theorem ComesToWait.command_eq {c : SessionCommand} {id k : Nat} {commands : List SessionCommand}
    {wait : Session} (h : ComesToWait s c id commands wait) (hrest : (step^[k] wait).phase = .idle) :
    s.command c = if answers c then step^[k] wait else { step^[k] wait with reply := none } := by
  obtain ⟨n, _, rfl, _⟩ := h
  rw [← Function.iterate_add_apply] at hrest ⊢
  exact command_of_iterate hrest

/-- An error in a wait ends everything in progress, but it takes nothing back: what the commands of
the wait before it asked for last is still asked for, and unless one of them stopped the growth, it
is still live. So the session is idle afterwards exactly if one of them stopped the growth and they
asked last to run nothing more, or asked for nothing. -/
theorem idle_after_broken_wait_iff {wait : Session} {c d : SessionCommand} {id : Nat}
    {before rest : List SessionCommand} (hs : Reached s) (hidle : s.phase = .idle)
    (hwait : ComesToWait s c id (before ++ d :: rest) wait)
    (hperformed : (step^[before.length] wait).phase = .waiting id (d :: rest))
    (hbroken : (step^[before.length + 1] wait).phase = .idle) :
    (s.command c).phase = .idle ∧ (s.command c).failure ≠ none ∧
      (s.command c).pending = lastAsked none (wait.asked before) ∧
      (s.command c).stage.live = (if wait.halted before then none else some id) ∧
      ((s.command c).Idle ↔
        wait.halted before = true ∧ lastAsked none (wait.asked before) = none) := by
  obtain ⟨hpending, hlive, -⟩ := hwait.after_commands hs.sound hidle hperformed
  -- the command that fails takes the last step
  have hlast : step^[before.length + 1] wait =
      ({ step^[before.length] wait with phase := .waiting id rest } : Session).perform d := by
    rw [Function.iterate_succ_apply']
    exact step_of_waiting hperformed
  have heffect := effect_perform { step^[before.length] wait with phase := .waiting id rest } d
  rw [← hlast] at heffect
  obtain ⟨hfailure, hpending', hstage⟩ := heffect.of_idle rfl hbroken
  have hleft : (s.command c).failure ≠ none ∧
      (s.command c).pending = lastAsked none (wait.asked before) ∧
      (s.command c).stage.live = (if wait.halted before then none else some id) := by
    rw [← hpending, ← hlive, hwait.command_eq hbroken]
    split
    · exact ⟨hfailure, hpending', congrArg Stage.live hstage⟩
    · exact ⟨hfailure, hpending', congrArg Stage.live hstage⟩
  obtain ⟨hfailed, hasked, hgrowing⟩ := hleft
  refine ⟨phase_command s c, hfailed, hasked, hgrowing, ?_⟩
  constructor
  · intro hrest
    rw [hrest.live] at hgrowing
    refine ⟨?_, hasked.symm.trans hrest.pending⟩
    by_contra hlasts
    rw [if_neg hlasts] at hgrowing
    cases hgrowing
  · rintro ⟨hhalted, hnothing⟩
    rw [if_pos hhalted] at hgrowing
    exact ⟨phase_command s c, hasked.trans hnothing, hgrowing⟩

/-- A new session that draws two segments; in the wait between them the commands are performed. -/
def interruptedBy (commands : List SessionCommand) : Session :=
  new ⟨"FF".toList, [], 0, 90, 1, Config.defaultPen⟩ (.whole 1) (.whole 0) Config.defaultLimit
    .empty (.ofNumbered [(1, commands)])

/-- A command that fails. -/
def explodes : SessionCommand := .request (.text "explode".toList)

theorem reached_interruptedBy (commands : List SessionCommand) : Reached (interruptedBy commands) :=
  ⟨_, _, _, _, _, _, .refl⟩

/-- An error after a stop leaves the session idle. -/
theorem idle_after_stop_and_error :
    ((interruptedBy [.stop, explodes]).command (.run (some (.text "grow".toList)))).failure ≠ none ∧
      ((interruptedBy [.stop, explodes]).command (.run (some (.text "grow".toList)))).Idle := by
  have hwait : ComesToWait (interruptedBy [.stop, explodes]) (.run (some (.text "grow".toList))) 0
      ([.stop] ++ [explodes]) _ := ⟨1, rfl, rfl, rfl⟩
  obtain ⟨_, hfailure, _, _, hidle⟩ :=
    idle_after_broken_wait_iff (reached_interruptedBy _) rfl hwait rfl rfl
  exact ⟨hfailure, hidle.2 ⟨rfl, rfl⟩⟩

/-- An idle session is no longer idle after an error in a wait: the growth that waited is live, and
the run that was asked for in the wait is still asked for. -/
theorem error_leaves_live_and_pending :
    (interruptedBy [explodes]).Idle ∧
    (∃ wait, ComesToWait (interruptedBy [explodes]) (.run (some (.text "grow".toList))) 0
      [explodes] wait ∧ wait.step.phase = .idle ∧ wait.step.failure ≠ none) ∧
    ((interruptedBy [explodes]).command (.run (some (.text "grow".toList)))).stage.live = some 0 ∧
    ((interruptedBy [.key (some ['r']), explodes]).command
      (.run (some (.text "grow".toList)))).pending = some .render := by
  have hrest := command_of_iterate (s := interruptedBy [explodes])
    (c := .run (some (.text "grow".toList))) (n := 3) rfl
  have hrest' := command_of_iterate (s := interruptedBy [.key (some ['r']), explodes])
    (c := .run (some (.text "grow".toList))) (n := 4) rfl
  rw [hrest, hrest']
  exact ⟨⟨rfl, rfl, rfl⟩, ⟨_, ⟨1, rfl, rfl, rfl⟩, rfl, Option.some_ne_none _⟩, rfl, rfl⟩

/-! How a wait ends in which the session is closed. -/

/-- A command that may not ask for a run asks to run nothing more, or for nothing. -/
theorem ask_of_not_mayRun {c : SessionCommand} (h : ¬ c.MayRun) (s : Session) :
    (c.Quits ∧ s.ask c = some .stop) ∨ (¬ c.Quits ∧ s.ask c = none) := by
  cases c with
  | run mode => exact absurd trivial h
  | request mode => exact absurd trivial h
  | changeIterations delta => exact absurd trivial h
  | stop => exact Or.inl ⟨Or.inl rfl, rfl⟩
  | key name =>
    cases name with
    | none => exact Or.inr ⟨by simp [Quits], rfl⟩
    | some key =>
      have hdraws : key ∉ drawingKeys := h
      simp only [drawingKeys, List.mem_cons, List.not_mem_nil, or_false, not_or] at hdraws
      obtain ⟨hr, hg, hup, hdown⟩ := hdraws
      have hask : s.ask (.key (some key)) = s.askKey key := rfl
      rw [hask, askKey, if_neg hr, if_neg hg, if_neg hup, if_neg hdown]
      by_cases hescape : key = "escape".toList
      · rw [if_pos hescape, hescape]
        exact Or.inl ⟨Or.inr rfl, rfl⟩
      · rw [if_neg hescape]
        exact Or.inr ⟨by simpa [Quits] using hescape, rfl⟩
  | _ => exact Or.inr ⟨by simp [Quits], rfl⟩

/-- Commands that may not ask for a run leave nothing to be run if nothing was to be run before or
one of them asks to run nothing more. -/
theorem lastAsked_of_not_mayRun {commands : List SessionCommand} (h : ∀ d ∈ commands, ¬ d.MayRun)
    (s : Session) (first : Option Mode) :
    lastAsked first (s.asked commands) = none ↔ first = none ∨ ∃ d ∈ commands, d.Quits := by
  induction commands generalizing s first with
  | nil => simp [asked, lastAsked]
  | cons c rest ih =>
    have hrest := ih fun d hd => h d (List.mem_cons_of_mem c hd)
    rw [asked, lastAsked_append, hrest]
    rcases ask_of_not_mayRun (h c List.mem_cons_self) s with ⟨hquits, hask⟩ | ⟨hquits, hask⟩
    · simp [hask, hquits, lastAsked, Ask.mode?]
    · simp [hask, hquits, lastAsked]

/-- A growth that was stopped while it waited ends without drawing. -/
theorem choosing_of_stopped {id : Nat} (hphase : s.phase = .waiting id [])
    (hlive : s.stage.live = none) (hheld : s.stage.Held id) :
    step^[2] s = { s with phase := .choosing (some id) } := by
  obtain ⟨g, hg, hcancelled⟩ := hheld.resolve_left (by simp [hlive])
  have hrests : s.stage.Rests id := Or.inl (by simp [hlive])
  have hrelease : s.stage.release id = s.stage := if_neg (by simp [hlive])
  have hgrown : ¬ s.stage.hasGrown id = true := by simp [Stage.hasGrown, hg, hcancelled]
  have hnext : s.step = { s with phase := .growing id } := step_of_waited hphase
  calc step^[2] s = s.step.step := rfl
    _ = ({ s with phase := .growing id } : Session).step := by rw [hnext]
    _ = ({ s with phase := .growing id } : Session).tick id := step_of_growing rfl
    _ = ({ s with phase := .growing id } : Session).endGrowth id := by
      rw [tick]
      dsimp only
      rw [Stage.openTick_of_rests hrests, hrelease]
    _ = { s with phase := .choosing (some id) } := by
      rw [endGrowth]
      exact if_neg hgrown

/-- A growth that was stopped in its wait, with nothing asked for and nothing more to be performed
in the wait, is the end of the command. -/
theorem ComesToWait.command_eq_of_stopped {c : SessionCommand} {id k : Nat}
    {commands : List SessionCommand} {wait : Session} (hwait : ComesToWait s c id commands wait)
    (hphase : (step^[k] wait).phase = .waiting id [])
    (hlive : (step^[k] wait).stage.live = none) (hheld : (step^[k] wait).stage.Held id)
    (hpending : (step^[k] wait).pending = none) :
    s.command c =
      { step^[k] wait with phase := .idle, reply := if answers c then some id else none } := by
  have hrest : step^[3] (step^[k] wait) =
      { step^[k] wait with phase := .idle, reply := some id } := by
    rw [Function.iterate_succ_apply', choosing_of_stopped hphase hlive hheld]
    exact step_of_not_pending rfl hpending
  have hidle := congrArg Session.phase hrest
  rw [← Function.iterate_add_apply] at hrest hidle
  rw [hwait.command_eq hidle, hrest]
  split
  · rfl
  · rfl

/-- A wait in which the session is closed is the end of the command that it belongs to, with nothing
more drawn or waited for, exactly if what the commands of the wait asked for last is to run nothing
more, or they asked for nothing; otherwise the run that they asked for last begins. If no command
after the close may ask for a run, then this depends on what was asked for before it, unless one
after it asks to run nothing more: the close itself takes back nothing. -/
theorem closed_wait_ends_command_iff {wait done : Session} {c : SessionCommand} {id : Nat}
    {before after : List SessionCommand} (hs : Reached s) (hidle : s.phase = .idle)
    (hwait : ComesToWait s c id (before ++ .close :: after) wait)
    (hdone : done = step^[(before ++ .close :: after).length] wait)
    (hperformed : done.phase = .waiting id []) :
    (lastAsked none (wait.asked (before ++ .close :: after)) = none →
      s.command c =
        { done with phase := .idle, reply := if answers c then some id else none }) ∧
    (∀ mode, lastAsked none (wait.asked (before ++ .close :: after)) = some mode →
      step^[3] done =
        ({ done with pending := none, phase := .choosing (some id) } : Session).beginRun mode) ∧
    ((∀ d ∈ after, ¬ d.MayRun) →
      (lastAsked none (wait.asked (before ++ .close :: after)) = none ↔
        lastAsked none (wait.asked before) = none ∨ ∃ d ∈ after, d.Quits)) := by
  subst hdone
  have hwhole : ComesToWait s c id ((before ++ .close :: after) ++ []) wait := by
    rw [List.append_nil]
    exact hwait
  obtain ⟨hpending, hlive, hheld⟩ := hwhole.after_commands hs.sound hidle hperformed
  have hhalted : wait.halted (before ++ .close :: after) = true := by
    rw [halted_append, halted, halts, Bool.true_or, Bool.or_true]
  rw [if_pos hhalted] at hlive
  refine ⟨?_, ?_, ?_⟩
  · intro hnothing
    rw [hnothing] at hpending
    exact hwait.command_eq_of_stopped hperformed hlive hheld hpending
  · intro mode hmode
    rw [hmode] at hpending
    rw [Function.iterate_succ_apply', choosing_of_stopped hperformed hlive hheld]
    exact step_of_pending rfl hpending
  · intro hafter
    have hclose : ∀ t : Session, t.asked (.close :: after) = t.step.asked after := fun _ => rfl
    rw [asked_append, lastAsked_append, hclose]
    exact lastAsked_of_not_mayRun hafter _ _

/-- A close and nothing else: the growth that was stopped is the answer. -/
theorem closed_ends_at_once :
    ((interruptedBy [.close]).command (.run (some (.text "grow".toList)))).reply = some 0 ∧
      ((interruptedBy [.close]).command (.run (some (.text "grow".toList)))).stage.log.size = 3 := by
  have hwait : ComesToWait (interruptedBy [.close]) (.run (some (.text "grow".toList))) 0
      ([] ++ .close :: []) _ := ⟨1, rfl, rfl, rfl⟩
  obtain ⟨hends, _, hquiet⟩ :=
    closed_wait_ends_command_iff (reached_interruptedBy _) rfl hwait rfl rfl
  rw [hends ((hquiet (by simp)).2 (Or.inl rfl))]
  exact ⟨rfl, rfl⟩

/-- A run that was asked for before the close is run all the same: it clears and draws. -/
theorem closed_draws_again : ∃ wait,
    ComesToWait (interruptedBy [.key (some ['r']), .close]) (.run (some (.text "grow".toList))) 0
      ([.key (some ['r'])] ++ .close :: []) wait ∧
    (step^[2] wait).phase = .waiting 0 [] ∧ (step^[2] wait).stage.log.size = 3 ∧
    ((interruptedBy [.key (some ['r']), .close]).command
      (.run (some (.text "grow".toList)))).stage.log.size = 5 ∧
    ((interruptedBy [.key (some ['r']), .close]).command
      (.run (some (.text "grow".toList)))).lastMode = .render := by
  have hrest := command_of_iterate (s := interruptedBy [.key (some ['r']), .close])
    (c := .run (some (.text "grow".toList))) (n := 8) rfl
  rw [hrest]
  exact ⟨_, ⟨1, rfl, rfl, rfl⟩, rfl, rfl, rfl, rfl⟩

end Session

end Lindenmayer
