import Lindenmayer.Proofs.Config.Recount
import Lindenmayer.Proofs.Session.Picture
import Lindenmayer.Proofs.Session.Rest

/-!
# Keys that draw

Four keys draw the configuration again, two of them with one iteration more or fewer. However they
are pressed, between the runs of a session or in the waits of a growth, every press counts, and once
the session rests, the drawing on record is the one that the presses have come to.
-/
namespace Lindenmayer

namespace SessionCommand

/-- The names of the keys that draw. -/
def drawingKeys : List (List Char) := [['r'], ['g'], "up".toList, "down".toList]

/-- The command is the press of a key that draws. -/
def IsPress (c : SessionCommand) : Prop := ∃ name ∈ drawingKeys, c = .key (some name)

/-- The number of iterations after a press: there are never fewer than none. -/
def recount (n : Nat) : SessionCommand → Nat
  | .key (some name) =>
    if name = "up".toList then n + 1 else if name = "down".toList then n - 1 else n
  | _ => n

end SessionCommand

namespace Session

open SessionCommand

/-- The command that a wait is about to perform, if it has one left. -/
def imminent (s : Session) : List SessionCommand := (waitingCommands s.phase).take 1

/-- The commands that are performed in waits until the session rests, in order. -/
def heard (s : Session) : List SessionCommand :=
  if _h : s.isRunning = true then s.imminent ++ heard s.step else []
termination_by (s.load, s.distance)
decreasing_by
  rcases descends_step (s := s) (by assumption) with hload | ⟨hload, hdistance⟩
  · exact Prod.Lex.left _ _ hload
  · rw [hload]
    exact Prod.Lex.right _ hdistance

/-- A session at rest that has just been given a command. -/
def told (s : Session) (c : SessionCommand) : Session :=
  { s with reply := none, failure := none }.perform c

/-- The commands that are performed when a session at rest is given some one after another: each
of them, and after it those in the waits that follow. -/
def performed : Session → List SessionCommand → List SessionCommand
  | _, [] => []
  | s, c :: rest => c :: (s.told c).heard ++ performed (s.command c) rest

/-- The drawing on record is that of the configuration. -/
def Drawn (s : Session) : Prop :=
  ∃ segments stats, s.config.draw s.limit = .ok (segments, stats) ∧
    s.lastSegments = some segments.toArray ∧ s.stats = some stats

/-- The configuration is on record as drawn unless it is still to be drawn or cannot be. -/
def Current (s : Session) : Prop :=
  match s.phase with
  | .idle => s.status.isError = true ∨ s.Drawn
  | .choosing _ => s.pending ≠ none ∨ s.status.isError = true ∨ s.Drawn
  | _ => s.pending ≠ none ∨ s.Drawn

/-- The session draws that configuration, and only keys that draw are still to be pressed. -/
structure Keyed (config : Config) (limit : Limit) (s : Session) : Prop where
  config_eq : s.config = config
  limit_eq : s.limit = limit
  scheduled : s.onWait.Every IsPress
  waiting : ∀ c ∈ waitingCommands s.phase, IsPress c

variable {s : Session} {config : Config} {limit : Limit}

theorem Drawn.current (h : s.Drawn) : s.Current := by
  rw [Current]
  split
  · exact Or.inr h
  · exact Or.inr (Or.inr h)
  · exact Or.inr h

theorem current_of_pending (hrunning : s.isRunning = true) (hpending : s.pending ≠ none) :
    s.Current := by
  rw [Current]
  split
  · next hidle =>
    rw [isRunning_of_idle hidle] at hrunning
    cases hrunning
  · exact Or.inl hpending
  · exact Or.inl hpending

/-- An error that is reported is a reason for everything but a growth in progress. -/
theorem current_setStatus (h : s.isRunning = true → s.Current) (text : List Char) :
    (s.setStatus text true).Current := by
  rw [setStatus_eq, Current]
  dsimp only
  split
  · exact Or.inl rfl
  · exact Or.inr (Or.inl rfl)
  · next hidle hchoosing =>
    have hrunning : s.isRunning = true := by
      rw [isRunning]
      split
      · next hphase => exact absurd hphase hidle
      · rfl
    have hcurrent := h hrunning
    rw [Current] at hcurrent
    split at hcurrent
    · next hphase => exact absurd hphase hidle
    · next last hphase => exact absurd hphase (hchoosing last)
    · exact hcurrent

/-! What a press does. -/

theorem changeIterations_of_made (hmade : s.config.Made) {delta : Int} {n : Nat}
    (hsum : s.config.iterations + delta = n) (hn : n < 2 ^ 53) :
    s.changeIterations (.whole delta) =
      { s with config := { s.config with iterations := n } }.enqueue s.lastMode := by
  rw [changeIterations, Numeric.addInt?, hsum]
  dsimp only
  rw [hmade.make_settings hn]

theorem changeIterations_of_none (hnone : s.config.iterations = 0) :
    ∃ text, s.changeIterations (.whole (-1)) = s.setStatus text true := by
  obtain ⟨e, hmake, hreport⟩ := s.config.make_settings_minus_one
  have hsum : (s.config.iterations : Int) + -1 = -1 := by omega
  refine ⟨e.message, ?_⟩
  rw [changeIterations, Numeric.addInt?, hsum]
  dsimp only
  rw [hmake]
  exact if_pos hreport

/-- A press asks for a run with the new number of iterations; one too few is reported. -/
theorem perform_press {c : SessionCommand} (hc : IsPress c) (hmade : s.config.Made)
    (hcount : recount s.config.iterations c < 2 ^ 53) :
    (∃ mode, s.perform c = { s with
      config := { s.config with iterations := recount s.config.iterations c } }.enqueue mode) ∨
    (recount s.config.iterations c = s.config.iterations ∧
      ∃ text, s.perform c = s.setStatus text true) := by
  obtain ⟨name, hname, rfl⟩ := hc
  simp only [drawingKeys, List.mem_cons, List.not_mem_nil, or_false] at hname
  rcases hname with rfl | rfl | rfl | rfl
  · have hkey : s.perform (.key (some ['r'])) = s.enqueue .render := by simp [perform, pressKey]
    have hsame : recount s.config.iterations (.key (some ['r'])) = s.config.iterations := by
      simp [recount]
    rw [hkey, hsame]
    exact Or.inl ⟨.render, rfl⟩
  · have hkey : s.perform (.key (some ['g'])) = s.enqueue .grow := by simp [perform, pressKey]
    have hsame : recount s.config.iterations (.key (some ['g'])) = s.config.iterations := by
      simp [recount]
    rw [hkey, hsame]
    exact Or.inl ⟨.grow, rfl⟩
  · have hkey : s.perform (.key (some "up".toList)) = s.changeIterations (.whole 1) := by
      simp [perform, pressKey]
    have hmore : recount s.config.iterations (.key (some "up".toList)) = s.config.iterations + 1 := by
      simp [recount]
    rw [hmore] at hcount ⊢
    rw [hkey]
    exact Or.inl ⟨s.lastMode, changeIterations_of_made hmade (by omega) hcount⟩
  · have hkey : s.perform (.key (some "down".toList)) = s.changeIterations (.whole (-1)) := by
      simp [perform, pressKey]
    have hfewer : recount s.config.iterations (.key (some "down".toList)) =
        s.config.iterations - 1 := by
      simp [recount]
    rw [hfewer] at hcount ⊢
    rw [hkey]
    by_cases hnone : s.config.iterations = 0
    · exact Or.inr ⟨by omega, changeIterations_of_none hnone⟩
    · exact Or.inl ⟨s.lastMode, changeIterations_of_made hmade (by omega) hcount⟩

/-! What a step does. -/

/-- A run draws the configuration, or says why it cannot. -/
theorem beginRun_cases (s : Session) (mode : Mode) :
    (s.beginRun mode).Failed ∨
      ((s.beginRun mode).config = s.config ∧ (s.beginRun mode).limit = s.limit ∧
        ((s.beginRun mode).Drawn ∨ ((s.beginRun mode).phase = .choosing none ∧
          (s.beginRun mode).status.isError = true))) := by
  obtain ⟨view, viewport, printed, hcanvas⟩ := exists_applyCanvas s.stopStage
  rw [beginRun]
  split
  · exact Or.inl (failed_fail _ _)
  · next u hu =>
    rw [hu] at hcanvas
    subst hcanvas
    rw [setStatus_eq, drawRun]
    have hdraw : s.stopStage.config.draw s.stopStage.limit = s.config.draw s.limit := rfl
    dsimp only
    rw [hdraw]
    cases hdrawn : s.config.draw s.limit with
    | error e =>
      dsimp only
      split
      · rw [setStatus_eq]
        exact Or.inr ⟨rfl, rfl, Or.inr ⟨rfl, rfl⟩⟩
      · exact Or.inl (failed_fail _ _)
    | ok drawing =>
      obtain ⟨segments, stats⟩ := drawing
      cases mode with
      | render =>
        dsimp only
        rw [renderAll, setStatus_eq]
        exact Or.inr ⟨rfl, rfl, Or.inl ⟨segments, stats, hdrawn, rfl, rfl⟩⟩
      | grow =>
        dsimp only
        rw [beginGrowth]
        split
        · exact Or.inl (failed_fail _ _)
        · rw [setStatus_eq]
          exact Or.inr ⟨rfl, rfl, Or.inl ⟨segments, stats, hdrawn, rfl, rfl⟩⟩

theorem tick_cases (s : Session) (id : Nat) :
    (∃ stage, s.tick id = { s with stage := stage }.endGrowth id) ∨
      ∃ stage, s.tick id = { s with stage := stage }.beginWait id := by
  rw [tick]
  split
  · exact Or.inl ⟨_, rfl⟩
  · split
    · exact Or.inl ⟨_, rfl⟩
    · exact Or.inr ⟨_, rfl⟩

theorem keyed_endGrowth (h : Keyed config limit s) (hcurrent : s.pending ≠ none ∨ s.Drawn)
    (stage : Stage Segment) (id : Nat) :
    Keyed config limit ({ s with stage := stage }.endGrowth id) ∧
      ({ s with stage := stage }.endGrowth id).Current := by
  rw [endGrowth]
  split
  · rw [setStatus_eq]
    exact ⟨⟨h.config_eq, h.limit_eq, h.scheduled, by simp [waitingCommands]⟩,
      hcurrent.imp_right Or.inr⟩
  · exact ⟨⟨h.config_eq, h.limit_eq, h.scheduled, by simp [waitingCommands]⟩,
      hcurrent.imp_right Or.inr⟩

theorem keyed_beginWait (h : Keyed config limit s) (hcurrent : s.pending ≠ none ∨ s.Drawn)
    (stage : Stage Segment) (id : Nat) :
    ({ s with stage := stage }.beginWait id).Failed ∨
      (Keyed config limit ({ s with stage := stage }.beginWait id) ∧
        ({ s with stage := stage }.beginWait id).Current) := by
  obtain ⟨hnow, hlater⟩ := Schedule.every_next h.scheduled
  rw [beginWait]
  split
  · exact Or.inl (failed_fail _ _)
  · exact Or.inr ⟨⟨h.config_eq, h.limit_eq, hlater, hnow⟩, hcurrent⟩

/-- A press asks for another run and counts, or it is reported and changes nothing. -/
theorem keyed_perform (h : Keyed config limit s) (hmade : config.Made) {c : SessionCommand}
    (hc : IsPress c) (hcount : recount config.iterations c < 2 ^ 53)
    (hcurrent : s.isRunning = true → s.Current) :
    Keyed { config with iterations := recount config.iterations c } limit (s.perform c) ∧
      (s.perform c).Current := by
  obtain ⟨rfl, rfl, hscheduled, hwaiting⟩ := h
  rcases perform_press hc hmade hcount with ⟨mode, hperform⟩ | ⟨hsame, text, hperform⟩
  · rw [hperform, enqueue]
    split
    · next hrunning =>
      exact ⟨⟨rfl, rfl, hscheduled, hwaiting⟩,
        current_of_pending hrunning (Option.some_ne_none mode)⟩
    · exact ⟨⟨rfl, rfl, hscheduled, by simp [waitingCommands]⟩,
        current_of_pending rfl (Option.some_ne_none mode)⟩
  · have hkept := current_setStatus hcurrent text
    rw [hperform, hsame]
    rw [setStatus_eq] at hkept ⊢
    exact ⟨⟨rfl, rfl, hscheduled, hwaiting⟩, hkept⟩

theorem imminent_of_phase {phase : Phase} (h : s.phase = phase) :
    s.imminent = (waitingCommands phase).take 1 := by
  rw [imminent, h]

/-- A step performs what is imminent, if anything is, and the session stays up to date. -/
theorem keyed_step (h : Keyed config limit s) (hmade : config.Made) (hcurrent : s.Current)
    (hcount : s.imminent.foldl recount config.iterations < 2 ^ 53) :
    s.step.Failed ∨
      (Keyed { config with iterations := s.imminent.foldl recount config.iterations } limit s.step ∧
        s.step.Current) := by
  have hwaiting := h.waiting
  cases hphase : s.phase with
  | idle =>
    rw [step_of_idle hphase, imminent_of_phase hphase]
    exact Or.inr ⟨h, hcurrent⟩
  | choosing last =>
    rw [Current, hphase] at hcurrent
    rw [imminent_of_phase hphase]
    cases hpending : s.pending with
    | none =>
      rw [step_of_not_pending hphase hpending]
      right
      constructor
      · exact ⟨h.config_eq, h.limit_eq, h.scheduled, by simp [waitingCommands]⟩
      · exact hcurrent.resolve_left (not_not.2 hpending)
    | some mode =>
      rw [step_of_pending hphase hpending]
      obtain ⟨hwait, hcommands, _⟩ := unloaded_beginRun (s := { s with pending := none }) rfl mode
      obtain hfailed | ⟨hconfig, hlimit, hdrawn⟩ := beginRun_cases { s with pending := none } mode
      · exact Or.inl hfailed
      · right
        constructor
        · refine ⟨hconfig.trans h.config_eq, hlimit.trans h.limit_eq, ?_, by simp [hcommands]⟩
          rw [hwait]
          exact h.scheduled
        · rcases hdrawn with hdrawn | ⟨hchoosing, herror⟩
          · exact hdrawn.current
          · rw [Current, hchoosing]
            exact Or.inr (Or.inl herror)
  | growing id =>
    rw [Current, hphase] at hcurrent
    rw [step_of_growing hphase, imminent_of_phase hphase]
    rcases tick_cases s id with ⟨stage, htick⟩ | ⟨stage, htick⟩
    · rw [htick]
      exact Or.inr (keyed_endGrowth h hcurrent stage id)
    · rw [htick]
      exact keyed_beginWait h hcurrent stage id
  | waiting id rest =>
    rw [Current, hphase] at hcurrent
    rw [hphase] at hwaiting
    rw [imminent_of_phase hphase] at hcount ⊢
    cases rest with
    | nil =>
      rw [step_of_waited hphase]
      right
      constructor
      · exact ⟨h.config_eq, h.limit_eq, h.scheduled, by simp [waitingCommands]⟩
      · exact hcurrent
    | cons c rest =>
      have hwait : Keyed config limit { s with phase := .waiting id rest } :=
        ⟨h.config_eq, h.limit_eq, h.scheduled,
          fun d hd => hwaiting d (List.mem_cons_of_mem c hd)⟩
      rw [step_of_waiting hphase]
      right
      exact keyed_perform hwait hmade (hwaiting c List.mem_cons_self) hcount fun _ => hcurrent

/-! What a whole command does. -/

theorem heard_of_running (h : s.isRunning = true) : s.heard = s.imminent ++ s.step.heard := by
  rw [heard, dif_pos h]

theorem heard_of_idle (h : s.phase = .idle) : s.heard = [] := by
  rw [heard, dif_neg (by simp [isRunning_of_idle h])]

/-- The counts that the commands go through stay below `2 ^ 53`. -/
def Countable (n : Nat) (commands : List SessionCommand) : Prop :=
  ∀ first, first <+: commands → first.foldl recount n < 2 ^ 53

theorem Countable.left {n : Nat} {first rest : List SessionCommand}
    (h : Countable n (first ++ rest)) : Countable n first :=
  fun commands hbegins => h commands (hbegins.trans (List.prefix_append first rest))

theorem Countable.right {n : Nat} {first rest : List SessionCommand}
    (h : Countable n (first ++ rest)) : Countable (first.foldl recount n) rest := by
  intro commands hbegins
  have hall := h (first ++ commands) ((List.prefix_append_right_inj first).2 hbegins)
  rw [List.foldl_append] at hall
  exact hall

theorem recount_le (n : Nat) (c : SessionCommand) : recount n c ≤ n + 1 := by
  rw [recount.eq_def]
  split
  · split
    · exact Nat.le_refl _
    · split
      · omega
      · omega
  · omega

/-- A command counts for one at most. -/
theorem countable_of_length {n : Nat} {commands : List SessionCommand}
    (h : n + commands.length < 2 ^ 53) : Countable n commands := by
  have hfold : ∀ (first : List SessionCommand) (k : Nat), first.foldl recount k ≤ k + first.length := by
    intro first
    induction first with
    | nil => exact fun k => Nat.le_refl k
    | cons c rest ih =>
      intro k
      have hfirst := recount_le k c
      have hrest := ih (recount k c)
      rw [List.foldl_cons, List.length_cons]
      omega
  intro first hbegins
  have hall := hfold first n
  have hlength := hbegins.length_le
  omega

theorem keyed_settle (s : Session) {config : Config} (h : Keyed config limit s)
    (hmade : config.Made) (hcurrent : s.Current) (hcounts : Countable config.iterations s.heard)
    (hok : s.settle.failure = none) :
    Keyed { config with iterations := s.heard.foldl recount config.iterations } limit s.settle ∧
      s.settle.Current := by
  induction s using settle.induct generalizing config with
  | case1 s hrun ih =>
    rw [heard_of_running hrun] at hcounts ⊢
    rw [settle_of_running hrun] at hok ⊢
    have himminent := hcounts s.imminent (List.prefix_append _ _)
    rcases keyed_step h hmade hcurrent himminent with ⟨hidle, hfailure⟩ | ⟨hnext, hcurrent'⟩
    · rw [settle_of_idle hidle] at hok
      exact absurd hok hfailure
    · rw [List.foldl_append]
      exact ih hnext (hmade.recount _) hcurrent' hcounts.right hok
  | case2 s hrest =>
    have hidle := idle_of_not_running hrest
    rw [heard_of_idle hidle, settle_of_idle hidle]
    exact ⟨h, hcurrent⟩

theorem answers_press {c : SessionCommand} (hc : IsPress c) : answers c = false := by
  obtain ⟨name, _, rfl⟩ := hc
  rfl

theorem command_press {c : SessionCommand} (hc : IsPress c) :
    s.command c = { (s.told c).settle with reply := none } := by
  rw [command, answers_press hc]
  rfl

theorem keyed_command (h : Keyed config limit s) (hmade : config.Made) (hidle : s.phase = .idle)
    {c : SessionCommand} (hc : IsPress c)
    (hcounts : Countable config.iterations (c :: (s.told c).heard))
    (hok : (s.command c).failure = none) :
    Keyed { config with iterations := (c :: (s.told c).heard).foldl recount config.iterations } limit
        (s.command c) ∧ (s.command c).Current := by
  have hfresh : Keyed config limit { s with reply := none, failure := none } :=
    ⟨h.config_eq, h.limit_eq, h.scheduled, h.waiting⟩
  have hone : recount config.iterations c < 2 ^ 53 := hcounts [c] (List.prefix_append [c] _)
  have hrest : ({ s with reply := none, failure := none } : Session).isRunning = true →
      Current { s with reply := none, failure := none } := by
    intro hrunning
    have hstill : s.isRunning = false := isRunning_of_idle hidle
    cases hstill.symm.trans hrunning
  obtain ⟨htold, hcurrent⟩ := keyed_perform hfresh hmade hc hone hrest
  have hsplit : c :: (s.told c).heard = [c] ++ (s.told c).heard := rfl
  rw [command_press hc] at hok ⊢
  rw [hsplit] at hcounts ⊢
  rw [List.foldl_append]
  obtain ⟨hend, hcurrent⟩ :=
    keyed_settle (s.told c) htold (hmade.recount _) hcurrent hcounts.right hok
  exact ⟨⟨hend.config_eq, hend.limit_eq, hend.scheduled, hend.waiting⟩, hcurrent⟩

theorem keyed_commands (h : Keyed config limit s) (hmade : config.Made) (hidle : s.phase = .idle)
    {commands : List SessionCommand} (hpresses : ∀ c ∈ commands, IsPress c)
    (hcurrent : commands = [] → s.Current)
    (hcounts : Countable config.iterations (s.performed commands))
    (hok : ∀ first, first <+: commands → (first.foldl command s).failure = none) :
    Keyed { config with iterations := (s.performed commands).foldl recount config.iterations } limit
        (commands.foldl command s) ∧ (commands.foldl command s).Current := by
  induction commands generalizing s config with
  | nil => exact ⟨h, hcurrent rfl⟩
  | cons c rest ih =>
    have hsplit : s.performed (c :: rest) =
        (c :: (s.told c).heard) ++ (s.command c).performed rest := rfl
    rw [hsplit] at hcounts ⊢
    have hokc : (s.command c).failure = none := hok [c] (List.prefix_append [c] rest)
    obtain ⟨hnext, hdone⟩ :=
      keyed_command h hmade hidle (hpresses c List.mem_cons_self) hcounts.left hokc
    have hokrest : ∀ first, first <+: rest → (first.foldl command (s.command c)).failure = none := by
      intro first hfirst
      exact hok (c :: first) (List.cons_prefix_cons.2 ⟨rfl, hfirst⟩)
    rw [List.foldl_append, List.foldl_cons]
    exact ih hnext (hmade.recount _) (phase_command s c)
      (fun d hd => hpresses d (List.mem_cons_of_mem c hd)) (fun _ => hdone) hcounts.right hokrest

/-- A session that is given nothing but presses of the four keys, between its runs and in their
waits, comes to the configuration with which it began, with as many iterations as the presses have
counted in the order in which they were performed, and unless its status is an error the drawing on
record is the one of that configuration. -/
theorem every_press_counts {settings : Settings} {batch delay : Numeric} {canvas : Canvas}
    {onWait : Schedule SessionCommand} {commands : List SessionCommand}
    (hmake : Config.make settings = .ok config)
    (hnew : s = new config batch delay limit canvas onWait) (hscript : onWait.Every IsPress)
    (hpresses : ∀ c ∈ commands, IsPress c) (hsome : commands ≠ [])
    (hok : ∀ first, first <+: commands → (first.foldl command s).failure = none)
    (hcounts : Countable config.iterations (s.performed commands)) :
    (commands.foldl command s).config =
        { config with iterations := (s.performed commands).foldl recount config.iterations } ∧
      ((commands.foldl command s).status.isError = true ∨ ∃ segments stats,
        (commands.foldl command s).config.draw limit = .ok (segments, stats) ∧
          (commands.foldl command s).lastSegments = some segments.toArray ∧
            (commands.foldl command s).stats = some stats) := by
  subst hnew
  have hkeyed : Keyed config limit (new config batch delay limit canvas onWait) :=
    ⟨rfl, rfl, hscript, by simp [new, waitingCommands]⟩
  have hrest : (commands.foldl command (new config batch delay limit canvas onWait)).phase =
      .idle := by
    rw [← List.dropLast_append_getLast hsome, List.foldl_append]
    exact phase_command _ _
  obtain ⟨hend, hcurrent⟩ := keyed_commands hkeyed (Config.made_of_make hmake) rfl hpresses
    (fun hnone => absurd hnone hsome) hcounts hok
  rw [Current, hrest] at hcurrent
  rw [Drawn, hend.limit_eq] at hcurrent
  exact ⟨hend.config_eq, hcurrent⟩

/-- The commands that are performed in waits in the next steps. -/
def heardWithin : Nat → Session → List SessionCommand
  | 0, _ => []
  | n + 1, s => s.imminent ++ heardWithin n s.step

theorem heard_eq_heardWithin {n : Nat} (h : (step^[n] s).phase = .idle) :
    s.heard = heardWithin n s := by
  induction n generalizing s with
  | zero => exact heard_of_idle h
  | succ n ih =>
    rw [Function.iterate_succ_apply] at h
    rw [heardWithin, ← ih h]
    by_cases hrunning : s.isRunning = true
    · exact heard_of_running hrunning
    · have hidle := idle_of_not_running hrunning
      rw [step_of_idle hidle, imminent_of_phase hidle]
      rfl

/-- A new session that draws two segments; in its first wait two more iterations are asked for and
one of them is taken back. -/
def wavering : Session :=
  new ⟨"F".toList, "F=FF".toList, 1, 90, 1, Config.defaultPen⟩ (.whole 1) (.whole 0)
    Config.defaultLimit .empty
    (.ofNumbered [(1, [.key (some "up".toList), .key (some "up".toList),
      .key (some "down".toList)])])

theorem idle_wavering : (step^[20] (wavering.told (.key (some ['g'])))).phase = .idle :=
  idle_of_not_running (by decide +kernel)

theorem isPress_grow : IsPress (.key (some ['g'])) := ⟨['g'], by decide +kernel, rfl⟩

theorem command_wavering : wavering.command (.key (some ['g'])) =
    { step^[20] (wavering.told (.key (some ['g']))) with reply := none } := by
  rw [command_press isPress_grow, settle_eq_iterate idle_wavering]

theorem performed_wavering : wavering.performed [.key (some ['g'])] =
    .key (some ['g']) :: heardWithin 20 (wavering.told (.key (some ['g']))) := by
  rw [performed, performed, heard_eq_heardWithin idle_wavering, List.append_nil]

/-- The presses in the wait count, and the drawing that they have come to is on record. -/
theorem wavering_draws_what_was_counted :
    (wavering.command (.key (some ['g']))).config = { wavering.config with iterations := 2 } ∧
      (wavering.command (.key (some ['g']))).status = ⟨"Grown.".toList, false⟩ ∧
      ∃ segments stats,
        (wavering.command (.key (some ['g']))).config.draw Config.defaultLimit =
          .ok (segments, stats) ∧
        (wavering.command (.key (some ['g']))).lastSegments = some segments.toArray ∧
          (wavering.command (.key (some ['g']))).stats = some stats := by
  have hmade : wavering.config.Made :=
    ⟨by decide +kernel, by decide +kernel, by decide +kernel, by decide +kernel⟩
  have hmake : Config.make (wavering.config.settings (.whole 1)) = .ok wavering.config :=
    hmade.make_settings (n := 1) (by decide)
  have hentries : wavering.onWait.entries = [(0, [.key (some "up".toList),
      .key (some "up".toList), .key (some "down".toList)])] := rfl
  have hscript : wavering.onWait.Every IsPress := by
    simp [Schedule.Every, hentries, IsPress, drawingKeys]
  have hfailure : (wavering.command (.key (some ['g']))).failure = none := by
    rw [command_wavering]
    exact Option.isNone_iff_eq_none.1 (by decide +kernel)
  have hok : ∀ first, first <+: [SessionCommand.key (some ['g'])] →
      (first.foldl command wavering).failure = none := by
    intro first hfirst
    rcases List.prefix_cons_iff.1 hfirst with rfl | ⟨rest, rfl, hrest⟩
    · rfl
    · obtain rfl := List.prefix_nil.1 hrest
      exact hfailure
  have hcounts : Countable wavering.config.iterations
      (wavering.performed [.key (some ['g'])]) := by
    apply countable_of_length
    rw [performed_wavering]
    decide +kernel
  have hcount : (wavering.performed [.key (some ['g'])]).foldl recount
      wavering.config.iterations = 2 := by
    rw [performed_wavering]
    decide +kernel
  have hstatus : (wavering.command (.key (some ['g']))).status = ⟨"Grown.".toList, false⟩ := by
    rw [command_wavering]
    decide +kernel
  have hfine : ¬ (wavering.command (.key (some ['g']))).status.isError = true := by
    rw [hstatus]
    decide
  obtain ⟨hconfig, hdrawn⟩ := every_press_counts (s := wavering) hmake rfl hscript
    (by simpa using isPress_grow) (List.cons_ne_nil _ _) hok hcounts
  rw [hcount] at hconfig
  exact ⟨hconfig, hstatus, hdrawn.resolve_left hfine⟩

end Session

end Lindenmayer
