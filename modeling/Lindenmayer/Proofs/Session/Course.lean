import Lindenmayer.Proofs.Session.Effects
import Mathlib.Logic.Function.Iterate

/-!
# The course of a session

A session takes commands while it rests and otherwise goes on with what it is in the middle of. On
the way its stage only ever makes its moves, and the growth it is in the middle of is one of those
on the stage.
-/
namespace Lindenmayer

/-- The growth that is in progress. -/
def Phase.growth? : Phase → Option Nat
  | .growing id => some id
  | .waiting id _ => some id
  | _ => none

namespace Session

/-- What may happen next, where the commands that come from outside have property `p`. -/
inductive Turn (p : SessionCommand → Prop) : Session → Session → Prop
  | step (s : Session) : Turn p s s.step
  | begin (s : Session) (c : SessionCommand) (h : s.phase = .idle) (hc : p c) :
      Turn p s ({ s with reply := none, failure := none }.perform c)
  /-- A command that has no answer is over. -/
  | forget (s : Session) : Turn p s { s with reply := none }

abbrev Turns (p : SessionCommand → Prop) : Session → Session → Prop :=
  Relation.ReflTransGen (Turn p)

/-- The session has come from a new one by commands of any kind. -/
def Reached (s : Session) : Prop :=
  ∃ (config : Config) (batch delay : Numeric) (limit : Limit) (canvas : Canvas)
    (onWait : Schedule SessionCommand),
    Turns (fun _ => True) (new config batch delay limit canvas onWait) s

structure Sound (s : Session) : Prop where
  stage : s.stage.Sound
  growth_lt : ∀ id, s.phase.growth? = some id → id < s.stage.growths.size

/-! The moves of the stage. -/

theorem moves_enqueue {s : Session} (hs : s.stage.Sound) (mode : Mode) :
    Stage.Moves s.stage (s.enqueue mode).stage := by
  rw [enqueue]
  split
  · exact Stage.moves_stop hs
  · exact .refl

theorem moves_renderAll {s : Session} (hs : s.stage.Sound) (segments : Array Segment) :
    Stage.Moves s.stage (s.renderAll segments).stage := by
  rw [renderAll, setStatus_eq]
  exact Stage.moves_drawAll hs segments

theorem Aside.stage_eq {s t : Session} (h : Aside s t) : t.stage = s.stage := by
  obtain ⟨_, _, _, _, _, _, rfl⟩ := h
  rfl

theorem Effect.moves {s t : Session} {c : SessionCommand} (h : Effect s c t)
    (hs : s.stage.Sound) : Stage.Moves s.stage t.stage := by
  cases h with
  | @asks u mode _ ht =>
    rw [← ht.stage_eq] at hs ⊢
    exact moves_enqueue hs mode
  | stops _ =>
    rw [stop, setStatus_eq]
    exact Stage.moves_stop hs
  | fails e _ ht =>
    obtain ⟨_, _, _, _, _, _, rfl⟩ := ht
    exact .refl
  | reports _ _ =>
    rw [setStatus_eq]
  | tells _ _ =>
    rw [setStatus_eq]
  | closes _ => exact Stage.moves_stop hs
  | @shows u segments _ ht _ =>
    rw [← ht.stage_eq] at hs ⊢
    exact moves_renderAll hs segments
  | batches _ _ => exact .refl
  | aside _ ht =>
    rw [ht.stage_eq]

theorem moves_beginGrowth {s : Session} (hs : s.stage.Sound) (segments : Array Segment) :
    Stage.Moves s.stage (s.beginGrowth segments).stage := by
  have hstart := Stage.moves_start hs segments s.batch s.delay
  rw [beginGrowth]
  rcases hr : s.stage.start segments s.batch s.delay with ⟨e | id, t⟩
  · rw [hr] at hstart
    exact hstart
  · rw [hr] at hstart
    dsimp only
    rw [setStatus_eq]
    exact hstart

theorem Beginning.moves {s t : Session} {mode : Mode} (h : Beginning s mode t)
    (hs : s.stage.Sound) : Stage.Moves s.stage t.stage := by
  cases h with
  | breaks e ht =>
    obtain ⟨_, _, _, _, _, _, rfl⟩ := ht
    rw [setStatus_eq]
    exact .refl
  | reports ht he =>
    obtain ⟨_, _, _, _, _, _, rfl⟩ := ht
    rw [setStatus_eq, setStatus_eq]
  | @renders u segments stats ht _ =>
    have hstage : (u.recorded .render segments stats).stage = s.stage := by
      rw [recorded, setStatus_eq]
      exact ht.stage_eq
    rw [← hstage] at hs ⊢
    exact moves_renderAll hs _
  | @grows u segments stats ht _ =>
    have hstage : (u.recorded .grow segments stats).stage = s.stage := by
      rw [recorded, setStatus_eq]
      exact ht.stage_eq
    rw [← hstage] at hs ⊢
    exact moves_beginGrowth hs _

theorem stage_endGrowth (s : Session) (id : Nat) : (s.endGrowth id).stage = s.stage := by
  rw [endGrowth]
  split
  · rw [setStatus_eq]
  · rfl

theorem Ticking.moves {s t : Session} {id : Nat} (h : Ticking s id t) :
    Stage.Moves s.stage t.stage := by
  cases h with
  | rests hr =>
    rw [stage_endGrowth]
    exact Stage.moves_release hr
  | lasts hd hlast =>
    rw [stage_endGrowth]
    exact .single (.finish hd hlast)
  | waits hd hmore hgap => exact .single (.pause hd hmore hgap)
  | breaks hd hmore => exact .single (.draw hd hmore)

theorem Stepping.moves {s t : Session} (h : Stepping s t) (hs : s.stage.Sound) :
    Stage.Moves s.stage t.stage := by
  cases h with
  | idles _ => exact .refl
  | ends _ _ => exact .refl
  | begins _ _ ht =>
    have hstop := Stage.moves_stop hs
    exact hstop.trans (ht.moves (Stage.sound_of_moves hs hstop))
  | ticks _ ht => exact ht.moves
  | resumes _ => exact .refl
  | performs _ ht => exact ht.moves hs

/-! What is in progress is on the stage. -/

theorem phase_enqueue (s : Session) (mode : Mode) :
    (s.enqueue mode).phase = if s.isRunning then s.phase else .choosing none := by
  rw [enqueue]
  split
  · rfl
  · rfl

theorem Effect.phase_cases {s t : Session} {c : SessionCommand} (h : Effect s c t) :
    t.phase = .idle ∨ t.phase = s.phase ∨ t.phase = .choosing none := by
  cases h with
  | @asks u mode _ ht =>
    obtain ⟨_, _, _, _, _, _, rfl⟩ := ht
    right
    rw [phase_enqueue]
    split
    · exact Or.inl rfl
    · exact Or.inr rfl
  | stops _ =>
    rw [stop, setStatus_eq]
    exact Or.inr (Or.inl rfl)
  | fails e _ ht => exact Or.inl rfl
  | reports _ _ =>
    rw [setStatus_eq]
    exact Or.inr (Or.inl rfl)
  | tells _ _ =>
    rw [setStatus_eq]
    exact Or.inr (Or.inl rfl)
  | closes _ => exact Or.inr (Or.inl rfl)
  | shows _ ht _ =>
    obtain ⟨_, _, _, _, _, _, rfl⟩ := ht
    rw [renderAll, setStatus_eq]
    exact Or.inr (Or.inl rfl)
  | batches _ _ => exact Or.inr (Or.inl rfl)
  | aside _ ht =>
    obtain ⟨_, _, _, _, _, _, rfl⟩ := ht
    exact Or.inr (Or.inl rfl)

/-- A run fails, is over at once, or has put a new growth on the stage. -/
theorem Beginning.phase_cases {s t : Session} {mode : Mode} (h : Beginning s mode t) :
    (t.phase = .idle ∧ t.failure ≠ none) ∨
      (t.phase = .choosing none ∧ (mode = .render ∨ t.status.isError = true)) ∨
      (t.phase = .growing s.stage.growths.size ∧ s.stage.growths.size < t.stage.growths.size ∧
        mode = .grow ∧ t.lastMode = .grow) := by
  cases h with
  | breaks e ht => exact Or.inl ⟨rfl, by simp [fail]⟩
  | reports ht he =>
    rw [setStatus_eq]
    exact Or.inr (Or.inl ⟨rfl, Or.inr rfl⟩)
  | renders ht _ => exact Or.inr (Or.inl ⟨rfl, Or.inl rfl⟩)
  | @grows u segments stats ht _ =>
    obtain ⟨_, _, _, _, _, _, rfl⟩ := ht
    obtain ⟨e, t, _, heq⟩ | ⟨n, _, heq⟩ :=
      beginGrowth_cases (recorded _ .grow segments stats) segments.toArray
    · rw [heq]
      exact Or.inl ⟨rfl, by simp [fail]⟩
    · rw [heq, setStatus_eq, recorded, setStatus_eq]
      refine Or.inr (Or.inr ⟨rfl, ?_, rfl, rfl⟩)
      have hsize := s.stage.size_wiped
      simp only [Stage.addDetached, Array.size_push]
      omega

theorem phase_endGrowth (s : Session) (id : Nat) :
    (s.endGrowth id).phase = .choosing (some id) := by
  rw [endGrowth]
  split
  · rfl
  · rfl

theorem Ticking.phase_cases {s t : Session} {id : Nat} (h : Ticking s id t) :
    (t.phase = .idle ∧ t.failure ≠ none) ∨ t.phase = .choosing (some id) ∨
      ∃ rest, t.phase = .waiting id rest := by
  cases h with
  | rests hr => exact Or.inr (Or.inl (phase_endGrowth _ id))
  | lasts hd hlast => exact Or.inr (Or.inl (phase_endGrowth _ id))
  | waits hd hmore hgap => exact Or.inr (Or.inr ⟨_, rfl⟩)
  | breaks hd hmore => exact Or.inl ⟨rfl, by simp [fail]⟩

theorem Sound.later {s t : Session} (hs : s.Sound) (hmoves : Stage.Moves s.stage t.stage)
    (h : ∀ id, t.phase.growth? = some id → s.phase.growth? = some id) : t.Sound := by
  refine ⟨Stage.sound_of_moves hs.stage hmoves, ?_⟩
  intro id hid
  have hlt := hs.growth_lt id (h id hid)
  have hsize := Stage.size_le_of_moves hmoves
  omega

theorem Effect.sound {s t : Session} {c : SessionCommand} (h : Effect s c t) (hs : s.Sound) :
    t.Sound := by
  refine hs.later (h.moves hs.stage) ?_
  intro id hid
  rcases h.phase_cases with hphase | hphase | hphase
  · rw [hphase] at hid
    cases hid
  · rw [← hphase]
    exact hid
  · rw [hphase] at hid
    cases hid

theorem Stepping.sound {s t : Session} (h : Stepping s t) (hs : s.Sound) : t.Sound := by
  have hmoves := h.moves hs.stage
  cases h with
  | idles _ => exact hs
  | ends _ _ => exact hs.later .refl (by simp [Phase.growth?])
  | begins _ _ ht =>
    rcases ht.phase_cases with ⟨hnext, _⟩ | ⟨hnext, _⟩ | ⟨hnext, hlt, _⟩
    · exact hs.later hmoves (by simp [hnext, Phase.growth?])
    · exact hs.later hmoves (by simp [hnext, Phase.growth?])
    · refine ⟨Stage.sound_of_moves hs.stage hmoves, ?_⟩
      intro id hid
      rw [hnext] at hid
      obtain rfl := Option.some.inj hid
      exact hlt
  | ticks h ht =>
    refine hs.later hmoves ?_
    intro k hk
    rw [h]
    rcases ht.phase_cases with ⟨hnext, _⟩ | hnext | ⟨rest, hnext⟩
    · rw [hnext] at hk
      cases hk
    · rw [hnext] at hk
      cases hk
    · rw [hnext] at hk
      exact hk
  | resumes h =>
    refine hs.later .refl ?_
    intro k hk
    rw [h]
    exact hk
  | @performs id c rest _ h ht =>
    have hwait : Sound { s with phase := .waiting id rest } := by
      refine hs.later .refl ?_
      intro k hk
      rw [h]
      exact hk
    exact ht.sound hwait

theorem sound_of_turn {p : SessionCommand → Prop} {s t : Session} (hs : s.Sound)
    (h : Turn p s t) : t.Sound := by
  cases h with
  | step => exact (stepping_step hs.stage).sound hs
  | begin c _ _ =>
    have hbegin : Sound { s with reply := none, failure := none } := hs.later .refl fun _ hid => hid
    exact (effect_perform _ c).sound hbegin
  | forget => exact hs.later .refl fun _ hid => hid

theorem sound_of_turns {p : SessionCommand → Prop} {s t : Session} (hs : s.Sound)
    (h : Turns p s t) : t.Sound := by
  induction h with
  | refl => exact hs
  | tail _ hturn ih => exact sound_of_turn ih hturn

theorem sound_new (config : Config) (batch delay : Numeric) (limit : Limit) (canvas : Canvas)
    (onWait : Schedule SessionCommand) : (new config batch delay limit canvas onWait).Sound :=
  ⟨Stage.sound_empty, by simp [new, Phase.growth?]⟩

theorem Reached.sound {s : Session} (h : Reached s) : s.Sound := by
  obtain ⟨config, batch, delay, limit, canvas, onWait, hturns⟩ := h
  exact sound_of_turns (sound_new config batch delay limit canvas onWait) hturns

/-! What a step goes on with. -/

theorem step_of_idle {s : Session} (h : s.phase = .idle) : s.step = s := by
  rw [step, h]

theorem step_of_growing {s : Session} {id : Nat} (h : s.phase = .growing id) :
    s.step = s.tick id := by
  rw [step, h]

theorem step_of_waited {s : Session} {id : Nat} (h : s.phase = .waiting id []) :
    s.step = { s with phase := .growing id } := by
  rw [step, h]

theorem step_of_waiting {s : Session} {id : Nat} {c : SessionCommand} {rest : List SessionCommand}
    (h : s.phase = .waiting id (c :: rest)) :
    s.step = { s with phase := .waiting id rest }.perform c := by
  rw [step, h]

/-! To settle is to take steps until the session rests. -/

theorem isRunning_of_idle {s : Session} (h : s.phase = .idle) : s.isRunning = false := by
  simp [isRunning, h]

theorem idle_of_not_running {s : Session} (h : ¬ s.isRunning = true) : s.phase = .idle := by
  rw [isRunning] at h
  split at h
  · next hphase => exact hphase
  · exact absurd rfl h

theorem phase_settle (s : Session) : s.settle.phase = .idle := by
  induction s using settle.induct with
  | case1 s hrun ih => rw [settle, dif_pos hrun, ih]
  | case2 s hrest => rw [settle, dif_neg hrest, idle_of_not_running hrest]

theorem settle_of_idle {s : Session} (h : s.phase = .idle) : s.settle = s := by
  rw [settle, dif_neg (by simp [isRunning_of_idle h])]

theorem settle_of_running {s : Session} (h : s.isRunning = true) : s.settle = s.step.settle := by
  rw [settle, dif_pos h]

theorem settle_eq_iterate {s : Session} {n : Nat} (h : (step^[n] s).phase = .idle) :
    s.settle = step^[n] s := by
  induction n generalizing s with
  | zero =>
    rw [Function.iterate_zero_apply] at h ⊢
    exact settle_of_idle h
  | succ n ih =>
    rw [Function.iterate_succ_apply] at h ⊢
    rw [← ih h, settle]
    split
    · rfl
    · next hrest =>
      rw [step_of_idle (idle_of_not_running hrest), settle, dif_neg hrest]

theorem turns_settle {p : SessionCommand → Prop} (s : Session) : Turns p s s.settle := by
  induction s using settle.induct with
  | case1 s hrun ih =>
    rw [settle, dif_pos hrun]
    exact .head (.step s) ih
  | case2 s hrest => rw [settle, dif_neg hrest]

/-- What a command of a session at rest comes to. -/
theorem turns_command {p : SessionCommand → Prop} {s : Session} {c : SessionCommand}
    (h : s.phase = .idle) (hc : p c) : Turns p s (s.command c) := by
  have hsettled := (Relation.ReflTransGen.single (.begin s c h hc)).trans (turns_settle _)
  rw [command]
  split
  · exact hsettled
  · exact hsettled.tail (.forget _)

theorem phase_command (s : Session) (c : SessionCommand) : (s.command c).phase = .idle := by
  rw [command]
  split
  · exact phase_settle _
  · exact phase_settle _

/-! How a session at rest begins to run. -/

theorem step_of_pending {s : Session} {last : Option Nat} {mode : Mode}
    (h : s.phase = .choosing last) (hp : s.pending = some mode) :
    s.step = { s with pending := none }.beginRun mode := by
  rw [step, h]
  dsimp only
  rw [hp]

theorem step_of_not_pending {s : Session} {last : Option Nat} (h : s.phase = .choosing last)
    (hp : s.pending = none) : s.step = { s with phase := .idle, reply := last } := by
  rw [step, h]
  dsimp only
  rw [hp]

theorem settle_of_not_pending {s : Session} {last : Option Nat} (h : s.phase = .choosing last)
    (hp : s.pending = none) : s.settle = { s with phase := .idle, reply := last } := by
  have hrunning : s.isRunning = true := by simp [isRunning, h]
  rw [settle_of_running hrunning, step_of_not_pending h hp]
  exact settle_of_idle rfl

theorem perform_run_of_ask {s : Session} {requested : Option Value} {mode : Mode}
    (hphase : s.phase = .idle) (h : s.ask (.run requested) = some (.run mode)) :
    s.perform (.run requested) =
      { s with pending := some mode, reply := none, phase := .choosing none } := by
  have hrest : ¬ s.isRunning = true := by simp [isRunning_of_idle hphase]
  have henqueue : s.perform (.run requested) = s.enqueue mode := by
    cases requested with
    | none =>
      obtain rfl : s.lastMode = mode := by simpa [ask] using h
      rfl
    | some v =>
      have hmode : Mode.ofValue? v = some mode := by simpa [ask] using h
      rw [perform, run, request, hmode]
  rw [henqueue, enqueue, if_neg hrest]

/-- The session when it is about to begin the run that was asked for. -/
def poised (s : Session) : Session :=
  { s with pending := none, phase := .choosing none, reply := none, failure := none }

/-- A command that is answered begins at once the run that it asks for. -/
theorem command_of_ask {s : Session} {c : SessionCommand} {mode : Mode} (hphase : s.phase = .idle)
    (hc : answers c = true) (hask : s.ask c = some (.run mode)) :
    s.command c = (s.poised.beginRun mode).settle := by
  have hrun : ∀ requested, s.ask (.run requested) = some (.run mode) →
      ({ s with reply := none, failure := none } : Session).perform (.run requested) =
        { s.poised with pending := some mode } := by
    intro requested hask
    exact perform_run_of_ask (s := { s with reply := none, failure := none }) hphase hask
  have hperform : ({ s with reply := none, failure := none } : Session).perform c =
      { s.poised with pending := some mode } := by
    cases c with
    | run requested => exact hrun requested hask
    | request value => exact hrun (some value) hask
    | _ => cases hc
  have hrunning : ({ s.poised with pending := some mode } : Session).isRunning = true := rfl
  rw [command, hperform, if_pos hc, settle_of_running hrunning, step_of_pending rfl rfl]
  rfl

/-- A run that is asked for in a mode there is begins at once. -/
theorem command_run {s : Session} {value : Value} {mode : Mode} (hphase : s.phase = .idle)
    (hmode : Mode.ofValue? value = some mode) :
    s.command (.run (some value)) = (s.poised.beginRun mode).settle := by
  have hask : s.ask (.run (some value)) = some (.run mode) := by
    rw [ask, hmode]
    rfl
  exact command_of_ask hphase rfl hask

/-- How a run begins. -/
theorem exists_beginRun (s : Session) (mode : Mode) :
    ∃ view viewport printed, s.beginRun mode = { s with
      stage := s.stage.stop
      view := view
      viewport := viewport
      status := Status.blank
      printed := printed }.drawRun mode := by
  obtain ⟨view, viewport, printed, hkept⟩ := exists_applyCanvas s.stopStage
  rw [beginRun_eq, hkept]
  exact ⟨view, viewport, printed, rfl⟩

/-- What commands come to that are performed one after another. -/
theorem turns_commands {p : SessionCommand → Prop} {s : Session} (h : s.phase = .idle)
    {commands : List SessionCommand} (hp : ∀ c ∈ commands, p c) :
    Turns p s (commands.foldl command s) := by
  induction commands generalizing s with
  | nil => exact .refl
  | cons c rest ih =>
    have hfirst : Turns p s (s.command c) := turns_command h (hp c List.mem_cons_self)
    exact hfirst.trans (ih (phase_command s c) fun d hd => hp d (List.mem_cons_of_mem c hd))

/-- A new session that draws two segments; in its first wait a key asks for the drawing to grow
again. -/
def growsAgain : Session :=
  new ⟨"FF".toList, [], 0, 90, 1, Config.defaultPen⟩ (.whole 1) (.whole 0) Config.defaultLimit
    .empty (.ofNumbered [(1, [.key (some ['g'])])])

theorem reached_growsAgain : Reached growsAgain := ⟨_, _, _, _, _, _, .refl⟩

theorem command_growsAgain : growsAgain.command (.run (some (.text "grow".toList))) =
    step^[10] (growsAgain.perform (.run (some (.text "grow".toList)))) :=
  settle_eq_iterate (idle_of_not_running (by decide +kernel))

end Session

end Lindenmayer
