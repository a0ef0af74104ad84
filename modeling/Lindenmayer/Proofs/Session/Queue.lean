import Lindenmayer.Proofs.Animation.Slices
import Lindenmayer.Proofs.Session.Course

/-!
# The run loop of a session

A command that asks for a run of a session at rest sets off a row of runs, one after another. Each
further run is the last thing that the commands in the waits of the run before it asked for; if they
asked for nothing, or last of all to stop, the row ends.
-/
namespace Lindenmayer

namespace Session

/-- A run of the loop: its mode, what the commands in its waits asked for, and its growth, if it
grew. -/
structure Played where
  mode : Mode
  asks : List Ask
  growth : Option Nat

/-- From the first session to the second the growth draws and waits and nothing else runs; the
commands performed in the waits ask for the given things, in that order. -/
inductive Grows (id : Nat) : Session → List Ask → Session → Prop
  | ends {s : Session} (h : s.phase = .choosing (some id)) : Grows id s [] s
  | draws {s t : Session} {asks : List Ask} (h : s.phase = .growing id) (hmode : s.lastMode = .grow)
      (hrest : Grows id s.step asks t) : Grows id s asks t
  | resumes {s t : Session} {asks : List Ask} (h : s.phase = .waiting id [])
      (hmode : s.lastMode = .grow) (hrest : Grows id s.step asks t) : Grows id s asks t
  | performs {s t : Session} {asks : List Ask} {c : SessionCommand} {rest : List SessionCommand}
      (h : s.phase = .waiting id (c :: rest)) (hmode : s.lastMode = .grow)
      (hrest : Grows id s.step asks t) : Grows id s ((s.ask c).toList ++ asks) t

/-- From the first session to the second there is one run, of the mode that was to run next. -/
inductive Plays (s : Session) : Played → Session → Prop
  /-- It draws everything at once, or it reports that it cannot draw. -/
  | atOnce {last : Option Nat} {mode : Mode} (h : s.phase = .choosing last)
      (hp : s.pending = some mode) (hnext : s.step.phase = .choosing none)
      (hwhy : mode = .render ∨ s.step.status.isError = true) : Plays s ⟨mode, [], none⟩ s.step
  /-- It puts a new growth on the stage, and the growth comes to its end. -/
  | grows {t : Session} {last : Option Nat} {asks : List Ask} (h : s.phase = .choosing last)
      (hp : s.pending = some .grow) (hnext : s.step.phase = .growing s.stage.growths.size)
      (hrest : Grows s.stage.growths.size s.step asks t) :
      Plays s ⟨.grow, asks, some s.stage.growths.size⟩ t

/-- From the first session to the second the loop makes the given runs, and then it is at rest. -/
inductive Loops : Session → List Played → Session → Prop
  | rests {s : Session} {last : Option Nat} (h : s.phase = .choosing last) (hp : s.pending = none) :
      Loops s [] s.step
  | next {s t u : Session} {r : Played} {runs : List Played} (h : Plays s r t)
      (hrest : Loops t runs u) : Loops s (r :: runs) u

/-- The mode that is to run next after the given things were asked for, in that order; `first` was
to run before. The last of them decides. -/
def lastAsked : (first : Option Mode) → List Ask → Option Mode
  | first, [] => first
  | _, a :: rest => lastAsked a.mode? rest

/-- The first run has the given mode, and each further one was the last thing asked for in the waits
of the run before it; the runs end when that was nothing, or to stop. -/
def Follows : Option Mode → List Played → Prop
  | none, runs => runs = []
  | some _, [] => False
  | some mode, r :: runs => r.mode = mode ∧ Follows (lastAsked none r.asks) runs

/-! What is to run next. -/

theorem lastAsked_append (first : Option Mode) (asks asks' : List Ask) :
    lastAsked first (asks ++ asks') = lastAsked (lastAsked first asks) asks' := by
  induction asks generalizing first with
  | nil => rfl
  | cons a rest ih => exact ih a.mode?

/-- A command performed while something is in progress notes what it asks for, unless it fails. -/
theorem Effect.in_wait {s t : Session} {c : SessionCommand} (h : Effect s c t)
    (hrun : s.isRunning = true) :
    (t.phase = .idle ∧ t.failure ≠ none) ∨
      (t.phase = s.phase ∧ t.lastMode = s.lastMode ∧
        t.pending = lastAsked s.pending (s.ask c).toList) := by
  cases h with
  | asks h ht =>
    obtain ⟨_, _, _, _, _, _, rfl⟩ := ht
    rw [h, enqueue, if_pos (by exact hrun)]
    exact Or.inr ⟨rfl, rfl, rfl⟩
  | stops h =>
    rw [h, stop, setStatus_eq]
    exact Or.inr ⟨rfl, rfl, rfl⟩
  | fails e h ht => exact Or.inl ⟨rfl, by simp [fail]⟩
  | reports h _ =>
    rw [h, setStatus_eq]
    exact Or.inr ⟨rfl, rfl, rfl⟩
  | tells h _ =>
    rw [h, setStatus_eq]
    exact Or.inr ⟨rfl, rfl, rfl⟩
  | closes h =>
    rw [h]
    exact Or.inr ⟨rfl, rfl, rfl⟩
  | shows h ht _ =>
    obtain ⟨_, _, _, _, _, _, rfl⟩ := ht
    rw [h, renderAll, setStatus_eq]
    exact Or.inr ⟨rfl, rfl, rfl⟩
  | batches h _ =>
    rw [h]
    exact Or.inr ⟨rfl, rfl, rfl⟩
  | aside h ht =>
    obtain ⟨_, _, _, _, _, _, rfl⟩ := ht
    rw [h]
    exact Or.inr ⟨rfl, rfl, rfl⟩

theorem Beginning.pending_eq {s t : Session} {mode : Mode} (h : Beginning s mode t) :
    t.pending = s.pending := by
  cases h with
  | breaks e ht =>
    obtain ⟨_, _, _, _, _, _, rfl⟩ := ht
    exact pending_setStatus _ _ _
  | reports ht _ =>
    obtain ⟨_, _, _, _, _, _, rfl⟩ := ht
    rw [setStatus_eq, setStatus_eq]
  | renders ht _ =>
    obtain ⟨_, _, _, _, _, _, rfl⟩ := ht
    rw [renderAll, setStatus_eq, recorded, setStatus_eq]
  | grows ht _ =>
    obtain ⟨_, _, _, _, _, _, rfl⟩ := ht
    obtain ⟨e, t, _, heq⟩ | ⟨n, _, heq⟩ := beginGrowth_cases (recorded _ .grow _ _) _
    · rw [heq, recorded, setStatus_eq]
      rfl
    · rw [heq, setStatus_eq, recorded, setStatus_eq]

theorem pending_endGrowth (s : Session) (id : Nat) : (s.endGrowth id).pending = s.pending := by
  rw [endGrowth]
  split
  · rw [setStatus_eq]
  · rfl

theorem lastMode_endGrowth (s : Session) (id : Nat) : (s.endGrowth id).lastMode = s.lastMode := by
  rw [endGrowth]
  split
  · rw [setStatus_eq]
  · rfl

theorem Ticking.kept {s t : Session} {id : Nat} (h : Ticking s id t) :
    t.pending = s.pending ∧ t.lastMode = s.lastMode := by
  cases h with
  | rests _ => exact ⟨pending_endGrowth _ id, lastMode_endGrowth _ id⟩
  | lasts _ _ => exact ⟨pending_endGrowth _ id, lastMode_endGrowth _ id⟩
  | waits _ _ _ => exact ⟨rfl, rfl⟩
  | breaks _ _ => exact ⟨rfl, rfl⟩

theorem Grows.isRunning {s t : Session} {id : Nat} {asks : List Ask} (h : Grows id s asks t) :
    s.isRunning = true := by
  cases h with
  | ends h => rw [Session.isRunning, h]
  | draws h _ _ => rw [Session.isRunning, h]
  | resumes h _ _ => rw [Session.isRunning, h]
  | performs h _ _ => rw [Session.isRunning, h]

theorem sound_stage_step {s : Session} (hs : s.stage.Sound) : s.step.stage.Sound :=
  Stage.sound_of_moves hs ((stepping_step hs).moves hs)

/-- While a growth is in progress, what is to run next is what was asked for last. -/
theorem Grows.pending_eq {s t : Session} {id : Nat} {asks : List Ask} (h : Grows id s asks t)
    (hs : s.stage.Sound) :
    t.phase = .choosing (some id) ∧ t.pending = lastAsked s.pending asks := by
  induction h with
  | ends h => exact ⟨h, rfl⟩
  | @draws s t asks h _ hrest ih =>
    have hstep : s.step = s.tick id := by rw [step, h]
    have htick := ticking_tick hs id
    obtain ⟨hphase, hpending⟩ := ih (sound_stage_step hs)
    rw [hstep, htick.kept.1] at hpending
    exact ⟨hphase, hpending⟩
  | @resumes s t asks h _ hrest ih =>
    have hstep : s.step = { s with phase := .growing id } := by rw [step, h]
    obtain ⟨hphase, hpending⟩ := ih (sound_stage_step hs)
    rw [hstep] at hpending
    exact ⟨hphase, hpending⟩
  | @performs s t asks c rest h _ hrest ih =>
    have hstep : s.step = { s with phase := .waiting id rest }.perform c := by rw [step, h]
    obtain ⟨hphase, hpending⟩ := ih (sound_stage_step hs)
    refine ⟨hphase, ?_⟩
    have heffect := effect_perform { s with phase := .waiting id rest } c
    rw [← hstep] at heffect
    rcases heffect.in_wait rfl with ⟨hidle, _⟩ | ⟨_, _, hnext⟩
    · have hrunning := hrest.isRunning
      rw [isRunning_of_idle hidle] at hrunning
      cases hrunning
    · rw [hpending, hnext, lastAsked_append]
      rfl

/-- A run leaves behind what was asked for last, and its growth. -/
theorem Plays.leaves {s t : Session} {r : Played} (h : Plays s r t) (hs : s.stage.Sound) :
    s.pending = some r.mode ∧ t.pending = lastAsked none r.asks ∧
      t.phase = .choosing r.growth := by
  have hbegun : ∀ {last : Option Nat} {mode : Mode}, s.phase = .choosing last →
      s.pending = some mode → s.step.pending = none := by
    intro last mode h hp
    rw [step_of_pending h hp, (beginning_beginRun _ mode).pending_eq]
    rfl
  cases h with
  | atOnce h hp hnext _ => exact ⟨hp, hbegun h hp, hnext⟩
  | grows h hp _ hrest =>
    obtain ⟨hphase, hpending⟩ := hrest.pending_eq (sound_stage_step hs)
    rw [hbegun h hp] at hpending
    exact ⟨hp, hpending, hphase⟩

theorem Grows.sound {s t : Session} {id : Nat} {asks : List Ask} (h : Grows id s asks t)
    (hs : s.stage.Sound) : t.stage.Sound := by
  induction h with
  | ends _ => exact hs
  | draws _ _ _ ih => exact ih (sound_stage_step hs)
  | resumes _ _ _ ih => exact ih (sound_stage_step hs)
  | performs _ _ _ ih => exact ih (sound_stage_step hs)

theorem Plays.sound {s t : Session} {r : Played} (h : Plays s r t) (hs : s.stage.Sound) :
    t.stage.Sound := by
  cases h with
  | atOnce _ _ _ _ => exact sound_stage_step hs
  | grows _ _ _ hrest => exact hrest.sound (sound_stage_step hs)

theorem Loops.follows {s u : Session} {runs : List Played} (h : Loops s runs u)
    (hs : s.stage.Sound) : Follows s.pending runs := by
  induction h with
  | rests _ hp =>
    rw [hp]
    rfl
  | next h _ ih =>
    obtain ⟨hmode, hnext, _⟩ := h.leaves hs
    have hrest := ih (h.sound hs)
    rw [hnext] at hrest
    rw [hmode]
    exact ⟨rfl, hrest⟩

/-- The session at rest answers with the growth of the last run. -/
theorem Loops.reply_eq {s u : Session} {runs : List Played} {last : Option Nat}
    (h : Loops s runs u) (hs : s.stage.Sound) (hphase : s.phase = .choosing last) :
    u.phase = .idle ∧ u.reply =
      match runs.getLast? with
      | none => last
      | some r => r.growth := by
  induction h generalizing last with
  | @rests s last' h hp =>
    obtain rfl : last' = last := Phase.choosing.inj (h.symm.trans hphase)
    rw [step_of_not_pending h hp]
    exact ⟨rfl, rfl⟩
  | @next s t u r runs h _ ih =>
    obtain ⟨hidle, hreply⟩ := ih (h.sound hs) (h.leaves hs).2.2
    refine ⟨hidle, ?_⟩
    rw [hreply]
    cases runs with
    | nil => rfl
    | cons r' rest =>
      rw [List.getLast?_cons_cons]
      obtain ⟨x, hx⟩ : ∃ x, (r' :: rest).getLast? = some x :=
        ⟨_, List.getLast?_eq_some_getLast (List.cons_ne_nil r' rest)⟩
      rw [hx]

/-! Nothing but such runs happens until the session rests again. -/

/-- Until it rests the session makes runs one after another, once the growth in progress has come to
its end. -/
def GoesOn (s : Session) : Prop :=
  (∀ last, s.phase = .choosing last → ∃ runs, Loops s runs s.settle) ∧
    ∀ id, s.phase.growth? = some id → s.lastMode = .grow →
      ∃ asks t runs, Grows id s asks t ∧ Loops t runs s.settle

theorem exists_loops {s : Session} {last : Option Nat} (hphase : s.phase = .choosing last)
    (hfailed : ¬ (s.step.phase = .idle ∧ s.step.failure ≠ none))
    (hsettle : s.settle = s.step.settle) (hnext : s.step.GoesOn) :
    ∃ runs, Loops s runs s.settle := by
  rw [hsettle]
  cases hp : s.pending with
  | none =>
    have hidle : s.step.phase = .idle := by rw [step_of_not_pending hphase hp]
    rw [settle_of_idle hidle]
    exact ⟨[], .rests hphase hp⟩
  | some mode =>
    have hbegin := beginning_beginRun { s with pending := none } mode
    rw [← step_of_pending hphase hp] at hbegin
    rcases hbegin.phase_cases with hfail | ⟨hchoosing, hwhy⟩ | ⟨hgrowing, _, rfl, hmode⟩
    · exact absurd hfail hfailed
    · obtain ⟨runs, hruns⟩ := hnext.1 none hchoosing
      exact ⟨_, .next (.atOnce hphase hp hchoosing hwhy) hruns⟩
    · have hsize : s.stage.stop.growths.size = s.stage.growths.size := Stage.size_stop _
      have hnew : s.step.phase = .growing s.stage.growths.size := hsize ▸ hgrowing
      obtain ⟨asks, t, runs, hgrows, hruns⟩ := hnext.2 _ (by rw [hnew]; rfl) hmode
      exact ⟨_, .next (.grows hphase hp hnew hgrows) hruns⟩

theorem exists_grows {s : Session} {id : Nat} (hs : s.stage.Sound)
    (hid : s.phase.growth? = some id) (hmode : s.lastMode = .grow)
    (hfailed : ¬ (s.step.phase = .idle ∧ s.step.failure ≠ none))
    (hsettle : s.settle = s.step.settle) (hnext : s.step.GoesOn) :
    ∃ asks t runs, Grows id s asks t ∧ Loops t runs s.settle := by
  rw [hsettle]
  cases hphase : s.phase with
  | idle =>
    rw [hphase] at hid
    cases hid
  | choosing last =>
    rw [hphase] at hid
    cases hid
  | growing k =>
    rw [hphase] at hid
    obtain rfl := Option.some.inj hid
    have hstep : s.step = s.tick k := by rw [step, hphase]
    have htick := ticking_tick hs k
    rw [← hstep] at htick
    have hmode' := htick.kept.2.trans hmode
    rcases htick.phase_cases with hfail | hchoosing | ⟨rest, hwaiting⟩
    · exact absurd hfail hfailed
    · obtain ⟨runs, hruns⟩ := hnext.1 _ hchoosing
      exact ⟨[], _, runs, .draws hphase hmode (.ends hchoosing), hruns⟩
    · obtain ⟨asks, t, runs, hgrows, hruns⟩ := hnext.2 k (by rw [hwaiting]; rfl) hmode'
      exact ⟨asks, t, runs, .draws hphase hmode hgrows, hruns⟩
  | waiting k rest =>
    rw [hphase] at hid
    obtain rfl := Option.some.inj hid
    cases rest with
    | nil =>
      have hstep : s.step = { s with phase := .growing k } := by rw [step, hphase]
      obtain ⟨asks, t, runs, hgrows, hruns⟩ :=
        hnext.2 k (by rw [hstep]; rfl) (by rw [hstep]; exact hmode)
      exact ⟨asks, t, runs, .resumes hphase hmode hgrows, hruns⟩
    | cons c rest =>
      have hstep : s.step = { s with phase := .waiting k rest }.perform c := by rw [step, hphase]
      have heffect := effect_perform { s with phase := .waiting k rest } c
      rw [← hstep] at heffect
      rcases heffect.in_wait rfl with hfail | ⟨hwaiting, hmode', _⟩
      · exact absurd hfail hfailed
      · obtain ⟨asks, t, runs, hgrows, hruns⟩ :=
          hnext.2 k (by rw [hwaiting]; rfl) (hmode'.trans hmode)
        exact ⟨_, t, runs, .performs hphase hmode hgrows, hruns⟩

/-- A session goes on in this way if nothing fails. -/
theorem goesOn (s : Session) (hs : s.stage.Sound) (hok : s.settle.failure = none) : s.GoesOn := by
  induction s using settle.induct with
  | case2 s hrest =>
    rw [GoesOn, idle_of_not_running hrest]
    exact ⟨by simp, by simp [Phase.growth?]⟩
  | case1 s hrun ih =>
    have hsettle : s.settle = s.step.settle := by rw [settle, dif_pos hrun]
    rw [hsettle] at hok
    have hnext := ih (sound_stage_step hs) hok
    have hfailed : ¬ (s.step.phase = .idle ∧ s.step.failure ≠ none) := by
      rintro ⟨hidle, hfailure⟩
      rw [settle_of_idle hidle] at hok
      exact hfailure hok
    constructor
    · intro last hphase
      exact exists_loops hphase hfailed hsettle hnext
    · intro id hid hmode
      exact exists_grows hs hid hmode hfailed hsettle hnext

/-! A run that is asked for in a wait. -/

theorem moves_iterate {s : Session} (hs : s.stage.Sound) (n : Nat) :
    Stage.Moves s.stage (step^[n] s).stage := by
  induction n generalizing s with
  | zero => exact .refl
  | succ n ih =>
    rw [Function.iterate_succ_apply]
    exact ((stepping_step hs).moves hs).trans (ih (sound_stage_step hs))

theorem Effect.of_ask {s t : Session} {c : SessionCommand} {mode : Mode} (h : Effect s c t)
    (hask : s.ask c = some (.run mode)) : ∃ u, Aside s u ∧ t = u.enqueue mode := by
  cases h with
  | asks h ht =>
    obtain rfl := Ask.run.inj (Option.some.inj (h.symm.trans hask))
    exact ⟨_, ht, rfl⟩
  | stops h => simp [h] at hask
  | fails _ h _ => simp [h] at hask
  | reports h _ => simp [h] at hask
  | tells h _ => simp [h] at hask
  | closes h => simp [h] at hask
  | shows h _ _ => simp [h] at hask
  | batches h _ => simp [h] at hask
  | aside h _ => simp [h] at hask

/-- The command has no answer, and the growth that waits neither draws nor waits again. -/
theorem asked_in_wait {s : Session} {id : Nat} {c : SessionCommand} {rest : List SessionCommand}
    {mode : Mode} (hs : s.Sound) (hphase : s.phase = .waiting id (c :: rest))
    (hask : s.ask c = some (.run mode)) :
    s.step.reply = none ∧ ∀ k, (step^[k] s).stage.events id = s.stage.events id := by
  have hstep : s.step = { s with phase := .waiting id rest }.perform c := by rw [step, hphase]
  have hstopped : s.step.reply = none ∧ s.step.stage = s.stage.stop := by
    obtain ⟨u, hu, ht⟩ := (effect_perform { s with phase := .waiting id rest } c).of_ask hask
    have hrunning : u.isRunning = true := by
      obtain ⟨_, _, _, _, _, _, rfl⟩ := hu
      rfl
    rw [hstep, ht, enqueue, if_pos hrunning]
    exact ⟨rfl, congrArg Stage.stop hu.stage_eq⟩
  refine ⟨hstopped.1, ?_⟩
  intro k
  cases k with
  | zero => rfl
  | succ k =>
    have hlt := hs.growth_lt id (by rw [hphase]; rfl)
    have hrests : s.step.stage.Rests id := by
      rw [hstopped.2]
      exact Or.inl (by simp [Stage.live_stop])
    have hsize : id < s.step.stage.growths.size := by
      rw [hstopped.2, Stage.size_stop]
      exact hlt
    have hsound := sound_stage_step hs.stage
    have hkept := Stage.events_of_moves hsound (moves_iterate hsound k) hsize hrests
    rw [Function.iterate_succ_apply, hkept, hstopped.2, Stage.events, Stage.log_stop]
    rfl

theorem sound_iterate {s : Session} (hs : s.Sound) (n : Nat) : (step^[n] s).Sound := by
  induction n generalizing s with
  | zero => exact hs
  | succ n ih =>
    rw [Function.iterate_succ_apply]
    exact ih ((stepping_step hs.stage).sound hs)

/-- A command asks a session at rest for a run, and nothing fails. What follows are runs one after
another, the first of the mode asked for and each further one of the mode that was asked for last in
the waits of the run before it. A command in a wait that asks for a run has no answer and ends the
growth in progress. When the session is at rest again, a command that has an answer is answered with
the growth of the last run, if that run grew. -/
theorem run_queue {s : Session} {c : SessionCommand} {mode : Mode} (hs : Reached s)
    (hidle : s.phase = .idle) (hask : s.ask c = some (.run mode))
    (hok : (s.command c).failure = none) :
    ∃ (begun : Session) (runs : List Played),
      begun = { s with reply := none, failure := none }.perform c ∧
      Loops begun runs begun.settle ∧ Follows (some mode) runs ∧
      (∀ (n id : Nat) (d : SessionCommand) (rest : List SessionCommand) (next : Mode),
        (step^[n] begun).phase = .waiting id (d :: rest) →
        (step^[n] begun).ask d = some (.run next) →
        (step^[n + 1] begun).reply = none ∧
          ∀ k, (step^[n + k] begun).stage.events id = (step^[n] begun).stage.events id) ∧
      (s.command c).phase = .idle ∧
      (s.command c).reply = if answers c then runs.getLast?.bind Played.growth else none := by
  have hfresh : Sound { s with reply := none, failure := none } :=
    hs.sound.later .refl fun _ hid => hid
  obtain ⟨u, hu, hbegun⟩ := (effect_perform { s with reply := none, failure := none } c).of_ask hask
  have hbegin : (u.enqueue mode).Sound := by
    rw [← hbegun]
    exact (effect_perform _ c).sound hfresh
  have hphase : (u.enqueue mode).phase = .choosing none ∧ (u.enqueue mode).pending = some mode := by
    have hrest : u.isRunning = false := by
      obtain ⟨_, _, _, _, _, _, rfl⟩ := hu
      exact isRunning_of_idle hidle
    rw [enqueue, hrest]
    exact ⟨rfl, rfl⟩
  have hcommand : s.command c = if answers c then (u.enqueue mode).settle else
      { (u.enqueue mode).settle with reply := none } := by
    rw [command, hbegun]
  have hok' : (u.enqueue mode).settle.failure = none := by
    rw [hcommand] at hok
    cases h : answers c with
    | true => simpa [h] using hok
    | false => simpa [h] using hok
  obtain ⟨runs, hruns⟩ := (goesOn _ hbegin.stage hok').1 none hphase.1
  have hfollows := hruns.follows hbegin.stage
  have hreply := hruns.reply_eq hbegin.stage hphase.1
  rw [hphase.2] at hfollows
  refine ⟨u.enqueue mode, runs, hbegun.symm, hruns, hfollows, ?_, phase_command s c, ?_⟩
  · intro n id d rest next hwait hnext
    obtain ⟨hnone, hevents⟩ := asked_in_wait (sound_iterate hbegin n) hwait hnext
    rw [Function.iterate_succ_apply']
    refine ⟨hnone, ?_⟩
    intro k
    rw [Nat.add_comm, Function.iterate_add_apply]
    exact hevents k
  · rw [hcommand]
    split
    · rw [hreply.2]
      cases runs.getLast? with
      | none => rfl
      | some r => rfl
    · rfl

/-- A growth is asked for again in its wait; the answer is the second growth. -/
theorem run_answers_with_growth :
    (growsAgain.command (.run (some (.text "grow".toList)))).reply = some 1 ∧
    ∃ (begun : Session) (runs : List Played), Loops begun runs begun.settle ∧
      Follows (some .grow) runs ∧ runs.getLast?.bind Played.growth = some 1 := by
  have hreply : (growsAgain.command (.run (some (.text "grow".toList)))).reply = some 1 := by
    rw [command_growsAgain]
    decide +kernel
  have hok : (growsAgain.command (.run (some (.text "grow".toList)))).failure = none := by
    rw [command_growsAgain]
    exact Option.isNone_iff_eq_none.1 (by decide +kernel)
  have hask : growsAgain.ask (.run (some (.text "grow".toList))) = some (.run .grow) := rfl
  obtain ⟨begun, runs, _, hruns, hfollows, _, _, hlast⟩ :=
    run_queue reached_growsAgain rfl hask hok
  exact ⟨hreply, begun, runs, hruns, hfollows, hlast.symm.trans hreply⟩

/-- A new session, with no schedule, that draws a word without segments. -/
def segmentless : Session :=
  new ⟨['X'], [], 0, 90, 1, Config.defaultPen⟩ (.whole 1) (.whole 0) Config.defaultLimit .empty
    .quiet

/-- A key that asks for a run has no answer, although the run grew. -/
theorem key_has_no_answer : segmentless.ask (.key (some ['g'])) = some (.run .grow) ∧
    (segmentless.command (.key (some ['g']))).failure = none ∧
    (∃ runs, Loops (segmentless.perform (.key (some ['g']))) runs
      (segmentless.perform (.key (some ['g']))).settle ∧
      runs.getLast?.bind Played.growth = some 0) ∧
    (segmentless.command (.key (some ['g']))).reply = none := by
  have hsettle := settle_eq_iterate (s := segmentless.perform (.key (some ['g']))) (n := 3) rfl
  have hcommand : segmentless.command (.key (some ['g'])) =
      { (segmentless.perform (.key (some ['g']))).settle with reply := none } := rfl
  have hchoosing : (step^[2] (segmentless.perform (.key (some ['g'])))).phase =
      .choosing (some 0) := rfl
  have hgrown : Plays (segmentless.perform (.key (some ['g']))) ⟨.grow, [], some 0⟩
      (step^[2] (segmentless.perform (.key (some ['g'])))) :=
    .grows rfl rfl rfl (.draws rfl rfl (.ends hchoosing))
  have hrests : Loops (step^[2] (segmentless.perform (.key (some ['g'])))) []
      (step^[3] (segmentless.perform (.key (some ['g'])))) := by
    rw [Function.iterate_succ_apply']
    exact .rests hchoosing rfl
  rw [hcommand, hsettle]
  refine ⟨rfl, ?_, ⟨_, .next hgrown hrests, rfl⟩, rfl⟩
  exact Option.isNone_iff_eq_none.1 (by decide +kernel)

end Session

end Lindenmayer
