import Lindenmayer.Animation.Script
import Lindenmayer.Proofs.Animation.Slices
import Mathlib.Logic.Function.Iterate

/-!
# The turns a scripted stage takes

A scripted stage works on its topmost task, and between two elementary steps further commands may
come on top of what it has begun, or an error may end some of it. However these turns are mixed, the
stage itself only ever makes its moves, as long as nothing is scripted for a stroke.
-/
namespace Lindenmayer

variable {σ : Type}

/-- The task is not a batch whose growth has yet to move its cursor. -/
def StageTask.moved : StageTask σ → Bool
  | .stroked _ _ _ => false
  | _ => true

namespace ScriptedStage

/-- The scripted stage is between two elementary steps. -/
def Calm (a : ScriptedStage σ) : Prop := ∀ task ∈ a.tasks, task.moved = true

/-- What may happen next. -/
inductive Turn : ScriptedStage σ → ScriptedStage σ → Prop
  | step (a : ScriptedStage σ) : Turn a a.step
  /-- Another command begins, on top of whatever has begun before. -/
  | begin (a : ScriptedStage σ) (c : StageCommand σ) (h : a.Calm) :
      Turn a { a with tasks := .commands c [] :: a.tasks, reply := .nothing, failure := none }
  /-- An error from elsewhere ends some of the tasks. -/
  | unwind (a : ScriptedStage σ) (k : Nat) (h : a.Calm) : Turn a { a with tasks := a.tasks.drop k }
  /-- An error that would end all tasks is caught below the topmost one. -/
  | recover (a : ScriptedStage σ) (k : Nat) (hfail : a.step.failure ≠ none)
      (hend : a.step.tasks = []) :
      Turn a { a.step with tasks := a.tasks.drop (k + 1), failure := none }

abbrev Turns : ScriptedStage σ → ScriptedStage σ → Prop := Relation.ReflTransGen Turn

/-- What a new stage may come to when something is scripted for its waits. -/
def Reached (onWait : Schedule (StageCommand σ)) (a : ScriptedStage σ) : Prop :=
  Turns (new onWait .quiet) a

/-- The scripted stage has come from stage `s` and is between two elementary steps. -/
structure Ready (s : Stage σ) (a : ScriptedStage σ) : Prop where
  quiet : a.onStroke = .quiet
  calm : a.Calm
  moves : Stage.Moves s a.stage

/-- The scripted stage has come from stage `s`; it may have drawn a batch of a growth whose cursor
has yet to move. -/
inductive After (s : Stage σ) : ScriptedStage σ → Prop
  | calm {a : ScriptedStage σ} (h : Ready s a) : After s a
  | stroking {a : ScriptedStage σ} {id : Nat} {g : Growth σ} (again : Bool) (h : Ready s a)
      (hd : a.stage.CanDraw id g) :
      After s { a with
        stage := a.stage.stroke (some id) (g.slice g.nextStop)
        tasks := .stroked id g.nextStop again :: a.tasks }

/-! What the parts of a step make of a scripted stage that is ready. -/

theorem calm_withCommands {commands : List (StageCommand σ)} {tasks : List (StageTask σ)}
    (h : ∀ task ∈ tasks, task.moved = true) :
    ∀ task ∈ withCommands commands tasks, task.moved = true := by
  cases commands with
  | nil => exact h
  | cons c rest =>
    intro task hmem
    rcases List.mem_cons.1 hmem with rfl | hmem
    · rfl
    · exact h task hmem

theorem Ready.push {s : Stage σ} {a : ScriptedStage σ} (h : Ready s a) {task : StageTask σ}
    (ht : task.moved = true) : ∀ t ∈ task :: a.tasks, t.moved = true := by
  intro t hmem
  rcases List.mem_cons.1 hmem with rfl | hmem
  · exact ht
  · exact h.calm t hmem

theorem Ready.moved {s t : Stage σ} {a : ScriptedStage σ} (h : Ready s a)
    (ht : Stage.Moves a.stage t) (reply : StageReply) :
    Ready s { a with stage := t, reply := reply } :=
  ⟨h.quiet, h.calm, h.moves.trans ht⟩

theorem Ready.fail {s t : Stage σ} {a : ScriptedStage σ} (h : Ready s a)
    (ht : Stage.Moves a.stage t) (e : GrowthError) : Ready s ({ a with stage := t }.fail e) :=
  ⟨h.quiet, by simp [Calm, ScriptedStage.fail], h.moves.trans ht⟩

theorem Ready.started {s : Stage σ} {a : ScriptedStage σ} (h : Ready s a)
    {r : Except GrowthError Nat × Stage σ} (hr : Stage.Moves a.stage r.2) (run : Bool) :
    Ready s (a.started r run) := by
  obtain ⟨e | id, t⟩ := r
  · exact h.fail hr e
  · cases run with
    | true => exact ⟨h.quiet, h.push rfl, h.moves.trans hr⟩
    | false => exact ⟨h.quiet, h.calm, h.moves.trans hr⟩

theorem afterStroke_of_quiet {a : ScriptedStage σ} (h : a.onStroke = .quiet)
    (task : StageTask σ) : a.afterStroke task = { a with tasks := task :: a.tasks } := by
  have hnext : (Schedule.quiet : Schedule (StageCommand σ)).next = ([], .quiet) := rfl
  rw [afterStroke, h, hnext, withCommands]

theorem Ready.sound {s : Stage σ} {a : ScriptedStage σ} (h : Ready s a) (hs : s.Sound) :
    a.stage.Sound :=
  Stage.sound_of_moves hs h.moves

theorem Ready.openTick {s : Stage σ} {a : ScriptedStage σ} (h : Ready s a) (hs : s.Sound)
    (id : Nat) (again : Bool) : After s (a.openTick id again) := by
  rw [ScriptedStage.openTick]
  rcases Stage.rests_or_canDraw (h.sound hs) id with hr | ⟨g, hd⟩
  · rw [Stage.openTick_of_rests hr]
    exact .calm (h.moved (Stage.moves_release hr) _)
  · rw [Stage.openTick_of_canDraw hd]
    dsimp only
    rw [afterStroke_of_quiet (by exact h.quiet)]
    exact .stroking again h hd

/-- A batch comes to its end. -/
theorem Ready.closeTick {s : Stage σ} {a : ScriptedStage σ} (h : Ready s a) (hs : s.Sound)
    {id : Nat} {g : Growth σ} (hd : a.stage.CanDraw id g) (again : Bool) :
    Ready s ({ a with stage := a.stage.stroke (some id) (g.slice g.nextStop) }.closeTick id
      g.nextStop again) := by
  have htick : (a.stage.stroke (some id) (g.slice g.nextStop)).closeTick id g.nextStop =
      a.stage.tick id := by
    rw [Stage.tick, Stage.openTick_of_canDraw hd]
  have hmoves := Stage.moves_tick (h.sound hs) id
  rw [ScriptedStage.closeTick]
  dsimp only
  rw [htick]
  rcases hrun : a.stage.tick id with ⟨more, t⟩
  rw [hrun] at hmoves
  cases more with
  | false => exact h.moved hmoves _
  | true =>
    cases again with
    | false => exact h.moved hmoves _
    | true =>
      cases hgap : (t.growths[id]?).bind Growth.gap? with
      | none =>
        simp only [hgap, if_true]
        exact h.fail hmoves _
      | some seconds =>
        simp only [hgap, if_true]
        have hpause := Stage.moves_pause (h.sound hs) hrun hgap
        exact ⟨h.quiet, calm_withCommands (h.push rfl), h.moves.trans hpause⟩

theorem Ready.perform {s : Stage σ} {a : ScriptedStage σ} (h : Ready s a) (hs : s.Sound)
    (c : StageCommand σ) : After s (a.perform c) := by
  have hsound := h.sound hs
  cases c with
  | start segments batch delay =>
    exact .calm (h.started (Stage.moves_start hsound segments batch delay) false)
  | grow segments batch delay =>
    exact .calm (h.started (Stage.moves_start hsound segments batch delay) true)
  | drawAll segments =>
    rw [ScriptedStage.perform, afterStroke_of_quiet (by exact h.quiet)]
    have hmoves := Stage.moves_drawAll hsound segments
    exact .calm ⟨h.quiet, h.push rfl, h.moves.trans hmoves⟩
  | stop => exact .calm (h.moved (Stage.moves_stop hsound) _)
  | detach segments batch delay =>
    exact .calm (h.moved (.single (.detach _ segments batch delay)) _)
  | tick id => exact h.openTick hs id false
  | run id => exact .calm ⟨h.quiet, h.push rfl, h.moves⟩
  | cancel id => exact .calm (h.moved (.single (.cancel _ id)) _)
  | gap id =>
    rw [ScriptedStage.perform]
    split
    · exact .calm (h.fail .refl _)
    · exact .calm (h.moved .refl _)

/-! What a turn makes of it. -/

theorem Ready.pop {s : Stage σ} {a : ScriptedStage σ} (h : Ready s a) {task : StageTask σ}
    {tasks : List (StageTask σ)} (ht : a.tasks = task :: tasks) :
    Ready s { a with tasks := tasks } := by
  refine ⟨h.quiet, ?_, h.moves⟩
  intro t hmem
  exact h.calm t (ht ▸ List.mem_cons_of_mem task hmem)

theorem Ready.step {s : Stage σ} {a : ScriptedStage σ} (h : Ready s a) (hs : s.Sound) :
    After s a.step := by
  rw [ScriptedStage.step]
  split
  · exact .calm h
  · next c rest tasks htasks =>
    have hrest : Ready s { a with tasks := withCommands rest tasks } :=
      ⟨h.quiet, calm_withCommands (h.pop htasks).calm, h.moves⟩
    exact hrest.perform hs c
  · next id tasks htasks => exact (h.pop htasks).openTick hs id true
  · next id stop again tasks htasks =>
    have hmoved := h.calm (.stroked id stop again) (htasks ▸ List.mem_cons_self)
    cases hmoved
  · next reply tasks htasks => exact .calm ((h.pop htasks).moved .refl reply)

theorem After.step {s : Stage σ} {a : ScriptedStage σ} (h : After s a) (hs : s.Sound) :
    After s a.step := by
  cases h with
  | calm h => exact h.step hs
  | stroking again h hd => exact .calm (h.closeTick hs hd again)

theorem After.ready {s : Stage σ} {a : ScriptedStage σ} (h : After s a) (hc : a.Calm) :
    Ready s a := by
  cases h with
  | calm h => exact h
  | stroking again h hd =>
    have hmoved := hc _ List.mem_cons_self
    cases hmoved

theorem After.tail_calm {s : Stage σ} {a : ScriptedStage σ} (h : After s a) (k : Nat) :
    ∀ task ∈ a.tasks.drop (k + 1), task.moved = true := by
  intro task hmem
  cases h with
  | calm h => exact h.calm task (List.mem_of_mem_drop hmem)
  | stroking again h hd =>
    rw [List.drop_succ_cons] at hmem
    exact h.calm task (List.mem_of_mem_drop hmem)

theorem After.turn {s : Stage σ} {a b : ScriptedStage σ} (h : After s a) (hs : s.Sound)
    (hturn : Turn a b) : After s b := by
  cases hturn with
  | step => exact h.step hs
  | begin c hc =>
    have hr := h.ready hc
    exact .calm ⟨hr.quiet, hr.push rfl, hr.moves⟩
  | unwind k hc =>
    have hr := h.ready hc
    refine .calm ⟨hr.quiet, ?_, hr.moves⟩
    intro task hmem
    exact hr.calm task (List.mem_of_mem_drop hmem)
  | recover k hfail hend =>
    have hr := (h.step hs).ready (by simp [Calm, hend])
    exact .calm ⟨hr.quiet, h.tail_calm k, hr.moves⟩

theorem After.turns {s : Stage σ} {a b : ScriptedStage σ} (h : After s a) (hs : s.Sound)
    (hturns : Turns a b) : After s b := by
  induction hturns with
  | refl => exact h
  | tail _ hturn ih => exact ih.turn hs hturn

/-! What is reached from a new scripted stage. -/

variable {onWait : Schedule (StageCommand σ)} {a b : ScriptedStage σ}

theorem Reached.ready (h : Reached onWait a) (hc : a.Calm) : Ready Stage.empty a := by
  have hnew : Ready Stage.empty (new onWait .quiet) := ⟨rfl, by simp [Calm, new], .refl⟩
  exact ((After.calm hnew).turns Stage.sound_empty h).ready hc

theorem Reached.sound (h : Reached onWait a) (hc : a.Calm) : a.stage.Sound :=
  (h.ready hc).sound Stage.sound_empty

/-- Between two elementary steps the stage has made some of its moves. -/
theorem Reached.moves (h : Reached onWait a) (hc : a.Calm) (hturns : Turns a b) (hb : b.Calm) :
    Stage.Moves a.stage b.stage := by
  have hr : Ready a.stage a := ⟨(h.ready hc).quiet, hc, .refl⟩
  exact (((After.calm hr).turns (h.sound hc) hturns).ready hb).moves

theorem turns_iterate (a : ScriptedStage σ) (n : Nat) : Turns a (step^[n] a) := by
  induction n with
  | zero => exact .refl
  | succ n ih =>
    rw [Function.iterate_succ_apply']
    exact ih.tail (.step _)

theorem tasks_settle (a : ScriptedStage σ) : a.settle.tasks = [] := by
  induction a using settle.induct with
  | case1 a h => rw [settle, dif_pos h, h]
  | case2 a h ih => rw [settle, dif_neg h, ih]

/-- To settle is to take steps until nothing is left to do. -/
theorem settle_eq_iterate {n : Nat} (h : (step^[n] a).tasks = []) : a.settle = step^[n] a := by
  induction n generalizing a with
  | zero =>
    rw [Function.iterate_zero_apply] at h ⊢
    rw [settle, dif_pos h]
  | succ n ih =>
    rw [Function.iterate_succ_apply] at h ⊢
    by_cases ht : a.tasks = []
    · have hstep : a.step = a := by rw [step, ht]
      rw [← ih h, hstep]
    · rw [settle, dif_neg ht, ih h]

theorem turns_settle (a : ScriptedStage σ) : Turns a a.settle := by
  induction a using settle.induct with
  | case1 a h => rw [settle, dif_pos h]
  | case2 a h ih =>
    rw [settle, dif_neg h]
    exact .head (.step a) ih

theorem Reached.command (h : Reached onWait a) (ht : a.tasks = []) (c : StageCommand σ) :
    Reached onWait (a.command c) := by
  have hbegin := Turn.begin a c (by simp [Calm, ht])
  rw [ht] at hbegin
  exact (Relation.ReflTransGen.tail h hbegin).trans (turns_settle _)

/-- Whatever commands are performed one after another, what they come to is reached. -/
theorem Reached.commands (h : Reached onWait a) (ht : a.tasks = [])
    (commands : List (StageCommand σ)) :
    Reached onWait (commands.foldl ScriptedStage.command a) ∧
      (commands.foldl ScriptedStage.command a).tasks = [] := by
  induction commands generalizing a with
  | nil => exact ⟨h, ht⟩
  | cons c rest ih => exact ih (h.command ht c) (tasks_settle _)

/-- Between two elementary steps the record shows of each growth what it has drawn: its segments up
to the cursor, each once and in order, in whole batches. Whatever happens then, nested in whatever
way, the growth stays what it is and its cursor never goes back. -/
theorem drawn_exactly_once (ha : Reached onWait a) (hcalm : a.Calm) {id : Nat} {g : Growth σ}
    (hg : a.stage.growths[id]? = some g) :
    g.Drawn (a.stage.slices id) ∧ ∀ b : ScriptedStage σ, Turns a b → b.Calm →
      ∃ g', b.stage.growths[id]? = some g' ∧ g.Later g' := by
  have hexact := Stage.exact_of_moves Stage.sound_empty Stage.exact_empty (ha.ready hcalm).moves
  refine ⟨hexact.drawn id g hg, ?_⟩
  intro b hturns hb
  exact Stage.later_of_moves (ha.sound hcalm) (ha.moves hcalm hturns hb) hg

/-- On a new stage five segments are about to be grown, two at a time. -/
def growFive (onWait : Schedule (StageCommand Nat)) : ScriptedStage Nat :=
  { new onWait .quiet with
    tasks := [.commands (.grow #[0, 1, 2, 3, 4] (.whole 2) (.whole 0)) []] }

theorem reached_growFive (onWait : Schedule (StageCommand Nat)) (n : Nat) :
    Reached onWait (step^[n] (growFive onWait)) :=
  .head (.begin _ _ (by simp [Calm, new])) (turns_iterate _ n)

/-- In its first wait a growth is run again, in the wait of that run it draws on. -/
def runAgain : Schedule (StageCommand Nat) := .ofNumbered [(1, [.run 0]), (2, [.tick 0])]

/-- A growth is run again in its own wait and, in the wait of that run, drawn to its end. -/
theorem nested_runs_draw_once : ∃ (a : ScriptedStage Nat) (g : Growth Nat),
    Reached (.ofNumbered [(1, [.run 0]), (2, [.tick 0])]) a ∧ a.Calm ∧
      a.stage.growths[0]? = some g ∧ g.cursor = 5 ∧
      a.stage.slices 0 = [#[0, 1], #[2, 3], #[4]] ∧ g.Drawn (a.stage.slices 0) := by
  have hreached := reached_growFive runAgain 10
  have hcalm : (step^[10] (growFive runAgain)).Calm := by
    unfold Calm
    decide +kernel
  have hcursor : ((step^[10] (growFive runAgain)).stage.growths[0]?).map Growth.cursor =
      some 5 := by
    decide +kernel
  obtain ⟨g, hg, hcursor⟩ := Option.map_eq_some_iff.1 hcursor
  exact ⟨_, g, hreached, hcalm, hg, hcursor, by decide +kernel,
    (drawn_exactly_once hreached hcalm hg).1⟩

end ScriptedStage

end Lindenmayer
