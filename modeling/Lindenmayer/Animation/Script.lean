import Lindenmayer.Animation.Schedule
import Lindenmayer.Animation.Stage

/-!
# Scripts for a stage

Commands to a stage, and what is to happen while a growth waits or a stroke is drawn. A scripted
stage keeps the tasks it has begun on a stack: commands inside a wait or a stroke come on top of
the task that waits or strokes, and an error drops the whole stack. One step works on the topmost
task. The module shows that the steps come to an end, whatever the scripts say.
-/
namespace Lindenmayer

/-- Growths are named by their numbers. -/
inductive StageCommand (σ : Type) where
  | start (segments : Array σ) (batch delay : Numeric)
  | grow (segments : Array σ) (batch delay : Numeric)
  | drawAll (segments : Array σ)
  | stop
  | detach (segments : Array σ) (batch delay : Numeric)
  | tick (id : Nat)
  | run (id : Nat)
  | cancel (id : Nat)
  | gap (id : Nat)

inductive StageReply where
  | nothing
  | truth (b : Bool)
  | growth (id : Nat)
  | seconds (x : Float)

/-- Work that has begun. -/
inductive StageTask (σ : Type) where
  | commands (first : StageCommand σ) (rest : List (StageCommand σ))
  /-- A growth that draws until it is told to stop is about to draw. -/
  | growing (id : Nat)
  /-- A growth has drawn a batch, after which its cursor is to stand at `stop`. -/
  | stroked (id stop : Nat) (again : Bool)
  | answer (reply : StageReply)

structure ScriptedStage (σ : Type) where
  stage : Stage σ
  onWait : Schedule (StageCommand σ)
  onStroke : Schedule (StageCommand σ)
  tasks : List (StageTask σ)
  reply : StageReply
  failure : Option GrowthError

namespace ScriptedStage

variable {σ : Type}

def new (onWait onStroke : Schedule (StageCommand σ)) : ScriptedStage σ :=
  ⟨Stage.empty, onWait, onStroke, [], .nothing, none⟩

/-- The tasks with some commands put on top. -/
def withCommands (commands : List (StageCommand σ)) (tasks : List (StageTask σ)) :
    List (StageTask σ) :=
  match commands with
  | [] => tasks
  | c :: rest => .commands c rest :: tasks

def fail (a : ScriptedStage σ) (e : GrowthError) : ScriptedStage σ :=
  { a with tasks := [], failure := some e }

/-- A stroke was drawn: what is scripted for it happens before the given task. -/
def afterStroke (a : ScriptedStage σ) (task : StageTask σ) : ScriptedStage σ :=
  { a with
    onStroke := a.onStroke.next.2
    tasks := withCommands a.onStroke.next.1 (task :: a.tasks) }

/-- The growth waits: what is scripted for the wait happens before its next batch. -/
def afterWait (a : ScriptedStage σ) (id : Nat) : ScriptedStage σ :=
  { a with
    onWait := a.onWait.next.2
    tasks := withCommands a.onWait.next.1 (.growing id :: a.tasks) }

/-- Growing answers with the growth, a single tick with whether another should follow. -/
def tickReply (id : Nat) (again more : Bool) : StageReply := if again then .growth id else .truth more

def openTick (a : ScriptedStage σ) (id : Nat) (again : Bool) : ScriptedStage σ :=
  match a.stage.openTick id with
  | (none, stage) => { a with stage := stage, reply := tickReply id again false }
  | (some stop, stage) => { a with stage := stage }.afterStroke (.stroked id stop again)

def closeTick (a : ScriptedStage σ) (id stop : Nat) (again : Bool) : ScriptedStage σ :=
  match a.stage.closeTick id stop with
  | (false, stage) => { a with stage := stage, reply := tickReply id again false }
  | (true, stage) =>
    if again then
      match (stage.growths[id]?).bind Growth.gap? with
      | none => { a with stage := stage }.fail .delayTooLong
      | some seconds => { a with stage := stage.wait id seconds }.afterWait id
    else { a with stage := stage, reply := .truth true }

def started (a : ScriptedStage σ) (r : Except GrowthError Nat × Stage σ) (run : Bool) :
    ScriptedStage σ :=
  match r with
  | (.error e, stage) => { a with stage := stage }.fail e
  | (.ok id, stage) =>
    { a with
      stage := stage
      reply := .growth id
      tasks := if run then .growing id :: a.tasks else a.tasks }

def perform (a : ScriptedStage σ) : StageCommand σ → ScriptedStage σ
  | .start segments batch delay => a.started (a.stage.start segments batch delay) false
  | .grow segments batch delay => a.started (a.stage.start segments batch delay) true
  | .drawAll segments => { a with stage := a.stage.drawAll segments }.afterStroke (.answer .nothing)
  | .stop => { a with stage := a.stage.stop, reply := .nothing }
  | .detach segments batch delay =>
    { a with
      stage := a.stage.addDetached segments batch delay
      reply := .growth a.stage.growths.size }
  | .tick id => a.openTick id false
  | .run id => { a with tasks := .growing id :: a.tasks }
  | .cancel id => { a with stage := a.stage.cancel id, reply := .nothing }
  | .gap id =>
    match (a.stage.growths[id]?).bind Growth.gap? with
    | none => a.fail .delayTooLong
    | some seconds => { a with reply := .seconds seconds }

/-- Works on the topmost task. -/
def step (a : ScriptedStage σ) : ScriptedStage σ :=
  match a.tasks with
  | [] => a
  | .commands c rest :: tasks => { a with tasks := withCommands rest tasks }.perform c
  | .growing id :: tasks => { a with tasks := tasks }.openTick id true
  | .stroked id stop again :: tasks => { a with tasks := tasks }.closeTick id stop again
  | .answer reply :: tasks => { a with tasks := tasks, reply := reply }

/-- The commands that a task still holds. -/
def commandCount : StageTask σ → Nat
  | .commands _ rest => rest.length + 1
  | _ => 0

def taskCommands (tasks : List (StageTask σ)) : Nat :=
  tasks.foldr (fun t n => commandCount t + n) 0

/-- The commands still to be performed; those in the scripts count twice, because they have yet
to become a task. -/
def load (a : ScriptedStage σ) : Nat :=
  2 * (a.onWait.weight + a.onStroke.weight) + taskCommands a.tasks

/-- How far the topmost task is from its end if no command interferes. -/
def topWeight (s : Stage σ) : List (StageTask σ) → Nat
  | .growing id :: _ => 3 * s.remaining id + 2
  | .stroked id stop _ :: _ =>
    match s.growths[id]? with
    | some g => if stop < g.total then 3 * (g.total - stop) + 3 else 1
    | none => 1
  | _ => 0

theorem taskCommands_withCommands (commands : List (StageCommand σ)) (tasks : List (StageTask σ)) :
    taskCommands (withCommands commands tasks) = commands.length + taskCommands tasks := by
  cases commands <;> simp [withCommands, taskCommands, commandCount]

theorem load_fail (a : ScriptedStage σ) (e : GrowthError) : (a.fail e).load ≤ a.load := by
  simp [fail, load, taskCommands]

theorem tasks_fail (a : ScriptedStage σ) (e : GrowthError) : (a.fail e).tasks = [] := rfl

theorem load_afterStroke (a : ScriptedStage σ) (s : Stage σ) (task : StageTask σ)
    (h : commandCount task = 0) :
    ({ a with stage := s }.afterStroke task).load + a.onStroke.next.1.length = a.load := by
  have hw := a.onStroke.weight_next
  have ht : taskCommands (task :: a.tasks) = taskCommands a.tasks := by simp [taskCommands, h]
  simp only [load, afterStroke, taskCommands_withCommands, ht]
  omega

theorem load_afterWait (a : ScriptedStage σ) (s : Stage σ) (id : Nat) :
    ({ a with stage := s }.afterWait id).load + a.onWait.next.1.length = a.load := by
  have hw := a.onWait.weight_next
  have ht : taskCommands (.growing id :: a.tasks) = taskCommands a.tasks := by
    simp [taskCommands, commandCount]
  simp only [load, afterWait, taskCommands_withCommands, ht]
  omega

theorem load_started (a : ScriptedStage σ) (r : Except GrowthError Nat × Stage σ) (run : Bool) :
    (a.started r run).load ≤ a.load := by
  unfold started
  split
  · next e stage => exact load_fail { a with stage := stage } e
  · cases run <;> simp [load, taskCommands, commandCount]

theorem load_openTick (a : ScriptedStage σ) (id : Nat) (again : Bool) :
    (a.openTick id again).load ≤ a.load := by
  unfold openTick
  split
  · exact Nat.le_refl _
  · next stop stage _ => exact Nat.le.intro (load_afterStroke a stage _ rfl)

theorem load_perform (a : ScriptedStage σ) (c : StageCommand σ) : (a.perform c).load ≤ a.load := by
  cases c with
  | start segments batch delay => exact load_started _ _ _
  | grow segments batch delay => exact load_started _ _ _
  | drawAll segments => exact Nat.le.intro (load_afterStroke a _ _ rfl)
  | stop => exact Nat.le_refl _
  | detach segments batch delay => exact Nat.le_refl _
  | tick id => exact load_openTick _ _ _
  | run id => simp [perform, load, taskCommands, commandCount]
  | cancel id => exact Nat.le_refl _
  | gap id =>
    simp only [perform]
    split
    · exact load_fail _ _
    · exact Nat.le_refl _

theorem lt_of_add_length {α : Type} {m n : Nat} {x : α} {rest : List α}
    (h : m + (x :: rest).length = n) : m < n := by
  rw [List.length_cons] at h
  omega

/-- The order in which the steps descend: first the load, then the height of the stack, then the
topmost task. -/
def Descends (b a : ScriptedStage σ) : Prop :=
  b.load < a.load ∨ b.load = a.load ∧
    (b.tasks.length < a.tasks.length ∨ b.tasks.length = a.tasks.length ∧
      topWeight b.stage b.tasks < topWeight a.stage a.tasks)

theorem descends_of_le {b a : ScriptedStage σ} (hload : b.load ≤ a.load)
    (hlength : b.tasks.length < a.tasks.length) : Descends b a := by
  rcases Nat.lt_or_eq_of_le hload with h | h
  · exact Or.inl h
  · exact Or.inr ⟨h, Or.inl hlength⟩

/-- A batch that leaves something to draw brings its growth nearer to the end. -/
theorem descends_openTick (a : ScriptedStage σ) (id : Nat) (again : Bool)
    (tasks : List (StageTask σ)) (h : a.tasks = .growing id :: tasks) :
    Descends ({ a with tasks := tasks }.openTick id again) a := by
  have hload : { a with tasks := tasks }.load = a.load := by
    simp [load, h, taskCommands, commandCount]
  unfold openTick
  split
  · exact descends_of_le (Nat.le_of_eq hload) (by simp [h])
  · next stop stage hopen =>
    have hstep := load_afterStroke { a with tasks := tasks } stage (.stroked id stop again) rfl
    rw [hload] at hstep
    cases hnext : a.onStroke.next.1 with
    | cons c rest =>
      rw [hnext] at hstep
      exact Or.inl (lt_of_add_length hstep)
    | nil =>
      right
      rw [hnext] at hstep
      refine ⟨hstep, Or.inr ⟨by simp [afterStroke, hnext, withCommands, h], ?_⟩⟩
      obtain ⟨g, hg, rfl, hgrowths⟩ := Stage.exists_of_openTick hopen
      have hr : a.stage.remaining id = g.total - g.cursor := by simp [Stage.remaining, hg, Growth.remaining]
      simp only [afterStroke, hnext, withCommands, topWeight, h, hgrowths, hg, hr]
      split
      · next hlt =>
        have := Growth.cursor_lt_nextStop hlt
        omega
      · omega

theorem descends_closeTick (a : ScriptedStage σ) (id stop : Nat) (again : Bool)
    (tasks : List (StageTask σ)) (h : a.tasks = .stroked id stop again :: tasks) :
    Descends ({ a with tasks := tasks }.closeTick id stop again) a := by
  have hload : { a with tasks := tasks }.load = a.load := by
    simp [load, h, taskCommands, commandCount]
  unfold closeTick
  split
  · exact descends_of_le (Nat.le_of_eq hload) (by simp [h])
  · next stage hclose =>
    split
    · split
      · exact descends_of_le (by rw [← hload]; exact load_fail _ _) (by simp [h, tasks_fail])
      · next seconds _ =>
        have hstep := load_afterWait { a with tasks := tasks } (stage.wait id seconds) id
        rw [hload] at hstep
        cases hnext : a.onWait.next.1 with
        | cons c rest =>
          rw [hnext] at hstep
          exact Or.inl (lt_of_add_length hstep)
        | nil =>
          right
          rw [hnext] at hstep
          refine ⟨hstep, Or.inr ⟨by simp [afterWait, hnext, withCommands, h], ?_⟩⟩
          obtain ⟨g, hg, hlt, hafter⟩ := Stage.exists_of_closeTick hclose
          have hr : (stage.wait id seconds).remaining id = g.total - stop := by
            have hw : (stage.wait id seconds).growths = stage.growths := rfl
            simp [Stage.remaining, hw, hafter, Growth.remaining, Growth.total]
          simp only [afterWait, hnext, withCommands, topWeight, h, hg, hr, if_pos hlt]
          omega
    · exact descends_of_le (Nat.le_of_eq hload) (by simp [h])

/-- Every step comes nearer to the end. -/
theorem descends_step (a : ScriptedStage σ) (h : a.tasks ≠ []) : Descends a.step a := by
  unfold step
  split
  · next htasks => exact absurd htasks h
  · next c rest tasks htasks =>
    left
    have hload : { a with tasks := withCommands rest tasks }.load + 1 = a.load := by
      simp only [load, taskCommands_withCommands, htasks]
      simp [taskCommands, commandCount]
      omega
    have := load_perform { a with tasks := withCommands rest tasks } c
    omega
  · next id tasks htasks => exact descends_openTick a id true tasks htasks
  · next id stop again tasks htasks => exact descends_closeTick a id stop again tasks htasks
  · next reply tasks htasks =>
    refine descends_of_le (Nat.le_of_eq ?_) (by simp [htasks])
    simp [load, htasks, taskCommands, commandCount]

/-- Works until nothing is left to do. -/
def settle (a : ScriptedStage σ) : ScriptedStage σ :=
  if _h : a.tasks = [] then a else settle a.step
termination_by (a.load, a.tasks.length, topWeight a.stage a.tasks)
decreasing_by
  rcases descends_step a (by assumption) with hload | ⟨hload, hlength | ⟨hlength, htop⟩⟩
  · exact Prod.Lex.left _ _ hload
  · rw [hload]
    exact Prod.Lex.right _ (Prod.Lex.left _ _ hlength)
  · rw [hload, hlength]
    exact Prod.Lex.right _ (Prod.Lex.right _ htop)

/-- Performs a command and everything that is scripted to happen during it. -/
def command (a : ScriptedStage σ) (c : StageCommand σ) : ScriptedStage σ :=
  settle { a with tasks := [.commands c []], reply := .nothing, failure := none }

end ScriptedStage

end Lindenmayer
