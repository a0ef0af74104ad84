import Lindenmayer.Proofs.Animation.Turns

/-!
# Who owns the stage

At most one growth may draw. A growth that has lost the stage to another one, or was cancelled,
finds so when it is next about to draw: it then draws nothing, waits no more and leaves the stage to
whatever is live.
-/
namespace Lindenmayer

variable {σ : Type}

namespace ScriptedStage

/-- The next step starts a growth, on its own or in order to run it. -/
def Starts (a : ScriptedStage σ) (id : Nat) : Prop :=
  ∃ (segments : Array σ) (batch delay : Numeric) (rest : List (StageCommand σ))
    (tasks : List (StageTask σ)) (t : Stage σ),
    (a.tasks = .commands (.start segments batch delay) rest :: tasks ∨
      a.tasks = .commands (.grow segments batch delay) rest :: tasks) ∧
    a.stage.start segments batch delay = (.ok id, t)

/-! A task is worked on in the same way whatever lies below it. -/

/-- The same work on top of other tasks. -/
def above (bottom : List (StageTask σ)) (a : ScriptedStage σ) : ScriptedStage σ :=
  { a with tasks := a.tasks ++ bottom }

variable (bottom : List (StageTask σ))

theorem withCommands_append (commands : List (StageCommand σ)) (tasks : List (StageTask σ)) :
    withCommands commands (tasks ++ bottom) = withCommands commands tasks ++ bottom := by
  cases commands with
  | nil => rfl
  | cons c rest => rfl

theorem afterStroke_above (a : ScriptedStage σ) (task : StageTask σ) :
    (a.above bottom).afterStroke task = (a.afterStroke task).above bottom := by
  have happend := withCommands_append bottom a.onStroke.next.1 (task :: a.tasks)
  rw [afterStroke, above, above, afterStroke, ← happend]
  rfl

theorem afterWait_above (a : ScriptedStage σ) (id : Nat) :
    (a.above bottom).afterWait id = (a.afterWait id).above bottom := by
  have happend := withCommands_append bottom a.onWait.next.1 (.growing id :: a.tasks)
  rw [afterWait, above, above, afterWait, ← happend]
  rfl

theorem openTick_above (a : ScriptedStage σ) (id : Nat) (again : Bool) :
    (a.above bottom).openTick id again = (a.openTick id again).above bottom := by
  have hstage : (a.above bottom).stage = a.stage := rfl
  rw [openTick, openTick, hstage]
  rcases a.stage.openTick id with ⟨_ | stop, t⟩
  · rfl
  · exact afterStroke_above bottom { a with stage := t } _

theorem closeTick_above {a : ScriptedStage σ} {id stop : Nat} {again : Bool}
    (hf : (a.closeTick id stop again).failure = none) :
    (a.above bottom).closeTick id stop again = (a.closeTick id stop again).above bottom := by
  have hstage : (a.above bottom).stage = a.stage := rfl
  rw [closeTick] at hf ⊢
  rw [closeTick, hstage]
  rcases hclose : a.stage.closeTick id stop with ⟨_ | _, t⟩
  · rfl
  · rw [hclose] at hf
    cases again with
    | false => rfl
    | true =>
      cases hgap : (t.growths[id]?).bind Growth.gap? with
      | none =>
        simp only [hgap, if_true] at hf
        cases hf
      | some seconds =>
        simp only [hgap, if_true]
        exact afterWait_above bottom { a with stage := t.wait id seconds } id

theorem started_above {a : ScriptedStage σ} {r : Except GrowthError Nat × Stage σ} {run : Bool}
    (hf : (a.started r run).failure = none) :
    (a.above bottom).started r run = (a.started r run).above bottom := by
  obtain ⟨e | id, t⟩ := r
  · cases hf
  · cases run with
    | true => rfl
    | false => rfl

theorem perform_above {a : ScriptedStage σ} {c : StageCommand σ}
    (hf : (a.perform c).failure = none) :
    (a.above bottom).perform c = (a.perform c).above bottom := by
  cases c with
  | start segments batch delay => exact started_above bottom hf
  | grow segments batch delay => exact started_above bottom hf
  | drawAll segments =>
    exact afterStroke_above bottom { a with stage := a.stage.drawAll segments } _
  | tick id => exact openTick_above bottom a id false
  | gap id =>
    have hstage : (a.above bottom).stage = a.stage := rfl
    rw [perform] at hf ⊢
    rw [perform, hstage]
    cases hgap : (a.stage.growths[id]?).bind Growth.gap? with
    | none =>
      rw [hgap] at hf
      cases hf
    | some seconds => rfl
  | stop => rfl
  | detach segments batch delay => rfl
  | run id => rfl
  | cancel id => rfl

/-- A step that raises nothing does not look below the topmost task. -/
theorem step_above {a : ScriptedStage σ} (ht : a.tasks ≠ []) (hf : a.step.failure = none) :
    (a.above bottom).step = a.step.above bottom := by
  rw [step] at hf ⊢
  rw [step]
  cases htasks : a.tasks with
  | nil => exact absurd htasks ht
  | cons task tasks =>
    have htop : (a.above bottom).tasks = task :: (tasks ++ bottom) := by rw [above, htasks]; rfl
    rw [htop]
    rw [htasks] at hf
    cases task with
    | commands c rest =>
      have happend := withCommands_append bottom rest tasks
      dsimp only at hf ⊢
      rw [happend]
      exact perform_above bottom hf
    | growing id => exact openTick_above bottom { a with tasks := tasks } id true
    | stroked id stop again => exact closeTick_above bottom hf
    | answer reply => rfl

/-! Nothing but a new command makes up for an error. -/

theorem failure_openTick (a : ScriptedStage σ) (id : Nat) (again : Bool) :
    (a.openTick id again).failure = a.failure := by
  rw [openTick]
  split
  · rfl
  · rfl

theorem failure_of_closeTick {a : ScriptedStage σ} {id stop : Nat} {again : Bool}
    (hf : (a.closeTick id stop again).failure = none) : a.failure = none := by
  rw [closeTick] at hf
  split at hf
  · exact hf
  · split at hf
    · split at hf
      · cases hf
      · exact hf
    · exact hf

theorem failure_of_started {a : ScriptedStage σ} {r : Except GrowthError Nat × Stage σ}
    {run : Bool} (hf : (a.started r run).failure = none) : a.failure = none := by
  obtain ⟨e | id, t⟩ := r
  · cases hf
  · exact hf

theorem failure_of_perform {a : ScriptedStage σ} {c : StageCommand σ}
    (hf : (a.perform c).failure = none) : a.failure = none := by
  cases c with
  | start segments batch delay => exact failure_of_started hf
  | grow segments batch delay => exact failure_of_started hf
  | tick id => exact (failure_openTick a id false).symm.trans hf
  | gap id =>
    rw [perform] at hf
    split at hf
    · cases hf
    · exact hf
  | drawAll segments => exact hf
  | stop => exact hf
  | detach segments batch delay => exact hf
  | run id => exact hf
  | cancel id => exact hf

theorem failure_of_step {a : ScriptedStage σ} (hf : a.step.failure = none) : a.failure = none := by
  rw [step] at hf
  split at hf
  · exact hf
  · next c rest tasks _ =>
    exact failure_of_perform (a := { a with tasks := withCommands rest tasks }) hf
  · next id tasks _ => exact (failure_openTick { a with tasks := tasks } id true).symm.trans hf
  · next id stop again tasks _ => exact failure_of_closeTick (a := { a with tasks := tasks }) hf
  · exact hf

theorem failure_of_settle {a : ScriptedStage σ} (hf : a.settle.failure = none) :
    a.failure = none := by
  induction a using settle.induct with
  | case1 a h =>
    rw [settle, dif_pos h] at hf
    exact hf
  | case2 a h ih =>
    rw [settle, dif_neg h] at hf
    exact failure_of_step (ih hf)

/-- What lies on top of other tasks is worked off before them. -/
theorem exists_iterate_above {a : ScriptedStage σ} (hf : a.settle.failure = none) :
    ∃ n, step^[n] (a.above bottom) = { a.settle with tasks := bottom } := by
  induction a using settle.induct with
  | case1 a h =>
    refine ⟨0, ?_⟩
    rw [settle, dif_pos h, Function.iterate_zero_apply, above, h, List.nil_append]
  | case2 a h ih =>
    rw [settle, dif_neg h] at hf ⊢
    obtain ⟨n, hn⟩ := ih hf
    refine ⟨n + 1, ?_⟩
    rw [Function.iterate_succ_apply, step_above bottom h (failure_of_settle hf), hn]

/-! What becomes of a growth that has lost the stage. -/

variable {onWait : Schedule (StageCommand σ)} {a : ScriptedStage σ}

theorem openTick_of_rests {id : Nat} (hr : a.stage.Rests id) (again : Bool) :
    a.openTick id again =
      { a with stage := a.stage.release id, reply := tickReply id again false } := by
  rw [openTick, Stage.openTick_of_rests hr]

/-- The step that starts a growth leaves what start has made of the stage, and no stroke is under
way then. -/
theorem Reached.step_of_start (ha : Reached onWait a) (hc : a.Calm) {segments : Array σ}
    {batch delay : Numeric} {rest : List (StageCommand σ)} {tasks : List (StageTask σ)} {id : Nat}
    {t : Stage σ} (htasks : a.tasks = .commands (.start segments batch delay) rest :: tasks ∨
      a.tasks = .commands (.grow segments batch delay) rest :: tasks)
    (ht : a.stage.start segments batch delay = (.ok id, t)) :
    a.step.Calm ∧ a.step.stage = t := by
  have hready := ha.ready hc
  have hmoves := Stage.moves_start (ha.sound hc) segments batch delay
  rw [ht] at hmoves
  have htail : ∀ task ∈ tasks, task.moved = true := by
    rcases htasks with htasks | htasks
    · exact (hready.pop htasks).calm
    · exact (hready.pop htasks).calm
  have hrest : Ready Stage.empty { a with tasks := withCommands rest tasks } :=
    ⟨hready.quiet, calm_withCommands htail, hready.moves⟩
  have hstep : ∃ run,
      a.step = { a with tasks := withCommands rest tasks }.started (.ok id, t) run := by
    rcases htasks with htasks | htasks
    · exact ⟨false, by rw [step, htasks]; dsimp only; rw [perform, ht]⟩
    · exact ⟨true, by rw [step, htasks]; dsimp only; rw [perform, ht]⟩
  obtain ⟨run, hstep⟩ := hstep
  rw [hstep]
  exact ⟨(hrest.started hmoves run).calm, rfl⟩

/-- What start returned is live, cancelled or done from then on. -/
theorem accounted_of_starts {b : ScriptedStage σ} {id : Nat} (ha : Reached onWait a)
    (hc : a.Calm) (hstart : a.Starts id) (hturns : Turns a.step b) (hb : b.Calm) :
    b.stage.Accounted id := by
  obtain ⟨segments, batch, delay, rest, tasks, t, htasks, ht⟩ := hstart
  obtain ⟨hcalm, hstage⟩ := ha.step_of_start hc htasks ht
  have hreached : Reached onWait a.step := .tail ha (.step a)
  have hlater := hreached.moves hcalm hturns hb
  refine Stage.accounted_of_moves (hreached.sound hcalm) hlater ?_
  rw [hstage]
  exact Stage.accounted_of_start ht

/-- When a run waits, the work of the wait is done before it goes on. If the growth has lost the
stage by then, or was cancelled, the run ends there. -/
theorem exists_iterate_wait {id : Nat} {waiting rest : List (StageTask σ)} (ha : Reached onWait a)
    (hc : a.Calm) (hid : id < a.stage.growths.size) (ht : a.tasks = waiting ++ .growing id :: rest)
    (hf : { a with tasks := waiting }.settle.failure = none) :
    ∃ n, step^[n] a = { { a with tasks := waiting }.settle with tasks := .growing id :: rest } ∧
      ∀ i ≤ n, (step^[i] a).Calm → (step^[i] a).stage.Rests id →
        step^[n + 1] a = { { a with tasks := waiting }.settle with
          stage := { a with tasks := waiting }.settle.stage.release id
          tasks := rest
          reply := .growth id } := by
  have habove : a = { a with tasks := waiting }.above (.growing id :: rest) := by rw [above, ← ht]
  obtain ⟨n, hn⟩ := exists_iterate_above (.growing id :: rest) hf
  rw [← habove] at hn
  refine ⟨n, hn, ?_⟩
  intro i hi hm hr
  have htoward : Turns (step^[i] a) (step^[n] a) := by
    have hiterate := turns_iterate (step^[i] a) (n - i)
    rw [← Function.iterate_add_apply, Nat.sub_add_cancel hi] at hiterate
    exact hiterate
  have hend : (step^[n] a).Calm := by
    intro task hmem
    rw [hn] at hmem
    exact hc task (ht ▸ List.mem_append_right waiting hmem)
  have hmoment : Reached onWait (step^[i] a) := ha.trans (turns_iterate a i)
  have hsize := Stage.size_le_of_moves (ha.moves hc (turns_iterate a i) hm)
  have hrests := Stage.rests_of_moves (hmoment.sound hm) (hmoment.moves hm htoward hend)
    (Nat.lt_of_lt_of_le hid hsize) hr
  rw [Function.iterate_succ_apply', hn] at *
  rw [step]
  exact openTick_of_rests (a := { { a with tasks := waiting }.settle with tasks := rest }) hrests
    true

/-- Between two elementary steps, and whatever has happened before, nested in whatever way:

* what start returns is from then on live, or else it is cancelled or done;
* a growth that ceases to be live is never live again;
* to tick or run a growth that is cancelled or not live does nothing but release it;
* a run that waits goes on when the work of the wait is done without an error, and it ends at once,
  with no other effect than a release, if at some moment of the wait its growth was cancelled or not
  live. -/
theorem exclusive_ownership (ha : Reached onWait a) (hcalm : a.Calm) :
    (∀ (id : Nat) (b : ScriptedStage σ), a.Starts id → Turns a.step b → b.Calm →
      b.stage.live ≠ some id →
      ∃ g, b.stage.growths[id]? = some g ∧ (g.cancelled = true ∨ g.done = true)) ∧
    (∀ (id : Nat) (b c : ScriptedStage σ), a.stage.live = some id →
      Turns a b → b.Calm → b.stage.live ≠ some id →
      Turns b c → c.Calm → c.stage.live ≠ some id) ∧
    (∀ (id : Nat) (rest : List (StageCommand σ)) (tasks : List (StageTask σ)),
      a.stage.Rests id →
      (a.tasks = .commands (.tick id) rest :: tasks → a.step = { a with
        stage := a.stage.release id
        tasks := withCommands rest tasks
        reply := .truth false }) ∧
      (a.tasks = .commands (.run id) rest :: tasks → a.step.step = { a with
        stage := a.stage.release id
        tasks := withCommands rest tasks
        reply := .growth id })) ∧
    (∀ (id : Nat) (waiting rest : List (StageTask σ)) (after : ScriptedStage σ),
      id < a.stage.growths.size → a.tasks = waiting ++ .growing id :: rest →
      after = { a with tasks := waiting }.settle → after.failure = none →
      ∃ n, step^[n] a = { after with tasks := .growing id :: rest } ∧
        ∀ i ≤ n, (step^[i] a).Calm → (step^[i] a).stage.Rests id →
          step^[n + 1] a = { after with
            stage := after.stage.release id
            tasks := rest
            reply := .growth id }) := by
  refine ⟨?_, ?_, ?_, ?_⟩
  · intro id b hstart hturns hb hl
    obtain ⟨g, hg, hlive | hend⟩ := accounted_of_starts ha hcalm hstart hturns hb
    · exact absurd hlive hl
    · exact ⟨g, hg, hend⟩
  · intro id b c hlive hturns hb hl hturns' hc
    have hid := (ha.sound hcalm).live_lt id hlive
    have hsize := Stage.size_le_of_moves (ha.moves hcalm hturns hb)
    have hb' : Reached onWait b := ha.trans hturns
    exact Stage.live_ne_of_moves (hb'.moves hb hturns' hc) (Nat.lt_of_lt_of_le hid hsize) hl
  · intro id rest tasks hr
    constructor
    · intro ht
      rw [step, ht]
      exact openTick_of_rests (a := { a with tasks := withCommands rest tasks }) hr false
    · intro ht
      have hrun : a.step = { a with tasks := .growing id :: withCommands rest tasks } := by
        rw [step, ht]
        rfl
      rw [hrun, step]
      exact openTick_of_rests (a := { a with tasks := withCommands rest tasks }) hr true
  · intro id waiting rest after hid ht hafter hf
    subst hafter
    exact exists_iterate_wait ha hcalm hid ht hf

/-- In the first wait another growth is started. -/
def startAnother : Schedule (StageCommand Nat) :=
  .ofNumbered [(1, [.start #[7, 8] (.whole 1) (.whole 0)])]

/-- While a growth waits another one is started; the run of the first ends and the second stays
live. -/
theorem restart_takes_over : ∃ (a : ScriptedStage Nat) (n : Nat),
    Reached (.ofNumbered [(1, [.start #[7, 8] (.whole 1) (.whole 0)])]) a ∧ a.Calm ∧
      a.tasks = [.commands (.start #[7, 8] (.whole 1) (.whole 0)) [], .growing 0] ∧
      a.stage.live = some 0 ∧ (step^[n + 1] a).tasks = [] ∧
      (step^[n + 1] a).stage.live = some 1 ∧ (step^[n + 1] a).stage.slices 0 = [#[0, 1]] := by
  have hreached := reached_growFive startAnother 3
  have hcalm : (step^[3] (growFive startAnother)).Calm := by
    unfold Calm
    decide +kernel
  have hwork : { step^[3] (growFive startAnother) with
      tasks := [.commands (.start #[7, 8] (.whole 1) (.whole 0)) []] }.settle =
      step^[1] { step^[3] (growFive startAnother) with
        tasks := [.commands (.start #[7, 8] (.whole 1) (.whole 0)) []] } :=
    settle_eq_iterate rfl
  obtain ⟨n, hn, hend⟩ := (exclusive_ownership hreached hcalm).2.2.2 0
    [.commands (.start #[7, 8] (.whole 1) (.whole 0)) []] [] _ (by decide +kernel) rfl rfl
    (by rw [hwork]; rfl)
  rw [hwork] at hn hend
  have hcalm' : (step^[n] (step^[3] (growFive startAnother))).Calm := by
    rw [hn]
    change ∀ task ∈ [StageTask.growing 0], task.moved = true
    decide
  have hlost : (step^[n] (step^[3] (growFive startAnother))).stage.Rests 0 := by
    rw [hn]
    exact Or.inl (by decide +kernel)
  have hlast := hend n (Nat.le_refl n) hcalm' hlost
  refine ⟨_, n, hreached, hcalm, rfl, by decide +kernel, ?_, ?_, ?_⟩
  · rw [hlast]
  · rw [hlast]
    decide +kernel
  · rw [hlast]
    decide +kernel

end ScriptedStage

end Lindenmayer
