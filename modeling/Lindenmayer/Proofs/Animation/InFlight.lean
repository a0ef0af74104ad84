import Lindenmayer.Proofs.Animation.Frames
import Lindenmayer.Proofs.Animation.Reentry

/-!
# A batch in flight

While a batch is being drawn its stroke may call for more: growths are started, grown to their end,
stopped and cancelled before the cursor of the batch has moved. As long as none of that ticks or
runs the growth itself before it is cancelled, nothing but its being cancelled can change it. So
when the stroke is over the cursor moves on by the batch that was drawn, and what has become live
meanwhile stays live.
-/
namespace Lindenmayer

variable {σ : Type}

namespace Growth

variable {g : Growth σ} {n : Nat}

theorem nextStop_of_whole (hbatch : g.batch = .whole n) (hn : 1 ≤ n) (hle : g.cursor ≤ g.total) :
    g.nextStop = g.cursor + min n (g.total - g.cursor) := by
  rw [nextStop, stride_of_whole hbatch hn]
  omega

/-- The next batch is as many of the segments that are left as the batch says. -/
theorem toList_slice (hbatch : g.batch = .whole n) (hn : 1 ≤ n) (hle : g.cursor ≤ g.total) :
    (g.slice g.nextStop).toList =
      (g.segments.toList.drop g.cursor).take (min n (g.total - g.cursor)) := by
  rw [nextStop_of_whole hbatch hn hle, slice, Array.toList_extract, List.extract_eq_take_drop,
    Nat.add_sub_cancel_left]

end Growth

namespace Stage

variable {id : Nat}

def isCancelled (s : Stage σ) (id : Nat) : Bool := (s.growths[id]?).any Growth.cancelled

/-- What is live has a batch of at least one. -/
def LiveProper (s : Stage σ) : Prop :=
  ∀ id, s.live = some id → ∃ (g : Growth σ) (n : Nat),
    s.growths[id]? = some g ∧ 1 ≤ n ∧ g.batch = .whole n

theorem Passage.batch_eq {s t : Stage σ} {way way' : List Nat} {deeds : List Deed}
    (h : Passage id s way deeds t way') {g : Growth σ} (hg : s.growths[id]? = some g) :
    ∃ g', t.growths[id]? = some g' ∧ g'.batch = g.batch := by
  cases h with
  | keep hkeeps _ =>
    obtain ⟨c, hc, -⟩ := hkeeps.kept g hg
    exact ⟨_, hc, rfl⟩
  | draw _ _ => exact ⟨g, hg, rfl⟩
  | move stop hkeeps _ =>
    obtain ⟨c, hc, -⟩ := hkeeps.kept _ (closeTick_found hg stop).1
    exact ⟨_, hc, rfl⟩

theorem live_release (s : Stage σ) (id : Nat) :
    (s.release id).live = s.live ∨ (s.release id).live = none := by
  rw [release]
  split
  · exact Or.inr rfl
  · exact Or.inl rfl

theorem live_openTick (s : Stage σ) (id : Nat) :
    (s.openTick id).2.live = s.live ∨ (s.openTick id).2.live = none := by
  rw [openTick]
  split
  · exact Or.inl rfl
  · split
    · exact s.live_release id
    · exact Or.inl rfl

theorem live_closeTick (s : Stage σ) (id stop : Nat) :
    (s.closeTick id stop).2.live = s.live ∨ (s.closeTick id stop).2.live = none := by
  rw [closeTick]
  dsimp only
  split
  · exact Or.inl rfl
  · split
    · exact live_release _ id
    · exact Or.inl rfl

/-- The end of a batch leaves the other growths as they are, and whichever of them is live. -/
theorem closeTick_other {k : Nat} (hk : k ≠ id) (s : Stage σ) (stop : Nat) :
    (s.closeTick id stop).2.growths[k]? = s.growths[k]? ∧
      ((s.closeTick id stop).2.live = some k ↔ s.live = some k) := by
  have hmoved : (s.growths.modify id fun g => { g with cursor := stop })[k]? = s.growths[k]? := by
    rw [Array.getElem?_modify, if_neg (Ne.symm hk)]
  rw [closeTick]
  dsimp only
  split
  · exact ⟨hmoved, Iff.rfl⟩
  · split
    · rw [growths_release, release]
      refine ⟨hmoved, ?_⟩
      split
      · next hl =>
        have hother : s.live ≠ some k := by
          rw [hl]
          exact fun h => hk (Option.some.inj h).symm
        exact iff_of_false (Option.some_ne_none k).symm hother
      · exact Iff.rfl
    · exact ⟨hmoved, Iff.rfl⟩

end Stage

namespace ScriptedStage

variable {id : Nat} {a b : ScriptedStage σ}

/-! ### What is live has a proper batch -/

theorem stage_started (a : ScriptedStage σ) (r : Except GrowthError Nat × Stage σ) (run : Bool) :
    (a.started r run).stage = r.2 := by
  obtain ⟨_ | _, _⟩ := r
  · rfl
  · rfl

theorem stage_openTick (a : ScriptedStage σ) (id : Nat) (again : Bool) :
    (a.openTick id again).stage = (a.stage.openTick id).2 := by
  rw [openTick]
  rcases a.stage.openTick id with ⟨_ | _, _⟩
  · rfl
  · rfl

theorem live_closeTick (a : ScriptedStage σ) (id stop : Nat) (again : Bool) :
    (a.closeTick id stop again).stage.live = (a.stage.closeTick id stop).2.live := by
  rw [closeTick]
  rcases a.stage.closeTick id stop with ⟨_ | _, _⟩
  · rfl
  · dsimp only
    split
    · split
      · rfl
      · rfl
    · rfl

/-- Only a start makes something live, and it has a proper batch then. -/
theorem live_start_cases (s : Stage σ) (segments : Array σ) (batch delay : Numeric) :
    ((s.start segments batch delay).2.live = s.live ∨
      (s.start segments batch delay).2.live = none) ∨
    ∃ n : Nat, 1 ≤ n ∧ (s.start segments batch delay).2.live = some s.growths.size ∧
      (s.start segments batch delay).2.growths[s.growths.size]? =
        some (.new segments (.whole n) delay) := by
  obtain ⟨e, he⟩ | ⟨e, he⟩ | ⟨n, hn, he⟩ := Stage.start_cases s segments batch delay
  · rw [he]
    exact Or.inl (Or.inl rfl)
  · rw [he]
    exact Or.inl (Or.inr s.live_stop)
  · rw [he]
    refine Or.inr ⟨n, hn, rfl, ?_⟩
    have hpush := Stage.growth_addDetached s.stop.clear segments (.whole n) delay s.growths.size
    rw [if_pos s.size_wiped.symm] at hpush
    exact hpush

theorem live_perform_cases (a : ScriptedStage σ) (c : StageCommand σ) :
    ((a.perform c).stage.live = a.stage.live ∨ (a.perform c).stage.live = none) ∨
    ∃ (g : Growth σ) (n : Nat), 1 ≤ n ∧ g.batch = .whole n ∧
      (a.perform c).stage.live = some a.stage.growths.size ∧
      (a.perform c).stage.growths[a.stage.growths.size]? = some g := by
  cases c with
  | start segments batch delay =>
    rw [perform, stage_started]
    refine (live_start_cases a.stage segments batch delay).imp_right ?_
    rintro ⟨n, hn, hlive, hg⟩
    exact ⟨_, n, hn, rfl, hlive, hg⟩
  | grow segments batch delay =>
    rw [perform, stage_started]
    refine (live_start_cases a.stage segments batch delay).imp_right ?_
    rintro ⟨n, hn, hlive, hg⟩
    exact ⟨_, n, hn, rfl, hlive, hg⟩
  | drawAll segments => exact Or.inl (Or.inr a.stage.live_stop)
  | stop => exact Or.inl (Or.inr a.stage.live_stop)
  | tick k =>
    rw [perform, stage_openTick]
    exact Or.inl (a.stage.live_openTick k)
  | gap k =>
    rw [perform]
    split
    · exact Or.inl (Or.inl rfl)
    · exact Or.inl (Or.inl rfl)
  | detach segments batch delay => exact Or.inl (Or.inl rfl)
  | run k => exact Or.inl (Or.inl rfl)
  | cancel k => exact Or.inl (Or.inl rfl)

theorem live_step_cases (a : ScriptedStage σ) :
    (a.step.stage.live = a.stage.live ∨ a.step.stage.live = none) ∨
    ∃ (g : Growth σ) (n : Nat), 1 ≤ n ∧ g.batch = .whole n ∧
      a.step.stage.live = some a.stage.growths.size ∧
      a.step.stage.growths[a.stage.growths.size]? = some g := by
  rw [step]
  split
  · exact Or.inl (Or.inl rfl)
  · next c rest tasks _ => exact live_perform_cases { a with tasks := withCommands rest tasks } c
  · next k tasks _ =>
    rw [stage_openTick]
    exact Or.inl (a.stage.live_openTick k)
  · next k stop again tasks _ =>
    rw [live_closeTick]
    exact Or.inl (a.stage.live_closeTick k stop)
  · exact Or.inl (Or.inl rfl)

theorem liveProper_step (h : a.stage.LiveProper) : a.step.stage.LiveProper := by
  intro id hl
  rcases live_step_cases a with (hsame | hnone) | ⟨g, n, hn, hbatch, hlive, hg⟩
  · obtain ⟨g, n, hg, hn, hbatch⟩ := h id (hsame.symm.trans hl)
    obtain ⟨g', hg', hbatch'⟩ := (passage_of_beat (.step a)).batch_eq hg
    exact ⟨g', n, hg', hn, hbatch'.trans hbatch⟩
  · cases hnone.symm.trans hl
  · obtain rfl := Option.some.inj (hlive.symm.trans hl)
    exact ⟨g, n, hg, hn, hbatch⟩

theorem Path.liveProper {onWait onStroke : Schedule (StageCommand σ)} {deeds : List (Nat × Deed)}
    (h : Path (new onWait onStroke) deeds a) : a.stage.LiveProper := by
  induction h with
  | refl =>
    intro id hl
    cases hl
  | tail _ hbeat ih =>
    cases hbeat with
    | step => exact liveProper_step ih
    | begin c => exact ih
    | unwind k => exact ih
    | recover k _ _ => exact liveProper_step ih

/-! ### What is done in a stroke -/

/-- The next command is to tick or to run the growth. -/
def asks (a : ScriptedStage σ) (id : Nat) : Bool :=
  match a.tasks with
  | .commands (.tick k) _ :: _ => k == id
  | .commands (.run k) _ :: _ => k == id
  | _ => false

/-- From here on no command ticks or runs the growth before it is cancelled. -/
def Spares (a : ScriptedStage σ) (id : Nat) : Prop :=
  ∀ n, (step^[n] a).asks id = true → (step^[n] a).stage.isCancelled id = true

/-- The growth is as it was, except that it may have been cancelled. Otherwise it is still live, and
nothing is about to run it. -/
structure Spared (id : Nat) (g : Growth σ) (a : ScriptedStage σ) : Prop where
  way : underWay id a.tasks = []
  kept : ∃ c, a.stage.growths[id]? = some { g with cancelled := c } ∧
    (c = true ∨ a.stage.live = some id ∧ .growing id ∉ a.tasks)

theorem growing_mem_withCommands {commands : List (StageCommand σ)} {tasks : List (StageTask σ)} :
    .growing id ∈ withCommands commands tasks ↔ .growing id ∈ tasks := by
  cases commands with
  | nil => exact Iff.rfl
  | cons c rest => simp [withCommands]

theorem growing_mem_openTick {k : Nat} {again : Bool}
    (h : .growing id ∈ (a.openTick k again).tasks) : .growing id ∈ a.tasks := by
  rw [openTick] at h
  split at h
  · exact h
  · rw [afterStroke, growing_mem_withCommands] at h
    simpa using h

theorem growing_mem_started {r : Except GrowthError Nat × Stage σ} {run : Bool}
    (hr : ∀ k, r.1 = .ok k → k ≠ id) (h : .growing id ∈ (a.started r run).tasks) :
    .growing id ∈ a.tasks := by
  obtain ⟨e | k, t⟩ := r
  · cases h
  · have hk := hr k rfl
    cases run with
    | false => exact h
    | true => simpa [started, Ne.symm hk] using h

theorem ne_of_start {s : Stage σ} (hid : id < s.growths.size) {segments : Array σ}
    {batch delay : Numeric} {k : Nat} (h : (s.start segments batch delay).1 = .ok k) : k ≠ id := by
  obtain ⟨e, he⟩ | ⟨e, he⟩ | ⟨n, -, he⟩ := Stage.start_cases s segments batch delay
  · rw [he] at h
    cases h
  · rw [he] at h
    cases h
  · rw [he] at h
    obtain rfl := Except.ok.inj h
    omega

/-- A growth that has begun before is run by a command to run it and by nothing else. -/
theorem growing_mem_perform {c : StageCommand σ} (hid : id < a.stage.growths.size)
    (hc : c ≠ .run id) (h : .growing id ∈ (a.perform c).tasks) : .growing id ∈ a.tasks := by
  cases c with
  | start segments batch delay => exact growing_mem_started (fun _ => ne_of_start hid) h
  | grow segments batch delay => exact growing_mem_started (fun _ => ne_of_start hid) h
  | drawAll segments =>
    rw [perform, afterStroke, growing_mem_withCommands] at h
    simpa using h
  | tick k => exact growing_mem_openTick h
  | run k =>
    have hk : id ≠ k := by
      rintro rfl
      exact hc rfl
    simpa [perform, hk] using h
  | gap k =>
    rw [perform] at h
    split at h
    · cases h
    · exact h
  | stop => exact h
  | detach segments batch delay => exact h
  | cancel k => exact h

theorem growing_mem_closeTick {k stop : Nat} {again : Bool} (hk : k ≠ id)
    (h : .growing id ∈ (a.closeTick k stop again).tasks) : .growing id ∈ a.tasks := by
  rw [closeTick] at h
  split at h
  · exact h
  · split at h
    · split at h
      · cases h
      · rw [afterWait, growing_mem_withCommands] at h
        simpa [Ne.symm hk] using h
    · exact h

theorem growing_mem_step (hid : id < a.stage.growths.size) (hway : underWay id a.tasks = [])
    (hasks : a.asks id = false) (h : .growing id ∈ a.step.tasks) : .growing id ∈ a.tasks := by
  rw [step] at h
  split at h
  · exact h
  · next c rest tasks htasks =>
    have hc : c ≠ .run id := by
      rintro rfl
      simp [asks, htasks] at hasks
    have hrest := growing_mem_perform (a := { a with tasks := withCommands rest tasks }) hid hc h
    rw [growing_mem_withCommands] at hrest
    exact htasks ▸ List.mem_cons_of_mem _ hrest
  · next k tasks htasks => exact htasks ▸ List.mem_cons_of_mem _ (growing_mem_openTick h)
  · next k stop again tasks htasks =>
    have hk : k ≠ id := by
      rintro rfl
      simp [underWay, htasks] at hway
    exact htasks ▸ List.mem_cons_of_mem _ (growing_mem_closeTick hk h)
  · next reply tasks htasks => exact htasks ▸ List.mem_cons_of_mem _ h

theorem deed_of_deedsFor {d : Option (Nat × Deed)} {e : Deed} (h : deedsFor id d.toList = [e]) :
    d = some (id, e) := by
  cases d with
  | none => cases h
  | some d =>
    obtain ⟨k, e'⟩ := d
    by_cases hk : k = id
    · subst hk
      have he : e' = e := by simpa [deedsFor] using h
      rw [he]
    · simp [deedsFor, hk] at h

theorem eq_of_drawing {s : Stage σ} {k : Nat} {e : Deed} (h : drawing? s k = some (id, e)) :
    k = id := by
  obtain ⟨stop, -, h⟩ := Option.bind_eq_some_iff.1 h
  obtain ⟨g, -, h⟩ := Option.map_eq_some_iff.1 h
  exact (Prod.mk.inj h).1

/-- What draws for a growth is a command to tick it or a run of it. -/
theorem asks_or_growing_of_draw {first stop : Nat}
    (h : a.deed? = some (id, .draw first stop)) : a.asks id = true ∨ .growing id ∈ a.tasks := by
  obtain ⟨task, htop, hdeed⟩ := Option.bind_eq_some_iff.1 h
  obtain ⟨tasks, htasks⟩ := List.head?_eq_some_iff.1 htop
  cases task with
  | commands c rest =>
    cases c with
    | tick k =>
      obtain rfl := eq_of_drawing hdeed
      exact Or.inl (by simp [asks, htasks])
    | _ => cases hdeed
  | growing k =>
    obtain rfl := eq_of_drawing hdeed
    exact Or.inr (htasks ▸ List.mem_cons_self)
  | stroked k stop again => cases hdeed
  | answer reply => cases hdeed

theorem isCancelled_of_found {s : Stage σ} {g : Growth σ} (hg : s.growths[id]? = some g) :
    s.isCancelled id = g.cancelled := by
  simp [Stage.isCancelled, hg]

theorem Spared.step {g : Growth σ} (h : Spared id g a)
    (hspares : a.asks id = true → a.stage.isCancelled id = true) : Spared id g a.step := by
  obtain ⟨hway, c, hg, hcase⟩ := h
  have hquiet : c = false → a.asks id = false := by
    intro hc
    rw [isCancelled_of_found hg, hc] at hspares
    exact Bool.eq_false_iff.2 fun h => Bool.false_ne_true (hspares h)
  have hpassage : Stage.Passage id a.stage (underWay id a.tasks) (deedsFor id a.deed?.toList)
      a.step.stage (underWay id a.step.tasks) := passage_of_beat (.step a)
  rw [hway] at hpassage
  generalize hdeeds : deedsFor id a.deed?.toList = deeds at hpassage
  generalize hstage : a.step.stage = t at hpassage
  cases hpassage with
  | keep hkeeps hsub =>
    refine ⟨List.sublist_nil.1 hsub, ?_⟩
    rw [hstage]
    obtain ⟨c', hc', hcancelled, hlive, -⟩ := hkeeps.kept _ hg
    refine ⟨c', hc', ?_⟩
    rcases hcase with hc | ⟨hl, hidle⟩
    · exact Or.inl (hcancelled hc)
    · cases hc : c with
      | true => exact Or.inl (hcancelled hc)
      | false =>
        have hid := (Array.getElem?_eq_some_iff.1 hg).1
        refine (hlive hl).symm.imp_right fun hl' => ⟨hl', fun hmem => hidle ?_⟩
        exact growing_mem_step hid hway (hquiet hc) hmem
  | draw hd hsub =>
    obtain rfl := Option.some.inj (hd.found.symm.trans hg)
    have hc : c = false := hd.cancelled
    obtain ⟨-, hidle⟩ := hcase.resolve_left (by simp [hc])
    rcases asks_or_growing_of_draw (deed_of_deedsFor hdeeds) with hasks | hgrowing
    · cases hasks.symm.trans (hquiet hc)
    · exact absurd hgrowing hidle

theorem Spared.iterate {g : Growth σ} (h : Spared id g a) (hspares : a.Spares id) (n : Nat) :
    Spared id g (ScriptedStage.step^[n] a) := by
  induction n with
  | zero => exact h
  | succ n ih =>
    rw [Function.iterate_succ_apply']
    exact ih.step (hspares n)

/-! ### A tick and what is done in its stroke -/

/-- The next step ticks the growth, on a command or in a run of it. What remains to be done after
the tick lies below it. -/
inductive Ticks (id : Nat) : List (StageTask σ) → Bool → List (StageTask σ) → Prop
  | once (rest : List (StageCommand σ)) (tasks : List (StageTask σ)) :
      Ticks id (.commands (.tick id) rest :: tasks) false (withCommands rest tasks)
  | running (tasks : List (StageTask σ)) : Ticks id (.growing id :: tasks) true tasks

/-- The next batch of the growth is drawn, and what is to happen in the stroke lies ready on its
own. -/
def inStroke (a : ScriptedStage σ) (id : Nat) (g : Growth σ) : ScriptedStage σ :=
  { a with
    stage := a.stage.stroke (some id) (g.slice g.nextStop)
    onStroke := a.onStroke.next.2
    tasks := withCommands a.onStroke.next.1 [] }

theorem step_of_ticks {again : Bool} {below : List (StageTask σ)} {g : Growth σ}
    (ht : Ticks id a.tasks again below) (hd : a.stage.CanDraw id g) :
    a.step = (a.inStroke id g).above (.stroked id g.nextStop again :: below) := by
  have hopen := Stage.openTick_of_canDraw hd
  have hwork : ∀ tasks, ({ a with tasks := tasks } : ScriptedStage σ).openTick id again =
      (a.inStroke id g).above (.stroked id g.nextStop again :: tasks) := by
    intro tasks
    have happend := withCommands_append (.stroked id g.nextStop again :: tasks) a.onStroke.next.1 []
    rw [openTick, hopen, above, inStroke, ← happend]
    rfl
  generalize htasks : a.tasks = tasks at ht
  cases ht with
  | once rest tasks =>
    rw [step, htasks]
    exact hwork _
  | running tasks =>
    rw [step, htasks]
    exact hwork _

theorem underWay_inStroke (a : ScriptedStage σ) (g : Growth σ) :
    underWay id (a.inStroke id g).tasks = [] := by
  rw [inStroke, underWay_withCommands]
  rfl

theorem spared_inStroke {g : Growth σ} (hd : a.stage.CanDraw id g) :
    Spared id g (a.inStroke id g) := by
  refine ⟨underWay_inStroke a g, g.cancelled, hd.found, Or.inr ⟨hd.live, ?_⟩⟩
  rw [inStroke, growing_mem_withCommands]
  exact List.not_mem_nil

/-- A moment at which the stroke of a batch is over, and the stage after it: the cursor has moved on
by the batch, whatever has become of the growth in the stroke, and nothing else has changed. -/
structure Finishes (id batch : Nat) (g : Growth σ) (s : Stage σ) (more : Bool) (t : Stage σ) :
    Prop where
  closed : s.closeTick id (g.cursor + batch) = (more, t)
  moved : ∃ c, s.growths[id]? = some { g with cancelled := c } ∧
    t.growths[id]? = some { g with cursor := g.cursor + batch, cancelled := c } ∧
    (more = false ↔ c = true ∨ g.cursor + batch = g.total)
  live : more = true → t.live = some id
  other : ∀ k, k ≠ id → t.growths[k]? = s.growths[k]? ∧ (t.live = some k ↔ s.live = some k)

theorem Spared.finishes {g : Growth σ} {batch : Nat} (h : Spared id g a)
    (hbatch : g.cursor + batch ≤ g.total) :
    Finishes id batch g a.stage (a.stage.closeTick id (g.cursor + batch)).1
      (a.stage.closeTick id (g.cursor + batch)).2 := by
  obtain ⟨-, c, hg, hcase⟩ := h
  obtain ⟨hmoved, -, hmore⟩ := Stage.closeTick_found hg (g.cursor + batch)
  have hclose : a.stage.closeTick id (g.cursor + batch) = _ := Stage.closeTick_of_found hg rfl
  refine ⟨rfl, ⟨c, hg, hmoved, ?_⟩, ?_, fun k hk => Stage.closeTick_other hk _ _⟩
  · have hdone : ({ g with cancelled := c, cursor := g.cursor + batch } : Growth σ).done =
        decide (g.total ≤ g.cursor + batch) := rfl
    have hend : g.total ≤ g.cursor + batch ↔ g.cursor + batch = g.total := by omega
    rw [hclose, hdone]
    by_cases hlast : g.total ≤ g.cursor + batch
    · simp [hend.1 hlast]
    · cases c with
      | true => simp
      | false => simp [hlast, mt hend.2 hlast]
  · intro hgoes
    obtain ⟨-, -, hcancelled, hlive⟩ | ⟨hno, -⟩ := hmore
    · exact hlive.trans (hcase.resolve_left (by simpa using hcancelled)).1
    · cases hno.symm.trans hgoes

/-- A tick that no other one follows only answers. -/
theorem closeTick_of_ends {stop : Nat} {again more : Bool} {t : Stage σ}
    (hclosed : a.stage.closeTick id stop = (more, t)) (hends : again = false ∨ more = false) :
    a.closeTick id stop again = { a with stage := t, reply := tickReply id again more } := by
  rw [closeTick, hclosed]
  cases more with
  | false => rfl
  | true =>
    obtain rfl := hends.resolve_right (by simp)
    rfl

/-- However a stroke calls for more, as long as nothing there raises an error, and nothing ticks or
runs the growth that is being drawn before it is cancelled: the stroke is the next batch of the
growth, the cursor then moves on by exactly that batch, the tick asks for another one unless the
growth was cancelled or is done, and all other growths are left as the stroke has left them. -/
theorem tick_finishes_batch {onWait onStroke : Schedule (StageCommand σ)}
    {deeds : List (Nat × Deed)} (h : Path (new onWait onStroke) deeds a) {g : Growth σ}
    (hd : a.stage.CanDraw id g) {again : Bool} {below : List (StageTask σ)}
    (ht : Ticks id a.tasks again below) :
    ∃ n batch : Nat, 1 ≤ n ∧ g.batch = .whole n ∧ batch = min n (g.total - g.cursor) ∧
      (g.slice g.nextStop).toList = (g.segments.toList.drop g.cursor).take batch ∧
      a.step = (a.inStroke id g).above (.stroked id (g.cursor + batch) again :: below) ∧
      ∀ after, after = (a.inStroke id g).settle → after.failure = none →
        (a.inStroke id g).Spares id → ∃ (m : Nat) (more : Bool) (t : Stage σ),
          Finishes id batch g after.stage more t ∧
          step^[m] a.step =
            { after with tasks := .stroked id (g.cursor + batch) again :: below } ∧
          (again = false ∨ more = false → step^[m + 1] a.step = { after with
            stage := t
            tasks := below
            reply := tickReply id again more }) := by
  obtain ⟨g', n, hg', hn, hbatch⟩ := h.liveProper id hd.live
  obtain rfl := Option.some.inj (hd.found.symm.trans hg')
  have hbooked : Stage.Booked id a.stage (underWay id a.tasks) (deedsFor id deeds) := h.booked
  have hle := hbooked.cursor_le g hd.found
  have hstep := step_of_ticks ht hd
  rw [Growth.nextStop_of_whole hbatch hn hle] at hstep
  refine ⟨n, _, hn, hbatch, rfl, Growth.toList_slice hbatch hn hle, hstep, ?_⟩
  rintro after rfl hf hspares
  obtain ⟨i, hi⟩ := exists_iterate_settle (a.inStroke id g)
  have hspared := (spared_inStroke hd).iterate hspares i
  rw [hi] at hspared
  obtain ⟨m, hm⟩ := exists_iterate_above
    (.stroked id (g.cursor + min n (g.total - g.cursor)) again :: below) hf
  rw [← hstep] at hm
  have hfits : g.cursor + min n (g.total - g.cursor) ≤ g.total := by omega
  have hfinishes := hspared.finishes hfits
  refine ⟨m, _, _, hfinishes, hm, ?_⟩
  intro hends
  rw [Function.iterate_succ_apply', hm, step]
  exact closeTick_of_ends (a := { (a.inStroke id g).settle with tasks := below })
    hfinishes.closed hends

/-- What spares a growth until it is at rest spares it for good. -/
theorem spares_of_iterate {n : Nat} (hrest : (step^[n] a).tasks = [])
    (h : ∀ i < n, (step^[i] a).asks id = true → (step^[i] a).stage.isCancelled id = true) :
    a.Spares id := by
  intro i hasks
  rcases Nat.lt_or_ge i n with hlt | hge
  · exact h i hlt hasks
  · obtain ⟨k, rfl⟩ := Nat.exists_eq_add_of_le' hge
    have hstill : step (step^[n] a) = step^[n] a := by
      rw [step, hrest]
    rw [Function.iterate_add_apply, Function.iterate_fixed hstill, asks, hrest] at hasks
    cases hasks

/-- In the first stroke another growth is started and ticked, then the one whose stroke it is. -/
def overtake : Schedule (StageCommand Nat) :=
  .ofNumbered [(1, [.start #[7, 8] (.whole 1) (.whole 0), .tick 1, .tick 0])]

/-- In the stroke of its first batch a growth is overtaken by another one. It has still drawn that
batch, its tick asks for no other one, and the growth that overtook it goes on to live. -/
theorem overtaken_finishes_batch : ∃ (a : ScriptedStage Nat) (deeds : List (Nat × Deed)) (m : Nat),
    Path (new .quiet (.ofNumbered
      [(1, [.start #[7, 8] (.whole 1) (.whole 0), .tick 1, .tick 0])])) deeds a ∧
    a.tasks = [.commands (.tick 0) []] ∧ a.stage.live = some 0 ∧
    (step^[m + 1] a.step).tasks = [] ∧ (step^[m + 1] a.step).reply = .truth false ∧
    ((step^[m + 1] a.step).stage.growths.toList.map fun g => (g.cursor, g.cancelled)) =
      [(1, true), (1, false)] ∧
    (step^[m + 1] a.step).stage.live = some 1 := by
  have hpath := path_ticking overtake 0
  have hd : (ticking overtake 0).stage.CanDraw 0 ⟨#[0, 1, 2], .whole 1, .whole 0, 0, false⟩ :=
    ⟨rfl, rfl, rfl⟩
  obtain ⟨n, batch, -, hn, hbatch, -, -, hends⟩ := tick_finishes_batch hpath hd (.once [] [])
  obtain rfl : n = 1 := Int.ofNat.inj (Numeric.whole.inj hn).symm
  obtain rfl : batch = 1 := hbatch
  have hrest : (step^[4] ((ticking overtake 0).inStroke 0
      ⟨#[0, 1, 2], .whole 1, .whole 0, 0, false⟩)).tasks = [] := rfl
  have hspares : ((ticking overtake 0).inStroke 0
      ⟨#[0, 1, 2], .whole 1, .whole 0, 0, false⟩).Spares 0 :=
    spares_of_iterate hrest (by decide +kernel)
  have hsettle := settle_eq_iterate hrest
  obtain ⟨m, more, t, hfinishes, -, hlast⟩ := hends _ hsettle.symm rfl hspares
  have hclosed := hfinishes.closed
  obtain rfl : more = false := (congrArg Prod.fst hclosed).symm.trans (by decide +kernel)
  obtain rfl : _ = t := congrArg Prod.snd hclosed
  refine ⟨_, _, m, hpath, rfl, rfl, ?_⟩
  rw [hlast (Or.inl rfl)]
  exact ⟨rfl, rfl, by decide +kernel, by decide +kernel⟩

end ScriptedStage

end Lindenmayer
