import Lindenmayer.Proofs.Animation.Deeds
import Lindenmayer.Proofs.Animation.Ownership
import Mathlib.Algebra.Order.Floor.Div

/-!
# How long a growth takes

Whatever is scripted, the work comes to an end. All runs of a growth together, however they are
nested, wait between its batches at most, so there is always one wait less than the number of batches
its segments fill. A run that nothing interferes with makes all the strokes that are left, with one
wait between any two of them. Only a delay that exceeds every double keeps it from that: the run then
fails where it would first wait.
-/
namespace Lindenmayer

variable {σ : Type}

/-- The seconds that the event shows the growth to wait. -/
def Event.secondsOf? (id : Nat) : Event σ → Option Float
  | .wait k seconds => if k = id then some seconds else none
  | _ => none

namespace Schedule

variable {α : Type}

/-- Nothing happens on the next occasions, as many as the number says. -/
def QuietFor : Nat → Schedule α → Prop
  | 0, _ => True
  | n + 1, s => s.next.1 = [] ∧ QuietFor n s.next.2

/-- What is left of the schedule after a number of occasions. -/
def later : Nat → Schedule α → Schedule α
  | 0, s => s
  | n + 1, s => later n s.next.2

theorem quietFor_quiet (n : Nat) : QuietFor n (quiet : Schedule α) := by
  induction n with
  | zero => trivial
  | succ n ih => exact ⟨rfl, ih⟩

end Schedule

namespace Growth

/-- A growth waits for a frame, and for its delay on top of that if there is any. -/
theorem gap?_eq_some_iff {g : Growth σ} {seconds : Float} : g.gap? = some seconds ↔
    (g.delay.positive = true ∧ ∃ x, g.delay.toFloat? = some x ∧ seconds = x + frameInterval) ∨
      (g.delay.positive = false ∧ seconds = frameInterval) := by
  rw [gap?]
  cases g.delay.positive with
  | false => simp [eq_comm]
  | true => simp [eq_comm]

theorem Later.gap?_eq {g g' : Growth σ} (h : g.Later g') : g'.gap? = g.gap? := by
  rw [gap?, gap?, h.delay_eq]

theorem Later.stride_eq {g g' : Growth σ} (h : g.Later g') : g'.stride = g.stride := by
  rw [stride, stride, h.batch_eq]

/-- A batch short of the end is a whole one. -/
theorem nextStop_of_more {g : Growth σ} (h : g.nextStop < g.total) :
    g.nextStop = g.cursor + g.stride := by
  unfold nextStop at h ⊢
  omega

/-- The waits of a growth: each lasts as long as it should and comes after a whole batch that did not
reach the end. -/
structure Paced (g : Growth σ) (waits : List Float) : Prop where
  gap : ∀ seconds ∈ waits, g.gap? = some seconds
  drawn : waits.length * g.stride ≤ g.cursor
  short : waits = [] ∨ waits.length * g.stride < g.total

theorem paced_nil (g : Growth σ) : g.Paced [] := ⟨by simp, by simp, Or.inl rfl⟩

theorem Paced.later {g g' : Growth σ} {waits : List Float} (h : g.Paced waits) (hg : g.Later g') :
    g'.Paced waits where
  gap seconds hmem := hg.gap?_eq.trans (h.gap seconds hmem)
  drawn := by
    have hle := hg.cursor_le
    have hdrawn := h.drawn
    rw [hg.stride_eq]
    omega
  short := by
    rw [hg.stride_eq, hg.total_eq]
    exact h.short

/-- Another wait, after a whole batch. -/
theorem Paced.pause {g : Growth σ} {waits : List Float} {seconds : Float} (h : g.Paced waits)
    (hmore : g.nextStop < g.total) (hgap : g.gap? = some seconds) :
    { g with cursor := g.nextStop }.Paced (waits ++ [seconds]) := by
  have hdrawn := h.drawn
  have hstop := nextStop_of_more hmore
  have hlength : (waits ++ [seconds]).length * g.stride ≤ g.nextStop := by
    rw [List.length_append, List.length_singleton, Nat.succ_mul]
    omega
  constructor
  · intro x hx
    rcases List.mem_append.1 hx with hold | hnew
    · exact h.gap x hold
    · obtain rfl := List.mem_singleton.1 hnew
      exact hgap
  · exact hlength
  · exact Or.inr (Nat.lt_of_le_of_lt hlength hmore)

/-- There is one wait less than batches. -/
theorem Paced.length_le {g : Growth σ} {waits : List Float} (h : g.Paced waits) :
    waits.length ≤ max 1 (g.total ⌈/⌉ g.stride) - 1 := by
  rcases h.short with rfl | hlt
  · exact Nat.zero_le _
  · have hfewer : waits.length < g.total ⌈/⌉ g.stride := by
      apply Nat.lt_of_not_le
      intro hle
      have hcover := (ceilDiv_le_iff_le_mul g.stride_pos).1 hle
      rw [Nat.mul_comm] at hcover
      omega
    omega

/-- The number of batches that are left to draw. A growth of no segments has one, which is empty. -/
def batchesLeft (g : Growth σ) : Nat := max 1 ((g.total - g.cursor) ⌈/⌉ g.stride)

theorem batchesLeft_of_last {g : Growth σ} (hlast : g.nextStop = g.total) : g.batchesLeft = 1 := by
  have hone : (g.total - g.cursor) ⌈/⌉ g.stride ≤ 1 := by
    apply (ceilDiv_le_iff_le_mul g.stride_pos).2
    unfold nextStop at hlast
    omega
  unfold batchesLeft
  omega

theorem batchesLeft_of_more {g : Growth σ} (hmore : g.nextStop < g.total) :
    g.batchesLeft = { g with cursor := g.nextStop }.batchesLeft + 1 := by
  have hpos := g.stride_pos
  have hstop := nextStop_of_more hmore
  have hsplit : (g.total - g.cursor) ⌈/⌉ g.stride = (g.total - g.nextStop) ⌈/⌉ g.stride + 1 := by
    rw [Nat.ceilDiv_eq_add_pred_div, Nat.ceilDiv_eq_add_pred_div, ← Nat.add_div_right _ hpos]
    congr 1
    omega
  have hsome : 1 ≤ (g.total - g.nextStop) ⌈/⌉ g.stride := by
    apply Nat.one_le_iff_ne_zero.2
    intro hzero
    have hcover := (ceilDiv_le_iff_le_mul hpos).1 (Nat.le_of_eq hzero)
    omega
  change max 1 ((g.total - g.cursor) ⌈/⌉ g.stride) =
    max 1 ((g.total - g.nextStop) ⌈/⌉ g.stride) + 1
  omega

/-- Only one batch is left exactly if the next one reaches the end. -/
theorem batchesLeft_eq_one_iff {g : Growth σ} : g.batchesLeft = 1 ↔ g.nextStop = g.total := by
  refine ⟨?_, batchesLeft_of_last⟩
  intro hone
  apply Nat.le_antisymm g.nextStop_le_total
  apply Nat.le_of_not_lt
  intro hmore
  have hleft := batchesLeft_of_more hmore
  have hnext : 1 ≤ { g with cursor := g.nextStop }.batchesLeft := Nat.le_max_left _ _
  omega

/-- So many strokes of a growth from its cursor on, each of a batch. -/
def strokes (g : Growth σ) (id count : Nat) : List (Event σ) :=
  (List.range count).map fun i => .stroke (some id)
    (g.segments.extract (g.cursor + i * g.stride) (g.cursor + (i + 1) * g.stride))

theorem slice_nextStop (g : Growth σ) :
    g.slice g.nextStop = g.segments.extract g.cursor (g.cursor + g.stride) := by
  apply Array.ext_getElem?
  intro i
  rw [slice, nextStop, total, Array.getElem?_extract, Array.getElem?_extract]
  congr 2
  omega

theorem strokes_one (g : Growth σ) (id : Nat) :
    g.strokes id 1 = [.stroke (some id) (g.slice g.nextStop)] := by
  simp [strokes, slice_nextStop]

theorem strokes_succ {g : Growth σ} (hmore : g.nextStop < g.total) (id k : Nat) :
    g.strokes id (k + 1) = .stroke (some id) (g.slice g.nextStop) ::
      { g with cursor := g.nextStop }.strokes id k := by
  have hstop := nextStop_of_more hmore
  rw [strokes, List.range_succ_eq_map, List.map_cons, List.map_map, slice_nextStop]
  congr 1
  · simp
  · apply List.map_congr_left
    intro i _
    have hshift : ∀ m, g.cursor + (m + 1) * g.stride = g.nextStop + m * g.stride := by
      intro m
      rw [hstop, Nat.succ_mul]
      omega
    change Event.stroke (some id) (g.segments.extract (g.cursor + (i + 1) * g.stride)
      (g.cursor + (i + 1 + 1) * g.stride)) = .stroke (some id) (g.segments.extract
      (g.nextStop + i * g.stride) (g.nextStop + (i + 1) * g.stride))
    rw [hshift i, hshift (i + 1)]

end Growth

namespace Stage

/-- The seconds of all waits of the growth, in order. -/
def waitsOf (s : Stage σ) (id : Nat) : List Float := s.log.toList.filterMap (Event.secondsOf? id)

/-- The record tells of every growth when it waited. -/
structure Paced (s : Stage σ) : Prop where
  paced : ∀ (id : Nat) (g : Growth σ), s.growths[id]? = some g → g.Paced (s.waitsOf id)
  unborn : ∀ id, s.growths[id]? = none → s.waitsOf id = []

theorem paced_empty : (empty : Stage σ).Paced := by
  constructor
  · simp [empty]
  · simp [waitsOf, empty]

theorem waitsOf_record (s : Stage σ) (e : Event σ) (id : Nat) :
    (s.record e).waitsOf id = s.waitsOf id ++ (e.secondsOf? id).toList := by
  simp only [waitsOf, record, Array.toList_push, List.filterMap_append]
  cases h : e.secondsOf? id <;> simp [h]

theorem waitsOf_drawBatch (s : Stage σ) (k : Nat) (g : Growth σ) (id : Nat) :
    (s.drawBatch k g).waitsOf id = s.waitsOf id := by
  have hstroke := waitsOf_record { s with picture := s.picture.stroke (g.slice g.nextStop) }
    (.stroke (some k) (g.slice g.nextStop)) id
  exact hstroke.trans (List.append_nil _)

theorem live_drawBatch (s : Stage σ) (k : Nat) (g : Growth σ) : (s.drawBatch k g).live = s.live :=
  rfl

/-- Only a pause adds a wait, and to its own growth. -/
theorem waitsOf_of_move {s t : Stage σ} (h : Move s t) :
    (∀ id, t.waitsOf id = s.waitsOf id) ∨ ∃ (k : Nat) (g : Growth σ) (seconds : Float),
      s.CanDraw k g ∧ g.nextStop < g.total ∧ g.gap? = some seconds ∧
      t = (s.drawBatch k g).wait k seconds := by
  cases h with
  | clear =>
    left
    intro id
    have hclear := waitsOf_record { s with picture := Picture.blank } .clear id
    exact hclear.trans (List.append_nil _)
  | strokeAll segments =>
    left
    intro id
    have hstroke := waitsOf_record { s with picture := s.picture.stroke segments }
      (.stroke none segments) id
    exact hstroke.trans (List.append_nil _)
  | @draw k g hd _ => exact Or.inl (s.waitsOf_drawBatch k g)
  | @finish k g hd _ => exact Or.inl (s.waitsOf_drawBatch k g)
  | pause hd hmore hgap => exact Or.inr ⟨_, _, _, hd, hmore, hgap, rfl⟩
  | cancel _ => exact Or.inl fun _ => rfl
  | retire _ => exact Or.inl fun _ => rfl
  | detach _ _ _ => exact Or.inl fun _ => rfl
  | begin _ _ _ _ _ => exact Or.inl fun _ => rfl

theorem paced_of_move {s t : Stage σ} (hs : s.Sound) (h : s.Paced) (hmove : Move s t) :
    t.Paced := by
  -- a growth has waited before, or it is new
  have hbefore : ∀ {id : Nat} {g' : Growth σ}, t.growths[id]? = some g' →
      g'.Paced (s.waitsOf id) := by
    intro id g' hg'
    cases hg : s.growths[id]? with
    | none =>
      rw [h.unborn id hg]
      exact g'.paced_nil
    | some g =>
      obtain ⟨g₀, hg₀, hlater⟩ := later_of_move hs hmove hg
      obtain rfl := Option.some.inj (hg₀.symm.trans hg')
      exact (h.paced id g hg).later hlater
  have hunborn : ∀ {id : Nat}, t.growths[id]? = none → s.growths[id]? = none := by
    intro id hnone
    cases hg : s.growths[id]? with
    | none => rfl
    | some g =>
      obtain ⟨g₀, hg₀, -⟩ := later_of_move hs hmove hg
      cases hnone.symm.trans hg₀
  rcases waitsOf_of_move hmove with hsame | ⟨k, g, seconds, hd, hmore, hgap, rfl⟩
  · constructor
    · intro id g' hg'
      rw [hsame id]
      exact hbefore hg'
    · intro id hnone
      rw [hsame id]
      exact h.unborn id (hunborn hnone)
  · have hwaits : ∀ id, ((s.drawBatch k g).wait k seconds).waitsOf id =
        s.waitsOf id ++ if k = id then [seconds] else [] := by
      intro id
      rw [wait, waitsOf_record, waitsOf_drawBatch, Event.secondsOf?]
      split <;> rfl
    constructor
    · intro id g' hg'
      rw [hwaits id]
      by_cases hid : k = id
      · subst hid
        obtain rfl := Option.some.inj (hd.found_drawBatch.symm.trans hg')
        rw [if_pos rfl]
        exact (h.paced k g hd.found).pause hmore hgap
      · rw [if_neg hid, List.append_nil]
        exact hbefore hg'
    · intro id hnone
      have hid : k ≠ id := by
        rintro rfl
        cases hnone.symm.trans hd.found_drawBatch
      rw [hwaits id, if_neg hid, List.append_nil]
      exact h.unborn id (hunborn hnone)

theorem paced_of_moves {s t : Stage σ} (hs : s.Sound) (h : s.Paced) (hmoves : Moves s t) :
    t.Paced := by
  induction hmoves with
  | refl => exact h
  | tail hmoves hmove ih => exact paced_of_move (sound_of_moves hs hmoves) ih hmove

/-- What start makes of what it is given. -/
theorem growth_of_start {s t : Stage σ} {segments : Array σ} {batch delay : Numeric} {id : Nat}
    (h : s.start segments batch delay = (.ok id, t)) : ∃ n : Nat, 1 ≤ n ∧
      wholeBatch batch = .ok (n : Int) ∧
      t.growths[id]? = some (.new segments (.whole n) delay) := by
  rw [start] at h
  split at h
  · cases h
  · next hb =>
    split at h
    · cases h
    · dsimp only at h
      split at h
      · cases h
      · next n hn =>
        obtain ⟨hid, rfl⟩ := Prod.mk.inj h
        obtain rfl := Except.ok.inj hid
        have hpos := one_le_of_wholeBatch (Bool.eq_false_iff.2 hb) hn
        obtain ⟨k, rfl⟩ : ∃ k : Nat, n = k := ⟨n.toNat, by omega⟩
        refine ⟨k, by omega, hn, ?_⟩
        have hpush := growth_addDetached s.stop.clear segments (.whole k) delay
          s.stop.clear.growths.size
        rwa [if_pos rfl] at hpush

end Stage

namespace ScriptedStage

variable {onWait : Schedule (StageCommand σ)} {a : ScriptedStage σ} {id : Nat} {g : Growth σ}
  {tasks : List (StageTask σ)}

/-- Two steps of a run draw a batch, move the cursor behind it and begin to wait, unless it was the
last batch. -/
theorem step_step_of_canDraw (hquiet : a.onStroke = .quiet) (ht : a.tasks = .growing id :: tasks)
    (hd : a.stage.CanDraw id g) :
    (g.nextStop = g.total ∧ a.step.step = { a with
      stage := { a.stage.drawBatch id g with live := none }
      tasks := tasks
      reply := .growth id }) ∨
    (g.nextStop < g.total ∧ g.gap? = none ∧ a.step.step = { a with
      stage := a.stage.drawBatch id g
      tasks := []
      failure := some .delayTooLong }) ∨
    ∃ seconds, g.nextStop < g.total ∧ g.gap? = some seconds ∧ a.step.step =
      { a with stage := (a.stage.drawBatch id g).wait id seconds, tasks := tasks }.afterWait id := by
  have hstroke : a.step = { a with
      stage := a.stage.stroke (some id) (g.slice g.nextStop)
      tasks := .stroked id g.nextStop true :: tasks } := by
    rw [step, ht]
    dsimp only
    rw [openTick, Stage.openTick_of_canDraw hd]
    dsimp only
    rw [afterStroke_of_quiet (by exact hquiet)]
  have hclose : (a.stage.stroke (some id) (g.slice g.nextStop)).closeTick id g.nextStop =
      a.stage.tick id := by
    rw [Stage.tick, Stage.openTick_of_canDraw hd]
  have hgrowth : ((a.stage.drawBatch id g).growths[id]?).bind Growth.gap? = g.gap? := by
    rw [hd.found_drawBatch]
    rfl
  rw [hstroke, step]
  dsimp only
  rw [closeTick]
  dsimp only
  rw [hclose]
  rcases Stage.tick_of_canDraw hd with ⟨hmore, htick⟩ | ⟨hlast, htick⟩
  · rw [htick]
    dsimp only
    rw [if_pos rfl, hgrowth]
    cases hgap : g.gap? with
    | none => exact Or.inr (Or.inl ⟨hmore, rfl, rfl⟩)
    | some seconds => exact Or.inr (Or.inr ⟨seconds, hmore, rfl, rfl⟩)
  · rw [htick]
    exact Or.inl ⟨hlast, rfl⟩

/-- A run in whose waits nothing happens makes all the strokes that are left, with one wait between
any two of them. -/
theorem iterate_step_of_quiet {k : Nat} {seconds : Float} (hquiet : a.onStroke = .quiet)
    (ht : a.tasks = .growing id :: tasks) (hd : a.stage.CanDraw id g)
    (hk : g.batchesLeft = k + 1) (hgap : k = 0 ∨ g.gap? = some seconds)
    (hwaits : a.onWait.QuietFor k) : ∃ s : Stage σ,
      step^[2 * (k + 1)] a = { a with
        stage := s
        onWait := a.onWait.later k
        tasks := tasks
        reply := .growth id } ∧
      s.log.toList = a.stage.log.toList ++ (g.strokes id (k + 1)).intersperse (.wait id seconds) ∧
      s.growths = a.stage.growths.modify id (fun g' => { g' with cursor := g.total }) ∧
      s.live = none := by
  induction k generalizing a g with
  | zero =>
    have hlast : g.nextStop = g.total := Growth.batchesLeft_eq_one_iff.1 hk
    obtain ⟨-, hstep⟩ | ⟨hmore, -⟩ | ⟨_, hmore, -⟩ := step_step_of_canDraw hquiet ht hd
    · refine ⟨{ a.stage.drawBatch id g with live := none }, hstep, ?_, ?_, rfl⟩
      · rw [Growth.strokes_one]
        exact Array.toList_push
      · rw [← hlast]
        rfl
    · omega
    · omega
  | succ k ih =>
    have hgap : g.gap? = some seconds := hgap.resolve_left (by omega)
    obtain ⟨hlast, -⟩ | ⟨-, hnone, -⟩ | ⟨seconds', hmore, hsome, hstep⟩ :=
      step_step_of_canDraw hquiet ht hd
    · have hone := Growth.batchesLeft_of_last hlast
      omega
    · cases hnone.symm.trans hgap
    · obtain rfl := Option.some.inj (hsome.symm.trans hgap)
      have hleft := Growth.batchesLeft_of_more hmore
      have hwaited : a.step.step = { a with
          stage := (a.stage.drawBatch id g).wait id seconds'
          onWait := a.onWait.next.2
          tasks := .growing id :: tasks } := by
        rw [hstep, afterWait, hwaits.1]
        rfl
      have hd' : a.step.step.stage.CanDraw id { g with cursor := g.nextStop } := by
        rw [hwaited]
        exact ⟨hd.live, hd.found_drawBatch, hd.cancelled⟩
      obtain ⟨s, hs, hlog, hgrowths, hlive⟩ := ih (a := a.step.step)
        (g := { g with cursor := g.nextStop }) (by rw [hwaited]; exact hquiet) (by rw [hwaited]) hd'
        (by omega) (Or.inr hgap) (by rw [hwaited]; exact hwaits.2)
      refine ⟨s, ?_, ?_, ?_, hlive⟩
      · rw [Nat.mul_succ, Function.iterate_add_apply]
        refine hs.trans ?_
        rw [hwaited]
        rfl
      · have hlength : ({ g with cursor := g.nextStop }.strokes id (k + 1)).length = k + 1 := by
          simp [Growth.strokes]
        obtain ⟨e, rest, hrest⟩ := List.exists_of_length_succ _ hlength
        rw [hlog, hwaited, Growth.strokes_succ hmore, hrest, List.intersperse_cons_cons]
        simp [Stage.wait, Stage.drawBatch, Stage.stroke, Stage.record]
      · rw [hgrowths, hwaited]
        exact a.stage.modify_drawBatch id g

theorem step_run {rest : List (StageCommand σ)} (ht : a.tasks = .commands (.run id) rest :: tasks) :
    a.step = { a with tasks := .growing id :: withCommands rest tasks } := by
  rw [step, ht]
  rfl

/-- A run that cannot wait fails after its first stroke. -/
theorem iterate_step_of_stuck {rest : List (StageCommand σ)} (hquiet : a.onStroke = .quiet)
    (ht : a.tasks = .commands (.run id) rest :: tasks) (hd : a.stage.CanDraw id g)
    (hmore : 1 < g.batchesLeft) (hgap : g.gap? = none) :
    g.nextStop < g.total ∧ step^[3] a = { a with
      stage := a.stage.drawBatch id g
      tasks := []
      failure := some .delayTooLong } := by
  have hrun := step_run ht
  obtain ⟨hlast, -⟩ | ⟨hmore, -, hstep⟩ | ⟨_, -, hsome, -⟩ := step_step_of_canDraw (a := a.step)
    (by rw [hrun]; exact hquiet) (by rw [hrun]) (by rw [hrun]; exact hd)
  · have hone := Growth.batchesLeft_of_last hlast
    omega
  · refine ⟨hmore, ?_⟩
    rw [Function.iterate_succ_apply]
    refine hstep.trans ?_
    rw [hrun]
  · cases hgap.symm.trans hsome

theorem exists_iterate_settle (a : ScriptedStage σ) : ∃ n, step^[n] a = a.settle := by
  induction a using settle.induct with
  | case1 a h => exact ⟨0, by rw [settle, dif_pos h, Function.iterate_zero_apply]⟩
  | case2 a h ih =>
    obtain ⟨n, hn⟩ := ih
    exact ⟨n + 1, by rw [settle, dif_neg h, Function.iterate_succ_apply, hn]⟩

theorem Reached.paced (h : Reached onWait a) (hc : a.Calm) : a.stage.Paced :=
  Stage.paced_of_moves Stage.sound_empty Stage.paced_empty (h.ready hc).moves

/-- Between two elementary steps, whatever has happened before and however it was nested:

* what is still to be done, with all that is scripted, comes to an end;
* a growth that a start returns has, at any later time and in all its runs together, waited less
  often than its segments fill batches, and each time for a frame and its delay;
* a run of a growth that may draw, in whose waits nothing happens, makes one stroke for each batch
  that is left, with one wait between any two of them, and then the growth is done and released. If
  it would have to wait for a delay that exceeds every double, it fails after one stroke. -/
theorem ends_in_counted_frames (ha : Reached onWait a) (hcalm : a.Calm) :
    (∀ c, ∃ n, (step^[n] (a.begun c)).tasks = [] ∧ (a.begun c).settle = step^[n] (a.begun c) ∧
      (a.tasks = [] → a.command c = step^[n] (a.begun c))) ∧
    (∀ (segments : Array σ) (batch delay : Numeric) (rest : List (StageCommand σ))
      (tasks : List (StageTask σ)) (id : Nat) (t : Stage σ) (b : ScriptedStage σ),
      (a.tasks = .commands (.start segments batch delay) rest :: tasks ∨
        a.tasks = .commands (.grow segments batch delay) rest :: tasks) →
      a.stage.start segments batch delay = (.ok id, t) → Turns a.step b → b.Calm →
      ∃ (n : Nat) (g : Growth σ), 1 ≤ n ∧ Stage.wholeBatch batch = .ok (n : Int) ∧
        b.stage.growths[id]? = some g ∧ g.segments = segments ∧ g.batch = .whole n ∧
        (b.stage.waitsOf id).length ≤ max 1 (segments.size ⌈/⌉ n) - 1 ∧
        ∀ seconds ∈ b.stage.waitsOf id,
          (delay.positive = true ∧ ∃ x, delay.toFloat? = some x ∧ seconds = x + frameInterval) ∨
            (delay.positive = false ∧ seconds = frameInterval)) ∧
    (∀ (id : Nat) (g : Growth σ) (rest : List (StageCommand σ)) (tasks : List (StageTask σ)),
      a.stage.CanDraw id g → a.tasks = .commands (.run id) rest :: tasks →
      ∃ n : Nat, 1 ≤ n ∧ g.batch = .whole n ∧ ∀ k, k = max 1 ((g.total - g.cursor) ⌈/⌉ n) →
        a.onWait.QuietFor (k - 1) →
        (∀ seconds, k = 1 ∨ g.gap? = some seconds → ∃ s : Stage σ,
          step^[2 * k + 1] a = { a with
            stage := s
            onWait := a.onWait.later (k - 1)
            tasks := withCommands rest tasks
            reply := .growth id } ∧
          s.log.toList = a.stage.log.toList ++ (g.strokes id k).intersperse (.wait id seconds) ∧
          s.growths[id]? = some { g with cursor := g.total } ∧ s.live = none) ∧
        (1 < k → g.gap? = none → ∃ s : Stage σ,
          step^[3] a = { a with stage := s, tasks := [], failure := some .delayTooLong } ∧
          s.log.toList = a.stage.log.toList ++ g.strokes id 1 ∧
          s.growths[id]? = some { g with cursor := g.nextStop } ∧ g.nextStop < g.total ∧
          s.live = some id)) := by
  refine ⟨?_, ?_, ?_⟩
  · intro c
    obtain ⟨n, hn⟩ := exists_iterate_settle (a.begun c)
    refine ⟨n, ?_, hn.symm, ?_⟩
    · rw [hn]
      exact tasks_settle _
    · intro ht
      rw [hn, command, begun, ht]
  · intro segments batch delay rest tasks id t b htasks ht hturns hb
    obtain ⟨hnext, hstage⟩ := ha.step_of_start hcalm htasks ht
    obtain ⟨n, hn, hwhole, hg₀⟩ := Stage.growth_of_start ht
    rw [← hstage] at hg₀
    have hreached : Reached onWait a.step := .tail ha (.step a)
    obtain ⟨g, hg, hlater⟩ := Stage.later_of_moves (hreached.sound hnext)
      (hreached.moves hnext hturns hb) hg₀
    have hbatch : g.batch = .whole n := hlater.batch_eq
    have hpaced := (Reached.paced (hreached.trans hturns) hb).paced id g hg
    have hlength := hpaced.length_le
    rw [g.stride_of_whole hbatch hn, hlater.total_eq] at hlength
    refine ⟨n, g, hn, hwhole, hg, hlater.segments_eq, hbatch, hlength, ?_⟩
    intro seconds hmem
    have hgap := Growth.gap?_eq_some_iff.1 (hpaced.gap seconds hmem)
    rw [hlater.delay_eq] at hgap
    exact hgap
  · intro id g rest tasks hd ht
    have hexact := Stage.exact_of_moves Stage.sound_empty Stage.exact_empty (ha.ready hcalm).moves
    obtain ⟨⟨n, hn, hbatch⟩, -⟩ := hexact.live id g hd.live hd.found
    refine ⟨n, hn, hbatch, ?_⟩
    intro k hk hwaits
    have hquiet := (ha.ready hcalm).quiet
    have hleft : g.batchesLeft = k := by
      rw [hk, Growth.batchesLeft, g.stride_of_whole hbatch hn]
    have hrun := step_run ht
    constructor
    · intro seconds hgap
      obtain ⟨s, hs, hlog, hgrowths, hlive⟩ := iterate_step_of_quiet (a := a.step) (k := k - 1)
        (by rw [hrun]; exact hquiet) (by rw [hrun]) (by rw [hrun]; exact hd) (by omega)
        (hgap.imp_left (by omega)) (by rw [hrun]; exact hwaits)
      have hpred : k - 1 + 1 = k := by omega
      rw [hpred] at hs hlog
      refine ⟨s, ?_, ?_, ?_, hlive⟩
      · rw [Function.iterate_succ_apply, hs, hrun]
      · rw [hlog, hrun]
      · rw [hgrowths, hrun, Array.getElem?_modify, if_pos rfl, hd.found]
        rfl
    · intro hmore hgap
      obtain ⟨hshort, hs⟩ := iterate_step_of_stuck hquiet ht hd (by omega) hgap
      refine ⟨a.stage.drawBatch id g, hs, ?_, hd.found_drawBatch, hshort, hd.live⟩
      rw [Growth.strokes_one]
      exact Array.toList_push

/-- On a new stage a growth was started and is about to be run. -/
def runStarted (segments : Array σ) (batch delay : Numeric) : ScriptedStage σ :=
  ((new .quiet .quiet).begun (.start segments batch delay)).step.begun (.run 0)

theorem reached_runStarted (segments : Array σ) (batch delay : Numeric) :
    Reached .quiet (runStarted segments batch delay) ∧ (runStarted segments batch delay).Calm := by
  have hnone : ((new .quiet .quiet).begun (.start segments batch delay)).step.tasks = [] := by
    change (started { new .quiet .quiet with } (Stage.empty.start segments batch delay)
      false).tasks = []
    rcases Stage.empty.start segments batch delay with ⟨_ | _, _⟩
    · rfl
    · rfl
  have hcalm : ((new .quiet .quiet).begun (.start segments batch delay)).step.Calm := by
    simp [Calm, hnone]
  constructor
  · exact .tail (.tail (.single (.begin _ _ (by simp [Calm, new]))) (.step _)) (.begin _ _ hcalm)
  · rintro task hmem
    rcases List.mem_cons.1 hmem with rfl | hmem
    · rfl
    · exact hcalm task hmem

/-- Five segments, two at a time, take two waits: at most, when the growth is run again in its own
waits, and exactly, when nothing happens in them. -/
theorem five_segments_take_two_waits : ∃ a b c : ScriptedStage Nat,
    Reached (.ofNumbered [(1, [.run 0]), (2, [.tick 0])]) a ∧ a.Calm ∧ Turns a.step b ∧ b.Calm ∧
      b.stage.slices 0 = [#[0, 1], #[2, 3], #[4]] ∧ (b.stage.waitsOf 0).length ≤ 2 ∧
      Reached .quiet c ∧ c.Calm ∧ (step^[7] c).tasks = [] ∧ (step^[7] c).stage.live = none ∧
      (step^[7] c).stage.log.toList =
        [.clear, .stroke (some 0) #[0, 1], .wait 0 frameInterval, .stroke (some 0) #[2, 3],
          .wait 0 frameInterval, .stroke (some 0) #[4]] := by
  have ha := reached_growFive runAgain 0
  have hcalm : (step^[0] (growFive runAgain)).Calm := by
    unfold Calm
    decide +kernel
  have hturns : Turns (step^[0] (growFive runAgain)).step (step^[10] (growFive runAgain)) :=
    turns_iterate _ 9
  have hend : (step^[10] (growFive runAgain)).Calm := by
    unfold Calm
    decide +kernel
  obtain ⟨n, g, -, hn, -, -, -, hwaits, -⟩ := (ends_in_counted_frames ha hcalm).2.1
    #[0, 1, 2, 3, 4] (.whole 2) (.whole 0) [] [] 0 _ _ (Or.inr rfl) rfl hturns hend
  obtain rfl : n = 2 := Int.ofNat.inj (Except.ok.inj hn).symm
  obtain ⟨hc, hcalm'⟩ := reached_runStarted #[0, 1, 2, 3, 4] (.whole 2) (.whole 0)
  obtain ⟨m, -, hm, hrun⟩ := (ends_in_counted_frames hc hcalm').2.2 0
    ⟨#[0, 1, 2, 3, 4], .whole 2, .whole 0, 0, false⟩ [] [] ⟨rfl, rfl, rfl⟩ rfl
  obtain rfl : m = 2 := Int.ofNat.inj (Numeric.whole.inj hm).symm
  obtain ⟨s, hs, hlog, -, hlive⟩ := (hrun 3 (by decide +kernel)
    (Schedule.quietFor_quiet 2)).1 frameInterval (Or.inr rfl)
  refine ⟨_, _, _, ha, hcalm, hturns, hend, by decide +kernel, hwaits, hc, hcalm', ?_, ?_, ?_⟩
  · rw [hs]
    rfl
  · rw [hs]
    exact hlive
  · rw [hs]
    exact hlog

theorem canDraw_runStarted (segments : Array σ) {n : Nat} {delay : Numeric} (hn : 1 ≤ n)
    (hdelay : delay.below 0 = false) :
    (runStarted segments (.whole n) delay).stage.CanDraw 0 ⟨segments, .whole n, delay, 0, false⟩ ∧
      (runStarted segments (.whole n) delay).tasks = [.commands (.run 0) []] ∧
      (runStarted segments (.whole n) delay).stage.log = #[.clear] := by
  have hwhole : (Numeric.whole n).int? = some (n : Int) := rfl
  have hstart := Stage.start_of_whole hwhole hn hdelay Stage.empty segments
  have hstep : ((new .quiet .quiet).begun (.start segments (.whole n) delay)).step =
      { new .quiet .quiet with
        stage := { Stage.empty.stop.clear.addDetached segments (.whole n) delay with
          live := some 0 }
        reply := .growth 0 } := by
    change started { new .quiet .quiet with } (Stage.empty.start segments (.whole n) delay) false = _
    rw [hstart]
    rfl
  rw [runStarted, hstep]
  exact ⟨⟨rfl, rfl, rfl⟩, rfl, rfl⟩

/-- With a delay that exceeds every double a growth of two segments is run. It draws the first one
and fails; it has not waited and is still live. -/
theorem endless_delay_stops_short : ∃ (a : ScriptedStage Nat) (g : Growth Nat),
    Reached .quiet a ∧ a.Calm ∧ a.tasks = [.commands (.run 0) []] ∧ a.stage.CanDraw 0 g ∧
      g.batch = .whole 1 ∧ g.delay = .whole (Nat.pow 10 400) ∧ g.total = 2 ∧ g.cursor = 0 ∧
      a.settle.failure = some .delayTooLong ∧ a.settle.stage.slices 0 = [#[0]] ∧
      a.settle.stage.waitsOf 0 = [] ∧ a.settle.stage.live = some 0 := by
  obtain ⟨ha, hcalm⟩ := reached_runStarted #[0, 1] (.whole (1 : Nat)) (.whole (Nat.pow 10 400))
  have hdelay : (Numeric.whole (Nat.pow 10 400)).below 0 = false := by decide +kernel
  obtain ⟨hd, ht, hlog⟩ := canDraw_runStarted #[0, 1] (Nat.le_refl 1) hdelay
  have hgap : (⟨#[0, 1], .whole (1 : Nat), .whole (Nat.pow 10 400), 0, false⟩ :
      Growth Nat).gap? = none := by
    apply Option.isNone_iff_eq_none.1
    decide +kernel
  have hmore : 1 < (⟨#[0, 1], .whole (1 : Nat), .whole (Nat.pow 10 400), 0, false⟩ :
      Growth Nat).batchesLeft := by
    rw [Growth.batchesLeft, Growth.stride_of_whole rfl (Nat.le_refl 1)]
    change 1 < max 1 ((2 - 0) ⌈/⌉ 1)
    decide
  obtain ⟨-, hstuck⟩ := iterate_step_of_stuck (ha.ready hcalm).quiet ht hd hmore hgap
  refine ⟨_, _, ha, hcalm, ht, hd, rfl, rfl, rfl, rfl, ?_⟩
  rw [settle_eq_iterate (n := 3) (by rw [hstuck]), hstuck]
  refine ⟨rfl, ?_, ?_, ?_⟩
  · rw [Stage.slices_drawBatch, Stage.slices, hlog]
    rfl
  · rw [Stage.waitsOf_drawBatch, Stage.waitsOf, hlog]
    rfl
  · rw [Stage.live_drawBatch]
    exact hd.live

end ScriptedStage

end Lindenmayer
