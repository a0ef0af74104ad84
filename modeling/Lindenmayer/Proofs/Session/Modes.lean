import Lindenmayer.Proofs.Session.Picture

/-!
# Growing and rendering

To grow and to render from the same state come to the same picture, in a run whose waits are quiet.
A growth lays the segments of the drawing batch by batch, so its strokes are what rendering draws in
one stroke, cut into pieces of the batch size. The only growth that does not get there is one whose
delay exceeds every double: it breaks off at its first wait.
-/
namespace Lindenmayer

variable {σ : Type}

/-- Strokes of `n` segments each, the last of which takes what is left. -/
inductive Batched (n : Nat) : List σ → List (Array σ) → Prop
  | none : Batched n [] []
  | last {segments : List σ} (hne : segments ≠ []) (hle : segments.length ≤ n) :
      Batched n segments [segments.toArray]
  | next {segments : List σ} {strokes : List (Array σ)} (hlt : n < segments.length)
      (h : Batched n (segments.drop n) strokes) :
      Batched n segments ((segments.take n).toArray :: strokes)

theorem Batched.joined {n : Nat} {segments : List σ} {strokes : List (Array σ)}
    (h : Batched n segments strokes) : strokes.flatMap Array.toList = segments := by
  induction h with
  | none => rfl
  | last _ _ => simp
  | next _ _ ih => rw [List.flatMap_cons, ih, List.take_append_drop]

/-- How the strokes of a growth go on record, with a wait between any two of them. If nothing is left
to draw, an empty stroke does. -/
def Event.row (id : Nat) (seconds : Float) : List (Array σ) → List (Event σ)
  | [] => [.stroke (some id) #[]]
  | strokes => (strokes.map (.stroke (some id))).intersperse (.wait id seconds)

theorem Event.row_singleton (id : Nat) (seconds : Float) (stroke : Array σ) :
    row id seconds [stroke] = [.stroke (some id) stroke] := rfl

theorem Event.row_cons {strokes : List (Array σ)} (h : strokes ≠ []) (id : Nat) (seconds : Float)
    (stroke : Array σ) : row id seconds (stroke :: strokes) =
      .stroke (some id) stroke :: .wait id seconds :: row id seconds strokes := by
  cases strokes with
  | nil => exact absurd rfl h
  | cons next rest => exact List.intersperse_cons_cons

theorem Batched.ne_nil {n : Nat} {segments : List σ} {strokes : List (Array σ)}
    (h : Batched n segments strokes) (hne : segments ≠ []) : strokes ≠ [] := by
  cases h with
  | none => exact absurd rfl hne
  | last _ _ => exact List.cons_ne_nil _ _
  | next _ _ => exact List.cons_ne_nil _ _

/-- A growth that cannot wait has a delay that exceeds every double. -/
theorem Growth.toFloat?_of_gap? {g : Growth σ} (h : g.gap? = none) : g.delay.toFloat? = none := by
  rw [gap?] at h
  split at h
  · exact Option.map_eq_none_iff.1 h
  · cases h

/-- A growth whose next batch is its last draws it as the one stroke that is left, if any is. -/
theorem Growth.batched_last {g : Growth σ} {n : Nat} (hbatch : g.batch = .whole n) (hn : 1 ≤ n)
    (hlast : g.nextStop = g.total) (p : Picture σ) :
    ∃ strokes, Batched n (g.segments.toList.drop g.cursor) strokes ∧
      p.stroke (g.slice g.nextStop) = ⟨p.strokes ++ strokes.toArray⟩ ∧
      ∀ id seconds, Event.row id seconds strokes = [.stroke (some id) (g.slice g.nextStop)] := by
  have hstride := g.stride_of_whole hbatch hn
  have hslice : (g.slice g.nextStop).toList = g.segments.toList.drop g.cursor := by
    rw [slice, hlast, total, Array.toList_extract, List.extract_eq_take_drop,
      List.take_of_length_le (by simp)]
  by_cases hempty : g.segments.toList.drop g.cursor = []
  · have hnothing : g.slice g.nextStop = #[] := by
      rw [← Array.toList_eq_nil_iff, hslice, hempty]
    refine ⟨[], hempty ▸ .none, ?_, ?_⟩
    · rw [hnothing]
      exact congrArg Picture.mk Array.append_empty.symm
    · intro id seconds
      rw [hnothing]
      rfl
  · have hlength : (g.segments.toList.drop g.cursor).length ≤ n := by
      rw [List.length_drop, Array.length_toList]
      rw [nextStop, hstride, total] at hlast
      omega
    have hsomething : ¬ (g.slice g.nextStop).isEmpty = true := by
      rw [← Array.isEmpty_toList, hslice, List.isEmpty_iff]
      exact hempty
    refine ⟨_, .last hempty hlength, ?_, ?_⟩
    · rw [Picture.stroke, if_neg hsomething, ← hslice, Array.toArray_toList, Array.push_eq_append]
    · intro id seconds
      rw [Event.row_singleton, ← hslice, Array.toArray_toList]

/-- Any other batch is a whole one, and what is left after it is drawn next. -/
theorem Growth.batched_next {g : Growth σ} {n : Nat} (hbatch : g.batch = .whole n) (hn : 1 ≤ n)
    (hmore : g.nextStop < g.total) {strokes : List (Array σ)}
    (h : Batched n (g.segments.toList.drop g.nextStop) strokes) (p : Picture σ) :
    Batched n (g.segments.toList.drop g.cursor) (g.slice g.nextStop :: strokes) ∧
      (p.stroke (g.slice g.nextStop)).strokes ++ strokes.toArray =
        p.strokes ++ (g.slice g.nextStop :: strokes).toArray := by
  have hstride := g.stride_of_whole hbatch hn
  have hstop : g.nextStop = g.cursor + n := by
    rw [nextStop, hstride] at hmore ⊢
    omega
  have hslice : g.slice g.nextStop = ((g.segments.toList.drop g.cursor).take n).toArray := by
    rw [← @Array.toArray_toList _ (g.slice g.nextStop), slice, hstop, Array.toList_extract,
      List.extract_eq_take_drop, Nat.add_sub_cancel_left]
  have hlength : n < (g.segments.toList.drop g.cursor).length := by
    rw [total] at hmore
    rw [List.length_drop, Array.length_toList]
    omega
  have hsomething : ¬ (g.slice g.nextStop).isEmpty = true := by
    have hsize := g.size_slice
    rw [Array.isEmpty_iff_size_eq_zero]
    omega
  constructor
  · rw [hslice]
    refine .next hlength ?_
    rw [List.drop_drop, ← hstop]
    exact h
  · rw [Picture.stroke, if_neg hsomething]
    simp

theorem Stage.modify_addDetached (s : Stage σ) (segments : Array σ) (batch delay : Numeric)
    (f : Growth σ → Growth σ) :
    (s.addDetached segments batch delay).growths.modify s.growths.size f =
      s.growths.push (f (.new segments batch delay)) := by
  apply Array.ext_getElem?
  intro k
  rw [Array.getElem?_modify, growth_addDetached, Array.getElem?_push]
  by_cases hk : k = s.growths.size
  · simp [hk]
  · rw [if_neg (Ne.symm hk), if_neg hk, if_neg hk]

namespace Session

/-- A growth that has drawn its last batch has grown. -/
theorem endGrowth_of_last {s : Session} {id : Nat} {g : Growth Segment}
    (hd : s.stage.CanDraw id g) (hlast : g.nextStop = g.total) :
    ({ s with stage := { s.stage.drawBatch id g with live := none } } : Session).endGrowth id =
      { s with
        stage := { s.stage.drawBatch id g with live := none }
        status := ⟨"Grown.".toList, false⟩
        printed := s.printed.push "Grown.".toList
        phase := .choosing (some id) } := by
  have hgrown : ({ s.stage.drawBatch id g with live := none } : Stage Segment).hasGrown id =
      true := by
    rw [Stage.hasGrown, hd.found_drawBatch, Bool.and_eq_true, hd.cancelled]
    exact ⟨decide_eq_true (Nat.le_of_eq hlast.symm), rfl⟩
  rw [endGrowth, if_pos hgrown, setStatus_eq]
  rfl

theorem tick_of_more {s : Session} {id : Nat} {g : Growth Segment} {seconds : Float}
    (hd : s.stage.CanDraw id g) (hmore : g.nextStop < g.total) (hgap : g.gap? = some seconds) :
    s.tick id = { s with
      stage := (s.stage.drawBatch id g).wait id seconds
      onWait := s.onWait.next.2
      phase := .waiting id s.onWait.next.1 } := by
  obtain ⟨hlast, -⟩ | ⟨seconds', -, hsome, htick⟩ | ⟨-, hnone, -⟩ := tick_of_canDraw hd
  · omega
  · obtain rfl := Option.some.inj (hsome.symm.trans hgap)
    exact htick
  · cases hnone.symm.trans hgap

/-! Where the next batch of a growth leads. -/

section Growing

variable {s : Session} {id : Nat} {g : Growth Segment} (hphase : s.phase = .growing id)
  (hpending : s.pending = none) (hquiet : s.onWait = .quiet) (hd : s.stage.CanDraw id g)
include hphase hd

include hpending in
/-- After the last one the session rests. -/
theorem settle_of_last (hlast : g.nextStop = g.total) : s.settle = { s with
    stage := { s.stage.drawBatch id g with live := none }
    status := ⟨"Grown.".toList, false⟩
    printed := s.printed.push "Grown.".toList
    phase := .idle
    reply := some id } := by
  have hrunning : s.isRunning = true := by simp [isRunning, hphase]
  rw [settle_of_running hrunning, step_of_growing hphase]
  obtain ⟨-, htick⟩ | ⟨_, hmore, -⟩ | ⟨hmore, -⟩ := tick_of_canDraw hd
  · rw [htick, endGrowth_of_last hd hlast]
    refine (settle_of_not_pending (by rfl) ?_).trans rfl
    exact hpending
  · omega
  · omega

include hquiet in
/-- After any other one it waits, and goes on if nothing is done meanwhile. -/
theorem settle_of_more {seconds : Float} (hmore : g.nextStop < g.total)
    (hgap : g.gap? = some seconds) : s.settle = { s with
      stage := (s.stage.drawBatch id g).wait id seconds
      phase := .growing id }.settle := by
  have hrunning : s.isRunning = true := by simp [isRunning, hphase]
  have hnext : s.onWait.next = ([], s.onWait) := by
    rw [hquiet]
    rfl
  rw [settle_of_running hrunning, step_of_growing hphase, tick_of_more hd hmore hgap, hnext,
    settle_of_running rfl]
  rfl

/-- If the delay is too long to wait for, that is the end of the session. -/
theorem settle_of_gapless (hmore : g.nextStop < g.total) (hgap : g.gap? = none) :
    s.settle = { s with stage := s.stage.drawBatch id g }.fail (.growth .delayTooLong) := by
  have hrunning : s.isRunning = true := by simp [isRunning, hphase]
  rw [settle_of_running hrunning, step_of_growing hphase]
  obtain ⟨hlast, -⟩ | ⟨seconds, -, hsome, -⟩ | ⟨-, -, htick⟩ := tick_of_canDraw hd
  · omega
  · cases hsome.symm.trans hgap
  · rw [htick, settle_of_idle rfl]

include hpending hquiet

/-- A growth in whose waits nothing is done draws all that is left, in batches, with one wait between
any two of them. -/
theorem settle_of_canDraw {n : Nat} (hn : 1 ≤ n) (hbatch : g.batch = .whole n)
    (hgap : g.nextStop < g.total → g.gap? ≠ none) :
    ∃ strokes log, Batched n (g.segments.toList.drop g.cursor) strokes ∧
      (∀ seconds, g.gap? = some seconds →
        log.toList = s.stage.log.toList ++ Event.row id seconds strokes) ∧
      s.settle = { s with
        stage := {
          picture := ⟨s.stage.picture.strokes ++ strokes.toArray⟩
          growths := s.stage.growths.modify id fun g' => { g' with cursor := g.total }
          live := none
          log := log }
        status := ⟨"Grown.".toList, false⟩
        printed := s.printed.push "Grown.".toList
        phase := .idle
        reply := some id } := by
  -- the induction is on what the growth has yet to draw
  induction hleft : g.total - g.cursor using Nat.strongRecOn generalizing s g with
  | _ left ih =>
    rcases Nat.lt_or_eq_of_le g.nextStop_le_total with hmore | hlast
    · obtain ⟨seconds, hseconds⟩ := Option.ne_none_iff_exists'.1 (hgap hmore)
      have hless : g.total - g.nextStop < left := by
        have hcursor := Growth.cursor_lt_nextStop hmore
        omega
      obtain ⟨strokes, log, hstrokes, hlog, hsettle⟩ := ih _ hless
        (g := { g with cursor := g.nextStop })
        (s := { s with stage := (s.stage.drawBatch id g).wait id seconds, phase := .growing id })
        rfl hpending hquiet ⟨hd.live, hd.found_drawBatch, hd.cancelled⟩ hbatch
        (fun _ => hgap hmore) rfl
      obtain ⟨hbatched, hpicture⟩ := g.batched_next hbatch hn hmore hstrokes s.stage.picture
      have hgrowths := s.stage.modify_drawBatch id g
      refine ⟨_, log, hbatched, ?_, ?_⟩
      · intro seconds' hseconds'
        obtain rfl := Option.some.inj (hseconds.symm.trans hseconds')
        have hrest : g.segments.toList.drop g.nextStop ≠ [] := by
          intro hnone
          rw [List.drop_eq_nil_iff, Array.length_toList] at hnone
          exact absurd hmore (Nat.not_lt.2 hnone)
        rw [hlog seconds hseconds, Event.row_cons (hstrokes.ne_nil hrest)]
        simp [Stage.wait, Stage.drawBatch, Stage.stroke, Stage.record]
      · rw [settle_of_more hphase hquiet hd hmore hseconds, hsettle, ← hpicture, ← hgrowths]
        rfl
    · obtain ⟨strokes, hstrokes, hpicture, hrow⟩ :=
        g.batched_last hbatch hn hlast s.stage.picture
      refine ⟨strokes, (s.stage.drawBatch id g).log, hstrokes, ?_, ?_⟩
      · intro seconds _
        rw [hrow]
        exact Array.toList_push
      · rw [settle_of_last hphase hpending hd hlast, ← hpicture, ← hlast]
        rfl

end Growing

/-! The two modes from one state. -/

/-- The session has rendered the segments. -/
structure Rendered (segments : Array Segment) (stats : Stats) (s : Session) : Prop where
  failure : s.failure = none
  reply : s.reply = none
  lastSegments : s.lastSegments = some segments
  lastMode : s.lastMode = .render
  counted : s.stage.picture.segmentCount = stats.segmentCount
  stats : s.stats = some stats
  status : s.status = ⟨rendered, false⟩
  pending : s.pending = none
  live : s.stage.live = none
  picture : s.stage.picture = Picture.blank.stroke segments
  shown : s.stage.picture.segments = segments.toList

/-- The first session has grown what the second has rendered. They differ in the mode, the status
and what was printed of it, in how the picture is divided into strokes, in what is on the record of
the stage, and in a growth, which has drawn everything and is the answer of the first. -/
def GrownAs (n : Nat) (segments : Array Segment) (t r : Session) : Prop :=
  ∃ (strokes : List (Array Segment)) (growth : Growth Segment) (log : Array (Event Segment))
    (lines : Array (List Char)),
    Batched n segments.toList strokes ∧ growth.segments = segments ∧ growth.batch = .whole n ∧
      growth.cursor = growth.total ∧ growth.cancelled = false ∧
      r.printed = lines.push rendered ∧
      t = { r with
        lastMode := .grow
        status := ⟨"Grown.".toList, false⟩
        printed := (lines.push "Growing...".toList).push "Grown.".toList
        stage := {
          picture := ⟨strokes.toArray⟩
          growths := r.stage.growths.push growth
          live := none
          log := log }
        reply := some r.stage.growths.size }

theorem GrownAs.shown {n : Nat} {segments : Array Segment} {t r : Session}
    (h : GrownAs n segments t r) : t.stage.picture.segments = segments.toList := by
  obtain ⟨strokes, _, _, _, hstrokes, _, _, _, _, _, rfl⟩ := h
  exact hstrokes.joined

/-- A session `s` has come to `t` by growing and to `r` by rendering: they end in the same way, with
nothing drawn or with the same drawing. -/
inductive SameDrawing (n : Nat) (s t r : Session) : Prop
  | reports (hsame : t = r) (hok : r.failure = none) (hreply : r.reply = none)
      (herror : r.status.isError = true) (hpicture : r.stage.picture = s.stage.picture)
  | fails (hsame : t = r) (hfailure : r.failure ≠ none)
  | draws {segments : Array Segment} {stats : Stats} (hr : Rendered segments stats r)
      (ht : GrownAs n segments t r) (hshown : t.stage.picture.segments = segments.toList)
      (hcounted : t.stage.picture.segmentCount = stats.segmentCount)

theorem SameDrawing.failure_eq {n : Nat} {s t r : Session} (h : SameDrawing n s t r) :
    t.failure = r.failure := by
  cases h with
  | reports hsame _ _ _ _ => rw [hsame]
  | fails hsame _ => rw [hsame]
  | draws _ hgrown _ _ =>
    obtain ⟨_, _, _, _, _, _, _, _, _, _, rfl⟩ := hgrown
    rfl

/-- The second session has rendered more than one batch; the first, which was to grow it, has drawn
the first batch and broken off at the wait. -/
def BreaksOff (n : Nat) (t r : Session) : Prop :=
  ∃ segments stats, Rendered segments stats r ∧ n < segments.size ∧
    t.lastSegments = some segments ∧ t.stats = some stats ∧
    t.stage.picture.segments = segments.toList.take n ∧
    t.failure = some (.growth .delayTooLong)

theorem settle_render {s : Session} {segments : List Segment} {stats : Stats}
    (hpending : s.pending = none) (hdraw : s.config.draw s.limit = .ok (segments, stats)) :
    (s.drawRun .render).settle = { s with
      lastSegments := some segments.toArray
      lastMode := .render
      stats := some stats
      stage := s.stage.drawAll segments.toArray
      status := ⟨rendered, false⟩
      printed := s.printed.push rendered
      phase := .idle
      reply := none } := by
  rw [drawRun, hdraw]
  dsimp only
  rw [renderAll, setStatus_eq]
  refine (settle_of_not_pending (by rfl) ?_).trans rfl
  exact hpending

theorem rendered_settle {s : Session} {segments : List Segment} {stats : Stats}
    (hpending : s.pending = none) (hfailure : s.failure = none)
    (hdraw : s.config.draw s.limit = .ok (segments, stats)) :
    Rendered segments.toArray stats (s.drawRun .render).settle := by
  have hshown := s.stage.picture_drawAll segments.toArray
  rw [settle_render hpending hdraw]
  refine ⟨hfailure, rfl, rfl, rfl, ?_, rfl, rfl, hpending, Stage.live_stop s.stage, rfl, hshown⟩
  rw [Picture.segmentCount_eq, hshown, segmentCount_of_draw hdraw]

/-- The growth that a run in the mode of growing makes. -/
def sprout (s : Session) (n : Nat) (segments : List Segment) : Growth Segment :=
  .new segments.toArray (.whole n) s.delay

theorem nextStop_sprout (s : Session) {n : Nat} (hn : 1 ≤ n) (segments : List Segment) :
    (s.sprout n segments).nextStop = min n segments.length := by
  have htotal : (s.sprout n segments).total = segments.length := List.size_toArray
  rw [Growth.nextStop, Growth.stride_of_whole rfl hn, htotal]
  exact congrArg (min · segments.length) (Nat.zero_add n)

section Drawn

variable {s : Session} {segments : List Segment} {stats : Stats} {n : Nat}
  (hdraw : s.config.draw s.limit = .ok (segments, stats)) (hbatch : s.batch.int? = some ↑n)
  (hn : 1 ≤ n) (hdelay : s.delay.below 0 = false)
include hdraw hbatch hn hdelay

theorem drawRun_grow :
    s.drawRun .grow = { s with
      lastSegments := some segments.toArray
      lastMode := .grow
      stats := some stats
      stage := { s.stage.stop.clear.addDetached segments.toArray (.whole n) s.delay with
        live := some s.stage.growths.size }
      status := ⟨"Growing...".toList, false⟩
      printed := s.printed.push "Growing...".toList
      phase := .growing s.stage.growths.size } := by
  rw [drawRun, hdraw]
  dsimp only
  rw [beginGrowth]
  dsimp only
  rw [s.stage.start_of_whole hbatch hn hdelay segments.toArray]
  dsimp only
  rw [setStatus_eq]
  rfl

theorem canDraw_drawRun :
    (s.drawRun .grow).stage.CanDraw s.stage.growths.size (s.sprout n segments) := by
  have hnew := s.stage.stop.clear.growth_addDetached segments.toArray (.whole n) s.delay
    s.stage.growths.size
  rw [if_pos s.stage.size_wiped.symm] at hnew
  rw [drawRun_grow hdraw hbatch hn hdelay]
  exact ⟨rfl, hnew, rfl⟩

theorem grownAs_settle (hpending : s.pending = none) (hquiet : s.onWait = .quiet)
    (hgap : (s.sprout n segments).nextStop < (s.sprout n segments).total →
      (s.sprout n segments).gap? ≠ none) :
    GrownAs n segments.toArray (s.drawRun .grow).settle (s.drawRun .render).settle := by
  have hgrow := drawRun_grow hdraw hbatch hn hdelay
  have hpush := s.stage.stop.clear.modify_addDetached segments.toArray (.whole n) s.delay
    fun g => { g with cursor := (s.sprout n segments).total }
  rw [s.stage.size_wiped] at hpush
  have hd := canDraw_drawRun hdraw hbatch hn hdelay
  obtain ⟨strokes, log, hstrokes, -, hsettle⟩ :=
    settle_of_canDraw (by rw [hgrow]) (by rw [hgrow, hpending]) (by rw [hgrow, hquiet]) hd hn rfl
      hgap
  have hpicture : (s.stage.stop.clear.addDetached segments.toArray (.whole n)
      s.delay).picture.strokes ++ strokes.toArray = strokes.toArray := Array.empty_append
  refine ⟨strokes, { s.sprout n segments with cursor := (s.sprout n segments).total }, log,
    s.printed, hstrokes, rfl, rfl, rfl, rfl, ?_, ?_⟩
  · rw [settle_render hpending hdraw]
  · have hanswer : (s.stage.drawAll segments.toArray).growths.size = s.stage.growths.size :=
      s.stage.size_wiped
    rw [settle_render hpending hdraw, hsettle, hgrow, hanswer]
    dsimp only
    rw [hpush, hpicture]
    rfl

/-- A growth that is to wait for longer than any double tells breaks off after its first batch. -/
theorem breaksOff_settle (hpending : s.pending = none) (hfailure : s.failure = none)
    (hmore : (s.sprout n segments).nextStop < (s.sprout n segments).total)
    (hgap : (s.sprout n segments).gap? = none) :
    BreaksOff n (s.drawRun .grow).settle (s.drawRun .render).settle := by
  have hgrow := drawRun_grow hdraw hbatch hn hdelay
  have hphase : (s.drawRun .grow).phase = .growing s.stage.growths.size := by rw [hgrow]
  have hrunning : (s.drawRun .grow).isRunning = true := by simp [isRunning, hphase]
  rw [settle_of_running hrunning, step_of_growing hphase]
  obtain ⟨hlast, _⟩ | ⟨seconds, _, hwait, _⟩ | ⟨_, _, htick⟩ :=
    tick_of_canDraw (canDraw_drawRun hdraw hbatch hn hdelay)
  · omega
  · rw [hgap] at hwait
    cases hwait
  · have hstop := nextStop_sprout s hn segments
    have htotal : (s.sprout n segments).total = segments.length := List.size_toArray
    have hfirst := (s.drawRun .grow).stage.picture_drawBatch s.stage.growths.size
      (s.sprout n segments)
    rw [htick, settle_of_idle rfl]
    refine ⟨_, stats, rendered_settle hpending hfailure hdraw, ?_, ?_, ?_, ?_, rfl⟩
    · rw [List.size_toArray]
      omega
    · exact congrArg lastSegments hgrow
    · exact congrArg Session.stats hgrow
    · have hblank : (s.drawRun .grow).stage.picture.segments = [] := by
        rw [hgrow]
        rfl
      have hslice : ((s.sprout n segments).slice n).toList = segments.take n := by
        rw [Growth.slice, Array.toList_extract, List.extract_eq_take_drop]
        rfl
      have hwhole : (s.sprout n segments).nextStop = n := by omega
      rw [hblank, hwhole, hslice] at hfirst
      exact hfirst

end Drawn

/-- The two modes from where a run draws. -/
theorem sameDrawing_drawRun {s t : Session} {n : Nat} (hpending : t.pending = none)
    (hfailure : t.failure = none) (hquiet : t.onWait = .quiet)
    (hpicture : t.stage.picture = s.stage.picture) (hbatch : t.batch.int? = some ↑n)
    (hn : 1 ≤ n) (hdelay : t.delay.below 0 = false) :
    SameDrawing n s (t.drawRun .grow).settle (t.drawRun .render).settle ∨
      t.delay.toFloat? = none ∧ BreaksOff n (t.drawRun .grow).settle (t.drawRun .render).settle := by
  cases hdraw : t.config.draw t.limit with
  | error e =>
    have hsame : t.drawRun .grow = t.drawRun .render := by
      rw [drawRun, hdraw, drawRun, hdraw]
    left
    rw [hsame, drawRun, hdraw]
    dsimp only
    split
    · rw [setStatus_eq]
      have hend := settle_of_not_pending (s := { t with
        status := ⟨e.message, true⟩
        printed := if e.message.isEmpty then t.printed else t.printed.push e.message
        phase := .choosing none }) rfl hpending
      rw [hend]
      exact .reports rfl hfailure rfl rfl hpicture
    · rw [settle_of_idle rfl]
      exact .fails rfl (by simp [fail])
  | ok drawn =>
    obtain ⟨segments, stats⟩ := drawn
    have hrendered := rendered_settle hpending hfailure hdraw
    by_cases hgap : (t.sprout n segments).nextStop < (t.sprout n segments).total →
        (t.sprout n segments).gap? ≠ none
    · have hgrown := grownAs_settle hdraw hbatch hn hdelay hpending hquiet hgap
      have hshown := hgrown.shown
      refine Or.inl (.draws hrendered hgrown hshown ?_)
      rw [Picture.segmentCount_eq, hshown, segmentCount_of_draw hdraw]
    · obtain ⟨hmore, hnone⟩ := not_forall.1 hgap
      exact Or.inr ⟨Growth.toFloat?_of_gap? (not_not.1 hnone),
        breaksOff_settle hdraw hbatch hn hdelay hpending hfailure hmore (not_not.1 hnone)⟩

/-- In any session at rest in whose waits nothing is done, to grow and to render end in the same way
if the batch is a whole number of at least one and the delay is not negative, unless the delay
exceeds every double and a wait would come. -/
theorem grow_as_render {s : Session} (hidle : s.phase = .idle) (hquiet : s.onWait = .quiet) {n : Nat}
    (hbatch : s.batch.int? = some ↑n) (hn : 1 ≤ n) (hdelay : s.delay.below 0 = false) :
    SameDrawing n s (s.command (.run (some (.text "grow".toList))))
        (s.command (.run (some (.text "render".toList)))) ∨
      s.delay.toFloat? = none ∧ BreaksOff n (s.command (.run (some (.text "grow".toList))))
        (s.command (.run (some (.text "render".toList)))) := by
  have hgrow : Mode.ofValue? (.text "grow".toList) = some .grow := by decide +kernel
  have hrender : Mode.ofValue? (.text "render".toList) = some .render := by decide +kernel
  have hpicture : s.poised.stopStage.stage.picture = s.stage.picture := Stage.picture_stop s.stage
  obtain ⟨view, viewport, printed, hcanvas⟩ := exists_applyCanvas s.poised.stopStage
  rw [command_run hidle hgrow, command_run hidle hrender, beginRun, beginRun]
  rcases happly : s.poised.stopStage.applyCanvas with ⟨e | changed, t⟩
  · left
    rw [settle_of_idle rfl]
    exact .fails rfl (by simp [fail])
  · rw [happly] at hcanvas
    dsimp only at hcanvas ⊢
    subst hcanvas
    rw [setStatus_eq]
    exact sameDrawing_drawRun rfl rfl hquiet hpicture hbatch hn hdelay

/-- A session that draws three segments in batches of two. -/
def threefold (delay : Numeric) : Session :=
  new ⟨"FFF".toList, [], 0, 90, 1, Config.defaultPen⟩ (.whole 2) delay Config.defaultLimit
    (.ofPixels 100 80) .quiet

/-- Without a delay the growth gets as far as the rendering. -/
theorem threefold_grows_as_rendered :
    SameDrawing 2 (threefold (.whole 0))
      ((threefold (.whole 0)).command (.run (some (.text "grow".toList))))
      ((threefold (.whole 0)).command (.run (some (.text "render".toList)))) := by
  rcases grow_as_render (s := threefold (.whole 0)) (n := 2) rfl rfl rfl (by decide) rfl with
    hsame | ⟨hlong, _⟩
  · exact hsame
  · have hzero : ((threefold (.whole 0)).delay.toFloat?).isSome = true := by decide +kernel
    rw [hlong] at hzero
    cases hzero

/-- A delay of an integer that exceeds every double. -/
def endless : Numeric := .whole (Nat.pow 10 400)

/-- With a delay that exceeds every double the growth stops short of the last segment, which the
rendering draws. -/
theorem threefold_breaks_off :
    Reached (threefold endless) ∧
      (threefold endless).phase = .idle ∧
      (threefold endless).onWait = .quiet ∧
      (threefold endless).batch.int? = some 2 ∧
      (threefold endless).delay.below 0 = false ∧
      ¬ SameDrawing 2 (threefold endless)
        ((threefold endless).command (.run (some (.text "grow".toList))))
        ((threefold endless).command (.run (some (.text "render".toList)))) := by
  have hgrow : (threefold endless).command (.run (some (.text "grow".toList))) =
      step^[2] ((threefold endless).perform (.run (some (.text "grow".toList)))) :=
    settle_eq_iterate (idle_of_not_running (by decide +kernel))
  have hrender : (threefold endless).command (.run (some (.text "render".toList))) =
      step^[2] ((threefold endless).perform (.run (some (.text "render".toList)))) :=
    settle_eq_iterate (idle_of_not_running (by decide +kernel))
  have hbroken : ((threefold endless).command
      (.run (some (.text "grow".toList)))).failure.isSome = true := by
    rw [hgrow]
    decide +kernel
  have hwhole : ((threefold endless).command
      (.run (some (.text "render".toList)))).failure.isSome = false := by
    rw [hrender]
    decide +kernel
  refine ⟨⟨_, _, _, _, _, _, .refl⟩, rfl, rfl, rfl, by decide +kernel, ?_⟩
  intro hsame
  rw [hsame.failure_eq, hwhole] at hbroken
  cases hbroken

end Session

end Lindenmayer
