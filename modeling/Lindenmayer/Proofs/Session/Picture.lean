import Lindenmayer.Proofs.Animation.Slices
import Lindenmayer.Proofs.Session.Course

/-!
# What a session shows

The picture of a session never holds anything but the beginning of the latest drawing, and a session
whose status is that it has rendered or grown shows that drawing in full. This takes batches and
delays with which a growth can start, and a status that is set by nobody but the session.
-/
namespace Lindenmayer

/-- Everything in the schedule has the property. -/
def Schedule.Every {α : Type} (p : α → Prop) (s : Schedule α) : Prop :=
  ∀ e ∈ s.entries, ∀ x ∈ e.2, p x

theorem Schedule.every_next {α : Type} {p : α → Prop} {s : Schedule α} (h : s.Every p) :
    (∀ x ∈ s.next.1, p x) ∧ s.next.2.Every p := by
  obtain ⟨entries⟩ := s
  cases entries with
  | nil => exact ⟨by simp [next], h⟩
  | cons e rest =>
    obtain ⟨n, items⟩ := e
    have hitems : ∀ x ∈ items, p x := h (n, items) List.mem_cons_self
    have hrest : Every p ⟨rest⟩ := fun e he => h e (List.mem_cons_of_mem _ he)
    cases n with
    | zero => exact ⟨hitems, hrest⟩
    | succ n =>
      refine ⟨by simp [next], ?_⟩
      intro e he
      rcases List.mem_cons.1 he with rfl | he
      · exact hitems
      · exact hrest e he

/-! What is drawn on a picture. -/

namespace Picture

variable {σ : Type}

theorem segments_stroke (p : Picture σ) (segments : Array σ) :
    (p.stroke segments).segments = p.segments ++ segments.toList := by
  rw [stroke]
  by_cases h : segments.isEmpty = true
  · rw [if_pos h, Array.isEmpty_iff.1 h]
    exact (List.append_nil _).symm
  · rw [if_neg h]
    simp [Picture.segments]

theorem segments_blank : (blank : Picture σ).segments = [] := rfl

theorem segmentCount_eq (p : Picture σ) : p.segmentCount = p.segments.length := by
  have hsum : ∀ (strokes : List (Array σ)) (n : Nat),
      strokes.foldl (fun n s => n + s.size) n = n + (strokes.flatMap Array.toList).length := by
    intro strokes
    induction strokes with
    | nil => simp
    | cons s rest ih =>
      intro n
      have hsize : s.toList.length = s.size := Array.length_toList
      rw [List.foldl_cons, ih, List.flatMap_cons, List.length_append, hsize]
      omega
  rw [segmentCount, segments, ← Array.foldl_toList, hsum, Nat.zero_add]

end Picture

/-! The texts of errors are none of the two statuses. -/

/-- The status of a drawing that is shown in full. -/
def Finished (text : List Char) : Prop := text = Session.rendered ∨ text = "Grown.".toList

theorem not_finished_of_head {text : List Char} {c : Char} (h : text.head? = some c)
    (hr : c ≠ 'R') (hg : c ≠ 'G') : ¬ Finished text := by
  have hrendered : Session.rendered.head? = some 'R' := by decide +kernel
  have hgrown : "Grown.".toList.head? = some 'G' := by decide +kernel
  rintro (rfl | rfl)
  · exact hr (Option.some.inj (h.symm.trans hrendered))
  · exact hg (Option.some.inj (h.symm.trans hgrown))

theorem not_finished_config {e : ConfigError} (h : e.isReport = true) : ¬ Finished e.message := by
  obtain ⟨setting, fault⟩ := e
  obtain ⟨rest, hrest⟩ : ∃ rest, ConfigError.message ⟨setting, fault⟩ =
      setting.name.toList ++ rest := by
    cases fault with
    | unwritable => cases h
    | truthValue => exact ⟨_, rfl⟩
    | noNumber given => exact ⟨_, rfl⟩
    | notFinite => exact ⟨_, rfl⟩
    | negativeOrFractional x => exact ⟨_, rfl⟩
    | notPositive x => exact ⟨_, rfl⟩
  rw [hrest]
  cases setting with
  | iterations => exact not_finished_of_head (c := 'i') rfl (by decide) (by decide)
  | angle => exact not_finished_of_head (c := 'a') rfl (by decide) (by decide)
  | step => exact not_finished_of_head (c := 's') rfl (by decide) (by decide)

theorem not_finished_drawing {e : DrawingError} (h : e.isReport = true) :
    ¬ Finished e.message := by
  cases e with
  | rules e =>
    cases e with
    | noEquals line => exact not_finished_of_head (c := 'b') rfl (by decide) (by decide)
    | notOneSymbol left => exact not_finished_of_head (c := 'r') rfl (by decide) (by decide)
  | overgrown e =>
    rw [DrawingError.isReport] at h
    have hmessage : (DrawingError.overgrown e).message = e.message := rfl
    rw [hmessage, Overgrowth.message, if_pos h]
    exact not_finished_of_head (c := 'e') rfl (by decide) (by decide)
  | unmeasured => cases h
  | disoriented e => cases h

/-! What a picture and its growths make of the moves. -/

namespace Stage

variable {σ : Type}

theorem picture_stop (s : Stage σ) : s.stop.picture = s.picture := by
  cases hl : s.live with
  | none => rw [stop, hl]
  | some id =>
    rw [stop, hl]
    rfl

/-- The growth is live, or it was cancelled. -/
def Held (s : Stage σ) (id : Nat) : Prop :=
  s.live = some id ∨ ∃ g, s.growths[id]? = some g ∧ g.cancelled = true

/-- To stop cancels what is live. -/
theorem held_stop {s : Stage σ} (hs : s.Sound) {id : Nat} (h : s.Held id) :
    ∃ g, s.stop.growths[id]? = some g ∧ g.cancelled = true := by
  rcases h with hl | ⟨g, hg, hc⟩
  · have hg := Array.getElem?_eq_getElem (hs.live_lt id hl)
    exact ⟨_, by rw [growth_stop, hg, Option.map_some, if_pos hl], rfl⟩
  · refine ⟨_, by rw [growth_stop, hg, Option.map_some], ?_⟩
    split
    · rfl
    · exact hc

theorem picture_drawAll (s : Stage σ) (segments : Array σ) :
    (s.drawAll segments).picture.segments = segments.toList := by
  have hstroke : (s.drawAll segments).picture = Picture.blank.stroke segments := rfl
  rw [hstroke, Picture.segments_stroke, Picture.segments_blank, List.nil_append]

theorem picture_drawBatch (s : Stage σ) (id : Nat) (g : Growth σ) :
    (s.drawBatch id g).picture.segments =
      s.picture.segments ++ (g.slice g.nextStop).toList :=
  s.picture.segments_stroke _

end Stage

namespace Session

/-- The latest drawing; there is none at first. -/
def latest (s : Session) : List Segment :=
  match s.lastSegments with
  | none => []
  | some segments => segments.toList

/-- The latest drawing is shown in full and counted, and nothing is growing. -/
structure Complete (s : Session) : Prop where
  shown : s.lastSegments.map Array.toList = some s.stage.picture.segments
  counted : s.stats.map Stats.segmentCount = some s.stage.picture.segmentCount
  still : s.stage.live = none

/-- The session shows what it claims to show. -/
structure Faithful (s : Session) : Prop where
  sound : s.Sound
  shown : s.stage.picture.segments <+: s.latest
  finished : Finished s.status.text → s.Complete
  /-- What is live grows the latest drawing and has drawn all that is shown. -/
  live : ∀ (id : Nat) (g : Growth Segment), s.stage.live = some id → s.stage.growths[id]? = some g →
    g.cancelled = false ∧ s.lastSegments = some g.segments ∧
      s.stage.picture.segments = g.segments.toList.take g.cursor
  counted : ∀ segments, s.lastSegments = some segments →
    s.stats.map Stats.segmentCount = some segments.size
  /-- What is in progress is live unless it was cancelled. -/
  held : ∀ id, s.phase.growth? = some id → s.stage.Held id

theorem Faithful.kept {s t : Session} (h : s.Faithful) (ht : t.Sound) (hstage : t.stage = s.stage)
    (hlast : t.lastSegments = s.lastSegments) (hstats : t.stats = s.stats)
    (hstatus : t.status = s.status ∨ ¬ Finished t.status.text)
    (hphase : ∀ id, t.phase.growth? = some id → s.phase.growth? = some id) : t.Faithful := by
  have hlatest : t.latest = s.latest := by rw [latest, latest, hlast]
  refine ⟨ht, ?_, ?_, ?_, ?_, ?_⟩
  · rw [hstage, hlatest]
    exact h.shown
  · intro hfinished
    rcases hstatus with heq | hnot
    · rw [heq] at hfinished
      obtain ⟨hshown, hcounted, hstill⟩ := h.finished hfinished
      exact ⟨by rw [hlast, hstage, hshown], by rw [hstats, hstage, hcounted],
        by rw [hstage, hstill]⟩
    · exact absurd hfinished hnot
  · rw [hstage, hlast]
    exact h.live
  · rw [hlast, hstats]
    exact h.counted
  · intro id hid
    rw [hstage]
    exact h.held id (hphase id hid)

theorem Faithful.stopped {s t : Session} (h : s.Faithful) (ht : t.Sound)
    (hstage : t.stage = s.stage.stop) (hlast : t.lastSegments = s.lastSegments)
    (hstats : t.stats = s.stats) (hstatus : t.status = s.status ∨ ¬ Finished t.status.text)
    (hphase : ∀ id, t.phase.growth? = some id → s.phase.growth? = some id) : t.Faithful := by
  have hlatest : t.latest = s.latest := by rw [latest, latest, hlast]
  have hpicture : t.stage.picture = s.stage.picture := by rw [hstage, Stage.picture_stop]
  have hlive : t.stage.live = none := by rw [hstage, Stage.live_stop]
  refine ⟨ht, ?_, ?_, ?_, ?_, ?_⟩
  · rw [hpicture, hlatest]
    exact h.shown
  · intro hfinished
    rcases hstatus with heq | hnot
    · rw [heq] at hfinished
      obtain ⟨hshown, hcounted, _⟩ := h.finished hfinished
      exact ⟨by rw [hlast, hpicture, hshown], by rw [hstats, hpicture, hcounted], hlive⟩
    · exact absurd hfinished hnot
  · intro id g hl
    rw [hlive] at hl
    cases hl
  · rw [hlast, hstats]
    exact h.counted
  · intro id hid
    rw [hstage]
    exact Or.inr (Stage.held_stop h.sound.stage (h.held id (hphase id hid)))

/-- A drawing that was put on record is shown in full. -/
theorem faithful_renderAll {s t : Session} {segments : Array Segment} (ht : t.Sound)
    (hstage : t.stage = s.stage.drawAll segments) (hlast : t.lastSegments = some segments)
    (hcount : t.stats.map Stats.segmentCount = some segments.size)
    (hheld : ∀ id, t.phase.growth? = some id →
      ∃ g, s.stage.stop.growths[id]? = some g ∧ g.cancelled = true) : t.Faithful := by
  have hlatest : t.latest = segments.toList := by rw [latest, hlast]
  have hpicture : t.stage.picture.segments = segments.toList := by
    rw [hstage, Stage.picture_drawAll]
  have hlive : t.stage.live = none := by
    rw [hstage]
    exact Stage.live_stop s.stage
  have hall : t.latest = t.stage.picture.segments := by rw [hlatest, hpicture]
  refine ⟨ht, ?_, ?_, ?_, ?_, ?_⟩
  · exact hall ▸ List.prefix_rfl
  · intro _
    refine ⟨by rw [hlast, hpicture]; rfl, ?_, hlive⟩
    rw [hcount, Picture.segmentCount_eq, hpicture, Array.length_toList]
  · intro id g hl
    rw [hlive] at hl
    cases hl
  · intro segments' h
    obtain rfl := Option.some.inj (hlast.symm.trans h)
    exact hcount
  · intro id hid
    rw [hstage]
    exact Or.inr (hheld id hid)

/-- A growth can start with this batch and this delay. -/
def Startable (batch delay : Numeric) : Prop :=
  batch.below 1 = false ∧ delay.below 0 = false ∧ ∃ n, Stage.wholeBatch batch = .ok n

theorem start_of_startable {batch delay : Numeric} (h : Startable batch delay)
    (s : Stage Segment) (segments : Array Segment) {e : GrowthError} {t : Stage Segment} :
    s.start segments batch delay ≠ (.error e, t) := by
  obtain ⟨hbatch, hdelay, n, hn⟩ := h
  rw [Stage.start, if_neg (Bool.eq_false_iff.1 hbatch), if_neg (Bool.eq_false_iff.1 hdelay)]
  dsimp only
  rw [hn]
  intro heq
  cases heq

theorem not_finished_growing : ¬ Finished "Growing...".toList := by
  rintro (h | h)
  · exact absurd h (by decide +kernel)
  · exact absurd h (by decide +kernel)

/-- A drawing that was put on record begins to grow. -/
theorem faithful_beginGrowth {s : Session} {segments : Array Segment}
    (hsound : (s.beginGrowth segments).Sound) (hstart : Startable s.batch s.delay)
    (hlast : s.lastSegments = some segments)
    (hcount : s.stats.map Stats.segmentCount = some segments.size) :
    (s.beginGrowth segments).Faithful := by
  obtain ⟨e, t, herror, _⟩ | ⟨n, _, heq⟩ := beginGrowth_cases s segments
  · exact absurd herror (start_of_startable hstart s.stage segments)
  · rw [heq, setStatus_eq] at hsound ⊢
    have hnew := s.stage.stop.clear.growth_addDetached segments (.whole n) s.delay
      s.stage.growths.size
    rw [if_pos s.stage.size_wiped.symm] at hnew
    refine ⟨hsound, ?_, ?_, ?_, ?_, ?_⟩
    · exact List.nil_prefix
    · intro hfinished
      exact absurd hfinished not_finished_growing
    · intro id g hl hg
      obtain rfl := Option.some.inj hl
      obtain rfl := Option.some.inj (hnew.symm.trans hg)
      exact ⟨rfl, hlast, List.take_zero.symm⟩
    · intro segments' h
      obtain rfl := Option.some.inj (hlast.symm.trans h)
      exact hcount
    · intro id hid
      exact Or.inl hid

/-- After a batch the picture holds as much as the growth has drawn. -/
theorem Faithful.picture_drawBatch {s : Session} (h : s.Faithful) {id : Nat} {g : Growth Segment}
    (hd : s.stage.CanDraw id g) :
    (s.stage.drawBatch id g).picture.segments = g.segments.toList.take g.nextStop := by
  obtain ⟨_, _, hpicture⟩ := h.live id g hd.live hd.found
  have hle := Growth.cursor_le_nextStop (h.sound.stage.cursor_le id g hd.found)
  rw [Stage.picture_drawBatch, hpicture]
  exact Growth.take_append_slice hle

/-- A batch that is not the last keeps the session faithful. -/
theorem Faithful.drawn {s t : Session} (h : s.Faithful) (ht : t.Sound) {id : Nat}
    {g : Growth Segment} (hd : s.stage.CanDraw id g)
    (hpicture : t.stage.picture = (s.stage.drawBatch id g).picture)
    (hgrowths : t.stage.growths = (s.stage.drawBatch id g).growths)
    (hlive : t.stage.live = some id) (hlast : t.lastSegments = s.lastSegments)
    (hstats : t.stats = s.stats) (hstatus : t.status = s.status)
    (hphase : ∀ k, t.phase.growth? = some k → k = id) : t.Faithful := by
  have hdrawn := h.picture_drawBatch hd
  obtain ⟨_, hsegments, _⟩ := h.live id g hd.live hd.found
  refine ⟨ht, ?_, ?_, ?_, ?_, ?_⟩
  · rw [hpicture, hdrawn, latest, hlast, hsegments]
    exact List.take_prefix _ _
  · intro hfinished
    rw [hstatus] at hfinished
    have hstill := (h.finished hfinished).still
    rw [hd.live] at hstill
    cases hstill
  · intro k g' hl hg'
    obtain rfl := Option.some.inj (hlive.symm.trans hl)
    rw [hgrowths, Stage.growth_drawBatch, hd.found, Option.map_some, if_pos rfl] at hg'
    obtain rfl := Option.some.inj hg'
    rw [hpicture, hlast]
    exact ⟨hd.cancelled, hsegments, hdrawn⟩
  · rw [hlast, hstats]
    exact h.counted
  · intro k hk
    obtain rfl := hphase k hk
    exact Or.inl hlive

/-- The last batch completes the drawing. -/
theorem Faithful.grown {s t : Session} (h : s.Faithful) (ht : t.Sound) {id : Nat}
    {g : Growth Segment} (hd : s.stage.CanDraw id g) (hend : g.nextStop = g.total)
    (hpicture : t.stage.picture = (s.stage.drawBatch id g).picture)
    (hlive : t.stage.live = none) (hlast : t.lastSegments = s.lastSegments)
    (hstats : t.stats = s.stats) (hphase : t.phase.growth? = none) : t.Faithful := by
  obtain ⟨_, hsegments, _⟩ := h.live id g hd.live hd.found
  have hdrawn : t.stage.picture.segments = g.segments.toList := by
    rw [hpicture, h.picture_drawBatch hd, hend, Growth.total, ← Array.length_toList,
      List.take_length]
  have hall : t.latest = t.stage.picture.segments := by rw [latest, hlast, hsegments, hdrawn]
  refine ⟨ht, ?_, ?_, ?_, ?_, ?_⟩
  · exact hall ▸ List.prefix_rfl
  · intro _
    refine ⟨by rw [hlast, hsegments, hdrawn]; rfl, ?_, hlive⟩
    rw [hstats, h.counted _ hsegments, Picture.segmentCount_eq, hdrawn, Array.length_toList]
  · intro k g' hl
    rw [hlive] at hl
    cases hl
  · rw [hlast, hstats]
    exact h.counted
  · intro k hk
    rw [hphase] at hk
    cases hk

theorem Ticking.faithful {s t : Session} {id : Nat} (h : Ticking s id t) (hs : s.Faithful)
    (hphase : s.phase = .growing id) (ht : t.Sound) : t.Faithful := by
  cases h with
  | rests hr =>
    -- what is in progress and cannot draw was cancelled, and it is no longer live
    have hlost : s.stage.live ≠ some id := by
      intro hl
      rcases hr with hne | ⟨g, hg, hc⟩
      · exact hne hl
      · rw [(hs.live id g hl hg).1] at hc
        cases hc
    obtain ⟨g, hg, hc⟩ := (hs.held id (by rw [hphase]; rfl)).resolve_left hlost
    have hstage : s.stage.release id = s.stage := by rw [Stage.release, if_neg hlost]
    have hgrown : s.stage.hasGrown id = false := by
      rw [Stage.hasGrown, hg]
      simp [hc]
    rw [endGrowth, hstage, if_neg (by simp [hgrown])] at ht ⊢
    exact hs.kept ht rfl rfl rfl (Or.inl rfl) (by simp [Phase.growth?])
  | @lasts g hd hlast =>
    have hafter : (s.stage.drawBatch id g).growths[id]? = some { g with cursor := g.nextStop } := by
      rw [Stage.growth_drawBatch, hd.found, Option.map_some, if_pos rfl]
    have hdone : ({ g with cursor := g.nextStop } : Growth Segment).done = true :=
      decide_eq_true (Nat.le_of_eq hlast.symm)
    have hgrown :
        ({ s.stage.drawBatch id g with live := none } : Stage Segment).hasGrown id = true := by
      rw [Stage.hasGrown, hafter]
      change (_ && !g.cancelled) = true
      rw [hdone, hd.cancelled]
      rfl
    rw [endGrowth, if_pos hgrown, setStatus_eq] at ht ⊢
    exact hs.grown ht hd hlast rfl rfl rfl rfl rfl
  | waits hd hmore hgap =>
    refine hs.drawn ht hd rfl rfl hd.live rfl rfl rfl ?_
    intro k hk
    exact (Option.some.inj hk).symm
  | breaks hd hmore =>
    refine hs.drawn ht hd rfl rfl hd.live rfl rfl rfl ?_
    intro k hk
    cases hk

/-- A command keeps a session faithful, unless it sets the status itself. -/
theorem Effect.faithful {s t : Session} {c : SessionCommand} (h : Effect s c t)
    (hs : s.Faithful) (hc : ∀ text isError, c ≠ .setStatus text isError) : t.Faithful := by
  have ht := h.sound hs.sound
  cases h with
  | @asks u mode _ hu =>
    obtain ⟨_, _, _, _, _, _, rfl⟩ := hu
    rw [enqueue] at ht ⊢
    split at ht
    · next hrun =>
      rw [if_pos hrun]
      exact hs.stopped ht rfl rfl rfl (Or.inl rfl) (fun _ hid => hid)
    · next hrest =>
      rw [if_neg hrest]
      exact hs.kept ht rfl rfl rfl (Or.inl rfl) (by simp [Phase.growth?])
  | stops _ =>
    have hstatus : ¬ Finished "Stopped.".toList :=
      not_finished_of_head (c := 'S') rfl (by decide) (by decide)
    rw [stop, setStatus_eq] at ht ⊢
    exact hs.stopped ht rfl rfl rfl (Or.inr hstatus) (fun _ hid => hid)
  | fails e _ hu =>
    obtain ⟨_, _, _, _, _, _, rfl⟩ := hu
    exact hs.kept ht rfl rfl rfl (Or.inl rfl) (by simp [fail, Phase.growth?])
  | reports _ he =>
    rw [setStatus_eq] at ht ⊢
    exact hs.kept ht rfl rfl rfl (Or.inr (not_finished_config he)) (fun _ hid => hid)
  | tells _ hset => exact absurd hset (hc _ _)
  | closes _ => exact hs.stopped ht rfl rfl rfl (Or.inl rfl) (fun _ hid => hid)
  | @shows u segments _ hu hlast =>
    obtain ⟨_, _, _, _, _, _, rfl⟩ := hu
    rw [renderAll, setStatus_eq] at ht ⊢
    refine faithful_renderAll (s := s) ht rfl hlast (hs.counted _ hlast) ?_
    intro id hid
    exact Stage.held_stop hs.sound.stage (hs.held id hid)
  | batches _ _ => exact hs.kept ht rfl rfl rfl (Or.inl rfl) (fun _ hid => hid)
  | aside _ hu =>
    obtain ⟨_, _, _, _, _, _, rfl⟩ := hu
    exact hs.kept ht rfl rfl rfl (Or.inl rfl) (fun _ hid => hid)

theorem not_finished_blank : ¬ Finished [] := by
  rintro (h | h)
  · exact absurd h (by decide +kernel)
  · exact absurd h (by decide +kernel)

/-- A run that begins keeps a session faithful if its growth can start. -/
theorem Beginning.faithful {s t : Session} {mode : Mode} (h : Beginning s mode t)
    (hs : s.Faithful) (hstart : Startable s.batch s.delay) (ht : t.Sound) : t.Faithful := by
  cases h with
  | breaks e hu =>
    obtain ⟨_, _, _, _, _, _, rfl⟩ := hu
    rw [setStatus_eq] at ht ⊢
    exact hs.kept ht rfl rfl rfl (Or.inr not_finished_blank) (by simp [fail, Phase.growth?])
  | reports hu he =>
    obtain ⟨_, _, _, _, _, _, rfl⟩ := hu
    rw [setStatus_eq, setStatus_eq] at ht ⊢
    exact hs.kept ht rfl rfl rfl (Or.inr (not_finished_drawing he)) (by simp [Phase.growth?])
  | @renders u segments stats hu hcount =>
    rw [renderAll, setStatus_eq] at ht ⊢
    refine faithful_renderAll (s := u.recorded .render segments stats) ht rfl rfl ?_ ?_
    · rw [recorded, Option.map_some, hcount, List.size_toArray]
    · intro id hid
      cases hid
  | @grows u segments stats hu hcount =>
    obtain ⟨_, _, _, _, _, _, rfl⟩ := hu
    refine faithful_beginGrowth ht ?_ rfl ?_
    · rw [recorded, setStatus_eq]
      exact hstart
    · rw [recorded, Option.map_some, hcount, List.size_toArray]

/-! Batches with which a growth can start, now and in the schedule. -/

/-- On what terms growths start and what is to happen in their waits. -/
def terms (s : Session) : Numeric × Numeric × Schedule SessionCommand :=
  (s.batch, s.delay, s.onWait)

theorem terms_setStatus (s : Session) (text : List Char) (isError : Bool) :
    (s.setStatus text isError).terms = s.terms := by
  rw [setStatus_eq]
  rfl

theorem terms_renderAll (s : Session) (segments : Array Segment) :
    (s.renderAll segments).terms = s.terms :=
  terms_setStatus _ _ _

theorem terms_enqueue (s : Session) (mode : Mode) : (s.enqueue mode).terms = s.terms := by
  rw [enqueue]
  split
  · rfl
  · rfl

theorem terms_beginGrowth (s : Session) (segments : Array Segment) :
    (s.beginGrowth segments).terms = s.terms := by
  obtain ⟨e, t, _, heq⟩ | ⟨n, _, heq⟩ := beginGrowth_cases s segments
  · rw [heq]
    rfl
  · rw [heq]
    exact terms_setStatus _ _ _

theorem terms_endGrowth (s : Session) (id : Nat) : (s.endGrowth id).terms = s.terms := by
  rw [endGrowth]
  split
  · exact terms_setStatus _ _ _
  · rfl

theorem Aside.terms_eq {s t : Session} (h : Aside s t) : t.terms = s.terms := by
  obtain ⟨_, _, _, _, _, _, rfl⟩ := h
  rfl

/-- Only one command changes the terms, and of them only the batch. -/
theorem Effect.terms_cases {s t : Session} {c : SessionCommand} (h : Effect s c t) :
    t.terms = s.terms ∨ ∃ batch, c = .setBatch batch ∧ t = { s with batch := batch } := by
  cases h with
  | asks _ hu => exact Or.inl ((terms_enqueue _ _).trans hu.terms_eq)
  | stops _ => exact Or.inl (terms_setStatus _ _ _)
  | fails e _ hu => exact Or.inl hu.terms_eq
  | reports _ _ => exact Or.inl (terms_setStatus _ _ _)
  | tells _ _ => exact Or.inl (terms_setStatus _ _ _)
  | closes _ => exact Or.inl rfl
  | shows _ hu _ => exact Or.inl ((terms_renderAll _ _).trans hu.terms_eq)
  | batches _ hset => exact Or.inr ⟨_, hset, rfl⟩
  | aside _ hu => exact Or.inl hu.terms_eq

theorem Beginning.terms_eq {s t : Session} {mode : Mode} (h : Beginning s mode t) :
    t.terms = s.terms := by
  cases h with
  | @breaks u _ e hu => exact (terms_setStatus u [] false).trans hu.terms_eq
  | @reports u _ e hu _ =>
    have hcleared := (terms_setStatus u [] false).trans hu.terms_eq
    exact (terms_setStatus (u.setStatus [] false) e.message true).trans hcleared
  | @renders u segments stats hu _ =>
    have hrecorded : (u.recorded .render segments stats).terms = s.terms :=
      (terms_setStatus u [] false).trans hu.terms_eq
    exact (terms_renderAll (u.recorded .render segments stats) segments.toArray).trans hrecorded
  | @grows u segments stats hu _ =>
    have hrecorded : (u.recorded .grow segments stats).terms = s.terms :=
      (terms_setStatus u [] false).trans hu.terms_eq
    exact (terms_beginGrowth _ segments.toArray).trans hrecorded

/-- A command that does not set the status, nor a batch with which a growth cannot start. -/
def Allowed (delay : Numeric) : SessionCommand → Prop
  | .setStatus _ _ => False
  | .setBatch batch => Startable batch delay
  | _ => True

/-- A growth can start, and no command to come changes that or sets the status. -/
structure Tame (delay : Numeric) (s : Session) : Prop where
  startable : Startable s.batch delay
  delay_eq : s.delay = delay
  scheduled : s.onWait.Every (Allowed delay)
  waiting : ∀ c ∈ waitingCommands s.phase, Allowed delay c

theorem Tame.of_terms {s t : Session} {delay : Numeric} (hs : s.Tame delay)
    (h : t.terms = s.terms) (hwaiting : ∀ c ∈ waitingCommands t.phase, Allowed delay c) :
    t.Tame delay := by
  obtain ⟨hbatch, hrest⟩ := Prod.mk.inj h
  obtain ⟨hdelay, honWait⟩ := Prod.mk.inj hrest
  refine ⟨?_, hdelay.trans hs.delay_eq, ?_, hwaiting⟩
  · rw [hbatch]
    exact hs.startable
  · rw [honWait]
    exact hs.scheduled

theorem Effect.tame {s t : Session} {c : SessionCommand} {delay : Numeric} (h : Effect s c t)
    (hs : s.Tame delay) (hc : Allowed delay c) : t.Tame delay := by
  have hwaiting : ∀ d ∈ waitingCommands t.phase, Allowed delay d := by
    intro d hd
    rcases h.phase_cases with hphase | hphase | hphase
    · rw [hphase] at hd
      cases hd
    · rw [hphase] at hd
      exact hs.waiting d hd
    · rw [hphase] at hd
      cases hd
  rcases h.terms_cases with hterms | ⟨batch, rfl, rfl⟩
  · exact hs.of_terms hterms hwaiting
  · exact ⟨hc, hs.delay_eq, hs.scheduled, hwaiting⟩

theorem Beginning.tame {s t : Session} {mode : Mode} {delay : Numeric} (h : Beginning s mode t)
    (hs : s.Tame delay) : t.Tame delay := by
  refine hs.of_terms h.terms_eq ?_
  intro d hd
  rcases h.phase_cases with ⟨hphase, _⟩ | ⟨hphase, _⟩ | ⟨hphase, _⟩
  · rw [hphase] at hd
    cases hd
  · rw [hphase] at hd
    cases hd
  · rw [hphase] at hd
    cases hd

theorem Tame.ended {s : Session} {delay : Numeric} (hs : s.Tame delay) (t : Stage Segment)
    (id : Nat) : ({ s with stage := t }.endGrowth id).Tame delay := by
  refine hs.of_terms (terms_endGrowth { s with stage := t } id) ?_
  rw [phase_endGrowth]
  simp [waitingCommands]

theorem Ticking.tame {s t : Session} {id : Nat} {delay : Numeric} (h : Ticking s id t)
    (hs : s.Tame delay) : t.Tame delay := by
  cases h with
  | rests _ => exact hs.ended _ id
  | lasts _ _ => exact hs.ended _ id
  | waits _ _ _ =>
    obtain ⟨hnow, hlater⟩ := Schedule.every_next hs.scheduled
    exact ⟨hs.startable, hs.delay_eq, hlater, hnow⟩
  | breaks _ _ => exact hs.of_terms rfl (by simp [fail, waitingCommands])

theorem Tame.waits {s : Session} {delay : Numeric} {id : Nat} {c : SessionCommand}
    {rest : List SessionCommand} (hs : s.Tame delay) (h : s.phase = .waiting id (c :: rest)) :
    Allowed delay c ∧ Tame delay { s with phase := .waiting id rest } := by
  obtain ⟨hstartable, hdelay, hscheduled, hwaiting⟩ := hs
  rw [h] at hwaiting
  refine ⟨hwaiting c List.mem_cons_self, hstartable, hdelay, hscheduled, ?_⟩
  intro d hd
  exact hwaiting d (List.mem_cons_of_mem c hd)

theorem Stepping.tame {s t : Session} {delay : Numeric} (h : Stepping s t) (hs : s.Tame delay) :
    t.Tame delay := by
  cases h with
  | idles _ => exact hs
  | ends _ _ => exact hs.of_terms rfl (by simp [waitingCommands])
  | begins _ _ ht => exact ht.tame (hs.of_terms rfl hs.waiting)
  | ticks _ ht => exact ht.tame hs
  | resumes _ => exact hs.of_terms rfl (by simp [waitingCommands])
  | performs h ht =>
    obtain ⟨hc, hrest⟩ := hs.waits h
    exact ht.tame hrest hc

theorem Allowed.ne_setStatus {delay : Numeric} {c : SessionCommand} (h : Allowed delay c)
    (text : List Char) (isError : Bool) : c ≠ .setStatus text isError := by
  rintro rfl
  exact h

theorem Stepping.faithful {s t : Session} {delay : Numeric} (h : Stepping s t) (hs : s.Faithful)
    (htame : s.Tame delay) : t.Faithful := by
  have ht := h.sound hs.sound
  cases h with
  | idles _ => exact hs
  | ends _ _ => exact hs.kept ht rfl rfl rfl (Or.inl rfl) (by simp [Phase.growth?])
  | @begins _ mode _ _ _ hbegin =>
    have hstopped : Faithful { s with pending := none }.stopStage := by
      have hsound := hs.sound.later (t := { s with pending := none }.stopStage)
        (Stage.moves_stop hs.sound.stage) (fun _ hid => hid)
      exact hs.stopped hsound rfl rfl rfl (Or.inl rfl) (fun _ hid => hid)
    have hstart : Startable s.batch s.delay := by
      rw [htame.delay_eq]
      exact htame.startable
    exact hbegin.faithful hstopped hstart ht
  | ticks h htick => exact htick.faithful hs h ht
  | resumes h => exact hs.kept ht rfl rfl rfl (Or.inl rfl) (by simp [h, Phase.growth?])
  | @performs id c rest _ h heffect =>
    have hphase : ∀ k, (Phase.waiting id rest).growth? = some k → s.phase.growth? = some k := by
      intro k hk
      rw [h]
      exact hk
    have hwait : Faithful { s with phase := .waiting id rest } :=
      hs.kept (hs.sound.later .refl hphase) rfl rfl rfl (Or.inl rfl) hphase
    exact heffect.faithful hwait (htame.waits h).1.ne_setStatus

theorem faithful_of_turn {delay : Numeric} {s t : Session} (hs : s.Faithful)
    (htame : s.Tame delay) (h : Turn (Allowed delay) s t) : t.Faithful ∧ t.Tame delay := by
  cases h with
  | step =>
    have hstep := stepping_step hs.sound.stage
    exact ⟨hstep.faithful hs htame, hstep.tame htame⟩
  | begin c _ hc =>
    have hfresh : Faithful { s with reply := none, failure := none } :=
      hs.kept (hs.sound.later .refl fun _ hid => hid) rfl rfl rfl (Or.inl rfl) (fun _ hid => hid)
    have heffect := effect_perform { s with reply := none, failure := none } c
    have htame' : Tame delay { s with reply := none, failure := none } :=
      htame.of_terms rfl htame.waiting
    exact ⟨heffect.faithful hfresh hc.ne_setStatus, heffect.tame htame' hc⟩
  | forget =>
    have hsound : Sound { s with reply := none } := hs.sound.later .refl fun _ hid => hid
    have hkept : Faithful { s with reply := none } :=
      hs.kept hsound rfl rfl rfl (Or.inl rfl) (fun _ hid => hid)
    exact ⟨hkept, htame.of_terms rfl htame.waiting⟩

theorem faithful_of_turns {delay : Numeric} {s t : Session} (hs : s.Faithful)
    (htame : s.Tame delay) (h : Turns (Allowed delay) s t) : t.Faithful ∧ t.Tame delay := by
  induction h with
  | refl => exact ⟨hs, htame⟩
  | tail _ hturn ih => exact faithful_of_turn ih.1 ih.2 hturn

theorem faithful_new (config : Config) (batch delay : Numeric) (limit : Limit)
    (canvas : Canvas) (onWait : Schedule SessionCommand) :
    (new config batch delay limit canvas onWait).Faithful := by
  refine ⟨sound_new config batch delay limit canvas onWait, List.nil_prefix, ?_, ?_, ?_, ?_⟩
  · intro hfinished
    exact absurd hfinished not_finished_blank
  · intro id g hl
    cases hl
  · intro segments h
    cases h
  · intro id hid
    cases hid

/-- Whatever a session is told, it shows no more than the beginning of its latest drawing, and once
its status is that it has rendered or grown, the drawing is shown in full, each segment once and in
order, and counted, and nothing is growing. This holds after every step, and so at the end of every
command, also of one in a wait and of one that fails. -/
theorem picture_is_true {config : Config} {batch delay : Numeric} {limit : Limit}
    {canvas : Canvas} {onWait : Schedule SessionCommand} {s : Session}
    (hstart : Startable batch delay) (hscript : onWait.Every (Allowed delay))
    (hs : Turns (Allowed delay) (new config batch delay limit canvas onWait) s) :
    s.stage.picture.segments <+: s.latest ∧ (Finished s.status.text → s.Complete) := by
  have hnew := faithful_new config batch delay limit canvas onWait
  have htame : (new config batch delay limit canvas onWait).Tame delay :=
    ⟨hstart, rfl, hscript, by simp [new, waitingCommands]⟩
  obtain ⟨hfaithful, _⟩ := faithful_of_turns hnew htame hs
  exact ⟨hfaithful.shown, hfaithful.finished⟩

/-- A drawing that was asked for again while it grew is shown once. -/
theorem grown_picture_is_true :
    Finished (growsAgain.command (.run (some (.text "grow".toList)))).status.text ∧
      (growsAgain.command (.run (some (.text "grow".toList)))).Complete ∧
      (growsAgain.command (.run (some (.text "grow".toList)))).stage.picture.segmentCount = 2 := by
  have hstart : Startable (.whole 1) (.whole 0) := ⟨rfl, rfl, 1, rfl⟩
  have hentries : growsAgain.onWait.entries = [(0, [.key (some ['g'])])] := rfl
  have hscript : growsAgain.onWait.Every (Allowed (.whole 0)) := by
    simp [Schedule.Every, hentries, Allowed]
  have hturns := turns_command (p := Allowed (.whole 0)) (s := growsAgain)
    (c := .run (some (.text "grow".toList))) rfl trivial
  have hfinished :
      Finished (growsAgain.command (.run (some (.text "grow".toList)))).status.text := by
    rw [command_growsAgain]
    exact Or.inr (by decide +kernel)
  refine ⟨hfinished, (picture_is_true hstart hscript hturns).2 hfinished, ?_⟩
  rw [command_growsAgain]
  decide +kernel

end Session

end Lindenmayer
