import Lindenmayer.Proofs.Animation.Moves
import Lindenmayer.Proofs.Surface.Canvas
import Lindenmayer.Session.Run

/-!
# What a command does to a session

A command asks for a run, or to run nothing more, or neither. What it does besides is one of a few
things: it fails, says something, stops the live growth, shows the latest drawing in full, or
changes a setting or the view. A run begins in as few ways. Whatever is to hold throughout a session
is proved of these.
-/
namespace Lindenmayer

/-- What a command asks of the run loop. -/
inductive Ask where
  | run (mode : Mode)
  | stop

/-- The mode that is to run next. -/
def Ask.mode? : Ask → Option Mode
  | run mode => some mode
  | stop => none

namespace Session

/-- A count of iterations asks for a run unless it is refused. -/
def askIterations (s : Session) (delta : Numeric) : Option Ask :=
  match Numeric.addInt? s.config.iterations delta with
  | none => none
  | some iterations =>
    match Config.make (s.config.settings iterations) with
    | .error _ => none
    | .ok _ => some (.run s.lastMode)

def askKey (s : Session) (key : List Char) : Option Ask :=
  if key = ['r'] then some (.run .render)
  else if key = ['g'] then some (.run .grow)
  else if key = "escape".toList then some .stop
  else if key = "up".toList then s.askIterations (.whole 1)
  else if key = "down".toList then s.askIterations (.whole (-1))
  else none

/-- What the command asks for, if it does. -/
def ask (s : Session) : SessionCommand → Option Ask
  | .run none => some (.run s.lastMode)
  | .run (some mode) => (Mode.ofValue? mode).map .run
  | .request mode => (Mode.ofValue? mode).map .run
  | .key (some key) => s.askKey key
  | .stop => some .stop
  | .changeIterations delta => s.askIterations delta
  | _ => none

/-- The sessions differ in the configuration, the limit, the canvas, the view of it and the lines
printed, and in nothing else. -/
def Aside (s t : Session) : Prop :=
  ∃ (config : Config) (limit : Limit) (canvas : Canvas) (view : View)
    (viewport : Option Canvas) (printed : Array (List Char)),
    t = { s with
      config := config
      limit := limit
      canvas := canvas
      view := view
      viewport := viewport
      printed := printed }

/-- What a command can do. -/
inductive Effect (s : Session) (c : SessionCommand) : Session → Prop
  | asks {t : Session} {mode : Mode} (h : s.ask c = some (.run mode)) (ht : Aside s t) :
      Effect s c (t.enqueue mode)
  | stops (h : s.ask c = some .stop) : Effect s c s.stop
  | fails {t : Session} (e : SessionError) (h : s.ask c = none) (ht : Aside s t) :
      Effect s c (t.fail e)
  | reports {e : ConfigError} (h : s.ask c = none) (he : e.isReport = true) :
      Effect s c (s.setStatus e.message true)
  | tells {text : List Char} {isError : Bool} (h : s.ask c = none)
      (hc : c = .setStatus text isError) : Effect s c (s.setStatus text isError)
  | closes (h : s.ask c = none) : Effect s c s.stopStage
  | shows {t : Session} {segments : Array Segment} (h : s.ask c = none) (ht : Aside s t)
      (hs : s.lastSegments = some segments) : Effect s c (t.renderAll segments)
  | batches {batch : Numeric} (h : s.ask c = none) (hc : c = .setBatch batch) :
      Effect s c { s with batch := batch }
  | aside {t : Session} (h : s.ask c = none) (ht : Aside s t) : Effect s c t

theorem Aside.refl (s : Session) : Aside s s :=
  ⟨s.config, s.limit, s.canvas, s.view, s.viewport, s.printed, rfl⟩

theorem Aside.trans {s t u : Session} (h : Aside s t) (h' : Aside t u) : Aside s u := by
  obtain ⟨_, _, _, _, _, _, rfl⟩ := h
  obtain ⟨config, limit, canvas, view, viewport, printed, rfl⟩ := h'
  exact ⟨config, limit, canvas, view, viewport, printed, rfl⟩

theorem aside_config (s : Session) (config : Config) : Aside s { s with config := config } :=
  ⟨config, s.limit, s.canvas, s.view, s.viewport, s.printed, rfl⟩

theorem aside_canvas (s : Session) (canvas : Canvas) : Aside s { s with canvas := canvas } :=
  ⟨s.config, s.limit, canvas, s.view, s.viewport, s.printed, rfl⟩

theorem aside_applyCanvas (s : Session) : Aside s s.applyCanvas.2 := by
  obtain ⟨view, viewport, printed, h⟩ := exists_applyCanvas s
  rw [h]
  exact ⟨s.config, s.limit, s.canvas, view, viewport, printed, rfl⟩

/-- A canvas of that size has an area and is not the one seen last. -/
def noticed (s : Session) (canvas : Canvas) : Bool :=
  decide (canvas.width ≠ 0 ∧ canvas.height ≠ 0 ∧ s.viewport ≠ some canvas)

/-- There is a view of every canvas, so the view is matched to a canvas that is noticed. -/
theorem applyCanvas_eq (s : Session) :
    s.applyCanvas = (.ok (s.noticed s.canvas), s.applyCanvas.2) := by
  rw [applyCanvas, noticed]
  dsimp only
  split
  · next hzero => rw [decide_eq_false fun hnew => hzero.elim hnew.1 hnew.2.1]
  · next harea =>
    obtain ⟨hwidth, hheight⟩ := not_or.1 harea
    split
    · next hsame => rw [decide_eq_false fun hnew => hnew.2.2 hsame]
    · next hother => rw [View.showCanvas_eq, decide_eq_true ⟨hwidth, hheight, hother⟩]

/-! The commands, one family after another. -/

theorem effect_resize {s t : Session} {c : SessionCommand} (h : s.ask c = none) (ht : Aside s t) :
    Effect s c t.resize := by
  have hcanvas := ht.trans (aside_applyCanvas t)
  have hsegments : t.applyCanvas.2.lastSegments = s.lastSegments := by
    obtain ⟨_, _, _, _, _, _, heq⟩ := hcanvas
    rw [heq]
  rw [resize, applyCanvas_eq t]
  cases t.noticed t.canvas with
  | false => exact .aside h hcanvas
  | true =>
    dsimp only
    cases hlast : t.applyCanvas.2.lastSegments with
    | none => exact .aside h hcanvas
    | some segments => exact .shows h hcanvas (hsegments.symm.trans hlast)

theorem effect_changeIterations {s : Session} {c : SessionCommand} {delta : Numeric}
    (h : s.ask c = s.askIterations delta) : Effect s c (s.changeIterations delta) := by
  rw [askIterations] at h
  rw [changeIterations]
  cases hadd : Numeric.addInt? s.config.iterations delta with
  | none =>
    rw [hadd] at h
    exact .fails .countTooLarge h (.refl s)
  | some iterations =>
    rw [hadd] at h
    dsimp only at h ⊢
    cases hmake : Config.make (s.config.settings iterations) with
    | error e =>
      rw [hmake] at h
      dsimp only
      by_cases hreport : e.isReport = true
      · rw [if_pos hreport]
        exact .reports h hreport
      · rw [if_neg hreport]
        exact .fails (.config e) h (.refl s)
    | ok config =>
      rw [hmake] at h
      exact .asks h (aside_config s config)

theorem effect_request {s : Session} {c : SessionCommand} {mode : Value}
    (h : s.ask c = (Mode.ofValue? mode).map .run) : Effect s c (s.request mode) := by
  rw [request]
  cases hmode : Mode.ofValue? mode with
  | none =>
    rw [hmode] at h
    exact .fails (.unknownMode mode) h (.refl s)
  | some m =>
    rw [hmode] at h
    exact .asks h (.refl s)

theorem effect_pressKey (s : Session) (key : List Char) :
    Effect s (.key (some key)) (s.pressKey key) := by
  have h : s.ask (.key (some key)) = s.askKey key := rfl
  rw [askKey] at h
  rw [pressKey]
  split
  · next hkey =>
    rw [if_pos hkey] at h
    exact .asks h (.refl s)
  · next hr =>
    rw [if_neg hr] at h
    split
    · next hkey =>
      rw [if_pos hkey] at h
      exact .asks h (.refl s)
    · next hg =>
      rw [if_neg hg] at h
      split
      · next hkey =>
        rw [if_pos hkey] at h
        exact .stops h
      · next hescape =>
        rw [if_neg hescape] at h
        split
        · next hkey =>
          rw [if_pos hkey] at h
          exact effect_changeIterations h
        · next hup =>
          rw [if_neg hup] at h
          split
          · next hkey =>
            rw [if_pos hkey] at h
            exact effect_changeIterations h
          · next hdown =>
            rw [if_neg hdown] at h
            exact .aside h (.refl s)

theorem effect_perform (s : Session) (c : SessionCommand) : Effect s c (s.perform c) := by
  cases c with
  | run mode =>
    cases mode with
    | none => exact .asks rfl (.refl s)
    | some mode => exact effect_request rfl
  | request mode => exact effect_request rfl
  | key name =>
    cases name with
    | none => exact .aside rfl (.refl s)
    | some key => exact effect_pressKey s key
  | stop => exact .stops rfl
  | close => exact .closes rfl
  | resize size =>
    cases size with
    | none => exact effect_resize rfl (.refl s)
    | some size => exact effect_resize rfl (aside_canvas s size)
  | changeIterations delta => exact effect_changeIterations rfl
  | configure settings =>
    rw [perform]
    cases Config.make settings with
    | error e => exact .fails (.config e) rfl (.refl s)
    | ok config => exact .aside rfl (aside_config s config)
  | setStatus text isError => exact .tells rfl rfl
  | setBatch batch => exact .batches rfl rfl
  | setLimit limit =>
    exact .aside rfl ⟨s.config, limit, s.canvas, s.view, s.viewport, s.printed, rfl⟩

/-! How a run begins. -/

/-- The drawing is on record; the status is blank. -/
def recorded (s : Session) (mode : Mode) (segments : List Segment) (stats : Stats) : Session :=
  { s.setStatus [] false with
    lastSegments := some segments.toArray
    lastMode := mode
    stats := some stats }

/-- What a run can begin with, in a session that has stopped what grew. -/
inductive Beginning (s : Session) : Mode → Session → Prop
  | breaks {t : Session} {mode : Mode} (e : DrawingError) (ht : Aside s t) :
      Beginning s mode ((t.setStatus [] false).fail (.drawing e))
  | reports {t : Session} {mode : Mode} {e : DrawingError} (ht : Aside s t)
      (he : e.isReport = true) :
      Beginning s mode
        { (t.setStatus [] false).setStatus e.message true with phase := .choosing none }
  | renders {t : Session} {segments : List Segment} {stats : Stats} (ht : Aside s t)
      (hcount : stats.segmentCount = segments.length) :
      Beginning s .render
        { (t.recorded .render segments stats).renderAll segments.toArray with
          phase := .choosing none }
  | grows {t : Session} {segments : List Segment} {stats : Stats} (ht : Aside s t)
      (hcount : stats.segmentCount = segments.length) :
      Beginning s .grow ((t.recorded .grow segments stats).beginGrowth segments.toArray)

theorem segmentCount_of_draw {c : Config} {limit : Limit} {segments : List Segment}
    {stats : Stats} (h : c.draw limit = .ok (segments, stats)) :
    stats.segmentCount = segments.length := by
  rw [Config.draw] at h
  split at h
  · cases h
  · split at h
    · cases h
    · obtain ⟨rfl, rfl⟩ := Prod.mk.inj (Except.ok.inj h)
      rfl

/-- A run clears the status when the view is matched to the canvas. -/
theorem beginRun_eq (s : Session) (mode : Mode) :
    s.beginRun mode = (s.stopStage.applyCanvas.2.setStatus [] false).drawRun mode := by
  rw [beginRun, applyCanvas_eq]

theorem beginning_beginRun (s : Session) (mode : Mode) :
    Beginning s.stopStage mode (s.beginRun mode) := by
  have hcanvas := aside_applyCanvas s.stopStage
  rw [beginRun_eq, drawRun]
  split
  · next e _ =>
    split
    · next hreport => exact .reports hcanvas hreport
    · exact .breaks e hcanvas
  · next segments stats hdraw =>
    have hcount := segmentCount_of_draw hdraw
    cases mode with
    | render => exact .renders hcanvas hcount
    | grow => exact .grows hcanvas hcount

/-- A growth begins, or the batch or the delay is refused. -/
theorem beginGrowth_cases (s : Session) (segments : Array Segment) :
    (∃ e t, s.stage.start segments s.batch s.delay = (.error e, t) ∧
      s.beginGrowth segments = { s with stage := t }.fail (.growth e)) ∨
    ∃ n : Nat, 1 ≤ n ∧ s.beginGrowth segments =
      { { s with
          stage := { s.stage.stop.clear.addDetached segments (.whole n) s.delay with
            live := some s.stage.growths.size } }.setStatus "Growing...".toList false with
        phase := .growing s.stage.growths.size } := by
  rw [beginGrowth]
  obtain ⟨e, he⟩ | ⟨e, he⟩ | ⟨n, hn, he⟩ := s.stage.start_cases segments s.batch s.delay
  · rw [he]
    exact Or.inl ⟨e, _, rfl, rfl⟩
  · rw [he]
    exact Or.inl ⟨e, _, rfl, rfl⟩
  · rw [he]
    exact Or.inr ⟨n, hn, rfl⟩

/-- When a growth is about to draw: it is kept from drawing, draws and waits, draws for the last
time, or cannot wait. -/
inductive Ticking (s : Session) (id : Nat) : Session → Prop
  | rests (h : s.stage.Rests id) :
      Ticking s id ({ s with stage := s.stage.release id }.endGrowth id)
  | lasts {g : Growth Segment} (h : s.stage.CanDraw id g) (hlast : g.nextStop = g.total) :
      Ticking s id ({ s with stage := { s.stage.drawBatch id g with live := none } }.endGrowth id)
  | waits {g : Growth Segment} {seconds : Float} (h : s.stage.CanDraw id g)
      (hmore : g.nextStop < g.total) (hgap : g.gap? = some seconds) :
      Ticking s id { s with
        stage := (s.stage.drawBatch id g).wait id seconds
        onWait := s.onWait.next.2
        phase := .waiting id s.onWait.next.1 }
  | breaks {g : Growth Segment} (h : s.stage.CanDraw id g) (hmore : g.nextStop < g.total) :
      Ticking s id ({ s with stage := s.stage.drawBatch id g }.fail (.growth .delayTooLong))

/-- A growth that draws its last batch ends; after any other it waits, unless the delay is too
long. -/
theorem tick_of_canDraw {s : Session} {id : Nat} {g : Growth Segment} (hd : s.stage.CanDraw id g) :
    (g.nextStop = g.total ∧ s.tick id =
      { s with stage := { s.stage.drawBatch id g with live := none } }.endGrowth id) ∨
    (∃ seconds, g.nextStop < g.total ∧ g.gap? = some seconds ∧ s.tick id = { s with
      stage := (s.stage.drawBatch id g).wait id seconds
      onWait := s.onWait.next.2
      phase := .waiting id s.onWait.next.1 }) ∨
    (g.nextStop < g.total ∧ g.gap? = none ∧ s.tick id =
      { s with stage := s.stage.drawBatch id g }.fail (.growth .delayTooLong)) := by
  have hopen := Stage.openTick_of_canDraw hd
  have htick := Stage.tick_of_canDraw hd
  rw [Stage.tick, hopen] at htick
  rw [tick, hopen]
  dsimp only at htick ⊢
  rcases htick with ⟨hmore, htick⟩ | ⟨hlast, htick⟩
  · have hgap : ((s.stage.drawBatch id g).growths[id]?).bind Growth.gap? = g.gap? := by
      rw [hd.found_drawBatch]
      rfl
    rw [htick]
    dsimp only
    rw [beginWait]
    dsimp only
    rw [hgap]
    cases hseconds : g.gap? with
    | none => exact Or.inr (Or.inr ⟨hmore, rfl, rfl⟩)
    | some seconds => exact Or.inr (Or.inl ⟨seconds, hmore, rfl, rfl⟩)
  · rw [htick]
    exact Or.inl ⟨hlast, rfl⟩

theorem ticking_tick {s : Session} (hs : s.stage.Sound) (id : Nat) : Ticking s id (s.tick id) := by
  rcases Stage.rests_or_canDraw hs id with hr | ⟨g, hd⟩
  · rw [tick, Stage.openTick_of_rests hr]
    exact .rests hr
  · rcases tick_of_canDraw hd with ⟨hlast, htick⟩ | ⟨seconds, hmore, hgap, htick⟩ | ⟨hmore, _, htick⟩
    · rw [htick]
      exact .lasts hd hlast
    · rw [htick]
      exact .waits hd hmore hgap
    · rw [htick]
      exact .breaks hd hmore

/-- What a step does. -/
inductive Stepping (s : Session) : Session → Prop
  | idles (h : s.phase = .idle) : Stepping s s
  | ends {last : Option Nat} (h : s.phase = .choosing last) (hp : s.pending = none) :
      Stepping s { s with phase := .idle, reply := last }
  | begins {last : Option Nat} {mode : Mode} {t : Session} (h : s.phase = .choosing last)
      (hp : s.pending = some mode) (ht : Beginning { s with pending := none }.stopStage mode t) :
      Stepping s t
  | ticks {id : Nat} {t : Session} (h : s.phase = .growing id) (ht : Ticking s id t) : Stepping s t
  | resumes {id : Nat} (h : s.phase = .waiting id []) : Stepping s { s with phase := .growing id }
  | performs {id : Nat} {c : SessionCommand} {rest : List SessionCommand} {t : Session}
      (h : s.phase = .waiting id (c :: rest))
      (ht : Effect { s with phase := .waiting id rest } c t) : Stepping s t

theorem stepping_step {s : Session} (hs : s.stage.Sound) : Stepping s s.step := by
  rw [step]
  split
  · next h => exact .idles h
  · next last h =>
    split
    · next hp => exact .ends h hp
    · next mode hp => exact .begins h hp (beginning_beginRun _ mode)
  · next id h => exact .ticks h (ticking_tick hs id)
  · next id h => exact .resumes h
  · next id c rest h => exact .performs h (effect_perform _ c)

end Session

end Lindenmayer
