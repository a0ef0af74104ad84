import Lindenmayer.Proofs.Session.Comparison
import Lindenmayer.Proofs.Session.Failure

/-!
# A resize while a growth waits

The canvas of a growth in progress has been looked at: when the run began, or when it was given
another size. So a size without an area, or the one seen last, is not noticed, and the growth goes
on as if nothing had been said. Any other size stops the growth and shows the drawing at once, and
then there is nothing left to do but what the wait was still to hold.
-/
namespace Lindenmayer

namespace Session

/-- A growth in progress draws what is on record, on a canvas that has been looked at. -/
def Watched (s : Session) : Prop :=
  s.phase.growth? ≠ none → s.lastSegments ≠ none ∧ s.noticed s.canvas = false

variable {s t : Session} {c : SessionCommand} {id : Nat}

/-! The growth in progress. -/

theorem Effect.lastSegments_eq (h : Effect s c t) : t.lastSegments = s.lastSegments := by
  cases h with
  | asks _ hu =>
    obtain ⟨_, _, _, _, _, _, rfl⟩ := hu
    rw [enqueue]
    split
    · rfl
    · rfl
  | stops _ => rw [stop, setStatus_eq]; rfl
  | fails _ _ hu =>
    obtain ⟨_, _, _, _, _, _, rfl⟩ := hu
    rfl
  | reports _ _ => rw [setStatus_eq]
  | tells _ _ => rw [setStatus_eq]
  | closes _ => rfl
  | shows _ hu _ =>
    obtain ⟨_, _, _, _, _, _, rfl⟩ := hu
    rw [renderAll, setStatus_eq]
  | batches _ _ => rfl
  | aside _ hu =>
    obtain ⟨_, _, _, _, _, _, rfl⟩ := hu
    rfl

theorem lastSegments_endGrowth (s : Session) (id : Nat) :
    (s.endGrowth id).lastSegments = s.lastSegments := by
  rw [endGrowth]
  split
  · rw [setStatus_eq]
  · rfl

theorem Ticking.lastSegments_eq (h : Ticking s id t) : t.lastSegments = s.lastSegments := by
  cases h with
  | rests _ => exact lastSegments_endGrowth _ id
  | lasts _ _ => exact lastSegments_endGrowth _ id
  | waits _ _ _ => rfl
  | breaks _ _ => rfl

theorem Beginning.lastSegments_ne_none {mode : Mode} (h : Beginning s mode t)
    (ht : t.phase.growth? ≠ none) : t.lastSegments ≠ none := by
  cases h with
  | breaks e _ => exact absurd rfl ht
  | reports _ _ => exact absurd rfl ht
  | renders _ _ => exact absurd rfl ht
  | @grows u segments stats _ _ =>
    obtain ⟨e, stage, _, heq⟩ | ⟨n, _, heq⟩ :=
      beginGrowth_cases (u.recorded .grow segments stats) segments.toArray
    · rw [heq] at ht
      exact absurd rfl ht
    · rw [heq, setStatus_eq]
      exact Option.some_ne_none _

/-- The growth in progress was in progress before, unless a run begins with it. -/
theorem Stepping.watched (h : Stepping s t) (hs : s.Watched)
    (hseen : (s.looks = [] → s.noticed s.canvas = false) → t.noticed t.canvas = false) :
    t.Watched := by
  intro hgrowth
  have hkept : s.phase.growth? ≠ none → t.lastSegments = s.lastSegments →
      t.lastSegments ≠ none ∧ t.noticed t.canvas = false := by
    intro hbefore hlast
    obtain ⟨hsegments, hunnoticed⟩ := hs hbefore
    exact ⟨hlast ▸ hsegments, hseen fun _ => hunnoticed⟩
  cases h with
  | idles _ => exact hs hgrowth
  | ends _ _ => exact absurd rfl hgrowth
  | begins hphase hpending hbegin =>
    refine ⟨hbegin.lastSegments_ne_none hgrowth, hseen fun hnone => ?_⟩
    simp [looks, hphase, hpending] at hnone
  | ticks hphase htick => exact hkept (by simp [hphase, Phase.growth?]) htick.lastSegments_eq
  | resumes hphase => exact hkept (by simp [hphase, Phase.growth?]) rfl
  | performs hphase heffect => exact hkept (by simp [hphase, Phase.growth?]) heffect.lastSegments_eq

theorem watched_iterate (hs : s.Sound) (hwatched : s.Watched) (n : Nat) : (step^[n] s).Watched := by
  induction n with
  | zero => exact hwatched
  | succ n ih =>
    rw [Function.iterate_succ_apply']
    exact (stepping_step (sound_iterate hs n).stage).watched ih noticed_step

/-- A session at rest that was given a command has no growth in progress yet. -/
theorem watched_told (hidle : s.phase = .idle) (c : SessionCommand) : (s.told c).Watched := by
  intro hgrowth
  obtain hphase | hphase | hphase :=
    (effect_perform { s with reply := none, failure := none } c).phase_cases
  · exact absurd (congrArg Phase.growth? hphase) hgrowth
  · exact absurd (congrArg Phase.growth? (hphase.trans hidle)) hgrowth
  · exact absurd (congrArg Phase.growth? hphase) hgrowth

/-! What a resize does. -/

theorem resize_of_unnoticed (h : s.noticed s.canvas = false) :
    s.resize = { s with printed := s.printed ++ areaLine s.canvas } := by
  rw [resize, applyCanvas_of_unnoticed h]

theorem resize_of_noticed {segments : Array Segment} (h : s.noticed s.canvas = true)
    (hlast : s.lastSegments = some segments) : ∃ u, Aside s u ∧ s.resize = u.renderAll segments := by
  have hcanvas := aside_applyCanvas s
  have hsegments : s.applyCanvas.2.lastSegments = some segments := by
    obtain ⟨_, _, _, _, _, _, heq⟩ := hcanvas
    rw [heq]
    exact hlast
  rw [resize, applyCanvas_eq, h]
  dsimp only
  rw [hsegments]
  exact ⟨_, hcanvas, rfl⟩

/-! A resize in a wait. -/

variable {now wait : Session} {before after : List SessionCommand} {size : Option Canvas}

/-- The session does not perform the next command of the wait. -/
def skipping (s : Session) (id : Nat) (rest : List SessionCommand) : Session :=
  { s with phase := .waiting id rest }

/-- The growth was cancelled where it stood, and the drawing on record is shown at once. -/
structure Redrawn (id : Nat) (segments : Array Segment) (s t : Session) : Prop where
  growth : ∃ g, s.stage.growths[id]? = some g ∧
    t.stage.growths[id]? = some { g with cancelled := true }
  strokes : t.stage.picture.strokes = if segments.isEmpty then #[] else #[segments]
  status : t.status = ⟨rendered, false⟩
  live : t.stage.live = none

theorem step_of_resize (hphase : now.phase = .waiting id (.resize size :: after)) :
    now.step = { now.skipping id after with canvas := size.getD now.canvas }.resize := by
  rw [step_of_waiting hphase]
  cases size with
  | none => rfl
  | some size => rfl

theorem step_of_unnoticed_resize (hphase : now.phase = .waiting id (.resize size :: after))
    (h : now.noticed (size.getD now.canvas) = false) :
    now.step = { now.skipping id after with
      canvas := size.getD now.canvas
      printed := now.printed ++ areaLine (size.getD now.canvas) } := by
  have hresize := resize_of_unnoticed
    (s := { now.skipping id after with canvas := size.getD now.canvas }) h
  rw [step_of_resize hphase, hresize]
  rfl

/-- A resize that is not noticed is as good as none. -/
theorem unseeing_resize (hphase : now.phase = .waiting id (.resize size :: after))
    (hnow : now.noticed now.canvas = false) (h : now.noticed (size.getD now.canvas) = false) :
    Unseeing (now.skipping id after) now.step := by
  rw [step_of_unnoticed_resize hphase h]
  exact ⟨⟨_, rfl⟩, hnow, h⟩

theorem redrawn_renderAll {u : Session} {g : Growth Segment} (hu : Aside (now.skipping id after) u)
    (hg : now.stage.growths[id]? = some g) (hheld : now.stage.Held id)
    (segments : Array Segment) : Redrawn id segments now (u.renderAll segments) := by
  obtain ⟨_, _, _, _, _, _, rfl⟩ := hu
  rw [renderAll, setStatus_eq]
  refine ⟨⟨g, hg, ?_⟩, ?_, rfl, Stage.live_stop now.stage⟩
  · have hstopped := now.stage.growth_stop id
    rw [hg] at hstopped
    refine hstopped.trans ?_
    rw [Option.map_some]
    split
    · rfl
    · next hquiet =>
      -- it is not live any more, so it was cancelled earlier in the wait
      obtain ⟨g', hg', hcancelled⟩ := hheld.resolve_left hquiet
      obtain rfl := Option.some.inj (hg.symm.trans hg')
      rw [← hcancelled]
  · rw [Stage.drawAll, Stage.stroke, Stage.record, Stage.clear, Stage.record, Picture.stroke]
    dsimp only
    split
    · rfl
    · rfl

/-- In a wait the growth is live or was cancelled, and the session is as it is in the middle of any
command. -/
theorem ComesToWait.midway (hwait : ComesToWait s c id (before ++ after) wait) (hs : s.Sound)
    (hidle : s.phase = .idle) (hnow : now = step^[before.length] wait)
    (hphase : now.phase = .waiting id after) :
    now.Sound ∧ now.Watched ∧ now.stage.Held id := by
  have hperformed := hphase
  rw [hnow] at hperformed
  obtain ⟨_, _, hheld⟩ := hwait.after_commands hs hidle hperformed
  obtain ⟨n, _, rfl, _⟩ := hwait
  rw [← Function.iterate_add_apply] at hnow hheld
  subst hnow
  exact ⟨sound_iterate (sound_told hs c) _,
    watched_iterate (sound_told hs c) (watched_told hidle c) _, hheld⟩

/-- A resize in a wait for a canvas that has no area, or is the one seen last, changes nothing but
the canvas and what is printed, and whatever comes after it in the command is as it would have been
without it. Any other canvas cancels the growth where it stands and shows the drawing on record in
one stroke, and if the wait holds nothing else, this is the end of the command. -/
theorem resize_ignored_or_redraws (hs : Reached s) (hidle : s.phase = .idle)
    (hwait : ComesToWait s c id (before ++ .resize size :: after) wait)
    (hnow : now = step^[before.length] wait)
    (hphase : now.phase = .waiting id (.resize size :: after)) :
    (now.noticed (size.getD now.canvas) = false →
      now.step = { now.skipping id after with
        canvas := size.getD now.canvas
        printed := now.printed ++ areaLine (size.getD now.canvas) } ∧
      (∀ k, ∃ canvas printed, step^[k] now.step =
        { step^[k] (now.skipping id after) with canvas := canvas, printed := printed }) ∧
      ∃ canvas printed, now.step.settle =
        { (now.skipping id after).settle with canvas := canvas, printed := printed }) ∧
    (now.noticed (size.getD now.canvas) = true →
      ∃ segments, now.lastSegments = some segments ∧ Redrawn id segments now now.step ∧
        (before = [] → after = [] → s.command c =
          { now.step with phase := .idle, reply := if answers c then some id else none })) := by
  obtain ⟨hsound, hwatched, hheld⟩ := hwait.midway hs.sound hidle hnow hphase
  have hgrowth : now.phase.growth? = some id := congrArg Phase.growth? hphase
  obtain ⟨hlast, hseen⟩ := hwatched (by simp [hgrowth])
  refine ⟨fun hignored => ?_, fun hnoticed => ?_⟩
  · have hunseeing := unseeing_resize hphase hseen hignored
    refine ⟨step_of_unnoticed_resize hphase hignored, fun k => ?_, ?_⟩
    · obtain ⟨printed, heq⟩ := (hunseeing.iterate k).apart
      exact ⟨_, printed, heq⟩
    · obtain ⟨printed, heq⟩ := hunseeing.settle.apart
      exact ⟨_, printed, heq⟩
  · obtain ⟨segments, hsegments⟩ := Option.ne_none_iff_exists'.1 hlast
    have hg := Array.getElem?_eq_getElem (hsound.growth_lt id hgrowth)
    obtain ⟨u, hu, hresize⟩ := resize_of_noticed
      (s := { now.skipping id after with canvas := size.getD now.canvas }) hnoticed hsegments
    have haside : Aside (now.skipping id after) u := (aside_canvas _ _).trans hu
    rw [← step_of_resize hphase] at hresize
    have hredrawn : Redrawn id segments now now.step := by
      rw [hresize]
      exact redrawn_renderAll haside hg hheld segments
    refine ⟨segments, hsegments, hredrawn, ?_⟩
    rintro rfl rfl
    obtain ⟨_, _, hpending⟩ := hwait.begins hs.sound hidle
    obtain rfl : now = wait := hnow
    obtain ⟨g, _, hcancelled⟩ := hredrawn.growth
    have hnext : now.step.phase = .waiting id [] ∧ now.step.pending = now.pending := by
      obtain ⟨_, _, _, _, _, _, rfl⟩ := haside
      rw [hresize, renderAll, setStatus_eq]
      exact ⟨rfl, rfl⟩
    exact hwait.command_eq_of_stopped (k := 1) hnext.1 hredrawn.live
      (Or.inr ⟨_, hcancelled, rfl⟩) (hnext.2.trans hpending)

/-- A resize to a canvas with an area ends the command at once, with both segments in one stroke; a
resize to one without is ignored, and the growth goes on to draw them one by one. -/
theorem resized_shows_in_one_stroke :
    ((interruptedBy [.resize (some (.ofPixels 200 100))]).command
      (.run (some (.text "grow".toList)))).reply = some 0 ∧
    ((interruptedBy [.resize (some (.ofPixels 200 100))]).command
      (.run (some (.text "grow".toList)))).status = ⟨rendered, false⟩ ∧
    ((interruptedBy [.resize (some (.ofPixels 200 100))]).command
      (.run (some (.text "grow".toList)))).stage.picture.strokes.size = 1 ∧
    ∃ wait, ComesToWait (interruptedBy [.resize (some (.ofPixels 7 0))])
        (.run (some (.text "grow".toList))) 0 [.resize (some (.ofPixels 7 0))] wait ∧
      wait.step.settle.status = ⟨"Grown.".toList, false⟩ ∧
      wait.step.settle.stage.picture.strokes.size = 2 := by
  have hnoticed : ComesToWait (interruptedBy [.resize (some (.ofPixels 200 100))])
      (.run (some (.text "grow".toList))) 0 ([] ++ .resize (some (.ofPixels 200 100)) :: []) _ :=
    ⟨1, rfl, rfl, rfl⟩
  have hignored : ComesToWait (interruptedBy [.resize (some (.ofPixels 7 0))])
      (.run (some (.text "grow".toList))) 0 ([] ++ .resize (some (.ofPixels 7 0)) :: []) _ :=
    ⟨1, rfl, rfl, rfl⟩
  obtain ⟨-, hredraws⟩ :=
    resize_ignored_or_redraws (reached_interruptedBy _) rfl hnoticed rfl rfl
  obtain ⟨hignores, -⟩ :=
    resize_ignored_or_redraws (reached_interruptedBy _) rfl hignored rfl rfl
  obtain ⟨segments, hsegments, hredrawn, hends⟩ := hredraws rfl
  obtain ⟨-, -, canvas, printed, hsettled⟩ := hignores rfl
  have hended := settle_eq_iterate
    (s := (step^[2] ((interruptedBy [.resize (some (.ofPixels 7 0))]).told
      (.run (some (.text "grow".toList))))).skipping 0 []) (n := 3)
    (idle_of_not_running (by decide +kernel))
  refine ⟨?_, ?_, ?_, _, hignored, ?_, ?_⟩
  · rw [hends rfl rfl]
    rfl
  · rw [hends rfl rfl]
    exact hredrawn.status
  · have hdrawn : (some segments).map Array.isEmpty = some false := hsegments ▸ rfl
    have hstrokes := hredrawn.strokes
    rw [if_neg (by simpa using hdrawn)] at hstrokes
    rw [hends rfl rfl]
    exact congrArg Array.size hstrokes
  · exact (congrArg Session.status hsettled).trans (congrArg Session.status hended)
  · exact (congrArg (fun t => t.stage.picture.strokes.size) hsettled).trans
      (congrArg (fun t => t.stage.picture.strokes.size) hended)

end Session

end Lindenmayer
