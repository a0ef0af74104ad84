import Lindenmayer.Animation.Script
import Lindenmayer.Proofs.Animation.Slices

/-!
# What happens to one growth

Whatever a stage does, in the middle of a stroke or of a wait, comes to one of three things for a
given growth: a slice of it is drawn, its cursor is moved to where a slice ended, or neither. In the
last case the growth stays as it is, except that it may be cancelled, and it is live afterwards only
if it was live before.
-/
namespace Lindenmayer

variable {σ : Type}

/-- What is done for a growth: the segments from one place up to another are drawn, or the cursor
is moved. -/
inductive Deed where
  | draw (first stop : Nat)
  | move (stop : Nat)
  deriving DecidableEq

namespace Deed

/-- The segment at place `i` is drawn. -/
def covers (i : Nat) : Deed → Bool
  | draw first stop => decide (first ≤ i ∧ i < stop)
  | move _ => false

def isDraw : Deed → Bool
  | draw _ _ => true
  | move _ => false

/-- What is drawn of the given segments. -/
def slice? (segments : Array σ) : Deed → Option (Array σ)
  | draw first stop => some (segments.extract first stop)
  | move _ => none

end Deed

namespace Stage

/-- From one stage to the other nothing was drawn for the growth and its cursor did not move. A
growth that was live before is still live or else cancelled. -/
structure Keeps (id : Nat) (s t : Stage σ) : Prop where
  kept : ∀ g, s.growths[id]? = some g → ∃ c, t.growths[id]? = some { g with cancelled := c } ∧
    (g.cancelled = true → c = true) ∧ (s.live = some id → t.live = some id ∨ c = true) ∧
    (t.live = some id → s.live = some id)
  born : s.growths[id]? = none → ∀ g, t.growths[id]? = some g → g.cursor = 0
  unborn : s.growths[id]? = none → t.growths[id]? = none → s.live ≠ some id → t.live ≠ some id
  slices : t.slices id = s.slices id

theorem keeps_of_eq {id : Nat} {s t : Stage σ} (hgrowths : t.growths[id]? = s.growths[id]?)
    (hlive : t.live = s.live) (hslices : t.slices id = s.slices id) : s.Keeps id t := by
  constructor
  · intro g hg
    exact ⟨g.cancelled, by rw [hgrowths, hg], fun hc => hc, fun hl => Or.inl (hlive.trans hl),
      fun hl => hlive.symm.trans hl⟩
  · intro hnone g hg
    simp [hgrowths, hnone] at hg
  · intro _ _ hl
    rwa [hlive]
  · exact hslices

theorem Keeps.trans {id : Nat} {s t u : Stage σ} (h : s.Keeps id t) (h' : t.Keeps id u) :
    s.Keeps id u := by
  constructor
  · intro g hg
    obtain ⟨c, hc, hcancelled, hlive, hback⟩ := h.kept g hg
    obtain ⟨c', hc', hcancelled', hlive', hback'⟩ := h'.kept _ hc
    refine ⟨c', hc', fun h => hcancelled' (hcancelled h), ?_, fun h => hback (hback' h)⟩
    intro hl
    rcases hlive hl with hl | hl
    · exact hlive' hl
    · exact Or.inr (hcancelled' hl)
  · intro hnone g hg
    cases ht : t.growths[id]? with
    | none => exact h'.born ht g hg
    | some g₀ =>
      obtain ⟨c, hc, -⟩ := h'.kept g₀ ht
      obtain rfl := Option.some.inj (hc.symm.trans hg)
      exact h.born hnone g₀ ht
  · intro hnone hu hl
    cases ht : t.growths[id]? with
    | none => exact h'.unborn ht hu (h.unborn hnone ht hl)
    | some g₀ =>
      obtain ⟨c, hc, -⟩ := h'.kept g₀ ht
      simp [hu] at hc
  · exact h'.slices.trans h.slices

variable {id : Nat}

theorem keeps_cancel (s : Stage σ) (k : Nat) : s.Keeps id (s.cancel k) := by
  constructor
  · intro g hg
    rw [growth_cancel, hg]
    by_cases hk : k = id
    · exact ⟨true, by simp [hk], by simp, fun hl => Or.inl hl, fun hl => hl⟩
    · exact ⟨g.cancelled, by simp [hk], fun hc => hc, fun hl => Or.inl hl, fun hl => hl⟩
  · intro hnone g hg
    simp [growth_cancel, hnone] at hg
  · exact fun _ _ hl => hl
  · rfl

theorem keeps_stop (s : Stage σ) : s.Keeps id s.stop := by
  constructor
  · intro g hg
    rw [growth_stop, hg, live_stop]
    by_cases hl : s.live = some id
    · exact ⟨true, by simp [hl], by simp, fun _ => Or.inr rfl, by simp⟩
    · exact ⟨g.cancelled, by simp [hl], fun hc => hc, fun h => absurd h hl, by simp⟩
  · intro hnone g hg
    simp [growth_stop, hnone] at hg
  · simp [live_stop]
  · simp [slices, log_stop]

theorem keeps_record {s t : Stage σ} {e : Event σ} (ht : t = { s with picture := t.picture }.record e)
    (he : e.sliceOf? id = none) : s.Keeps id t := by
  rw [ht]
  refine keeps_of_eq rfl rfl ?_
  rw [slices_record, he]
  exact List.append_nil _

theorem keeps_clear (s : Stage σ) : s.Keeps id s.clear := keeps_record rfl rfl

theorem keeps_wait (s : Stage σ) (k : Nat) (seconds : Float) : s.Keeps id (s.wait k seconds) :=
  keeps_record rfl rfl

theorem keeps_stroke {source : Option Nat} (h : source ≠ some id) (s : Stage σ)
    (segments : Array σ) : s.Keeps id (s.stroke source segments) := by
  refine keeps_record rfl ?_
  cases source with
  | none => rfl
  | some k => exact if_neg fun hk => h (congrArg some hk)

theorem keeps_drawAll (s : Stage σ) (segments : Array σ) : s.Keeps id (s.drawAll segments) :=
  (s.keeps_stop.trans (keeps_clear _)).trans (keeps_stroke (by simp) _ segments)

/-- A growth that is added changes nothing for the others, whether it becomes live or not. -/
theorem keeps_push {s t : Stage σ} {segments : Array σ} {batch delay : Numeric}
    (hgrowths : t.growths = (s.addDetached segments batch delay).growths)
    (hslices : t.slices id = s.slices id)
    (hlive : t.live = s.live ∨ s.live = none ∧ t.live = some s.growths.size) : s.Keeps id t := by
  have hpush : t.growths[id]? = if id = s.growths.size then some (.new segments batch delay)
      else s.growths[id]? := by
    rw [hgrowths, growth_addDetached]
  constructor
  · intro g hg
    have hne : id ≠ s.growths.size := by
      obtain ⟨hlt, -⟩ := Array.getElem?_eq_some_iff.1 hg
      omega
    refine ⟨g.cancelled, by rw [hpush, if_neg hne, hg], fun hc => hc, ?_, ?_⟩
    · rintro hl
      rcases hlive with h | ⟨h, -⟩
      · exact Or.inl (h.trans hl)
      · simp [h] at hl
    · intro hl
      rcases hlive with h | ⟨-, h⟩
      · exact h.symm.trans hl
      · rw [h] at hl
        exact absurd (Option.some.inj hl).symm hne
  · intro hnone g hg
    rw [hpush, hnone] at hg
    split at hg
    · obtain rfl := Option.some.inj hg
      rfl
    · cases hg
  · intro hnone hnone' hl
    have hne : id ≠ s.growths.size := by
      rintro rfl
      simp [hpush] at hnone'
    rcases hlive with h | ⟨-, h⟩
    · rwa [h]
    · rw [h]
      exact fun hid => hne (Option.some.inj hid).symm
  · exact hslices

theorem keeps_start (s : Stage σ) (segments : Array σ) (batch delay : Numeric) :
    s.Keeps id (s.start segments batch delay).2 := by
  have hwiped : s.Keeps id s.stop.clear := s.keeps_stop.trans (keeps_clear _)
  obtain ⟨e, he⟩ | ⟨e, he⟩ | ⟨n, -, he⟩ := start_cases s segments batch delay
  · rw [he]
    exact keeps_of_eq rfl rfl rfl
  · rw [he]
    exact hwiped
  · rw [he, ← size_stop s]
    exact hwiped.trans (keeps_push rfl rfl (Or.inr ⟨live_stop s, rfl⟩))

theorem keeps_release {s : Stage σ} {k : Nat} (h : s.Rests k) : s.Keeps id (s.release k) := by
  by_cases hl : s.live = some k
  · rw [release, if_pos hl]
    constructor
    · intro g hg
      refine ⟨g.cancelled, hg, fun hc => hc, ?_, by simp⟩
      intro hid
      obtain rfl := Option.some.inj (hl.symm.trans hid)
      rcases h with h | ⟨g', hg', hc⟩
      · exact absurd hl h
      · obtain rfl := Option.some.inj (hg.symm.trans hg')
        exact Or.inr hc
    · intro hnone g hg
      simp [hnone] at hg
    · simp
    · rfl
  · rw [release, if_neg hl]
    exact keeps_of_eq rfl rfl rfl

/-- The end of a batch concerns its own growth only. -/
theorem keeps_closeTick {k : Nat} (hk : k ≠ id) (s : Stage σ) (stop : Nat) :
    s.Keeps id (s.closeTick k stop).2 := by
  have hmoved : s.Keeps id
      { s with growths := s.growths.modify k fun g => { g with cursor := stop } } :=
    keeps_of_eq (by simp [Array.getElem?_modify, hk]) rfl rfl
  unfold closeTick
  dsimp only
  split
  · exact hmoved
  · split
    · refine hmoved.trans ?_
      rw [release]
      split
      · next hl =>
        have hne : s.live ≠ some id := fun hid => hk (Option.some.inj (hl.symm.trans hid))
        constructor
        · exact fun g hg => ⟨g.cancelled, hg, fun hc => hc, fun h => absurd h hne, by simp⟩
        · intro hnone g hg
          simp [hnone] at hg
        · simp
        · rfl
      · exact keeps_of_eq rfl rfl rfl
    · exact hmoved

/-- A tick draws, or else it keeps everything as it was for every growth. -/
theorem openTick_cases (s : Stage σ) (k : Nat) :
    (∃ t, s.openTick k = (none, t) ∧ ∀ id, s.Keeps id t) ∨ ∃ g, s.CanDraw k g := by
  cases hg : s.growths[k]? with
  | none => exact Or.inl ⟨s, by simp [openTick, hg], fun id => keeps_of_eq rfl rfl rfl⟩
  | some g =>
    by_cases hrests : g.cancelled = true ∨ s.live ≠ some k
    · have h : s.Rests k := hrests.symm.imp_right fun hc => ⟨g, hg, hc⟩
      exact Or.inl ⟨_, openTick_of_rests h, fun id => keeps_release h⟩
    · obtain ⟨hc, hl⟩ := not_or.1 hrests
      exact Or.inr ⟨g, Decidable.not_not.1 hl, hg, Bool.eq_false_iff.2 hc⟩

/-- What the end of a batch makes of its growth. -/
theorem closeTick_found {s : Stage σ} {g : Growth σ} (hg : s.growths[id]? = some g) (stop : Nat) :
    (s.closeTick id stop).2.growths[id]? = some { g with cursor := stop } ∧
      (s.closeTick id stop).2.slices id = s.slices id ∧
      ((s.closeTick id stop).1 = true ∧ stop < g.total ∧ g.cancelled = false ∧
          (s.closeTick id stop).2.live = s.live ∨
        (s.closeTick id stop).1 = false ∧ (s.closeTick id stop).2.live ≠ some id) := by
  have hafter : (s.growths.modify id fun g => { g with cursor := stop })[id]? =
      some { g with cursor := stop } := by
    simp [Array.getElem?_modify, hg]
  rw [closeTick_of_found hg rfl]
  split
  · refine ⟨by rw [growths_release]; exact hafter, ?_, Or.inr ⟨rfl, ?_⟩⟩
    · rw [release]
      split <;> rfl
    · rw [release]
      split
      · simp
      · assumption
  · next hend =>
    simp only [Growth.done, Growth.total, Bool.or_eq_true, not_or] at hend
    have hlt : ¬ g.segments.size ≤ stop := fun hle => hend.1 (decide_eq_true hle)
    exact ⟨hafter, rfl, Or.inl ⟨rfl, Nat.lt_of_not_le hlt, Bool.eq_false_iff.2 hend.2, rfl⟩⟩

/-- What a moment comes to for one growth: nothing is drawn and its cursor stays, or a slice is
drawn, or the cursor moves. `way` holds the places to which strokes under way are to move it. -/
inductive Passage (id : Nat) : Stage σ → List Nat → List Deed → Stage σ → List Nat → Prop
  | keep {s t : Stage σ} {way way' : List Nat} (h : s.Keeps id t) (hway : way'.Sublist way) :
      Passage id s way [] t way'
  | draw {s : Stage σ} {way way' : List Nat} {g : Growth σ} (h : s.CanDraw id g)
      (hway : way'.Sublist (g.nextStop :: way)) :
      Passage id s way [.draw g.cursor g.nextStop]
        (s.stroke (some id) (g.slice g.nextStop)) way'
  | move {s t : Stage σ} {way way' : List Nat} (stop : Nat)
      (h : (s.closeTick id stop).2.Keeps id t) (hway : way'.Sublist way) :
      Passage id s (stop :: way) [.move stop] t way'

end Stage

namespace ScriptedStage

/-- What a tick of the growth draws, if it may draw. -/
def drawing? (s : Stage σ) (id : Nat) : Option (Nat × Deed) :=
  (s.openTick id).1.bind fun stop => (s.growths[id]?).map fun g => (id, .draw g.cursor stop)

/-- What work on a task does for a growth, with the number of that growth. -/
def deedOf? (s : Stage σ) : StageTask σ → Option (Nat × Deed)
  | .commands (.tick id) _ => drawing? s id
  | .growing id => drawing? s id
  | .stroked id stop _ => some (id, .move stop)
  | _ => none

/-- What the next step does for a growth. -/
def deed? (a : ScriptedStage σ) : Option (Nat × Deed) := a.tasks.head?.bind (deedOf? a.stage)

/-- Another command begins, on top of whatever has begun before. -/
def begun (a : ScriptedStage σ) (c : StageCommand σ) : ScriptedStage σ :=
  { a with tasks := .commands c [] :: a.tasks, reply := .nothing, failure := none }

/-- What may happen at any moment, in the middle of a stroke or of a wait, and what it does for a
growth. -/
inductive Beat : ScriptedStage σ → Option (Nat × Deed) → ScriptedStage σ → Prop
  | step (a : ScriptedStage σ) : Beat a a.deed? a.step
  | begin (a : ScriptedStage σ) (c : StageCommand σ) : Beat a none (a.begun c)
  /-- An error from elsewhere ends some of the tasks, strokes among them. -/
  | unwind (a : ScriptedStage σ) (k : Nat) : Beat a none { a with tasks := a.tasks.drop k }
  /-- An error that would end all tasks is caught below the topmost one. -/
  | recover (a : ScriptedStage σ) (k : Nat) (hfail : a.step.failure ≠ none)
      (hend : a.step.tasks = []) :
      Beat a a.deed? { a.step with tasks := a.tasks.drop (k + 1), failure := none }

/-- A course of events with what was done in it for all growths. -/
inductive Path : ScriptedStage σ → List (Nat × Deed) → ScriptedStage σ → Prop
  | refl (a : ScriptedStage σ) : Path a [] a
  | tail {a b c : ScriptedStage σ} {deeds : List (Nat × Deed)} {d : Option (Nat × Deed)}
      (h : Path a deeds b) (hbeat : Beat b d c) : Path a (deeds ++ d.toList) c

/-- What was done for one growth. -/
def deedsFor (id : Nat) (deeds : List (Nat × Deed)) : List Deed :=
  deeds.filterMap fun d => if d.1 = id then some d.2 else none

/-- Where the strokes under way are to move the cursor of the growth. -/
def underWay (id : Nat) (tasks : List (StageTask σ)) : List Nat :=
  tasks.filterMap fun task =>
    match task with
    | .stroked k stop _ => if k = id then some stop else none
    | _ => none

variable {id : Nat}

theorem underWay_withCommands (commands : List (StageCommand σ)) (tasks : List (StageTask σ)) :
    underWay id (withCommands commands tasks) = underWay id tasks := by
  cases commands <;> rfl

theorem underWay_drop (tasks : List (StageTask σ)) (k : Nat) :
    (underWay id (tasks.drop k)).Sublist (underWay id tasks) :=
  (List.drop_sublist k tasks).filterMap _

theorem underWay_afterStroke (a : ScriptedStage σ) (task : StageTask σ) :
    underWay id (a.afterStroke task).tasks = underWay id (task :: a.tasks) :=
  underWay_withCommands _ _

theorem deedsFor_append (deeds deeds' : List (Nat × Deed)) :
    deedsFor id (deeds ++ deeds') = deedsFor id deeds ++ deedsFor id deeds' :=
  List.filterMap_append

/-! What each kind of task comes to for a growth. -/

theorem passage_openTick (a : ScriptedStage σ) (k : Nat) (again : Bool) {way : List Nat}
    (hway : way.Sublist (underWay id (a.openTick k again).tasks) ∨ way.Sublist (underWay id a.tasks)) :
    Stage.Passage id a.stage (underWay id a.tasks) (deedsFor id (drawing? a.stage k).toList)
      (a.openTick k again).stage way := by
  rw [openTick] at hway ⊢
  rcases a.stage.openTick_cases k with ⟨t, ht, hkeeps⟩ | ⟨g, hd⟩
  · have hnothing : drawing? a.stage k = none := by simp [drawing?, ht]
    rw [hnothing]
    rw [ht] at hway ⊢
    exact .keep (hkeeps id) (or_self_iff.1 hway)
  · have hopen := Stage.openTick_of_canDraw hd
    have hdraws : drawing? a.stage k = some (k, .draw g.cursor g.nextStop) := by
      simp [drawing?, hopen, hd.found]
    rw [hdraws]
    rw [hopen] at hway ⊢
    rw [underWay_afterStroke] at hway
    by_cases hk : k = id
    · subst hk
      have hnext : underWay k (.stroked k g.nextStop again :: a.tasks) =
          g.nextStop :: underWay k a.tasks := by
        simp [underWay]
      have hsub : way.Sublist (g.nextStop :: underWay k a.tasks) := by
        rcases hway with h | h
        · exact hnext ▸ h
        · exact h.cons _
      have hdeeds : deedsFor k [(k, .draw g.cursor g.nextStop)] =
          [.draw g.cursor g.nextStop] := by
        simp [deedsFor]
      exact hdeeds ▸ .draw hd hsub
    · have hnext : underWay id (.stroked k g.nextStop again :: a.tasks) = underWay id a.tasks := by
        simp [underWay, hk]
      have hdeeds : deedsFor id [(k, .draw g.cursor g.nextStop)] = [] := by
        simp [deedsFor, hk]
      rw [hnext, or_self_iff] at hway
      have hother : some k ≠ some id := fun h => hk (Option.some.inj h)
      exact hdeeds ▸ .keep (Stage.keeps_stroke hother _ _) hway

variable (id) in
/-- After a batch the stage may have waited, which no growth notices. -/
theorem stage_closeTick (a : ScriptedStage σ) (k stop : Nat) (again : Bool) :
    (a.stage.closeTick k stop).2.Keeps id (a.closeTick k stop again).stage ∧
      (underWay id (a.closeTick k stop again).tasks).Sublist (underWay id a.tasks) := by
  rw [closeTick]
  rcases a.stage.closeTick k stop with ⟨_ | _, t⟩
  · exact ⟨Stage.keeps_of_eq rfl rfl rfl, .refl _⟩
  · dsimp only
    split
    · split
      · exact ⟨Stage.keeps_of_eq rfl rfl rfl, List.nil_sublist _⟩
      · next seconds _ =>
        refine ⟨Stage.keeps_wait t k seconds, ?_⟩
        rw [afterWait, underWay_withCommands]
        exact .refl _
    · exact ⟨Stage.keeps_of_eq rfl rfl rfl, .refl _⟩

theorem passage_closeTick (a : ScriptedStage σ) (k stop : Nat) (again : Bool) {way : List Nat}
    (hway : way.Sublist (underWay id (a.closeTick k stop again).tasks) ∨
      way.Sublist (underWay id a.tasks)) :
    Stage.Passage id a.stage (underWay id (.stroked k stop again :: a.tasks))
      (deedsFor id [(k, .move stop)]) (a.closeTick k stop again).stage way := by
  obtain ⟨hkeeps, htasks⟩ := stage_closeTick id a k stop again
  have hsub : way.Sublist (underWay id a.tasks) := hway.elim (fun h => h.trans htasks) fun h => h
  by_cases hk : k = id
  · subst hk
    have hmoves : Stage.Passage k a.stage (stop :: underWay k a.tasks) [.move stop]
        (a.closeTick k stop again).stage way := .move stop hkeeps hsub
    simpa [underWay, deedsFor] using hmoves
  · have hkept : Stage.Passage id a.stage (underWay id a.tasks) []
        (a.closeTick k stop again).stage way :=
      .keep ((Stage.keeps_closeTick hk a.stage stop).trans hkeeps) hsub
    simpa [underWay, deedsFor, hk] using hkept

theorem keeps_started {a : ScriptedStage σ} {r : Except GrowthError Nat × Stage σ} {run : Bool}
    (h : a.stage.Keeps id r.2) : a.stage.Keeps id (a.started r run).stage ∧
      (underWay id (a.started r run).tasks).Sublist (underWay id a.tasks) := by
  obtain ⟨e | k, t⟩ := r
  · exact ⟨h, List.nil_sublist _⟩
  · cases run with
    | true => exact ⟨h, .refl _⟩
    | false => exact ⟨h, .refl _⟩

variable (id) in
/-- A command that is no tick draws nothing for a growth. -/
theorem keeps_perform {a : ScriptedStage σ} {c : StageCommand σ} (hc : ∀ k, c ≠ .tick k) :
    a.stage.Keeps id (a.perform c).stage ∧
      (underWay id (a.perform c).tasks).Sublist (underWay id a.tasks) := by
  cases c with
  | start segments batch delay => exact keeps_started (Stage.keeps_start _ segments batch delay)
  | grow segments batch delay => exact keeps_started (Stage.keeps_start _ segments batch delay)
  | drawAll segments =>
    refine ⟨Stage.keeps_drawAll _ segments, ?_⟩
    rw [perform, underWay_afterStroke]
    exact .refl _
  | stop => exact ⟨Stage.keeps_stop _, .refl _⟩
  | detach segments batch delay => exact ⟨Stage.keeps_push rfl rfl (Or.inl rfl), .refl _⟩
  | tick k => exact absurd rfl (hc k)
  | run k => exact ⟨Stage.keeps_of_eq rfl rfl rfl, .refl _⟩
  | cancel k => exact ⟨Stage.keeps_cancel _ k, .refl _⟩
  | gap k =>
    rw [perform]
    split
    · exact ⟨Stage.keeps_of_eq rfl rfl rfl, List.nil_sublist _⟩
    · exact ⟨Stage.keeps_of_eq rfl rfl rfl, .refl _⟩

theorem passage_perform (a : ScriptedStage σ) (c : StageCommand σ) (rest : List (StageCommand σ))
    {way : List Nat} (hway : way.Sublist (underWay id (a.perform c).tasks) ∨
      way.Sublist (underWay id a.tasks)) :
    Stage.Passage id a.stage (underWay id a.tasks)
      (deedsFor id (deedOf? a.stage (.commands c rest)).toList) (a.perform c).stage way := by
  by_cases hc : ∃ k, c = .tick k
  · obtain ⟨k, rfl⟩ := hc
    exact passage_openTick a k false hway
  · have hother : ∀ k, c ≠ .tick k := fun k h => hc ⟨k, h⟩
    obtain ⟨hkeeps, htasks⟩ := keeps_perform id (a := a) hother
    have hnothing : deedOf? a.stage (.commands c rest) = none := by
      cases c with
      | tick k => exact absurd rfl (hother k)
      | _ => rfl
    rw [hnothing]
    exact .keep hkeeps (hway.elim (fun h => h.trans htasks) fun h => h)

/-- A step, whether it goes on from there or an error ends some of the tasks below it. -/
theorem passage_step (a : ScriptedStage σ) {way : List Nat}
    (hway : way.Sublist (underWay id a.step.tasks) ∨ way.Sublist (underWay id a.tasks.tail)) :
    Stage.Passage id a.stage (underWay id a.tasks) (deedsFor id a.deed?.toList) a.step.stage
      way := by
  obtain ⟨s, onWait, onStroke, tasks, reply, failure⟩ := a
  cases tasks with
  | nil => exact .keep (Stage.keeps_of_eq rfl rfl rfl) (or_self_iff.1 hway)
  | cons task tasks =>
    cases task with
    | commands c rest =>
      have hpushed : underWay id (withCommands rest tasks) = underWay id tasks :=
        underWay_withCommands rest tasks
      have hsub : way.Sublist (underWay id (ScriptedStage.perform
          ⟨s, onWait, onStroke, withCommands rest tasks, reply, failure⟩ c).tasks) ∨
          way.Sublist (underWay id (withCommands rest tasks)) := by
        rwa [hpushed]
      have hperform := passage_perform
        ⟨s, onWait, onStroke, withCommands rest tasks, reply, failure⟩ c rest hsub
      dsimp only at hperform
      rwa [hpushed] at hperform
    | growing k => exact passage_openTick ⟨s, onWait, onStroke, tasks, reply, failure⟩ k true hway
    | stroked k stop again =>
      exact passage_closeTick ⟨s, onWait, onStroke, tasks, reply, failure⟩ k stop again hway
    | answer reply' => exact .keep (Stage.keeps_of_eq rfl rfl rfl) (or_self_iff.1 hway)

theorem passage_of_beat {a b : ScriptedStage σ} {d : Option (Nat × Deed)} (h : Beat a d b) :
    Stage.Passage id a.stage (underWay id a.tasks) (deedsFor id d.toList) b.stage
      (underWay id b.tasks) := by
  cases h with
  | step => exact passage_step a (Or.inl (.refl _))
  | begin c => exact .keep (Stage.keeps_of_eq rfl rfl rfl) (.refl _)
  | unwind k => exact .keep (Stage.keeps_of_eq rfl rfl rfl) (underWay_drop _ k)
  | recover k hfail hend =>
    refine passage_step a (Or.inr ?_)
    dsimp only
    rw [← List.drop_tail]
    exact underWay_drop _ k

end ScriptedStage

end Lindenmayer
