import Lindenmayer.Proofs.Animation.Deeds
import Mathlib.Data.List.Chain
import Mathlib.Logic.Function.Iterate

/-!
# Strokes that call back

A stroke may call for more before it is over, even for ticks and runs of the growth that is being
drawn. The cursor of that growth has not moved yet, so they draw its batch again; and when the stroke
is over, the cursor moves to where the batch ended, whatever they have drawn beyond it. A stroke that
an error breaks off is not followed by a move at all. Nothing is drawn twice exactly if the draws and
the moves of each growth take turns. Then no cursor goes back, and a tick asks for another one only
if its growth is live and has more to draw.
-/
namespace Lindenmayer

variable {σ : Type}

/-- Between any two draws the cursor is moved. -/
def Deed.Alternate (deeds : List Deed) : Prop :=
  deeds.IsChain fun d e => ¬ (d.isDraw = true ∧ e.isDraw = true)

namespace Stage

variable {id : Nat}

theorem Keeps.growth_cases {s t : Stage σ} (h : s.Keeps id t) {g' : Growth σ}
    (hg' : t.growths[id]? = some g') :
    (s.growths[id]? = none ∧ g'.cursor = 0) ∨ ∃ g c, s.growths[id]? = some g ∧
      g' = { g with cancelled := c } ∧ (t.live = some id → s.live = some id) := by
  cases hg : s.growths[id]? with
  | none => exact Or.inl ⟨rfl, h.born hg g' hg'⟩
  | some g =>
    obtain ⟨c, hc, -, -, hback⟩ := h.kept g hg
    exact Or.inr ⟨g, c, rfl, Option.some.inj (hg'.symm.trans hc), hback⟩

theorem Keeps.growth_none {s t : Stage σ} (h : s.Keeps id t) (ht : t.growths[id]? = none) :
    s.growths[id]? = none := by
  cases hg : s.growths[id]? with
  | none => rfl
  | some g =>
    obtain ⟨c, hc, -⟩ := h.kept g hg
    simp [ht] at hc

/-- What holds of a growth in every course of events: its cursor and the strokes under way stay
within its segments, and the record shows the slices that were drawn. -/
structure Booked (id : Nat) (s : Stage σ) (way : List Nat) (deeds : List Deed) : Prop where
  unborn : s.growths[id]? = none → deeds = [] ∧ way = [] ∧ s.live ≠ some id ∧ s.slices id = []
  cursor_le : ∀ g, s.growths[id]? = some g → g.cursor ≤ g.total
  live : ∀ g, s.growths[id]? = some g → s.live = some id → g.cursor < g.total ∨ g.total = 0
  way_le : ∀ g, s.growths[id]? = some g → ∀ stop ∈ way, stop ≤ g.total
  covers_lt : ∀ g, s.growths[id]? = some g → ∀ d ∈ deeds, ∀ i, d.covers i = true → i < g.total
  recorded : ∀ g, s.growths[id]? = some g →
    s.slices id = deeds.filterMap (Deed.slice? g.segments)

theorem booked_empty : Booked id (empty : Stage σ) [] [] := by
  constructor <;> simp [empty, slices]

theorem Booked.keep {s t : Stage σ} {way way' : List Nat} {deeds : List Deed}
    (h : Booked id s way deeds) (hkeeps : s.Keeps id t) (hway : way'.Sublist way) :
    Booked id t way' deeds where
  unborn ht := by
    have hs := hkeeps.growth_none ht
    obtain ⟨hdeeds, rfl, hlive, hslices⟩ := h.unborn hs
    exact ⟨hdeeds, List.sublist_nil.1 hway, hkeeps.unborn hs ht hlive, hkeeps.slices.trans hslices⟩
  cursor_le g' hg' := by
    rcases hkeeps.growth_cases hg' with ⟨-, hzero⟩ | ⟨g, c, hg, rfl, -⟩
    · omega
    · exact h.cursor_le g hg
  live g' hg' hl := by
    rcases hkeeps.growth_cases hg' with ⟨-, hzero⟩ | ⟨g, c, hg, rfl, hback⟩
    · omega
    · exact h.live g hg (hback hl)
  way_le g' hg' stop hstop := by
    rcases hkeeps.growth_cases hg' with ⟨hnone, -⟩ | ⟨g, c, hg, rfl, -⟩
    · obtain ⟨-, rfl, -⟩ := h.unborn hnone
      simp [List.sublist_nil.1 hway] at hstop
    · exact h.way_le g hg stop (hway.subset hstop)
  covers_lt g' hg' := by
    rcases hkeeps.growth_cases hg' with ⟨hnone, -⟩ | ⟨g, c, hg, rfl, -⟩
    · obtain ⟨rfl, -⟩ := h.unborn hnone
      simp
    · exact h.covers_lt g hg
  recorded g' hg' := by
    rw [hkeeps.slices]
    rcases hkeeps.growth_cases hg' with ⟨hnone, -⟩ | ⟨g, c, hg, rfl, -⟩
    · obtain ⟨rfl, -, -, hslices⟩ := h.unborn hnone
      exact hslices
    · exact h.recorded g hg

theorem slices_stroke (s : Stage σ) (segments : Array σ) :
    (s.stroke (some id) segments).slices id = s.slices id ++ [segments] := by
  have hslice : (Event.stroke (some id) segments).sliceOf? id = some segments := if_pos rfl
  have hrecord := slices_record { s with picture := s.picture.stroke segments }
    (.stroke (some id) segments) id
  rw [hslice] at hrecord
  exact hrecord

theorem Booked.draw {s : Stage σ} {way way' : List Nat} {deeds : List Deed} {g : Growth σ}
    (h : Booked id s way deeds) (hd : s.CanDraw id g) (hway : way'.Sublist (g.nextStop :: way)) :
    Booked id (s.stroke (some id) (g.slice g.nextStop)) way'
      (deeds ++ [.draw g.cursor g.nextStop]) := by
  have hfound : ∀ {g'}, (s.stroke (some id) (g.slice g.nextStop)).growths[id]? = some g' → g' = g :=
    fun hg' => Option.some.inj (hg'.symm.trans hd.found)
  have hstop := g.nextStop_le_total
  constructor
  · intro hnone
    cases hd.found.symm.trans hnone
  · exact h.cursor_le
  · exact h.live
  · intro g' hg' stop hstop'
    obtain rfl := hfound hg'
    rcases List.mem_cons.1 (hway.subset hstop') with rfl | hold
    · exact hstop
    · exact h.way_le g' hg' stop hold
  · intro g' hg' d hd' i hi
    obtain rfl := hfound hg'
    rcases List.mem_append.1 hd' with hold | hnew
    · exact h.covers_lt g' hg' d hold i hi
    · obtain rfl := List.mem_singleton.1 hnew
      have hwithin := of_decide_eq_true hi
      omega
  · intro g' hg'
    obtain rfl := hfound hg'
    rw [slices_stroke, h.recorded g' hg', List.filterMap_append]
    rfl

theorem Booked.move {s : Stage σ} {way : List Nat} {deeds : List Deed} {stop : Nat}
    (h : Booked id s (stop :: way) deeds) :
    Booked id (s.closeTick id stop).2 way (deeds ++ [.move stop]) := by
  cases hg : s.growths[id]? with
  | none =>
    obtain ⟨-, hway, -⟩ := h.unborn hg
    cases hway
  | some g =>
    obtain ⟨hmoved, hslices, hlive⟩ := closeTick_found hg stop
    have hfound : ∀ {g'}, (s.closeTick id stop).2.growths[id]? = some g' →
        g' = { g with cursor := stop } := fun hg' => Option.some.inj (hg'.symm.trans hmoved)
    have hstop : stop ≤ g.total := h.way_le g hg stop List.mem_cons_self
    constructor
    · intro hnone
      cases hmoved.symm.trans hnone
    · intro g' hg'
      obtain rfl := hfound hg'
      exact hstop
    · intro g' hg' hl
      obtain rfl := hfound hg'
      rcases hlive with ⟨-, hlt, -, -⟩ | ⟨-, hne⟩
      · exact Or.inl hlt
      · exact absurd hl hne
    · intro g' hg' stop' hstop'
      obtain rfl := hfound hg'
      exact h.way_le g hg stop' (List.mem_cons_of_mem _ hstop')
    · intro g' hg' d hd i hi
      obtain rfl := hfound hg'
      rcases List.mem_append.1 hd with hold | hnew
      · exact h.covers_lt g hg d hold i hi
      · obtain rfl := List.mem_singleton.1 hnew
        cases hi
    · intro g' hg'
      obtain rfl := hfound hg'
      rw [hslices, h.recorded g hg, List.filterMap_append]
      exact (List.append_nil _).symm

theorem Booked.passage {s t : Stage σ} {way way' : List Nat} {deeds deeds' : List Deed}
    (h : Booked id s way deeds) (hpassage : Passage id s way deeds' t way') :
    Booked id t way' (deeds ++ deeds') := by
  cases hpassage with
  | keep hkeeps hway => exact (List.append_nil deeds).symm ▸ h.keep hkeeps hway
  | draw hd hway => exact h.draw hd hway
  | move stop hkeeps hway => exact h.move.keep hkeeps hway

/-- A passage changes no more of a growth than its cursor and whether it is cancelled. -/
theorem Passage.segments_eq {s t : Stage σ} {way way' : List Nat} {deeds : List Deed}
    (h : Passage id s way deeds t way') {g : Growth σ} (hg : s.growths[id]? = some g) :
    ∃ g', t.growths[id]? = some g' ∧ g'.segments = g.segments := by
  cases h with
  | keep hkeeps _ =>
    obtain ⟨c, hc, -⟩ := hkeeps.kept g hg
    exact ⟨_, hc, rfl⟩
  | draw _ _ => exact ⟨g, hg, rfl⟩
  | move stop hkeeps _ =>
    obtain ⟨c, hc, -⟩ := hkeeps.kept _ (closeTick_found hg stop).1
    exact ⟨_, hc, rfl⟩

/-- Every segment up to `stop` was drawn once and no other one at all. -/
def DrawnOnce (stop : Nat) (deeds : List Deed) : Prop :=
  ∀ i, deeds.countP (Deed.covers i) = if i < stop then 1 else 0

/-- What was done for a growth as long as its draws and moves take turns. -/
inductive Regular (id : Nat) (s : Stage σ) : List Nat → List Deed → Prop
  | unborn (hg : s.growths[id]? = none) : Regular id s [] []
  /-- The cursor stands behind all that was drawn. -/
  | settled {g : Growth σ} {deeds : List Deed} (hg : s.growths[id]? = some g)
      (hdeeds : DrawnOnce g.cursor deeds) (hlast : ∀ d ∈ deeds.getLast?, d.isDraw = false) :
      Regular id s [] deeds
  /-- A batch was drawn and the cursor has yet to move, if no error has kept it from that. -/
  | drawing {g : Growth σ} {way : List Nat} {deeds : List Deed} (hg : s.growths[id]? = some g)
      (hdeeds : DrawnOnce g.cursor deeds)
      (hway : way = [] ∨ way = [g.nextStop] ∧ (s.live = some id ∨ g.cancelled = true)) :
      Regular id s way (deeds ++ [.draw g.cursor g.nextStop])

theorem DrawnOnce.draw {g : Growth σ} {deeds : List Deed} (h : DrawnOnce g.cursor deeds)
    (hle : g.cursor ≤ g.nextStop) : DrawnOnce g.nextStop (deeds ++ [.draw g.cursor g.nextStop]) := by
  intro i
  have hnew : [Deed.draw g.cursor g.nextStop].countP (Deed.covers i) =
      if g.cursor ≤ i ∧ i < g.nextStop then 1 else 0 := by
    simp [List.countP_cons, Deed.covers]
  rw [List.countP_append, h i, hnew]
  by_cases hold : i < g.cursor
  · rw [if_pos hold, if_neg (by omega), if_pos (by omega)]
  · by_cases hfresh : i < g.nextStop
    · rw [if_neg hold, if_pos (by omega), if_pos hfresh]
    · rw [if_neg hold, if_neg (by omega), if_neg hfresh]

theorem Regular.keep {s t : Stage σ} {way way' : List Nat} {deeds : List Deed}
    (h : Regular id s way deeds) (hkeeps : s.Keeps id t) (hway : way'.Sublist way) :
    Regular id t way' deeds := by
  cases h with
  | unborn hg =>
    obtain rfl := List.sublist_nil.1 hway
    cases ht : t.growths[id]? with
    | none => exact .unborn ht
    | some g' =>
      have hzero := hkeeps.born hg g' ht
      exact .settled ht (by simp [DrawnOnce, hzero]) (by simp)
  | settled hg hdeeds hlast =>
    obtain rfl := List.sublist_nil.1 hway
    obtain ⟨c, hc, -⟩ := hkeeps.kept _ hg
    exact .settled hc hdeeds hlast
  | @drawing g _ deeds hg hdeeds hunder =>
    obtain ⟨c, hc, hcancelled, hlive, -⟩ := hkeeps.kept _ hg
    refine .drawing (g := { g with cancelled := c }) hc hdeeds ?_
    rcases hunder with rfl | ⟨rfl, hstill⟩
    · exact Or.inl (List.sublist_nil.1 hway)
    · rcases List.sublist_singleton.1 hway with rfl | rfl
      · exact Or.inl rfl
      · exact Or.inr ⟨rfl, hstill.elim hlive fun h => Or.inr (hcancelled h)⟩

theorem Regular.move {s : Stage σ} {way : List Nat} {deeds : List Deed} {stop : Nat}
    (h : Regular id s (stop :: way) deeds) (hbooked : Booked id s (stop :: way) deeds) :
    Regular id (s.closeTick id stop).2 way (deeds ++ [.move stop]) := by
  cases h with
  | drawing hg hdeeds hunder =>
    rcases hunder with hnone | ⟨hway, -⟩
    · cases hnone
    · obtain ⟨rfl, rfl⟩ := List.cons.inj hway
      have hle := Growth.cursor_le_nextStop (hbooked.cursor_le _ hg)
      refine .settled (closeTick_found hg _).1 ?_ (by simp [Deed.isDraw])
      intro i
      rw [List.countP_append, hdeeds.draw hle i]
      simp [Deed.covers]

theorem Regular.countP_le_one {s : Stage σ} {way : List Nat} {deeds : List Deed}
    (h : Regular id s way deeds) (hbooked : Booked id s way deeds) (i : Nat) :
    deeds.countP (Deed.covers i) ≤ 1 := by
  cases h with
  | unborn _ => simp
  | settled hg hdeeds _ =>
    rw [hdeeds i]
    split <;> omega
  | drawing hg hdeeds _ =>
    rw [hdeeds.draw (Growth.cursor_le_nextStop (hbooked.cursor_le _ hg)) i]
    split <;> omega

/-- A stroke moves the cursor on from where the stroke began. -/
theorem Regular.cursor_le {s t : Stage σ} {way way' : List Nat} {deeds deeds' : List Deed}
    (h : Regular id s way deeds) (hbooked : Booked id s way deeds)
    (hpassage : Passage id s way deeds' t way') {g : Growth σ} (hg : s.growths[id]? = some g) :
    ∃ g', t.growths[id]? = some g' ∧ g.cursor ≤ g'.cursor := by
  cases hpassage with
  | keep hkeeps _ =>
    obtain ⟨c, hc, -⟩ := hkeeps.kept g hg
    exact ⟨_, hc, Nat.le_refl _⟩
  | draw _ _ => exact ⟨g, hg, Nat.le_refl _⟩
  | move stop hkeeps _ =>
    obtain ⟨c, hc, -⟩ := hkeeps.kept _ (closeTick_found hg stop).1
    refine ⟨_, hc, ?_⟩
    cases h with
    | @drawing g' _ _ hg' _ hunder =>
      obtain rfl : g = g' := Option.some.inj (hg.symm.trans hg')
      rcases hunder with hnone | ⟨hway, -⟩
      · cases hnone
      · obtain ⟨rfl, -⟩ := List.cons.inj hway
        exact Growth.cursor_le_nextStop (hbooked.cursor_le g hg)

/-- A tick that asks for another one leaves its growth live and with more to draw. -/
theorem Regular.canDraw_of_closeTick {s : Stage σ} {way : List Nat} {deeds : List Deed} {stop : Nat}
    (h : Regular id s (stop :: way) deeds) (hmore : (s.closeTick id stop).1 = true) :
    ∃ g, (s.closeTick id stop).2.CanDraw id g ∧ g.cursor < g.total := by
  cases h with
  | @drawing g _ _ hg _ hunder =>
    obtain ⟨hmoved, -, ⟨-, hlt, hc, hlive⟩ | ⟨hno, -⟩⟩ := closeTick_found hg stop
    · rcases hunder with hnone | ⟨-, hstill⟩
      · cases hnone
      · have hl : s.live = some id := hstill.resolve_right (by simp [hc])
        exact ⟨_, ⟨hlive.trans hl, hmoved, hc⟩, hlt⟩
    · cases hno.symm.trans hmore

/-- Draws that take turns with moves keep to the rule. -/
theorem Regular.passage {s t : Stage σ} {way way' : List Nat} {deeds deeds' : List Deed}
    (h : Regular id s way deeds) (hbooked : Booked id s way deeds)
    (hpassage : Passage id s way deeds' t way')
    (hturns : Deed.Alternate (deeds ++ deeds')) : Regular id t way' (deeds ++ deeds') := by
  cases hpassage with
  | keep hkeeps hway => exact (List.append_nil deeds).symm ▸ h.keep hkeeps hway
  | move stop hkeeps hway => exact (h.move hbooked).keep hkeeps hway
  | @draw _ _ g hd hway =>
    cases h with
    | unborn hg => cases hd.found.symm.trans hg
    | settled hg hdeeds _ =>
      obtain rfl := Option.some.inj (hd.found.symm.trans hg)
      refine .drawing (s := s.stroke (some id) (g.slice g.nextStop)) hg hdeeds ?_
      rcases List.sublist_singleton.1 hway with rfl | rfl
      · exact Or.inl rfl
      · exact Or.inr ⟨rfl, Or.inl hd.live⟩
    | drawing _ _ _ =>
      have hlast := (List.isChain_append.1 hturns).2.2
      simp [Deed.isDraw] at hlast

/-- The growth has nothing to draw, or one of its segments was drawn again. -/
def EmptyOrAgain (id : Nat) (s : Stage σ) (deeds : List Deed) : Prop :=
  ∃ g, s.growths[id]? = some g ∧ (g.total = 0 ∨ ∃ i, 2 ≤ deeds.countP (Deed.covers i))

theorem EmptyOrAgain.passage {s t : Stage σ} {way way' : List Nat} {deeds deeds' : List Deed}
    (h : EmptyOrAgain id s deeds) (hpassage : Passage id s way deeds' t way') :
    EmptyOrAgain id t (deeds ++ deeds') := by
  obtain ⟨g, hg, hcase⟩ := h
  obtain ⟨g', hg', hsegments⟩ := hpassage.segments_eq hg
  refine ⟨g', hg', ?_⟩
  rcases hcase with hzero | ⟨i, hi⟩
  · exact Or.inl (by rwa [Growth.total, hsegments])
  · refine Or.inr ⟨i, ?_⟩
    rw [List.countP_append]
    omega

/-- The first draw that comes out of turn draws a segment again, if there is one. -/
theorem Regular.alternate_or_again {s t : Stage σ} {way way' : List Nat} {deeds deeds' : List Deed}
    (h : Regular id s way deeds) (hbooked : Booked id s way deeds)
    (hpassage : Passage id s way deeds' t way') (hturns : Deed.Alternate deeds) :
    Deed.Alternate (deeds ++ deeds') ∨ EmptyOrAgain id t (deeds ++ deeds') := by
  cases hpassage with
  | keep _ _ => exact Or.inl (by simpa using hturns)
  | move stop _ _ => exact Or.inl (List.isChain_append.2 ⟨hturns, by simp, by simp [Deed.isDraw]⟩)
  | @draw _ _ g hd _ =>
    cases h with
    | unborn hg => cases hd.found.symm.trans hg
    | settled _ _ hlast =>
      refine Or.inl (List.isChain_append.2 ⟨hturns, by simp, ?_⟩)
      intro d hd' e _ hboth
      simp [hlast d hd'] at hboth
    | @drawing g' _ _ hg _ _ =>
      obtain rfl : g = g' := Option.some.inj (hd.found.symm.trans hg)
      refine Or.inr ⟨g, hg, (hbooked.live g hg hd.live).symm.imp_right fun hlt => ⟨g.cursor, ?_⟩⟩
      have hnext : g.cursor < g.nextStop := by
        have := g.stride_pos
        rw [Growth.nextStop]
        omega
      simp [List.countP_append, Deed.covers, hnext]

end Stage

namespace ScriptedStage

variable {id : Nat} {onWait onStroke : Schedule (StageCommand σ)} {a b : ScriptedStage σ}
  {deeds deeds' : List (Nat × Deed)}

theorem Path.trans {c : ScriptedStage σ} (h : Path a deeds b) (h' : Path b deeds' c) :
    Path a (deeds ++ deeds') c := by
  induction h' with
  | refl => exact (List.append_nil deeds).symm ▸ h
  | tail _ hbeat ih => exact List.append_assoc deeds _ _ ▸ .tail ih hbeat

theorem Path.booked (h : Path (new onWait onStroke) deeds a) :
    Stage.Booked id a.stage (underWay id a.tasks) (deedsFor id deeds) := by
  induction h with
  | refl => exact Stage.booked_empty
  | tail _ hbeat ih =>
    rw [deedsFor_append]
    exact ih.passage (passage_of_beat hbeat)

theorem Path.regular (h : Path (new onWait onStroke) deeds a)
    (hturns : Deed.Alternate (deedsFor id deeds)) :
    Stage.Regular id a.stage (underWay id a.tasks) (deedsFor id deeds) := by
  induction h with
  | refl => exact .unborn rfl
  | tail hpath hbeat ih =>
    rw [deedsFor_append] at hturns ⊢
    exact (ih (List.isChain_append.1 hturns).1).passage hpath.booked (passage_of_beat hbeat) hturns

theorem Path.alternate_or_again (h : Path (new onWait onStroke) deeds a) :
    Deed.Alternate (deedsFor id deeds) ∨ a.stage.EmptyOrAgain id (deedsFor id deeds) := by
  induction h with
  | refl => exact Or.inl .nil
  | tail hpath hbeat ih =>
    have hpassage : Stage.Passage id _ _ _ _ _ := passage_of_beat hbeat
    rw [deedsFor_append]
    rcases ih with hturns | hagain
    · exact (hpath.regular hturns).alternate_or_again hpath.booked hpassage hturns
    · exact Or.inr (hagain.passage hpassage)

theorem Path.countP_le_one (h : Path (new onWait onStroke) deeds a) {g : Growth σ}
    (hg : a.stage.growths[id]? = some g)
    (hcase : g.total = 0 ∨ Deed.Alternate (deedsFor id deeds)) (i : Nat) :
    (deedsFor id deeds).countP (Deed.covers i) ≤ 1 := by
  rcases hcase with hzero | hturns
  · have hnone : ∀ d ∈ deedsFor id deeds, ¬ d.covers i = true := by
      intro d hd hi
      have := h.booked.covers_lt g hg d hd i hi
      omega
    rw [List.countP_eq_zero.2 hnone]
    omega
  · exact (h.regular hturns).countP_le_one h.booked i

/-- As long as draws and moves take turns, the cursor of a growth only moves on. -/
theorem Path.cursor_le (h : Path (new onWait onStroke) deeds a) (h' : Path a deeds' b)
    (hturns : Deed.Alternate (deedsFor id (deeds ++ deeds'))) {g : Growth σ}
    (hg : a.stage.growths[id]? = some g) :
    ∃ g', b.stage.growths[id]? = some g' ∧ g.cursor ≤ g'.cursor := by
  induction h' with
  | refl => exact ⟨g, hg, Nat.le_refl _⟩
  | @tail b c deeds' d hpath hbeat ih =>
    rw [← List.append_assoc, deedsFor_append] at hturns
    have hbefore := (List.isChain_append.1 hturns).1
    obtain ⟨g', hg', hle⟩ := ih hbefore
    have hwhole := h.trans hpath
    obtain ⟨g'', hg'', hle'⟩ := (hwhole.regular hbefore).cursor_le hwhole.booked
      (passage_of_beat hbeat) hg'
    exact ⟨g'', hg'', Nat.le_trans hle hle'⟩

theorem Path.total_eq (h : Path a deeds b) {g : Growth σ} (hg : a.stage.growths[id]? = some g) :
    ∃ g', b.stage.growths[id]? = some g' ∧ g'.total = g.total := by
  induction h with
  | refl => exact ⟨g, hg, rfl⟩
  | tail _ hbeat ih =>
    obtain ⟨g', hg', htotal⟩ := ih
    obtain ⟨g'', hg'', hsegments⟩ := (passage_of_beat hbeat).segments_eq hg'
    exact ⟨g'', hg'', by rw [← htotal, Growth.total, hsegments, Growth.total]⟩

/-- However often strokes and waits call for more, and whatever errors break them off: no segment of
a growth is drawn twice exactly if its draws and moves have taken turns, or if it has no segments.
Then its cursor has never gone back, and a tick asks for another one only if the growth is live, is
not cancelled and has more to draw. -/
theorem nothing_drawn_twice_iff (h : Path (new onWait onStroke) deeds a) {g : Growth σ}
    (hg : a.stage.growths[id]? = some g) :
    a.stage.slices id = (deedsFor id deeds).filterMap (Deed.slice? g.segments) ∧
    ((∀ i, (deedsFor id deeds).countP (Deed.covers i) ≤ 1) ↔
      g.total = 0 ∨ Deed.Alternate (deedsFor id deeds)) ∧
    (g.total = 0 ∨ Deed.Alternate (deedsFor id deeds) →
      (∀ (before after : List (Nat × Deed)) (b : ScriptedStage σ) (g' : Growth σ),
        Path (new onWait onStroke) before b → Path b after a → deeds = before ++ after →
        b.stage.growths[id]? = some g' → g'.cursor ≤ g.cursor) ∧
      ∀ (stop : Nat) (again : Bool) (tasks : List (StageTask σ)),
        a.tasks = .stroked id stop again :: tasks → (a.stage.closeTick id stop).1 = true →
        ∃ g', (a.stage.closeTick id stop).2.CanDraw id g' ∧ g'.cursor < g'.total) := by
  refine ⟨h.booked.recorded g hg, ⟨?_, h.countP_le_one hg⟩, ?_⟩
  · intro honce
    rcases h.alternate_or_again with hturns | ⟨g', hg', hzero | ⟨i, hi⟩⟩
    · exact Or.inr hturns
    · obtain rfl : g = g' := Option.some.inj (hg.symm.trans hg')
      exact Or.inl hzero
    · have := honce i
      omega
  · intro hcase
    constructor
    · rintro before after b g' hbefore hafter rfl hg'
      obtain ⟨g₀, hg₀, htotal⟩ := hafter.total_eq hg'
      obtain rfl : g = g₀ := Option.some.inj (hg.symm.trans hg₀)
      rcases hcase with hzero | hturns
      · have hbooked : Stage.Booked id _ _ _ := hbefore.booked
        have hle := hbooked.cursor_le g' hg'
        omega
      · obtain ⟨g₁, hg₁, hle⟩ := hbefore.cursor_le hafter hturns hg'
        obtain rfl : g = g₁ := Option.some.inj (hg.symm.trans hg₁)
        exact hle
    · intro stop again tasks htasks hmore
      have hway : underWay id a.tasks = stop :: underWay id tasks := by
        rw [htasks]
        simp [underWay]
      rcases hcase with hzero | hturns
      · obtain ⟨-, -, ⟨-, hlt, -⟩ | ⟨hno, -⟩⟩ := Stage.closeTick_found hg stop
        · omega
        · cases hno.symm.trans hmore
      · have hregular := h.regular hturns
        rw [hway] at hregular
        exact hregular.canDraw_of_closeTick hmore

/-- What a number of steps do for all growths. -/
def trail (a : ScriptedStage σ) : Nat → List (Nat × Deed)
  | 0 => []
  | n + 1 => trail a n ++ (step^[n] a).deed?.toList

theorem path_iterate (a : ScriptedStage σ) (n : Nat) : Path a (trail a n) (step^[n] a) := by
  induction n with
  | zero => exact .refl a
  | succ n ih =>
    rw [Function.iterate_succ_apply']
    exact .tail ih (.step _)

theorem Path.begin (h : Path a deeds b) (c : StageCommand σ) (n : Nat) :
    Path a (deeds ++ trail (b.begun c) n) (step^[n] (b.begun c)) := by
  have hbegin : Path a (deeds ++ []) (b.begun c) := .tail h (.begin b c)
  rw [List.append_nil] at hbegin
  exact hbegin.trans (path_iterate _ n)

/-- A growth of three segments is ticked; so much of that is done as the number of steps says. -/
def ticking (onStroke : Schedule (StageCommand Nat)) (n : Nat) : ScriptedStage Nat :=
  step^[n] ((step^[1] ((new .quiet onStroke).begun (.start #[0, 1, 2] (.whole 1) (.whole 0)))).begun
    (.tick 0))

theorem path_ticking (onStroke : Schedule (StageCommand Nat)) (n : Nat) :
    Path (new .quiet onStroke) (trail (ticking onStroke 0) n) (ticking onStroke n) := by
  have hstart := (Path.refl (new .quiet onStroke)).begin (.start #[0, 1, 2] (.whole 1) (.whole 0)) 1
  exact hstart.begin (.tick 0) n

/-- In the first stroke another growth is made and ticked. -/
def tickAnother : Schedule (StageCommand Nat) :=
  .ofNumbered [(1, [.detach #[7] (.whole 1) (.whole 0), .tick 1, .gap 0])]

/-- A growth that does not live is ticked in the first stroke of one that does; the latter goes on. -/
theorem stroke_ticks_another : ∃ (a : ScriptedStage Nat) (deeds : List (Nat × Deed)) (g : Growth Nat),
    Path (new .quiet (.ofNumbered [(1, [.detach #[7] (.whole 1) (.whole 0), .tick 1, .gap 0])]))
      deeds a ∧
    a.stage.growths[0]? = some g ∧ a.tasks = [.stroked 0 1 false] ∧
    Deed.Alternate (deedsFor 0 deeds) ∧ (a.stage.closeTick 0 1).1 = true ∧
    (∀ i, (deedsFor 0 deeds).countP (Deed.covers i) ≤ 1) ∧
    ∃ g', (a.stage.closeTick 0 1).2.CanDraw 0 g' ∧ g'.cursor < g'.total := by
  have hpath := path_ticking tickAnother 4
  have hdeeds : deedsFor 0 (trail (ticking tickAnother 0) 4) = [.draw 0 1] := by decide +kernel
  have hturns : Deed.Alternate (deedsFor 0 (trail (ticking tickAnother 0) 4)) := by
    rw [hdeeds]
    exact .singleton _
  have hmore : ((ticking tickAnother 4).stage.closeTick 0 1).1 = true := by decide +kernel
  cases hg : (ticking tickAnother 4).stage.growths[0]? with
  | none =>
    have hsome : (ticking tickAnother 4).stage.growths[0]?.isSome = true := by decide +kernel
    simp [hg] at hsome
  | some g =>
    obtain ⟨-, honce, hcase⟩ := nothing_drawn_twice_iff hpath hg
    exact ⟨_, _, g, hpath, hg, rfl, hturns, hmore, honce.2 (Or.inr hturns),
      (hcase (Or.inr hturns)).2 1 false [] rfl hmore⟩

/-- In its first stroke a growth is run to its end. The first segment is drawn again, and when the
stroke is over the cursor goes back and another tick is asked for, though nothing is live. -/
theorem run_in_stroke_draws_again : ∃ (a : ScriptedStage Nat) (deeds : List (Nat × Deed)),
    Path (new .quiet (.ofNumbered [(1, [.run 0])])) deeds a ∧ a.tasks = [.stroked 0 1 false] ∧
    a.stage.slices 0 = [#[0], #[0], #[1], #[2]] ∧
    (deedsFor 0 deeds).countP (Deed.covers 0) = 2 ∧
    (a.stage.growths[0]?).map Growth.cursor = some 3 ∧
    ((a.stage.closeTick 0 1).2.growths[0]?).map Growth.cursor = some 1 ∧
    (a.stage.closeTick 0 1).1 = true ∧ (a.stage.closeTick 0 1).2.live = none := by
  refine ⟨_, _, path_ticking (.ofNumbered [(1, [.run 0])]) 8, rfl, ?_⟩
  decide +kernel

end ScriptedStage

end Lindenmayer
