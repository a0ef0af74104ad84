import Lindenmayer.Animation.Stage
import Lindenmayer.Proofs.Number.Comparison
import Mathlib.Logic.Relation

/-!
# What can happen on a stage

Whatever a stage is told to do, it changes by a few moves, and a batch is drawn in one of them as
long as nothing interferes with a stroke. Every operation is a sequence of moves, so what each move
keeps holds throughout: a growth is never forgotten, its cursor never goes back, and a growth that
has ceased to be live is cancelled or done and never live again.
-/
namespace Lindenmayer

variable {σ : Type}

namespace Growth

/-- What may become of a growth: it draws on, or it is cancelled. -/
structure Later (g g' : Growth σ) : Prop where
  segments_eq : g'.segments = g.segments
  batch_eq : g'.batch = g.batch
  delay_eq : g'.delay = g.delay
  cursor_le : g.cursor ≤ g'.cursor
  cancelled_of : g.cancelled = true → g'.cancelled = true

theorem Later.refl (g : Growth σ) : g.Later g := ⟨rfl, rfl, rfl, Nat.le_refl _, id⟩

theorem Later.trans {g g' g'' : Growth σ} (h : g.Later g') (h' : g'.Later g'') : g.Later g'' :=
  ⟨h'.segments_eq.trans h.segments_eq, h'.batch_eq.trans h.batch_eq,
    h'.delay_eq.trans h.delay_eq, Nat.le_trans h.cursor_le h'.cursor_le,
    fun hc => h'.cancelled_of (h.cancelled_of hc)⟩

theorem Later.total_eq {g g' : Growth σ} (h : g.Later g') : g'.total = g.total := by
  rw [total, total, h.segments_eq]

theorem Later.done_of {g g' : Growth σ} (h : g.Later g') (hd : g.done = true) : g'.done = true := by
  have hle := h.cursor_le
  rw [done, decide_eq_true_eq] at hd ⊢
  rw [h.total_eq]
  omega

theorem later_cancelled (g : Growth σ) : g.Later { g with cancelled := true } :=
  ⟨rfl, rfl, rfl, Nat.le_refl _, fun _ => rfl⟩

theorem stride_of_whole {g : Growth σ} {n : Nat} (hbatch : g.batch = .whole n)
    (hn : 1 ≤ n) : g.stride = n := by
  simp only [stride, hbatch, Numeric.int?]
  omega

theorem cursor_le_nextStop {g : Growth σ} (h : g.cursor ≤ g.total) : g.cursor ≤ g.nextStop := by
  rw [nextStop]
  omega

end Growth

namespace Stage

/-- Draws the next batch of a growth and moves its cursor; nothing happens in between. -/
def tick (s : Stage σ) (id : Nat) : Bool × Stage σ :=
  match s.openTick id with
  | (none, t) => (false, t)
  | (some stop, t) => t.closeTick id stop

/-- The stage after the growth has drawn its next batch. -/
def drawBatch (s : Stage σ) (id : Nat) (g : Growth σ) : Stage σ :=
  { s.stroke (some id) (g.slice g.nextStop) with
    growths := s.growths.modify id fun g' => { g' with cursor := g.nextStop } }

/-- The growth is cancelled or not live, so it draws nothing. -/
def Rests (s : Stage σ) (id : Nat) : Prop :=
  s.live ≠ some id ∨ ∃ g, s.growths[id]? = some g ∧ g.cancelled = true

/-- The growth may draw. -/
structure CanDraw (s : Stage σ) (id : Nat) (g : Growth σ) : Prop where
  live : s.live = some id
  found : s.growths[id]? = some g
  cancelled : g.cancelled = false

/-- The least that can happen while nothing interferes with a stroke. -/
inductive Move : Stage σ → Stage σ → Prop
  | cancel (s : Stage σ) (id : Nat) : Move s (s.cancel id)
  /-- What is live ceases to be so once it is cancelled or done. -/
  | retire (s : Stage σ) (h : ∀ id, s.live = some id →
      ∃ g, s.growths[id]? = some g ∧ (g.cancelled = true ∨ g.done = true)) :
      Move s { s with live := none }
  | clear (s : Stage σ) : Move s s.clear
  | strokeAll (s : Stage σ) (segments : Array σ) : Move s (s.stroke none segments)
  | detach (s : Stage σ) (segments : Array σ) (batch delay : Numeric) :
      Move s (s.addDetached segments batch delay)
  | begin (s : Stage σ) (segments : Array σ) (n : Nat) (delay : Numeric) (hn : 1 ≤ n)
      (h : s.live = none) :
      Move s { s.addDetached segments (.whole n) delay with live := some s.growths.size }
  | draw {s : Stage σ} {id : Nat} {g : Growth σ} (h : s.CanDraw id g)
      (hmore : g.nextStop < g.total) : Move s (s.drawBatch id g)
  /-- A growth that has more to draw waits after a batch. -/
  | pause {s : Stage σ} {id : Nat} {g : Growth σ} {seconds : Float} (h : s.CanDraw id g)
      (hmore : g.nextStop < g.total) (hgap : g.gap? = some seconds) :
      Move s ((s.drawBatch id g).wait id seconds)
  | finish {s : Stage σ} {id : Nat} {g : Growth σ} (h : s.CanDraw id g)
      (hlast : g.nextStop = g.total) : Move s { s.drawBatch id g with live := none }

abbrev Moves : Stage σ → Stage σ → Prop := Relation.ReflTransGen Move

/-- Whatever is live is among the growths, and no cursor is past the end. -/
structure Sound (s : Stage σ) : Prop where
  live_lt : ∀ id, s.live = some id → id < s.growths.size
  cursor_le : ∀ (id : Nat) (g : Growth σ), s.growths[id]? = some g → g.cursor ≤ g.total

/-! What the operations make of the growths. -/

theorem growth_cancel (s : Stage σ) (id k : Nat) :
    (s.cancel id).growths[k]? =
      (s.growths[k]?).map fun g => if id = k then { g with cancelled := true } else g := by
  rw [cancel, Array.getElem?_modify]
  by_cases h : id = k
  · simp [h]
  · simp [h]

theorem growth_stop (s : Stage σ) (k : Nat) :
    s.stop.growths[k]? =
      (s.growths[k]?).map fun g => if s.live = some k then { g with cancelled := true } else g := by
  cases hl : s.live with
  | none => simp [stop, hl]
  | some id =>
    have h := growth_cancel s id k
    simpa [stop, hl] using h

theorem live_stop (s : Stage σ) : s.stop.live = none := by
  cases hl : s.live with
  | none => simp [stop, hl]
  | some id => simp [stop, hl]

theorem log_stop (s : Stage σ) : s.stop.log = s.log := by
  cases hl : s.live with
  | none => simp [stop, hl]
  | some id => simp [stop, hl, cancel]

theorem size_stop (s : Stage σ) : s.stop.growths.size = s.growths.size := by
  cases hl : s.live with
  | none => simp [stop, hl]
  | some id => simp [stop, hl, cancel]

theorem size_wiped (s : Stage σ) : s.stop.clear.growths.size = s.growths.size := s.size_stop

theorem growth_addDetached (s : Stage σ) (segments : Array σ) (batch delay : Numeric) (k : Nat) :
    (s.addDetached segments batch delay).growths[k]? =
      if k = s.growths.size then some (.new segments batch delay) else s.growths[k]? := by
  rw [addDetached, Array.getElem?_push]

theorem growth_drawBatch (s : Stage σ) (id k : Nat) (g : Growth σ) :
    (s.drawBatch id g).growths[k]? =
      (s.growths[k]?).map fun g' => if id = k then { g' with cursor := g.nextStop } else g' := by
  rw [drawBatch, Array.getElem?_modify]
  by_cases h : id = k
  · simp [h]
  · simp [h]

theorem CanDraw.found_drawBatch {s : Stage σ} {id : Nat} {g : Growth σ} (hd : s.CanDraw id g) :
    (s.drawBatch id g).growths[id]? = some { g with cursor := g.nextStop } := by
  rw [growth_drawBatch, hd.found, Option.map_some, if_pos rfl]

/-- A batch moves the cursor of its growth and leaves the others alone. -/
theorem CanDraw.drawBatch_cases {s : Stage σ} {id k : Nat} {g g' : Growth σ} (hd : s.CanDraw id g)
    (h : (s.drawBatch id g).growths[k]? = some g') :
    (k = id ∧ g' = { g with cursor := g.nextStop }) ∨ (k ≠ id ∧ s.growths[k]? = some g') := by
  by_cases hk : k = id
  · subst hk
    exact Or.inl ⟨rfl, (Option.some.inj (hd.found_drawBatch.symm.trans h)).symm⟩
  · rw [growth_drawBatch] at h
    obtain ⟨g₀, hg₀, rfl⟩ := Option.map_eq_some_iff.1 h
    rw [if_neg (Ne.symm hk)]
    exact Or.inr ⟨hk, hg₀⟩

/-- Where a batch leaves the cursor does not matter once it is moved again. -/
theorem modify_drawBatch (s : Stage σ) (id : Nat) (g : Growth σ) :
    ((s.drawBatch id g).growths.modify id fun g' => { g' with cursor := g.total }) =
      s.growths.modify id fun g' => { g' with cursor := g.total } := by
  apply Array.ext_getElem?
  intro k
  rw [Array.getElem?_modify, Array.getElem?_modify, growth_drawBatch, Option.map_map]
  by_cases hk : id = k
  · rw [if_pos hk, if_pos hk]
    simp [hk, Function.comp_def]
  · rw [if_neg hk, if_neg hk]
    simp [hk]

/-! What starting and drawing come to. -/

theorem one_le_of_wholeBatch {batch : Numeric} {n : Int} (hb : batch.below 1 = false)
    (hn : wholeBatch batch = .ok n) : 1 ≤ n := by
  cases batch with
  | truth b =>
    cases b with
    | false => simp [Numeric.below] at hb
    | true =>
      obtain rfl := Except.ok.inj hn
      exact Int.le_refl 1
  | whole i =>
    obtain rfl := Except.ok.inj hn
    have := of_decide_eq_false hb
    omega
  | real x =>
    rw [wholeBatch] at hn
    split at hn
    · cases hn
    · cases hn
    · next d hd =>
      obtain rfl := Except.ok.inj hn
      exact Number.Binary64.one_le_truncate (of_decide_eq_false hb) hd

/-- A start is refused and changes nothing, fails on a stage already wiped, or makes a new growth
live whose batch is a positive whole number. -/
theorem start_cases (s : Stage σ) (segments : Array σ) (batch delay : Numeric) :
    (∃ e, s.start segments batch delay = (.error e, s)) ∨
    (∃ e, s.start segments batch delay = (.error e, s.stop.clear)) ∨
    ∃ n : Nat, 1 ≤ n ∧ s.start segments batch delay = (.ok s.growths.size,
      { s.stop.clear.addDetached segments (.whole n) delay with live := some s.growths.size }) := by
  rw [start]
  split
  · exact Or.inl ⟨_, rfl⟩
  · next hb =>
    split
    · exact Or.inl ⟨_, rfl⟩
    · dsimp only
      split
      · exact Or.inr (Or.inl ⟨_, rfl⟩)
      · next n hn =>
        have hpos := one_le_of_wholeBatch (Bool.eq_false_iff.2 hb) hn
        have hsize := s.size_wiped
        obtain ⟨k, rfl⟩ : ∃ k : Nat, n = k := ⟨n.toNat, by omega⟩
        refine Or.inr (Or.inr ⟨k, by omega, ?_⟩)
        rw [hsize]

/-- A whole number of at least one is taken as the batch. -/
theorem start_of_whole {batch delay : Numeric} {n : Nat} (hbatch : batch.int? = some ↑n)
    (hn : 1 ≤ n) (hdelay : delay.below 0 = false) (s : Stage σ) (segments : Array σ) :
    s.start segments batch delay = (.ok s.growths.size,
      { s.stop.clear.addDetached segments (.whole n) delay with live := some s.growths.size }) := by
  have hwhole : batch.below 1 = false ∧ wholeBatch batch = .ok n := by
    cases batch with
    | truth b =>
      cases b with
      | false =>
        have hzero := Option.some.inj hbatch
        simp only [Bool.false_eq_true, if_false] at hzero
        omega
      | true => exact ⟨rfl, congrArg Except.ok (Option.some.inj hbatch)⟩
    | whole i =>
      obtain rfl := Option.some.inj hbatch
      exact ⟨decide_eq_false (by omega), rfl⟩
    | real x => cases hbatch
  rw [start, if_neg (Bool.eq_false_iff.1 hwhole.1), if_neg (Bool.eq_false_iff.1 hdelay)]
  dsimp only
  rw [hwhole.2, size_wiped]

theorem openTick_of_rests {s : Stage σ} {id : Nat} (h : s.Rests id) :
    s.openTick id = (none, s.release id) := by
  rw [openTick]
  split
  · next hg =>
    rcases h with h | ⟨g, hg', _⟩
    · rw [release, if_neg h]
    · simp [hg] at hg'
  · next g hg =>
    rcases h with h | ⟨g', hg', hc⟩
    · rw [if_pos (Or.inr h)]
    · obtain rfl := Option.some.inj (hg.symm.trans hg')
      rw [if_pos (Or.inl hc)]

theorem tick_of_rests {s : Stage σ} {id : Nat} (h : s.Rests id) :
    s.tick id = (false, s.release id) := by
  rw [tick, openTick_of_rests h]

theorem openTick_of_canDraw {s : Stage σ} {id : Nat} {g : Growth σ} (h : s.CanDraw id g) :
    s.openTick id = (some g.nextStop, s.stroke (some id) (g.slice g.nextStop)) := by
  simp [openTick, h.found, h.cancelled, h.live]

theorem closeTick_of_found {s t : Stage σ} {id stop : Nat} {g : Growth σ}
    (hg : s.growths[id]? = some g)
    (ht : t = { s with growths := s.growths.modify id fun g' => { g' with cursor := stop } }) :
    s.closeTick id stop =
      if ({ g with cursor := stop } : Growth σ).done || g.cancelled then (false, t.release id)
      else (true, t) := by
  have hafter : (s.growths.modify id fun g' => { g' with cursor := stop })[id]? =
      some { g with cursor := stop } := by
    rw [Array.getElem?_modify, if_pos rfl, hg, Option.map_some]
  rw [closeTick, ht]
  dsimp only
  rw [hafter]

/-- A growth that draws draws its next batch, and it goes on unless that was the last one. -/
theorem tick_of_canDraw {s : Stage σ} {id : Nat} {g : Growth σ} (hd : s.CanDraw id g) :
    (g.nextStop < g.total ∧ s.tick id = (true, s.drawBatch id g)) ∨
      (g.nextStop = g.total ∧ s.tick id = (false, { s.drawBatch id g with live := none })) := by
  have htick : s.tick id =
      if ({ g with cursor := g.nextStop } : Growth σ).done || g.cancelled then
        (false, (s.drawBatch id g).release id)
      else (true, s.drawBatch id g) := by
    rw [tick, openTick_of_canDraw hd]
    exact closeTick_of_found hd.found rfl
  have hrelease : (s.drawBatch id g).release id = { s.drawBatch id g with live := none } :=
    if_pos hd.live
  have hle := g.nextStop_le_total
  rw [htick, hrelease]
  by_cases h : g.total ≤ g.nextStop
  · have hdone : ({ g with cursor := g.nextStop } : Growth σ).done = true := decide_eq_true h
    exact Or.inr ⟨by omega, if_pos (Bool.or_eq_true_iff.2 (Or.inl hdone))⟩
  · have hdone : ({ g with cursor := g.nextStop } : Growth σ).done = false := decide_eq_false h
    refine Or.inl ⟨by omega, if_neg ?_⟩
    rw [hdone, Bool.false_or, hd.cancelled]
    exact Bool.false_ne_true

theorem rests_or_canDraw {s : Stage σ} (hs : s.Sound) (id : Nat) :
    s.Rests id ∨ ∃ g, s.CanDraw id g := by
  by_cases hl : s.live = some id
  · cases hg : s.growths[id]? with
    | none =>
      have hlt := hs.live_lt id hl
      have hle := Array.getElem?_eq_none_iff.1 hg
      omega
    | some g =>
      cases hc : g.cancelled with
      | true => exact Or.inl (Or.inr ⟨g, hg, hc⟩)
      | false => exact Or.inr ⟨g, hl, hg, hc⟩
  · exact Or.inl (Or.inl hl)

theorem not_rests_of_canDraw {s : Stage σ} {id : Nat} {g : Growth σ} (h : s.CanDraw id g) :
    ¬ s.Rests id := by
  rintro (hl | ⟨g', hg', hc⟩)
  · exact hl h.live
  · obtain rfl := Option.some.inj (h.found.symm.trans hg')
    rw [h.cancelled] at hc
    cases hc

/-! What every move keeps. -/

/-- What a move makes of a growth. -/
theorem later_of_move {s t : Stage σ} (hs : s.Sound) (h : Move s t) {k : Nat} {g : Growth σ}
    (hg : s.growths[k]? = some g) : ∃ g', t.growths[k]? = some g' ∧ g.Later g' := by
  have hk : k ≠ s.growths.size := by
    obtain ⟨hlt, _⟩ := Array.getElem?_eq_some_iff.1 hg
    omega
  have hbatch : ∀ {id : Nat} {g₀ : Growth σ}, s.CanDraw id g₀ →
      ∃ g', (s.drawBatch id g₀).growths[k]? = some g' ∧ g.Later g' := by
    intro id g₀ hd
    rw [growth_drawBatch, hg]
    by_cases h : id = k
    · subst h
      obtain rfl := Option.some.inj (hd.found.symm.trans hg)
      have hle := Growth.cursor_le_nextStop (hs.cursor_le _ _ hg)
      exact ⟨{ g₀ with cursor := g₀.nextStop }, by simp, rfl, rfl, rfl, hle, fun hc => hc⟩
    · exact ⟨g, by simp [h], .refl g⟩
  cases h with
  | cancel id =>
    rw [growth_cancel, hg]
    by_cases h : id = k
    · exact ⟨{ g with cancelled := true }, by simp [h], g.later_cancelled⟩
    · exact ⟨g, by simp [h], .refl g⟩
  | retire _ => exact ⟨g, hg, .refl g⟩
  | clear => exact ⟨g, hg, .refl g⟩
  | strokeAll _ => exact ⟨g, hg, .refl g⟩
  | detach _ _ _ => exact ⟨g, by rw [growth_addDetached, if_neg hk, hg], .refl g⟩
  | begin segments n delay _ _ =>
    have hpush := growth_addDetached s segments (.whole n) delay k
    exact ⟨g, by rw [hpush, if_neg hk, hg], .refl g⟩
  | draw hd _ => exact hbatch hd
  | pause hd _ _ => exact hbatch hd
  | finish hd _ => exact hbatch hd

theorem size_le_of_move {s t : Stage σ} (h : Move s t) : s.growths.size ≤ t.growths.size := by
  cases h <;> simp [cancel, clear, record, stroke, addDetached, drawBatch, wait]

theorem sound_empty : (empty : Stage σ).Sound := ⟨by simp [empty], by simp [empty]⟩

theorem sound_of_move {s t : Stage σ} (hs : s.Sound) (h : Move s t) : t.Sound := by
  have hsize := size_le_of_move h
  have hbatch : ∀ {id : Nat} {g₀ : Growth σ}, s.CanDraw id g₀ → ∀ (k : Nat) (g : Growth σ),
      (s.drawBatch id g₀).growths[k]? = some g → g.cursor ≤ g.total := by
    intro id g₀ hd k g hg
    rw [growth_drawBatch] at hg
    obtain ⟨g', hg', rfl⟩ := Option.map_eq_some_iff.1 hg
    by_cases h : id = k
    · subst h
      obtain rfl := Option.some.inj (hd.found.symm.trans hg')
      simpa [Growth.total] using g₀.nextStop_le_total
    · simpa [h] using hs.cursor_le k g' hg'
  have hpush : ∀ (segments : Array σ) (batch delay : Numeric) (k : Nat) (g : Growth σ),
      (s.addDetached segments batch delay).growths[k]? = some g → g.cursor ≤ g.total := by
    intro segments batch delay k g hg
    rw [growth_addDetached] at hg
    split at hg
    · obtain rfl := Option.some.inj hg
      exact Nat.zero_le _
    · exact hs.cursor_le k g hg
  have hlt : ∀ id, s.live = some id → id < t.growths.size := by
    intro id hl
    have := hs.live_lt id hl
    omega
  cases h with
  | cancel id =>
    refine ⟨hlt, ?_⟩
    intro k g hg
    rw [growth_cancel] at hg
    obtain ⟨g', hg', rfl⟩ := Option.map_eq_some_iff.1 hg
    have hle := hs.cursor_le k g' hg'
    by_cases h : id = k
    · simpa [h, Growth.total] using hle
    · simpa [h] using hle
  | retire _ => exact ⟨by simp, hs.cursor_le⟩
  | clear => exact ⟨hlt, hs.cursor_le⟩
  | strokeAll _ => exact ⟨hlt, hs.cursor_le⟩
  | detach segments batch delay => exact ⟨hlt, hpush segments batch delay⟩
  | begin segments n delay _ _ =>
    refine ⟨?_, hpush segments _ delay⟩
    intro id hid
    obtain rfl := Option.some.inj hid
    simp [addDetached]
  | draw hd _ => exact ⟨hlt, hbatch hd⟩
  | pause hd _ _ => exact ⟨hlt, hbatch hd⟩
  | finish hd _ => exact ⟨by simp, hbatch hd⟩

/-- A growth that is not live never becomes so. -/
theorem live_ne_of_move {s t : Stage σ} (h : Move s t) {id : Nat} (hid : id < s.growths.size)
    (hl : s.live ≠ some id) : t.live ≠ some id := by
  cases h with
  | retire _ => simp
  | finish _ _ => simp
  | begin segments n delay _ _ =>
    have hne : s.growths.size ≠ id := by omega
    simpa using hne
  | cancel _ => exact hl
  | clear => exact hl
  | strokeAll _ => exact hl
  | detach _ _ _ => exact hl
  | draw _ _ => exact hl
  | pause _ _ _ => exact hl

/-- The growth is live, or it was cancelled, or it has drawn everything. -/
def Accounted (s : Stage σ) (id : Nat) : Prop :=
  ∃ g, s.growths[id]? = some g ∧ (s.live = some id ∨ g.cancelled = true ∨ g.done = true)

/-- A growth that was just started is live. -/
theorem accounted_of_start {s t : Stage σ} {segments : Array σ} {batch delay : Numeric} {id : Nat}
    (h : s.start segments batch delay = (.ok id, t)) : t.Accounted id := by
  obtain ⟨e, he⟩ | ⟨e, he⟩ | ⟨n, _, he⟩ := start_cases s segments batch delay
  · rw [he] at h
    cases h
  · rw [he] at h
    cases h
  · rw [he] at h
    obtain ⟨hid, rfl⟩ := Prod.mk.inj h
    obtain rfl := Except.ok.inj hid
    have hsize := s.size_wiped.symm
    have hpush := growth_addDetached s.stop.clear segments (.whole n) delay s.growths.size
    rw [if_pos hsize] at hpush
    exact ⟨_, hpush, Or.inl rfl⟩

theorem accounted_of_move {s t : Stage σ} (hs : s.Sound) (h : Move s t) {id : Nat}
    (ha : s.Accounted id) : t.Accounted id := by
  obtain ⟨g, hg, hcase⟩ := ha
  obtain ⟨g', hg', hlater⟩ := later_of_move hs h hg
  refine ⟨g', hg', ?_⟩
  rcases hcase with hl | hc | hd
  · cases h with
    | retire h =>
      obtain ⟨g₀, hg₀, hend⟩ := h id hl
      obtain rfl := Option.some.inj (hg₀.symm.trans hg')
      exact Or.inr hend
    | begin _ _ _ _ hnone =>
      rw [hnone] at hl
      cases hl
    | @finish k g₀ hd hlast =>
      obtain rfl := Option.some.inj (hd.live.symm.trans hl)
      have hafter := growth_drawBatch s k k g₀
      rw [hd.found, Option.map_some, if_pos rfl] at hafter
      obtain rfl := Option.some.inj (hafter.symm.trans hg')
      exact Or.inr (Or.inr (decide_eq_true (Nat.le_of_eq hlast.symm)))
    | cancel _ => exact Or.inl hl
    | clear => exact Or.inl hl
    | strokeAll _ => exact Or.inl hl
    | detach _ _ _ => exact Or.inl hl
    | draw _ _ => exact Or.inl hl
    | pause _ _ _ => exact Or.inl hl
  · exact Or.inr (Or.inl (hlater.cancelled_of hc))
  · exact Or.inr (Or.inr (hlater.done_of hd))

/-! The same of any number of moves. -/

theorem sound_of_moves {s t : Stage σ} (hs : s.Sound) (h : Moves s t) : t.Sound := by
  induction h with
  | refl => exact hs
  | tail _ hmove ih => exact sound_of_move ih hmove

theorem size_le_of_moves {s t : Stage σ} (h : Moves s t) : s.growths.size ≤ t.growths.size := by
  induction h with
  | refl => exact Nat.le_refl _
  | tail _ hmove ih => exact Nat.le_trans ih (size_le_of_move hmove)

theorem later_of_moves {s t : Stage σ} (hs : s.Sound) (h : Moves s t) {k : Nat} {g : Growth σ}
    (hg : s.growths[k]? = some g) : ∃ g', t.growths[k]? = some g' ∧ g.Later g' := by
  induction h with
  | refl => exact ⟨g, hg, .refl g⟩
  | tail hmoves hmove ih =>
    obtain ⟨g', hg', hlater⟩ := ih
    obtain ⟨g'', hg'', hlater'⟩ := later_of_move (sound_of_moves hs hmoves) hmove hg'
    exact ⟨g'', hg'', hlater.trans hlater'⟩

theorem live_ne_of_moves {s t : Stage σ} (h : Moves s t) {id : Nat} (hid : id < s.growths.size)
    (hl : s.live ≠ some id) : t.live ≠ some id := by
  induction h with
  | refl => exact hl
  | tail hmoves hmove ih =>
    exact live_ne_of_move hmove (Nat.lt_of_lt_of_le hid (size_le_of_moves hmoves)) ih

theorem accounted_of_moves {s t : Stage σ} (hs : s.Sound) (h : Moves s t) {id : Nat}
    (ha : s.Accounted id) : t.Accounted id := by
  induction h with
  | refl => exact ha
  | tail hmoves hmove ih => exact accounted_of_move (sound_of_moves hs hmoves) hmove ih

/-- A growth that cannot draw never can again. -/
theorem rests_of_moves {s t : Stage σ} (hs : s.Sound) (h : Moves s t) {id : Nat}
    (hid : id < s.growths.size) (hr : s.Rests id) : t.Rests id := by
  rcases hr with hl | ⟨g, hg, hc⟩
  · exact Or.inl (live_ne_of_moves h hid hl)
  · obtain ⟨g', hg', hlater⟩ := later_of_moves hs h hg
    exact Or.inr ⟨g', hg', hlater.cancelled_of hc⟩

/-! The operations as moves. -/

theorem moves_stop {s : Stage σ} (hs : s.Sound) : Moves s s.stop := by
  cases hl : s.live with
  | none => rw [stop, hl]
  | some id =>
    rw [stop, hl]
    refine .tail (.single (.cancel s id)) (.retire _ ?_)
    intro k hk
    obtain rfl := Option.some.inj (hl.symm.trans hk)
    have hg := Array.getElem?_eq_getElem (hs.live_lt id hl)
    exact ⟨_, by rw [growth_cancel, hg, Option.map_some, if_pos rfl], Or.inl rfl⟩

theorem moves_start {s : Stage σ} (hs : s.Sound) (segments : Array σ) (batch delay : Numeric) :
    Moves s (s.start segments batch delay).2 := by
  have hwipe : Moves s s.stop.clear := (moves_stop hs).tail (.clear _)
  obtain ⟨e, he⟩ | ⟨e, he⟩ | ⟨n, hn, he⟩ := start_cases s segments batch delay
  · rw [he]
  · rw [he]
    exact hwipe
  · rw [he, ← size_stop s]
    exact hwipe.tail (.begin _ segments n delay hn (live_stop s))

theorem moves_drawAll {s : Stage σ} (hs : s.Sound) (segments : Array σ) :
    Moves s (s.drawAll segments) :=
  ((moves_stop hs).tail (.clear _)).tail (.strokeAll _ segments)

theorem moves_release {s : Stage σ} {id : Nat} (hs : s.Rests id) : Moves s (s.release id) := by
  by_cases hl : s.live = some id
  · rw [release, if_pos hl]
    refine .single (.retire s ?_)
    intro k hk
    obtain rfl := Option.some.inj (hl.symm.trans hk)
    rcases hs with h | ⟨g, hg, hc⟩
    · exact absurd hl h
    · exact ⟨g, hg, Or.inl hc⟩
  · rw [release, if_neg hl]

theorem moves_tick {s : Stage σ} (hs : s.Sound) (id : Nat) : Moves s (s.tick id).2 := by
  rcases rests_or_canDraw hs id with hr | ⟨g, hd⟩
  · rw [tick_of_rests hr]
    exact moves_release hr
  · rcases tick_of_canDraw hd with ⟨hmore, ht⟩ | ⟨hlast, ht⟩
    · rw [ht]
      exact .single (.draw hd hmore)
    · rw [ht]
      exact .single (.finish hd hlast)

theorem moves_pause {s t : Stage σ} (hs : s.Sound) {id : Nat} {seconds : Float}
    (ht : s.tick id = (true, t)) (hgap : (t.growths[id]?).bind Growth.gap? = some seconds) :
    Moves s (t.wait id seconds) := by
  rcases rests_or_canDraw hs id with hr | ⟨g, hd⟩
  · rw [tick_of_rests hr] at ht
    cases ht
  · rcases tick_of_canDraw hd with ⟨hmore, ht'⟩ | ⟨_, ht'⟩
    · obtain ⟨_, rfl⟩ := Prod.mk.inj (ht'.symm.trans ht)
      rw [growth_drawBatch, hd.found, Option.map_some, if_pos rfl] at hgap
      exact .single (.pause hd hmore hgap)
    · rw [ht'] at ht
      cases ht

end Stage

end Lindenmayer
