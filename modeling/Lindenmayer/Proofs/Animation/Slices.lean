import Lindenmayer.Proofs.Animation.Moves

/-!
# What a growth has drawn

The record of a stage tells which slices a growth has drawn. They are laid one after another from
its first segment up to its cursor, each a whole batch unless it reaches the end. This holds of
every growth after any number of moves.
-/
namespace Lindenmayer

variable {σ : Type}

/-- The number of segments in some slices. -/
def width (slices : List (Array σ)) : Nat := (slices.flatMap Array.toList).length

/-- The slices are what the growth has drawn so far, each segment once and in order. -/
structure Growth.Drawn (g : Growth σ) (slices : List (Array σ)) : Prop where
  /-- Joined, the slices are the segments up to the cursor. -/
  joined : slices.flatMap Array.toList = g.segments.toList.take g.cursor
  /-- Each slice begins where those before it end. -/
  placed : ∀ (k : Nat) (slice : Array σ), slices[k]? = some slice →
    slice = g.segments.extract (width (slices.take k)) (width (slices.take k) + slice.size)
  /-- A slice is a whole batch unless it reaches the end. -/
  batched : ∀ (k : Nat) (slice : Array σ), slices[k]? = some slice →
    ∃ n : Nat, g.batch = .whole n ∧ slice.size ≤ n ∧
      (slice.size = n ∨ width (slices.take k) + slice.size = g.total)
  /-- No slice is empty unless there is nothing to draw. -/
  filled : ∀ slice ∈ slices, slice.size = 0 → g.total = 0
  cursor_le : g.cursor ≤ g.total

/-- The segments that an event shows the growth to draw. -/
def Event.sliceOf? (id : Nat) : Event σ → Option (Array σ)
  | .stroke (some k) segments => if k = id then some segments else none
  | _ => none

/-- The growth that draws or waits. -/
def Event.source? : Event σ → Option Nat
  | .clear => none
  | .stroke source _ => source
  | .wait id _ => some id

namespace Growth

theorem drawn_new (segments : Array σ) (batch delay : Numeric) :
    (Growth.new segments batch delay).Drawn [] :=
  ⟨rfl, by simp, by simp, by simp, Nat.zero_le _⟩

theorem Drawn.cancelled {g : Growth σ} {slices : List (Array σ)} (h : g.Drawn slices) :
    { g with cancelled := true }.Drawn slices :=
  ⟨h.joined, h.placed, h.batched, h.filled, h.cursor_le⟩

theorem Drawn.width_eq {g : Growth σ} {slices : List (Array σ)} (h : g.Drawn slices) :
    width slices = g.cursor := by
  have hle := h.cursor_le
  rw [total] at hle
  rw [width, h.joined, List.length_take, Array.length_toList]
  omega

theorem size_slice (g : Growth σ) : (g.slice g.nextStop).size = g.nextStop - g.cursor := by
  have hstop := g.nextStop_le_total
  rw [total] at hstop
  rw [slice, Array.size_extract]
  omega

theorem take_append_slice {g : Growth σ} (hle : g.cursor ≤ g.nextStop) :
    g.segments.toList.take g.cursor ++ (g.slice g.nextStop).toList =
      g.segments.toList.take g.nextStop := by
  obtain ⟨n, hn⟩ := Nat.exists_eq_add_of_le hle
  rw [slice, Array.toList_extract, List.extract_eq_take_drop, hn, List.take_add,
    Nat.add_sub_cancel_left]

/-- Another batch is laid after the slices drawn so far. -/
theorem Drawn.next {g : Growth σ} {slices : List (Array σ)} (h : g.Drawn slices) {n : Nat}
    (hn : 1 ≤ n) (hbatch : g.batch = .whole n) (hfresh : g.cursor < g.total ∨ slices = []) :
    { g with cursor := g.nextStop }.Drawn (slices ++ [g.slice g.nextStop]) := by
  have hle := h.cursor_le
  have hstride := stride_of_whole hbatch hn
  have hstop : g.nextStop = min (g.cursor + n) g.total := by rw [nextStop, hstride]
  have hsize := g.size_slice
  have hwidth := h.width_eq
  have hback := cursor_le_nextStop hle
  -- a slice is an old one, at its old place, or the new one at the end
  have hold : ∀ {k : Nat} {slice : Array σ}, (slices ++ [g.slice g.nextStop])[k]? = some slice →
      (slices[k]? = some slice ∧ (slices ++ [g.slice g.nextStop]).take k = slices.take k) ∨
      (slice = g.slice g.nextStop ∧ (slices ++ [g.slice g.nextStop]).take k = slices) := by
    intro k slice hk
    rcases Nat.lt_trichotomy k slices.length with hlt | heq | hgt
    · rw [List.getElem?_append_left hlt] at hk
      exact Or.inl ⟨hk, List.take_append_of_le_length (Nat.le_of_lt hlt)⟩
    · subst heq
      rw [List.getElem?_concat_length] at hk
      exact Or.inr ⟨(Option.some.inj hk).symm, List.take_left⟩
    · rw [List.getElem?_eq_none (by simp; omega)] at hk
      cases hk
  refine ⟨?_, ?_, ?_, ?_, g.nextStop_le_total⟩
  · rw [List.flatMap_append, h.joined, List.flatMap_singleton]
    exact take_append_slice hback
  · intro k slice hk
    rcases hold hk with ⟨hk, htake⟩ | ⟨rfl, htake⟩
    · rw [htake]
      exact h.placed k slice hk
    · rw [htake, hwidth, hsize, Nat.add_sub_cancel' hback]
      rfl
  · intro k slice hk
    rcases hold hk with ⟨hk, htake⟩ | ⟨rfl, htake⟩
    · rw [htake]
      exact h.batched k slice hk
    · refine ⟨n, hbatch, ?_⟩
      rw [htake, hwidth, hsize, Nat.add_sub_cancel' hback]
      change _ ∧ (_ ∨ g.nextStop = g.total)
      omega
  · intro slice hmem hempty
    rcases List.mem_append.1 hmem with hmem | hmem
    · exact h.filled slice hmem hempty
    · obtain rfl := List.mem_singleton.1 hmem
      change g.total = 0
      rcases hfresh with hlt | rfl
      · omega
      · have hzero : g.cursor = 0 := hwidth.symm
        omega

end Growth

namespace Stage

/-- The slices that the growth has drawn, in the order of drawing. -/
def slices (s : Stage σ) (id : Nat) : List (Array σ) := s.log.toList.filterMap (Event.sliceOf? id)

/-- The record tells of every growth exactly what it has drawn. -/
structure Exact (s : Stage σ) : Prop where
  drawn : ∀ (id : Nat) (g : Growth σ), s.growths[id]? = some g → g.Drawn (s.slices id)
  /-- What is live has a proper batch and something left to draw, or has not begun to draw. -/
  live : ∀ (id : Nat) (g : Growth σ), s.live = some id → s.growths[id]? = some g →
    (∃ n : Nat, 1 ≤ n ∧ g.batch = .whole n) ∧ (g.cursor < g.total ∨ s.slices id = [])
  unborn : ∀ id, s.growths.size ≤ id → s.slices id = []

theorem slices_record (s : Stage σ) (e : Event σ) (id : Nat) :
    (s.record e).slices id = s.slices id ++ (e.sliceOf? id).toList := by
  simp only [slices, record, Array.toList_push, List.filterMap_append]
  cases h : e.sliceOf? id <;> simp [h]

theorem slices_drawBatch (s : Stage σ) (id k : Nat) (g : Growth σ) :
    (s.drawBatch id g).slices k =
      if id = k then s.slices k ++ [g.slice g.nextStop] else s.slices k := by
  have hstroke : (s.drawBatch id g).slices k = s.slices k ++
      ((Event.stroke (some id) (g.slice g.nextStop)).sliceOf? k).toList :=
    slices_record { s with picture := s.picture.stroke (g.slice g.nextStop) } _ k
  rw [hstroke, Event.sliceOf?]
  by_cases h : id = k
  · simp [h]
  · simp [h]

theorem exact_empty : (empty : Stage σ).Exact :=
  ⟨by simp [empty], by simp [empty], by simp [slices, empty]⟩

/-- What neither draws nor touches a growth keeps a stage exact. -/
theorem Exact.of_eq {s t : Stage σ} (h : s.Exact) (hgrowths : t.growths = s.growths)
    (hlive : t.live = none ∨ t.live = s.live) (hslices : ∀ k, t.slices k = s.slices k) :
    t.Exact := by
  refine ⟨?_, ?_, ?_⟩
  · intro k g hg
    rw [hgrowths] at hg
    rw [hslices]
    exact h.drawn k g hg
  · intro k g hl hg
    rw [hgrowths] at hg
    rw [hslices]
    rcases hlive with hnone | heq
    · rw [hnone] at hl
      cases hl
    · exact h.live k g (heq ▸ hl) hg
  · intro k hk
    rw [hgrowths] at hk
    rw [hslices]
    exact h.unborn k hk

/-- What an event that draws nothing for a growth leaves exact. -/
theorem Exact.record {s : Stage σ} (h : s.Exact) {e : Event σ}
    (he : ∀ k, e.sliceOf? k = none) : (s.record e).Exact := by
  refine h.of_eq rfl (Or.inr rfl) ?_
  intro k
  rw [slices_record, he k]
  exact List.append_nil _

/-- Cancelling keeps a stage exact. -/
theorem Exact.cancel {s : Stage σ} (h : s.Exact) (id : Nat) : (s.cancel id).Exact := by
  have hold : ∀ {k : Nat} {g : Growth σ}, (s.cancel id).growths[k]? = some g →
      ∃ g', s.growths[k]? = some g' ∧ (g = g' ∨ g = { g' with cancelled := true }) := by
    intro k g hg
    rw [growth_cancel] at hg
    obtain ⟨g', hg', rfl⟩ := Option.map_eq_some_iff.1 hg
    refine ⟨g', hg', ?_⟩
    by_cases hk : id = k
    · exact Or.inr (if_pos hk)
    · exact Or.inl (if_neg hk)
  refine ⟨?_, ?_, ?_⟩
  · intro k g hg
    obtain ⟨g', hg', rfl | rfl⟩ := hold hg
    · exact h.drawn k _ hg'
    · exact (h.drawn k g' hg').cancelled
  · intro k g hl hg
    obtain ⟨g', hg', rfl | rfl⟩ := hold hg
    · exact h.live k _ hl hg'
    · exact h.live k g' hl hg'
  · intro k hk
    exact h.unborn k (by simpa [Stage.cancel] using hk)

/-- A new growth has drawn nothing. -/
theorem Exact.push {s : Stage σ} (h : s.Exact) (segments : Array σ) (batch delay : Numeric) :
    (∀ (id : Nat) (g : Growth σ),
      (s.addDetached segments batch delay).growths[id]? = some g → g.Drawn (s.slices id)) ∧
      ∀ id, (s.addDetached segments batch delay).growths.size ≤ id → s.slices id = [] := by
  constructor
  · intro id g hg
    rw [growth_addDetached] at hg
    split at hg
    · next hid =>
      obtain rfl := Option.some.inj hg
      rw [h.unborn id (Nat.le_of_eq hid.symm)]
      exact Growth.drawn_new segments batch delay
    · exact h.drawn id g hg
  · intro id hid
    refine h.unborn id ?_
    rw [addDetached, Array.size_push] at hid
    omega

/-- What a batch makes of the slices. -/
theorem Exact.drawBatch {s : Stage σ} (h : s.Exact) {id : Nat} {g : Growth σ}
    (hd : s.CanDraw id g) :
    (∀ (k : Nat) (g' : Growth σ), (s.drawBatch id g).growths[k]? = some g' →
      g'.Drawn ((s.drawBatch id g).slices k)) ∧
      ∀ k, (s.drawBatch id g).growths.size ≤ k → (s.drawBatch id g).slices k = [] := by
  obtain ⟨⟨n, hn, hbatch⟩, hfresh⟩ := h.live id g hd.live hd.found
  constructor
  · intro k g' hg'
    rw [growth_drawBatch] at hg'
    obtain ⟨g₀, hg₀, rfl⟩ := Option.map_eq_some_iff.1 hg'
    rw [slices_drawBatch]
    by_cases hk : id = k
    · subst hk
      obtain rfl := Option.some.inj (hd.found.symm.trans hg₀)
      simpa using (h.drawn id g hd.found).next hn hbatch hfresh
    · simpa [hk] using h.drawn k g₀ hg₀
  · intro k hk
    have hsize : (s.drawBatch id g).growths.size = s.growths.size := Array.size_modify
    obtain ⟨hlt, _⟩ := Array.getElem?_eq_some_iff.1 hd.found
    rw [slices_drawBatch, if_neg (by omega)]
    exact h.unborn k (by omega)

/-- A batch short of the end keeps a stage exact. -/
theorem Exact.draw {s : Stage σ} (h : s.Exact) {id : Nat} {g : Growth σ} (hd : s.CanDraw id g)
    (hmore : g.nextStop < g.total) : (s.drawBatch id g).Exact := by
  obtain ⟨hdrawn, hunborn⟩ := h.drawBatch hd
  refine ⟨hdrawn, ?_, hunborn⟩
  intro k g' hl hg'
  obtain rfl := Option.some.inj (hd.live.symm.trans hl)
  rw [growth_drawBatch, hd.found, Option.map_some, if_pos rfl] at hg'
  obtain rfl := Option.some.inj hg'
  exact ⟨(h.live id g hd.live hd.found).1, Or.inl hmore⟩

theorem exact_of_move {s t : Stage σ} (hs : s.Sound) (h : s.Exact) (hmove : Move s t) :
    t.Exact := by
  cases hmove with
  | cancel id => exact h.cancel id
  | retire _ => exact h.of_eq rfl (Or.inl rfl) (fun _ => rfl)
  | clear =>
    have hblank : Exact { s with picture := Picture.blank } :=
      h.of_eq rfl (Or.inr rfl) (fun _ => rfl)
    exact hblank.record (fun _ => rfl)
  | strokeAll segments =>
    have hdrawn : Exact { s with picture := s.picture.stroke segments } :=
      h.of_eq rfl (Or.inr rfl) (fun _ => rfl)
    exact hdrawn.record (fun _ => rfl)
  | detach segments batch delay =>
    obtain ⟨hdrawn, hunborn⟩ := h.push segments batch delay
    refine ⟨hdrawn, ?_, hunborn⟩
    intro k g hl hg
    have hlt := hs.live_lt k hl
    rw [growth_addDetached, if_neg (by omega)] at hg
    exact h.live k g hl hg
  | begin segments n delay hn _ =>
    obtain ⟨hdrawn, hunborn⟩ := h.push segments (.whole n) delay
    refine ⟨hdrawn, ?_, hunborn⟩
    intro k g hl hg
    have hpush := growth_addDetached s segments (.whole n) delay k
    obtain rfl := Option.some.inj hl
    rw [if_pos rfl] at hpush
    obtain rfl := Option.some.inj (hpush.symm.trans hg)
    exact ⟨⟨n, hn, rfl⟩, Or.inr (h.unborn _ (Nat.le_refl _))⟩
  | draw hd hmore => exact h.draw hd hmore
  | pause hd hmore _ => exact (h.draw hd hmore).record (fun _ => rfl)
  | finish hd hlast =>
    obtain ⟨hdrawn, hunborn⟩ := h.drawBatch hd
    exact ⟨hdrawn, by simp, hunborn⟩

theorem exact_of_moves {s t : Stage σ} (hs : s.Sound) (h : s.Exact) (hmoves : Moves s t) :
    t.Exact := by
  induction hmoves with
  | refl => exact h
  | tail hmoves hmove ih => exact exact_of_move (sound_of_moves hs hmoves) ih hmove

/-! A growth that cannot draw leaves no more traces. -/

/-- The strokes and waits of the growth, in order. -/
def events (s : Stage σ) (id : Nat) : List (Event σ) :=
  s.log.toList.filter fun e => e.source? = some id

theorem events_record {s : Stage σ} {e : Event σ} {id : Nat} (h : e.source? ≠ some id) :
    (s.record e).events id = s.events id := by
  simp [events, record, h]

theorem events_drawBatch {s : Stage σ} {id k : Nat} {g : Growth σ} (hd : s.CanDraw k g)
    (hr : s.Rests id) : k ≠ id ∧ (s.drawBatch k g).events id = s.events id := by
  have hne : k ≠ id := by
    rintro rfl
    exact not_rests_of_canDraw hd hr
  have hsource : (Event.stroke (some k) (g.slice g.nextStop)).source? ≠ some id := by
    simpa [Event.source?] using hne
  have hevents := events_record (s := { s with picture := s.picture.stroke (g.slice g.nextStop) })
    hsource
  exact ⟨hne, hevents⟩

theorem events_of_move {s t : Stage σ} (h : Move s t) {id : Nat} (hr : s.Rests id) :
    t.events id = s.events id := by
  cases h with
  | clear =>
    have hsource : (Event.clear : Event σ).source? ≠ some id := by simp [Event.source?]
    exact events_record (s := { s with picture := Picture.blank }) hsource
  | strokeAll segments =>
    have hsource : (Event.stroke none segments).source? ≠ some id := by simp [Event.source?]
    exact events_record (s := { s with picture := s.picture.stroke segments }) hsource
  | cancel _ => rfl
  | retire _ => rfl
  | detach _ _ _ => rfl
  | begin _ _ _ _ _ => rfl
  | draw hd _ => exact (events_drawBatch hd hr).2
  | pause hd _ _ =>
    obtain ⟨hne, hevents⟩ := events_drawBatch hd hr
    rw [wait, events_record (by simpa [Event.source?] using hne), hevents]
  | finish hd _ => exact (events_drawBatch hd hr).2

theorem events_of_moves {s t : Stage σ} (hs : s.Sound) (h : Moves s t) {id : Nat}
    (hid : id < s.growths.size) (hr : s.Rests id) : t.events id = s.events id := by
  induction h with
  | refl => rfl
  | tail hmoves hmove ih => rw [events_of_move hmove (rests_of_moves hs hmoves hid hr), ih]

end Stage

end Lindenmayer
