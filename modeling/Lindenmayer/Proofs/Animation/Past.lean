import Lindenmayer.Proofs.Animation.Moves

/-!
# A stage with a past

What has happened on a stage bears on what happens next only through the picture and what is live.
So the growths that were made and the events that were recorded before some point may be left out:
to put them in front again gives the growths that follow other numbers, and everything done on the
stage is otherwise the same.
-/
namespace Lindenmayer

variable {σ : Type}

/-- The growths and the events of the time before. -/
structure Stage.Past (σ : Type) where
  growths : Array (Growth σ)
  log : Array (Event σ)

/-- The number of a growth after all those of the past. -/
def Stage.Past.number (p : Stage.Past σ) (id : Nat) : Nat := p.growths.size + id

def Event.after (p : Stage.Past σ) : Event σ → Event σ
  | clear => clear
  | stroke source segments => stroke (source.map p.number) segments
  | wait growth seconds => wait (p.number growth) seconds

namespace Stage

/-- The stage with a past in front of what has happened on it. -/
def after (s : Stage σ) (p : Past σ) : Stage σ where
  picture := s.picture
  growths := p.growths ++ s.growths
  live := s.live.map p.number
  log := p.log ++ s.log.map (Event.after p)

theorem Past.number_inj (p : Past σ) {id k : Nat} : p.number id = p.number k ↔ id = k := by
  rw [number, number]
  constructor
  · intro h
    omega
  · rintro rfl
    rfl

theorem growth_after (s : Stage σ) (p : Past σ) (id : Nat) :
    (s.after p).growths[p.number id]? = s.growths[id]? := by
  have hle : p.growths.size ≤ p.number id := Nat.le_add_right _ _
  rw [after, Array.getElem?_append_right hle, Past.number, Nat.add_sub_cancel_left]

theorem live_after_iff (s : Stage σ) (p : Past σ) (id : Nat) :
    (s.after p).live = some (p.number id) ↔ s.live = some id := by
  cases hl : s.live with
  | none => simp [after, hl]
  | some k => simp [after, hl, p.number_inj]

theorem modify_after (s : Stage σ) (p : Past σ) (id : Nat) (f : Growth σ → Growth σ) :
    (s.after p).growths.modify (p.number id) f = p.growths ++ s.growths.modify id f := by
  apply Array.ext_getElem?
  intro k
  rw [Array.getElem?_modify, after]
  by_cases hk : k < p.growths.size
  · have hne : p.number id ≠ k := by
      rw [Past.number]
      omega
    rw [if_neg hne, Array.getElem?_append_left hk, Array.getElem?_append_left hk]
  · obtain ⟨j, rfl⟩ : ∃ j, k = p.number j := ⟨k - p.growths.size, by rw [Past.number]; omega⟩
    have hle : p.growths.size ≤ p.number j := Nat.le_add_right _ _
    have hsub : p.number j - p.growths.size = j := Nat.add_sub_cancel_left _ _
    rw [Array.getElem?_append_right hle, Array.getElem?_append_right hle, hsub,
      Array.getElem?_modify]
    simp only [p.number_inj]

/-! What is done on the stage. -/

theorem record_after (s : Stage σ) (p : Past σ) (e : Event σ) :
    (s.after p).record (e.after p) = (s.record e).after p := by
  simp only [record, after, Array.map_push, Array.push_append]

theorem clear_after (s : Stage σ) (p : Past σ) : (s.after p).clear = s.clear.after p :=
  record_after { s with picture := Picture.blank } p .clear

theorem stroke_after (s : Stage σ) (p : Past σ) (source : Option Nat) (segments : Array σ) :
    (s.after p).stroke (source.map p.number) segments = (s.stroke source segments).after p :=
  record_after { s with picture := s.picture.stroke segments } p (.stroke source segments)

theorem wait_after (s : Stage σ) (p : Past σ) (id : Nat) (seconds : Float) :
    (s.after p).wait (p.number id) seconds = (s.wait id seconds).after p :=
  record_after s p (.wait id seconds)

theorem release_after (s : Stage σ) (p : Past σ) (id : Nat) :
    (s.after p).release (p.number id) = (s.release id).after p := by
  rw [release, release]
  by_cases hl : s.live = some id
  · rw [if_pos hl, if_pos ((s.live_after_iff p id).2 hl)]
    rfl
  · rw [if_neg hl, if_neg (fun h => hl ((s.live_after_iff p id).1 h))]

theorem stop_after (s : Stage σ) (p : Past σ) : (s.after p).stop = s.stop.after p := by
  cases hl : s.live with
  | none => simp [stop, after, hl]
  | some id =>
    have hmodify := s.modify_after p id fun g => { g with cancelled := true }
    simp only [after] at hmodify
    simp only [stop, after, cancel, hl, Option.map_some, Option.map_none, hmodify]

theorem drawAll_after (s : Stage σ) (p : Past σ) (segments : Array σ) :
    (s.after p).drawAll segments = (s.drawAll segments).after p := by
  have hstroke := s.stop.clear.stroke_after p none segments
  rw [drawAll, drawAll, stop_after, clear_after]
  exact hstroke

/-- To start makes of two stages the same if they are the same once they are wiped. -/
theorem start_of_wiped {s t : Stage σ} {p : Past σ} (h : s.stop.clear = t.stop.clear.after p)
    {batch delay : Numeric} (hbatch : batch.below 1 = false) (hdelay : delay.below 0 = false)
    (segments : Array σ) :
    s.start segments batch delay =
      ((t.start segments batch delay).1.map p.number,
        (t.start segments batch delay).2.after p) := by
  have hb := Bool.eq_false_iff.1 hbatch
  have hd := Bool.eq_false_iff.1 hdelay
  rw [start, if_neg hb, if_neg hd, start, if_neg hb, if_neg hd]
  dsimp only
  rw [h]
  cases wholeBatch batch with
  | error e => rfl
  | ok n =>
    simp only [addDetached, after, Array.push_append, Array.size_append, Except.map,
      Option.map_some, Past.number]

theorem start_after (s : Stage σ) (p : Past σ) (segments : Array σ) (batch delay : Numeric) :
    (s.after p).start segments batch delay =
      ((s.start segments batch delay).1.map p.number,
        (s.start segments batch delay).2.after p) := by
  by_cases hbatch : batch.below 1 = true
  · rw [start, if_pos hbatch, start, if_pos hbatch]
    rfl
  · by_cases hdelay : delay.below 0 = true
    · rw [start, if_neg hbatch, if_pos hdelay, start, if_neg hbatch, if_pos hdelay]
      rfl
    · refine start_of_wiped ?_ (Bool.eq_false_iff.2 hbatch) (Bool.eq_false_iff.2 hdelay) segments
      rw [stop_after, clear_after]

theorem openTick_after (s : Stage σ) (p : Past σ) (id : Nat) :
    (s.after p).openTick (p.number id) = ((s.openTick id).1, (s.openTick id).2.after p) := by
  rw [openTick, openTick, growth_after]
  split
  · rfl
  · next g _ =>
    simp only [ne_eq, live_after_iff]
    split
    · rw [release_after]
    · exact Prod.ext rfl (s.stroke_after p (some id) _)

theorem closeTick_after (s : Stage σ) (p : Past σ) (id stop : Nat) :
    (s.after p).closeTick (p.number id) stop =
      ((s.closeTick id stop).1, (s.closeTick id stop).2.after p) := by
  have hmodify : ({ s.after p with
      growths := (s.after p).growths.modify (p.number id) fun g => { g with cursor := stop } } :
        Stage σ) =
      { s with growths := s.growths.modify id fun g => { g with cursor := stop } }.after p := by
    rw [modify_after]
    rfl
  rw [closeTick, closeTick, hmodify]
  dsimp only
  rw [growth_after]
  cases (s.growths.modify id fun g => { g with cursor := stop })[id]? with
  | none => rfl
  | some g =>
    dsimp only
    split
    · rw [release_after]
    · rfl

theorem hasGrown_after (s : Stage σ) (p : Past σ) (id : Nat) :
    (s.after p).hasGrown (p.number id) = s.hasGrown id := by
  rw [hasGrown, hasGrown, growth_after]

/-! What is seen of the waits. -/

end Stage

def Event.seconds? : Event σ → Option Float
  | wait _ seconds => some seconds
  | _ => none

namespace Stage

/-- The seconds of all waits, in order. -/
def waits (s : Stage σ) : List Float := s.log.toList.filterMap Event.seconds?

theorem waits_after (s : Stage σ) (p : Past σ) :
    (s.after p).waits = p.log.toList.filterMap Event.seconds? ++ s.waits := by
  have hseconds : ∀ e : Event σ, (e.after p).seconds? = e.seconds? := by
    intro e
    cases e with
    | clear => rfl
    | stroke source segments => rfl
    | wait growth seconds => rfl
  simp only [waits, after, Array.toList_append, Array.toList_map, List.filterMap_append,
    List.filterMap_map, Function.comp_def, hseconds]

/-! A stage that is wiped is an empty one with a past. -/

def past (s : Stage σ) : Past σ := ⟨s.stop.growths, s.log⟩

theorem stop_stop (s : Stage σ) : s.stop.stop = s.stop := by
  rw [stop.eq_def s.stop, live_stop]

theorem past_stop (s : Stage σ) : s.stop.past = s.past := by
  rw [past, past, stop_stop, log_stop]

theorem clear_eq_after (s : Stage σ) : s.stop.clear = (empty : Stage σ).clear.after s.past := by
  simp [clear, record, after, past, empty, log_stop, live_stop, Event.after]

theorem drawAll_eq_after (s : Stage σ) (segments : Array σ) :
    s.drawAll segments = ((empty : Stage σ).drawAll segments).after s.past := by
  have hstroke := (empty : Stage σ).clear.stroke_after s.past none segments
  rw [drawAll, clear_eq_after]
  exact hstroke

end Stage

end Lindenmayer
