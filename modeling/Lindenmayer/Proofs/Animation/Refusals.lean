import Lindenmayer.Animation.Script
import Lindenmayer.Proofs.Animation.Moves
import Mathlib.Logic.Function.Iterate

/-!
# Starts that are refused

A start compares the batch and the delay before it touches anything, so what a comparison refuses
changes nothing. Comparisons say nothing of a batch that is no number, though, nor against one that
is infinite; such a batch is found to have no whole part only after the growth that was live has been
cancelled and the picture wiped.
-/
namespace Lindenmayer

open Number.Binary64

/-- It is no number, or infinite and not negative: no comparison with one refuses it, and it has no
whole part. -/
def Numeric.SlipsThrough : Numeric → Prop
  | .real x => ofFloat x = .nan ∨ ofFloat x = .infinite false
  | _ => False

variable {σ : Type}

namespace Stage

theorem slipsThrough_iff (batch : Numeric) :
    batch.SlipsThrough ↔ batch.below 1 = false ∧ ∃ e, wholeBatch batch = .error e := by
  cases batch with
  | truth b => simp [Numeric.SlipsThrough, wholeBatch]
  | whole i => simp [Numeric.SlipsThrough, wholeBatch]
  | real x =>
    have hbelow : (Numeric.real x).below 1 = false ↔ ¬ x < Float.ofNat 1 := decide_eq_false_iff_not
    rw [hbelow, wholeBatch, Numeric.SlipsThrough]
    cases hx : ofFloat x with
    | nan => simp [not_lt_of_nan hx]
    | infinite negative => simp [lt_one_iff_of_infinite hx]
    | finite d => simp

/-- A start that a comparison refuses changes nothing. -/
theorem start_of_refused {batch delay : Numeric}
    (h : batch.below 1 = true ∨ delay.below 0 = true) (s : Stage σ) (segments : Array σ) :
    ∃ e, s.start segments batch delay = (.error e, s) := by
  rw [start]
  by_cases hbatch : batch.below 1 = true
  · exact ⟨_, if_pos hbatch⟩
  · rw [if_neg hbatch]
    exact ⟨_, if_pos (h.resolve_left hbatch)⟩

/-- A start with such a batch wipes the stage and fails. -/
theorem start_of_slipsThrough {batch delay : Numeric} (hbatch : batch.SlipsThrough)
    (hdelay : delay.below 0 = false) (s : Stage σ) (segments : Array σ) :
    ∃ e, s.start segments batch delay = (.error e, s.stop.clear) := by
  obtain ⟨hbelow, e, he⟩ := (slipsThrough_iff batch).1 hbatch
  refine ⟨e, ?_⟩
  rw [start, if_neg (Bool.eq_false_iff.1 hbelow), if_neg (Bool.eq_false_iff.1 hdelay), he]

/-- With any other batch a start that fails has changed nothing. -/
theorem start_of_not_slipsThrough {batch delay : Numeric}
    (h : ¬ (batch.SlipsThrough ∧ delay.below 0 = false)) {s t : Stage σ} {segments : Array σ}
    {e : GrowthError} (hstart : s.start segments batch delay = (.error e, t)) : t = s := by
  rw [start] at hstart
  split at hstart
  · exact (Prod.mk.inj hstart).2.symm
  · next hbatch =>
    split at hstart
    · exact (Prod.mk.inj hstart).2.symm
    · next hdelay =>
      dsimp only at hstart
      split at hstart
      · next e' he =>
        have hslips := (slipsThrough_iff batch).2 ⟨Bool.eq_false_iff.2 hbatch, e', he⟩
        exact absurd ⟨hslips, Bool.eq_false_iff.2 hdelay⟩ h
      · cases (Prod.mk.inj hstart).1

/-- A stage that was wiped keeps a record of it. -/
theorem wiped_ne (s : Stage σ) : s.stop.clear ≠ s := by
  intro h
  have hlog : s.stop.clear.log.size = s.stop.log.size + 1 := Array.size_push _
  rw [h, log_stop] at hlog
  omega

end Stage

namespace ScriptedStage

theorem failure_started {a : ScriptedStage σ} {r : Except GrowthError Nat × Stage σ} {run : Bool}
    {e : GrowthError} (hok : a.failure = none) (h : (a.started r run).failure = some e) :
    r.1 = .error e ∧ (a.started r run).stage = r.2 := by
  obtain ⟨e' | id, t⟩ := r
  · obtain rfl := Option.some.inj h
    exact ⟨rfl, rfl⟩
  · rw [started, hok] at h
    cases h

/-- A start that fails, on its own or in order to grow, leaves the stage with everything on it as it
was, unless the batch is no number or infinite and has got past both comparisons. Then the live
growth has been cancelled and the picture wiped. -/
theorem rejected_start_changes_nothing_iff {a : ScriptedStage σ} {c : StageCommand σ}
    {segments : Array σ} {batch delay : Numeric} {e : GrowthError}
    (hc : c = .start segments batch delay ∨ c = .grow segments batch delay)
    (hok : a.failure = none) (hrejected : (a.perform c).failure = some e) :
    ((a.perform c).stage = a.stage ↔ ¬ (batch.SlipsThrough ∧ delay.below 0 = false)) ∧
      ((a.perform c).stage = a.stage ∨ (a.perform c).stage = a.stage.stop.clear) := by
  obtain ⟨t, hstart, hstage⟩ : ∃ t, a.stage.start segments batch delay = (.error e, t) ∧
      (a.perform c).stage = t := by
    rcases hc with rfl | rfl
    · obtain ⟨herror, hstage⟩ := failure_started hok hrejected
      exact ⟨_, Prod.ext herror rfl, hstage⟩
    · obtain ⟨herror, hstage⟩ := failure_started hok hrejected
      exact ⟨_, Prod.ext herror rfl, hstage⟩
  rw [hstage]
  by_cases h : batch.SlipsThrough ∧ delay.below 0 = false
  · obtain ⟨_, hwiped⟩ := a.stage.start_of_slipsThrough h.1 h.2 segments
    obtain rfl : t = a.stage.stop.clear := (Prod.mk.inj (hstart.symm.trans hwiped)).2
    exact ⟨⟨fun hsame => absurd hsame a.stage.wiped_ne, fun hnot => absurd h hnot⟩, Or.inr rfl⟩
  · obtain rfl := Stage.start_of_not_slipsThrough h hstart
    exact ⟨⟨fun _ => h, fun _ => rfl⟩, Or.inl rfl⟩

/-- A stage on which a growth of three segments has drawn the first. -/
def oneDrawn : ScriptedStage Nat :=
  step^[3] { new .quiet .quiet with
    tasks := [.commands (.start #[0, 1, 2] (.whole 1) (.whole 0)) [.tick 0]] }

/-- A batch of none is refused, and the live growth goes on from where it was. -/
theorem oneDrawn_refuses_no_batch :
    (oneDrawn.perform (.grow #[7, 8] (.whole 0) (.whole 0))).failure =
        some (.batchBelowOne (.whole 0)) ∧
      oneDrawn.stage.live = some 0 ∧
      (oneDrawn.perform (.grow #[7, 8] (.whole 0) (.whole 0))).stage = oneDrawn.stage := by
  have hrejected : (oneDrawn.perform (.grow #[7, 8] (.whole 0) (.whole 0))).failure =
      some (.batchBelowOne (.whole 0)) := rfl
  have hkept := (rejected_start_changes_nothing_iff (Or.inr rfl) rfl hrejected).1.2
  exact ⟨hrejected, rfl, hkept fun h => h.1⟩

/-- A batch that is no number is refused as well, but the live growth is cancelled and its picture
gone. -/
theorem oneDrawn_wiped_by_nan :
    oneDrawn.failure = none ∧
      (oneDrawn.perform (.start #[7, 8] (.real (0 / 0)) (.whole 0))).failure =
        some .batchNoNumber ∧
      oneDrawn.stage.live = some 0 ∧
      (oneDrawn.perform (.start #[7, 8] (.real (0 / 0)) (.whole 0))).stage.live = none ∧
      oneDrawn.stage.growths.toList.map (fun g => (g.cursor, g.cancelled)) = [(1, false)] ∧
      (oneDrawn.perform (.start #[7, 8] (.real (0 / 0)) (.whole 0))).stage.growths.toList.map
        (fun g => (g.cursor, g.cancelled)) = [(1, true)] ∧
      oneDrawn.stage.picture.segments = [0] ∧
      (oneDrawn.perform (.start #[7, 8] (.real (0 / 0)) (.whole 0))).stage.picture.segments =
        [] := by
  refine ⟨rfl, rfl, rfl, ?_, by decide +kernel, ?_, by decide +kernel, ?_⟩
  · decide +kernel
  · decide +kernel
  · decide +kernel

end ScriptedStage

end Lindenmayer
