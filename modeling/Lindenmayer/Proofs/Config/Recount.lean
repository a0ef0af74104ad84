import Lindenmayer.Proofs.Config.Checks
import Lindenmayer.Proofs.Number.Whole

/-!
# Counting iterations again

An integer that is accepted as a count of iterations is rounded to 53 significant bits, and a count
that has come out of a double is kept from then on. So a configuration that was accepted once is
accepted again as it is, and with any other number of iterations that is accepted, nothing else in
it changes: the start word has no white space left to lose, and the turn and the step are still
finite.
-/
namespace Lindenmayer

open Number

theorem le_log2_of_pow_le {d n : Nat} (h : Nat.pow 10 d ≤ n) : d ≤ n.log2 := by
  have hpos : 0 < n := Nat.lt_of_lt_of_le (Nat.pow_pos (by decide)) h
  exact (Nat.le_log2 hpos.ne').2 ((Nat.pow_le_pow_left (by decide) d).trans h)

/-- A number of too many digits to be written exceeds every finite double. -/
theorem Numeric.toFloat?_of_not_writable {i : Numeric} (h : i.isWritable = false) :
    i.toFloat? = none := by
  cases i with
  | truth b => cases h
  | real x => cases h
  | whole k =>
    rw [isWritable, Number.isWritable, decide_eq_false_iff_not, not_lt] at h
    exact Binary64.ofInt?_eq_none (Nat.le_trans (by decide) (le_log2_of_pow_le h))

namespace Value

theorem exists_isNumber_real {x : Float} (h : x.isFinite = true) :
    ∃ q, (number (.real x)).IsNumber x q := by
  obtain ⟨q, hq⟩ := isFinite_iff_exists_standsFor.1 h
  exact ⟨q, by simp, rfl, hq⟩

theorem isFinite_of_isNumber {v : Value} {x : Float} {q : ℚ} (h : v.IsNumber x q) :
    x.isFinite = true :=
  isFinite_iff_exists_standsFor.2 ⟨q, h.exact⟩

/-- An integer is not below zero if it is accepted as a count, and it is rounded. -/
theorem toCount_whole_ok {i : Int} {n : Nat} (h : (number (.whole i)).toCount = .ok n) :
    0 ≤ i ∧ n = nearestFit i.toNat := by
  obtain ⟨x, hx⟩ := toCount_ok_iff.1 h
  have hrounded := (Binary64.standsFor_of_ofInt? hx.read).unique hx.exact
  by_cases hi : i < 0
  · -- the rounded number would be below zero
    rw [if_pos hi] at hrounded
    have hpos : (0 : ℚ) < nearestFit i.natAbs :=
      Nat.cast_pos.2 (nearestFit_pos (Int.natAbs_pos.2 hi.ne))
    have hnonneg : (0 : ℚ) ≤ n := n.cast_nonneg
    rw [← hrounded] at hnonneg
    exact absurd (neg_nonneg.1 hnonneg) hpos.not_ge
  · rw [if_neg hi, Nat.cast_inj] at hrounded
    refine ⟨Int.not_lt.1 hi, ?_⟩
    rw [← hrounded]
    congr 1
    omega

/-- A count that is a double is taken as it is. -/
theorem toCount_whole_of_fitsDouble {n : Nat} (hfits : FitsDouble n) (hlog : n.log2 < 1024) :
    (number (.whole n)).toCount = .ok n := by
  obtain ⟨x, hread, hx⟩ := Binary64.exists_ofInt?_of_fitsDouble hfits hlog
  exact toCount_ok_iff.2 ⟨x, by simp, hread, hx⟩

end Value

namespace Config

/-- What is known of a configuration that was accepted. -/
structure Made (c : Config) : Prop where
  start : startWord (some c.start) = c.start
  angle : c.angle.isFinite = true
  step : c.step.isFinite = true
  step_pos : ¬ c.step ≤ 0

variable {s : Settings} {c : Config}

theorem made_of_make (h : make s = .ok c) : c.Made := by
  obtain ⟨hstart, -, -, ⟨q, hangle⟩, ⟨r, hstep, hr⟩, -⟩ := make_ok_iff_describes.1 h
  obtain ⟨hne, htrimmed⟩ := hstart.ne_nil_and_trimmed
  refine ⟨?_, Value.isFinite_of_isNumber hangle, Value.isFinite_of_isNumber hstep, ?_⟩
  · have hagain : IsStart ((some c.start).getD []) c.start :=
      .trimmed [] [] (by simp) Text.blank_nil Text.blank_nil htrimmed hne
    exact (isStart_iff.1 hagain).symm
  · rw [hstep.exact.le_zero_iff, not_le]
    exact hr

/-- A count of iterations that was accepted is a double. -/
theorem iterations_of_make (h : make s = .ok c) :
    FitsDouble c.iterations ∧ c.iterations.log2 < 1024 := by
  obtain ⟨x, hx⟩ := (make_ok_iff_describes.1 h).iterations
  exact Binary64.exists_standsFor_iff.1 ⟨x, hx.exact⟩

/-- A count of iterations that was accepted has few enough digits for a message. -/
theorem isWritable_iterations_of_make (h : make s = .ok c) :
    Number.isWritable c.iterations = true := by
  obtain ⟨-, hlog⟩ := iterations_of_make h
  by_contra hlong
  rw [Number.isWritable, decide_eq_true_iff, not_lt, Int.natAbs_natCast] at hlong
  have hdigits : maxIntDigits ≤ c.iterations.log2 := le_log2_of_pow_le hlong
  rw [maxIntDigits] at hdigits
  omega

namespace Made

theorem recount (h : c.Made) (n : Nat) : Made { c with iterations := n } :=
  ⟨h.start, h.angle, h.step, h.step_pos⟩

/-- With another count that is accepted, nothing else changes. -/
theorem make_recount (h : c.Made) (i : Numeric) (v : Value) (c' : Config) :
    make { c.settings i with iterations := v } = .ok c' ↔
      ∃ n, v.toCount = .ok n ∧ c' = { c with iterations := n } := by
  obtain ⟨q, hangle⟩ := Value.exists_isNumber_real h.angle
  obtain ⟨r, hstep⟩ := Value.exists_isNumber_real h.step
  have hpos : 0 < r := by
    rw [← not_le, ← hstep.exact.le_zero_iff]
    exact h.step_pos
  have hturn : (c.settings i).angle.toFinite = .ok c.angle := Value.toFinite_ok_iff.2 ⟨q, hangle⟩
  have hlength : (c.settings i).step.toPositive = .ok c.step :=
    Value.toPositive_ok_iff.2 ⟨r, hstep, hpos⟩
  have hstart : startWord (c.settings i).start = c.start := h.start
  rw [make_ok_iff]
  dsimp only
  rw [hturn, hlength, hstart]
  constructor
  · rintro ⟨n, x, y, hn, hx, hy, rfl⟩
    obtain rfl := Except.ok.inj hx
    obtain rfl := Except.ok.inj hy
    exact ⟨n, hn, rfl⟩
  · rintro ⟨n, hn, rfl⟩
    exact ⟨n, c.angle, c.step, hn, rfl, rfl, rfl⟩

/-- Another number of iterations is accepted, and nothing else changes. -/
theorem make_settings (h : c.Made) {n : Nat} (hn : n < 2 ^ 53) :
    make (c.settings (.whole n)) = .ok { c with iterations := n } := by
  have hcount := Value.toCount_whole_of_fitsDouble (fitsDouble_of_lt hn) (log2_lt hn (by decide))
  exact (h.make_recount (.whole n) (.number (.whole n)) _).2 ⟨n, hcount, rfl⟩

end Made

/-- A refusal says what is wrong with the number of iterations, unless it is an integer of so many
digits that it cannot be written. -/
theorem isReport_of_make_settings {i : Numeric} {e : ConfigError}
    (h : make (c.settings i) = .error e) : e.isReport = i.isWritable := by
  cases hwritable : i.isWritable with
  | true =>
    have hlegible : (c.settings i).IsLegible :=
      ⟨(Value.isWritable_number i).trans hwritable, Value.isWritable_number (.real c.angle),
        Value.isWritable_number (.real c.step)⟩
    exact isReport_of_make_error hlegible h
  | false =>
    have hunread : ∀ x q, ¬ (c.settings i).iterations.IsNumber x q := by
      intro x q hx
      cases (Numeric.toFloat?_of_not_writable hwritable).symm.trans hx.read
    rcases make_error h with ⟨hfault, -⟩ | ⟨⟨n, hcount⟩, -⟩ | ⟨⟨n, hcount⟩, -⟩
    · have hfault' : e.fault = .unwritable := by
        rcases Value.toCount_error hfault with hnumber | ⟨x, q, hx, -⟩
        · exact hnumber.eq_unwritable (Numeric.toFloat?_of_not_writable hwritable)
            ((Value.isWritable_number i).trans hwritable)
        · exact absurd hx (hunread x q)
      rw [ConfigError.isReport, hfault']
    · obtain ⟨x, hx⟩ := Value.toCount_ok_iff.1 hcount
      exact absurd hx (hunread x n)
    · obtain ⟨x, hx⟩ := Value.toCount_ok_iff.1 hcount
      exact absurd hx (hunread x n)

/-- Fewer iterations than none are refused, with a report. -/
theorem make_settings_minus_one (c : Config) :
    ∃ e, make (c.settings (.whole (-1))) = .error e ∧ e.isReport = true := by
  have hwritable : (Numeric.whole (-1)).isWritable = true := by decide +kernel
  cases h : make (c.settings (.whole (-1))) with
  | error e => exact ⟨e, rfl, (isReport_of_make_settings h).trans hwritable⟩
  | ok made =>
    obtain ⟨n, x, y, hcount, -⟩ := make_ok_iff.1 h
    exact absurd (Value.toCount_whole_ok hcount).1 (by decide)

end Config

end Lindenmayer
