import Lindenmayer.Config
import Lindenmayer.Proofs.Number.Exact
import Lindenmayer.Proofs.Stages
import Lindenmayer.Proofs.Text.Margins

/-!
# Which settings are accepted

A setting is accepted if it is no truth value, is read as a finite double, and the number that this
double stands for is one that the setting allows: any number is a turn, the natural numbers count
iterations, and a step is positive. A configuration is made exactly if all three settings are
accepted; otherwise the error is about the first one that is not. What is made keeps the numbers of
its settings, and its start word is never empty nor has white space at its ends.
-/
namespace Lindenmayer

open Number

/-! ### Values that are numbers -/

namespace Value

/-- The value is no truth value, and it is read as the double `x`, which is the number `q`. -/
structure IsNumber (v : Value) (x : Float) (q : ℚ) : Prop where
  not_truth : ∀ b, v ≠ .number (.truth b)
  read : v.toFloat? = some x
  exact : StandsFor x q

/-- Why the value is no number. -/
inductive NoNumber (v : Value) : SettingFault → Prop
  | truthValue (b : Bool) (h : v = .number (.truth b)) : v.NoNumber .truthValue
  | unread (h : v.toFloat? = none) (hw : v.isWritable = true) : v.NoNumber (.noNumber v)
  | unwritable (h : v.toFloat? = none) (hw : v.isWritable = false) : v.NoNumber .unwritable
  | notFinite (x : Float) (h : v.toFloat? = some x) (hx : ∀ q, ¬ StandsFor x q) :
      v.NoNumber .notFinite

theorem isWritable_number (n : Numeric) : (number n).isWritable = n.isWritable := by
  rw [isWritable]

theorem isWritable_whole (i : Int) : (number (.whole i)).isWritable = Number.isWritable i := by
  rw [isWritable, Numeric.isWritable]

variable {v : Value} {x : Float} {q : ℚ} {fault : SettingFault}

theorem NoNumber.eq_unwritable (h : v.NoNumber fault) (hread : v.toFloat? = none)
    (hv : v.isWritable = false) : fault = .unwritable := by
  cases h with
  | truthValue b hb =>
    rw [hb, isWritable_number] at hv
    cases hv
  | unread _ hw => exact absurd (hw.symm.trans hv) (by decide)
  | unwritable _ _ => rfl
  | notFinite x hx _ => exact absurd (hx.symm.trans hread) (by simp)

theorem toFinite_ok_iff : v.toFinite = .ok x ↔ ∃ q, v.IsNumber x q := by
  constructor
  · intro h
    rw [toFinite.eq_def] at h
    split at h
    · cases h
    · next hv =>
      split at h
      · cases h
      · next y hread =>
        split at h
        · next hfinite =>
          obtain rfl := Except.ok.inj h
          obtain ⟨q, hq⟩ := isFinite_iff_exists_standsFor.1 hfinite
          exact ⟨q, hv, hread, hq⟩
        · cases h
  · rintro ⟨q, hv, hread, hq⟩
    rw [toFinite.eq_def]
    split
    · next b => exact absurd rfl (hv b)
    · rw [hread]
      exact if_pos (isFinite_iff_exists_standsFor.2 ⟨q, hq⟩)

theorem noNumber_of_toFinite_error (h : v.toFinite = .error fault) : v.NoNumber fault := by
  rw [toFinite.eq_def] at h
  split at h
  · next b =>
    obtain rfl := Except.error.inj h
    exact .truthValue b rfl
  · split at h
    · next hread =>
      obtain rfl := Except.error.inj h
      split
      · next hw => exact .unread hread hw
      · next hw => exact .unwritable hread (Bool.eq_false_of_not_eq_true hw)
    · next x hread =>
      split at h
      · cases h
      · next hfinite =>
        obtain rfl := Except.error.inj h
        exact .notFinite x hread fun q hq => hfinite (isFinite_iff_exists_standsFor.2 ⟨q, hq⟩)

theorem toFinite_of_isNumber (h : v.IsNumber x q) : v.toFinite = .ok x := toFinite_ok_iff.2 ⟨q, h⟩

theorem toCount_ok_iff {n : Nat} : v.toCount = .ok n ↔ ∃ x, v.IsNumber x n := by
  constructor
  · intro h
    rw [toCount] at h
    split at h
    · cases h
    · next x hfinite =>
      obtain ⟨q, hv, hread, hq⟩ := toFinite_ok_iff.1 hfinite
      split at h
      · next d hd =>
        obtain rfl : d.toRat = q := StandsFor.unique ⟨d, hd, rfl⟩ hq
        split at h
        · cases h
        · next hallowed =>
          rw [not_or, not_not, hq.lt_zero_iff] at hallowed
          obtain ⟨k, hk⟩ := Dyadic.exists_toRat_eq_natCast hallowed.1 hallowed.2
          obtain rfl : k = n := by
            rw [(Dyadic.truncate_of_toRat hk).2] at h
            exact Except.ok.inj h
          exact ⟨x, hv, hread, hk ▸ hq⟩
      · cases h
  · rintro ⟨x, hx⟩
    obtain ⟨d, hd, hn⟩ := hx.exact
    obtain ⟨hwhole, htruncate⟩ := Dyadic.truncate_of_toRat hn
    have hsign : ¬ x < 0 := by
      rw [hx.exact.lt_zero_iff]
      exact n.cast_nonneg.not_gt
    have hallowed : ¬ (x < 0 ∨ ¬ d.IsWhole) := not_or.2 ⟨hsign, not_not.2 hwhole⟩
    rw [toCount, toFinite_of_isNumber hx]
    dsimp only
    rw [hd]
    dsimp only
    rw [if_neg hallowed, htruncate]
    rfl

theorem toCount_error (h : v.toCount = .error fault) : v.NoNumber fault ∨
    ∃ x q, v.IsNumber x q ∧ (∀ n : Nat, q ≠ n) ∧ fault = .negativeOrFractional x := by
  have hrefused := h
  rw [toCount.eq_def] at h
  split at h
  · next e hfinite =>
    obtain rfl := Except.error.inj h
    exact Or.inl (noNumber_of_toFinite_error hfinite)
  · next x hfinite =>
    obtain ⟨q, hq⟩ := toFinite_ok_iff.1 hfinite
    obtain ⟨d, hd, hdq⟩ := hq.exact
    refine Or.inr ⟨x, q, hq, ?_, ?_⟩
    · rintro n rfl
      cases hrefused.symm.trans (toCount_ok_iff.2 ⟨x, hq⟩)
    · rw [hd] at h
      dsimp only at h
      split at h
      · exact (Except.error.inj h).symm
      · cases h

theorem toPositive_ok_iff : v.toPositive = .ok x ↔ ∃ q, v.IsNumber x q ∧ 0 < q := by
  constructor
  · intro h
    rw [toPositive] at h
    split at h
    · cases h
    · next y hfinite =>
      split at h
      · cases h
      · next hallowed =>
        obtain rfl := Except.ok.inj h
        obtain ⟨q, hq⟩ := toFinite_ok_iff.1 hfinite
        rw [hq.exact.le_zero_iff, not_le] at hallowed
        exact ⟨q, hq, hallowed⟩
  · rintro ⟨q, hx, hpos⟩
    have hallowed : ¬ x ≤ 0 := by
      rw [hx.exact.le_zero_iff, not_le]
      exact hpos
    rw [toPositive, toFinite_of_isNumber hx]
    exact if_neg hallowed

theorem toPositive_error (h : v.toPositive = .error fault) : v.NoNumber fault ∨
    ∃ x q, v.IsNumber x q ∧ q ≤ 0 ∧ fault = .notPositive x := by
  rw [toPositive.eq_def] at h
  split at h
  · next e hfinite =>
    obtain rfl := Except.error.inj h
    exact Or.inl (noNumber_of_toFinite_error hfinite)
  · next x hfinite =>
    obtain ⟨q, hq⟩ := toFinite_ok_iff.1 hfinite
    split at h
    · next hle =>
      exact Or.inr ⟨x, q, hq, hq.exact.le_zero_iff.1 hle, (Except.error.inj h).symm⟩
    · cases h

end Value

/-! ### What a setting may be -/

namespace Setting

/-- The numbers that the setting may be. -/
def Allows : Setting → ℚ → Prop
  | iterations, q => ∃ n : Nat, q = n
  | angle, _ => True
  | step, q => 0 < q

/-- The settings that are checked before this one. -/
def earlier : Setting → List Setting
  | iterations => []
  | angle => [iterations]
  | step => [iterations, angle]

/-- Why the setting refuses a value: it is no number, or one that the setting does not allow. -/
inductive Refuses (setting : Setting) (v : Value) : SettingFault → Prop
  | noNumber (fault : SettingFault) (h : v.NoNumber fault) : setting.Refuses v fault
  | noCount (x : Float) (q : ℚ) (hsetting : setting = iterations) (h : v.IsNumber x q)
      (hq : ¬ setting.Allows q) : setting.Refuses v (.negativeOrFractional x)
  | notPositive (x : Float) (q : ℚ) (hsetting : setting = step) (h : v.IsNumber x q)
      (hq : ¬ setting.Allows q) : setting.Refuses v (.notPositive x)

/-- A refused value that can be written is reported. -/
theorem Refuses.ne_unwritable {setting : Setting} {v : Value} {fault : SettingFault}
    (h : setting.Refuses v fault) (hv : v.isWritable = true) : fault ≠ .unwritable := by
  rintro rfl
  cases h with
  | noNumber _ h =>
    cases h with
    | unwritable _ hw => exact Bool.noConfusion (hv.symm.trans hw)

end Setting

/-- The start word is the given one without the white space at its ends, or `F` if nothing else was
given. -/
inductive Config.IsStart (given : List Char) (w : Word) : Prop
  | blank (hgiven : Text.Blank given) (hw : w = ['F'])
  | trimmed (left right : List Char) (hgiven : given = left ++ w ++ right)
      (hleft : Text.Blank left) (hright : Text.Blank right) (hw : Text.Trimmed w) (hne : w ≠ [])

namespace Settings

def given (s : Settings) : Setting → Value
  | .iterations => s.iterations
  | .angle => s.angle
  | .step => s.step

/-- What is given for the setting is a number that the setting allows. -/
def Accepts (s : Settings) (setting : Setting) : Prop :=
  ∃ x q, (s.given setting).IsNumber x q ∧ setting.Allows q

/-- The setting is not accepted, but those that are checked before it are. -/
def FirstRefused (s : Settings) (setting : Setting) : Prop :=
  (∀ earlier ∈ setting.earlier, s.Accepts earlier) ∧ ¬ s.Accepts setting

/-- The configuration has what the settings give. -/
structure Describes (s : Settings) (c : Config) : Prop where
  start : Config.IsStart (s.start.getD []) c.start
  rulesText : c.rulesText = s.rulesText.getD []
  iterations : ∃ x, s.iterations.IsNumber x c.iterations
  angle : ∃ q, s.angle.IsNumber c.angle q
  step : ∃ q, s.step.IsNumber c.step q ∧ 0 < q
  pen : c.pen = s.pen

/-- Every number that is asked for can be repeated in a message. -/
structure IsLegible (s : Settings) : Prop where
  iterations : s.iterations.isWritable = true
  angle : s.angle.isWritable = true
  step : s.step.isWritable = true

variable {s : Settings}

theorem IsLegible.given (hs : s.IsLegible) (setting : Setting) :
    (s.given setting).isWritable = true := by
  cases setting with
  | iterations => exact hs.iterations
  | angle => exact hs.angle
  | step => exact hs.step

/-- Only one setting is refused first. -/
theorem FirstRefused.unique {first other : Setting} (h : s.FirstRefused first)
    (h' : s.FirstRefused other) : first = other := by
  have horder : first = other ∨ first ∈ other.earlier ∨ other ∈ first.earlier := by
    cases first <;> cases other <;> decide
  rcases horder with hsame | hbefore | hbehind
  · exact hsame
  · exact absurd (h'.1 first hbefore) h.2
  · exact absurd (h.1 other hbehind) h'.2

theorem accepts_iterations_iff : s.Accepts .iterations ↔ ∃ n, s.iterations.toCount = .ok n := by
  simp only [Value.toCount_ok_iff]
  constructor
  · rintro ⟨x, _, hx, n, rfl⟩
    exact ⟨n, x, hx⟩
  · rintro ⟨n, x, hx⟩
    exact ⟨x, n, hx, n, rfl⟩

theorem accepts_angle_iff : s.Accepts .angle ↔ ∃ x, s.angle.toFinite = .ok x := by
  simp only [Value.toFinite_ok_iff]
  constructor
  · rintro ⟨x, q, hx, -⟩
    exact ⟨x, q, hx⟩
  · rintro ⟨x, q, hx⟩
    exact ⟨x, q, hx, trivial⟩

theorem accepts_step_iff : s.Accepts .step ↔ ∃ x, s.step.toPositive = .ok x := by
  simp only [Value.toPositive_ok_iff]
  exact Iff.rfl

end Settings

/-! ### What is made of settings -/

namespace Config

variable {s : Settings} {c : Config} {e : ConfigError}

theorem isStart_iff {given : Option (List Char)} {w : Word} :
    IsStart (given.getD []) w ↔ w = startWord given := by
  constructor
  · rintro (⟨hgiven, rfl⟩ | ⟨left, right, hgiven, hleft, hright, hw, hne⟩)
    · rw [startWord, Text.strip_of_blank hgiven]
      rfl
    · rw [startWord, hgiven, Text.strip_append_right hright, Text.strip_append_left hleft,
        Text.strip_of_trimmed hw]
      obtain ⟨c, rest, rfl⟩ := List.exists_cons_of_ne_nil hne
      rfl
  · rintro rfl
    obtain ⟨left, right, hleft, hright, hgiven⟩ := Text.exists_margins (given.getD [])
    rw [startWord.eq_def]
    split
    · next hnil =>
      refine .blank ?_ rfl
      rw [hgiven, hnil, List.append_nil]
      exact List.forall_mem_append.2 ⟨hleft, hright⟩
    · next hne =>
      exact .trimmed left right hgiven hleft hright (Text.trimmed_strip _) (by simpa using hne)

theorem IsStart.ne_nil_and_trimmed {given : List Char} {w : Word} (h : IsStart given w) :
    w ≠ [] ∧ Text.Trimmed w := by
  cases h with
  | blank hgiven hw =>
    subst hw
    have hdrawn : Text.isBlank 'F' = false := by decide +kernel
    exact ⟨by simp, by simpa using hdrawn, by simpa using hdrawn⟩
  | trimmed left right hgiven hleft hright hw hne => exact ⟨hne, hw⟩

theorem make_ok_iff : make s = .ok c ↔ ∃ iterations angle step,
    s.iterations.toCount = .ok iterations ∧ s.angle.toFinite = .ok angle ∧
      s.step.toPositive = .ok step ∧
      c = ⟨startWord s.start, s.rulesText.getD [], iterations, angle, step, s.pen⟩ := by
  constructor
  · intro h
    obtain ⟨n, hcount, h⟩ := bind_ok h
    obtain ⟨x, hangle, h⟩ := bind_ok h
    obtain ⟨y, hstep, h⟩ := bind_ok h
    exact ⟨n, x, y, mapError_ok hcount, mapError_ok hangle, mapError_ok hstep,
      (Except.ok.inj h).symm⟩
  · rintro ⟨n, x, y, hcount, hangle, hstep, rfl⟩
    rw [make, hcount, hangle, hstep]
    rfl

/-- The first check that fails is reported. -/
theorem make_error (h : make s = .error e) :
    s.iterations.toCount = .error e.fault ∧ e.setting = .iterations ∨
      (∃ n, s.iterations.toCount = .ok n) ∧ s.angle.toFinite = .error e.fault ∧
        e.setting = .angle ∨
      (∃ n, s.iterations.toCount = .ok n) ∧ (∃ x, s.angle.toFinite = .ok x) ∧
        s.step.toPositive = .error e.fault ∧ e.setting = .step := by
  rcases bind_error h with h | ⟨n, hcount, h⟩
  · obtain ⟨fault, hfault, rfl⟩ := error_of_mapError h
    exact Or.inl ⟨hfault, rfl⟩
  · rcases bind_error h with h | ⟨x, hangle, h⟩
    · obtain ⟨fault, hfault, rfl⟩ := error_of_mapError h
      exact Or.inr (Or.inl ⟨⟨n, mapError_ok hcount⟩, hfault, rfl⟩)
    · rcases bind_error h with h | ⟨y, -, h⟩
      · obtain ⟨fault, hfault, rfl⟩ := error_of_mapError h
        exact Or.inr (Or.inr ⟨⟨n, mapError_ok hcount⟩, ⟨x, mapError_ok hangle⟩, hfault, rfl⟩)
      · cases h

theorem make_ok_iff_describes : make s = .ok c ↔ s.Describes c := by
  rw [make_ok_iff]
  constructor
  · rintro ⟨n, x, y, hcount, hangle, hstep, rfl⟩
    exact ⟨isStart_iff.2 rfl, rfl, Value.toCount_ok_iff.1 hcount, Value.toFinite_ok_iff.1 hangle,
      Value.toPositive_ok_iff.1 hstep, rfl⟩
  · rintro ⟨hstart, hrules, hcount, hangle, hstep, hpen⟩
    refine ⟨c.iterations, c.angle, c.step, Value.toCount_ok_iff.2 hcount,
      Value.toFinite_ok_iff.2 hangle, Value.toPositive_ok_iff.2 hstep, ?_⟩
    rw [← isStart_iff.1 hstart, ← hrules, ← hpen]

theorem exists_make_ok_iff : (∃ c, make s = .ok c) ↔ ∀ setting, s.Accepts setting := by
  constructor
  · rintro ⟨c, h⟩ setting
    obtain ⟨n, x, y, hcount, hangle, hstep, -⟩ := make_ok_iff.1 h
    cases setting with
    | iterations => exact Settings.accepts_iterations_iff.2 ⟨n, hcount⟩
    | angle => exact Settings.accepts_angle_iff.2 ⟨x, hangle⟩
    | step => exact Settings.accepts_step_iff.2 ⟨y, hstep⟩
  · intro h
    obtain ⟨n, hcount⟩ := Settings.accepts_iterations_iff.1 (h .iterations)
    obtain ⟨x, hangle⟩ := Settings.accepts_angle_iff.1 (h .angle)
    obtain ⟨y, hstep⟩ := Settings.accepts_step_iff.1 (h .step)
    exact ⟨_, make_ok_iff.2 ⟨n, x, y, hcount, hangle, hstep, rfl⟩⟩

theorem firstRefused_of_make_error (h : make s = .error e) : s.FirstRefused e.setting := by
  obtain ⟨setting, fault⟩ := e
  rcases make_error h with ⟨hfault, rfl⟩ | ⟨hcount, hfault, rfl⟩ | ⟨hcount, hangle, hfault, rfl⟩
  · refine ⟨by simp [Setting.earlier], fun haccepts => ?_⟩
    obtain ⟨n, hn⟩ := Settings.accepts_iterations_iff.1 haccepts
    cases hn.symm.trans hfault
  · refine ⟨by simpa [Setting.earlier] using Settings.accepts_iterations_iff.2 hcount,
      fun haccepts => ?_⟩
    obtain ⟨x, hx⟩ := Settings.accepts_angle_iff.1 haccepts
    cases hx.symm.trans hfault
  · refine ⟨?_, fun haccepts => ?_⟩
    · simpa [Setting.earlier] using ⟨Settings.accepts_iterations_iff.2 hcount,
        Settings.accepts_angle_iff.2 hangle⟩
    · obtain ⟨x, hx⟩ := Settings.accepts_step_iff.1 haccepts
      cases hx.symm.trans hfault

theorem refuses_of_make_error (h : make s = .error e) :
    e.setting.Refuses (s.given e.setting) e.fault := by
  obtain ⟨setting, fault⟩ := e
  rcases make_error h with ⟨hfault, rfl⟩ | ⟨-, hfault, rfl⟩ | ⟨-, -, hfault, rfl⟩
  · rcases Value.toCount_error hfault with h | ⟨x, q, hx, hq, rfl⟩
    · exact .noNumber _ h
    · exact .noCount x q rfl hx (not_exists.2 hq)
  · exact .noNumber _ (Value.noNumber_of_toFinite_error hfault)
  · rcases Value.toPositive_error hfault with h | ⟨x, q, hx, hq, rfl⟩
    · exact .noNumber _ h
    · exact .notPositive x q rfl hx hq.not_gt

theorem isReport_of_make_error (hs : s.IsLegible) (h : make s = .error e) : e.isReport = true := by
  have hfault := (refuses_of_make_error h).ne_unwritable (hs.given e.setting)
  rw [ConfigError.isReport.eq_def]
  split
  · next hunwritable => exact absurd hunwritable hfault
  · rfl

/-- A configuration is made exactly if a number is given for each setting that the setting allows,
and it is the one that the settings describe; its start word is not empty and has no white space at
its ends. Otherwise the error is about the first setting that is not accepted, it says why the value
is refused, and it is a report unless the value has too many digits to be written. -/
theorem settings_checked_exactly (s : Settings) :
    (∀ c, make s = .ok c ↔ s.Describes c) ∧
      ((∃ c, make s = .ok c ∧ c.start ≠ [] ∧ Text.Trimmed c.start) ↔
        ∀ setting, s.Accepts setting) ∧
      (∀ setting, (∃ e, make s = .error e ∧ e.setting = setting ∧
          e.setting.Refuses (s.given setting) e.fault) ↔ s.FirstRefused setting) ∧
      (s.IsLegible → ∀ e, make s = .error e → e.isReport = true) := by
  refine ⟨fun c => make_ok_iff_describes, ?_, fun setting => ?_, fun hs e h =>
    isReport_of_make_error hs h⟩
  · rw [← exists_make_ok_iff]
    refine exists_congr fun c => and_iff_left_of_imp fun h => ?_
    exact (make_ok_iff_describes.1 h).start.ne_nil_and_trimmed
  · constructor
    · rintro ⟨e, h, rfl, -⟩
      exact firstRefused_of_make_error h
    · intro hfirst
      cases h : make s with
      | ok c => exact absurd (exists_make_ok_iff.1 ⟨c, h⟩ setting) hfirst.2
      | error e =>
        have hsetting := (firstRefused_of_make_error h).unique hfirst
        exact ⟨e, rfl, hsetting, hsetting ▸ refuses_of_make_error h⟩

/-- Settings whose count is minus zero, whose turn is a number larger than any double, and whose
step is a truth value. -/
def overturned : Settings where
  start := some " ".toList
  rulesText := none
  iterations := .text "-0".toList
  angle := .number (.whole (10 ^ 400))
  step := .number (.truth true)
  pen := defaultPen

/-- It is the turn that is reported. -/
theorem overturned_refused_for_angle : overturned.IsLegible ∧ overturned.Accepts .iterations ∧
    ¬ overturned.Accepts .step ∧
    ∃ e, make overturned = .error e ∧ e.setting = .angle ∧ e.isReport = true := by
  obtain ⟨-, -, hrefused, hreport⟩ := settings_checked_exactly overturned
  have hlegible : overturned.IsLegible := ⟨by decide +kernel, by decide +kernel, by decide +kernel⟩
  have hcount : overturned.Accepts .iterations :=
    Settings.accepts_iterations_iff.2 (exists_ok_of_isOk (by decide +kernel))
  have hangle : ¬ overturned.Accepts .angle := by
    rintro ⟨x, q, hx, -⟩
    have hnone : (Binary64.ofInt? (10 ^ 400)).isNone = true := by decide +kernel
    cases (Option.isNone_iff_eq_none.1 hnone).symm.trans hx.read
  have hstep : ¬ overturned.Accepts .step := by
    rintro ⟨x, q, hx, -⟩
    exact hx.not_truth true rfl
  have hfirst : overturned.FirstRefused .angle := ⟨by simpa [Setting.earlier] using hcount, hangle⟩
  obtain ⟨e, he, hsetting, -⟩ := (hrefused .angle).2 hfirst
  exact ⟨hlegible, hcount, hstep, e, he, hsetting, hreport hlegible e he⟩

end Config

end Lindenmayer
