import Lindenmayer.Proofs.CommandLine.Reports
import Lindenmayer.Proofs.Config.Checks
import Lindenmayer.Proofs.Text.OneLine

/-!
# How the program ends

A program that is to write a table ends with nothing wrong, or it refuses its arguments, or one line
says what is wrong. A few command lines break it off instead: some options that are left without a
value, a rules file that is no text or whose name is no path, and a configuration that loses its
heading. Whatever else the rules file may hold and whatever numbers the options give, there is a
report: a number read from a command line is always short enough to be repeated in it.
-/
namespace Lindenmayer

/-! ### Numbers that are read can be repeated -/

namespace Number

/-- So many digits make a number below that power of ten. -/
theorem natOfDigits_lt {s : List Char} (h : ∀ c ∈ s, c.isDigit = true) :
    natOfDigits s < 10 ^ s.length := by
  -- digits read after a number below a power of ten
  have hread : ∀ (s : List Char) (n k : Nat), (∀ c ∈ s, c.isDigit = true) → n < 10 ^ k →
      s.foldl (fun n c => 10 * n + (c.toNat - 48)) n < 10 ^ (k + s.length) := by
    intro s
    induction s with
    | nil => exact fun n k _ hn => hn
    | cons c s ih =>
      intro n k hdigits hn
      have hc := Text.toNat_of_isDigit (hdigits c List.mem_cons_self)
      have hnext : 10 * n + (c.toNat - 48) < 10 ^ (k + 1) := by
        rw [Nat.pow_succ]
        omega
      have hrest := ih _ _ (fun d hd => hdigits d (List.mem_cons_of_mem c hd)) hnext
      rw [List.length_cons, ← Nat.add_assoc, Nat.add_right_comm]
      exact hrest
  have hall := hread s 0 0 h Nat.one_pos
  rwa [Nat.zero_add] at hall

theorem natAbs_lt_of_readInt? {s : List Char} {i : Int} (h : readInt? s = some i) :
    ∃ k ≤ maxIntDigits, i.natAbs < 10 ^ k := by
  unfold readInt? at h
  obtain ⟨plain, -, h⟩ := Option.bind_eq_some_iff.1 h
  dsimp only at h
  split at h
  · cases h
  · next hdigits =>
    simp only [Bool.or_eq_true, not_or, Bool.not_eq_true', Bool.not_eq_false,
      decide_eq_true_eq] at hdigits
    obtain ⟨⟨-, hall⟩, hlength⟩ := hdigits
    refine ⟨(takeSign plain).2.length, by omega, ?_⟩
    have habs : i.natAbs = natOfDigits (takeSign plain).2 := by
      obtain rfl := Option.some.inj h
      split
      · rw [Int.natAbs_neg, Int.natAbs_natCast]
      · rw [Int.natAbs_natCast]
    rw [habs]
    exact natOfDigits_lt (List.all_eq_true.1 hall)

end Number

theorem Number.isWritable_of_lt {i : Int} {k : Nat} (hk : k ≤ maxIntDigits)
    (h : i.natAbs < 10 ^ k) : isWritable i = true := by
  have hbound (m : Nat) (hm : k ≤ m) : i.natAbs < Nat.pow 10 m :=
    Nat.lt_of_lt_of_le h (Nat.pow_le_pow_right (by decide) hm)
  exact decide_eq_true (hbound maxIntDigits hk)

/-- An integer that was read can be written. -/
theorem Number.isWritable_of_readInt? {s : List Char} {i : Int} (h : readInt? s = some i) :
    isWritable i = true := by
  obtain ⟨k, hk, hi⟩ := natAbs_lt_of_readInt? h
  exact isWritable_of_lt hk hi

theorem Preset.isWritable_angle {p : Preset} (h : p ∈ all) :
    Number.isWritable p.angle = true := by
  have hsmall : ∀ p ∈ all, p.angle.natAbs < 10 ^ 3 := by decide +kernel
  exact Number.isWritable_of_lt (by decide) (hsmall p h)

/-! ### Options that were read -/

namespace Options

variable {o o' : Options}

/-- Whatever holds of some options, and survives a flag, a setting, a value left out and a word,
holds of the options that a command line makes of them. -/
theorem readItems_keeps {P : Options → Prop} {items : List (Item OptionKey)}
    {others : List (List Char)}
    (hflag : ∀ {o form o'}, P o → o.withFlag form = .ok o' → P o')
    (hsetting : ∀ {o form v o'}, P o → o.withSetting form v = .ok o' → P o')
    (hvoid : ∀ {o key}, P o → P (o.leaveOut key))
    (hword : ∀ {o name o'}, P o → o.withPreset name = .ok o' → P o')
    (ho : P o) (h : o.readItems items = .ok (o', others)) : P o' := by
  induction items generalizing o others with
  | nil =>
    cases h
    exact ho
  | cons item rest ih =>
    cases item with
    | flag form =>
      obtain ⟨next, hnext, h⟩ := bind_ok h
      exact ih (hflag ho hnext) h
    | setting form v =>
      obtain ⟨next, hnext, h⟩ := bind_ok h
      exact ih (hsetting ho (mapError_ok hnext)) h
    | void form => exact ih (hvoid ho) h
    | word name =>
      obtain ⟨next, hnext, h⟩ := bind_ok h
      exact ih (hword ho (mapError_ok hnext)) h
    | leftOver s =>
      obtain ⟨r, hrest, hr⟩ := map_ok h
      cases hr
      exact ih ho hrest
    | fault e => cases h

theorem eq_of_check {leftOver : List (List Char)} (h : o.check leftOver = .ok o') : o' = o := by
  unfold check at h
  repeat' split at h
  all_goals cases h
  rfl

/-- Options that were read come of the items of the command line. -/
theorem exists_readItems {arguments : List (List Char)} (h : ofArguments arguments = .ok o) :
    ∃ others, default.readItems (Item.ofArguments OptionKey.forms arguments) = .ok (o, others) ∧
      o.check others = .ok o := by
  obtain ⟨⟨read, others⟩, hread, hcheck⟩ := bind_ok h
  obtain rfl := eq_of_check hcheck
  exact ⟨others, hread, hcheck⟩

/-- The numbers that may be repeated in a message are short enough for that. -/
structure IsLegible (o : Options) : Prop where
  iterations : Number.isWritable o.iterations = true
  maxLength : Number.isWritable o.maxLength = true
  preset : ∀ p, o.preset = some p → p ∈ Preset.all

theorem isLegible_default : default.IsLegible where
  iterations := Number.isWritable_of_lt (k := 1) (by decide) (by decide)
  maxLength := Number.isWritable_of_lt (k := 7) (by decide) (by decide)
  preset p h := by cases h

theorem isWritable_of_whole {label v : List Char} {i : Int} (h : whole label v = .ok i) :
    Number.isWritable i = true := by
  unfold whole at h
  split at h
  · next hread =>
    cases h
    exact Number.isWritable_of_readInt? hread
  · cases h

theorem IsLegible.withValue {form : OptionForm OptionKey} {v : List Char} (ho : o.IsLegible)
    (h : o.withValue form v = .ok o') : o'.IsLegible := by
  unfold Options.withValue at h
  cases hkey : form.option with
  | iterations =>
    rw [hkey] at h
    obtain ⟨i, hi, rfl⟩ := map_ok h
    exact { ho with iterations := isWritable_of_whole hi }
  | maxLength =>
    rw [hkey] at h
    obtain ⟨i, hi, rfl⟩ := map_ok h
    exact { ho with maxLength := isWritable_of_whole hi }
  | start | rules | rulesFile | pen | image | help | textOnly =>
    rw [hkey] at h
    cases h
    exact { ho with }
  | angle | step | mode | batch | delay | maxSegments =>
    rw [hkey] at h
    obtain ⟨_, -, rfl⟩ := map_ok h
    exact { ho with }

theorem IsLegible.withSetting {form : OptionForm OptionKey} {v : List Char} (ho : o.IsLegible)
    (h : o.withSetting form v = .ok o') : o'.IsLegible := by
  have hkept : IsLegible { o with void := o.void.filter (· ≠ form.option) } := { ho with }
  exact hkept.withValue h

theorem IsLegible.withFlag {form : OptionForm OptionKey} (ho : o.IsLegible)
    (h : o.withFlag form = .ok o') : o'.IsLegible := by
  unfold Options.withFlag at h
  split at h
  · cases h
  · cases h
    exact { ho with }
  · cases h
    exact ho

theorem IsLegible.withPreset {name : List Char} (ho : o.IsLegible)
    (h : o.withPreset name = .ok o') : o'.IsLegible := by
  unfold Options.withPreset at h
  split at h
  · next p hfind =>
    cases h
    refine ⟨ho.iterations, ho.maxLength, ?_⟩
    rintro q hq
    cases hq
    exact List.mem_of_find?_eq_some hfind
  · cases h

theorem isLegible_of_ofArguments {arguments : List (List Char)}
    (h : ofArguments arguments = .ok o) : o.IsLegible := by
  obtain ⟨others, hread, -⟩ := exists_readItems h
  refine readItems_keeps ?_ ?_ ?_ ?_ isLegible_default hread
  · exact fun ho h => ho.withFlag h
  · exact fun ho h => ho.withSetting h
  · exact fun ho => { ho with }
  · exact fun ho h => ho.withPreset h

theorem isWritable_valueUnlessVoid (o : Options) {v : Value} (hv : v.isWritable = true)
    (key : OptionKey) :
    (o.valueUnlessVoid key v).isWritable = true := by
  unfold valueUnlessVoid
  split
  · rfl
  · exact hv

theorem isWritable_angleValue? {v : Value} (h : o.angleValue? = some v) : v.isWritable = true := by
  unfold angleValue? at h
  split at h
  · cases h
    rfl
  · obtain ⟨x, -, rfl⟩ := Option.map_eq_some_iff.1 h
    rfl

/-- The options ask for settings whose faults can be told. -/
theorem IsLegible.settings (ho : o.IsLegible) (rulesText : List Char) :
    (o.settings rulesText).IsLegible := by
  have hiterations := o.isWritable_valueUnlessVoid
    ((Value.isWritable_whole _).trans ho.iterations) .iterations
  have hstep := o.isWritable_valueUnlessVoid (Value.isWritable_number (.real o.step)) .step
  have hdefault := Number.isWritable_of_lt (i := defaultAngle) (k := 2) (by decide) (by decide)
  have hangle {d : Value} (hd : d.isWritable = true) :
      (o.angleValue?.getD d).isWritable = true := by
    cases h : o.angleValue? with
    | none => exact hd
    | some v => exact isWritable_angleValue? h
  unfold Options.settings
  cases hpreset : o.preset with
  | none => exact ⟨hiterations, hangle ((Value.isWritable_whole _).trans hdefault), hstep⟩
  | some p =>
    have hp := Preset.isWritable_angle (ho.preset p hpreset)
    exact ⟨hiterations, hangle ((Value.isWritable_whole _).trans hp), hstep⟩

end Options


/-! ### What is reported, and what breaks off -/

open Text

theorem PathError.oneLine_reason (e : PathError) : OneLine e.reason.toList := by
  cases e <;> decide +kernel

theorem DrawingError.oneLine_message (e : DrawingError) : OneLine e.message := by
  cases e with
  | rules fault => exact fault.oneLine_message
  | overgrown fault => exact fault.oneLine_message
  | unmeasured => decide +kernel
  | disoriented fault =>
    cases fault
    decide +kernel

/-- A report takes one line. -/
theorem ProgramError.oneLine_of_report? {e : ProgramError} {text : List Char}
    (h : e.report? = some text) : OneLine text := by
  unfold report? at h
  split at h
  · next path fault =>
    cases h
    refine OneLine.append ?_ (((oneLine_quote path).cons (by decide)).cons (by decide))
    refine OneLine.append ?_ fault.oneLine_reason
    exact OneLine.append (OneLine.append (by decide) (Number.oneLine_intText _)) (by decide)
  · next fault =>
    split at h
    · cases h
      exact fault.oneLine_message
    · cases h
  · next fault =>
    split at h
    · cases h
      exact fault.oneLine_message
    · cases h
  · cases h

namespace Options

/-- The rules cannot be had, and nothing is said about it. -/
inductive LosesRules (o : Options) (around : Surroundings) : Prop where
  /-- The name of the rules file is left out. -/
  | voidFile (hvoid : o.isVoid .rulesFile = true)
  /-- There is no rules file, and the rules are left out. -/
  | voidRules (hgiven : o.isVoid .rulesFile = false) (hfile : o.rulesFile = none)
      (hvoid : o.isVoid .rules = true)
  | noPath (path : List Char) (hgiven : o.isVoid .rulesFile = false)
      (hfile : o.rulesFile = some path) (hpath : isPath path = false)
  | noText (path : List Char) (content : ByteArray) (hgiven : o.isVoid .rulesFile = false)
      (hfile : o.rulesFile = some path) (hpath : isPath path = true)
      (hread : around.read path = .ok content) (htext : String.fromUTF8? content = none)

variable {o : Options} {around : Surroundings}

theorem LosesRules.exists_error (h : o.LosesRules around) :
    ∃ e, o.readRules around = .error e ∧ e.report? = none := by
  cases h with
  | voidFile hvoid => exact ⟨.noValue .rulesFile, by rw [readRules, if_pos hvoid], rfl⟩
  | voidRules hgiven hfile hvoid =>
    exact ⟨.noValue .rules, by simp [readRules, hgiven, hfile, hvoid], rfl⟩
  | noPath path hgiven hfile hpath =>
    exact ⟨.noPath, by simp [readRules, hgiven, hfile, hpath], rfl⟩
  | noText path content hgiven hfile hpath hread htext =>
    exact ⟨.noText, by simp [readRules, hgiven, hfile, hpath, hread, htext], rfl⟩

/-- A rules file that cannot be read is reported. -/
theorem report?_of_readRules_error {e : ProgramError} (hkept : ¬ o.LosesRules around)
    (h : o.readRules around = .error e) : ∃ text, e.report? = some text := by
  unfold readRules at h
  split at h
  · next hvoid => exact absurd (.voidFile hvoid) hkept
  · next hgiven =>
    rw [Bool.not_eq_true] at hgiven
    split at h
    · next hfile =>
      split at h
      · next hvoid => exact absurd (.voidRules hgiven hfile hvoid) hkept
      · cases h
    · next path hfile =>
      split at h
      · next hpath =>
        rw [Bool.not_eq_true'] at hpath
        exact absurd (.noPath path hgiven hfile hpath) hkept
      · next hpath =>
        rw [Bool.not_eq_true', Bool.not_eq_false] at hpath
        split at h
        · cases h
          exact ⟨_, rfl⟩
        · next content hread =>
          split at h
          · next htext => exact absurd (.noText path content hgiven hfile hpath hread htext) hkept
          · cases h

/-- A program that has to write a table breaks off. -/
inductive Trips (o : Options) (around : Surroundings) : Prop where
  | rules (hloses : o.LosesRules around)
  /-- The greatest length is left out, and a word has to be measured. -/
  | voidLength (c : Config) (hconfig : o.config around = .ok c) (hvoid : o.isVoid .maxLength = true)
      (hmeasured : c.IsMeasured)
  | heading (c : Config) (hconfig : o.config around = .ok c) (hloses : c.LosesHeading o.limit)
  /-- There is a drawing, and the greatest number of segments is left out. -/
  | voidSegments (c : Config) (drawn : List Segment × Stats) (hconfig : o.config around = .ok c)
      (hdraw : c.draw o.limit = .ok drawn) (hvoid : o.isVoid .maxSegments = true)

/-- Nothing trips if no value is left out, the rules file is text and the angle is of moderate
size. -/
theorem not_trips (hvoid : o.void = []) (hfile : ∀ path, o.rulesFile = some path →
      isPath path = true ∧ ∀ content, around.read path = .ok content →
        String.fromUTF8? content ≠ none)
    (hsteady : ∀ c, o.config around = .ok c → c.IsSteady) : ¬ o.Trips around := by
  have hgiven (key : OptionKey) : o.isVoid key ≠ true := by simp [isVoid, hvoid]
  intro h
  cases h with
  | rules hloses =>
    cases hloses with
    | voidFile hvoid => exact hgiven _ hvoid
    | voidRules _ _ hvoid => exact hgiven _ hvoid
    | noPath path _ hname hpath => exact Bool.eq_false_iff.1 hpath (hfile path hname).1
    | noText path content _ hname _ hread htext => exact (hfile path hname).2 content hread htext
  | voidLength c _ hvoid _ => exact hgiven _ hvoid
  | heading c hc hloses => exact (hsteady c hc).not_losesHeading o.limit hloses
  | voidSegments c drawn _ _ hvoid => exact hgiven _ hvoid

theorem config_error {e : ProgramError} (h : o.config around = .error e) :
    o.readRules around = .error e ∨ ∃ rulesText fault,
      Config.make (o.settings rulesText) = .error fault ∧ e = .config fault := by
  unfold config at h
  split at h
  · next fault hrules =>
    obtain rfl := Except.error.inj h
    exact Or.inl hrules
  · next rulesText hrules =>
    obtain ⟨fault, hmake, rfl⟩ := error_of_mapError h
    exact Or.inr ⟨rulesText, fault, hmake, rfl⟩

theorem report?_of_config_error {e : ProgramError} (ho : o.IsLegible)
    (hkept : ¬ o.LosesRules around) (h : o.config around = .error e) :
    ∃ text, e.report? = some text := by
  rcases config_error h with hrules | ⟨rulesText, fault, hmake, rfl⟩
  · exact report?_of_readRules_error hkept hrules
  · have hreport := Config.isReport_of_make_error (ho.settings rulesText) hmake
    exact ⟨fault.message, if_pos hreport⟩

theorem limit_eq_void_iff : o.limit = .void ↔ o.isVoid .maxLength = true := by
  unfold limit
  split
  · next hvoid => exact ⟨fun _ => hvoid, fun _ => rfl⟩
  · next hgiven =>
    constructor
    · intro h
      cases h
    · intro hvoid
      exact absurd hvoid hgiven

/-- A limit that was read can be repeated. -/
theorem IsLegible.limit (ho : o.IsLegible) {M : Int} (h : o.limit = .atMost M) :
    Number.isWritable M = true := by
  unfold Options.limit at h
  split at h
  · cases h
  · obtain rfl := Limit.atMost.inj h
    exact ho.maxLength

theorem IsLegible.not_outgrowsUnsaid {c : Config} (ho : o.IsLegible)
    (hc : o.config around = .ok c) : ¬ c.OutgrowsUnsaid o.limit := by
  unfold Options.config at hc
  split at hc
  · cases hc
  · exact Config.not_outgrowsUnsaid (mapError_ok hc) fun M => ho.limit

theorem isReport_of_draw_error {c : Config} {e : DrawingError} (ho : o.IsLegible)
    (hkept : ¬ o.Trips around) (hc : o.config around = .ok c) (h : c.draw o.limit = .error e) :
    e.isReport = true := by
  rw [Config.isReport_iff_of_draw_error h, limit_eq_void_iff]
  refine ⟨?_, ?_, ho.not_outgrowsUnsaid hc⟩
  · rintro ⟨hvoid, hmeasured⟩
    exact hkept (.voidLength c hc hvoid hmeasured)
  · intro hloses
    exact hkept (.heading c hc hloses)

end Options

namespace Outcome

/-- The program ends well, or with a line that says what is wrong. -/
inductive IsAnswer (outcome : Outcome) : Prop where
  | done (hending : outcome.ending = .exit 0) (hquiet : outcome.complaint = [])
  | report (text : List Char) (hline : OneLine text)
      (hsilent : outcome = silent 2 ("error: ".toList ++ text))

theorem isAnswer_failed {e : ProgramError} {text : List Char} (h : e.report? = some text) :
    (failed e).IsAnswer := by
  refine .report text (ProgramError.oneLine_of_report? h) ?_
  rw [failed, h]

theorem ending_failed {e : ProgramError} (h : e.report? = none) :
    (failed e).ending = .broken e := by
  rw [failed, h]

end Outcome

namespace Options

variable {o : Options} {around : Surroundings}

theorem isAnswer_deliver {c : Config} {segments : List Segment} {stats : Stats}
    (htable : o.textOnly = true) (hgiven : o.isVoid .maxSegments = false)
    (events : Schedule WindowEvent) :
    (o.deliver c segments stats around events).IsAnswer := by
  by_cases hmany : 0 ≤ o.maxSegments ∧ o.maxSegments < segments.length
  · rw [deliver_of_many hgiven hmany]
    exact .done rfl rfl
  · rw [deliver_table ⟨hgiven, hmany⟩ htable]
    exact .done rfl rfl

theorem isAnswer_run (ho : o.IsLegible) (htable : o.textOnly = true) (hkept : ¬ o.Trips around)
    (events : Schedule WindowEvent) : (o.run around events).IsAnswer := by
  cases hc : o.config around with
  | error e =>
    obtain ⟨text, htext⟩ := report?_of_config_error ho (fun h => hkept (.rules h)) hc
    rw [run_of_config_error hc]
    exact Outcome.isAnswer_failed htext
  | ok c =>
    cases hdraw : c.draw o.limit with
    | error e =>
      have hreport := isReport_of_draw_error ho hkept hc hdraw
      rw [run_of_draw_error hc hdraw, if_pos hreport]
      exact .report e.message e.oneLine_message rfl
    | ok drawn =>
      have hgiven : o.isVoid .maxSegments = false := by
        rw [Bool.eq_false_iff]
        intro hvoid
        exact hkept (.voidSegments c drawn hc hdraw hvoid)
      rw [run_of_draw_ok hc hdraw]
      exact isAnswer_deliver htable hgiven events

theorem Trips.ending_run (h : o.Trips around) (events : Schedule WindowEvent) :
    ∃ e, (o.run around events).ending = .broken e := by
  have hdrawing {c : Config} {e : DrawingError} (hc : o.config around = .ok c)
      (hdraw : c.draw o.limit = .error e) (he : e.isReport = false) :
      (o.run around events).ending = .broken (.drawing e) := by
    rw [run_of_draw_error hc hdraw, he]
    rfl
  cases h with
  | rules hloses =>
    obtain ⟨e, hrules, he⟩ := hloses.exists_error
    have hc : o.config around = .error e := by rw [config, hrules]
    refine ⟨e, ?_⟩
    rw [run_of_config_error hc]
    exact Outcome.ending_failed he
  | voidLength c hc hvoid hmeasured =>
    have hexpand := Config.expand_unmeasured_iff.2 ⟨limit_eq_void_iff.2 hvoid, hmeasured⟩
    exact ⟨_, hdrawing hc (Config.draw_error_iff.2 (Or.inl hexpand)) rfl⟩
  | heading c hc hloses => exact ⟨_, hdrawing hc (Config.draw_disoriented_iff.2 hloses) rfl⟩
  | voidSegments c drawn hc hdraw hvoid =>
    refine ⟨.noValue .maxSegments, ?_⟩
    rw [run_of_draw_ok hc hdraw, deliver_of_void hvoid]
    rfl

end Options

namespace Program

/-- The arguments end in a failure that nobody reports. -/
inductive Trips (arguments : List (List Char)) (around : Surroundings) : Prop where
  /-- The batch or the delay is left out. -/
  | noValue (key : OptionKey) (hstop : Options.ofArguments arguments = .error (.noValue key))
  | options (o : Options) (hoptions : Options.ofArguments arguments = .ok o)
      (htrips : o.Trips around)

/-- The program helps or refuses its arguments, or it answers them. -/
inductive EndsWell (name : List Char) (arguments : List (List Char)) (outcome : Outcome) : Prop where
  | help (hstop : Options.ofArguments arguments = .error .help) (hsilent : outcome = .silent 0 [])
  | usage (e : UsageError) (hstop : Options.ofArguments arguments = .error (.usage e))
      (hsilent : outcome = .silent 2 (name ++ ": error: ".toList ++ e.message))
  | options (o : Options) (hoptions : Options.ofArguments arguments = .ok o)
      (hanswer : outcome.IsAnswer)

section Named

variable {name : List Char} {arguments : List (List Char)} {around : Surroundings}

theorem endsWell_of_not_trips
    (htable : ∀ o, Options.ofArguments arguments = .ok o → o.textOnly = true)
    (hkept : ¬ Trips arguments around) (events : Schedule WindowEvent) :
    EndsWell name arguments (run name arguments around events) := by
  unfold run
  cases hread : Options.ofArguments arguments with
  | error stop =>
    cases stop with
    | help => exact .help hread rfl
    | usage e => exact .usage e hread rfl
    | noValue key => exact absurd (.noValue key hread) hkept
  | ok o =>
    have hlegible := Options.isLegible_of_ofArguments hread
    refine .options o hread (Options.isAnswer_run hlegible (htable o hread) ?_ events)
    exact fun h => hkept (.options o hread h)

theorem Trips.ending_run (h : Trips arguments around) (name : List Char)
    (events : Schedule WindowEvent) :
    ∃ e, (run name arguments around events).ending = .broken e := by
  unfold run
  cases h with
  | noValue key hstop =>
    rw [hstop]
    exact ⟨.noValue key, rfl⟩
  | options o hoptions htrips =>
    rw [hoptions]
    exact htrips.ending_run events

theorem EndsWell.ending {outcome : Outcome} (h : EndsWell name arguments outcome) :
    ∃ status, outcome.ending = .exit status := by
  cases h with
  | help hstop hsilent => exact ⟨0, by rw [hsilent]; rfl⟩
  | usage e hstop hsilent => exact ⟨2, by rw [hsilent]; rfl⟩
  | options o hoptions hanswer =>
    cases hanswer with
    | done hending hquiet => exact ⟨0, hending⟩
    | report text hline hsilent => exact ⟨2, by rw [hsilent]; rfl⟩

end Named

/-- A program that is to write a table ends well exactly if nothing trips it, and breaks off
otherwise. Nothing trips it if no value is left out, the rules file is text and the angle is of
moderate size, whatever else the options and that text may say. -/
theorem ends_well_iff (name : List Char) (arguments : List (List Char)) (around : Surroundings)
    (events : Schedule WindowEvent)
    (htable : ∀ o, Options.ofArguments arguments = .ok o → o.textOnly = true) :
    (EndsWell name arguments (run name arguments around events) ↔ ¬ Trips arguments around) ∧
      (Trips arguments around → ∃ e, (run name arguments around events).ending = .broken e) ∧
      ∀ o, Options.ofArguments arguments = .ok o → o.void = [] →
        (∀ path, o.rulesFile = some path → isPath path = true ∧
          ∀ content, around.read path = .ok content → String.fromUTF8? content ≠ none) →
        (∀ c, o.config around = .ok c → c.IsSteady) → ¬ Trips arguments around := by
  refine ⟨⟨?_, ?_⟩, fun h => h.ending_run name events, ?_⟩
  · intro hwell htrips
    obtain ⟨status, hstatus⟩ := hwell.ending
    obtain ⟨e, he⟩ := htrips.ending_run name events
    cases hstatus.symm.trans he
  · exact fun hkept => endsWell_of_not_trips htable hkept events
  · rintro o ho hvoid hfile hsteady (⟨key, hstop⟩ | ⟨_, hread, htrips⟩)
    · cases ho.symm.trans hstop
    · obtain rfl := Except.ok.inj (ho.symm.trans hread)
      exact Options.not_trips hvoid hfile hsteady htrips

/-- A table of the first generation of the default system. -/
def plainArguments : List (List Char) := [['-', 't'], ['-', 'n', '1']]

def plainOptions : Options := { Options.default with textOnly := true, iterations := 1 }

theorem plain_ends_well :
    (∀ o, Options.ofArguments plainArguments = .ok o → o.textOnly = true) ∧
      EndsWell name plainArguments
        (run name plainArguments (Folder.surroundings ⟨[]⟩) .quiet) := by
  have hread : Options.ofArguments plainArguments = .ok plainOptions := rfl
  have htable : ∀ o, Options.ofArguments plainArguments = .ok o → o.textOnly = true := by
    rintro o ho
    obtain rfl := Except.ok.inj (hread.symm.trans ho)
    rfl
  have hsteady : (plainOptions.config (Folder.surroundings ⟨[]⟩)).toOption.all
      (fun c => decide c.IsSteady) = true := by
    decide +kernel
  obtain ⟨hwell, -, hkept⟩ :=
    ends_well_iff name plainArguments (Folder.surroundings ⟨[]⟩) .quiet htable
  refine ⟨htable, hwell.2 (hkept plainOptions hread rfl ?_ ?_)⟩
  · rintro path hpath
    cases hpath
  · rintro c hc
    rw [hc] at hsteady
    exact of_decide_eq_true hsteady

def garbledArguments : List (List Char) := [['-', 't'], "--rules-file".toList, ['r']]

/-- The first byte of the rules file begins no character. -/
def garbled : Folder := ⟨[(['r'], ⟨#[0xff]⟩)]⟩

theorem garbled_breaks_off :
    (∀ o, Options.ofArguments garbledArguments = .ok o → o.textOnly = true) ∧
      (run name garbledArguments garbled.surroundings .quiet).ending = .broken .noText ∧
      ¬ EndsWell name garbledArguments (run name garbledArguments garbled.surroundings .quiet) := by
  have hread : Options.ofArguments garbledArguments =
      .ok { Options.default with textOnly := true, rulesFile := some ['r'] } := rfl
  have htext : String.fromUTF8? ⟨#[0xff]⟩ = none := by decide +kernel
  have hbroken : (run name garbledArguments garbled.surroundings .quiet).ending =
      .broken .noText := by
    have hfile : isPath ['r'] = true := rfl
    have hcontent : garbled.surroundings.read ['r'] = .ok ⟨#[0xff]⟩ := rfl
    rw [run, hread]
    simp [Options.run, Options.config, Options.readRules, hfile, hcontent, htext, Options.isVoid,
      Options.default, Outcome.failed, ProgramError.report?]
  refine ⟨?_, hbroken, ?_⟩
  · rintro o ho
    obtain rfl := Except.ok.inj (hread.symm.trans ho)
    rfl
  · rintro hwell
    obtain ⟨status, hstatus⟩ := hwell.ending
    cases hstatus.symm.trans hbroken

end Program

end Lindenmayer
