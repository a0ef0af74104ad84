import Lindenmayer.Proofs.CommandLine.Delivery
import Lindenmayer.Proofs.CommandLine.Items

/-!
# Where the rules come from

The rules are spelled in an argument, with a backslash and the letter n for each line feed, or they
stand in a file. Arguments that tell only this apart are refused alike, and otherwise they come to
options that differ in the source of the rules and in nothing that is looked at once the rules have
been read. So the program does the same with either, unless the text of the rules is two dashes, for
these leave the argument without its value.
-/
namespace Lindenmayer

namespace Text

/-! ### Line feeds that are spelled out -/

theorem eq_cons_of_escapeNewlines {c : Char} {s rest : List Char} (hc : c ≠ '\\')
    (h : escapeNewlines s = c :: rest) : ∃ s', s = c :: s' := by
  cases s with
  | nil => cases h
  | cons d s =>
    rw [escapeNewlines] at h
    split at h
    · exact absurd (List.cons.inj h).1.symm hc
    · exact ⟨s, by rw [(List.cons.inj h).1]⟩

/-- Line feeds that are spelled out are read back, unless the text spells one itself. -/
theorem unescapeNewlines_escapeNewlines {s : List Char} (h : ¬ ['\\', 'n'] <:+: s) :
    unescapeNewlines (escapeNewlines s) = s := by
  induction s with
  | nil => rfl
  | cons c s ih =>
    have hrest := ih fun hs => h (hs.trans (List.suffix_cons c s).isInfix)
    rw [escapeNewlines]
    split
    · next hc => rw [unescapeNewlines, hrest, hc]
    · rw [unescapeNewlines, hrest]
      rintro rest rfl hs
      obtain ⟨s', rfl⟩ := eq_cons_of_escapeNewlines (by decide) hs
      exact h ⟨[], s', rfl⟩

theorem normalizeLineEnds_of_not_mem {s : List Char} (h : '\r' ∉ s) : normalizeLineEnds s = s := by
  induction s with
  | nil => rfl
  | cons c s ih =>
    obtain ⟨hc, hs⟩ : '\r' ≠ c ∧ '\r' ∉ s := by simpa using h
    rw [normalizeLineEnds, ih hs]
    · rintro _ rfl
      exact absurd rfl hc
    · exact Ne.symm hc

theorem fromUTF8?_toUTF8 (s : String) : String.fromUTF8? s.toUTF8 = some s := by
  rw [String.fromUTF8?, dif_pos (by simpa using s.isValidUTF8)]
  rfl

end Text

namespace OptionKey

/-- The option says nothing about the source of the rules. -/
def IsOther (key : OptionKey) : Prop := key ≠ .rules ∧ key ≠ .rulesFile

instance (key : OptionKey) : Decidable key.IsOther :=
  inferInstanceAs (Decidable (key ≠ .rules ∧ key ≠ .rulesFile))

theorem plain_names : ∀ f ∈ forms, ∀ name ∈ f.names, '=' ∉ name := by decide +kernel

theorem isOther_of_short {c : Char} {form : OptionForm OptionKey}
    (h : OptionForm.named? forms ['-', c] = some form) : form.option.IsOther := by
  have hlong : ∀ f ∈ forms, f.option = .rules ∨ f.option = .rulesFile →
      ∀ name ∈ f.names, 2 < name.length := by
    decide +kernel
  have hmem := OptionForm.mem_names_of_named? h
  have hshort : ¬ 2 < ['-', c].length := by simp
  constructor
  · intro hkey
    exact hshort (hlong form (List.mem_of_find?_eq_some h) (Or.inl hkey) _ hmem)
  · intro hkey
    exact hshort (hlong form (List.mem_of_find?_eq_some h) (Or.inr hkey) _ hmem)

end OptionKey

namespace Options

/-! ### Options that differ in the source of the rules -/

/-- All that the options say of where the rules come from. -/
@[ext]
structure RuleSource where
  text : List Char
  file : Option (List Char)
  voidText : Bool
  voidFile : Bool

def ruleSource (o : Options) : RuleSource :=
  ⟨o.rulesText, o.rulesFile, o.isVoid .rules, o.isVoid .rulesFile⟩

def withoutRules (o : Options) : Options :=
  { o with
    rulesText := []
    rulesFile := none
    void := [] }

/-- The rules come from these sources, and otherwise the options agree. -/
structure Apart (s t : RuleSource) (o p : Options) : Prop where
  left : o.ruleSource = s
  right : p.ruleSource = t
  rest : o.withoutRules = p.withoutRules
  void : ∀ key : OptionKey, key.IsOther → o.isVoid key = p.isVoid key

variable {s t : RuleSource} {o p : Options}

/-- A change to something else keeps them apart. -/
theorem Apart.update (h : Apart s t o p) (f : Options → Options)
    (hsource : ∀ o, (f o).ruleSource = o.ruleSource := by intro; rfl)
    (hrest : ∀ o, (f o).withoutRules = f o.withoutRules := by intro; rfl)
    (hvoid : ∀ o, (f o).void = o.void := by intro; rfl) : Apart s t (f o) (f p) where
  left := (hsource o).trans h.left
  right := (hsource p).trans h.right
  rest := by rw [hrest, hrest, h.rest]
  void key hkey := by
    rw [isVoid, isVoid, hvoid, hvoid]
    exact h.void key hkey

theorem Apart.field {α : Type} (h : Apart s t o p) (field : Options → α)
    (hfield : ∀ o, field o.withoutRules = field o := by intro; rfl) : field o = field p := by
  rw [← hfield o, ← hfield p, h.rest]

theorem Apart.withFlag (h : Apart s t o p) (form : OptionForm OptionKey) :
    Alike (Apart s t) (o.withFlag form) (p.withFlag form) := by
  unfold Options.withFlag
  split
  · exact .failed _
  · exact .came (h.update fun q => { q with textOnly := true })
  · exact .came h

theorem Apart.withPreset (h : Apart s t o p) (name : List Char) :
    Alike (Apart s t) (o.withPreset name) (p.withPreset name) := by
  unfold Options.withPreset
  split
  · next preset _ => exact .came (h.update fun q => { q with preset := some preset })
  · exact .failed _

theorem Apart.withValue (h : Apart s t o p) {form : OptionForm OptionKey}
    (hform : form.option.IsOther) (v : List Char) :
    Alike (Apart s t) (o.withValue form v) (p.withValue form v) := by
  unfold Options.withValue
  cases hkey : form.option with
  | rules => exact absurd hkey hform.1
  | rulesFile => exact absurd hkey hform.2
  | help | textOnly => exact .came h
  | start => exact .came (h.update fun q => { q with start := v })
  | pen => exact .came (h.update fun q => { q with pen := some (.only v) })
  | image => exact .came (h.update fun q => { q with image := some v })
  | iterations => exact alike_map fun i => h.update fun q => { q with iterations := i }
  | angle => exact alike_map fun x => h.update fun q => { q with angle := some x }
  | step => exact alike_map fun x => h.update fun q => { q with step := x }
  | mode => exact alike_map fun m => h.update fun q => { q with mode := m }
  | batch => exact alike_map fun i => h.update fun q => { q with batch := i }
  | delay => exact alike_map fun x => h.update fun q => { q with delay := x }
  | maxSegments => exact alike_map fun i => h.update fun q => { q with maxSegments := i }
  | maxLength => exact alike_map fun i => h.update fun q => { q with maxLength := i }

theorem isVoid_leaveOut (o : Options) (key k : OptionKey) :
    (o.leaveOut key).isVoid k = (k == key || o.isVoid k) :=
  List.contains_cons

theorem isVoid_given (o : Options) (key k : OptionKey) :
    isVoid { o with void := o.void.filter (· ≠ key) } k = (k != key && o.isVoid k) := by
  rw [isVoid, isVoid, Bool.eq_iff_iff]
  simp [and_comm]

theorem Apart.leaveOut (h : Apart s t o p) {key : OptionKey} (hkey : key.IsOther) :
    Apart s t (o.leaveOut key) (p.leaveOut key) := by
  have hsource (q : Options) : (q.leaveOut key).ruleSource = q.ruleSource := by
    rw [ruleSource, isVoid_leaveOut, isVoid_leaveOut, beq_false_of_ne (Ne.symm hkey.1),
      beq_false_of_ne (Ne.symm hkey.2)]
    rfl
  refine ⟨(hsource o).trans h.left, (hsource p).trans h.right, h.rest, ?_⟩
  intro k hk
  rw [isVoid_leaveOut, isVoid_leaveOut, h.void k hk]

theorem Apart.withSetting (h : Apart s t o p) {form : OptionForm OptionKey}
    (hform : form.option.IsOther) (v : List Char) :
    Alike (Apart s t) (o.withSetting form v) (p.withSetting form v) := by
  have hsource (q : Options) :
      ruleSource { q with void := q.void.filter (· ≠ form.option) } = q.ruleSource := by
    rw [ruleSource, isVoid_given, isVoid_given, bne_iff_ne.2 (Ne.symm hform.1),
      bne_iff_ne.2 (Ne.symm hform.2)]
    rfl
  have hgiven : Apart s t { o with void := o.void.filter (· ≠ form.option) }
      { p with void := p.void.filter (· ≠ form.option) } := by
    refine ⟨(hsource o).trans h.left, (hsource p).trans h.right, h.rest, ?_⟩
    intro k hk
    rw [isVoid_given, isVoid_given, h.void k hk]
  exact hgiven.withValue hform v

/-- Items that concern other options keep them apart, and leave over the same. -/
theorem Apart.readItems (h : Apart s t o p) {items : List (Item OptionKey)}
    (hitems : ∀ item ∈ items, item.Concerns OptionKey.IsOther) :
    Alike (fun r r' => Apart s t r.1 r'.1 ∧ r.2 = r'.2) (o.readItems items)
      (p.readItems items) := by
  induction items generalizing o p with
  | nil => exact .came ⟨h, rfl⟩
  | cons item rest ih =>
    obtain ⟨hitem, hrest⟩ := List.forall_mem_cons.1 hitems
    cases item with
    | flag form => exact (h.withFlag form).bind fun h => ih h hrest
    | setting form v => exact ((h.withSetting hitem v).mapError .usage).bind fun h => ih h hrest
    | void form => exact ih (h.leaveOut hitem) hrest
    | word name => exact ((h.withPreset name).mapError .usage).bind fun h => ih h hrest
    | leftOver s => exact (ih h hrest).map fun h => ⟨h.1, congrArg (s :: ·) h.2⟩
    | fault e => exact .failed _

theorem ruleSource_of_readItems {items : List (Item OptionKey)} {r : Options × List (List Char)}
    (hitems : ∀ item ∈ items, item.Concerns OptionKey.IsOther) (h : o.readItems items = .ok r) :
    r.1.ruleSource = o.ruleSource := by
  have hsame : Apart o.ruleSource o.ruleSource o o := ⟨rfl, rfl, rfl, fun _ _ => rfl⟩
  have hread := hsame.readItems hitems
  rw [h] at hread
  cases hread with
  | came hr => exact hr.1.left

theorem Apart.check (h : Apart s t o p) (others : List (List Char)) :
    Alike (Apart s t) (o.check others) (p.check others) := by
  unfold Options.check
  rw [h.void .batch (by decide), h.void .delay (by decide), h.field Options.batch,
    h.field Options.delay]
  split
  · exact .failed _
  · split
    · exact .failed _
    · split
      · exact .failed _
      · split
        · exact .failed _
        · split
          · exact .failed _
          · exact .came h

/-! ### Runs that differ in the source of the rules -/

variable {around : Surroundings}

theorem Apart.settings (h : Apart s t o p) (text : List Char) :
    o.settings text = p.settings text := by
  unfold Options.settings valueUnlessVoid angleValue? penGiven?
  rw [h.void .iterations (by decide), h.void .step (by decide), h.void .start (by decide),
    h.void .angle (by decide), h.void .pen (by decide), h.field preset, h.field iterations,
    h.field Options.step, h.field start, h.field angle, h.field pen]

theorem Apart.limit (h : Apart s t o p) : o.limit = p.limit := by
  rw [Options.limit, Options.limit, h.void .maxLength (by decide), h.field maxLength]

theorem Apart.deliver (h : Apart s t o p) (c : Config) (segments : List Segment) (stats : Stats)
    (events : Schedule WindowEvent) :
    o.deliver c segments stats around events = p.deliver c segments stats around events := by
  have hmode : o.modeValue = p.modeValue := by
    rw [modeValue, modeValue, valueUnlessVoid, valueUnlessVoid, h.void .mode (by decide),
      h.field Options.mode]
  have hwindow : o.showWindow c stats events = p.showWindow c stats events := by
    rw [showWindow, showWindow, hmode, h.limit, h.field batch, h.field delaySeconds]
  unfold Options.deliver
  rw [h.void .maxSegments (by decide), h.void .image (by decide), h.field (skips · segments.length),
    h.field skipLine, h.field textOnly, h.field image, hwindow]

theorem Apart.run (h : Apart s t o p) (hrules : o.readRules around = p.readRules around)
    (events : Schedule WindowEvent) : o.run around events = p.run around events := by
  have hconfig : o.config around = p.config around := by
    unfold config
    rw [hrules]
    split
    · rfl
    · rw [h.settings]
  unfold Options.run
  rw [hconfig, h.limit]
  split
  · rfl
  · split
    · rfl
    · exact h.deliver _ _ _ events

/-! ### The two sources on a command line -/

def rulesForm : OptionForm OptionKey := OptionKey.form .rules ["--rules"] true

def rulesFileForm : OptionForm OptionKey := OptionKey.form .rulesFile ["--rules-file"] true

/-- The argument that spells the text of the rules. -/
def rulesArgument (text : List Char) : List Char := "--rules=".toList ++ Text.escapeNewlines text

/-- Arguments that name a file of rules. -/
inductive NamesRulesFile (path : List Char) : List (List Char) → Prop
  | attached (hpath : path ≠ Token.twoDashes) :
      NamesRulesFile path ["--rules-file=".toList ++ path]
  | next (hpath : path ≠ Token.twoDashes)
      (hword : Token.ofArgument OptionKey.forms path = .ok (.word path)) :
      NamesRulesFile path ["--rules-file".toList, path]

/-- No option among the arguments says where the rules come from. -/
def SaysNoSource (arguments : List (List Char)) : Prop :=
  ∀ tokens, Token.ofArguments OptionKey.forms arguments = .ok tokens →
    ∀ t ∈ tokens, t.Concerns OptionKey.IsOther

theorem ofArguments_rulesArgument (text : List Char) (after : List (List Char)) :
    Token.ofArguments OptionKey.forms (rulesArgument text :: after) =
      (Token.ofArguments OptionKey.forms after).map
        (.option rulesForm false (some (Text.escapeNewlines text)) :: ·) := by
  have hname : OptionForm.named? OptionKey.forms ('-' :: '-' :: "rules".toList) =
      some rulesForm := rfl
  have htoken : Token.ofArgument OptionKey.forms (rulesArgument text) =
      .ok (.option rulesForm false (some (Text.escapeNewlines text))) :=
    Token.ofArgument_attached OptionKey.plain_names hname _
  have hdashes : rulesArgument text ≠ Token.twoDashes := by
    intro h
    cases h
  rw [Token.ofArguments, if_neg hdashes, htoken]

/-- A file of rules is one setting, whichever way it is named. -/
theorem NamesRulesFile.exists_tokens {path : List Char} {arguments : List (List Char)}
    (h : NamesRulesFile path arguments) : ∃ tokens : List (Token OptionKey),
      (∀ after, Token.ofArguments OptionKey.forms (arguments ++ after) =
        (Token.ofArguments OptionKey.forms after).map (tokens ++ ·)) ∧
      (∀ back, Token.Opens (tokens ++ back)) ∧
      ∀ free back, Item.ofTokens OptionKey.forms free (tokens ++ back) =
        .setting rulesFileForm path :: Item.ofTokens OptionKey.forms free back := by
  have hname : OptionForm.named? OptionKey.forms ('-' :: '-' :: "rules-file".toList) =
      some rulesFileForm := rfl
  cases h with
  | attached hpath =>
    refine ⟨[.option rulesFileForm false (some path)], ?_, fun _ => .option _ _ _ _, ?_⟩
    · intro after
      have htoken : Token.ofArgument OptionKey.forms ("--rules-file=".toList ++ path) =
          .ok (.option rulesFileForm false (some path)) :=
        Token.ofArgument_attached OptionKey.plain_names hname path
      have hdashes : "--rules-file=".toList ++ path ≠ Token.twoDashes := by
        intro h
        cases h
      rw [List.singleton_append, Token.ofArguments, if_neg hdashes, htoken]
      rfl
    · intro free back
      rw [List.singleton_append, Item.ofTokens_attached rfl, Item.ofAttached, if_neg hpath]
  | next hpath hword =>
    refine ⟨[.option rulesFileForm false none, .word path], ?_, fun _ => .option _ _ _ _, ?_⟩
    · intro after
      have htoken : Token.ofArgument OptionKey.forms "--rules-file".toList =
          .ok (.option rulesFileForm false none) := rfl
      have hdashes : "--rules-file".toList ≠ Token.twoDashes := by
        intro h
        cases h
      rw [List.cons_append, List.singleton_append, Token.ofArguments, if_neg hdashes, htoken,
        Token.ofArguments, if_neg hpath, hword]
      cases Token.ofArguments OptionKey.forms after <;> rfl
    · intro free back
      have hoption : Item.ofOption OptionKey.forms rulesFileForm false none =
          .ok ([], some rulesFileForm) := rfl
      rw [List.cons_append, List.singleton_append, Item.ofTokens, hoption]
      rfl

/-- The source of the rules in an argument whose value is two dashes is void. -/
def spelledSource (value : List Char) : RuleSource :=
  if value = Token.twoDashes then ⟨default.rulesText, none, true, false⟩
  else ⟨value, none, false, false⟩

def fileSource (path : List Char) : RuleSource := ⟨default.rulesText, some path, false, false⟩

/-- Where neither source has been named, naming one or the other keeps all else. -/
theorem alike_sources (ho : o.ruleSource = default.ruleSource) (value path : List Char)
    {items : List (Item OptionKey)} (hitems : ∀ item ∈ items, item.Concerns OptionKey.IsOther) :
    Alike (fun r r' => Apart (spelledSource value) (fileSource path) r.1 r'.1 ∧ r.2 = r'.2)
      (o.readItems (.ofAttached rulesForm value :: items))
      (o.readItems (.setting rulesFileForm path :: items)) := by
  obtain ⟨htext, hfile, hvoidText, hvoidFile⟩ := RuleSource.mk.inj ho
  have hgiven := isVoid_given o .rules
  have hgivenFile := isVoid_given o .rulesFile
  have hleft := isVoid_leaveOut o .rules
  have hright : ruleSource
      { o with
        void := o.void.filter (· ≠ .rulesFile)
        rulesFile := some path } = fileSource path :=
    RuleSource.ext htext rfl ((hgivenFile .rules).trans hvoidText) (hgivenFile .rulesFile)
  by_cases hvalue : value = Token.twoDashes
  · rw [Item.ofAttached, if_pos hvalue, spelledSource, if_pos hvalue]
    refine Apart.readItems (o := o.leaveOut .rules) ⟨?_, hright, rfl, ?_⟩ hitems
    · exact RuleSource.ext htext hfile (hleft .rules) ((hleft .rulesFile).trans hvoidFile)
    · intro key hkey
      refine (hleft key).trans (Eq.trans ?_ (hgivenFile key).symm)
      rw [beq_false_of_ne hkey.1, bne_iff_ne.2 hkey.2]
      rfl
  · rw [Item.ofAttached, if_neg hvalue, spelledSource, if_neg hvalue]
    refine Apart.readItems (o :=
      { o with
        void := o.void.filter (· ≠ .rules)
        rulesText := value }) ⟨?_, hright, rfl, ?_⟩ hitems
    · exact RuleSource.ext rfl hfile (hgiven .rules) ((hgiven .rulesFile).trans hvoidFile)
    · intro key hkey
      refine (hgiven key).trans (Eq.trans ?_ (hgivenFile key).symm)
      rw [bne_iff_ne.2 hkey.1, bne_iff_ne.2 hkey.2]

/-- The same if they are named after whatever else says nothing of it. -/
theorem alike_readItems {front back : List (Token OptionKey)}
    (hfront : ∀ t ∈ front, t.Concerns OptionKey.IsOther)
    (hback : ∀ t ∈ back, t.Concerns OptionKey.IsOther) {fileTokens : List (Token OptionKey)}
    {path : List Char} (hopens : Token.Opens (fileTokens ++ back))
    (hitem : ∀ free back, Item.ofTokens OptionKey.forms free (fileTokens ++ back) =
      .setting rulesFileForm path :: Item.ofTokens OptionKey.forms free back) (value : List Char) :
    Alike (fun r r' => Apart (spelledSource value) (fileSource path) r.1 r'.1 ∧ r.2 = r'.2)
      (default.readItems (Item.ofTokens OptionKey.forms true
        (front ++ .option rulesForm false (some value) :: back)))
      (default.readItems (Item.ofTokens OptionKey.forms true (front ++ (fileTokens ++ back)))) := by
  obtain ⟨items, hitems, hread⟩ :=
    Item.exists_readsAhead (fun _ _ => OptionKey.isOther_of_short) true front hfront
  cases hread with
  | stuck e hfault hread =>
    obtain ⟨stop, hstop⟩ := exists_error_of_fault hfault default
    rw [hread (.option _ _ _ _), hread hopens, hstop]
    exact .failed stop
  | goesOn free hread =>
    have hrest : ∀ item ∈ Item.ofTokens OptionKey.forms free back,
        item.Concerns OptionKey.IsOther := by
      obtain ⟨rest, hrest, hread⟩ :=
        Item.exists_readsAhead (fun _ _ => OptionKey.isOther_of_short) free back hback
      have hwhole : Item.ofTokens OptionKey.forms free back = rest := by
        cases hread with
        | stuck e _ hread => simpa using hread .nil
        | goesOn free' hread => simpa [Item.ofTokens] using hread .nil
      rwa [hwhole]
    rw [hread (.option _ _ _ _), hread hopens, Item.ofTokens_attached rfl, hitem,
      readItems_append, readItems_append]
    cases hr : default.readItems items with
    | error stop => exact .failed stop
    | ok r =>
      have hsource := ruleSource_of_readItems hitems hr
      exact (alike_sources hsource value path hrest).map
        fun h => ⟨h.1, congrArg (r.2 ++ ·) h.2⟩

/-- Command lines that differ only in where the rules come from are refused alike, or they come to
options that differ only in that. -/
theorem alike_ofArguments {before after fileArguments : List (List Char)} {path : List Char}
    (text : List Char) (hbefore : Token.twoDashes ∉ before)
    (hothers : SaysNoSource (before ++ after)) (hfile : NamesRulesFile path fileArguments) :
    Alike (Apart (spelledSource (Text.escapeNewlines text)) (fileSource path))
      (ofArguments (before ++ rulesArgument text :: after))
      (ofArguments (before ++ fileArguments ++ after)) := by
  obtain ⟨fileTokens, htokens, hopens, hitem⟩ := hfile.exists_tokens
  unfold SaysNoSource at hothers
  rw [Token.ofArguments_append hbefore] at hothers
  unfold ofArguments Item.ofArguments
  rw [List.append_assoc, Token.ofArguments_append hbefore, Token.ofArguments_append hbefore,
    ofArguments_rulesArgument, htokens]
  cases hfront : Token.ofArguments OptionKey.forms before with
  | error e => exact .failed _
  | ok front =>
    cases hback : Token.ofArguments OptionKey.forms after with
    | error e => exact .failed _
    | ok back =>
      rw [hfront, hback] at hothers
      obtain ⟨hother, hotherBack⟩ := List.forall_mem_append.1 (hothers _ rfl)
      have hread := alike_readItems hother hotherBack (hopens back) hitem
        (Text.escapeNewlines text)
      refine hread.bind ?_
      rintro ⟨o, others⟩ ⟨p, _⟩ ⟨h, rfl⟩
      exact h.check others

theorem readRules_of_spelled {value : List Char} (h : o.ruleSource = spelledSource value)
    (hvalue : value ≠ Token.twoDashes) :
    o.readRules around = .ok (Text.unescapeNewlines value) := by
  rw [spelledSource, if_neg hvalue] at h
  obtain ⟨htext, hfile, hvoidText, hvoidFile⟩ := RuleSource.mk.inj h
  simp [readRules, htext, hfile, hvoidText, hvoidFile]

theorem readRules_of_void (h : o.ruleSource = spelledSource Token.twoDashes) :
    o.readRules around = .error (.noValue .rules) := by
  rw [spelledSource, if_pos rfl] at h
  obtain ⟨htext, hfile, hvoidText, hvoidFile⟩ := RuleSource.mk.inj h
  simp [readRules, hfile, hvoidText, hvoidFile]

theorem readRules_of_file {path text : List Char} (h : o.ruleSource = fileSource path)
    (hpath : isPath path = true)
    (hread : around.read path = .ok (String.ofList text).toUTF8) :
    o.readRules around = .ok (Text.normalizeLineEnds text) := by
  obtain ⟨htext, hfile, hvoidText, hvoidFile⟩ := RuleSource.mk.inj h
  have hcontent := Text.fromUTF8?_toUTF8 (String.ofList text)
  rw [readRules, hvoidFile, hfile]
  dsimp only
  rw [hpath, hread]
  dsimp only
  rw [hcontent]
  simp

theorem eq_of_broken_failed {e e' : ProgramError} (h : (Outcome.failed e).ending = .broken e') :
    e' = e := by
  rw [Outcome.failed] at h
  cases hreport : e.report? with
  | some text =>
    rw [hreport] at h
    cases h
  | none =>
    rw [hreport] at h
    exact (Ending.broken.inj h).symm

/-- Once the rules have been read, the run does not break off for the want of them. -/
theorem ending_run_ne {rulesText : List Char} (h : o.readRules around = .ok rulesText)
    (events : Schedule WindowEvent) :
    (o.run around events).ending ≠ .broken (.noValue .rules) := by
  cases hconfig : o.config around with
  | error e =>
    rw [run_of_config_error hconfig]
    intro hbroken
    obtain rfl := eq_of_broken_failed hbroken
    rcases config_error hconfig with hrules | ⟨_, _, -, hfault⟩
    · cases h.symm.trans hrules
    · cases hfault
  | ok c =>
    cases hdraw : c.draw o.limit with
    | error e =>
      rw [Options.run, hconfig]
      dsimp only
      rw [hdraw]
      intro hbroken
      cases eq_of_broken_failed hbroken
    | ok drawn =>
      rw [run_of_draw_ok hconfig hdraw]
      have hdelivers := o.delivers_deliver c drawn.1 drawn.2 around events
      generalize o.deliver c drawn.1 drawn.2 around events = outcome at hdelivers ⊢
      cases hdelivers with
      | skips | table | image | noImage | voidLimit =>
        intro hbroken
        cases hbroken
      | window session ending _ _ _ _ _ hending =>
        rcases hending with ⟨-, rfl⟩ | ⟨e, -, rfl⟩ <;> intro hbroken <;> cases hbroken
      | voidImage =>
        intro hbroken
        have hfault := Ending.broken.inj hbroken
        split at hfault <;> cases hfault

end Options

namespace Program

open Options

/-- The program does the same whether the rules are spelled in an argument or stand in a file, with
whatever other options, except if their text is two dashes and the command line is not refused. The
text may hold anything but a carriage return and a line feed that it spells itself. -/
theorem same_with_rules_in_file_iff (name : List Char)
    (before after fileArguments : List (List Char)) (path text : List Char)
    (around : Surroundings) (events : Schedule WindowEvent)
    (hbefore : Token.twoDashes ∉ before) (hothers : SaysNoSource (before ++ after))
    (hfile : NamesRulesFile path fileArguments) (hpath : isPath path = true)
    (hread : around.read path = .ok (String.ofList text).toUTF8)
    (hreturn : '\r' ∉ text) (hspelled : ¬ ['\\', 'n'] <:+: text) :
    run name (before ++ rulesArgument text :: after) around events =
        run name (before ++ fileArguments ++ after) around events ↔
      text ≠ Token.twoDashes ∨
        ∃ stop, ofArguments (before ++ fileArguments ++ after) = .error stop := by
  have halike := alike_ofArguments text hbefore hothers hfile
  have hback := Text.unescapeNewlines_escapeNewlines hspelled
  unfold run
  generalize ofArguments (before ++ rulesArgument text :: after) = x at halike ⊢
  generalize ofArguments (before ++ fileArguments ++ after) = y at halike ⊢
  cases halike with
  | failed stop => exact iff_of_true rfl (Or.inr ⟨stop, rfl⟩)
  | @came o p h =>
    have hfiled : p.readRules around = .ok text := by
      rw [readRules_of_file h.right hpath hread, Text.normalizeLineEnds_of_not_mem hreturn]
    dsimp only
    by_cases hdashes : text = Token.twoDashes
    · have hvoid : o.readRules around = .error (.noValue .rules) := by
        rw [hdashes] at h
        exact readRules_of_void h.left
      have hbroken : (o.run around events).ending = .broken (.noValue .rules) := by
        rw [run_of_config_error (e := .noValue .rules) (by rw [config, hvoid])]
        rfl
      refine iff_of_false ?_ ?_
      · intro hsame
        rw [hsame] at hbroken
        exact ending_run_ne hfiled events hbroken
      · rintro (hother | ⟨stop, hstop⟩)
        · exact hother hdashes
        · cases hstop
    · have hvalue : Text.escapeNewlines text ≠ Token.twoDashes := by
        intro hvalue
        rw [hvalue] at hback
        exact hdashes hback.symm
      have hrules : o.readRules around = p.readRules around := by
        rw [readRules_of_spelled h.left hvalue, hback, hfiled]
      exact iff_of_true (h.run hrules events) (Or.inl hdashes)

/-- A backslash at the end of a line. -/
def slashedRules : List Char := ['F', '=', 'F', '\\', '\n', 'X', '=', 'F']

def slashed : Folder := ⟨[(['r'], (String.ofList slashedRules).toUTF8)]⟩

/-- A backslash in front of a line feed is not taken for the one that spells it. -/
theorem slashed_rules_agree :
    run name [['-', 't'], rulesArgument slashedRules, ['-', 'n', '1']] slashed.surroundings .quiet =
      run name [['-', 't'], "--rules-file=r".toList, ['-', 'n', '1']] slashed.surroundings .quiet ∧
    (run name [['-', 't'], "--rules-file=r".toList, ['-', 'n', '1']] slashed.surroundings
      .quiet).stats = some ⟨2, 1⟩ := by
  have hothers : SaysNoSource [['-', 't'], ['-', 'n', '1']] := by
    intro tokens htokens
    obtain rfl := Except.ok.inj htokens
    simp only [List.mem_cons, List.not_mem_nil, or_false, forall_eq_or_imp, forall_eq,
      Token.Concerns]
    exact ⟨by decide, by decide⟩
  have hagree := (same_with_rules_in_file_iff name [['-', 't']] [['-', 'n', '1']] _ ['r']
    slashedRules slashed.surroundings .quiet (by decide) hothers (.attached (by decide)) rfl rfl
    (by decide) (by decide)).2 (Or.inl (by decide))
  exact ⟨hagree, by decide +kernel⟩

/-- A file with two dashes in it. -/
def dashed : Folder := ⟨[(['r'], (String.ofList Token.twoDashes).toUTF8)]⟩

theorem ofArguments_dashed : Options.ofArguments [['-', 't'], rulesArgument Token.twoDashes] =
    .ok { Options.default with textOnly := true, void := [.rules] } := by
  have hitems : Item.ofArguments OptionKey.forms [['-', 't'], rulesArgument Token.twoDashes] =
      [.flag (OptionKey.form .textOnly ["-t"] false), .void rulesForm] := by
    have htokens : Token.ofArguments OptionKey.forms [['-', 't'], rulesArgument Token.twoDashes] =
        .ok [.option (OptionKey.form .textOnly ["-t"] false) true none,
          .option rulesForm false (some Token.twoDashes)] := rfl
    rw [Item.ofArguments, htokens]
    exact congrArg _ (Item.ofTokens_attached rfl true false Token.twoDashes [])
  rw [Options.ofArguments, hitems]
  rfl

/-- Two dashes are no rule, and the program says so if they stand in a file. In an argument it takes
them for no value at all, and breaks off. -/
theorem dashed_rules_differ :
    '\r' ∉ Token.twoDashes ∧ ¬ ['\\', 'n'] <:+: Token.twoDashes ∧ isPath ['r'] = true ∧
      dashed.surroundings.read ['r'] = .ok (String.ofList Token.twoDashes).toUTF8 ∧
      (run name [['-', 't'], rulesArgument Token.twoDashes] dashed.surroundings .quiet).ending =
        .broken (.noValue .rules) ∧
      (run name [['-', 't'], "--rules-file".toList, ['r']] dashed.surroundings .quiet).complaint =
        "error: bad rule line (expected X=...): '--'".toList ∧
      run name [['-', 't'], rulesArgument Token.twoDashes] dashed.surroundings .quiet ≠
        run name [['-', 't'], "--rules-file".toList, ['r']] dashed.surroundings .quiet := by
  have hrun : run name [['-', 't'], rulesArgument Token.twoDashes] dashed.surroundings .quiet =
      .failed (.noValue .rules) := by
    rw [run, ofArguments_dashed]
    rfl
  have hcomplaint : (run name [['-', 't'], "--rules-file".toList, ['r']] dashed.surroundings
      .quiet).complaint = "error: bad rule line (expected X=...): '--'".toList := by
    decide +kernel
  refine ⟨by decide, by decide, rfl, rfl, ?_, hcomplaint, ?_⟩
  · rw [hrun]
    rfl
  · intro hsame
    rw [← hsame, hrun] at hcomplaint
    cases hcomplaint

end Program

end Lindenmayer
