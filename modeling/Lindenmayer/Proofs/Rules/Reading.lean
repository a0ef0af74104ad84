import Lindenmayer.Proofs.Text.Margins
import Lindenmayer.Rules.Text

/-!
# What a text of rules says

A line is a rule or has a fault, never both, and this is said here without reading it. A text is
refused for the fault of its first faulty line. Otherwise it says for each symbol what the last
rule for that symbol says. White space around the whole text plays no part, whether it ends lines or
not.
-/
namespace Lindenmayer

open Text

namespace RuleTable

/-- The line is a rule for the symbol: the first equals sign stands between the symbol and its
replacement, each in margins of white space. -/
inductive IsRule (line : List Char) (c : Char) (replacement : Word) : Prop
  | intro (left right : List Char) (line_eq : line = left ++ '=' :: right) (first : '=' ∉ left)
      (symbol : strip left = [c]) (replacement_eq : replacement = strip right)

/-- Why a line is no rule. -/
inductive Fault (line : List Char) : RuleError → Prop
  | noEquals (absent : '=' ∉ line) : Fault line (.noEquals line)
  | notOneSymbol (left right : List Char) (line_eq : line = left ++ '=' :: right)
      (first : '=' ∉ left) (length_ne : (strip left).length ≠ 1) :
      Fault line (.notOneSymbol (strip left))

variable {line : List Char} {lines : List (List Char)} {c : Char} {replacement : Word}
  {e : RuleError} {t t' : RuleTable}

/-! One line. -/

theorem readLine_of_isRule (h : IsRule line c replacement) :
    readLine line = .ok (c, replacement) := by
  obtain ⟨left, right, rfl, hfirst, hsymbol, rfl⟩ := h
  rw [readLine, cutAt?_append hfirst]
  simp only [hsymbol]

theorem readLine_of_fault (h : Fault line e) : readLine line = .error e := by
  cases h with
  | noEquals habsent => rw [readLine, cutAt?_of_not_mem habsent]
  | notOneSymbol left right hline hfirst hlength =>
    subst hline
    rw [readLine, cutAt?_append hfirst]
    cases hleft : strip left with
    | nil => simp only [hleft]
    | cons c rest =>
      cases rest with
      | nil => simp [hleft] at hlength
      | cons d rest => simp only [hleft]

theorem isRule_or_fault (line : List Char) :
    (∃ c replacement, IsRule line c replacement) ∨ ∃ e, Fault line e := by
  obtain habsent | ⟨left, right, hfirst, hline⟩ := not_mem_or_eq_append '=' line
  · exact Or.inr ⟨_, .noEquals habsent⟩
  · by_cases hlength : (strip left).length = 1
    · obtain ⟨c, hc⟩ := List.length_eq_one_iff.1 hlength
      exact Or.inl ⟨c, _, left, right, hline, hfirst, hc, rfl⟩
    · exact Or.inr ⟨_, .notOneSymbol left right hline hfirst hlength⟩

theorem readLine_ok_iff : readLine line = .ok (c, replacement) ↔ IsRule line c replacement := by
  constructor
  · intro h
    obtain ⟨d, other, hrule⟩ | ⟨e, hfault⟩ := isRule_or_fault line
    · rw [readLine_of_isRule hrule] at h
      cases h
      exact hrule
    · rw [readLine_of_fault hfault] at h
      cases h
  · exact readLine_of_isRule

theorem readLine_error_iff : readLine line = .error e ↔ Fault line e := by
  constructor
  · intro h
    obtain ⟨c, replacement, hrule⟩ | ⟨f, hfault⟩ := isRule_or_fault line
    · rw [readLine_of_isRule hrule] at h
      cases h
    · rw [readLine_of_fault hfault] at h
      cases h
      exact hfault
  · exact readLine_of_fault

theorem IsRule.not_fault (h : IsRule line c replacement) : ¬ Fault line e := by
  intro hfault
  have hread := readLine_of_isRule h
  rw [readLine_of_fault hfault] at hread
  cases hread

/-! One line after the other. -/

/-- The first faulty line has this fault. -/
inductive FirstFault (lines : List (List Char)) (e : RuleError) : Prop
  | intro (before : List (List Char)) (line : List Char) (after : List (List Char))
      (lines_eq : lines = before ++ line :: after)
      (before_rules : ∀ l ∈ before, ∀ f, ¬ Fault l f) (fault : Fault line e)

/-- The last rule with this key has this replacement. -/
inductive LastRule (lines : List (List Char)) (key replacement : Word) : Prop
  | intro (c : Char) (before : List (List Char)) (line : List Char) (after : List (List Char))
      (key_eq : key = [c]) (lines_eq : lines = before ++ line :: after)
      (rule : IsRule line c replacement) (after_others : ∀ l ∈ after, ∀ r, ¬ IsRule l c r)

theorem not_firstFault_nil : ¬ FirstFault [] e := by
  rintro ⟨before, line, after, h, -, -⟩
  simp at h

theorem firstFault_cons_of_fault (h : Fault line e) {f : RuleError} :
    FirstFault (line :: lines) f ↔ f = e := by
  constructor
  · rintro ⟨before, l, after, hlines, hbefore, hfault⟩
    cases before with
    | nil =>
      obtain ⟨rfl, rfl⟩ := List.cons.inj hlines
      have hread := readLine_of_fault h
      rw [readLine_of_fault hfault] at hread
      exact Except.error.inj hread
    | cons first before =>
      obtain ⟨rfl, rfl⟩ := List.cons.inj hlines
      exact absurd h (hbefore line List.mem_cons_self e)
  · rintro rfl
    exact ⟨[], line, lines, rfl, nofun, h⟩

theorem firstFault_cons_of_isRule (h : IsRule line c replacement) :
    FirstFault (line :: lines) e ↔ FirstFault lines e := by
  constructor
  · rintro ⟨before, l, after, hlines, hbefore, hfault⟩
    cases before with
    | nil =>
      obtain ⟨rfl, rfl⟩ := List.cons.inj hlines
      exact absurd hfault h.not_fault
    | cons first before =>
      obtain ⟨rfl, rfl⟩ := List.cons.inj hlines
      exact ⟨before, l, after, rfl, fun k hk => hbefore k (List.mem_cons_of_mem _ hk), hfault⟩
  · rintro ⟨before, l, after, rfl, hbefore, hfault⟩
    refine ⟨line :: before, l, after, rfl, ?_, hfault⟩
    exact List.forall_mem_cons.2 ⟨fun f => h.not_fault, hbefore⟩

theorem exists_firstFault_iff : (∃ e, FirstFault lines e) ↔ ∃ line ∈ lines, ∃ e, Fault line e := by
  induction lines with
  | nil => simp [not_firstFault_nil]
  | cons line lines ih =>
    obtain ⟨c, replacement, hrule⟩ | ⟨e, hfault⟩ := isRule_or_fault line
    · simp only [firstFault_cons_of_isRule hrule, ih, List.mem_cons, exists_eq_or_imp]
      simp [hrule.not_fault]
    · simp only [firstFault_cons_of_fault hfault, List.mem_cons, exists_eq_or_imp]
      exact ⟨fun _ => Or.inl ⟨e, hfault⟩, fun _ => ⟨e, rfl⟩⟩

theorem not_lastRule_nil {key : Word} : ¬ LastRule [] key replacement := by
  rintro ⟨c, before, line, after, -, h, -, -⟩
  simp at h

/-- A rule in front counts for its symbol as long as no other rule for the symbol follows. -/
theorem lastRule_cons_iff (h : IsRule line c replacement) {key r : Word} :
    LastRule (line :: lines) key r ↔
      LastRule lines key r ∨ (∀ l ∈ lines, ∀ r', ¬ IsRule l c r') ∧ key = [c] ∧ r = replacement := by
  constructor
  · rintro ⟨d, before, l, after, rfl, hlines, hrule, hafter⟩
    cases before with
    | nil =>
      obtain ⟨rfl, rfl⟩ := List.cons.inj hlines
      have hread := readLine_of_isRule h
      rw [readLine_of_isRule hrule] at hread
      cases hread
      exact Or.inr ⟨hafter, rfl, rfl⟩
    | cons first before =>
      obtain ⟨rfl, rfl⟩ := List.cons.inj hlines
      exact Or.inl ⟨d, before, l, after, rfl, rfl, hrule, hafter⟩
  · rintro (⟨d, before, l, after, rfl, rfl, hrule, hafter⟩ | ⟨hothers, rfl, rfl⟩)
    · exact ⟨d, line :: before, l, after, rfl, rfl, hrule, hafter⟩
    · exact ⟨c, [], line, lines, rfl, rfl, h, hothers⟩

theorem exists_lastRule_iff (hlines : ∀ l ∈ lines, ∃ d r, IsRule l d r) :
    (∃ r, LastRule lines [c] r) ↔ ∃ l ∈ lines, ∃ r, IsRule l c r := by
  constructor
  · rintro ⟨r, d, before, line, after, hkey, rfl, hrule, -⟩
    obtain rfl : c = d := by simpa using hkey
    exact ⟨line, by simp, r, hrule⟩
  · induction lines with
    | nil => simp
    | cons line lines ih =>
      obtain ⟨⟨d, replacement, hrule⟩, hrest⟩ := List.forall_mem_cons.1 hlines
      rintro ⟨l, hl, r, hlast⟩
      by_cases hlater : ∃ l ∈ lines, ∃ r, IsRule l c r
      · obtain ⟨r, hr⟩ := ih hrest hlater
        exact ⟨r, (lastRule_cons_iff hrule).2 (Or.inl hr)⟩
      · rcases List.mem_cons.1 hl with rfl | hl
        · refine ⟨r, (lastRule_cons_iff hlast).2 (Or.inr ⟨?_, rfl, rfl⟩)⟩
          exact fun l hl r hr => hlater ⟨l, hl, r, hr⟩
        · exact absurd ⟨l, hl, r, hlast⟩ hlater

theorem addLines_error_iff : addLines t lines = .error e ↔ FirstFault lines e := by
  induction lines generalizing t with
  | nil => simp [addLines, not_firstFault_nil]
  | cons line lines ih =>
    rw [addLines]
    obtain ⟨c, replacement, hrule⟩ | ⟨f, hfault⟩ := isRule_or_fault line
    · rw [readLine_of_isRule hrule, firstFault_cons_of_isRule hrule]
      exact ih
    · rw [readLine_of_fault hfault, firstFault_cons_of_fault hfault]
      simp [eq_comm]

theorem isRule_of_addLines (h : addLines t lines = .ok t') :
    ∀ l ∈ lines, ∃ c replacement, IsRule l c replacement := by
  rintro l hl
  refine (isRule_or_fault l).resolve_right fun hfault => ?_
  obtain ⟨e, he⟩ := exists_firstFault_iff.2 ⟨l, hl, hfault⟩
  rw [addLines_error_iff.2 he] at h
  cases h

/-- The lines have the last word; what the table said before counts where they say nothing. -/
theorem get?_of_addLines (h : addLines t lines = .ok t') (key r : Word) :
    t'.get? key = some r ↔
      LastRule lines key r ∨ (¬ ∃ r', LastRule lines key r') ∧ t.get? key = some r := by
  induction lines generalizing t with
  | nil =>
    obtain rfl := Except.ok.inj h
    simp [not_lastRule_nil]
  | cons line lines ih =>
    have hrules := isRule_of_addLines h
    obtain ⟨⟨c, replacement, hrule⟩, hrest⟩ := List.forall_mem_cons.1 hrules
    rw [addLines, readLine_of_isRule hrule] at h
    rw [ih h, get?_insert]
    by_cases hkey : [c] = key
    · subst hkey
      have hlater : (∀ l ∈ lines, ∀ r, ¬ IsRule l c r) ↔ ¬ ∃ r, LastRule lines [c] r := by
        simp [exists_lastRule_iff hrest]
      have hsome : ∃ r, LastRule (line :: lines) [c] r :=
        (exists_lastRule_iff hrules).2 ⟨line, List.mem_cons_self, replacement, hrule⟩
      have hearlier : ¬ ((¬ ∃ r', LastRule (line :: lines) [c] r') ∧ t.get? [c] = some r) :=
        fun h => h.1 hsome
      rw [or_iff_left hearlier, lastRule_cons_iff hrule, hlater]
      simp [eq_comm]
    · simp [lastRule_cons_iff hrule, hkey, Ne.symm hkey]

/-! Stripping the whole text. -/

theorem filter_map_strip_of_blank {pieces : List (List Char)} (h : ∀ piece ∈ pieces, Blank piece) :
    (pieces.map strip).filter isRuleLine = [] := by
  rw [List.filter_eq_nil_iff]
  intro line hline
  obtain ⟨piece, hpiece, rfl⟩ := List.mem_map.1 hline
  rw [strip_of_blank (h piece hpiece)]
  exact Bool.false_ne_true

theorem ruleLines_append_left {margin : List Char} (h : Blank margin) (text : List Char) :
    ruleLines (margin ++ text) = ruleLines text := by
  obtain ⟨front, last, first, back, hmargin, htext, hboth⟩ := splitOn_append '\n' margin text
  have hblank : ∀ piece ∈ front ++ [last], Blank piece := by
    intro piece hpiece
    rw [← hmargin] at hpiece
    exact h.mono (subset_of_mem_splitOn hpiece)
  obtain ⟨hfront, hlast⟩ := List.forall_mem_append.1 hblank
  rw [ruleLines, hboth, List.map_append, List.filter_append, filter_map_strip_of_blank hfront,
    List.nil_append, List.map_cons, strip_append_left (hlast last List.mem_cons_self),
    ← List.map_cons, ← htext, ruleLines]

theorem ruleLines_append_right {margin : List Char} (h : Blank margin) (text : List Char) :
    ruleLines (text ++ margin) = ruleLines text := by
  obtain ⟨front, last, first, back, htext, hmargin, hboth⟩ := splitOn_append '\n' text margin
  have hblank : ∀ piece ∈ first :: back, Blank piece := by
    intro piece hpiece
    rw [← hmargin] at hpiece
    exact h.mono (subset_of_mem_splitOn hpiece)
  obtain ⟨hfirst, hback⟩ := List.forall_mem_cons.1 hblank
  calc ruleLines (text ++ margin)
      = ((front.map strip ++ [strip (last ++ first)]) ++ back.map strip).filter isRuleLine := by
        rw [ruleLines, hboth]
        simp
    _ = (front.map strip ++ [strip last]).filter isRuleLine := by
        rw [strip_append_right hfirst, List.filter_append, filter_map_strip_of_blank hback,
          List.append_nil]
    _ = ruleLines text := by
        rw [ruleLines, htext]
        simp

theorem ruleLines_strip (text : List Char) : ruleLines (strip text) = ruleLines text := by
  obtain ⟨left, right, hleft, hright, htext⟩ := exists_margins text
  calc ruleLines (strip text) = ruleLines (left ++ strip text) := (ruleLines_append_left hleft _).symm
    _ = ruleLines (left ++ strip text ++ right) := (ruleLines_append_right hright _).symm
    _ = ruleLines text := by rw [← htext]

theorem ofText_eq_addLines (text : List Char) : ofText text = addLines empty (ruleLines text) := by
  rw [ofText, ruleLines_strip]

theorem ofText_error_iff {text : List Char} :
    ofText text = .error e ↔ FirstFault (ruleLines text) e := by
  rw [ofText_eq_addLines]
  exact addLines_error_iff

theorem get?_of_ofText {text : List Char} (h : ofText text = .ok t) (key r : Word) :
    t.get? key = some r ↔ LastRule (ruleLines text) key r := by
  rw [ofText_eq_addLines] at h
  rw [get?_of_addLines h, get?_empty]
  simp

/-- A text is refused exactly when one of its lines has a fault, and for the first one; a table that
is read has the last replacement for each symbol and nothing else. No text reads as the empty one. -/
theorem ofText_spec (text : Option (List Char)) :
    ((∃ e, ofText (text.getD []) = .error e) ↔
        ∃ line ∈ ruleLines (text.getD []), ∃ e, Fault line e) ∧
      (∀ e, ofText (text.getD []) = .error e ↔ FirstFault (ruleLines (text.getD [])) e) ∧
      ∀ t, ofText (text.getD []) = .ok t →
        ∀ key r, t.get? key = some r ↔ LastRule (ruleLines (text.getD [])) key r := by
  refine ⟨?_, fun e => ofText_error_iff, fun t ht => get?_of_ofText ht⟩
  simp only [ofText_error_iff]
  exact exists_firstFault_iff

/-- White space that ends no line, a comment, and a symbol that gets its replacement twice. -/
theorem later_rule_counts :
    let text := "\x0c # F=G\nF = G\u2028\n\t\n \u3000F  = =F#  ".toList
    let t : RuleTable := ⟨[(['F'], ['=', 'F', '#']), (['F'], ['G'])]⟩
    ofText text = .ok t ∧ LastRule (ruleLines text) ['F'] ['=', 'F', '#'] := by
  intro text t
  have ht : ofText text = .ok t := by rfl
  exact ⟨ht, ((ofText_spec (some text)).2.2 t ht ['F'] ['=', 'F', '#']).1 rfl⟩

end RuleTable

end Lindenmayer
