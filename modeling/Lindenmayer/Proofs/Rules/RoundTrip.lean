import Lindenmayer.Proofs.Rules.Reading

/-!
# Rule text as a format

A table whose entries a text can hold is found again in the lines that are written for its entries,
whatever their order; and no text has a table with other entries. The symbol of an entry must not be
lost at the beginning of its line, nor begin a comment, nor end at an equals sign of its own, and its
replacement must fit between the equals sign and the end of the line.
-/
namespace Lindenmayer

open Text

namespace RuleTable

variable {t : RuleTable} {entries : List (Word × Word)} {key replacement : Word}

/-! The entries of a table. -/

theorem mem_visible_iff :
    (key, replacement) ∈ visible entries ↔ get? ⟨entries⟩ key = some replacement := by
  induction entries with
  | nil => simp [visible, get?]
  | cons e rest ih =>
    have hinsert : get? ⟨e :: rest⟩ key = if e.1 = key then some e.2 else get? ⟨rest⟩ key :=
      get?_insert ⟨rest⟩ e.1 e.2 key
    rw [hinsert, visible, List.mem_cons, List.mem_filter, ih]
    by_cases hkey : e.1 = key
    · subst hkey
      simp [Prod.ext_iff, eq_comm]
    · simp [Prod.ext_iff, hkey, Ne.symm hkey]

theorem nodup_keys_visible (entries : List (Word × Word)) :
    ((visible entries).map Prod.fst).Nodup := by
  induction entries with
  | nil => exact List.nodup_nil
  | cons e rest ih =>
    rw [visible, List.map_cons, List.nodup_cons]
    constructor
    · simp
    · exact ih.sublist (List.filter_sublist.map Prod.fst)

/-- Entries with different keys hide nothing. -/
theorem visible_of_nodup_keys (h : (entries.map Prod.fst).Nodup) : visible entries = entries := by
  induction entries with
  | nil => rfl
  | cons e rest ih =>
    obtain ⟨hnew, hrest⟩ := List.nodup_cons.1 h
    rw [visible, ih hrest, List.filter_eq_self.2]
    intro f hf
    have hne : f.1 ≠ e.1 := ne_of_mem_of_not_mem (List.mem_map_of_mem hf) hnew
    simpa using hne

theorem insertInOrder_perm (e : Word × Word) (entries : List (Word × Word)) :
    (insertInOrder e entries).Perm (e :: entries) := by
  induction entries with
  | nil => exact List.Perm.refl _
  | cons f rest ih =>
    rw [insertInOrder]
    split
    · exact List.Perm.refl _
    · exact (ih.cons f).trans (List.Perm.swap e f rest)

theorem toList_perm (t : RuleTable) : t.toList.Perm (visible t.entries) := by
  rw [toList]
  induction visible t.entries with
  | nil => exact List.Perm.refl _
  | cons e rest ih => exact (insertInOrder_perm e _).trans (ih.cons e)

/-- The entries of a table in any order are a table with the same replacements. -/
theorem get?_ofList_of_perm (h : entries.Perm t.toList) (key : Word) :
    (ofList entries).get? key = t.get? key := by
  have hvisible : entries.reverse.Perm (visible t.entries) :=
    (List.reverse_perm entries).trans (h.trans t.toList_perm)
  have hkeys : (entries.reverse.map Prod.fst).Nodup :=
    (hvisible.map Prod.fst).nodup_iff.2 (nodup_keys_visible t.entries)
  ext replacement
  calc (ofList entries).get? key = some replacement
      ↔ (key, replacement) ∈ visible entries.reverse := mem_visible_iff.symm
    _ ↔ (key, replacement) ∈ visible t.entries := by
        rw [visible_of_nodup_keys hkeys, hvisible.mem_iff]
    _ ↔ t.get? key = some replacement := mem_visible_iff

/-! Entries that a line can hold. -/

/-- One symbol that is no white space, no equals sign and no number sign, and a replacement of one
line without white space at its ends. -/
inductive Tidy : (key replacement : Word) → Prop
  | intro (c : Char) (replacement : Word) (visible : isBlank c = false) (ne_equals : c ≠ '=')
      (ne_number : c ≠ '#') (one_line : '\n' ∉ replacement) (trimmed : Trimmed replacement) :
      Tidy [c] replacement

def WellFormed (t : RuleTable) : Prop :=
  ∀ key replacement, t.get? key = some replacement → Tidy key replacement

theorem WellFormed.tidy_of_mem (h : t.WellFormed) (hentries : entries.Perm t.toList) :
    ∀ e ∈ entries, Tidy e.1 e.2 := by
  rintro ⟨key, replacement⟩ he
  have hmem := (hentries.trans t.toList_perm).mem_iff.1 he
  exact h key replacement (mem_visible_iff.1 hmem)

namespace Tidy

theorem isRule (h : Tidy key replacement) :
    ∃ c, key = [c] ∧ IsRule (key ++ '=' :: replacement) c replacement := by
  obtain ⟨c, _, hvisible, hequals, -, -, htrimmed⟩ := h
  have hsymbol : strip [c] = [c] := by
    refine strip_of_trimmed ⟨?_, ?_⟩
    · simpa using hvisible
    · simpa using hvisible
  refine ⟨c, rfl, [c], replacement, rfl, ?_, hsymbol, (strip_of_trimmed htrimmed).symm⟩
  simpa using hequals.symm

theorem strip_line (h : Tidy key replacement) :
    strip (key ++ '=' :: replacement) = key ++ '=' :: replacement := by
  obtain ⟨c, _, hvisible, -, -, -, htrimmed⟩ := h
  refine strip_of_trimmed ⟨?_, ?_⟩
  · simpa using hvisible
  · intro d hd
    cases hlast : replacement.getLast? with
    | none =>
      obtain rfl := List.getLast?_eq_none_iff.1 hlast
      obtain rfl : '=' = d := by simpa using hd
      decide
    | some last =>
      obtain rfl : last = d := by simpa [hlast, List.getLast?_cons] using hd
      exact htrimmed.last last hlast

theorem newline_not_mem (h : Tidy key replacement) : '\n' ∉ key ++ '=' :: replacement := by
  obtain ⟨c, _, hvisible, -, -, hone, -⟩ := h
  have hne : '\n' ≠ c := by
    rintro rfl
    cases hvisible
  simp [hne, hone]

theorem isRuleLine (h : Tidy key replacement) :
    RuleTable.isRuleLine (key ++ '=' :: replacement) = true := by
  obtain ⟨c, _, -, -, hnumber, -, -⟩ := h
  simpa [RuleTable.isRuleLine] using hnumber

end Tidy

theorem ruleLines_write (h : ∀ e ∈ entries, Tidy e.1 e.2) :
    ruleLines (write entries) = entries.map fun e => e.1 ++ '=' :: e.2 := by
  cases entries with
  | nil => rfl
  | cons e rest =>
    have hpieces : ∀ line ∈ (e :: rest).map fun e => e.1 ++ '=' :: e.2, '\n' ∉ line := by
      rintro line hline
      obtain ⟨f, hf, rfl⟩ := List.mem_map.1 hline
      exact (h f hf).newline_not_mem
    have hsplit : splitOn '\n' (write (e :: rest)) = (e :: rest).map fun e => e.1 ++ '=' :: e.2 :=
      splitOn_joinWith hpieces
    rw [ruleLines, hsplit, List.map_map, List.filter_eq_self.2]
    · exact List.map_congr_left fun f hf => (h f hf).strip_line
    · rintro line hline
      obtain ⟨f, hf, rfl⟩ := List.mem_map.1 hline
      rw [Function.comp_apply, (h f hf).strip_line]
      exact (h f hf).isRuleLine

theorem addLines_map (h : ∀ e ∈ entries, Tidy e.1 e.2) (t : RuleTable) :
    addLines t (entries.map fun e => e.1 ++ '=' :: e.2) = .ok ⟨entries.reverse ++ t.entries⟩ := by
  induction entries generalizing t with
  | nil => rfl
  | cons e rest ih =>
    obtain ⟨he, hrest⟩ := List.forall_mem_cons.1 h
    obtain ⟨c, hkey, hrule⟩ := he.isRule
    rw [List.map_cons, addLines, readLine_of_isRule hrule]
    simp only [ih hrest, insert, ← hkey]
    simp

theorem ofText_write (h : ∀ e ∈ entries, Tidy e.1 e.2) :
    ofText (write entries) = .ok (ofList entries) := by
  rw [ofText, ruleLines_strip, ruleLines_write h, addLines_map h, empty, List.append_nil, ofList]

/-! Texts hold no other entries. -/

theorem tidy_of_isRule {text line : List Char} {c : Char} (hline : line ∈ ruleLines text)
    (h : IsRule line c replacement) : Tidy [c] replacement := by
  obtain ⟨hstripped, hrule⟩ := List.mem_filter.1 hline
  obtain ⟨piece, hpiece, rfl⟩ := List.mem_map.1 hstripped
  have htrimmed : Trimmed (strip piece) := trimmed_strip piece
  have hone : '\n' ∉ strip piece :=
    fun hmem => not_mem_of_mem_splitOn hpiece (strip_subset piece hmem)
  obtain ⟨left, right, hpieces, hfirst, hsymbol, rfl⟩ := h
  -- The line begins with no white space, so its first symbol is the one that the rule is for.
  obtain ⟨margin, after, hmargin, -, hleft⟩ := exists_margins left
  rw [hsymbol] at hleft
  rw [hpieces] at htrimmed hone hrule
  cases margin with
  | cons d margin =>
    have hvisible : isBlank d = false := htrimmed.first d (by simp [hleft])
    rw [hmargin d List.mem_cons_self] at hvisible
    cases hvisible
  | nil =>
    have hhead : left = c :: after := hleft
    refine Tidy.intro c (strip right) ?_ ?_ ?_ ?_ (trimmed_strip right)
    · exact htrimmed.first c (by simp [hhead])
    · rintro rfl
      exact hfirst (by simp [hhead])
    · simpa [hhead, isRuleLine] using hrule
    · exact fun hmem => hone (by simp [strip_subset right hmem])

theorem wellFormed_of_ofText {text : List Char} (h : ofText text = .ok t) : t.WellFormed := by
  rintro key replacement hget
  obtain ⟨c, before, line, after, rfl, hlines, hrule, -⟩ := (get?_of_ofText h key replacement).1 hget
  have hmem : line ∈ ruleLines text := by simp [hlines]
  exact tidy_of_isRule hmem hrule

/-- The tables that can be written are those that can be read, and writing one in any order loses
nothing. -/
theorem round_trip :
    (∀ t entries, WellFormed t → entries.Perm t.toList →
      ∃ t', ofText (write entries) = .ok t' ∧ ∀ key, t'.get? key = t.get? key) ∧
    ∀ text t, ofText text = .ok t → WellFormed t := by
  constructor
  · intro t entries ht hentries
    exact ⟨_, ofText_write (ht.tidy_of_mem hentries), get?_ofList_of_perm hentries⟩
  · intro text t h
    exact wellFormed_of_ofText h

/-- An empty replacement, and one with equals signs, a number sign and white space in it, written in
the order in which they are not kept. -/
theorem odd_rules_round_trip :
    let text := "G=F\nF==\t#[=\nG=".toList
    let entries : List (Word × Word) := [(['G'], []), (['F'], ['=', '\t', '#', '[', '='])]
    ∃ t, ofText text = .ok t ∧ t.WellFormed ∧ entries.Perm t.toList ∧
      ∃ t', ofText (write entries) = .ok t' ∧ ∀ key, t'.get? key = t.get? key := by
  intro text entries
  let t : RuleTable := ⟨entries ++ [(['G'], ['F'])]⟩
  have hread : ofText text = .ok t := by rfl
  have hentries : entries.Perm t.toList := List.Perm.swap _ _ []
  have hformed : t.WellFormed := round_trip.2 text t hread
  exact ⟨t, hread, hformed, hentries, round_trip.1 t entries hformed hentries⟩

end RuleTable

end Lindenmayer
