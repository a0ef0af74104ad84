import Lindenmayer.Text.Blank
import Lindenmayer.Text.Lines
import Mathlib.Data.List.DropRight

/-!
# White space at the ends of texts and of lines

A text is its stripped text between two margins of white space, and margins can be added without
changing what is left. Where a text is cut, a piece added in front or behind melts into the first or
the last piece and otherwise brings pieces of its own.
-/
namespace Lindenmayer.Text

/-- The text neither begins nor ends with white space. -/
structure Trimmed (s : List Char) : Prop where
  first : ∀ c ∈ s.head?, isBlank c = false
  last : ∀ c ∈ s.getLast?, isBlank c = false

/-- There is only white space in the text. -/
def Blank (s : List Char) : Prop := ∀ c ∈ s, isBlank c = true

theorem blank_nil : Blank [] := by simp [Blank]

theorem Blank.mono {s t : List Char} (ht : Blank t) (h : s ⊆ t) : Blank s := fun c hc => ht c (h hc)

/-- The longest margin at the end, and what stands before it. -/
theorem exists_dropEnd (s : List Char) :
    ∃ margin, Blank margin ∧ s = dropEnd isBlank s ++ margin := by
  refine ⟨(s.reverse.takeWhile isBlank).reverse, ?_, ?_⟩
  · intro c hc
    exact List.mem_takeWhile_imp (List.mem_reverse.1 hc)
  · rw [dropEnd, ← List.reverse_append, List.takeWhile_append_dropWhile, List.reverse_reverse]

theorem exists_margins (s : List Char) :
    ∃ left right, Blank left ∧ Blank right ∧ s = left ++ strip s ++ right := by
  obtain ⟨right, hright, hs⟩ := exists_dropEnd (s.dropWhile isBlank)
  refine ⟨s.takeWhile isBlank, right, fun c hc => List.mem_takeWhile_imp hc, hright, ?_⟩
  rw [strip, List.append_assoc, ← hs, List.takeWhile_append_dropWhile]

theorem dropWhile_append_of_blank {margin : List Char} (h : Blank margin) (s : List Char) :
    (margin ++ s).dropWhile isBlank = s.dropWhile isBlank := by
  rw [List.dropWhile_append, List.dropWhile_eq_nil_iff.2 h]
  rfl

theorem dropEnd_append_of_blank {margin : List Char} (h : Blank margin) (s : List Char) :
    dropEnd isBlank (s ++ margin) = dropEnd isBlank s := by
  have hreverse : Blank margin.reverse := fun c hc => h c (List.mem_reverse.1 hc)
  rw [dropEnd, List.reverse_append, dropWhile_append_of_blank hreverse, dropEnd]

theorem strip_append_left {margin : List Char} (h : Blank margin) (s : List Char) :
    strip (margin ++ s) = strip s := by
  rw [strip, dropWhile_append_of_blank h, strip]

theorem strip_append_right {margin : List Char} (h : Blank margin) (s : List Char) :
    strip (s ++ margin) = strip s := by
  rw [strip, List.dropWhile_append, strip]
  split
  · next hs =>
    rw [List.dropWhile_eq_nil_iff.2 h, List.isEmpty_iff.1 hs]
  · exact dropEnd_append_of_blank h _

theorem strip_of_blank {s : List Char} (h : Blank s) : strip s = [] := by
  have hstrip := strip_append_left h []
  rwa [List.append_nil] at hstrip

theorem strip_subset (s : List Char) : strip s ⊆ s := by
  obtain ⟨left, right, -, -, hs⟩ := exists_margins s
  intro c hc
  rw [hs]
  simp [hc]

theorem strip_of_trimmed {s : List Char} (h : Trimmed s) : strip s = s := by
  have hfirst : s.dropWhile isBlank = s := by
    rw [List.dropWhile_eq_self_iff]
    intro hpos
    simp [h.first s[0] (by simp [List.head?_eq_getElem?])]
  have hlast : dropEnd isBlank s = s := by
    refine List.rdropWhile_eq_self_iff.2 fun hne => ?_
    simp [h.last (s.getLast hne) (List.getLast?_eq_getLast_of_ne_nil hne)]
  rw [strip, hfirst, hlast]

theorem isBlank_of_head?_dropWhile {s : List Char} {c : Char}
    (h : (s.dropWhile isBlank).head? = some c) : isBlank c = false := by
  have hhead := List.head?_dropWhile_not isBlank s
  rwa [h] at hhead

theorem trimmed_strip (s : List Char) : Trimmed (strip s) where
  first := by
    intro c hc
    obtain ⟨rest, hrest⟩ : strip s <+: s.dropWhile isBlank := List.rdropWhile_prefix isBlank _
    obtain ⟨tail, htail⟩ := List.head?_eq_some_iff.1 hc
    refine isBlank_of_head?_dropWhile (s := s) ?_
    rw [← hrest, htail]
    rfl
  last := by
    intro c hc
    rw [strip, dropEnd, List.getLast?_reverse] at hc
    exact isBlank_of_head?_dropWhile hc

/-! Cutting a text that is put together. -/

/-- The last piece of the first text and the first piece of the second become one. -/
theorem splitOn_append (sep : Char) (s t : List Char) :
    ∃ front last first back, splitOn sep s = front ++ [last] ∧ splitOn sep t = first :: back ∧
      splitOn sep (s ++ t) = front ++ (last ++ first) :: back := by
  induction s with
  | nil =>
    obtain ⟨first, back, ht⟩ := List.exists_cons_of_ne_nil (splitOn_ne_nil sep t)
    exact ⟨[], [], first, back, rfl, ht, ht⟩
  | cons c s ih =>
    obtain ⟨front, last, first, back, hs, ht, hst⟩ := ih
    by_cases hc : c = sep
    · subst hc
      refine ⟨[] :: front, last, first, back, ?_, ht, ?_⟩
      · rw [splitOn_cons_sep, hs, List.cons_append]
      · rw [List.cons_append, splitOn_cons_sep, hst, List.cons_append]
    · obtain ⟨piece, rest, hpieces, hcons⟩ := splitOn_cons_of_ne hc s
      obtain ⟨piece', rest', hpieces', hcons'⟩ := splitOn_cons_of_ne hc (s ++ t)
      rw [hs] at hpieces
      rw [hst] at hpieces'
      cases front with
      | nil =>
        obtain ⟨rfl, rfl⟩ := List.cons.inj hpieces
        obtain ⟨rfl, rfl⟩ := List.cons.inj hpieces'
        exact ⟨[], c :: last, first, back, hcons, ht, hcons'⟩
      | cons next front =>
        obtain ⟨rfl, rfl⟩ := List.cons.inj hpieces
        obtain ⟨rfl, rfl⟩ := List.cons.inj hpieces'
        exact ⟨(c :: next) :: front, last, first, back, hcons, ht, hcons'⟩

/-- What stands in a piece stands in the text and is no separator. -/
theorem mem_and_ne_of_mem_splitOn {sep : Char} {s piece : List Char} (h : piece ∈ splitOn sep s) :
    ∀ c ∈ piece, c ∈ s ∧ c ≠ sep := by
  induction s generalizing piece with
  | nil =>
    obtain rfl := List.mem_singleton.1 h
    simp
  | cons x s ih =>
    intro c hc
    by_cases hx : x = sep
    · subst hx
      rw [splitOn_cons_sep] at h
      rcases List.mem_cons.1 h with rfl | h
      · cases hc
      · exact (ih h c hc).imp_left (List.mem_cons_of_mem x)
    · obtain ⟨first, rest, hpieces, hcons⟩ := splitOn_cons_of_ne hx s
      rw [hcons] at h
      rw [hpieces] at ih
      rcases List.mem_cons.1 h with rfl | h
      · rcases List.mem_cons.1 hc with rfl | hc
        · exact ⟨List.mem_cons_self, hx⟩
        · exact (ih List.mem_cons_self c hc).imp_left (List.mem_cons_of_mem x)
      · exact (ih (List.mem_cons_of_mem first h) c hc).imp_left (List.mem_cons_of_mem x)

theorem subset_of_mem_splitOn {sep : Char} {s piece : List Char} (h : piece ∈ splitOn sep s) :
    piece ⊆ s :=
  fun c hc => (mem_and_ne_of_mem_splitOn h c hc).1

theorem not_mem_of_mem_splitOn {sep : Char} {s piece : List Char} (h : piece ∈ splitOn sep s) :
    sep ∉ piece :=
  fun hsep => (mem_and_ne_of_mem_splitOn h sep hsep).2 rfl

/-! The first separator. -/

theorem cutAt?_of_not_mem {sep : Char} {s : List Char} (h : sep ∉ s) : cutAt? sep s = none := by
  have hall : s.dropWhile (· ≠ sep) = [] := by
    rw [List.dropWhile_eq_nil_iff]
    rintro c hc
    simpa using ne_of_mem_of_not_mem hc h
  rw [cutAt?, hall]

theorem cutAt?_append {sep : Char} {left : List Char} (h : sep ∉ left) (right : List Char) :
    cutAt? sep (left ++ sep :: right) = some (left, right) := by
  have hleft : ∀ c ∈ left, decide (c ≠ sep) = true := by
    rintro c hc
    simpa using ne_of_mem_of_not_mem hc h
  rw [cutAt?, List.dropWhile_append_of_pos hleft, List.takeWhile_append_of_pos hleft]
  simp

/-- A text has no separator, or it is cut at the first one. -/
theorem not_mem_or_eq_append (sep : Char) (s : List Char) :
    sep ∉ s ∨ ∃ left right, sep ∉ left ∧ s = left ++ sep :: right := by
  by_cases h : sep ∈ s
  · obtain ⟨left, right, hs, hleft⟩ := List.eq_append_cons_of_mem h
    exact Or.inr ⟨left, right, hleft, hs⟩
  · exact Or.inl h

end Lindenmayer.Text
