/-!
# Lines and pieces of text

Cutting a text at a character and joining it again, the line ends of files, and the two-character
spelling of a line feed. The cuts lose nothing: joining with the same character gives the text
back.
-/
namespace Lindenmayer.Text

/-- The pieces between the occurrences of `sep`; a text without `sep` is one piece. -/
def splitOn (sep : Char) (s : List Char) : List (List Char) :=
  s.foldr (fun c pieces =>
    if c = sep then [] :: pieces
    else match pieces with
      | piece :: rest => (c :: piece) :: rest
      | [] => [[c]]) [[]]

/-- The pieces with `sep` between each two neighbours. -/
def joinWith (sep : Char) : List (List Char) → List Char
  | [] => []
  | [piece] => piece
  | piece :: rest => piece ++ sep :: joinWith sep rest

/-- The part before the first `sep` and the part after it, if there is one. -/
def cutAt? (sep : Char) (s : List Char) : Option (List Char × List Char) :=
  match s.dropWhile (· ≠ sep) with
  | [] => none
  | _ :: rest => some (s.takeWhile (· ≠ sep), rest)

/-- The maximal runs of characters that do not satisfy `gap`. -/
def fields (gap : Char → Bool) (s : List Char) : List (List Char) :=
  let (field, done) := s.foldr (fun c (field, done) =>
    if gap c then ([], if field.isEmpty then done else field :: done)
    else (c :: field, done)) (([], []) : List Char × List (List Char))
  if field.isEmpty then done else field :: done

/-- A backslash followed by the letter n stands for a line feed. -/
def unescapeNewlines : List Char → List Char
  | '\\' :: 'n' :: rest => '\n' :: unescapeNewlines rest
  | c :: rest => c :: unescapeNewlines rest
  | [] => []

/-- The text with each line feed spelled as a backslash and the letter n. -/
def escapeNewlines : List Char → List Char
  | [] => []
  | c :: rest => if c = '\n' then '\\' :: 'n' :: escapeNewlines rest else c :: escapeNewlines rest

/-- A carriage return, alone or before a line feed, ends a line of a file as a line feed does. -/
def normalizeLineEnds : List Char → List Char
  | '\r' :: '\n' :: rest => '\n' :: normalizeLineEnds rest
  | '\r' :: rest => '\n' :: normalizeLineEnds rest
  | c :: rest => c :: normalizeLineEnds rest
  | [] => []

theorem splitOn_ne_nil (sep : Char) (s : List Char) : splitOn sep s ≠ [] := by
  cases s with
  | nil => simp [splitOn]
  | cons c s =>
    simp only [splitOn, List.foldr_cons]
    split
    · simp
    · split <;> simp

theorem splitOn_cons_sep (sep : Char) (s : List Char) :
    splitOn sep (sep :: s) = [] :: splitOn sep s := by
  simp [splitOn]

theorem splitOn_cons_of_ne {sep c : Char} (h : c ≠ sep) (s : List Char) :
    ∃ piece rest, splitOn sep s = piece :: rest ∧
      splitOn sep (c :: s) = (c :: piece) :: rest := by
  obtain ⟨piece, rest, hs⟩ := List.exists_cons_of_ne_nil (splitOn_ne_nil sep s)
  refine ⟨piece, rest, hs, ?_⟩
  change (if c = sep then [] :: splitOn sep s else _) = _
  rw [if_neg h]
  change (match splitOn sep s with | piece :: rest => (c :: piece) :: rest | [] => [[c]]) = _
  rw [hs]

theorem splitOn_of_not_mem {sep : Char} {s : List Char} (h : sep ∉ s) : splitOn sep s = [s] := by
  induction s with
  | nil => rfl
  | cons c s ih =>
    obtain ⟨hc, hs⟩ : sep ≠ c ∧ sep ∉ s := by simpa using h
    obtain ⟨piece, rest, hpieces, hcons⟩ := splitOn_cons_of_ne (Ne.symm hc) s
    obtain ⟨rfl, rfl⟩ := List.cons.inj (hpieces.symm.trans (ih hs))
    exact hcons

/-- A piece without the separator is cut off in front of it. -/
theorem splitOn_append_sep {sep : Char} {s : List Char} (h : sep ∉ s) (t : List Char) :
    splitOn sep (s ++ sep :: t) = s :: splitOn sep t := by
  induction s with
  | nil => exact splitOn_cons_sep sep t
  | cons c s ih =>
    obtain ⟨hc, hs⟩ : sep ≠ c ∧ sep ∉ s := by simpa using h
    obtain ⟨piece, rest, hpieces, hcons⟩ := splitOn_cons_of_ne (Ne.symm hc) (s ++ sep :: t)
    obtain ⟨rfl, rfl⟩ := List.cons.inj (hpieces.symm.trans (ih hs))
    exact hcons

/-- Pieces without the separator are found again. -/
theorem splitOn_joinWith {sep : Char} {piece : List Char} {rest : List (List Char)}
    (h : ∀ p ∈ piece :: rest, sep ∉ p) :
    splitOn sep (joinWith sep (piece :: rest)) = piece :: rest := by
  induction rest generalizing piece with
  | nil => exact splitOn_of_not_mem (h piece List.mem_cons_self)
  | cons next rest ih =>
    rw [joinWith, splitOn_append_sep (h piece List.mem_cons_self)]
    · rw [ih fun p hp => h p (List.mem_cons_of_mem piece hp)]
    · simp

theorem joinWith_cons_cons (sep c : Char) (piece : List Char) (rest : List (List Char)) :
    joinWith sep ((c :: piece) :: rest) = c :: joinWith sep (piece :: rest) := by
  cases rest <;> rfl

/-- Nothing is lost by cutting. -/
theorem joinWith_splitOn (sep : Char) (s : List Char) : joinWith sep (splitOn sep s) = s := by
  induction s with
  | nil => rfl
  | cons c s ih =>
    by_cases h : c = sep
    · subst h
      rw [splitOn_cons_sep]
      obtain ⟨piece, rest, hs⟩ := List.exists_cons_of_ne_nil (splitOn_ne_nil c s)
      rw [hs] at ih ⊢
      simp [joinWith, ih]
    · obtain ⟨piece, rest, hs, hcons⟩ := splitOn_cons_of_ne h s
      rw [hcons, joinWith_cons_cons, ← hs, ih]

end Lindenmayer.Text
