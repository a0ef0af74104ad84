import Lindenmayer.Turtle.Pen

/-!
# Brackets and forests

A word whose brackets match is a forest: plain symbols in a row, and groups of them between
brackets. In any word the closing brackets without a partner can be left out, and the rest is read in
one way only, as forests that follow each other with an opening bracket in between that is never
closed.
-/
namespace Lindenmayer

/-- Symbols other than brackets and bracketed groups, in the order of reading. -/
inductive Forest where
  | empty
  | symbol (before : Forest) (c : Char) (plain : c ≠ '[' ∧ c ≠ ']')
  | group (before inside : Forest)

def Forest.word : Forest → Word
  | .empty => []
  | .symbol before c _ => before.word ++ [c]
  | .group before inside => before.word ++ '[' :: (inside.word ++ [']'])

/-- A forest, and in `below` those before it, the last one first. Each is followed by an opening
bracket that is not closed. -/
structure Thicket where
  top : Forest
  below : List Forest

namespace Thicket

def empty : Thicket := ⟨.empty, []⟩

def wordBelow : List Forest → Word
  | [] => []
  | f :: below => wordBelow below ++ f.word ++ ['[']

def word (t : Thicket) : Word := wordBelow t.below ++ t.top.word

/-- One more symbol. A closing bracket ends the last group that is open; without one it changes
nothing. -/
def read (t : Thicket) (c : Char) : Thicket :=
  if h : c = '[' then ⟨.empty, t.top :: t.below⟩
  else if h' : c = ']' then
    match t.below with
    | [] => t
    | f :: below => ⟨f.group t.top, below⟩
  else ⟨t.top.symbol c ⟨h, h'⟩, t.below⟩

def ofWord (w : Word) : Thicket := w.foldl read empty

end Thicket

namespace Word

/-- The word without the closing brackets that find no partner, where `depth` brackets are open in
front of it. -/
def withoutSurplus : (depth : Nat) → Word → Word
  | _, [] => []
  | depth, c :: w =>
    if c = '[' then c :: withoutSurplus (depth + 1) w
    else if c = ']' then
      match depth with
      | 0 => withoutSurplus 0 w
      | depth + 1 => c :: withoutSurplus depth w
    else c :: withoutSurplus depth w

section

variable (depth : Nat) (w : Word)

@[simp]
theorem withoutSurplus_nil : withoutSurplus depth [] = [] := by
  rw [withoutSurplus.eq_def]

@[simp]
theorem withoutSurplus_open :
    withoutSurplus depth ('[' :: w) = '[' :: withoutSurplus (depth + 1) w := by
  rw [withoutSurplus.eq_def]
  rfl

@[simp]
theorem withoutSurplus_close_zero : withoutSurplus 0 (']' :: w) = withoutSurplus 0 w := by
  rw [withoutSurplus.eq_def]
  rfl

@[simp]
theorem withoutSurplus_close_succ :
    withoutSurplus (depth + 1) (']' :: w) = ']' :: withoutSurplus depth w := by
  rw [withoutSurplus.eq_def]
  rfl

@[simp]
theorem withoutSurplus_symbol {c : Char} (h : c ≠ '[' ∧ c ≠ ']') :
    withoutSurplus depth (c :: w) = c :: withoutSurplus depth w := by
  rw [withoutSurplus.eq_def]
  simp [h]

end

/-- No beginning of the word closes more brackets than it opens, and all that are opened are closed. -/
structure IsBalanced (w : Word) : Prop where
  prefixes : ∀ u, u <+: w → u.count ']' ≤ u.count '['
  total : w.count ']' = w.count '['

end Word

namespace Thicket

variable (t : Thicket) (below : List Forest) (w : Word)

@[simp]
theorem read_open : t.read '[' = ⟨.empty, t.top :: t.below⟩ := rfl

@[simp]
theorem read_close_nil (f : Forest) : read ⟨f, []⟩ ']' = ⟨f, []⟩ := rfl

@[simp]
theorem read_close_cons (f inside : Forest) :
    read ⟨inside, f :: below⟩ ']' = ⟨f.group inside, below⟩ := rfl

@[simp]
theorem read_symbol {c : Char} (h : c ≠ '[' ∧ c ≠ ']') :
    t.read c = ⟨t.top.symbol c h, t.below⟩ := by
  rw [read, dif_neg h.1, dif_neg h.2]

/-! Reading loses the surplus only, and counts the brackets that are open. -/

theorem word_foldl_read :
    (w.foldl read t).word = t.word ++ Word.withoutSurplus t.below.length w := by
  induction w generalizing t with
  | nil => simp
  | cons c w ih =>
    obtain ⟨top, below⟩ := t
    rw [List.foldl_cons, ih]
    by_cases hopen : c = '['
    · subst hopen
      simp [word, wordBelow, Forest.word]
    · by_cases hclose : c = ']'
      · subst hclose
        cases below with
        | nil => simp
        | cons f below => simp [word, wordBelow, Forest.word]
      · simp [hopen, hclose, word, Forest.word]

theorem length_below_foldl_read :
    (w.foldl read t).below.length + (Word.withoutSurplus t.below.length w).count ']' =
      t.below.length + w.count '[' := by
  induction w generalizing t with
  | nil => simp
  | cons c w ih =>
    obtain ⟨top, below⟩ := t
    by_cases hopen : c = '['
    · subst hopen
      have hw := ih ⟨.empty, top :: below⟩
      simp at hw ⊢
      omega
    · by_cases hclose : c = ']'
      · subst hclose
        cases below with
        | nil => simpa using ih ⟨top, []⟩
        | cons f below =>
          have hw := ih ⟨f.group top, below⟩
          simp at hw ⊢
          omega
      · simpa [hopen, hclose] using ih ⟨top.symbol c ⟨hopen, hclose⟩, below⟩

theorem word_ofWord : (ofWord w).word = w.withoutSurplus 0 :=
  word_foldl_read empty w

theorem length_below_ofWord :
    (ofWord w).below.length + (w.withoutSurplus 0).count ']' = w.count '[' :=
  (length_below_foldl_read empty w).trans (Nat.zero_add _)

/-! A thicket is found again in its word. -/

theorem foldl_read_word (f : Forest) : f.word.foldl read ⟨.empty, below⟩ = ⟨f, below⟩ := by
  induction f generalizing below with
  | empty => rfl
  | symbol before c plain ih => simp [Forest.word, ih, plain]
  | group before inside ihb ihi => simp [Forest.word, ihb, ihi]

theorem foldl_read_wordBelow : (wordBelow below).foldl read empty = ⟨.empty, below⟩ := by
  induction below with
  | nil => rfl
  | cons f below ih => simp [wordBelow, ih, foldl_read_word]

theorem ofWord_word : ofWord t.word = t := by
  rw [ofWord, word, List.foldl_append, foldl_read_wordBelow, foldl_read_word]

/-- There is one way to read a word without surplus. -/
theorem word_eq_withoutSurplus_iff : t.word = w.withoutSurplus 0 ↔ t = ofWord w := by
  constructor
  · intro h
    rw [← word_ofWord] at h
    rw [← ofWord_word t, h, ofWord_word]
  · rintro rfl
    exact word_ofWord w

end Thicket

/-! Balanced words are those of forests. -/

namespace Word

variable {u w : Word}

theorem withoutSurplus_eq_self {depth : Nat}
    (h : ∀ u, u <+: w → u.count ']' ≤ depth + u.count '[') : withoutSurplus depth w = w := by
  induction w generalizing depth with
  | nil => rfl
  | cons c w ih =>
    have hcons : ∀ u, u <+: w → (c :: u).count ']' ≤ depth + (c :: u).count '[' :=
      fun u hu => h (c :: u) (List.cons_prefix_cons.2 ⟨rfl, hu⟩)
    by_cases hopen : c = '['
    · subst hopen
      have hw : withoutSurplus (depth + 1) w = w := ih fun u hu => by
        have hu := hcons u hu
        simp at hu
        omega
      simp [hw]
    · by_cases hclose : c = ']'
      · subst hclose
        cases depth with
        | zero => simpa using hcons [] List.nil_prefix
        | succ depth =>
          have hw : withoutSurplus depth w = w := ih fun u hu => by
            have hu := hcons u hu
            simp at hu
            omega
          simp [hw]
      · have hw : withoutSurplus depth w = w := ih fun u hu => by
          simpa [hopen, hclose] using hcons u hu
        simp [hopen, hclose, hw]

instance (w : Word) : Decidable w.IsBalanced :=
  decidable_of_iff ((∀ n ≤ w.length, (w.take n).count ']' ≤ (w.take n).count '[') ∧
      w.count ']' = w.count '[') <| by
    constructor
    · rintro ⟨hprefixes, htotal⟩
      refine ⟨fun u hu => ?_, htotal⟩
      rw [List.prefix_iff_eq_take.1 hu]
      exact hprefixes _ hu.length_le
    · rintro ⟨hprefixes, htotal⟩
      exact ⟨fun n _ => hprefixes _ (List.take_prefix n w), htotal⟩

theorem isBalanced_nil : IsBalanced [] where
  prefixes := by simp
  total := rfl

theorem isBalanced_singleton {c : Char} (plain : c ≠ '[' ∧ c ≠ ']') : IsBalanced [c] where
  prefixes := by
    intro u hu
    rcases List.prefix_cons_iff.1 hu with rfl | ⟨v, rfl, hv⟩
    · simp
    · simp [List.prefix_nil.1 hv, plain]
  total := by simp [plain]

theorem IsBalanced.append (hu : IsBalanced u) (hw : IsBalanced w) : IsBalanced (u ++ w) where
  prefixes := by
    intro v hv
    rcases List.prefix_or_prefix_of_prefix hv (List.prefix_append u w) with hv' | ⟨v, rfl⟩
    · exact hu.prefixes v hv'
    · have hv' := hw.prefixes v ((List.prefix_append_right_inj u).1 hv)
      simp [hu.total, hv']
  total := by simp [hu.total, hw.total]

/-- Between brackets of its own a balanced word stays balanced. -/
theorem IsBalanced.enclose (h : IsBalanced w) : IsBalanced ('[' :: (w ++ [']'])) where
  prefixes := by
    intro u hu
    rcases List.prefix_cons_iff.1 hu with rfl | ⟨v, rfl, hv⟩
    · simp
    · rcases List.prefix_concat_iff.1 hv with rfl | hv
      · simp [h.total]
      · have hv := h.prefixes v hv
        simp
        omega
  total := by simp [h.total]

theorem isBalanced_word (f : Forest) : IsBalanced f.word := by
  induction f with
  | empty => exact isBalanced_nil
  | symbol before c plain ih => exact ih.append (isBalanced_singleton plain)
  | group before inside ihb ihi => exact ihb.append ihi.enclose

theorem isBalanced_iff_exists_forest : w.IsBalanced ↔ ∃ f : Forest, f.word = w := by
  constructor
  · intro h
    have hsurplus : w.withoutSurplus 0 = w := withoutSurplus_eq_self (by simpa using h.prefixes)
    have hword := Thicket.word_ofWord w
    have hdepth := Thicket.length_below_ofWord w
    rw [hsurplus] at hword hdepth
    rw [h.total] at hdepth
    generalize Thicket.ofWord w = t at hword hdepth
    obtain ⟨top, below⟩ := t
    obtain rfl : below = [] := by simpa using hdepth
    exact ⟨top, hword⟩
  · rintro ⟨f, rfl⟩
    exact isBalanced_word f

end Word

end Lindenmayer
