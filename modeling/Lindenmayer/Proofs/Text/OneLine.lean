import Lindenmayer.Config

/-!
# Texts on one line

A message says what is wrong on one line, whatever it repeats: quoted text spells out every
character that would end the line, and numbers are written with few characters, none of them such a
one.
-/
namespace Lindenmayer

namespace Text

/-- The code points of the characters that end a line. -/
def lineEnds : List Nat := [0x0a, 0x0b, 0x0c, 0x0d, 0x1c, 0x1d, 0x1e, 0x85, 0x2028, 0x2029]

/-- Nothing in the text ends a line. -/
def OneLine (s : List Char) : Prop := ∀ c ∈ s, c.toNat ∉ lineEnds

instance (s : List Char) : Decidable (OneLine s) :=
  decidable_of_iff (s.all fun c => !lineEnds.contains c.toNat) (by simp [OneLine])

theorem oneLine_nil : OneLine [] := by simp [OneLine]

theorem OneLine.append {s t : List Char} (hs : OneLine s) (ht : OneLine t) : OneLine (s ++ t) := by
  rintro c hc
  rcases List.mem_append.1 hc with h | h
  · exact hs c h
  · exact ht c h

theorem OneLine.cons {c : Char} {s : List Char} (hc : c.toNat ∉ lineEnds) (hs : OneLine s) :
    OneLine (c :: s) := by
  rintro d hd
  rcases List.mem_cons.1 hd with rfl | h
  · exact hc
  · exact hs d h

theorem OneLine.of_subset {s t : List Char} (ht : OneLine t) (h : s ⊆ t) : OneLine s :=
  fun c hc => ht c (h hc)

theorem toNat_of_isDigit {c : Char} (h : c.isDigit = true) : 48 ≤ c.toNat ∧ c.toNat ≤ 57 := by
  simpa [Char.isDigit, Char.le_def, UInt32.le_iff_toNat_le] using h

/-- No character that ends a line is printable. -/
theorem isPrintable_of_mem_lineEnds {c : Char} (hc : c.toNat ∈ lineEnds) : isPrintable c = false := by
  have htable : ∀ n ∈ lineEnds,
      (if n < 127 then decide (32 ≤ n) else printable.rank n % 2 == 1) = false := by
    decide +kernel
  exact htable c.toNat hc

theorem oneLine_hexDigits (width n : Nat) : OneLine (hexDigits width n) := by
  have hdigit : ∀ d < 16, (Nat.digitChar d).toNat ∉ lineEnds := by decide
  induction width generalizing n with
  | zero => exact oneLine_nil
  | succ width ih =>
    rw [hexDigits]
    exact (ih (n / 16)).append (oneLine_nil.cons (hdigit _ (Nat.mod_lt n (by decide))))

theorem oneLine_codePointEscape (c : Char) : OneLine (codePointEscape c) := by
  have hback : '\\'.toNat ∉ lineEnds := by decide
  unfold codePointEscape
  dsimp only
  split
  · exact ((oneLine_hexDigits _ _).cons (by decide)).cons hback
  · split
    · exact ((oneLine_hexDigits _ _).cons (by decide)).cons hback
    · exact ((oneLine_hexDigits _ _).cons (by decide)).cons hback

theorem oneLine_quoteChar {mark : Char} (hmark : mark.toNat ∉ lineEnds) (c : Char) :
    OneLine (quoteChar mark c) := by
  unfold quoteChar
  split
  · next hc =>
    rcases hc with rfl | rfl
    · exact (oneLine_nil.cons hmark).cons (by decide)
    · decide
  · split
    · decide
    · split
      · decide
      · split
        · decide
        · split
          · next hprintable =>
            refine oneLine_nil.cons ?_
            intro hc
            cases (isPrintable_of_mem_lineEnds hc).symm.trans hprintable
          · exact oneLine_codePointEscape c

theorem oneLine_quote (s : List Char) : OneLine (quote s) := by
  have hmark : (quoteMark s).toNat ∉ lineEnds := by
    unfold quoteMark
    split
    · decide
    · decide
  refine OneLine.cons hmark (OneLine.append ?_ (oneLine_nil.cons hmark))
  intro c hc
  obtain ⟨d, -, hc⟩ := List.mem_flatMap.1 hc
  exact oneLine_quoteChar hmark d c hc

end Text

namespace Number

/-- The characters that numbers are written with. -/
def numeralChars : List Char :=
  ['0', '1', '2', '3', '4', '5', '6', '7', '8', '9', '.', '+', '-', 'a', 'e', 'f', 'i', 'n']

theorem mem_numeralChars_of_isDigit {c : Char} (h : c.isDigit = true) : c ∈ numeralChars := by
  have hdigits : ∀ n < 58, 48 ≤ n → Char.ofNat n ∈ numeralChars := by decide
  obtain ⟨hlow, hhigh⟩ := Text.toNat_of_isDigit h
  have hc := hdigits c.toNat (by omega) hlow
  rwa [Char.ofNat_toNat] at hc

theorem natDigits_subset (n : Nat) : natDigits n ⊆ numeralChars :=
  fun _ hc => mem_numeralChars_of_isDigit (Nat.isDigit_of_mem_toDigits (by decide) (by decide) hc)

theorem replicate_zero_subset (n : Nat) : List.replicate n '0' ⊆ numeralChars := by
  rintro c hc
  obtain rfl := List.eq_of_mem_replicate hc
  decide

theorem padLeft_subset {s : List Char} (h : s ⊆ numeralChars) (width : Nat) :
    padLeft width s ⊆ numeralChars :=
  List.append_subset.2 ⟨replicate_zero_subset _, h⟩

theorem withSign_subset {s : List Char} (h : s ⊆ numeralChars) (negative : Bool) :
    withSign negative s ⊆ numeralChars := by
  cases negative with
  | false => exact h
  | true => exact List.cons_subset.2 ⟨by decide, h⟩

theorem intText_subset (i : Int) : intText i ⊆ numeralChars :=
  withSign_subset (natDigits_subset _) _

theorem exponentText_subset (digits : Nat) (e : Int) : exponentText digits e ⊆ numeralChars := by
  unfold exponentText
  refine List.cons_subset.2 ⟨by decide, List.cons_subset.2 ⟨?_, ?_⟩⟩
  · split
    · decide
    · decide
  · exact padLeft_subset (natDigits_subset _) digits

theorem pointAfter_subset {digits : List Char} (h : digits ⊆ numeralChars) (point : Nat) :
    pointAfter point digits ⊆ numeralChars := by
  unfold pointAfter
  dsimp only
  refine List.append_subset.2 ⟨List.append_subset.2 ⟨?_, replicate_zero_subset _⟩, ?_⟩
  · exact List.Subset.trans (List.take_subset _ _) h
  · refine List.cons_subset.2 ⟨by decide, ?_⟩
    split
    · decide
    · exact List.Subset.trans (List.drop_subset _ _) h

theorem dropTrailingZeros_subset (s : List Char) : dropTrailingZeros s ⊆ s := by
  rintro c hc
  exact List.mem_reverse.1 ((List.dropWhile_sublist _).subset (List.mem_reverse.1 hc))

theorem write_subset (f : Notation) (d : Decimal) : f.write d ⊆ numeralChars := by
  unfold Notation.write
  extract_lets all top digits head rest
  have hdigits : digits ⊆ numeralChars := by
    dsimp only [digits]
    split
    · decide
    · exact List.Subset.trans (dropTrailingZeros_subset all) (natDigits_subset _)
  split
  · split
    · exact pointAfter_subset hdigits _
    · refine List.append_subset.2 ⟨?_, hdigits⟩
      exact List.cons_subset.2
        ⟨by decide, List.cons_subset.2 ⟨by decide, replicate_zero_subset _⟩⟩
  · refine List.append_subset.2 ⟨List.append_subset.2 ⟨?_, ?_⟩, exponentText_subset _ _⟩
    · exact List.Subset.trans (List.take_subset _ _) hdigits
    · split
      · exact List.nil_subset _
      · exact List.cons_subset.2 ⟨by decide, List.Subset.trans (List.drop_subset _ _) hdigits⟩

theorem floatText_subset (x : Float) : floatText x ⊆ numeralChars := by
  unfold floatText
  split
  · decide
  · exact withSign_subset (by decide) _
  · refine withSign_subset ?_ _
    split
    · decide
    · exact write_subset _ _

theorem oneLine_numeralChars : Text.OneLine numeralChars := by decide

theorem oneLine_intText (i : Int) : Text.OneLine (intText i) :=
  oneLine_numeralChars.of_subset (intText_subset i)

theorem oneLine_floatText (x : Float) : Text.OneLine (floatText x) :=
  oneLine_numeralChars.of_subset (floatText_subset x)

theorem oneLine_tooLong : Text.OneLine tooLong :=
  (Text.OneLine.append (by decide +kernel) (oneLine_intText _)).append (by decide +kernel)

end Number

open Text Number

theorem Numeric.oneLine_written (n : Numeric) : OneLine n.written := by
  cases n with
  | truth b => cases b <;> decide
  | whole i => exact oneLine_intText i
  | real x => exact oneLine_floatText x

namespace Value

theorem oneLine_separated {parts : List (List Char)} (h : ∀ part ∈ parts, OneLine part) :
    OneLine (separated parts) := by
  induction parts with
  | nil => exact oneLine_nil
  | cons part rest ih =>
    have hpart : OneLine part := h part List.mem_cons_self
    have hrest : OneLine (separated rest) := ih fun q hq => h q (List.mem_cons_of_mem _ hq)
    cases rest with
    | nil => simpa [separated] using hpart
    | cons q rest =>
      have hcons : separated (part :: q :: rest) =
          part ++ ([',', ' '] ++ separated (q :: rest)) := by
        simp [separated, List.intercalate_cons_cons]
      rw [hcons]
      exact hpart.append (OneLine.append (by decide) hrest)

mutual

/-- A value of any kind is repeated on one line. -/
theorem oneLine_written : ∀ v : Value, OneLine v.written
  | null => by decide
  | number n => n.oneLine_written
  | text s => oneLine_quote s
  | list items => by
    rw [written]
    exact ((oneLine_separated (oneLine_writtenItems items)).cons (by decide)).append (by decide)
  | record fields => by
    rw [written]
    exact ((oneLine_separated (oneLine_writtenFields fields)).cons (by decide)).append (by decide)

theorem oneLine_writtenItems : ∀ (items : List Value), ∀ part ∈ writtenItems items, OneLine part
  | [] => by simp [writtenItems]
  | v :: rest => by
    rw [writtenItems]
    rintro part hpart
    rcases List.mem_cons.1 hpart with rfl | h
    · exact oneLine_written v
    · exact oneLine_writtenItems rest part h

theorem oneLine_writtenFields :
    ∀ (fields : List (List Char × Value)), ∀ part ∈ writtenFields fields, OneLine part
  | [] => by simp [writtenFields]
  | (key, v) :: rest => by
    rw [writtenFields]
    rintro part hpart
    rcases List.mem_cons.1 hpart with rfl | h
    · have hvalue := ((oneLine_written v).cons (c := ' ') (by decide)).cons (c := ':') (by decide)
      exact (oneLine_quote key).append hvalue
    · exact oneLine_writtenFields rest part h

end

end Value

theorem RuleError.oneLine_message (e : RuleError) : OneLine e.message := by
  cases e with
  | noEquals line => exact OneLine.append (by decide +kernel) (oneLine_quote line)
  | notOneSymbol left => exact OneLine.append (by decide +kernel) (oneLine_quote left)

theorem Overgrowth.oneLine_message (e : Overgrowth) : OneLine e.message := by
  unfold message
  split
  · refine OneLine.append ?_ (by decide +kernel)
    refine OneLine.append ?_ (oneLine_intText _)
    refine OneLine.append ?_ (by decide +kernel)
    refine OneLine.append ?_ (oneLine_intText _)
    refine OneLine.append ?_ (by decide +kernel)
    exact OneLine.append (by decide +kernel) (oneLine_intText _)
  · exact oneLine_tooLong

theorem ConfigError.oneLine_message (e : ConfigError) : OneLine e.message := by
  obtain ⟨setting, fault⟩ := e
  have habout : ∀ {text : List Char}, OneLine text →
      OneLine (setting.name.toList ++ ' ' :: text) := by
    intro text htext
    refine OneLine.append ?_ (htext.cons (by decide))
    cases setting <;> decide +kernel
  cases fault with
  | truthValue => exact habout (by decide +kernel)
  | noNumber given => exact habout (OneLine.append (by decide +kernel) given.oneLine_written)
  | unwritable => exact oneLine_tooLong
  | notFinite => exact habout (by decide +kernel)
  | negativeOrFractional x => exact habout (OneLine.append (by decide +kernel) (oneLine_floatText x))
  | notPositive x => exact habout (OneLine.append (by decide +kernel) (oneLine_floatText x))

end Lindenmayer
