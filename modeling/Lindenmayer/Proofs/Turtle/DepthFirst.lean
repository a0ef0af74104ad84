import Lindenmayer.Config
import Lindenmayer.Proofs.Expansion.Generations

/-!
# Drawing without the word

A configuration is drawn by expanding its start word and following the result. The same drawing
arises without that word ever being there: every symbol is replaced on the spot, its replacement is
drawn with one generation less to come, and only a symbol with none to come moves the turtle. The
turtle and its saved poses pass from each symbol to the next, out of one replacement and into
another, so a bracket may be opened in one and closed in another.
-/
namespace Lindenmayer

/-- A drawing under way: the turtle, the segments in the order of drawing, and the number of symbols
that were followed. -/
structure Sketch where
  turtle : Turtle
  segments : List Segment
  followed : Nat

namespace Sketch

def blank : Sketch := ⟨Turtle.initial, [], 0⟩

/-- The turtle does what the symbol says. -/
def follow (g : Gait) (pen : Pen) (s : Sketch) (c : Char) : Except Disoriented Sketch :=
  match s.turtle.act g (pen.action c) with
  | .error e => .error e
  | .ok (segment, turtle) => .ok ⟨turtle, s.segments ++ segment.toList, s.followed + 1⟩

end Sketch

namespace RuleTable

section

variable (t : RuleTable) (g : Gait) (pen : Pen)

/-- Draws a symbol that has `depth` generations to come. -/
def drawSymbol : (depth : Nat) → Sketch → Char → Except Disoriented Sketch
  | 0, s, c => s.follow g pen c
  | depth + 1, s, c => ((t.get? [c]).getD [c]).foldlM (drawSymbol depth) s

/-- Draws the symbols of a word one after the other, each with `depth` generations to come. -/
def drawWord (depth : Nat) (w : Word) (s : Sketch) : Except Disoriented Sketch :=
  w.foldlM (t.drawSymbol g pen depth) s

theorem drawWord_cons (depth : Nat) (c : Char) (w : Word) (s : Sketch) :
    t.drawWord g pen depth (c :: w) s =
      (t.drawSymbol g pen depth s c).bind fun s => t.drawWord g pen depth w s :=
  List.foldlM_cons

theorem drawWord_append (depth : Nat) (u v : Word) (s : Sketch) :
    t.drawWord g pen depth (u ++ v) s =
      (t.drawWord g pen depth u s).bind fun s => t.drawWord g pen depth v s :=
  List.foldlM_append

/-- A generation to come may as well be carried out on the whole word first. -/
theorem drawWord_succ (depth : Nat) (w : Word) (s : Sketch) :
    t.drawWord g pen (depth + 1) w s = t.drawWord g pen depth (t.substitute w) s := by
  induction w generalizing s with
  | nil => rfl
  | cons c w ih =>
    have hcons : t.substitute (c :: w) = t.replace c ++ t.substitute w := rfl
    have hsymbol : t.drawSymbol g pen (depth + 1) s c =
        t.drawWord g pen depth (t.replace c) s := rfl
    rw [hcons, drawWord_cons, drawWord_append, hsymbol]
    exact congrArg _ (funext ih)

theorem drawWord_generation (depth : Nat) (w : Word) (s : Sketch) :
    t.drawWord g pen depth w s = t.drawWord g pen 0 (t.generation depth w) s := by
  induction depth generalizing w with
  | zero => rfl
  | succ depth ih => rw [drawWord_succ, ih, generation_succ]

/-- With no generation to come, the word is followed symbol by symbol. -/
theorem drawWord_zero (w : Word) (turtle : Turtle) (drawn : List Segment) (followed : Nat) :
    t.drawWord g pen 0 w ⟨turtle, drawn.reverse, followed⟩ =
      (turtle.follow g pen drawn w).map fun r => ⟨r.2, r.1.reverse, followed + w.length⟩ := by
  induction w generalizing turtle drawn followed with
  | nil => rfl
  | cons c w ih =>
    have hsymbol : t.drawSymbol g pen 0 = Sketch.follow g pen := rfl
    rw [drawWord_cons, hsymbol, Sketch.follow, Turtle.follow]
    cases hact : turtle.act g (pen.action c) with
    | error e => rfl
    | ok result =>
      obtain ⟨segment, moved⟩ := result
      have hlength : followed + (c :: w).length = followed + 1 + w.length := by
        rw [List.length_cons]
        omega
      rw [hlength]
      cases segment with
      | none =>
        change t.drawWord g pen 0 w ⟨moved, drawn.reverse ++ [], followed + 1⟩ = _
        rw [List.append_nil, ih]
      | some segment =>
        change t.drawWord g pen 0 w ⟨moved, drawn.reverse ++ [segment], followed + 1⟩ = _
        rw [← List.reverse_cons, ih]

end

/-- What the recursion draws is what the turtle leaves when it follows the whole generation. -/
theorem drawWord_blank (t : RuleTable) (g : Gait) (pen : Pen) (n : Nat) (start : Word) :
    t.drawWord g pen n start Sketch.blank =
      (Turtle.initial.follow g pen [] (t.generation n start)).map fun r =>
        ⟨r.2, r.1.reverse, (t.generation n start).length⟩ := by
  have hzero := drawWord_zero t g pen (t.generation n start) Turtle.initial [] 0
  rw [Nat.zero_add] at hzero
  exact (drawWord_generation t g pen n start Sketch.blank).trans hzero

theorem segments_of_drawWord {t : RuleTable} {g : Gait} {pen : Pen} {n : Nat} {start : Word}
    {s : Sketch} (h : t.drawWord g pen n start Sketch.blank = .ok s) :
    (t.generation n start).segments g pen = .ok s.segments ∧
      s.followed = (t.generation n start).length := by
  rw [drawWord_blank] at h
  rw [Word.segments.eq_def]
  cases hr : Turtle.initial.follow g pen [] (t.generation n start) with
  | error e =>
    rw [hr] at h
    cases h
  | ok r =>
    rw [hr] at h
    obtain rfl := Except.ok.inj h
    exact ⟨rfl, rfl⟩

theorem exists_drawWord_of_segments {t : RuleTable} {g : Gait} {pen : Pen} {n : Nat} {start : Word}
    {segments : List Segment} (h : (t.generation n start).segments g pen = .ok segments) :
    ∃ s, t.drawWord g pen n start Sketch.blank = .ok s ∧ s.segments = segments := by
  rw [drawWord_blank]
  rw [Word.segments.eq_def] at h
  cases hr : Turtle.initial.follow g pen [] (t.generation n start) with
  | error e =>
    rw [hr] at h
    cases h
  | ok r =>
    rw [hr] at h
    exact ⟨_, rfl, Except.ok.inj h⟩

end RuleTable

namespace Config

theorem expand_eq_ok {c : Config} {limit : Limit} {w : Word} (h : c.expand limit = .ok w) :
    ∃ t, RuleTable.ofText c.rulesText = .ok t ∧ w = t.generation c.iterations c.start := by
  rw [expand] at h
  cases ht : RuleTable.ofText c.rulesText with
  | error e =>
    rw [ht] at h
    cases h
  | ok t =>
    rw [ht] at h
    cases hw : t.expand limit.bound c.iterations c.start with
    | error e =>
      simp only [hw, Except.mapError] at h
      cases h
    | ok v =>
      simp only [hw, Except.mapError] at h
      obtain rfl := Except.ok.inj h
      exact ⟨t, rfl, RuleTable.eq_generation_of_expand hw⟩

/-- A drawing within the limit has the segments of the recursion, in their order, and its counts are
those of the symbols that the recursion follows and of the segments. A drawing succeeds whenever the
recursion does and the words of its expansion respect the limit. -/
theorem draw_eq_ok_iff (c : Config) (limit : Limit) (segments : List Segment) (stats : Stats) :
    c.draw limit = .ok (segments, stats) ↔
      (∃ w, c.expand limit = .ok w) ∧
        ∃ t s, RuleTable.ofText c.rulesText = .ok t ∧
          t.drawWord c.gait c.pen c.iterations c.start Sketch.blank = .ok s ∧
          segments = s.segments ∧ stats = ⟨s.followed, s.segments.length⟩ := by
  rw [draw_ok_iff]
  constructor
  · rintro ⟨w, hw, hsegments, rfl⟩
    obtain ⟨t, ht, rfl⟩ := expand_eq_ok hw
    obtain ⟨s, hs, rfl⟩ := RuleTable.exists_drawWord_of_segments hsegments
    have hfollowed := (RuleTable.segments_of_drawWord hs).2
    exact ⟨⟨_, hw⟩, t, s, ht, hs, rfl, by rw [hfollowed]⟩
  · rintro ⟨⟨w, hw⟩, t, s, ht, hs, rfl, rfl⟩
    obtain ⟨t', ht', rfl⟩ := expand_eq_ok hw
    obtain rfl := Except.ok.inj (ht.symm.trans ht')
    obtain ⟨hsegments, hfollowed⟩ := RuleTable.segments_of_drawWord hs
    exact ⟨_, hw, hsegments, by rw [hfollowed]⟩

end Config

end Lindenmayer
