import Lindenmayer.Gallery
import Lindenmayer.Proofs.Expansion.Generations
import Lindenmayer.Proofs.Rules.RoundTrip
import Lindenmayer.Proofs.Turtle.Counting

/-!
# Systems that keep their brackets balanced

When a start word and all replacements are balanced and the brackets stand for themselves, every
generation is balanced: a balanced word is a forest, and its groups stay groups when what is inside
them is replaced. On a balanced word the turtle never misuses its saved poses. It has as many of
them as there are brackets open, finds one at each closing bracket, and has none left at the end.
All known systems are of this kind.
-/
namespace Lindenmayer

namespace RuleTable

/-- The brackets have no rules, and all replacements are balanced. -/
structure KeepsBalance (t : RuleTable) : Prop where
  opening : t.get? ['['] = none
  closing : t.get? [']'] = none
  replacement : ∀ c w, t.get? [c] = some w → w.IsBalanced

instance (t : RuleTable) : Decidable t.KeepsBalance :=
  decidable_of_iff (t.get? ['['] = none ∧ t.get? [']'] = none ∧
      ∀ e ∈ visible t.entries, e.1.length = 1 → e.2.IsBalanced) <| by
    constructor
    · rintro ⟨hopening, hclosing, hentries⟩
      refine ⟨hopening, hclosing, fun c w hw => ?_⟩
      exact hentries ([c], w) (mem_visible_iff.2 hw) rfl
    · rintro ⟨hopening, hclosing, hreplacement⟩
      refine ⟨hopening, hclosing, ?_⟩
      rintro ⟨key, w⟩ hmem hlength
      obtain ⟨c, rfl⟩ := List.length_eq_one_iff.1 hlength
      exact hreplacement c w (mem_visible_iff.1 hmem)

variable {t : RuleTable} {w : Word}

theorem KeepsBalance.replace (ht : t.KeepsBalance) {c : Char} (plain : c ≠ '[' ∧ c ≠ ']') :
    (t.replace c).IsBalanced := by
  cases hrule : t.get? [c] with
  | none =>
    rw [replace_of_get?_eq_none hrule]
    exact Word.isBalanced_singleton plain
  | some replacement =>
    rw [RuleTable.replace, hrule]
    exact ht.replacement c replacement hrule

/-- What replaces a forest is made of what replaces its symbols and groups. -/
theorem KeepsBalance.substitute_word (ht : t.KeepsBalance) (f : Forest) :
    (t.substitute f.word).IsBalanced := by
  induction f with
  | empty => exact Word.isBalanced_nil
  | symbol before c plain ih =>
    have hsplit : t.substitute (before.symbol c plain).word =
        t.substitute before.word ++ t.replace c := by simp [Forest.word, substitute]
    rw [hsplit]
    exact ih.append (ht.replace plain)
  | group before inside ihb ihi =>
    have hsplit : t.substitute (before.group inside).word =
        t.substitute before.word ++ '[' :: (t.substitute inside.word ++ [']']) := by
      simp [Forest.word, substitute, replace_of_get?_eq_none ht.opening,
        replace_of_get?_eq_none ht.closing]
    rw [hsplit]
    exact ihb.append ihi.enclose

theorem KeepsBalance.substitute (ht : t.KeepsBalance) (hw : w.IsBalanced) :
    (t.substitute w).IsBalanced := by
  obtain ⟨f, rfl⟩ := Word.isBalanced_iff_exists_forest.1 hw
  exact ht.substitute_word f

theorem KeepsBalance.generation (ht : t.KeepsBalance) (hw : w.IsBalanced) (n : Nat) :
    (t.generation n w).IsBalanced := by
  induction n generalizing w with
  | zero => exact hw
  | succ n ih =>
    rw [generation_succ]
    exact ih (ht.substitute hw)

theorem KeepsBalance.expand (ht : t.KeepsBalance) {start : Word} (hstart : start.IsBalanced)
    {limit : Option Int} {n : Int} (h : t.expand limit n start = .ok w) : w.IsBalanced := by
  rw [eq_generation_of_expand h]
  exact ht.generation hstart n.toNat

end RuleTable

namespace Turtle

/-- While it follows the word the turtle has saved a pose for each bracket that is open, finds one
when a bracket closes, and has none left at the end. -/
structure ReturnsAll (g : Gait) (pen : Pen) (w : Word) : Prop where
  depth : ∀ u drawn t, u <+: w → initial.follow g pen [] u = .ok (drawn, t) →
    (t.saved.length : Int) = u.count '[' - u.count ']'
  closing : ∀ u drawn t, u ++ [']'] <+: w → initial.follow g pen [] u = .ok (drawn, t) →
    t.saved ≠ []
  ending : ∀ drawn t, initial.follow g pen [] w = .ok (drawn, t) → t.saved = []

variable {g : Gait} {pen : Pen} {u w : Word} {t : Turtle} {drawn : List Segment}

theorem exists_leads_of_follow (h : initial.follow g pen [] w = .ok (drawn, t)) :
    ∃ segments, Leads pen initial w segments t := by
  have hstep : (Numeric.real g.step).toFloat? = some g.step := rfl
  have htrace : (initial.follow g pen [] w).mapError WalkError.disoriented = _ :=
    follow_eq_trace hstep w [] initial
  rw [h] at htrace
  obtain ⟨⟨segments, t'⟩, hrun, heq⟩ := map_ok htrace.symm
  obtain ⟨-, rfl⟩ := Prod.mk.inj heq
  exact ⟨segments, leads_of_trace hrun⟩

/-- A pose is saved for each bracket that is open, as long as none closes without a partner. -/
theorem Leads.depth_eq (h : Leads pen initial w drawn t)
    (hprefixes : ∀ u, u <+: w → u.count ']' ≤ u.count '[') :
    t.saved.length + w.count ']' = w.count '[' := by
  induction h with
  | start => rfl
  | @next w drawn t c more t' before step ih =>
    have hbefore := ih fun u hu => hprefixes u (hu.trans (List.prefix_append w [c]))
    cases step with
    | opened =>
      simp
      omega
    | closed pose top saved =>
      simp at hbefore ⊢
      omega
    | surplus pose =>
      -- Nothing is saved, so all brackets are closed and one more has no partner.
      have hclose := hprefixes (w ++ [']']) List.prefix_rfl
      simp at hbefore hclose
      omega
    | stayed saved plain => simpa [plain] using hbefore
    | drew pose pose' saved plain => simpa [plain] using hbefore

theorem depth_of_follow (hw : w.IsBalanced) (hu : u <+: w)
    (h : initial.follow g pen [] u = .ok (drawn, t)) :
    t.saved.length + u.count ']' = u.count '[' := by
  obtain ⟨segments, hleads⟩ := exists_leads_of_follow h
  exact hleads.depth_eq fun v hv => hw.prefixes v (hv.trans hu)

theorem returnsAll_of_balanced (hw : w.IsBalanced) (g : Gait) (pen : Pen) : ReturnsAll g pen w where
  depth := by
    intro u drawn t hu h
    have hdepth := depth_of_follow hw hu h
    omega
  closing := by
    intro u drawn t hu h hnone
    have hdepth := depth_of_follow hw ((List.prefix_append u [']']).trans hu) h
    have hclose := hw.prefixes (u ++ [']']) hu
    rw [hnone] at hdepth
    simp at hdepth hclose
    omega
  ending := by
    intro drawn t h
    have hdepth := depth_of_follow hw List.prefix_rfl h
    have htotal := hw.total
    exact List.eq_nil_of_length_eq_zero (by omega)

end Turtle

/-- In every generation of the start word, and in whatever expansion gives, brackets have partners,
and no turtle misses a saved pose. -/
def RuleTable.StaysBalanced (t : RuleTable) (start : Word) : Prop :=
  ∀ n : Int, (∃ w, t.expand none n start = .ok w) ∧
    ∀ limit w, t.expand limit n start = .ok w →
      w.IsBalanced ∧ ∀ g pen, Turtle.ReturnsAll g pen w

theorem RuleTable.KeepsBalance.staysBalanced {t : RuleTable} (ht : t.KeepsBalance) {start : Word}
    (hstart : start.IsBalanced) : t.StaysBalanced start := by
  intro n
  refine ⟨⟨_, expand_none t n start⟩, fun limit w h => ?_⟩
  have hw : w.IsBalanced := ht.expand hstart h
  exact ⟨hw, Turtle.returnsAll_of_balanced hw⟩

/-- The known systems are of this kind. -/
theorem Preset.exists_keepsBalance {p : Preset} (hp : p ∈ all) :
    p.start.IsBalanced ∧ ∃ t, RuleTable.ofText p.rulesText = .ok t ∧ t.KeepsBalance := by
  have hall : ∀ p ∈ all, p.start.IsBalanced ∧
      ∃ t, t ∈ (RuleTable.ofText p.rulesText).toOption ∧ t.KeepsBalance := by
    decide +kernel
  obtain ⟨hstart, t, htable, ht⟩ := hall p hp
  refine ⟨hstart, t, ?_, ht⟩
  cases hread : RuleTable.ofText p.rulesText with
  | error e => simp [hread, Except.toOption] at htable
  | ok table =>
    rw [hread] at htable
    exact congrArg Except.ok (Option.mem_some.1 htable)

/-- If a start word and all replacements are balanced and no rule replaces a bracket, then all words
of the system are balanced, and the turtle has saved as many poses as there are brackets open, at
each closing bracket at least one and at the end none. This holds of every known system. -/
theorem brackets_stay_matched :
    (∀ (t : RuleTable) (start : Word), t.KeepsBalance → start.IsBalanced → t.StaysBalanced start) ∧
      ∀ p ∈ Preset.all, p.start.IsBalanced ∧ ∃ t, RuleTable.ofText p.rulesText = .ok t ∧
        t.KeepsBalance ∧ t.StaysBalanced p.start := by
  constructor
  · intro t start ht hstart
    exact ht.staysBalanced hstart
  · intro p hp
    obtain ⟨hstart, t, hread, ht⟩ := Preset.exists_keepsBalance hp
    exact ⟨hstart, t, hread, ht, ht.staysBalanced hstart⟩

/-- Rules of which one erases its symbol and one puts groups into groups. -/
def RuleTable.fronds : RuleTable :=
  .ofList [(['X'], "F[[X]-X]Y".toList), (['Y'], [])]

/-- After two generations the turtle is four groups deep in places, and comes out of all of them. -/
theorem fronds_nest_four_deep :
    RuleTable.fronds.KeepsBalance ∧ Word.IsBalanced ['X'] ∧ ∃ u v drawn t,
      RuleTable.fronds.expand (some 30) 2 ['X'] = .ok (u ++ v) ∧
        Turtle.initial.follow (.ofDegrees 10 25) .letters [] u = .ok (drawn, t) ∧
          t.saved.length = 4 ∧ Word.IsBalanced (u ++ v) ∧
            ∀ drawn t, Turtle.initial.follow (.ofDegrees 10 25) .letters [] (u ++ v) =
              .ok (drawn, t) → t.saved = [] := by
  have hrules : RuleTable.fronds.KeepsBalance := by decide +kernel
  have hstart : Word.IsBalanced ['X'] := by decide +kernel
  have hexpand : RuleTable.fronds.expand (some 30) 2 ['X'] =
      .ok ("F[[F[[".toList ++ "X]-X]Y]-F[[X]-X]Y]".toList) := by decide +kernel
  have hfollows : (Turtle.initial.follow (.ofDegrees 10 25) .letters [] "F[[F[[".toList).isOk =
      true := by decide +kernel
  obtain ⟨⟨drawn, t⟩, ht⟩ := exists_ok_of_isOk hfollows
  obtain ⟨hbalanced, hreturns⟩ := (brackets_stay_matched.1 _ _ hrules hstart 2).2 _ _ hexpand
  have hreturns := hreturns (.ofDegrees 10 25) .letters
  have hdepth := hreturns.depth _ _ _ (List.prefix_append _ _) ht
  have hopen : ("F[[F[[".toList.count '[' : Int) - "F[[F[[".toList.count ']' = 4 := by
    decide +kernel
  rw [hopen] at hdepth
  exact ⟨hrules, hstart, _, _, drawn, t, hexpand, ht, by omega, hbalanced, hreturns.ending⟩

end Lindenmayer
