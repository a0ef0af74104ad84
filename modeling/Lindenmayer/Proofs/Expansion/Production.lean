import Lindenmayer.Proofs.Turtle.Counting
import Lindenmayer.Proofs.Turtle.DepthFirst
import Mathlib.Data.Finsupp.Multiset
import Mathlib.LinearAlgebra.Finsupp.LinearCombination

/-!
# Counting by productions

A generation turns every symbol of a word into the symbols of its replacement, so how often each
symbol stands in the next word depends on the counts of this one alone, and linearly: the row of
counts is multiplied by a matrix that has a row for each symbol, with the counts of its replacement.
The order of symbols plays no part. Systems that differ in nothing else grow alike, reach a limit
together and draw the same number of segments.
-/
namespace Lindenmayer

namespace Word

/-- How often each symbol stands in the word. -/
noncomputable def census (w : Word) : Char →₀ ℕ := Multiset.toFinsupp (w : Multiset Char)

variable (u w : Word)

@[simp]
theorem census_apply (d : Char) : w.census d = w.count d := by
  simp [census]

theorem census_nil : census [] = 0 := by
  simp [census]

theorem census_append : census (u ++ w) = u.census + w.census := by
  ext d
  simp

theorem census_cons (c : Char) : census (c :: w) = Finsupp.single c 1 + w.census := by
  simp [census, ← Multiset.cons_coe, ← Multiset.singleton_add]

theorem census_eq_iff {u w : Word} : u.census = w.census ↔ u.Perm w := by
  rw [census, census, Multiset.toFinsupp.injective.eq_iff, Multiset.coe_eq_coe]

end Word

namespace RuleTable

/-- The production matrix of a table. The row of a symbol says how often each symbol stands in the
word that takes its place. -/
noncomputable def production (t : RuleTable) (c : Char) : Char →₀ ℕ :=
  Word.census ((t.get? [c]).getD [c])

/-- A row of counts times the production matrix. -/
noncomputable def produce (t : RuleTable) (counts : Char →₀ ℕ) : Char →₀ ℕ :=
  Finsupp.linearCombination ℕ t.production counts

theorem census_substitute (t : RuleTable) (w : Word) :
    Word.census (t.substitute w) = t.produce w.census := by
  induction w with
  | nil => simp [produce, substitute_nil, Word.census_nil]
  | cons c w ih =>
    have hcons : t.substitute (c :: w) = t.replace c ++ t.substitute w := rfl
    have hrow : t.production c = Word.census (t.replace c) := rfl
    rw [hcons, Word.census_append, Word.census_cons, ih, ← hrow, produce, produce, map_add,
      Finsupp.linearCombination_single, one_smul]

theorem census_generation (t : RuleTable) (n : Nat) (w : Word) :
    (t.generation n w).census = t.produce^[n] w.census := by
  induction n generalizing w with
  | zero => rfl
  | succ n ih => rw [generation_succ, ih, census_substitute, Function.iterate_succ_apply]

/-- The two tables and start words differ in the order of symbols only, and both start words change
in the first generation. -/
structure Shuffled (t t' : RuleTable) (start start' : Word) : Prop where
  starts : start.Perm start'
  replacement : ∀ c, ((t.get? [c]).getD [c]).Perm ((t'.get? [c]).getD [c])
  changes : t.generation 1 start ≠ start
  changes' : t'.generation 1 start' ≠ start'

namespace Shuffled

variable {t t' : RuleTable} {start start' : Word}

theorem symm (h : Shuffled t t' start start') : Shuffled t' t start' start where
  starts := h.starts.symm
  replacement c := (h.replacement c).symm
  changes := h.changes'
  changes' := h.changes

theorem generation_perm (h : Shuffled t t' start start') (n : Nat) :
    (t.generation n start).Perm (t'.generation n start') := by
  have hproduction : t.production = t'.production :=
    funext fun c => Word.census_eq_iff.2 (h.replacement c)
  have hproduce : t.produce = t'.produce := by
    funext counts
    rw [produce, produce, hproduction]
  rw [← Word.census_eq_iff, census_generation, census_generation, hproduce,
    Word.census_eq_iff.2 h.starts]

theorem tooLong_eq (h : Shuffled t t' start start') (M n : Int) :
    t.tooLong M n start = t'.tooLong M n start' := by
  ext i
  simp only [tooLong, Set.mem_ofPred_eq, (h.generation_perm i).length_eq]

theorem outgrows (h : Shuffled t t' start start') {M n : Int} (hout : t.Outgrows M n start) :
    t'.Outgrows M n start' := by
  obtain ⟨hn, -, hlong⟩ := hout
  rw [h.tooLong_eq] at hlong
  exact ⟨hn, h.changes', hlong⟩

/-- Both grow too long at the same generation, or neither does. -/
theorem expand_cases (h : Shuffled t t' start start') (limit : Option Int) (n : Int) :
    (∃ e, t.expand limit n start = .error e ∧ t'.expand limit n start' = .error e) ∨
      (t.expand limit n start = .ok (t.generation n.toNat start) ∧
        t'.expand limit n start' = .ok (t'.generation n.toNat start')) := by
  cases limit with
  | none => exact Or.inr ⟨expand_none t n start, expand_none t' n start'⟩
  | some M =>
    by_cases hout : t.Outgrows M n start
    · obtain ⟨i, hleast, hfails⟩ := expand_of_outgrows hout
      obtain ⟨i', hleast', hfails'⟩ := expand_of_outgrows (h.outgrows hout)
      rw [← h.tooLong_eq] at hleast'
      rw [hleast'.unique hleast] at hfails'
      exact Or.inl ⟨_, hfails, hfails'⟩
    · have hout' : ¬ t'.Outgrows M n start' := fun hout' => hout (h.symm.outgrows hout')
      exact Or.inr ⟨expand_of_not_outgrows hout, expand_of_not_outgrows hout'⟩

end Shuffled

end RuleTable

/-- The counts of the last word are those of the start word, multiplied by the production matrix as
often as there are generations. So systems that differ in the order of symbols only exceed a limit
at the same generation or not at all, and where they do not, their words are equally long and they
draw equally many segments. -/
theorem counts_follow_production :
    (∀ (t : RuleTable) (start : Word) (n : Nat) (d : Char), ∃ w,
      t.expand none n start = .ok w ∧ w.count d = (t.produce^[n] start.census) d) ∧
    (∀ (t t' : RuleTable) (start start' : Word), t.Shuffled t' start start' →
      ∀ (limit : Option Int) (n : Int),
        (∃ e, t.expand limit n start = .error e ∧ t'.expand limit n start' = .error e) ∨
          ∃ w w', t.expand limit n start = .ok w ∧ t'.expand limit n start' = .ok w' ∧
            w.length = w'.length) ∧
    ∀ (c c' : Config) (t t' : RuleTable), c.pen = c'.pen → c.iterations = c'.iterations →
      RuleTable.ofText c.rulesText = .ok t → RuleTable.ofText c'.rulesText = .ok t' →
      t.Shuffled t' c.start c'.start →
        ∀ limit segments segments' stats stats', c.draw limit = .ok (segments, stats) →
          c'.draw limit = .ok (segments', stats') →
            stats.expandedLength = stats'.expandedLength ∧
              stats.segmentCount = stats'.segmentCount := by
  refine ⟨?_, ?_, ?_⟩
  · intro t start n d
    refine ⟨_, t.expand_none n start, ?_⟩
    rw [← RuleTable.census_generation, Word.census_apply]
    rfl
  · intro t t' start start' h limit n
    refine (h.expand_cases limit n).imp_right ?_
    rintro ⟨hw, hw'⟩
    exact ⟨_, _, hw, hw', (h.generation_perm n.toNat).length_eq⟩
  · intro c c' t t' hpen hiterations ht ht' h limit segments segments' stats stats' hdraw hdraw'
    obtain ⟨w, hw, hsegments, rfl⟩ := Config.draw_ok_iff.1 hdraw
    obtain ⟨w', hw', hsegments', rfl⟩ := Config.draw_ok_iff.1 hdraw'
    have hperm : w.Perm w' := by
      obtain ⟨_, hread, rfl⟩ := Config.expand_eq_ok hw
      obtain ⟨_, hread', rfl⟩ := Config.expand_eq_ok hw'
      obtain rfl := Except.ok.inj (ht.symm.trans hread)
      obtain rfl := Except.ok.inj (ht'.symm.trans hread')
      rw [← hiterations]
      exact h.generation_perm c.iterations
    have hcount : segments.length = segments'.length := by
      rw [Word.length_of_segments hsegments, Word.length_of_segments hsegments', ← hpen]
      exact hperm.countP_eq _
    exact ⟨hperm.length_eq, hcount⟩

def RuleTable.algae : RuleTable := (empty.insert ['A'] ['A', 'B']).insert ['B'] ['A']

def RuleTable.mirroredAlgae : RuleTable := (empty.insert ['A'] ['B', 'A']).insert ['B'] ['A']

theorem RuleTable.shuffled_algae : algae.Shuffled mirroredAlgae ['A', 'B'] ['B', 'A'] where
  starts := by decide
  replacement := by
    intro c
    by_cases hA : c = 'A'
    · subst hA
      decide
    · by_cases hB : c = 'B'
      · subst hB
        decide
      · simp [algae, mirroredAlgae, get?_insert, get?_empty, Ne.symm hA, Ne.symm hB]
  changes := by decide
  changes' := by decide

def Config.algae : Config := ⟨['A', 'B'], "A=AB\nB=A".toList, 3, 90, 1, .only ['B']⟩

def Config.mirroredAlgae : Config := ⟨['B', 'A'], "A=BA\nB=A".toList, 3, 45, 2, .only ['B']⟩

/-- Both words have eight symbols after three generations, and not before. -/
theorem mirrored_algae_counts_alike :
    RuleTable.algae.Shuffled RuleTable.mirroredAlgae ['A', 'B'] ['B', 'A'] ∧
      RuleTable.ofText Config.algae.rulesText = .ok RuleTable.algae ∧
      RuleTable.ofText Config.mirroredAlgae.rulesText = .ok RuleTable.mirroredAlgae ∧
      RuleTable.algae.expand (some 7) 4 ['A', 'B'] = .error ⟨7, 3, 4⟩ ∧
      RuleTable.mirroredAlgae.expand (some 7) 4 ['B', 'A'] = .error ⟨7, 3, 4⟩ ∧
      ∃ segments segments' stats stats', Config.algae.draw (.atMost 8) = .ok (segments, stats) ∧
        Config.mirroredAlgae.draw (.atMost 8) = .ok (segments', stats') ∧
        stats.expandedLength = stats'.expandedLength ∧
        stats.segmentCount = stats'.segmentCount := by
  have hread : RuleTable.ofText Config.algae.rulesText = .ok RuleTable.algae := rfl
  have hread' : RuleTable.ofText Config.mirroredAlgae.rulesText = .ok RuleTable.mirroredAlgae := rfl
  have hfails : RuleTable.algae.expand (some 7) 4 ['A', 'B'] = .error ⟨7, 3, 4⟩ := by decide
  have hdraws : (Config.algae.draw (.atMost 8)).isOk = true := by decide +kernel
  have hdraws' : (Config.mirroredAlgae.draw (.atMost 8)).isOk = true := by decide +kernel
  obtain ⟨-, hlimits, hcounts⟩ := counts_follow_production
  have hfails' : RuleTable.mirroredAlgae.expand (some 7) 4 ['B', 'A'] = .error ⟨7, 3, 4⟩ := by
    rcases hlimits _ _ _ _ RuleTable.shuffled_algae (some 7) 4 with ⟨e, he, he'⟩ | ⟨w, w', hw, -⟩
    · obtain rfl := Except.error.inj (hfails.symm.trans he)
      exact he'
    · cases hfails.symm.trans hw
  obtain ⟨⟨segments, stats⟩, hdraw⟩ := exists_ok_of_isOk hdraws
  obtain ⟨⟨segments', stats'⟩, hdraw'⟩ := exists_ok_of_isOk hdraws'
  have hequal := hcounts Config.algae Config.mirroredAlgae _ _ rfl rfl hread hread'
    RuleTable.shuffled_algae (.atMost 8) segments segments' stats stats' hdraw hdraw'
  exact ⟨RuleTable.shuffled_algae, hread, hread', hfails, hfails', segments, segments', stats,
    stats', hdraw, hdraw', hequal⟩

end Lindenmayer
