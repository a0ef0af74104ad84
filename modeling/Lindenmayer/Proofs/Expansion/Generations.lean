import Lindenmayer.Expansion
import Mathlib.Data.Nat.Find
import Mathlib.Logic.Function.Iterate
import Mathlib.Order.Bounds.Basic

/-!
# Generations of a word

The generations of a word are what repeated substitution makes of it. Expansion goes through them
one by one, leaves off at a word that the next generation would repeat, and measures a word only
after that. Neither is seen from outside: without a limit expansion gives the generation asked for,
and with a limit it fails exactly if one of the generations up to that one is too long, at the first
that is. Only a start word that no rule changes is never measured. The failure can say which
generation it is unless the limit or the number of generations has too many digits.
-/
namespace Lindenmayer

namespace RuleTable

/-- The word after a number of generations. In each of them every symbol gives way to the word that
the table has for it, all at once, and a symbol without a rule stands for itself. -/
def generation (t : RuleTable) (n : Nat) (start : Word) : Word :=
  (fun w : Word => w.flatMap fun c => (t.get? [c]).getD [c])^[n] start

theorem generation_succ (t : RuleTable) (n : Nat) (w : Word) :
    t.generation (n + 1) w = t.generation n (t.substitute w) :=
  Function.iterate_succ_apply _ n w

theorem generation_of_fixed {t : RuleTable} {w : Word} (h : t.substitute w = w) (n : Nat) :
    t.generation n w = w :=
  Function.iterate_fixed h n

/-- The rules that can apply: those for a single symbol. -/
def symbolRules (t : RuleTable) : RuleTable := ⟨t.entries.filter fun e => e.1.length == 1⟩

theorem get?_symbolRules (t : RuleTable) (c : Char) : t.symbolRules.get? [c] = t.get? [c] := by
  rw [get?, get?, symbolRules, List.find?_filter]
  congr 2
  funext e
  by_cases h : e.1 = [c]
  · simp [h]
  · simp [h]

theorem substitute_symbolRules (t : RuleTable) : t.symbolRules.substitute = t.substitute := by
  funext w
  have hreplace : t.symbolRules.replace = t.replace := by
    funext c
    rw [replace, replace, get?_symbolRules]
  rw [substitute, substitute, hreplace]

theorem grow_of_fixed {t : RuleTable} {w : Word} (h : t.substitute w = w) (limit : Option Int)
    (iterations : Int) (remaining done : Nat) :
    t.grow limit iterations remaining done w = .ok w := by
  cases remaining with
  | zero => rfl
  | succ remaining => rw [grow, if_pos h]

/-- If no generation is too long, the last one is reached, and stopping early at a word that repeats
itself gives the same word. -/
theorem grow_eq_ok {t : RuleTable} {limit : Option Int} {remaining : Nat} {w : Word}
    (h : ∀ i, 1 ≤ i → i ≤ remaining → exceeded? limit (t.generation i w) = none)
    (iterations : Int) (done : Nat) :
    t.grow limit iterations remaining done w = .ok (t.generation remaining w) := by
  induction remaining generalizing done w with
  | zero => rfl
  | succ remaining ih =>
    by_cases hfixed : t.substitute w = w
    · rw [grow_of_fixed hfixed, generation_of_fixed hfixed]
    · have hfirst : exceeded? limit (t.substitute w) = none := h 1 (by omega) (by omega)
      have hlater : ∀ i, 1 ≤ i → i ≤ remaining →
          exceeded? limit (t.generation i (t.substitute w)) = none := by
        intro i hi hle
        rw [← generation_succ]
        exact h (i + 1) (by omega) (by omega)
      rw [grow, if_neg hfixed, hfirst]
      exact (ih hlater (done + 1)).trans (by rw [generation_succ])

theorem exceeded?_some {M : Int} {w : Word} : exceeded? (some M) w = some M ↔ M < w.length := by
  simp [exceeded?]

theorem exceeded?_none {M : Int} {w : Word} :
    exceeded? (some M) w = none ↔ (w.length : Int) ≤ M := by
  simp [exceeded?]

/-- The first generation that is too long ends the growth. A word before it cannot have repeated
itself, because all later ones would be as short. -/
theorem grow_eq_error {t : RuleTable} {M : Int} {k remaining : Nat} {w : Word}
    (hchange : t.substitute w ≠ w) (hk : k < remaining)
    (hover : M < (t.generation (k + 1) w).length)
    (hbefore : ∀ j, j < k → ((t.generation (j + 1) w).length : Int) ≤ M)
    (iterations : Int) (done : Nat) :
    t.grow (some M) iterations remaining done w = .error ⟨M, done + (k + 1), iterations⟩ := by
  induction k generalizing remaining done w with
  | zero =>
    obtain ⟨r, rfl⟩ : ∃ r, remaining = r + 1 := ⟨remaining - 1, by omega⟩
    have hfirst : exceeded? (some M) (t.substitute w) = some M := exceeded?_some.2 hover
    rw [grow, if_neg hchange, hfirst]
  | succ k ih =>
    obtain ⟨r, rfl⟩ : ∃ r, remaining = r + 1 := ⟨remaining - 1, by omega⟩
    have hnext : ((t.substitute w).length : Int) ≤ M := hbefore 0 (by omega)
    rw [generation_succ] at hover
    have hmoves : t.substitute (t.substitute w) ≠ t.substitute w := by
      intro hfixed
      rw [generation_of_fixed hfixed] at hover
      omega
    have hrest : ∀ j, j < k → ((t.generation (j + 1) (t.substitute w)).length : Int) ≤ M := by
      intro j hj
      rw [← generation_succ]
      exact hbefore (j + 1) (by omega)
    rw [grow, if_neg hchange, exceeded?_none.2 hnext]
    have hdone : done + (k + 1 + 1) = done + 1 + (k + 1) := by omega
    rw [hdone]
    exact ih hmoves (by omega) hover hrest (done + 1)

theorem expand_none (t : RuleTable) (n : Int) (start : Word) :
    t.expand none n start = .ok (t.generation n.toNat start) :=
  grow_eq_ok (fun _ _ _ => rfl) n 0

/-- Expansion without a limit is nothing but substitution, repeated as often as is asked for, and
rules for anything but a single symbol play no part in it. -/
theorem expand_unlimited (t : RuleTable) (n : Int) (start : Word) :
    t.expand none n start = .ok (t.generation n.toNat start) ∧
      t.symbolRules.expand none n start = t.expand none n start := by
  have hsame : t.symbolRules.generation n.toNat start = t.generation n.toNat start :=
    congrArg (fun f : Word → Word => f^[n.toNat] start) (substitute_symbolRules t)
  refine ⟨expand_none t n start, ?_⟩
  rw [expand_none, expand_none, hsame]

/-- The generations from the first to the last one asked for whose words are longer than `M`. -/
def tooLong (t : RuleTable) (M n : Int) (start : Word) : Set Nat :=
  {i | 1 ≤ i ∧ (i : Int) ≤ n ∧ M < (t.generation i start).length}

/-- The first generation changes the start word, and one of those asked for is too long. -/
def Outgrows (t : RuleTable) (M n : Int) (start : Word) : Prop :=
  1 ≤ n ∧ t.generation 1 start ≠ t.generation 0 start ∧ ∃ i, i ∈ t.tooLong M n start

theorem expand_of_outgrows {t : RuleTable} {M n : Int} {start : Word}
    (h : t.Outgrows M n start) :
    ∃ i, IsLeast (t.tooLong M n start) i ∧ t.expand (some M) n start = .error ⟨M, i, n⟩ := by
  classical
  obtain ⟨_, hchange, hlong⟩ := h
  obtain ⟨hpos, hle, hover⟩ := Nat.find_spec hlong
  obtain ⟨k, hk⟩ : ∃ k, Nat.find hlong = k + 1 := ⟨Nat.find hlong - 1, by omega⟩
  have hleast : ∀ j, j ∈ t.tooLong M n start → k + 1 ≤ j := fun j hj => hk ▸ Nat.find_min' hlong hj
  rw [hk] at hpos hle hover
  have hbefore : ∀ j, j < k → ((t.generation (j + 1) start).length : Int) ≤ M := by
    intro j hj
    by_contra hlonger
    have := hleast (j + 1) ⟨by omega, by omega, by omega⟩
    omega
  refine ⟨k + 1, ⟨⟨hpos, hle, hover⟩, hleast⟩, ?_⟩
  rw [expand, grow_eq_error hchange (by omega) hover hbefore, Nat.zero_add]

theorem expand_of_not_outgrows {t : RuleTable} {M n : Int} {start : Word}
    (h : ¬ t.Outgrows M n start) :
    t.expand (some M) n start = .ok (t.generation n.toNat start) := by
  by_cases hfixed : t.substitute start = start
  · rw [expand, grow_of_fixed hfixed, generation_of_fixed hfixed]
  · have hshort : ∀ i, 1 ≤ i → i ≤ n.toNat →
        exceeded? (some M) (t.generation i start) = none := by
      intro i hi hle
      by_contra hlonger
      rw [exceeded?_none] at hlonger
      exact h ⟨by omega, hfixed, i, hi, by omega, by omega⟩
    exact grow_eq_ok hshort n 0

theorem eq_start_of_not_outgrows {t : RuleTable} {M n : Int} {start : Word}
    (h : ¬ t.Outgrows M n start) (hlong : M < (t.generation n.toNat start).length) :
    t.generation n.toNat start = start := by
  by_cases hfixed : t.substitute start = start
  · exact generation_of_fixed hfixed _
  · by_cases hn : 1 ≤ n
    · exact absurd ⟨hn, hfixed, n.toNat, by omega, by omega, hlong⟩ h
    · have hzero : n.toNat = 0 := by omega
      rw [hzero]
      rfl

/-- Whatever the limit, a word that expansion gives is the generation asked for. -/
theorem eq_generation_of_expand {t : RuleTable} {limit : Option Int} {n : Int} {start w : Word}
    (h : t.expand limit n start = .ok w) : w = t.generation n.toNat start := by
  cases limit with
  | none => exact (Except.ok.inj ((expand_none t n start).symm.trans h)).symm
  | some M =>
    by_cases hout : t.Outgrows M n start
    · obtain ⟨_, _, hfails⟩ := expand_of_outgrows hout
      cases hfails.symm.trans h
    · exact (Except.ok.inj ((expand_of_not_outgrows hout).symm.trans h)).symm

/-- A failure says which generation is too long if the limit and the number of generations can be
written: the generation is no greater than that number. -/
theorem isReport_of_isLeast {t : RuleTable} {e : Overgrowth} {start : Word}
    (h : IsLeast (t.tooLong e.limit e.iterations start) e.generation) :
    e.isReport = true ↔
      Number.isWritable e.limit = true ∧ Number.isWritable e.iterations = true := by
  rw [Overgrowth.isReport, Bool.and_eq_true, Bool.and_eq_true]
  constructor
  · rintro ⟨⟨hlimit, -⟩, hiterations⟩
    exact ⟨hlimit, hiterations⟩
  · rintro ⟨hlimit, hiterations⟩
    obtain ⟨-, hle, -⟩ := h.1
    exact ⟨⟨hlimit, Number.isWritable_of_natAbs_le (by omega) hiterations⟩, hiterations⟩

/-- How expansion under a limit fails. -/
theorem of_expand_error {t : RuleTable} {M n : Int} {start : Word} {e : Overgrowth}
    (h : t.expand (some M) n start = .error e) :
    t.Outgrows M n start ∧ e.limit = M ∧ IsLeast (t.tooLong M n start) e.generation ∧
      e.iterations = n ∧
      (e.isReport = true ↔ Number.isWritable M = true ∧ Number.isWritable n = true) := by
  have hout : t.Outgrows M n start := by
    by_contra hnot
    cases (expand_of_not_outgrows hnot).symm.trans h
  obtain ⟨i, hleast, hfails⟩ := expand_of_outgrows hout
  obtain rfl := Except.error.inj (hfails.symm.trans h)
  exact ⟨hout, rfl, hleast, rfl, isReport_of_isLeast (e := ⟨M, i, n⟩) hleast⟩

/-- Expansion under a limit fails exactly if the start word changes and a generation asked for is
too long, and it names the first such generation; otherwise it gives the generation asked for. So
only the start word itself comes back longer than the limit. The failure is a report exactly if the
limit and the number of generations have few enough digits for the message. -/
theorem expand_limited (t : RuleTable) (M n : Int) (start : Word) :
    ((∃ e, t.expand (some M) n start = .error e) ↔ t.Outgrows M n start) ∧
      ((∃ e, t.expand (some M) n start = .error e ∧ e.isReport = true) ↔
        t.Outgrows M n start ∧ Number.isWritable M = true ∧ Number.isWritable n = true) ∧
      (∀ e, t.expand (some M) n start = .error e →
        e.limit = M ∧ IsLeast (t.tooLong M n start) e.generation ∧ e.iterations = n ∧
          (e.isReport = false → e.message = Number.tooLong)) ∧
      (¬ t.Outgrows M n start →
        t.expand (some M) n start = .ok (t.generation n.toNat start)) ∧
      ∀ v, t.expand (some M) n start = .ok v → M < v.length → v = start := by
  have hfails : t.Outgrows M n start → ∃ e, t.expand (some M) n start = .error e := by
    intro hout
    obtain ⟨i, -, hexpand⟩ := expand_of_outgrows hout
    exact ⟨_, hexpand⟩
  refine ⟨⟨?_, hfails⟩, ⟨?_, ?_⟩, ?_, expand_of_not_outgrows, ?_⟩
  · rintro ⟨e, he⟩
    exact (of_expand_error he).1
  · rintro ⟨e, he, hreport⟩
    obtain ⟨hout, -, -, -, hsaid⟩ := of_expand_error he
    exact ⟨hout, hsaid.1 hreport⟩
  · rintro ⟨hout, hwritable⟩
    obtain ⟨e, he⟩ := hfails hout
    obtain ⟨-, -, -, -, hsaid⟩ := of_expand_error he
    exact ⟨e, he, hsaid.2 hwritable⟩
  · intro e he
    obtain ⟨-, hlimit, hleast, hiterations, -⟩ := of_expand_error he
    exact ⟨hlimit, hleast, hiterations, Overgrowth.message_of_not_isReport⟩
  · intro v hv hlong
    have hshort : ¬ t.Outgrows M n start := by
      intro hout
      obtain ⟨e, he⟩ := hfails hout
      cases he.symm.trans hv
    obtain rfl := Except.ok.inj ((expand_of_not_outgrows hshort).symm.trans hv)
    exact eq_start_of_not_outgrows hshort hlong

/-- The rule that doubles a word in every generation. -/
def doublingTable : RuleTable := ofList [(['F'], ['F', 'F'])]

/-- A limit below two lets no generation pass. -/
theorem expand_doublingTable {M n : Int} (hM : M < 2) (hn : 1 ≤ n) :
    doublingTable.Outgrows M n ['F'] ∧
      doublingTable.expand (some M) n ['F'] = .error ⟨M, 1, n⟩ := by
  have hfirst : 1 ∈ doublingTable.tooLong M n ['F'] := ⟨le_rfl, hn, hM⟩
  have hout : doublingTable.Outgrows M n ['F'] := ⟨hn, by decide, 1, hfirst⟩
  obtain ⟨i, ⟨hi, hleast⟩, hfails⟩ := expand_of_outgrows hout
  obtain rfl : i = 1 := le_antisymm (hleast hfirst) hi.1
  exact ⟨hout, hfails⟩

/-- A limit below zero that has one digit too many. -/
def unsayableLimit : Int := -(Nat.pow 10 Number.maxIntDigits : Nat)

/-- The first generation is too long, but no message can say so. -/
theorem unsayable_limit_is_no_report :
    doublingTable.Outgrows unsayableLimit 1 ['F'] ∧
      doublingTable.expand (some unsayableLimit) 1 ['F'] = .error ⟨unsayableLimit, 1, 1⟩ ∧
      (Overgrowth.mk unsayableLimit 1 1).isReport = false ∧
      (Overgrowth.mk unsayableLimit 1 1).message = Number.tooLong := by
  have hlow : unsayableLimit ≤ 0 := Int.neg_nonpos_of_nonneg (Int.natCast_nonneg _)
  have hlong : Number.isWritable unsayableLimit = false :=
    Number.isWritable_pow _ ((Int.natAbs_neg _).trans (Int.natAbs_natCast _))
  generalize unsayableLimit = M at hlow hlong ⊢
  have hunsaid : (Overgrowth.mk M 1 1).isReport = false := by
    rw [Overgrowth.isReport, hlong]
    rfl
  obtain ⟨hout, hfails⟩ := expand_doublingTable (M := M) (n := 1) (by omega) le_rfl
  exact ⟨hout, hfails, hunsaid, Overgrowth.message_of_not_isReport hunsaid⟩

/-- The start word may be too long; what counts is the first generation that is, here the one after
a word that had become short enough. -/
example : (ofList [(['A'], []), (['B'], ['C', 'C']), (['C'], ['A', 'B', 'B'])]).expand (some 2) 9
    ['A', 'A', 'B'] = .error ⟨2, 2, 9⟩ := by
  decide

end RuleTable

end Lindenmayer
