import Lindenmayer.Proofs.Expansion.Generations

/-!
# Expansion in parts

The generations of a word can be gone through in two parts, and those of two words put together are
put together of theirs. A limit does not disturb the first of these laws: growth under a limit goes
through the same words in one part or in two, so that it fails in one of the parts exactly if it
fails on the whole, and at the same word. The early end of a part does no harm, since the next part
begins with a word that repeats itself. Only the message is another matter: it holds the number of
generations asked for, which has more digits on the whole than in the parts.
-/
namespace Lindenmayer

/-- The error of a growth that came after `done` other generations and was asked for `iterations` in
all. -/
def Overgrowth.later (e : Overgrowth) (done : Nat) (iterations : Int) : Overgrowth :=
  ⟨e.limit, done + e.generation, iterations⟩

namespace RuleTable

variable (t : RuleTable)

theorem generation_add (m n : Nat) (w : Word) :
    t.generation (m + n) w = t.generation n (t.generation m w) := by
  rw [Nat.add_comm]
  exact Function.iterate_add_apply _ n m w

theorem generation_append (n : Nat) (u v : Word) :
    t.generation n (u ++ v) = t.generation n u ++ t.generation n v := by
  induction n generalizing u v with
  | zero => rfl
  | succ n ih =>
    simp only [generation_succ, substitute_append]
    exact ih _ _

/-- The early end of the first part is an early end of the whole: the second grows no more. -/
theorem grow_add (limit : Option Int) (iterations : Int) (m n done : Nat) (w : Word) :
    t.grow limit iterations (m + n) done w =
      (t.grow limit iterations m done w).bind fun v =>
        t.grow limit iterations n (done + m) v := by
  induction m generalizing done w with
  | zero =>
    rw [Nat.zero_add]
    rfl
  | succ m ih =>
    rw [Nat.succ_add]
    by_cases hfixed : t.substitute w = w
    · rw [grow_of_fixed hfixed, grow_of_fixed hfixed]
      exact (grow_of_fixed hfixed limit iterations n (done + (m + 1))).symm
    · rw [grow, grow, if_neg hfixed, if_neg hfixed]
      cases hlimit : exceeded? limit (t.substitute w) with
      | some M => rfl
      | none =>
        have hdone : done + (m + 1) = done + 1 + m := by omega
        rw [hdone]
        exact ih (done + 1) (t.substitute w)

/-- What is counted besides only appears in the error. -/
theorem grow_later (limit : Option Int) (iterations total : Int) (remaining earlier done : Nat)
    (w : Word) :
    t.grow limit total remaining (earlier + done) w =
      (t.grow limit iterations remaining done w).mapError fun e => e.later earlier total := by
  induction remaining generalizing done w with
  | zero => rfl
  | succ remaining ih =>
    by_cases hfixed : t.substitute w = w
    · rw [grow_of_fixed hfixed, grow_of_fixed hfixed]
      rfl
    · rw [grow, grow, if_neg hfixed, if_neg hfixed]
      cases exceeded? limit (t.substitute w) with
      | some M => rfl
      | none => exact ih (done + 1) (t.substitute w)

/-- Expansion in two parts. The start word of the second part is not measured, and need not be. -/
theorem expand_add (limit : Option Int) (m n : Nat) (start : Word) :
    t.expand limit (m + n : Nat) start =
      match t.expand limit m start with
      | .error e => .error (e.later 0 (m + n : Nat))
      | .ok v => (t.expand limit n v).mapError fun e => e.later m (m + n : Nat) := by
  have hfirst : t.grow limit (m + n : Nat) m 0 start =
      (t.expand limit m start).mapError fun e => e.later 0 (m + n : Nat) :=
    t.grow_later limit m (m + n : Nat) m 0 0 start
  have hsecond : ∀ v, t.grow limit (m + n : Nat) n (0 + m) v =
      (t.expand limit n v).mapError fun e => e.later m (m + n : Nat) := by
    intro v
    rw [Nat.zero_add]
    exact t.grow_later limit n (m + n : Nat) n m 0 v
  have hwhole : t.expand limit (m + n : Nat) start =
      t.grow limit (m + n : Nat) (m + n) 0 start := rfl
  rw [hwhole, grow_add, hfirst]
  cases t.expand limit m start with
  | error e => rfl
  | ok v => exact hsecond v

variable {t}

/-- A higher limit lets pass what a lower one does. -/
theorem Outgrows.of_le {M M' n : Int} {start : Word} (hM : M ≤ M') (h : t.Outgrows M' n start) :
    t.Outgrows M n start := by
  obtain ⟨hn, hchange, i, hi, hle, hlong⟩ := h
  exact ⟨hn, hchange, i, hi, hle, lt_of_le_of_lt hM hlong⟩

theorem expand_of_le {M M' n : Int} {start w : Word} (hM : M ≤ M')
    (h : t.expand (some M) n start = .ok w) : t.expand (some M') n start = .ok w := by
  have hshort : ¬ t.Outgrows M' n start := by
    intro hlong
    obtain ⟨i, -, hfails⟩ := expand_of_outgrows (hlong.of_le hM)
    cases hfails.symm.trans h
  rw [expand_of_not_outgrows hshort, eq_generation_of_expand h]

/-- More generations do not undo a failure. -/
theorem expand_error_of_le {limit : Option Int} {n n' : Nat} {start : Word} {e : Overgrowth}
    (hn : n ≤ n') (h : t.expand limit n start = .error e) :
    t.expand limit n' start = .error (e.later 0 n') := by
  obtain ⟨k, rfl⟩ := Nat.exists_eq_add_of_le hn
  rw [expand_add, h]

/-- On the whole as in the parts, a failure is a report exactly if what it has to say can be
written. -/
theorem isReport_of_expand {M : Int} {k : Nat} {start : Word} {e : Overgrowth}
    (h : t.expand (some M) k start = .error e) :
    (e.isReport = true ↔ Number.isWritable M = true ∧ Number.isWritable k = true) ∧
      (e.isReport = false → e.message = Number.tooLong) := by
  obtain ⟨-, -, -, -, hsaid⟩ := of_expand_error h
  exact ⟨hsaid, Overgrowth.message_of_not_isReport⟩

theorem exists_expand_add_error_iff {M : Int} {m n : Nat} {start : Word} :
    (∃ e, t.expand (some M) (m + n : Nat) start = .error e) ↔
      (∃ e, t.expand (some M) m start = .error e) ∨
        ∃ v e, t.expand (some M) m start = .ok v ∧ t.expand (some M) n v = .error e := by
  rw [expand_add]
  cases hm : t.expand (some M) m start with
  | error e => simp
  | ok v => cases hn : t.expand (some M) n v <;> simp [hn, Except.mapError]

/-- The number of generations on the whole can be written only if those of the parts can. -/
theorem exists_expand_add_report_iff {M : Int} {m n : Nat} {start : Word} :
    (∃ e, t.expand (some M) (m + n : Nat) start = .error e ∧ e.isReport = true) ↔
      Number.isWritable (m + n : Nat) = true ∧
        ((∃ e, t.expand (some M) m start = .error e ∧ e.isReport = true) ∨
          ∃ v e, t.expand (some M) m start = .ok v ∧ t.expand (some M) n v = .error e ∧
            e.isReport = true) := by
  constructor
  · rintro ⟨e, he, hreport⟩
    obtain ⟨hlimit, hwhole⟩ := (isReport_of_expand he).1.1 hreport
    have hpart : ∀ k : Nat, k ≤ m + n → Number.isWritable k = true := fun k hk =>
      Number.isWritable_of_natAbs_le (by omega) hwhole
    refine ⟨hwhole, ?_⟩
    rcases exists_expand_add_error_iff.1 ⟨e, he⟩ with ⟨e', he'⟩ | ⟨v, e', hv, he'⟩
    · exact Or.inl ⟨e', he', (isReport_of_expand he').1.2 ⟨hlimit, hpart m (by omega)⟩⟩
    · exact Or.inr ⟨v, e', hv, he', (isReport_of_expand he').1.2 ⟨hlimit, hpart n (by omega)⟩⟩
  · rintro ⟨hwhole, ⟨e, he, hreport⟩ | ⟨v, e, hv, he, hreport⟩⟩
    · obtain ⟨e', he'⟩ := exists_expand_add_error_iff (n := n).2 (Or.inl ⟨e, he⟩)
      obtain ⟨hlimit, -⟩ := (isReport_of_expand he).1.1 hreport
      exact ⟨e', he', (isReport_of_expand he').1.2 ⟨hlimit, hwhole⟩⟩
    · obtain ⟨e', he'⟩ := exists_expand_add_error_iff.2 (Or.inr ⟨v, e, hv, he⟩)
      obtain ⟨hlimit, -⟩ := (isReport_of_expand he).1.1 hreport
      exact ⟨e', he', (isReport_of_expand he').1.2 ⟨hlimit, hwhole⟩⟩

/-- Generations and words may be taken in parts: the words of `m` and then of `n` generations are
those of `m + n`, and two words that stand side by side expand side by side. Under a limit, a growth
fails exactly if one of its two parts does, a higher limit changes nothing that the lower one lets
pass, and more generations fail where fewer do. All of this is reported, unless the limit or the
number of generations on the whole has too many digits. -/
theorem expand_composes (t : RuleTable) (a b : Word) (m n : Nat) :
    (∃ v w, t.expand none m a = .ok v ∧ t.expand none n v = .ok w ∧
      t.expand none (m + n : Nat) a = .ok w) ∧
    (∃ u v, t.expand none n a = .ok u ∧ t.expand none n b = .ok v ∧
      t.expand none n (a ++ b) = .ok (u ++ v)) ∧
    ∀ M : Int,
      ((∃ e, t.expand (some M) (m + n : Nat) a = .error e) ↔
        (∃ e, t.expand (some M) m a = .error e) ∨
          ∃ v e, t.expand (some M) m a = .ok v ∧ t.expand (some M) n v = .error e) ∧
      ((∃ e, t.expand (some M) (m + n : Nat) a = .error e ∧ e.isReport = true) ↔
        Number.isWritable (m + n : Nat) = true ∧
          ((∃ e, t.expand (some M) m a = .error e ∧ e.isReport = true) ∨
            ∃ v e, t.expand (some M) m a = .ok v ∧ t.expand (some M) n v = .error e ∧
              e.isReport = true)) ∧
      (∀ v w, t.expand (some M) m a = .ok v → t.expand (some M) n v = .ok w →
        t.expand (some M) (m + n : Nat) a = .ok w) ∧
      (∀ w, t.expand (some M) n a = .ok w → ∀ M', M ≤ M' → t.expand (some M') n a = .ok w) ∧
      (∀ e, t.expand (some M) n a = .error e → ∀ n' : Nat, n ≤ n' →
        ∃ e', t.expand (some M) n' a = .error e' ∧ e'.generation = e.generation) ∧
      ∀ (k : Nat) (w : Word) (e : Overgrowth), t.expand (some M) k w = .error e →
        (e.isReport = true ↔ Number.isWritable M = true ∧ Number.isWritable k = true) ∧
          (e.isReport = false → e.message = Number.tooLong) := by
  refine ⟨?_, ?_, fun M => ⟨exists_expand_add_error_iff, exists_expand_add_report_iff, ?_, ?_, ?_,
    fun _ _ _ => isReport_of_expand⟩⟩
  · refine ⟨_, _, expand_none t m a, expand_none t n _, ?_⟩
    rw [expand_none]
    exact congrArg Except.ok (t.generation_add m n a)
  · refine ⟨_, _, expand_none t n a, expand_none t n b, ?_⟩
    rw [expand_none]
    exact congrArg Except.ok (t.generation_append n a b)
  · intro v w hm hn
    rw [expand_add, hm]
    exact congrArg (Except.mapError _) hn
  · intro w hw M' hM
    exact expand_of_le hM hw
  · intro e he n' hn
    exact ⟨_, expand_error_of_le hn he, Nat.zero_add e.generation⟩

/-- The least number of generations that has too many digits. -/
def unsayableCount : Nat := Nat.pow 10 Number.maxIntDigits

/-- One generation is reported to be too long, but so many are not: they fail at the same word
without saying so. -/
theorem unsayable_count_is_no_report :
    doublingTable.expand (some 0) 1 ['F'] = .error ⟨0, 1, 1⟩ ∧
      (Overgrowth.mk 0 1 1).isReport = true ∧ 1 ≤ unsayableCount ∧
      doublingTable.expand (some 0) unsayableCount ['F'] = .error ⟨0, 1, unsayableCount⟩ ∧
      (Overgrowth.mk 0 1 unsayableCount).isReport = false ∧
      (Overgrowth.mk 0 1 unsayableCount).message = Number.tooLong := by
  have hpow : ∀ d, 1 ≤ Nat.pow 10 d := fun d => Nat.pow_pos (by decide)
  have hpos : 1 ≤ unsayableCount := by
    unfold unsayableCount
    exact hpow Number.maxIntDigits
  have hlong : Number.isWritable unsayableCount = false := by
    unfold unsayableCount
    exact Number.isWritable_pow _ (Int.natAbs_natCast _)
  generalize unsayableCount = n at hpos hlong ⊢
  have hunsaid : (Overgrowth.mk 0 1 n).isReport = false := by
    rw [Overgrowth.isReport, hlong, Bool.and_false]
  obtain ⟨-, hone⟩ := expand_doublingTable (M := 0) (n := 1) (by decide) le_rfl
  obtain ⟨-, hmany⟩ := expand_doublingTable (M := 0) (n := n) (by decide) (by omega)
  exact ⟨hone, by decide +kernel, hpos, hmany, hunsaid, Overgrowth.message_of_not_isReport hunsaid⟩

/-- The second part fails after the generations of the first. -/
example : (ofList [(['F'], ['F', 'F'])]).expand (some 8) 2 ['F'] = .ok ['F', 'F', 'F', 'F'] ∧
    (ofList [(['F'], ['F', 'F'])]).expand (some 8) 2 ['F', 'F', 'F', 'F'] = .error ⟨8, 2, 2⟩ ∧
    (ofList [(['F'], ['F', 'F'])]).expand (some 8) 4 ['F'] = .error ⟨8, 4, 4⟩ := by
  decide

end RuleTable

end Lindenmayer
