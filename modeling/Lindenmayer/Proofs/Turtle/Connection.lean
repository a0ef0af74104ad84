import Lindenmayer.Proofs.Turtle.Counting
import Mathlib.Data.List.Basic

/-!
# Connected drawings

A turtle only stands at the origin and at ends of segments, and so do the poses it has saved. Every
segment therefore begins at the origin or where an earlier one ends. The turtle leaves the end of
the segment it drew last only for a saved pose, and for that a closing bracket has to find its
partner: without such a bracket between them, two segments that follow each other are joined. All
this is exact, however the ends were rounded.
-/
namespace Lindenmayer

namespace Word

/-- The word ends inside a group: only a balanced word follows some opening bracket of it. A closing
bracket that comes next finds its partner in that one. -/
def EndsInGroup (w : Word) : Prop := ∃ u s, w = u ++ '[' :: s ∧ IsBalanced s

instance (w : Word) : Decidable w.EndsInGroup :=
  decidable_of_iff (∃ n < w.length, w[n]? = some '[' ∧ IsBalanced (w.drop (n + 1))) <| by
    constructor
    · rintro ⟨n, hn, hbracket, hs⟩
      refine ⟨w.take n, w.drop (n + 1), ?_, hs⟩
      rw [List.getElem?_eq_getElem hn, Option.some.injEq] at hbracket
      rw [← hbracket, ← List.drop_eq_getElem_cons hn, List.take_append_drop]
    · rintro ⟨u, s, rfl, hs⟩
      exact ⟨u.length, by simp, by simp, by simpa using hs⟩

/-- The end of the word lies in `depth` groups, each inside the one before. -/
def Nests : (depth : Nat) → Word → Prop
  | 0, _ => True
  | depth + 1, w => ∃ u s, w = u ++ '[' :: s ∧ IsBalanced s ∧ Nests depth u

variable {depth : Nat} {c : Char} {w : Word}

theorem Nests.endsInGroup (h : w.Nests (depth + 1)) : w.EndsInGroup := by
  obtain ⟨u, s, hw, hs, -⟩ := h
  exact ⟨u, s, hw, hs⟩

theorem Nests.opened (h : w.Nests depth) : Nests (depth + 1) (w ++ ['[']) :=
  ⟨w, [], rfl, isBalanced_nil, h⟩

theorem Nests.plain (h : w.Nests depth) (plain : c ≠ '[' ∧ c ≠ ']') : Nests depth (w ++ [c]) := by
  cases depth with
  | zero => trivial
  | succ depth =>
    obtain ⟨u, s, rfl, hs, hu⟩ := h
    exact ⟨u, s ++ [c], by simp, hs.append (isBalanced_singleton plain), hu⟩

/-- The group that ends becomes a part of the one around it. -/
theorem Nests.closed (h : w.Nests (depth + 1)) : Nests depth (w ++ [']']) := by
  obtain ⟨u, s, rfl, hs, hu⟩ := h
  cases depth with
  | zero => trivial
  | succ depth =>
    obtain ⟨u, s', rfl, hs', hu⟩ := hu
    exact ⟨u, s' ++ '[' :: (s ++ [']']), by simp, hs'.append hs.enclose, hu⟩

end Word

namespace Turtle

/-- The turtle and the poses it has saved are at these points. -/
structure StandsAt (known : List Point) (t : Turtle) : Prop where
  position : t.pose.position ∈ known
  saved : ∀ pose ∈ t.saved, pose.position ∈ known

variable {pen : Pen} {c : Char} {u w : Word} {s t t' : Turtle} {known : List Point}
  {drawn more : List Segment}

theorem standsAt_initial : StandsAt [origin] initial :=
  ⟨List.mem_singleton_self origin, nofun⟩

/-- A step that leaves a segment leads to its end. Any other stays, or goes to a saved pose. -/
theorem Obeys.standsAt (h : Obeys pen c t drawn t') (ht : StandsAt known t) :
    StandsAt (known ++ drawn.map Segment.finish) t' := by
  cases h with
  | opened => exact ⟨by simpa using ht.position, by simpa using ⟨ht.position, ht.saved⟩⟩
  | closed pose top saved =>
    obtain ⟨htop, hsaved⟩ := List.forall_mem_cons.1 ht.saved
    exact ⟨by simpa using htop, by simpa using hsaved⟩
  | surplus => simpa using ht
  | stayed saved plain unmarked position =>
    exact ⟨by simpa [position] using ht.position, by simpa using ht.saved⟩
  | drew pose pose' saved plain marked =>
    exact ⟨by simp, fun p hp => List.mem_append_left _ (ht.saved p hp)⟩

/-- The points where segments end, and the one where the first may begin. -/
def reached (drawn : List Segment) : List Point := origin :: drawn.map Segment.finish

theorem reached_append (drawn more : List Segment) :
    reached (drawn ++ more) = reached drawn ++ more.map Segment.finish := by
  simp [reached]

theorem Leads.standsAt (h : Leads pen initial w drawn t) : StandsAt (reached drawn) t := by
  induction h with
  | start => exact standsAt_initial
  | next before step ih =>
    rw [reached_append]
    exact step.standsAt ih

theorem Obeys.drawn_cases (h : Obeys pen c t drawn t') :
    drawn = [] ∨ drawn = [⟨t.pose.position, t'.pose.position⟩] := by
  cases h with
  | opened | closed | surplus | stayed => exact Or.inl rfl
  | drew => exact Or.inr rfl

/-- Every segment begins at a point that had been reached before. -/
theorem Leads.start_mem (h : Leads pen initial w drawn t) {before after : List Segment}
    {s : Segment} (hdrawn : drawn = before ++ s :: after) : s.start ∈ reached before := by
  induction h generalizing after with
  | start => simp at hdrawn
  | @next w drawn t c more t' earlier step ih =>
    rcases step.drawn_cases with rfl | rfl
    · rw [List.append_nil] at hdrawn
      exact ih hdrawn
    · rcases List.eq_nil_or_concat after with rfl | ⟨after, last, rfl⟩
      · obtain ⟨rfl, hlast⟩ := List.append_inj' hdrawn rfl
        obtain rfl := List.singleton_inj.1 hlast
        exact earlier.standsAt.position
      · have hsplit : before ++ s :: (after ++ [last]) = (before ++ s :: after) ++ [last] := by simp
        rw [List.concat_eq_append, hsplit] at hdrawn
        exact ih (List.append_inj' hdrawn rfl).1

theorem Obeys.segment_eq {s : Segment} (h : Obeys pen c t [s] t') :
    s = ⟨t.pose.position, t'.pose.position⟩ :=
  List.singleton_inj.1 (h.drawn_cases.resolve_left (List.cons_ne_nil s []))

theorem Leads.trans (h : Leads pen s u drawn t) (h' : Leads pen t w more t') :
    Leads pen s (u ++ w) (drawn ++ more) t' := by
  induction h' with
  | start =>
    rw [List.append_nil, List.append_nil]
    exact h
  | next before step ih =>
    rw [← List.append_assoc, ← List.append_assoc]
    exact .next ih step

/-- As many poses are saved as there are groups around the end of the word. -/
theorem Leads.nests (h : Leads pen initial w drawn t) : w.Nests t.saved.length := by
  induction h with
  | start => trivial
  | next before step ih =>
    cases step with
    | opened => exact ih.opened
    | closed => exact ih.closed
    | surplus => trivial
    | stayed saved plain => exact ih.plain plain
    | drew pose pose' saved plain => exact ih.plain plain

/-- While nothing is drawn, only a closing bracket that finds its partner takes the turtle away. -/
theorem Leads.position_eq {v : Word} (h : Leads pen initial u drawn t) (h' : Leads pen t v more t')
    (hmore : more = []) (hclose : ∀ p q, v = p ++ ']' :: q → ¬ (u ++ p).EndsInGroup) :
    t'.pose.position = t.pose.position := by
  induction h' with
  | start => rfl
  | @next v more t' c last t'' before step ih =>
    obtain ⟨rfl, rfl⟩ := List.append_eq_nil_iff.1 hmore
    have hback : t'.pose.position = t.pose.position := by
      apply ih rfl
      intro p q hv
      apply hclose p (q ++ [c])
      simp [hv]
    cases step with
    | opened => exact hback
    | closed pose top saved =>
      -- The saved pose stands for a group, in which the bracket has its partner.
      have hnests : (u ++ v).Nests (saved.length + 1) := (h.trans before).nests
      exact absurd hnests.endsInGroup (hclose v [] rfl)
    | surplus => exact hback
    | stayed saved plain unmarked position => exact position.trans hback

variable {step : Numeric} {turn : Float}

theorem trace_append_iff {v : Word} {t'' : Turtle}
    (hu : trace step turn pen u t = .ok (drawn, t')) :
    trace step turn pen (u ++ v) t = .ok (drawn ++ more, t'') ↔
      trace step turn pen v t' = .ok (more, t'') := by
  rw [trace_append, Draws.andThen_of_ok hu]
  cases trace step turn pen v t' with
  | error e => simp [Except.map]
  | ok r => simp [Except.map, Prod.ext_iff]

/-- Every segment is drawn by a symbol of the word. -/
theorem exists_of_trace {before after : List Segment} {r : Segment}
    (h : trace step turn pen w t = .ok (drawn, t')) (hdrawn : drawn = before ++ r :: after) :
    ∃ u x v t₁ t₂, w = u ++ x :: v ∧ trace step turn pen u t = .ok (before, t₁) ∧
      obey step turn pen x t₁ = .ok ([r], t₂) ∧ trace step turn pen v t₂ = .ok (after, t') := by
  induction w generalizing t before drawn with
  | nil =>
    cases h
    simp at hdrawn
  | cons c w ih =>
    rw [trace] at h
    obtain ⟨first, t₁, rest, hc, hw, rfl⟩ := Draws.andThen_eq_ok_iff.1 h
    -- Where the segment is not that of `c`, its symbol is found behind `c`.
    have later : ∀ front, before = first ++ front → rest = front ++ r :: after →
        ∃ u x v t₁ t₂, c :: w = u ++ x :: v ∧ trace step turn pen u t = .ok (before, t₁) ∧
          obey step turn pen x t₁ = .ok ([r], t₂) ∧
          trace step turn pen v t₂ = .ok (after, t') := by
      rintro front rfl hrest
      obtain ⟨u, x, v, t₂, t₃, rfl, hu, hx, hv⟩ := ih hw hrest
      refine ⟨c :: u, x, v, t₂, t₃, rfl, ?_, hx, hv⟩
      rw [trace]
      exact Draws.andThen_eq_ok_iff.2 ⟨first, t₁, front, hc, hu, rfl⟩
    rcases (obeys_of_obey hc).drawn_cases with rfl | rfl
    · exact later before rfl hdrawn
    · cases before with
      | nil =>
        obtain ⟨rfl, rfl⟩ := List.cons.inj hdrawn
        exact ⟨[], c, w, t, t₁, rfl, rfl, hc, hw⟩
      | cons q front =>
        obtain ⟨rfl, hrest⟩ := List.cons.inj hdrawn
        exact later front rfl hrest

end Turtle

namespace Word

section

variable (step angle : Numeric) (pen : Pen)

/-- Behind the word `u` the symbol `x` draws the segment `s`, when those of `before` are there. -/
structure Leaves (u : Word) (x : Char) (before : List Segment) (s : Segment) : Prop where
  without : u.walk step angle pen = .ok before
  complete : walk (u ++ [x]) step angle pen = .ok (before ++ [s])

/-- In the word `w` the symbols `x` and `y` draw the segments `r` and `s`, one right after the
other, and `v` stands between them. -/
structure DrawsInTurn (w u : Word) (x : Char) (v : Word) (y : Char) (before : List Segment)
    (r s : Segment) : Prop where
  beginning : u ++ x :: (v ++ [y]) <+: w
  first : Leaves step angle pen u x before r
  second : Leaves step angle pen (u ++ x :: v) y (before ++ [r]) s

end

variable {step angle : Numeric} {pen : Pen} {u v w : Word} {x y : Char}
  {before after segments : List Segment} {r s : Segment}

theorem leaves_iff {degrees : Float} (hangle : angle.toFloat? = some degrees) :
    Leaves step angle pen u x before s ↔
      ∃ t t', Turtle.trace step (degrees * pi / 180) pen u Turtle.initial = .ok (before, t) ∧
        Turtle.obey step (degrees * pi / 180) pen x t = .ok ([s], t') := by
  constructor
  · rintro ⟨hwithout, hcomplete⟩
    obtain ⟨t, ht⟩ := (walk_eq_ok_iff hangle).1 hwithout
    obtain ⟨t', ht'⟩ := (walk_eq_ok_iff hangle).1 hcomplete
    rw [Turtle.trace_append_iff ht, Turtle.trace_singleton] at ht'
    exact ⟨t, t', ht, ht'⟩
  · rintro ⟨t, t', ht, hx⟩
    rw [← Turtle.trace_singleton, ← Turtle.trace_append_iff ht] at hx
    exact ⟨(walk_eq_ok_iff hangle).2 ⟨t, ht⟩, (walk_eq_ok_iff hangle).2 ⟨t', hx⟩⟩

theorem exists_drawsInTurn (h : w.walk step angle pen = .ok (before ++ r :: s :: after)) :
    ∃ u x v y, DrawsInTurn step angle pen w u x v y before r s := by
  obtain ⟨degrees, hangle⟩ := exists_degrees_of_walk h
  obtain ⟨last, htrace⟩ := (walk_eq_ok_iff hangle).1 h
  obtain ⟨u, x, rest, t₁, t₂, rfl, hu, hx, hrest⟩ := Turtle.exists_of_trace htrace rfl
  have hsecond : s :: after = [] ++ s :: after := rfl
  obtain ⟨v, y, z, t₃, t₄, rfl, hv, hy, -⟩ := Turtle.exists_of_trace hrest hsecond
  refine ⟨u, x, v, y, ⟨z, by simp⟩, (leaves_iff hangle).2 ⟨t₁, t₂, hu, hx⟩,
    (leaves_iff hangle).2 ⟨t₃, t₄, ?_, hy⟩⟩
  rw [← Turtle.trace_singleton] at hx
  rw [Turtle.trace_append_iff hu]
  exact (Turtle.trace_append_iff hx).2 hv

/-- Between the two symbols the turtle stays at the end of the first segment, unless a closing
bracket finds its partner. -/
theorem DrawsInTurn.start_eq (h : DrawsInTurn step angle pen w u x v y before r s)
    (hclose : ∀ p q, v = p ++ ']' :: q → ¬ EndsInGroup (u ++ x :: p)) : s.start = r.finish := by
  obtain ⟨-, hfirst, hsecond⟩ := h
  obtain ⟨degrees, hangle⟩ := exists_degrees_of_walk hfirst.without
  obtain ⟨t₁, t₂, hu, hx⟩ := (leaves_iff hangle).1 hfirst
  obtain ⟨t₃, t₄, hv, hy⟩ := (leaves_iff hangle).1 hsecond
  have hright : Turtle.trace step (degrees * pi / 180) pen (u ++ [x]) Turtle.initial =
      .ok (before ++ [r], t₂) := by
    rw [Turtle.trace_append_iff hu, Turtle.trace_singleton]
    exact hx
  rw [List.append_cons, ← List.append_nil (before ++ [r]), Turtle.trace_append_iff hright] at hv
  have hstay : t₃.pose.position = t₂.pose.position := by
    apply (Turtle.leads_of_trace hright).position_eq (Turtle.leads_of_trace hv) rfl
    intro p q hpq
    rw [← List.append_cons]
    exact hclose p q hpq
  rw [(Turtle.obeys_of_obey hx).segment_eq, (Turtle.obeys_of_obey hy).segment_eq]
  exact hstay

end Word

/-- Every segment begins at the origin or where an earlier one ends. Of two that follow each other,
the second begins where the first ends if no closing bracket between the symbols that drew them has
a partner. -/
theorem drawing_connected {w : Word} {step angle : Numeric} {pen : Pen} {segments : List Segment}
    (h : w.walk step angle pen = .ok segments) :
    (∀ before s after, segments = before ++ s :: after →
      s.start = origin ∨ ∃ r ∈ before, s.start = r.finish) ∧
    ∀ before r s after, segments = before ++ r :: s :: after →
      (∃ u x v y, Word.DrawsInTurn step angle pen w u x v y before r s) ∧
      ∀ u x v y, Word.DrawsInTurn step angle pen w u x v y before r s →
        (∀ p q, v = p ++ ']' :: q → ¬ Word.EndsInGroup (u ++ x :: p)) → s.start = r.finish := by
  constructor
  · intro before s after hsplit
    obtain ⟨turn, t, htrace⟩ := Word.exists_trace_of_walk h
    have hmem : s.start ∈ Turtle.reached before := (Turtle.leads_of_trace htrace).start_mem hsplit
    rcases List.mem_cons.1 hmem with horigin | hend
    · exact Or.inl horigin
    · obtain ⟨r, hr, hfinish⟩ := List.mem_map.1 hend
      exact Or.inr ⟨r, hr, hfinish.symm⟩
  · rintro before r s after rfl
    exact ⟨Word.exists_drawsInTurn h, fun u x v y hturn hclose => hturn.start_eq hclose⟩

/-- The first closing bracket has a partner and the second has none, so the last segment begins
where the one before it ends. -/
theorem surplus_bracket_keeps_end :
    ¬ Word.EndsInGroup ['[', 'F', ']', 'F'] ∧ ∃ q r s,
      Word.walk ['[', 'F', ']', 'F', ']', '-', 'F'] (.real 10) (.real 90) .letters =
        .ok [q, r, s] ∧ (r.start = origin ∨ r.start = q.finish) ∧ s.start = r.finish := by
  have hclosed : ¬ Word.EndsInGroup ['[', 'F', ']', 'F'] := by decide
  have hdraws : (Word.walk ['[', 'F', ']', 'F', ']', '-', 'F'] (.real 10) (.real 90)
      .letters).isOk = true := by decide +kernel
  obtain ⟨segments, h⟩ := exists_ok_of_isOk hdraws
  obtain ⟨q, r, s, rfl⟩ := List.length_eq_three.1 (Word.length_of_walk h)
  obtain ⟨hstart, hnext⟩ := drawing_connected h
  have hturn : Word.DrawsInTurn (.real 10) (.real 90) .letters
      ['[', 'F', ']', 'F', ']', '-', 'F'] ['[', 'F', ']'] 'F' [']', '-'] 'F' [q] r s := by
    refine ⟨List.prefix_rfl, ⟨?_, ?_⟩, ⟨?_, ?_⟩⟩
    · exact Word.walk_take h ⟨_, rfl⟩
    · exact Word.walk_take h ⟨_, rfl⟩
    · exact Word.walk_take h ⟨_, rfl⟩
    · exact Word.walk_take h List.prefix_rfl
  refine ⟨hclosed, q, r, s, h, ?_, (hnext [q] r s [] rfl).2 _ _ _ _ hturn ?_⟩
  · simpa using hstart [q] r [s] rfl
  · intro p p' hp
    cases p with
    | nil => exact hclosed
    | cons c p =>
      have hmem : ']' ∈ ['-'] := by
        rw [(List.cons.inj hp).2]
        simp
      exact absurd hmem (by decide)

end Lindenmayer
