import Lindenmayer.Proofs.Number.Order
import Lindenmayer.Turtle.Box
import Mathlib.Data.Sym.Sym2
import Mathlib.Order.Bounds.Basic

/-!
# The box around a drawing

The box of some segments with finite coordinates is the least one around their end points: as exact
numbers its sides are the least and the greatest coordinates. So it does not matter in which order
the segments are drawn or from which end, and the box of two drawings together comes of their boxes.
-/
namespace Lindenmayer

/-! ### Exact points and boxes -/

/-- The coordinates stand for these numbers. -/
def Point.StandsFor (p : Point) (w : ℚ × ℚ) : Prop :=
  Number.StandsFor p.x w.1 ∧ Number.StandsFor p.y w.2

theorem Point.StandsFor.unique {p : Point} {w w' : ℚ × ℚ} (h : p.StandsFor w)
    (h' : p.StandsFor w') : w = w' :=
  Prod.ext (h.1.unique h'.1) (h.2.unique h'.2)

/-- The numbers that the coordinates of some points stand for. -/
def exactPoints (points : List Point) : Set (ℚ × ℚ) := {w | ∃ p ∈ points, p.StandsFor w}

structure ExactBox where
  xmin : ℚ
  ymin : ℚ
  xmax : ℚ
  ymax : ℚ

namespace ExactBox

def ofPoint (w : ℚ × ℚ) : ExactBox := ⟨w.1, w.2, w.1, w.2⟩

/-- The least box around two boxes. -/
def join (v w : ExactBox) : ExactBox :=
  ⟨min v.xmin w.xmin, min v.ymin w.ymin, max v.xmax w.xmax, max v.ymax w.ymax⟩

/-- No point lies outside, and there is one on each side. -/
structure IsTight (v : ExactBox) (points : Set (ℚ × ℚ)) : Prop where
  xmin : IsLeast (Prod.fst '' points) v.xmin
  ymin : IsLeast (Prod.snd '' points) v.ymin
  xmax : IsGreatest (Prod.fst '' points) v.xmax
  ymax : IsGreatest (Prod.snd '' points) v.ymax

variable {v w : ExactBox} {points others : Set (ℚ × ℚ)}

theorem isTight_ofPoint (w : ℚ × ℚ) : (ofPoint w).IsTight {w} := by
  constructor <;> rw [Set.image_singleton]
  · exact isLeast_singleton
  · exact isLeast_singleton
  · exact isGreatest_singleton
  · exact isGreatest_singleton

theorem IsTight.union (hv : v.IsTight points) (hw : w.IsTight others) :
    (v.join w).IsTight (points ∪ others) := by
  constructor <;> rw [Set.image_union]
  · exact hv.xmin.union hw.xmin
  · exact hv.ymin.union hw.ymin
  · exact hv.xmax.union hw.xmax
  · exact hv.ymax.union hw.ymax

theorem IsTight.unique (hv : v.IsTight points) (hw : w.IsTight points) : v = w := by
  obtain ⟨⟩ := v
  obtain ⟨⟩ := w
  rw [mk.injEq]
  exact ⟨hv.xmin.unique hw.xmin, hv.ymin.unique hw.ymin, hv.xmax.unique hw.xmax,
    hv.ymax.unique hw.ymax⟩

end ExactBox

/-! ### The least and the greatest of doubles -/

section Extremes

variable {a b : Float} {p q : ℚ}

theorem lesser_cases (ha : a.isNaN = false) (hb : b.isNaN = false) :
    a < b ∧ lesser a b = a ∨ ¬ a < b ∧ lesser a b = b := by
  rw [lesser, ha, hb, if_neg Bool.false_ne_true, if_neg Bool.false_ne_true]
  by_cases hlt : a < b
  · exact Or.inl ⟨hlt, if_pos hlt⟩
  · exact Or.inr ⟨hlt, if_neg hlt⟩

theorem greater_cases (ha : a.isNaN = false) (hb : b.isNaN = false) :
    b < a ∧ greater a b = a ∨ ¬ b < a ∧ greater a b = b := by
  rw [greater, ha, hb, if_neg Bool.false_ne_true, if_neg Bool.false_ne_true]
  by_cases hlt : b < a
  · exact Or.inl ⟨hlt, if_pos hlt⟩
  · exact Or.inr ⟨hlt, if_neg hlt⟩

theorem standsFor_lesser (ha : Number.StandsFor a p) (hb : Number.StandsFor b q) :
    Number.StandsFor (lesser a b) (min p q) := by
  obtain ⟨hlt, heq⟩ | ⟨hnot, heq⟩ := lesser_cases ha.isNaN_eq_false hb.isNaN_eq_false <;> rw [heq]
  · rwa [min_eq_left ((ha.lt_iff hb).1 hlt).le]
  · rwa [min_eq_right (not_lt.1 (mt (ha.lt_iff hb).2 hnot))]

theorem standsFor_greater (ha : Number.StandsFor a p) (hb : Number.StandsFor b q) :
    Number.StandsFor (greater a b) (max p q) := by
  obtain ⟨hlt, heq⟩ | ⟨hnot, heq⟩ := greater_cases ha.isNaN_eq_false hb.isNaN_eq_false <;> rw [heq]
  · rwa [max_eq_left ((hb.lt_iff ha).1 hlt).le]
  · rwa [max_eq_right (not_lt.1 (mt (hb.lt_iff ha).2 hnot))]

end Extremes

namespace Box

/-- The sides stand for those of the exact box. -/
structure StandsFor (b : Box) (v : ExactBox) : Prop where
  xmin : Number.StandsFor b.xmin v.xmin
  ymin : Number.StandsFor b.ymin v.ymin
  xmax : Number.StandsFor b.xmax v.xmax
  ymax : Number.StandsFor b.ymax v.ymax

variable {b : Box} {v : ExactBox} {p : Point} {w : ℚ × ℚ} {points : List Point}

theorem StandsFor.unique {v' : ExactBox} (h : b.StandsFor v) (h' : b.StandsFor v') : v = v' := by
  obtain ⟨⟩ := v
  obtain ⟨⟩ := v'
  rw [ExactBox.mk.injEq]
  exact ⟨h.xmin.unique h'.xmin, h.ymin.unique h'.ymin, h.xmax.unique h'.xmax,
    h.ymax.unique h'.ymax⟩

theorem standsFor_ofPoint (hp : p.StandsFor w) : (ofPoint p).StandsFor (.ofPoint w) :=
  ⟨hp.1, hp.2, hp.1, hp.2⟩

theorem StandsFor.extend (hb : b.StandsFor v) (hp : p.StandsFor w) :
    (b.extend p).StandsFor (v.join (.ofPoint w)) :=
  ⟨standsFor_lesser hb.xmin hp.1, standsFor_lesser hb.ymin hp.2, standsFor_greater hb.xmax hp.1,
    standsFor_greater hb.ymax hp.2⟩

theorem exactPoints_cons (hp : p.StandsFor w) (points : List Point) :
    exactPoints (p :: points) = {w} ∪ exactPoints points := by
  ext w'
  simp only [exactPoints, Set.mem_ofPred_eq, List.exists_mem_cons_iff, Set.mem_union,
    Set.mem_singleton_iff]
  refine or_congr_left ⟨fun h => h.unique hp, ?_⟩
  rintro rfl
  exact hp

/-- A tight box stays tight when it is extended point by point. -/
theorem exists_foldl_extend {seen : Set (ℚ × ℚ)} (hb : b.StandsFor v) (hv : v.IsTight seen)
    (hpoints : ∀ p ∈ points, ∃ w, p.StandsFor w) :
    ∃ v', (points.foldl extend b).StandsFor v' ∧ v'.IsTight (seen ∪ exactPoints points) := by
  induction points generalizing b v seen with
  | nil =>
    refine ⟨v, hb, ?_⟩
    have hnone : exactPoints [] = ∅ := by simp [exactPoints]
    rwa [hnone, Set.union_empty]
  | cons p points ih =>
    obtain ⟨⟨w, hp⟩, hrest⟩ := List.forall_mem_cons.1 hpoints
    rw [exactPoints_cons hp, ← Set.union_assoc]
    exact ih (hb.extend hp) (hv.union (ExactBox.isTight_ofPoint w)) hrest

theorem exists_ofPoints (hne : points ≠ []) (hpoints : ∀ p ∈ points, ∃ w, p.StandsFor w) :
    ∃ v, (ofPoints points).StandsFor v ∧ v.IsTight (exactPoints points) := by
  cases points with
  | nil => exact absurd rfl hne
  | cons p points =>
    obtain ⟨⟨w, hp⟩, hrest⟩ := List.forall_mem_cons.1 hpoints
    rw [exactPoints_cons hp]
    exact exists_foldl_extend (standsFor_ofPoint hp) (ExactBox.isTight_ofPoint w) hrest

end Box

/-! ### Segments in rows, and their boxes -/

namespace Segment

def IsFinite (s : Segment) : Prop := ∀ x ∈ s.numbers, x.isFinite = true

instance (s : Segment) : Decidable s.IsFinite :=
  inferInstanceAs (Decidable (∀ x ∈ s.numbers, x.isFinite = true))

/-- The segment without its direction. -/
def undirected (s : Segment) : Sym2 Point := s(s.start, s.finish)

/-- The end points, each in a row of its two numbers. -/
def endRows (segments : List Segment) : List (List Float) :=
  (segments.flatMap ends).map fun p => [p.x, p.y]

/-- The table holds these rows of doubles. -/
def Tabulates (table : List (List Numeric)) (rows : List (List Float)) : Prop :=
  table.map (·.map Numeric.toFloat?) = rows.map (·.map some)

/-- The array holds a table for each segment, with a row for each of its ends. -/
def Stacks (array : List (List (List Numeric))) (segments : List Segment) : Prop :=
  List.Forall₂ (fun table s => Tabulates table (endRows [s])) array segments

theorem Stacks.tabulates {array : List (List (List Numeric))} {segments : List Segment}
    (h : Stacks array segments) : Tabulates array.flatten (endRows segments) := by
  induction h with
  | nil => rfl
  | @cons table s array segments htable _ ih =>
    have hrows : endRows (s :: segments) = endRows [s] ++ endRows segments := rfl
    rw [Tabulates, List.flatten_cons, hrows, List.map_append, List.map_append, htable, ih]

theorem ofNumbers?_numbers (segments : List Segment) :
    ofNumbers? (segments.flatMap numbers) = some segments := by
  induction segments with
  | nil => rfl
  | cons s rest ih =>
    change (ofNumbers? (rest.flatMap numbers)).map _ = _
    rw [ih]
    rfl

theorem isEven_of_length {α : Type} {n : Nat} {rows : List (List α)}
    (h : ∀ row ∈ rows, row.length = n) : isEven rows = true := by
  cases rows with
  | nil => rfl
  | cons row rest =>
    obtain ⟨hrow, hrest⟩ := List.forall_mem_cons.1 h
    rw [isEven, List.all_eq_true]
    intro other hother
    rw [hrest other hother, hrow, beq_self_eq_true]

theorem Tabulates.isEven {table : List (List Numeric)} {rows : List (List Float)} {n : Nat}
    (h : Tabulates table rows) (hrows : ∀ row ∈ rows, row.length = n) : isEven table = true := by
  refine isEven_of_length (n := n) fun row hrow => ?_
  have hmem := List.mem_map_of_mem (f := (·.map Numeric.toFloat?)) hrow
  rw [h] at hmem
  obtain ⟨floats, hfloats, heq⟩ := List.mem_map.1 hmem
  have hlength := congrArg List.length heq
  rw [List.length_map, List.length_map] at hlength
  rw [← hlength, hrows floats hfloats]

theorem mapM_eq_some {α β : Type} {f : α → Option β} {l : List α} {r : List β}
    (h : l.map f = r.map some) : l.mapM f = some r := by
  induction l generalizing r with
  | nil =>
    cases r with
    | nil => rfl
    | cons b r => cases h
  | cons a l ih =>
    cases r with
    | nil => cases h
    | cons b r =>
      obtain ⟨hb, hrest⟩ := List.cons.inj h
      rw [List.mapM_cons, hb, ih hrest]
      rfl

theorem Tabulates.mapM_flatten {table : List (List Numeric)} {rows : List (List Float)}
    (h : Tabulates table rows) : table.flatten.mapM Numeric.toFloat? = some rows.flatten := by
  refine mapM_eq_some ?_
  rw [List.map_flatten, List.map_flatten]
  exact congrArg List.flatten h

theorem flatten_endRows (segments : List Segment) :
    (endRows segments).flatten = segments.flatMap numbers := by
  induction segments with
  | nil => rfl
  | cons s rest ih =>
    change s.start.x :: s.start.y :: s.finish.x :: s.finish.y :: (endRows rest).flatten = _
    rw [ih]
    rfl

/-- Segments are read from rows of four numbers, and from an array of their end points. -/
theorem ofTable_of_tabulates {table : List (List Numeric)} {segments : List Segment}
    (h : Tabulates table (segments.map numbers) ∨
      ∃ array, Stacks array segments ∧ array.flatten = table) :
    ofTable table = .ok segments := by
  have hread {rows : List (List Float)} {n : Nat} (ht : Tabulates table rows)
      (hlength : ∀ row ∈ rows, row.length = n)
      (hflatten : rows.flatten = segments.flatMap numbers) : ofTable table = .ok segments := by
    rw [ofTable, ht.isEven hlength, ht.mapM_flatten, hflatten]
    dsimp only
    rw [ofNumbers?_numbers]
    rfl
  rcases h with h | ⟨array, harray, rfl⟩
  · refine hread (n := 4) h ?_ (List.flatMap_def ..).symm
    intro row hrow
    obtain ⟨s, -, rfl⟩ := List.mem_map.1 hrow
    rfl
  · refine hread (n := 2) harray.tabulates ?_ (flatten_endRows segments)
    intro row hrow
    obtain ⟨p, -, rfl⟩ := List.mem_map.1 hrow
    rfl

variable {segments other : List Segment}

theorem exists_standsFor (hfinite : ∀ s ∈ segments, s.IsFinite) :
    ∀ p ∈ segments.flatMap ends, ∃ w, p.StandsFor w := by
  intro p hp
  obtain ⟨s, hs, hp⟩ := List.mem_flatMap.1 hp
  have hcoords : p.x ∈ s.numbers ∧ p.y ∈ s.numbers := by
    rcases List.mem_pair.1 hp with rfl | rfl <;> simp [numbers]
  obtain ⟨x, hx⟩ := Number.isFinite_iff_exists_standsFor.1 (hfinite s hs p.x hcoords.1)
  obtain ⟨y, hy⟩ := Number.isFinite_iff_exists_standsFor.1 (hfinite s hs p.y hcoords.2)
  exact ⟨(x, y), hx, hy⟩

/-- Which end points there are does not depend on the order of the segments or on their
directions. -/
theorem mem_ends_iff_of_perm (h : (other.map undirected).Perm (segments.map undirected))
    {p : Point} : p ∈ other.flatMap ends ↔ p ∈ segments.flatMap ends := by
  have hends (l : List Segment) : p ∈ l.flatMap ends ↔ ∃ u ∈ l.map undirected, p ∈ u := by
    simp [ends, undirected]
  rw [hends, hends]
  exact exists_congr fun u => and_congr_left' h.mem_iff

end Segment

namespace Box

open Segment

variable {segments other : List Segment}

theorem flatMap_ends_ne_nil (hne : segments ≠ []) : segments.flatMap ends ≠ [] := by
  obtain ⟨s, rest, rfl⟩ := List.exists_cons_of_ne_nil hne
  exact List.cons_ne_nil _ _

theorem exists_ofSegments (hne : segments ≠ []) (hfinite : ∀ s ∈ segments, s.IsFinite) :
    ∃ v, (ofSegments segments).StandsFor v ∧ v.IsTight (exactPoints (segments.flatMap ends)) :=
  exists_ofPoints (flatMap_ends_ne_nil hne) (exists_standsFor hfinite)

/-- The box depends on the end points only, whatever segments they are the ends of. -/
theorem standsFor_of_perm (hne : segments ≠ []) (hfinite : ∀ s ∈ segments, s.IsFinite)
    (hperm : (other.map undirected).Perm (segments.map undirected)) {v : ExactBox}
    (htight : v.IsTight (exactPoints (segments.flatMap ends))) :
    (ofSegments other).StandsFor v := by
  have hmem {p : Point} : p ∈ other.flatMap ends ↔ p ∈ segments.flatMap ends :=
    mem_ends_iff_of_perm hperm
  have hother : other ≠ [] := by
    rintro rfl
    exact hne (List.map_eq_nil_iff.1 hperm.nil_eq.symm)
  have hsame : exactPoints (other.flatMap ends) = exactPoints (segments.flatMap ends) := by
    ext w
    exact exists_congr fun p => and_congr_left' hmem
  obtain ⟨v', hv', htight'⟩ := exists_ofPoints (flatMap_ends_ne_nil hother) fun p hp =>
    exists_standsFor hfinite p (hmem.1 hp)
  rw [hsame] at htight'
  rwa [htight.unique htight']

/-- The box of two lists of segments joins their boxes. -/
theorem standsFor_append (hne : segments ≠ []) (hfinite : ∀ s ∈ segments, s.IsFinite)
    (hother : other ≠ []) (hfinite' : ∀ s ∈ other, s.IsFinite) {v w : ExactBox}
    (hv : v.IsTight (exactPoints (segments.flatMap ends))) (hw : (ofSegments other).StandsFor w) :
    (ofSegments (segments ++ other)).StandsFor (v.join w) := by
  obtain ⟨w', hw', htight⟩ := exists_ofSegments hother hfinite'
  obtain rfl := hw.unique hw'
  obtain ⟨u, hu, htight'⟩ := exists_ofSegments (List.append_ne_nil_of_left_ne_nil hne other)
    (List.forall_mem_append.2 ⟨hfinite, hfinite'⟩)
  have hunion : exactPoints ((segments ++ other).flatMap ends) =
      exactPoints (segments.flatMap ends) ∪ exactPoints (other.flatMap ends) := by
    ext q
    simp only [exactPoints, List.flatMap_append, List.mem_append, Set.mem_ofPred_eq, Set.mem_union,
      or_and_right, exists_or]
  rw [hunion] at htight'
  rwa [(hv.union htight).unique htight']

/-- The box of segments with finite coordinates, given as rows of four numbers or as the array of
their end points, is the tight box around the end points. Another order of the segments, or another
direction of some, gives a box with the same sides, and the box of two lists one after the other has
the lesser and the greater of their sides. -/
theorem tight_around_ends (segments : List Segment) (hne : segments ≠ [])
    (hfinite : ∀ s ∈ segments, s.IsFinite) :
    (∀ table, (Tabulates table (segments.map Segment.numbers) ∨
      ∃ array, Stacks array segments ∧ array.flatten = table) → ofTable table = .ok segments) ∧
    ∃ v, (ofSegments segments).StandsFor v ∧
      v.IsTight (exactPoints (segments.flatMap ends)) ∧
      (∀ other, (other.map undirected).Perm (segments.map undirected) →
        (ofSegments other).StandsFor v) ∧
      ∀ other w, other ≠ [] → (∀ s ∈ other, s.IsFinite) → (ofSegments other).StandsFor w →
        (ofSegments (segments ++ other)).StandsFor (v.join w) := by
  refine ⟨fun _ => ofTable_of_tabulates, ?_⟩
  obtain ⟨v, hv, htight⟩ := exists_ofSegments hne hfinite
  refine ⟨v, hv, htight, ?_, ?_⟩
  · exact fun other hperm => standsFor_of_perm hne hfinite hperm htight
  · exact fun other w hother hfinite' hw => standsFor_append hne hfinite hother hfinite' htight hw

/-- Two segments, of which neither reaches all sides of their box. -/
def crossing : List Segment := [⟨⟨0, 5⟩, ⟨10, -2⟩⟩, ⟨⟨3, 8⟩, ⟨7, 1⟩⟩]

theorem crossing_box :
    (ofSegments crossing).StandsFor ⟨0, -2, 10, 8⟩ ∧
      ExactBox.IsTight ⟨0, -2, 10, 8⟩ (exactPoints (crossing.flatMap ends)) ∧
      (ofSegments [⟨⟨7, 1⟩, ⟨3, 8⟩⟩, ⟨⟨0, 5⟩, ⟨10, -2⟩⟩]).StandsFor ⟨0, -2, 10, 8⟩ := by
  have hvalues : (ofSegments crossing).StandsFor ⟨0, -2, 10, 8⟩ := by
    refine ⟨⟨⟨false, 0, -1074⟩, by decide +kernel, ?_⟩,
      ⟨⟨true, 2 ^ 52, -51⟩, by decide +kernel, ?_⟩,
      ⟨⟨false, 5 * 2 ^ 50, -49⟩, by decide +kernel, ?_⟩,
      ⟨⟨false, 2 ^ 52, -49⟩, by decide +kernel, ?_⟩⟩
    all_goals norm_num [Number.Dyadic.toRat]
  obtain ⟨-, v, hv, htight, hperm, -⟩ := tight_around_ends crossing (by decide) (by decide +kernel)
  obtain rfl := hvalues.unique hv
  refine ⟨hvalues, htight, hperm _ ?_⟩
  have hturned : undirected ⟨⟨7, 1⟩, ⟨3, 8⟩⟩ = undirected ⟨⟨3, 8⟩, ⟨7, 1⟩⟩ := Sym2.eq_swap
  rw [crossing, List.map_cons, hturned]
  exact .swap _ _ _

end Box

end Lindenmayer
