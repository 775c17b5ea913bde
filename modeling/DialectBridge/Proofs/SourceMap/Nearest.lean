import DialectBridge.SourceMap.Lookup
import Mathlib.Data.List.Basic

/-!
# The nearest mapping

A host line without mappings borrows one from a line at most two lines away.  The lines are tried in
a fixed order; what comes out is the line at the least distance, and of two lines at the same
distance the one below.

* `mem_neighbours`, `pairwise_neighbours` — which lines are tried, and in which order;
* `IsNearest`, `exists_isNearest_of_nearest`, `IsNearest.unique` — the line that is borrowed from;
* `toDialect_eq_ok_iff` — a range becomes the dialect lines between those of its two ends;
* `nearest_by_distance` — all of this together.
-/

namespace DialectBridge

/-- A range of whole lines of a text: from the start of the first of the lines `a` and `b` to the end
of the last of them.  The length of a line is cut to the 32 bits of a column. -/
structure Range.Spans (text : List Char) (a b : UInt32) (r : Range) : Prop where
  ordered : r.start.line ≤ r.stop.line
  covers : ∀ row ∈ [a, b], r.start.line ≤ row ∧ row ≤ r.stop.line
  start_mem : r.start.line ∈ [a, b]
  stop_mem : r.stop.line ∈ [a, b]
  start_column : r.start.character = 0
  stop_column : r.stop.character = UInt32.ofNat (Text.lineLength text r.stop.line.toNat)

namespace SourceMap

/-- How far apart two lines are. -/
def distance (j k : UInt32) : Nat :=
  ((j.toNat : Int) - k.toNat).natAbs

/-- The map has mappings on a line; line numbers have 32 bits. -/
def Populated (m : SourceMap) (k : UInt32) : Prop :=
  ∃ columns, m.line? k.toNat = some columns ∧ columns ≠ []

/-- There is a line with mappings at most two lines away. -/
def HasNeighbour (m : SourceMap) (n : UInt32) : Prop :=
  ∃ k, m.Populated k ∧ distance k n ≤ 2

/-- Line `k` is the one that line `n` borrows from: the nearest that has mappings, and of two lines
equally near the one below. -/
structure IsNearest (m : SourceMap) (n k : UInt32) : Prop where
  populated : m.Populated k
  near : distance k n ≤ 2
  least : ∀ j, m.Populated j → distance k n ≤ distance j n
  below : ∀ j, m.Populated j → distance j n = distance k n → j ≤ k

variable {m : SourceMap} {n k : UInt32} {c : ColumnMapping}

/-! ## The order of the lines -/

/-- Line `j` is tried ahead of line `k`: it is nearer to line `n`, or below it at the same
distance. -/
def TriedAhead (n j k : Nat) : Prop :=
  ((j : Int) - n).natAbs < ((k : Int) - n).natAbs ∨
    ((j : Int) - n).natAbs = ((k : Int) - n).natAbs ∧ k < j

theorem mem_atDistance {n d k : Nat} : k ∈ atDistance n d ↔ ((k : Int) - n).natAbs = d := by
  unfold atDistance
  split
  · rw [List.mem_singleton]
    omega
  · split <;> simp only [List.mem_cons, List.not_mem_nil, or_false] <;> omega

theorem pairwise_atDistance (n d : Nat) : (atDistance n d).Pairwise (TriedAhead n) := by
  unfold atDistance TriedAhead
  split
  · exact List.pairwise_singleton _ _
  · split
    · rw [List.pairwise_pair]
      omega
    · exact List.pairwise_singleton _ _

theorem mem_neighbours {k : Nat} :
    k ∈ neighbours n ↔ k < UInt32.size ∧ ((k : Int) - n.toNat).natAbs ≤ 2 := by
  simp only [neighbours, neighbourhood, List.mem_filter, List.mem_flatMap, List.mem_range,
    mem_atDistance, decide_eq_true_eq, exists_eq_right', Nat.lt_succ_iff]
  exact and_comm

/-- **The lines are tried by their distance**, and those below first. -/
theorem pairwise_neighbours (n : UInt32) : (neighbours n).Pairwise (TriedAhead n.toNat) := by
  refine List.Pairwise.filter _ (List.pairwise_flatMap.mpr ⟨fun d _ => pairwise_atDistance _ d, ?_⟩)
  refine List.pairwise_lt_range.imp fun {d e} hlt => ?_
  intro j hj k hk
  rw [mem_atDistance] at hj hk
  exact .inl (by omega)

theorem toNat_mem_neighbours : k.toNat ∈ neighbours n ↔ distance k n ≤ 2 := by
  rw [mem_neighbours, distance]
  exact and_iff_right k.toNat_lt

/-! ## The line that is borrowed from -/

theorem populated_iff : m.Populated k ↔ ∃ c, m.first? k.toNat = some c := by
  unfold Populated first?
  cases m.line? k.toNat with
  | none => simp
  | some columns => cases columns <;> simp

theorem IsNearest.unique {j : UInt32} (hj : m.IsNearest n j) (hk : m.IsNearest n k) : j = k := by
  have hsame : distance j n = distance k n :=
    Nat.le_antisymm (hj.least k hk.populated) (hk.least j hj.populated)
  exact UInt32.le_antisymm (hk.below j hj.populated hsame) (hj.below k hk.populated hsame.symm)

/-- The first hit among things in order comes ahead of all others. -/
theorem findSome?_of_pairwise {α β : Type} {R : α → α → Prop} {f : α → Option β} {xs : List α} {b : β}
    (hxs : xs.Pairwise R) (h : xs.findSome? f = some b) :
    ∃ a ∈ xs, f a = some b ∧ ∀ x ∈ xs, f x ≠ none → x = a ∨ R a x := by
  obtain ⟨before, a, after, rfl, ha, hbefore⟩ := List.findSome?_eq_some_iff.mp h
  refine ⟨a, by simp, ha, fun x hx hfx => ?_⟩
  rcases List.mem_append.mp hx with hx | hx
  · exact absurd (hbefore x hx) hfx
  · rcases List.mem_cons.mp hx with rfl | hx
    · exact .inl rfl
    · exact .inr (List.rel_of_pairwise_cons (List.pairwise_append.mp hxs).2.1 hx)

/-- **What is found is the first mapping of the nearest line.** -/
theorem exists_isNearest_of_nearest (h : m.nearest n = .ok c) :
    ∃ k, m.IsNearest n k ∧ m.first? k.toNat = some c := by
  unfold nearest at h
  cases hfound : (neighbours n).findSome? m.first? with
  | none => simp [hfound] at h
  | some found =>
    simp only [hfound, Except.ok.injEq] at h
    subst h
    obtain ⟨i, hi, hfirst, hahead⟩ := findSome?_of_pairwise (pairwise_neighbours n) hfound
    obtain ⟨hsize, hnear⟩ := mem_neighbours.mp hi
    obtain ⟨k, rfl⟩ : ∃ k : UInt32, k.toNat = i := ⟨.ofNat i, UInt32.toNat_ofNat_of_lt' hsize⟩
    -- lines that are not tried are farther away than those that are
    have hothers : ∀ j, m.Populated j → distance j n ≤ 2 →
        j = k ∨ TriedAhead n.toNat k.toNat j.toNat := by
      intro j hj hdistance
      obtain ⟨d, hd⟩ := populated_iff.mp hj
      refine (hahead j.toNat (toNat_mem_neighbours.mpr hdistance) (by simp [hd])).imp_left ?_
      exact UInt32.toNat_inj.mp
    refine ⟨k, ⟨populated_iff.mpr ⟨_, hfirst⟩, hnear, fun j hj => ?_, fun j hj hsame => ?_⟩, hfirst⟩
    · by_cases hdistance : distance j n ≤ 2
      · rcases hothers j hj hdistance with rfl | hahead
        · exact Nat.le_refl _
        · unfold TriedAhead at hahead
          unfold distance
          omega
      · unfold distance at hdistance ⊢
        omega
    · rcases hothers j hj (hsame ▸ hnear) with rfl | hahead
      · exact UInt32.le_refl _
      · unfold TriedAhead at hahead
        unfold distance at hsame
        rw [UInt32.le_iff_toNat_le]
        omega

theorem exists_nearest_of_hasNeighbour (h : m.HasNeighbour n) : ∃ c, m.nearest n = .ok c := by
  obtain ⟨k, hk, hdistance⟩ := h
  obtain ⟨d, hd⟩ := populated_iff.mp hk
  cases hfound : (neighbours n).findSome? m.first? with
  | none =>
    rw [List.findSome?_eq_none_iff] at hfound
    rw [hfound _ (toNat_mem_neighbours.mpr hdistance)] at hd
    cases hd
  | some found => exact ⟨found, by simp [nearest, hfound]⟩

theorem exists_nearest_iff : (∃ c, m.nearest n = .ok c) ↔ m.HasNeighbour n := by
  refine ⟨?_, exists_nearest_of_hasNeighbour⟩
  rintro ⟨c, hc⟩
  obtain ⟨k, hk, -⟩ := exists_isNearest_of_nearest hc
  exact ⟨k, hk.populated, hk.near⟩

theorem nearest_eq_ok_iff :
    m.nearest n = .ok c ↔ ∃ k, m.IsNearest n k ∧ m.first? k.toNat = some c := by
  refine ⟨exists_isNearest_of_nearest, ?_⟩
  rintro ⟨k, hk, hfirst⟩
  obtain ⟨d, hd⟩ := exists_nearest_of_hasNeighbour ⟨k, hk.populated, hk.near⟩
  obtain ⟨j, hj, hfirst'⟩ := exists_isNearest_of_nearest hd
  obtain rfl := hj.unique hk
  rw [hd, Option.some.inj (hfirst'.symm.trans hfirst)]

theorem nearest_eq_error_iff {miss : MappingMiss} :
    m.nearest n = .error miss ↔ ¬m.HasNeighbour n ∧ miss = ⟨n⟩ := by
  rw [← exists_nearest_iff, nearest]
  cases (neighbours n).findSome? m.first? with
  | none => simp [eq_comm]
  | some c => simp

/-- What is found depends on the lines that are near. -/
theorem nearest_congr {other : SourceMap}
    (h : ∀ k, distance k n ≤ 2 → m.line? k.toNat = other.line? k.toNat) :
    m.nearest n = other.nearest n := by
  have hsame : (neighbours n).findSome? m.first? = (neighbours n).findSome? other.first? := by
    rw [← List.head?_filterMap, ← List.head?_filterMap]
    refine congrArg List.head? (List.filterMap_congr fun i hi => ?_)
    obtain ⟨k, rfl⟩ : ∃ k : UInt32, k.toNat = i :=
      ⟨.ofNat i, UInt32.toNat_ofNat_of_lt' (mem_neighbours.mp hi).1⟩
    rw [first?, first?, h k (toNat_mem_neighbours.mp hi)]
  rw [nearest, nearest, hsame]

/-! ## Ranges -/

variable {a b : Position} {text : List Char} {r : Range} {x y : UInt32}

theorem spans_comm : r.Spans text x y ↔ r.Spans text y x := by
  have hpair (row : UInt32) : row ∈ [x, y] ↔ row ∈ [y, x] := by
    rw [List.mem_pair, List.mem_pair, or_comm]
  constructor <;> rintro ⟨hordered, hcovers, hstart, hstop, hfirst, hlast⟩
  · exact ⟨hordered, fun row hrow => hcovers row ((hpair row).mpr hrow), (hpair _).mp hstart,
      (hpair _).mp hstop, hfirst, hlast⟩
  · exact ⟨hordered, fun row hrow => hcovers row ((hpair row).mp hrow), (hpair _).mpr hstart,
      (hpair _).mpr hstop, hfirst, hlast⟩

/-- The range of two lines in order. -/
theorem spans_iff_of_le (h : x ≤ y) :
    r.Spans text x y ↔ r = ⟨⟨x, 0⟩, ⟨y, UInt32.ofNat (Text.lineLength text y.toNat)⟩⟩ := by
  constructor
  · rintro ⟨-, hcovers, hstart, hstop, hfirst, hlast⟩
    obtain ⟨⟨first, column⟩, ⟨last, width⟩⟩ := r
    simp only at hcovers hstart hstop hfirst hlast
    obtain rfl : first = x := by
      rcases List.mem_pair.mp hstart with hx | hy
      · exact hx
      · exact UInt32.le_antisymm (hcovers x (by simp)).1 (hy ▸ h)
    obtain rfl : last = y := by
      rcases List.mem_pair.mp hstop with hx | hy
      · exact UInt32.le_antisymm (hx ▸ h) (hcovers y (by simp)).2
      · exact hy
    rw [hfirst, hlast]
  · rintro rfl
    refine ⟨h, fun row hrow => ?_, by simp, by simp, rfl, rfl⟩
    rcases List.mem_pair.mp hrow with rfl | rfl
    · exact ⟨UInt32.le_refl _, h⟩
    · exact ⟨h, UInt32.le_refl _⟩

theorem toDialect_of_ok {c d : ColumnMapping} (hc : m.nearest a.line = .ok c)
    (hd : m.nearest b.line = .ok d) :
    m.toDialect ⟨a, b⟩ text = .ok r ↔ r.Spans text c.dialectLine d.dialectLine := by
  have hrange : m.toDialect ⟨a, b⟩ text =
      .ok ⟨⟨min c.dialectLine d.dialectLine, 0⟩,
        ⟨max c.dialectLine d.dialectLine,
          UInt32.ofNat (Text.lineLength text (max c.dialectLine d.dialectLine).toNat)⟩⟩ := by
    simp only [toDialect, hc, hd]
    rfl
  rw [hrange, Except.ok.injEq, eq_comm]
  by_cases hle : c.dialectLine ≤ d.dialectLine
  · have hmin : min c.dialectLine d.dialectLine = c.dialectLine := if_pos hle
    have hmax : max c.dialectLine d.dialectLine = d.dialectLine := if_pos hle
    rw [hmin, hmax, spans_iff_of_le hle]
  · have hmin : min c.dialectLine d.dialectLine = d.dialectLine := if_neg hle
    have hmax : max c.dialectLine d.dialectLine = c.dialectLine := if_neg hle
    rw [hmin, hmax, spans_comm, spans_iff_of_le ((UInt32.le_total _ _).resolve_left hle)]

/-- **A range becomes the dialect lines between those of its two ends.** -/
theorem toDialect_eq_ok_iff :
    m.toDialect ⟨a, b⟩ text = .ok r ↔
      ∃ c d, m.nearest a.line = .ok c ∧ m.nearest b.line = .ok d ∧
        r.Spans text c.dialectLine d.dialectLine := by
  constructor
  · intro h
    cases hc : m.nearest a.line with
    | error miss =>
      simp only [toDialect, hc] at h
      cases h
    | ok c =>
      cases hd : m.nearest b.line with
      | error miss =>
        simp only [toDialect, hc, hd] at h
        cases h
      | ok d => exact ⟨c, d, rfl, rfl, (toDialect_of_ok hc hd).mp h⟩
  · rintro ⟨c, d, hc, hd, hspans⟩
    exact (toDialect_of_ok hc hd).mpr hspans

theorem exists_spans (text : List Char) (x y : UInt32) : ∃ r : Range, r.Spans text x y := by
  rcases UInt32.le_total x y with hle | hle
  · exact ⟨_, (spans_iff_of_le hle).mpr rfl⟩
  · exact ⟨_, spans_comm.mp ((spans_iff_of_le hle).mpr rfl)⟩

/-- **The nearest mapping, and ranges by the mappings nearest to their ends.**

1. A mapping is found for a host line if and only if a line with mappings is at most two lines away.
2. It is the first mapping of the line that is nearest, of two lines equally near the one below.
3. Otherwise the line is told as one without a mapping.
4. A range comes from the dialect text if and only if there is such a line for both of its ends.
5. It becomes the dialect lines from the first to the last of those of the two mappings, with all of
   their columns.
6. It becomes the same if its ends are swapped.
7. Lines of the map more than two lines away from both of its ends play no part. -/
theorem nearest_by_distance (m : SourceMap) :
    (∀ n, (∃ c, m.nearest n = .ok c) ↔ m.HasNeighbour n) ∧
    (∀ n c, m.nearest n = .ok c ↔ ∃ k, m.IsNearest n k ∧ m.first? k.toNat = some c) ∧
    (∀ n miss, m.nearest n = .error miss ↔ ¬m.HasNeighbour n ∧ miss = ⟨n⟩) ∧
    ∀ (a b : Position) (text : List Char),
      ((∃ r, m.toDialect ⟨a, b⟩ text = .ok r) ↔
        m.HasNeighbour a.line ∧ m.HasNeighbour b.line) ∧
      (∀ r, m.toDialect ⟨a, b⟩ text = .ok r ↔
        ∃ c d, m.nearest a.line = .ok c ∧ m.nearest b.line = .ok d ∧
          r.Spans text c.dialectLine d.dialectLine) ∧
      (∀ r, m.toDialect ⟨a, b⟩ text = .ok r ↔ m.toDialect ⟨b, a⟩ text = .ok r) ∧
      ∀ other : SourceMap,
        (∀ k, distance k a.line ≤ 2 ∨ distance k b.line ≤ 2 →
          m.line? k.toNat = other.line? k.toNat) →
        m.toDialect ⟨a, b⟩ text = other.toDialect ⟨a, b⟩ text := by
  refine ⟨fun _ => exists_nearest_iff, fun _ _ => nearest_eq_ok_iff, fun _ _ => nearest_eq_error_iff,
    fun a b text => ⟨?_, fun _ => toDialect_eq_ok_iff, fun r => ?_, fun other hother => ?_⟩⟩
  · rw [← exists_nearest_iff, ← exists_nearest_iff]
    constructor
    · rintro ⟨r, hr⟩
      obtain ⟨c, d, hc, hd, -⟩ := toDialect_eq_ok_iff.mp hr
      exact ⟨⟨c, hc⟩, d, hd⟩
    · rintro ⟨⟨c, hc⟩, d, hd⟩
      obtain ⟨r, hr⟩ := exists_spans text c.dialectLine d.dialectLine
      exact ⟨r, toDialect_eq_ok_iff.mpr ⟨c, d, hc, hd, hr⟩⟩
  · rw [toDialect_eq_ok_iff, toDialect_eq_ok_iff]
    constructor
    · rintro ⟨c, d, hc, hd, hr⟩
      exact ⟨d, c, hd, hc, spans_comm.mp hr⟩
    · rintro ⟨d, c, hd, hc, hr⟩
      exact ⟨c, d, hc, hd, spans_comm.mp hr⟩
  · have ha : m.nearest a.line = other.nearest a.line :=
      nearest_congr fun k hk => hother k (.inl hk)
    have hb : m.nearest b.line = other.nearest b.line :=
      nearest_congr fun k hk => hother k (.inr hk)
    rw [toDialect, toDialect, ha, hb]

/-- A line between two lines with mappings borrows from the one below, although its dialect line comes
first; a range that ends there is the same in a map that goes on differently. -/
theorem nearest_by_distance_between :
    let m : SourceMap := ⟨[[⟨0, 1, 4⟩], [], [⟨2, 0, 0⟩, ⟨9, 7, 7⟩], [], [⟨0, 3, 0⟩]]⟩
    let other : SourceMap := ⟨[[⟨0, 1, 4⟩], [], [⟨2, 0, 0⟩, ⟨9, 7, 7⟩], []]⟩
    let text := "x = 1\ny = '😀'\r\n".toList
    (∃ k, m.IsNearest 1 k ∧ m.first? k.toNat = some ⟨2, 0, 0⟩) ∧
    m.toDialect ⟨⟨0, 3⟩, ⟨1, 0⟩⟩ text = .ok ⟨⟨0, 0⟩, ⟨1, 8⟩⟩ ∧
    m.toDialect ⟨⟨1, 0⟩, ⟨0, 3⟩⟩ text = .ok ⟨⟨0, 0⟩, ⟨1, 8⟩⟩ ∧
    other.toDialect ⟨⟨0, 3⟩, ⟨1, 0⟩⟩ text = .ok ⟨⟨0, 0⟩, ⟨1, 8⟩⟩ := by
  intro m other text
  obtain ⟨-, hnearest, -, hrange⟩ := nearest_by_distance m
  obtain ⟨-, hspans, hswap, hother⟩ := hrange ⟨0, 3⟩ ⟨1, 0⟩ text
  have hfound : m.nearest 1 = .ok ⟨2, 0, 0⟩ := by decide
  have hspan : Range.Spans text 1 0 ⟨⟨0, 0⟩, ⟨1, 8⟩⟩ :=
    { ordered := by decide
      covers := List.forall_mem_cons.mpr ⟨by decide, List.forall_mem_singleton.mpr (by decide)⟩
      start_mem := by decide
      stop_mem := by decide
      start_column := rfl
      stop_column := by decide }
  have hrange : m.toDialect ⟨⟨0, 3⟩, ⟨1, 0⟩⟩ text = .ok ⟨⟨0, 0⟩, ⟨1, 8⟩⟩ :=
    (hspans _).mpr ⟨⟨0, 1, 4⟩, ⟨2, 0, 0⟩, by decide, hfound, hspan⟩
  have hagree : ∀ k, distance k 0 ≤ 2 ∨ distance k 1 ≤ 2 → m.line? k.toNat = other.line? k.toNat := by
    intro k hk
    have hlines : k.toNat = 0 ∨ k.toNat = 1 ∨ k.toNat = 2 ∨ k.toNat = 3 := by
      simp only [distance, UInt32.toNat_zero, UInt32.toNat_one] at hk
      omega
    rcases hlines with h | h | h | h <;> rw [h] <;> rfl
  exact ⟨(hnearest 1 _).mp hfound, hrange, (hswap _).mp hrange, hother other hagree ▸ hrange⟩

end SourceMap

end DialectBridge
