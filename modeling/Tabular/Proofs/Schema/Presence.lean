import Tabular.Proofs.Schema.Cover
import Tabular.Proofs.Schema.Unification

/-!
# Maps that every row has

A map column is never null just where every row of the schema has a map there. The schema counts
these rows; room for a requested path counts none.

* **`countAt_foldl_hold`**: room for requested paths leaves all counts as they are;
* `AgreesInAll`, **`countAt_ofRows_eq_length_iff`**: a path that is counted at every row;
* **`isMap_record_iff`**: the rows whose records have a map at the path of a map column;
* `nullable_eq_false`, **`nullable_eq_false_iff`**: the columns that are never null.
-/

namespace Tabular

open Tabular.Field (Agrees)

/-! ## Room for a path counts no row -/

namespace Shape

variable {rows : List Row} {row : Row} {path : Path} {ss : List Shape} {i : Nat}

theorem seen_mapShapes (g : List Shape → List Shape) (s : Shape) :
    (s.mapShapes g).seen = s.seen := by
  cases s <;> rfl

theorem countAt_nil (path : Path) : countAt path [] = 0 := by
  rw [countAt, find?_nil]
  rfl

theorem countAt_of_kindAt_eq_none (h : kindAt path ss = none) : countAt path ss = 0 := by
  rw [countAt, Option.map_eq_none_iff.mp h]
  rfl

/-- A path is counted where its first name leads. -/
theorem countAt_cons (n : String) (rest : Path) (ss : List Shape) :
    countAt (n :: rest) ss =
      if rest = [] then seenBefore (named? n ss) else countAt rest (inner (named? n ss)) := by
  rw [countAt, find?_cons]
  split <;> rfl

/-- A shape without a sighting, over shapes without one. -/
theorem countAt_singleton {s : Shape} (hs : s.seen = 0) (h : ∀ rest, countAt rest s.shapes = 0)
    (path : Path) : countAt path [s] = 0 := by
  cases path with
  | nil => rfl
  | cons n rest =>
    rw [countAt_cons, named?_cons]
    by_cases hn : s.name = n
    · rw [if_pos hn]
      split
      · exact hs
      · exact h rest
    · rw [if_neg hn]
      split
      · rfl
      · exact countAt_nil rest

theorem countAt_empty (requested path : Path) : countAt path (empty requested) = 0 := by
  induction requested generalizing path with
  | nil => exact countAt_nil path
  | cons m more ih =>
    cases more with
    | nil => exact countAt_singleton (s := .scalar m 0) rfl countAt_nil path
    | cons k more => exact countAt_singleton (s := .map m 0 (empty (k :: more))) rfl ih path

theorem countAt_hold (requested path : Path) (ss : List Shape) :
    countAt path (hold requested ss) = countAt path ss := by
  induction requested generalizing path ss with
  | nil => rfl
  | cons m more ih =>
    cases path with
    | nil => rfl
    | cons n rest =>
      rw [hold]
      cases hm : named? m ss with
      | none =>
        cases hn : named? n ss with
        | none =>
          have hnew := countAt_empty (m :: more) (n :: rest)
          rw [countAt_cons] at hnew
          rw [countAt_cons, countAt_cons, named?_append_of_none hn, hnew, hn]
          split
          · rfl
          · exact (countAt_nil rest).symm
        | some s => rw [countAt_cons, countAt_cons, named?_append_of_some hn, hn]
      | some s =>
        by_cases hnm : n = m
        · subst hnm
          rw [countAt_cons, countAt_cons, named?_change_self _ (by simp), hm]
          split
          · exact seen_mapShapes _ s
          · cases s with
            | scalar k seen => rfl
            | map k seen inner => exact ih rest inner
        · rw [countAt_cons, countAt_cons, named?_change_of_ne hnm _ (by simp)]

/-- **Room for requested paths counts no row.** -/
theorem countAt_foldl_hold (paths : List Path) (path : Path) (ss : List Shape) :
    countAt path (paths.foldl (fun ss path => hold path ss) ss) = countAt path ss := by
  induction paths generalizing ss with
  | nil => rfl
  | cons requested rest ih => rw [List.foldl_cons, ih, countAt_hold]

/-! ## Paths that are counted at every row -/

end Shape

/-- The path agrees in each row with the rows before it. -/
def AgreesInAll (rows : List Row) (path : Path) : Prop :=
  ∀ i row, rows[i]? = some row → Agrees (registered (rows.take i)) row.fields path

theorem agreesInAll_concat {rows : List Row} {row : Row} {path : Path} :
    AgreesInAll (rows ++ [row]) path ↔
      AgreesInAll rows path ∧ Agrees (registered rows) row.fields path := by
  constructor
  · intro h
    constructor
    · intro i r hi
      have hr := h i r (getElem?_concat_iff.mpr (Or.inl hi))
      rwa [List.take_append_of_le_length (Nat.le_of_lt (lt_length_of_getElem? hi))] at hr
    · have hr := h rows.length row (getElem?_concat_iff.mpr (Or.inr ⟨rfl, rfl⟩))
      rwa [List.take_left] at hr
  · rintro ⟨hrows, hrow⟩ i r hi
    rcases getElem?_concat_iff.mp hi with hi | ⟨rfl, rfl⟩
    · rw [List.take_append_of_le_length (Nat.le_of_lt (lt_length_of_getElem? hi))]
      exact hrows i r hi
    · rw [List.take_left]
      exact hrow

namespace Shape

variable {rows : List Row} {path : Path}

/-- **A path is counted once for each row in which it agrees.** -/
theorem countAt_ofRows_eq_length_iff (hr : Row.AllRegular rows) (hp : path ≠ []) :
    countAt path (ofRows rows) ≤ rows.length ∧
      (countAt path (ofRows rows) = rows.length ↔ AgreesInAll rows path) := by
  induction rows using List.reverseRecOn with
  | nil =>
    rw [ofRows, List.foldl_nil, countAt_nil]
    exact ⟨Nat.le_refl 0, fun _ i row hi => (by cases hi), fun _ => rfl⟩
  | append_singleton rows row ih =>
    obtain ⟨hrows, hrow⟩ := hr.of_concat
    obtain ⟨hle, hiff⟩ := ih hrows
    rw [ofRows_concat, next, countAt_absorb hrow.distinct _ _ _ hp, agreesInAll_concat, ← hiff,
      List.length_append, List.length_singleton, registered_eq hrows]
    split
    · next ha =>
      have ha : Agrees (fun path => kindAt path (ofRows rows)) row.fields path := ha
      simp only [ha, and_true]
      omega
    · next ha =>
      have ha : ¬ Agrees (fun path => kindAt path (ofRows rows)) row.fields path := ha
      simp only [ha, and_false, iff_false]
      omega

theorem inner_of_not_map {s? : Option Shape} (h : s?.map kind ≠ some .map) : inner s? = [] := by
  cases s? with
  | none => rfl
  | some s =>
    cases s with
    | scalar n k => rfl
    | map n k below => exact absurd rfl h

/-- The keys of attributes are texts, and nothing is below them. -/
theorem kindAt_touched (keys : List String) (path : Path) :
    kindAt path (keys.foldl touch []) = none ∨
      kindAt path (keys.foldl touch []) = some .scalar := by
  have hkey : ∀ key, kindAt [key] (keys.foldl touch []) = none ∨
      kindAt [key] (keys.foldl touch []) = some .scalar := by
    intro key
    rw [kindAt_foldl_touch]
    split
    · exact Or.inr rfl
    · exact Or.inl rfl
  cases path with
  | nil => exact Or.inl rfl
  | cons key rest =>
    by_cases hr : rest = []
    · subst hr
      exact hkey key
    · left
      have hone := hkey key
      rw [kindAt_singleton] at hone
      rw [kindAt_cons_inner hr, inner_of_not_map, kindAt_nil]
      rcases hone with hnone | htext
      · rw [hnone]
        nofun
      · rw [htext]
        nofun

end Shape

/-! ## Schemas -/

namespace RowSchema

variable {p : Projection} {rows : List Row} {row : Row} {path : Path} {c : Column} {i : Nat}

theorem countAt_held (s : RowSchema) (path : Path) :
    Shape.countAt path s.held = Shape.countAt path s.shapes :=
  Shape.countAt_foldl_hold s.projection.paths path s.shapes

theorem countAt_foldAll_start (hr : Row.AllRegular rows) (h : path.head? ≠ some attributesName)
    (p : Projection) :
    Shape.countAt path ((start p).foldAll rows).1.held =
      Shape.countAt path (Shape.ofRows rows) := by
  rw [countAt_held, shapes_foldAll_start p hr, Shape.countAt,
    Shape.find?_ofAttributes_append h, Shape.countAt]

/-- Below the attributes rows have texts only. -/
theorem kindAt_below_attributes (hr : Row.AllRegular rows) {rest : Path} (hne : rest ≠ []) :
    Shape.kindAt (attributesName :: rest) ((start p).foldAll rows).1.shapes = none ∨
      Shape.kindAt (attributesName :: rest) ((start p).foldAll rows).1.shapes = some .scalar := by
  rw [shapes_foldAll_start p hr, Shape.ofAttributes]
  split
  · rw [Shape.kindAt_cons hne]
    exact Shape.kindAt_touched (rows.flatMap fun row => Entries.keys row.attributes) rest
  · rw [List.nil_append, Shape.kindAt_of_named?_none (named?_ofRows_attributes hr)]
    exact Or.inl rfl

/-- A map below the attributes is only there because it was asked for. -/
theorem countAt_below_attributes (hr : Row.AllRegular rows) {rest : Path} (hne : rest ≠ [])
    (hk : Shape.kindAt (attributesName :: rest) ((start p).foldAll rows).1.held = some .map) :
    Shape.countAt (attributesName :: rest) ((start p).foldAll rows).1.held = 0 := by
  rw [countAt_held]
  refine Shape.countAt_of_kindAt_eq_none ((kindAt_below_attributes hr hne).resolve_right ?_)
  intro htext
  rw [grows_held _ _ _ htext] at hk
  cases hk

/-- **A row whose path agrees has a map there**, if the column is a map, and no other row has. -/
theorem isMap_record_iff (hr : Row.AllRegular rows) (hi : rows[i]? = some row)
    (h : path.head? ≠ some attributesName) (hp : path ≠ [])
    (hk : Shape.kindAt path ((start p).foldAll rows).1.held = some .map) :
    ((Value.map (((start p).foldAll (rows.take i)).1.fold row).record).follow path).isMap = true ↔
      Agrees (registered (rows.take i)) row.fields path := by
  have hrow := hr.of_getElem? hi
  have hbefore := hr.take i
  obtain ⟨htaken, hleft⟩ := Shape.at?_absorb hrow.distinct row.ordinal []
    (Shape.ofRows (rows.take i)) hp
  rw [Value.follow_eq, at?_record_start hbefore hrow p hp h, registered_eq hbefore, Shape.next]
  constructor
  · intro hm
    by_contra hno
    rw [hleft hno] at hm
    split at hm <;> cases hm
  · intro ha
    -- the kind that the row registers is the one that is known later
    have hkind : Field.kindAt path row.fields = some .map := by
      have hafter := Shape.kindAt_absorb_of_agrees hrow.distinct row.ordinal [] hp ha
      have hnone := ha.kindAt_ne_none hp
      cases hf : Field.kindAt path row.fields with
      | none => exact absurd hf hnone
      | some kind =>
        have hlater : Shape.kindAt path ((start p).foldAll (rows.take i ++ [row])).1.shapes =
            some kind := by
          rw [shapes_foldAll_start p (hbefore.concat hrow), Shape.kindAt_ofAttributes_append h,
            Shape.ofRows_concat, Shape.next, hafter, hf]
        have hgrows : Shape.Grows ((start p).foldAll (rows.take i ++ [row])).1.shapes
            ((start p).foldAll rows).1.held :=
          (grows_foldAll_of_getElem? _ hi).trans (grows_held _)
        rw [hgrows path kind hlater] at hk
        cases hk
        rfl
    have hshows := htaken ha
    rw [Field.kindAt, Option.map_eq_some_iff] at hkind
    obtain ⟨f, hf, hmap⟩ := hkind
    rw [hf] at hshows
    cases f with
    | scalar n k text => cases hmap
    | map n k inner =>
      obtain ⟨es, he⟩ := hshows
      rw [he]
      rfl

/-- Below the attributes no record has a map. -/
theorem isMap_record_below_attributes (hr : Row.AllRegular rows) (hrow : row.IsRegular)
    (p : Projection) {rest : Path} (hne : rest ≠ []) :
    ((Value.map (((start p).foldAll rows).1.fold row).record).follow
      (attributesName :: rest)).isMap = false := by
  rw [Value.follow_eq]
  cases hv : (Value.map (((start p).foldAll rows).1.fold row).record).at?
      (attributesName :: rest) with
  | none => rfl
  | some v =>
    obtain ⟨kind, hkind, hbears⟩ :=
      carries_fold_start hr hrow p _ (List.cons_ne_nil attributesName rest) v hv
    have htext := kindAt_below_attributes (p := p) (hr.concat hrow) hne
    rw [hkind] at htext
    cases htext.resolve_left (Option.some_ne_none kind)
    exact hbears

/-! ## Columns that are never null -/

/-- The snapshot of a fresh schema after some rows. -/
def snapshotAfter (p : Projection) (rows : List Row) : Snapshot :=
  ((start p).foldAll rows).1.snapshot

/-- A column is never null if it is that of the attributes, or a map that every row has counted
for. -/
theorem nullable_eq_false (hc : c ∈ (snapshotAfter p rows).columns) :
    c.nullable = false ↔ c.path = attributesPath ∨ c.kind = .map ∧ rows ≠ [] ∧
      Shape.countAt c.path ((start p).foldAll rows).1.shapes = rows.length := by
  obtain ⟨t, ht, hct⟩ := (mem_columns_snapshot (distinct_foldAll rows (distinct_start p))).mp hc
  have hseen : Shape.countAt c.path ((start p).foldAll rows).1.shapes = t.seen := by
    rw [← countAt_held, Shape.countAt, ht]
    rfl
  have hrows : ((start p).foldAll rows).1.rows = rows.length := by
    rw [rows_foldAll]
    exact Nat.zero_add _
  rw [hseen, ← List.length_pos_iff, hct]
  simp only [Shape.columnAt, Shape.isRequired, hrows, Bool.not_eq_false', Bool.or_eq_true, beq_iff_eq,
    Bool.and_eq_true, decide_eq_true_eq, and_assoc]

/-- **The map columns that are never null**: the attributes, and those that agree in every row. -/
theorem nullable_eq_false_iff (hr : Row.AllRegular rows) (hne : rows ≠ [])
    (hc : c ∈ (snapshotAfter p rows).columns) (hk : c.kind = .map) :
    c.nullable = false ↔
      c.path = attributesPath ∨ c.path.head? ≠ some attributesName ∧ AgreesInAll rows c.path := by
  have hpos : 0 < rows.length := List.length_pos_iff.mpr hne
  obtain ⟨t, ht, hct⟩ := (mem_columns_snapshot (distinct_foldAll rows (distinct_start p))).mp hc
  have hkind : Shape.kindAt c.path ((start p).foldAll rows).1.held = some .map := by
    rw [Shape.kindAt, ht, ← hk, hct]
    rfl
  have hpath : c.path ≠ [] := by
    intro hp
    rw [hp] at ht
    cases ht
  rw [nullable_eq_false hc, ← countAt_held]
  simp only [hk, hne, ne_eq, not_false_eq_true, true_and]
  refine or_congr_right' fun hnot => ?_
  by_cases hhead : c.path.head? = some attributesName
  · have hzero : Shape.countAt c.path ((start p).foldAll rows).1.held = 0 := by
      obtain ⟨rest, hrest⟩ := List.head?_eq_some_iff.mp hhead
      rw [hrest] at hkind hnot ⊢
      exact countAt_below_attributes hr (fun hnil => hnot (by rw [hnil]; rfl)) hkind
    rw [hzero]
    constructor
    · intro hn
      omega
    · rintro ⟨hn, -⟩
      exact absurd hhead hn
  · rw [countAt_foldAll_start hr hhead, (Shape.countAt_ofRows_eq_length_iff hr hpath).2]
    exact ⟨fun h => ⟨hhead, h⟩, fun h => h.2⟩

end RowSchema

end Tabular
