import Tabular.Proofs.Reader.Sealed
import Tabular.Proofs.Schema.Apart
import Tabular.Proofs.Schema.Columns

/-!
# Unification

The schema of some rows, told without the schema: a path is registered by the first row in which it
agrees with everything that was registered above it and at it.

* `register`, `registered`: the kinds that rows register, path by path;
* `FirstAgrees`, **`registered_eq_some_iff`**: the row that registers a path;
* `sightings`: the names below a path, in the order in which rows bring them;
* `Unified`: what one more row comes to;
* **`foldAll_unified`**: a fresh schema for all columns does just that.
-/

namespace Tabular

open Tabular.Field (Agrees Clashes)

/-! ## Rows that register paths -/

section Registered

variable {rows : List Row} {row : Row} {path : Path} {kind : Kind} {i : Nat}

/-- The known kinds and those of one more row, where it agrees with them. -/
def register (known : Path → Option Kind) (row : Row) (path : Path) : Option Kind :=
  (known path).or (if Agrees known row.fields path then Field.kindAt path row.fields else none)

/-- The kind with which each path is registered by some rows. -/
def registered (rows : List Row) : Path → Option Kind :=
  rows.foldl register fun _ => none

theorem registered_concat (rows : List Row) (row : Row) :
    registered (rows ++ [row]) = register (registered rows) row := by
  rw [registered, List.foldl_append]
  rfl

/-- The row at a place is the first one in which a path agrees with the rows before it. -/
structure FirstAgrees (rows : List Row) (path : Path) (i : Nat) (row : Row) : Prop where
  place : rows[i]? = some row
  agrees : Agrees (registered (rows.take i)) row.fields path
  first : ∀ j row', j < i → rows[j]? = some row' →
    ¬ Agrees (registered (rows.take j)) row'.fields path

/-- A place in rows and one more. -/
theorem getElem?_concat_iff {α : Type} {rows : List α} {last row : α} {i : Nat} :
    (rows ++ [last])[i]? = some row ↔ rows[i]? = some row ∨ i = rows.length ∧ last = row := by
  rw [List.getElem?_append]
  split
  · next hi =>
    have : i ≠ rows.length := by omega
    simp [this]
  · next hi =>
    rw [List.getElem?_singleton, List.getElem?_eq_none (by omega : rows.length ≤ i)]
    by_cases he : i = rows.length
    · simp [he]
    · have : i - rows.length ≠ 0 := by omega
      simp [he, this]

theorem lt_length_of_getElem? {α : Type} {rows : List α} {row : α} {i : Nat}
    (h : rows[i]? = some row) : i < rows.length :=
  (List.getElem?_eq_some_iff.mp h).1

theorem FirstAgrees.append (h : FirstAgrees rows path i row) (last : Row) :
    FirstAgrees (rows ++ [last]) path i row := by
  have hi := lt_length_of_getElem? h.place
  refine ⟨getElem?_concat_iff.mpr (Or.inl h.place), ?_, fun j row' hj hrow' => ?_⟩
  · rw [List.take_append_of_le_length (Nat.le_of_lt hi)]
    exact h.agrees
  · rcases getElem?_concat_iff.mp hrow' with hrow' | ⟨rfl, -⟩
    · rw [List.take_append_of_le_length (by omega)]
      exact h.first j row' hj hrow'
    · omega

theorem FirstAgrees.of_append {last : Row} (h : FirstAgrees (rows ++ [last]) path i row)
    (hi : rows[i]? = some row) : FirstAgrees rows path i row := by
  have hlt := lt_length_of_getElem? hi
  refine ⟨hi, ?_, fun j row' hj hrow' => ?_⟩
  · have hagrees := h.agrees
    rwa [List.take_append_of_le_length (Nat.le_of_lt hlt)] at hagrees
  · have hfirst := h.first j row' hj (getElem?_concat_iff.mpr (Or.inl hrow'))
    rwa [List.take_append_of_le_length (by omega)] at hfirst

/-- A path that is not registered agreed in no row. -/
theorem not_agrees_of_registered_eq_none (hp : path ≠ []) (h : registered rows path = none) :
    ∀ i row, rows[i]? = some row → ¬ Agrees (registered (rows.take i)) row.fields path := by
  induction rows using List.reverseRecOn with
  | nil => exact fun i row hi => by cases hi
  | append_singleton rows last ih =>
    rw [registered_concat, register, Option.or_eq_none_iff] at h
    obtain ⟨hbefore, hlast⟩ := h
    intro i row hi
    rcases getElem?_concat_iff.mp hi with hi | ⟨rfl, rfl⟩
    · rw [List.take_append_of_le_length (Nat.le_of_lt (lt_length_of_getElem? hi))]
      exact ih hbefore i row hi
    · rw [List.take_left]
      intro ha
      rw [if_pos ha] at hlast
      exact ha.kindAt_ne_none hp hlast

/-- **A path is registered by the first row in which it agrees.** -/
theorem registered_eq_some_iff : registered rows path = some kind ↔
    ∃ i row, FirstAgrees rows path i row ∧ Field.kindAt path row.fields = some kind := by
  induction rows using List.reverseRecOn generalizing kind with
  | nil =>
    constructor
    · intro h
      cases h
    · rintro ⟨i, row, h, -⟩
      cases h.place
  | append_singleton rows last ih =>
    rw [registered_concat, register]
    constructor
    · intro h
      cases hr : registered rows path with
      | some k =>
        rw [hr, Option.some_or] at h
        obtain ⟨i, row, hfirst, hkind⟩ := ih.mp (hr.trans h)
        exact ⟨i, row, hfirst.append last, hkind⟩
      | none =>
        -- the last row is the first in which the path agrees
        rw [hr, Option.none_or, Option.ite_none_right_eq_some] at h
        obtain ⟨ha, hkind⟩ := h
        have hp : path ≠ [] := by
          rintro rfl
          cases hkind
        refine ⟨rows.length, last, ⟨getElem?_concat_iff.mpr (Or.inr ⟨rfl, rfl⟩), ?_, ?_⟩, hkind⟩
        · rw [List.take_left]
          exact ha
        · intro j row' hj hrow'
          rcases getElem?_concat_iff.mp hrow' with hrow' | ⟨he, -⟩
          · rw [List.take_append_of_le_length (Nat.le_of_lt hj)]
            exact not_agrees_of_registered_eq_none hp hr j row' hrow'
          · omega
    · rintro ⟨i, row, hfirst, hkind⟩
      rcases getElem?_concat_iff.mp hfirst.place with hi | ⟨rfl, rfl⟩
      · rw [ih.mpr ⟨i, row, hfirst.of_append hi, hkind⟩]
        rfl
      · have hnone : registered rows path = none := by
          rw [Option.eq_none_iff_forall_not_mem]
          intro k hk
          obtain ⟨j, row', hbefore, -⟩ := ih.mp hk
          have hagain := hbefore.append last
          exact hfirst.first j row' (lt_length_of_getElem? hbefore.place) hagain.place hagain.agrees
        have ha := hfirst.agrees
        rw [List.take_left] at ha
        rw [hnone, Option.none_or, if_pos ha, hkind]

/-! ## Names in the order of sighting -/

/-- The names that one more row brings below a path. -/
def brought (before : List Row) (row : Row) (path : Path) : List String :=
  if Agrees (registered before) row.fields path then
    ((Field.under path row.fields).map Field.name).filter fun name =>
      (registered before (path ++ [name])).isNone
  else []

/-- The names below a path, earlier rows first, and those of one row in the order of its fields. -/
def sightings (rows : List Row) (path : Path) : List String :=
  rows.zipIdx.flatMap fun e => brought (rows.take e.2) e.1 path

theorem sightings_concat (rows : List Row) (row : Row) (path : Path) :
    sightings (rows ++ [row]) path = sightings rows path ++ brought rows row path := by
  have hearlier : ∀ e ∈ rows.zipIdx,
      brought ((rows ++ [row]).take e.2) e.1 path = brought (rows.take e.2) e.1 path := by
    intro e he
    have hlt := List.snd_lt_of_mem_zipIdx he
    rw [List.take_append_of_le_length (by omega)]
  rw [sightings, List.zipIdx_append, List.flatMap_append, sightings]
  refine congrArg₂ _ ?_ ?_
  · rw [List.flatMap_def, List.flatMap_def]
    exact congrArg List.flatten (List.map_congr_left hearlier)
  · simp

end Registered

/-! ## Shapes and what is registered -/

section Shapes

variable {rows before : List Row} {row : Row} {path : Path}

/-- **The shapes of some rows have the kinds that the rows register.** -/
theorem registered_eq (hr : Row.AllRegular rows) :
    registered rows = fun path => Shape.kindAt path (Shape.ofRows rows) := by
  induction rows using List.reverseRecOn with
  | nil =>
    ext path
    rw [Shape.ofRows, List.foldl_nil, Shape.kindAt_nil]
    rfl
  | append_singleton rows row ih =>
    obtain ⟨hrows, hrow⟩ := hr.of_concat
    ext path
    rw [registered_concat, register, ih hrows, Shape.ofRows_concat, Shape.next,
      Shape.kindAt_absorb hrow.distinct]

/-- **The shapes of some rows stand in the order of sighting.** -/
theorem names_under_ofRows (hr : Row.AllRegular rows) (path : Path) :
    (Shape.under path (Shape.ofRows rows)).map Shape.name = sightings rows path := by
  induction rows using List.reverseRecOn with
  | nil =>
    rw [Shape.ofRows, List.foldl_nil, Shape.under_nil]
    rfl
  | append_singleton rows row ih =>
    obtain ⟨hrows, hrow⟩ := hr.of_concat
    rw [Shape.ofRows_concat, Shape.next, Shape.names_under_absorb hrow.distinct, ih hrows,
      sightings_concat, brought, registered_eq hrows]

end Shapes

/-! ## Schemas -/

/-- What a row comes to after others: a conflict for each clash of its paths, and a record that has
its texts, nulls and maps where a path agrees, null where one clashes, and nothing else. -/
structure Unified (before : List Row) (row : Row) (folded : Folded) : Prop where
  once : (folded.conflicts.map Conflict.path).Nodup
  conflicts : ∀ c, c ∈ folded.conflicts ↔
    c.row = row.ordinal ∧ Clashes (registered before) row.fields c.path c.expected c.found
  agreeing : ∀ path, path ≠ [] → path.head? ≠ some attributesName →
    Agrees (registered before) row.fields path →
      Field.Shows (Field.find? path row.fields) ((Value.map folded.record).at? path)
  clashing : ∀ path expected found, path.head? ≠ some attributesName →
    Clashes (registered before) row.fields path expected found →
      (Value.map folded.record).at? path = some .null
  missing : ∀ path, path.head? ≠ some attributesName →
    ¬ Agrees (registered before) row.fields path →
      (∀ expected found, ¬ Clashes (registered before) row.fields path expected found) →
        (Value.map folded.record).at? path = none

namespace RowSchema

variable {rows before : List Row} {row : Row}

theorem held_all {s : RowSchema} (h : s.projection = .all) : s.held = s.shapes := by
  rw [held, h]
  rfl

theorem unified_fold (hr : Row.AllRegular before) (hrow : row.IsRegular) :
    Unified before row (((start .all).foldAll before).1.fold row) := by
  have hknown := registered_eq hr
  have hrecord : ∀ path, path ≠ [] → path.head? ≠ some attributesName →
      (Value.map (((start .all).foldAll before).1.fold row).record).at? path =
        (Value.map (Shape.next before row).entries).at? path :=
    fun path hp h => at?_record_start hr hrow .all hp h
  have hat := fun (path : Path) (hp : path ≠ []) =>
    Shape.at?_absorb hrow.distinct row.ordinal [] (Shape.ofRows before) hp
  refine ⟨?_, fun c => ?_, ?_, ?_, ?_⟩
  · rw [conflicts_fold_start hr hrow]
    exact Shape.nodup_conflicts_absorb hrow.distinct _ _ _
  · rw [conflicts_fold_start hr hrow, hknown]
    refine (Shape.mem_conflicts_absorb hrow.distinct _ _ _ c).trans ?_
    constructor
    · rintro ⟨path, hpath, hc, hclash⟩
      rw [List.nil_append] at hpath
      rw [hpath]
      exact ⟨hc, hclash⟩
    · rintro ⟨hc, hclash⟩
      exact ⟨c.path, rfl, hc, hclash⟩
  · intro path hp h ha
    rw [hknown] at ha
    rw [hrecord path hp h]
    exact (hat path hp).1 ha
  · intro path expected found h hclash
    have hp : path ≠ [] := by
      rintro rfl
      cases hclash.finds
    rw [hknown] at hclash
    obtain ⟨hno, hreached⟩ := (Field.exists_clashes_iff hp).mp ⟨expected, found, hclash⟩
    rw [hrecord path hp h]
    exact ((hat path hp).2 hno).trans (if_pos hreached)
  · intro path h hno hnone
    have hp : path ≠ [] := by
      rintro rfl
      exact hno (Field.agrees_nil _ _)
    rw [hknown] at hno hnone
    rw [hrecord path hp h]
    refine ((hat path hp).2 hno).trans (if_neg fun hreached => ?_)
    obtain ⟨expected, found, hclash⟩ := (Field.exists_clashes_iff hp).mpr ⟨hno, hreached⟩
    exact hnone expected found hclash

/-- The columns of a fresh schema outside the attributes are the paths that rows register. -/
theorem column_iff_registered (hr : Row.AllRegular rows) {path : Path}
    (h : path.head? ≠ some attributesName) (kind : Kind) :
    (∃ c ∈ ((start .all).foldAll rows).1.snapshot.columns, c.path = path ∧ c.kind = kind) ↔
      registered rows path = some kind := by
  have hdistinct := distinct_foldAll rows (distinct_start .all)
  have hheld : ((start .all).foldAll rows).1.held =
      Shape.ofAttributes .all rows ++ Shape.ofRows rows := by
    rw [held_all (projection_foldAll _ rows), shapes_foldAll_start .all hr]
  have hknown : registered rows path = Shape.kindAt path (Shape.ofRows rows) :=
    congrFun (registered_eq hr) path
  rw [hknown, ← Shape.kindAt_ofAttributes_append h .all rows, ← hheld, Shape.kindAt,
    Option.map_eq_some_iff]
  constructor
  · rintro ⟨c, hc, rfl, rfl⟩
    obtain ⟨t, ht, hct⟩ := (mem_columns_snapshot hdistinct).mp hc
    exact ⟨t, ht, by rw [hct]; rfl⟩
  · rintro ⟨t, ht, rfl⟩
    exact ⟨Shape.columnAt _ path t, (mem_columns_snapshot hdistinct).mpr ⟨t, ht, rfl⟩, rfl, rfl⟩

/-- The columns of a fresh schema directly below a path, the attributes before all others. -/
theorem children_eq_sightings (hr : Row.AllRegular rows) {path : Path}
    (h : path.head? ≠ some attributesName) :
    (((start .all).foldAll rows).1.snapshot.children path).map Column.name =
      (if path = [] then [attributesName] else []) ++ sightings rows path := by
  rw [names_children_snapshot (distinct_foldAll rows (distinct_start .all)),
    held_all (projection_foldAll _ rows), shapes_foldAll_start .all hr, ← names_under_ofRows hr]
  split
  · next hp =>
    subst hp
    rfl
  · next hp =>
    rw [Shape.under_ofAttributes_append h hp]
    rfl

/-- **Unification.** A fresh schema for all columns that takes some rows has, besides the
attributes, just the paths that agree in one of them, each with the kind that it has in the first
of those rows, and below each path in the order of sighting; and each row comes to a conflict for
each of its clashes and to the record of what agrees. -/
theorem foldAll_unified (rows : List Row) (hr : Row.AllRegular rows) :
    (∀ path kind, path.head? ≠ some attributesName →
      ((∃ c ∈ ((start .all).foldAll rows).1.snapshot.columns, c.path = path ∧ c.kind = kind) ↔
        ∃ i row, FirstAgrees rows path i row ∧ Field.kindAt path row.fields = some kind)) ∧
    (∀ path, path.head? ≠ some attributesName →
      (((start .all).foldAll rows).1.snapshot.children path).map Column.name =
        (if path = [] then [attributesName] else []) ++ sightings rows path) ∧
    ∀ i row, rows[i]? = some row →
      Unified (rows.take i) row (((start .all).foldAll (rows.take i)).1.fold row) := by
  refine ⟨fun path kind h => ?_, fun path h => children_eq_sightings hr h, fun i row hi => ?_⟩
  · exact (column_iff_registered hr h kind).trans registered_eq_some_iff
  · exact unified_fold (hr.take i) (hr.of_getElem? hi)

/-- Two rows that differ in the kind of a column, the second with a column below it. -/
theorem foldAll_unified_clash :
    let rows := Scan.sealed {} {} [.start "t" [], .start "r" [], .start "a" [], .text "x",
      .finish "a", .finish "r", .start "r" [], .start "a" [], .start "b" [], .finish "b",
      .finish "a", .finish "r", .finish "t"]
    Row.AllRegular rows ∧ ∃ row, rows[1]? = some row ∧
      ⟨["a"], .scalar, .map, 1⟩ ∈ (((start .all).foldAll (rows.take 1)).1.fold row).conflicts := by
  refine ⟨Scan.isRegular_sealed _ _, _, rfl, ?_⟩
  rw [((foldAll_unified _ (Scan.isRegular_sealed _ _)).2.2 1 _ rfl).conflicts]
  exact ⟨rfl, by decide, by decide, by decide, by decide⟩

end RowSchema

end Tabular
