import Tabular.Proofs.Schema.Order

/-!
# Schemas only grow

What a schema has said of a column it does not take back. The column keeps its kind and its place
among the others, and if it may be null it may be so from then on. The count of a path goes up by
one at most with every row, so that a row that it has missed stays missed.

* `countAt_withAttributes`, **`countAt_foldAll_le`**: the count of a path after some rows;
* **`nullable_append`**: a column that may be null, after further rows;
* **`sublist_append`**: the columns after further rows.
-/

namespace Tabular

namespace Shape

variable {ss : List Shape} {key name : String} {path rest : Path}

/-! ## Counts -/

theorem inner_touch (ss : List Shape) (key name : String) :
    inner (named? name (touch ss key)) = inner (named? name ss) := by
  rw [touch]
  cases hk : named? key ss with
  | none =>
    by_cases hn : name = key
    · subst hn
      rw [named?_append_of_none hk, named?_cons, if_pos (by rfl), hk]
      rfl
    · cases hs : named? name ss with
      | none =>
        rw [named?_append_of_none hs, named?_cons, if_neg (by exact Ne.symm hn)]
        rfl
      | some s => rw [named?_append_of_some hs]
  | some s =>
    by_cases hn : name = key
    · subst hn
      simp only [named?_change_self again name_again, hk, inner, Option.map_some, shapes_again]
    · simp only [named?_change_of_ne hn again name_again]

/-- Attributes are counted where they stand, and not below. -/
theorem countAt_foldl_touch (h : rest ≠ []) (keys : List String) (name : String)
    (ss : List Shape) :
    countAt (name :: rest) (keys.foldl touch ss) = countAt (name :: rest) ss := by
  induction keys generalizing ss with
  | nil => rfl
  | cons key more ih => rw [List.foldl_cons, ih, countAt_cons_inner h, inner_touch, countAt_cons_inner h]

end Shape

namespace RowSchema

variable {s : RowSchema} {p : Projection} {rows later : List Row} {row : Row} {path : Path}
  {c c' : Column}

/-- The attributes of a row count for their own column and for those directly below it. -/
theorem countAt_withAttributes (hself : path ≠ attributesPath)
    (hbelow : path.dropLast ≠ attributesPath) (keys : List String) (ss : List Shape) :
    Shape.countAt path (withAttributes keys ss) = Shape.countAt path ss := by
  have hname : ∀ t : Shape,
      (t.again.mapShapes fun ss => keys.foldl Shape.touch ss).name = t.name := by simp
  cases path with
  | nil => rfl
  | cons n rest =>
    by_cases hn : n = attributesName
    · subst hn
      -- the path leads on below an attribute
      obtain ⟨key, more, rfl⟩ : ∃ key more, rest = key :: more :=
        List.exists_cons_of_ne_nil fun hr => hself (by rw [hr]; rfl)
      have hmore : more ≠ [] := fun hm => hbelow (by rw [hm]; rfl)
      rw [Shape.countAt_cons_inner (List.cons_ne_nil key more), withAttributes,
        Shape.named?_change_self _ hname, Shape.countAt_cons_inner (List.cons_ne_nil key more)]
      cases Shape.named? attributesName ss with
      | none => rfl
      | some t =>
        cases t with
        | scalar m k => rfl
        | map m k inner => exact Shape.countAt_foldl_touch hmore keys key inner
    · rw [Shape.countAt, withAttributes, Shape.find?_congr (Shape.named?_change_of_ne hn _ hname ss)]
      rfl

theorem countAt_fold_le (hd : Field.Distinct row.fields) (hp : path ≠ [])
    (hself : path ≠ attributesPath) (hbelow : path.dropLast ≠ attributesPath) (s : RowSchema) :
    Shape.countAt path (s.fold row).schema.shapes ≤ Shape.countAt path s.shapes + 1 := by
  have hattributed : Shape.countAt path (s.attributed row) = Shape.countAt path s.shapes := by
    unfold attributed
    split
    · exact countAt_withAttributes hself hbelow _ _
    · rfl
  rw [shapes_fold, Shape.countAt_absorb hd _ _ _ hp, hattributed]
  split
  · exact Nat.le_refl _
  · exact Nat.le_succ _

/-- **Every row counts once at most.** -/
theorem countAt_foldAll_le (hd : ∀ row ∈ rows, Field.Distinct row.fields) (hp : path ≠ [])
    (hself : path ≠ attributesPath) (hbelow : path.dropLast ≠ attributesPath) (s : RowSchema) :
    Shape.countAt path (s.foldAll rows).1.shapes ≤ Shape.countAt path s.shapes + rows.length := by
  induction rows generalizing s with
  | nil => exact Nat.le_refl _
  | cons row rest ih =>
    have hrow := countAt_fold_le (hd row List.mem_cons_self) hp hself hbelow s
    have hrest := ih (fun r hr => hd r (List.mem_cons_of_mem row hr)) (s.fold row).schema
    rw [List.length_cons]
    exact hrest.trans (by omega)

theorem countAt_start (p : Projection) (path : Path) : Shape.countAt path (start p).shapes = 0 := by
  rw [start]
  split
  · exact Shape.countAt_singleton (s := .map attributesName 0 []) rfl Shape.countAt_nil path
  · exact Shape.countAt_nil path

/-! ## Columns that may be null -/

/-- **A column that may be null may be so after further rows.** This is not said of what stands
directly below the attributes, unless the fields of all rows leave their name free. -/
theorem nullable_append (hd : ∀ row ∈ rows ++ later, Field.Distinct row.fields) (hne : rows ≠ [])
    (hc : c ∈ (snapshotAfter p rows).columns)
    (hc' : c' ∈ (snapshotAfter p (rows ++ later)).columns) (hpath : c'.path = c.path)
    (hfree : c.path.dropLast = attributesPath →
      ∀ row ∈ rows ++ later, attributesName ∉ row.fields.map Field.name)
    (hn : c.nullable = true) : c'.nullable = true := by
  by_contra hnot
  rw [Bool.not_eq_true, nullable_eq_false hc', hpath] at hnot
  obtain ⟨hp, hkind⟩ := kindAt_of_mem_columns hc
  obtain ⟨-, hkind'⟩ := kindAt_of_mem_columns hc'
  have hself : c.path ≠ attributesPath := by
    intro hattr
    rw [(nullable_eq_false hc).mpr (Or.inl hattr)] at hn
    cases hn
  obtain ⟨hmap, hlater, hcount⟩ := hnot.resolve_left hself
  rw [hpath, hmap] at hkind'
  by_cases hbelow : c.path.dropLast = attributesPath
  · have hr : Row.AllRegular (rows ++ later) := fun row hrow => ⟨hd row hrow, hfree hbelow row hrow⟩
    obtain ⟨key, hkey⟩ : ∃ key, c.path = [attributesName, key] := by
      refine ⟨c.path.getLast hp, ?_⟩
      conv_lhs => rw [← List.dropLast_concat_getLast hp, hbelow]
      rfl
    rw [hkey] at hkind' hcount
    have hzero := countAt_below_attributes hr (List.cons_ne_nil key []) hkind'
    rw [countAt_held, hcount, List.length_eq_zero_iff] at hzero
    exact hlater hzero
  · have hnow := countAt_foldAll_le (fun row hrow => hd row (List.mem_append_left later hrow)) hp
      hself hbelow (start p)
    have hthen := countAt_foldAll_le (fun row hrow => hd row (List.mem_append_right rows hrow)) hp
      hself hbelow ((start p).foldAll rows).1
    have hall : Shape.countAt c.path ((start p).foldAll rows).1.shapes = rows.length := by
      rw [countAt_start] at hnow
      rw [foldAll_append, List.length_append] at hcount
      simp only at hcount
      omega
    -- every row so far has brought the column, so its kind is known
    have hknown : Shape.kindAt c.path ((start p).foldAll rows).1.shapes = some c.kind := by
      cases hk : Shape.kindAt c.path ((start p).foldAll rows).1.shapes with
      | none =>
        rw [Shape.countAt_of_kindAt_eq_none hk] at hall
        exact absurd (List.length_eq_zero_iff.mp hall.symm) hne
      | some kind => rw [← hkind, grows_held _ _ _ hk]
    have hsame : c.kind = .map := by
      have hgrows := (grows_foldAll_append (start p) rows later).trans (grows_held _)
      rw [hgrows _ _ hknown] at hkind'
      exact Option.some.inj hkind'
    rw [(nullable_eq_false hc).mpr (Or.inr ⟨hsame, hne, hall⟩)] at hn
    cases hn

/-- A field with the name of the attributes has a map below it where a row had a key. The row counts
twice for it. -/
theorem not_nullable_append_attributes :
    let m : List Field := [.map attributesName 1 [.map "m" 2 [.scalar "x" 3 (some "1")]]]
    let rows : List Row := [⟨"r", 0, [], m⟩, ⟨"r", 1, [], []⟩]
    let later : List Row := [⟨"r", 2, [("m", some "v")], m⟩]
    ∃ c ∈ (snapshotAfter .all rows).columns, ∃ c' ∈ (snapshotAfter .all (rows ++ later)).columns,
      c'.path = c.path ∧ c.nullable = true ∧ c'.nullable = false := by
  decide +kernel

/-! ## Columns that were brought -/

/-- **The columns that some rows have brought** are in order among those after further rows. -/
theorem sublist_append (p : Projection) (rows later : List Row) :
    (((start p).foldAll rows).1.carried.map Column.outline).Sublist
      (((start p).foldAll (rows ++ later)).1.carried.map Column.outline) := by
  rw [foldAll_append, carried, carried,
    Shape.outline_columns _ (((start p).foldAll rows).1.foldAll later).1.rows]
  exact Shape.isGrowth_extends.foldAll _ later _ _

end RowSchema

end Tabular
