import Tabular.Proofs.Schema.Conform

/-!
# Columns in their order

Columns stand where they are. Rows and room for requested paths bring further columns, among those
that were there or behind them, and leave these with their kinds and in their order.

* `Column.outline`, `Shape.Extends`, **`isGrowth_extends`**: columns that keep kind and order;
* **`sublist_columns_hold`**: room for a path leaves all columns as they are;
* `RowSchema.carried`, `sublist_carried`, `mem_carried_iff`: the columns without such room.
-/

namespace Tabular

/-- The path of a column with its kind. -/
def Column.outline (c : Column) : Path × Kind :=
  (c.path, c.kind)

namespace Shape

variable {rows : Nat} {above path : Path} {ss ss' : List Shape} {s : Shape} {name : String}

/-- Whatever is told of a column, if a changed shape has it as before and holds in order what it
held, the columns are in order what they were. -/
theorem sublist_columns_change {α : Type} {f : Column → α} {g : Shape → Shape}
    (hname : ∀ s, (g s).name = s.name)
    (hself : ∀ s path, f (columnAt rows path (g s)) = f (columnAt rows path s))
    (h : ∀ s, named? name ss = some s → ∀ above,
      ((columns rows above s.shapes).map f).Sublist ((columns rows above (g s).shapes).map f))
    (above : Path) :
    ((columns rows above ss).map f).Sublist ((columns rows above (change name g ss)).map f) := by
  induction ss with
  | nil => exact List.Sublist.refl _
  | cons a rest ih =>
    rw [change]
    split
    · next ha =>
      have hbelow := h a (by rw [named?_cons, if_pos ha]) (above ++ [a.name])
      rw [columns, columns, List.map_append, List.map_append, columnsIn_eq, columnsIn_eq,
        List.map_cons, List.map_cons, hname, hself]
      exact (hbelow.cons_cons _).append (List.Sublist.refl _)
    · next ha =>
      rw [columns, columns, List.map_append, List.map_append]
      exact (List.Sublist.refl _).append (ih fun s hs => h s (by rw [named?_cons, if_neg ha, hs]))

theorem columns_append (rows : Nat) (above : Path) (ss later : List Shape) :
    columns rows above (ss ++ later) = columns rows above ss ++ columns rows above later := by
  simp only [columns_eq_flatMap, List.flatMap_append]

/-! ## Kinds and order -/

/-- Every column is kept with its kind, and all of them in their order. -/
def Extends (ss ss' : List Shape) : Prop :=
  ∀ rows above, ((columns rows above ss).map Column.outline).Sublist
    ((columns rows above ss').map Column.outline)

/-- The outline does not depend on the number of rows. -/
theorem outline_columns (rows rows' : Nat) (above : Path) (ss : List Shape) :
    (columns rows above ss).map Column.outline = (columns rows' above ss).map Column.outline := by
  induction ss using Shape.induction generalizing above with
  | nil => rfl
  | scalar n k rest ih => simp [columns, columnsIn, Column.outline, ih]
  | map n k inner rest ihInner ihRest => simp [columns, columnsIn, Column.outline, ihInner, ihRest]

/-- **Every step keeps the columns in their order.** -/
theorem isGrowth_extends : IsGrowth Extends where
  refl _ _ _ := List.Sublist.refl _
  trans h h' rows above := (h rows above).trans (h' rows above)
  append ss later rows above := by
    rw [columns_append, List.map_append]
    exact List.sublist_append_left _ _
  change hname hkind h rows above :=
    sublist_columns_change hname (fun s path => congrArg (Prod.mk path) (hkind s))
      (fun s hs => h s hs rows) above

/-! ## Room for requested paths -/

/-- **Room for a path leaves the columns as they are.** -/
theorem sublist_columns_hold (rows : Nat) (above path : Path) (ss : List Shape) :
    (columns rows above ss).Sublist (columns rows above (hold path ss)) := by
  induction path generalizing above ss with
  | nil => exact List.Sublist.refl _
  | cons n rest ih =>
    rw [hold]
    split
    · rw [columns_append]
      exact List.sublist_append_left _ _
    · have hcolumn : ∀ s path, columnAt rows path (mapShapes (hold rest) s) = columnAt rows path s := by
        intro s path
        rw [columnAt, kind_mapShapes, seen_mapShapes, columnAt]
      have hbelow : ∀ s, named? n ss = some s → ∀ above, ((columns rows above s.shapes).map id).Sublist
          ((columns rows above (mapShapes (hold rest) s).shapes).map id) := by
        intro s _ above
        rw [List.map_id, List.map_id]
        cases s with
        | scalar m k => exact List.Sublist.refl _
        | map m k inner => exact ih above inner
      have hchange := sublist_columns_change (name_mapShapes (hold rest)) hcolumn hbelow above
      rwa [List.map_id, List.map_id] at hchange

theorem sublist_columns_foldl_hold (rows : Nat) (above : Path) (paths : List Path)
    (ss : List Shape) :
    (columns rows above ss).Sublist
      (columns rows above (paths.foldl (fun ss path => hold path ss) ss)) := by
  induction paths generalizing ss with
  | nil => exact List.Sublist.refl _
  | cons path rest ih => exact (sublist_columns_hold rows above path ss).trans (ih _)

end Shape

/-! ## Schemas -/

namespace RowSchema

variable {s : RowSchema} {c : Column}

/-- The columns that the rows have brought, without room for requested paths. -/
def carried (s : RowSchema) : List Column :=
  Shape.columns s.rows [] s.shapes

theorem mem_carried (h : Shape.Distinct s.shapes) : c ∈ s.carried ↔
    ∃ t, Shape.find? c.path s.shapes = some t ∧ c = Shape.columnAt s.rows c.path t :=
  Shape.mem_columns h

/-- **A snapshot has the columns that the rows have brought**, in their order. -/
theorem sublist_carried (s : RowSchema) : s.carried.Sublist s.snapshot.columns :=
  Shape.sublist_columns_foldl_hold s.rows [] s.projection.paths s.shapes

/-- The rows have brought the columns of a snapshot at the paths that are registered. -/
theorem mem_carried_iff (h : Shape.Distinct s.shapes) (hc : c ∈ s.snapshot.columns) :
    c ∈ s.carried ↔ s.has c.path = true := by
  rw [has, Option.isSome_iff_exists]
  constructor
  · intro hmem
    obtain ⟨t, ht, -⟩ := (mem_carried h).mp hmem
    exact ⟨t, ht⟩
  · rintro ⟨t, ht⟩
    -- no path has two columns
    have hown : Shape.columnAt s.rows c.path t ∈ s.carried := (mem_carried h).mpr ⟨t, ht, rfl⟩
    have hpaths := Shape.nodup_paths_columns (distinct_held h) s.rows []
    rwa [← List.inj_on_of_nodup_map hpaths ((sublist_carried s).subset hown) hc rfl]

end RowSchema

end Tabular
