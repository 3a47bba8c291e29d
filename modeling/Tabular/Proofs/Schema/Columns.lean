import Tabular.Proofs.Schema.Agreement
import Tabular.Proofs.Schema.Pad

/-!
# Columns by their paths

The columns of shapes have the paths of the shapes, and those directly below a path come in the
order of the shapes there.

* `Shape.columnAt`, **`mem_columns`**: the column of a shape, and all columns of shapes;
* **`nodup_paths_columns`**: no path has two of them;
* **`children_columns`**, `names_children_columns`: the columns directly below a path, and their
  names;
* `RowSchema.mem_columns_snapshot`, `names_children_snapshot`: the same for a schema.
-/

namespace Tabular

namespace Shape

variable {rows : Nat} {above path rest : Path} {ss : List Shape} {s : Shape} {name : String}
  {c : Column}

/-- The column of a shape at a path. -/
def columnAt (rows : Nat) (path : Path) (s : Shape) : Column :=
  ⟨path, s.kind, !isRequired rows path s.kind s.seen⟩

theorem columnsIn_eq (rows : Nat) (above : Path) (s : Shape) :
    columnsIn rows above s =
      columnAt rows (above ++ [s.name]) s :: columns rows (above ++ [s.name]) s.shapes := by
  cases s <;> rfl

theorem columns_eq_flatMap (rows : Nat) (above : Path) (ss : List Shape) :
    columns rows above ss = ss.flatMap (columnsIn rows above) := by
  induction ss with
  | nil => rfl
  | cons s rest ih => rw [columns, ih, List.flatMap_cons]

/-! ## All columns -/

theorem mem_columns_of_find? (h : find? path ss = some s) (above : Path) :
    columnAt rows (above ++ path) s ∈ columns rows above ss := by
  induction path generalizing above ss with
  | nil => cases h
  | cons n rest ih =>
    rw [find?_cons] at h
    by_cases hr : rest = []
    · subst hr
      rw [if_pos rfl] at h
      refine mem_columns_of_mem (List.mem_of_find?_eq_some h) ?_
      rw [columnsIn_eq, name_of_named? h]
      exact List.mem_cons_self
    · rw [if_neg hr] at h
      cases hn : named? n ss with
      | none =>
        rw [hn] at h
        cases (find?_nil rest).symm.trans h
      | some t =>
        rw [hn] at h
        refine mem_columns_of_mem (List.mem_of_find?_eq_some hn) ?_
        rw [columnsIn_eq, name_of_named? hn, List.append_cons above n rest]
        exact List.mem_cons_of_mem _ (ih h (above ++ [n]))

theorem exists_of_mem_columns (h : Distinct ss) (hc : c ∈ columns rows above ss) :
    ∃ path s, find? path ss = some s ∧ c = columnAt rows (above ++ path) s := by
  induction ss using Shape.induction_below generalizing above with
  | below ss ih =>
    rw [columns_eq_flatMap, List.mem_flatMap] at hc
    obtain ⟨s, hs, hc⟩ := hc
    have hn := named?_of_mem h.nodup hs
    rw [columnsIn_eq, List.mem_cons] at hc
    rcases hc with rfl | hc
    · exact ⟨[s.name], s, hn, rfl⟩
    · obtain ⟨path, t, ht, rfl⟩ := ih s hs (h.named? hn) hc
      have hp : path ≠ [] := by
        rintro rfl
        cases ht
      refine ⟨s.name :: path, t, ?_, by rw [List.append_cons above s.name path]⟩
      rw [find?_cons, if_neg hp, hn]
      exact ht

/-- **The columns of shapes** are those of the shapes at all paths. -/
theorem mem_columns (h : Distinct ss) : c ∈ columns rows [] ss ↔
    ∃ s, find? c.path ss = some s ∧ c = columnAt rows c.path s := by
  constructor
  · intro hc
    obtain ⟨path, s, hs, rfl⟩ := exists_of_mem_columns h hc
    exact ⟨s, hs, rfl⟩
  · rintro ⟨s, hs, hc⟩
    rw [hc]
    exact mem_columns_of_find? hs []

/-- **No path has two columns.** -/
theorem nodup_paths_columns (h : Distinct ss) (rows : Nat) (above : Path) :
    ((columns rows above ss).map Column.path).Nodup := by
  induction ss using Shape.induction_below generalizing above with
  | below ss ih =>
    have hsplit : (columns rows above ss).map Column.path = ss.flatMap fun s =>
        (columnsIn rows above s).map Column.path := by
      rw [columns_eq_flatMap, List.map_flatMap]
    -- every path of a branch goes through the name of the branch
    have hthrough : ∀ (s : Shape) (path : Path), path ∈ (columnsIn rows above s).map Column.path →
        ∃ rest, path = above ++ s.name :: rest := by
      intro s path hp
      obtain ⟨c, hc, rfl⟩ := List.mem_map.mp hp
      rw [columnsIn_eq, List.mem_cons] at hc
      rcases hc with rfl | hc
      · exact ⟨[], rfl⟩
      · obtain ⟨n, rest, -, hpath⟩ := path_of_mem_columns hc
        exact ⟨n :: rest, by rw [hpath, List.append_assoc]; rfl⟩
    rw [hsplit, List.nodup_flatMap]
    constructor
    · intro s hs
      rw [columnsIn_eq, List.map_cons, List.nodup_cons]
      refine ⟨fun hp => ?_, ih s hs (h.named? (named?_of_mem h.nodup hs)) _⟩
      obtain ⟨c, hc, heq⟩ := List.mem_map.mp hp
      obtain ⟨n, rest, -, hpath⟩ := path_of_mem_columns hc
      exact List.cons_ne_nil n rest (List.append_right_eq_self.mp (hpath.symm.trans heq))
    · refine (List.pairwise_map.mp h.nodup).imp fun {s t} hne => ?_
      intro path hs ht
      obtain ⟨rest, rfl⟩ := hthrough s path hs
      obtain ⟨rest', heq⟩ := hthrough t _ ht
      exact hne (List.cons.inj (List.append_cancel_left heq)).1

/-! ## Columns directly below a path -/

/-- The column lies directly below the path. -/
def isChild (path : Path) (c : Column) : Bool :=
  c.path.dropLast == path

theorem dropLast_append_cons (above : Path) (name : String) (rest : Path) :
    (above ++ name :: rest).dropLast = above ++ (name :: rest).dropLast :=
  List.dropLast_append_of_ne_nil (List.cons_ne_nil name rest)

/-- A column below the name of a shape lies directly below a path that leads through this name. -/
theorem isChild_of_mem_columnsIn (hc : c ∈ columns rows (above ++ [name]) ss)
    (hp : isChild (above ++ path) c = true) : ∃ rest, path = name :: rest := by
  obtain ⟨m, rest, -, hpath⟩ := path_of_mem_columns hc
  rw [isChild, hpath, ← List.append_cons, dropLast_append_cons, beq_iff_eq,
    List.append_cancel_left_eq, List.dropLast_cons_of_ne_nil (List.cons_ne_nil m rest)] at hp
  exact ⟨_, hp.symm⟩

/-- Directly below the path of the shapes there is just the column of each. -/
theorem children_columnsIn_nil (rows : Nat) (above : Path) (s : Shape) :
    (columnsIn rows above s).filter (isChild above) = [columnAt rows (above ++ [s.name]) s] := by
  have hself : isChild above (columnAt rows (above ++ [s.name]) s) = true := by
    simp [isChild, columnAt]
  have hbelow : (columns rows (above ++ [s.name]) s.shapes).filter (isChild above) = [] := by
    refine List.filter_eq_nil_iff.mpr fun c hc hp => ?_
    rw [← List.append_nil above] at hp
    obtain ⟨rest, hr⟩ := isChild_of_mem_columnsIn hc hp
    cases hr
  rw [columnsIn_eq, List.filter_cons, if_pos hself, hbelow]

/-- Further below there are only columns of the shape that the path leads through. -/
theorem children_columnsIn_cons (rows : Nat) (above : Path) (name : String) (rest : Path)
    (s : Shape) :
    (columnsIn rows above s).filter (isChild (above ++ name :: rest)) =
      if s.name = name then
        (columns rows (above ++ [name]) s.shapes).filter (isChild (above ++ [name] ++ rest))
      else [] := by
  have hself : ¬ isChild (above ++ name :: rest) (columnAt rows (above ++ [s.name]) s) = true := by
    simp [isChild, columnAt]
  rw [columnsIn_eq, List.filter_cons, if_neg hself]
  split
  · next hn =>
    subst hn
    rw [List.append_assoc, List.singleton_append]
  · next hn =>
    refine List.filter_eq_nil_iff.mpr fun c hc hp => ?_
    obtain ⟨rest', hr⟩ := isChild_of_mem_columnsIn hc hp
    exact hn (List.cons.inj hr).1.symm

theorem flatMap_named? {α : Type} (h : (ss.map Shape.name).Nodup) (name : String)
    (g : Shape → List α) :
    (ss.flatMap fun s => if s.name = name then g s else []) =
      ((named? name ss).map g).getD [] := by
  induction ss with
  | nil => rfl
  | cons s rest ih =>
    rw [List.map_cons, List.nodup_cons] at h
    rw [List.flatMap_cons, ih h.2, named?_cons]
    split
    · next hn =>
      subst hn
      rw [named?_eq_none.mpr h.1]
      exact List.append_nil _
    · rfl

/-- The columns directly below a path are those of the shapes there, in their order. -/
theorem children_columns (h : Distinct ss) (rows : Nat) (above path : Path) :
    (columns rows above ss).filter (isChild (above ++ path)) =
      (under path ss).map fun s => columnAt rows (above ++ path ++ [s.name]) s := by
  induction path generalizing above ss with
  | nil =>
    rw [columns_eq_flatMap, List.append_nil, List.filter_flatMap]
    simp only [children_columnsIn_nil]
    rw [← List.map_eq_flatMap]
    rfl
  | cons n rest ih =>
    rw [columns_eq_flatMap, List.filter_flatMap]
    simp only [children_columnsIn_cons]
    rw [flatMap_named? h.nodup, under, List.append_cons above n rest]
    cases hn : named? n ss with
    | none =>
      show [] = (under rest []).map _
      rw [under_nil]
      rfl
    | some s => exact ih (h.named? hn) (above ++ [n])

@[simp]
theorem name_columnAt (rows : Nat) (path : Path) (s : Shape) :
    (columnAt rows (path ++ [s.name]) s).name = s.name := by
  simp [columnAt, Column.name]

/-- **The columns directly below a path** have the names of the shapes there, in their order. -/
theorem names_children_columns (h : Distinct ss) (rows : Nat) (above path : Path) :
    ((columns rows above ss).filter (isChild (above ++ path))).map Column.name =
      (under path ss).map Shape.name := by
  rw [children_columns h, List.map_map]
  exact List.map_congr_left fun s _ => name_columnAt rows _ s

end Shape

/-! ## Schemas -/

namespace RowSchema

variable {s : RowSchema} {c : Column} {path : Path}

theorem mem_columns_snapshot (h : Shape.Distinct s.shapes) : c ∈ s.snapshot.columns ↔
    ∃ t, Shape.find? c.path s.held = some t ∧ c = Shape.columnAt s.rows c.path t :=
  Shape.mem_columns (distinct_held h)

theorem children_snapshot (h : Shape.Distinct s.shapes) (path : Path) :
    s.snapshot.children path =
      (Shape.under path s.held).map fun t => Shape.columnAt s.rows (path ++ [t.name]) t :=
  Shape.children_columns (distinct_held h) s.rows [] path

theorem names_children_snapshot (h : Shape.Distinct s.shapes) (path : Path) :
    (s.snapshot.children path).map Column.name = (Shape.under path s.held).map Shape.name :=
  Shape.names_children_columns (distinct_held h) s.rows [] path

theorem names_snapshot (h : Shape.Distinct s.shapes) :
    s.snapshot.names = s.held.map Shape.name :=
  names_children_snapshot h []

end RowSchema

end Tabular
