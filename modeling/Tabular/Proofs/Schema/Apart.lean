import Mathlib.Data.List.Induction
import Tabular.Proofs.Row.Reserved
import Tabular.Proofs.Schema.Agreement
import Tabular.Proofs.Schema.Fit

/-!
# Attributes stand apart

No field of a regular row is named as its attributes. So a fresh schema holds the attributes of its
rows and the shapes of their fields side by side, and each can be looked at without the other.

* `Shape.absorb_cons`: a shape that no field meets stays where it is;
* `RowSchema.foldAll_append`, `getElem?_foldAll`: some rows after others, and one row of many;
* `Shape.ofAttributes`, `Shape.ofRows`, **`shapes_foldAll_start`**: the two parts of a schema;
* **`record_fold_start`**, **`conflicts_fold_start`**: what one more row comes to.
-/

namespace Tabular

namespace Shape

variable {ss : List Shape} {t : Shape} {fs : List Field} {f : Field}

/-! ## Shapes that no field meets -/

/-- The same behind another shape. -/
def Absorbed.behind (t : Shape) (a : Absorbed) : Absorbed :=
  { a with shapes := t :: a.shapes }

theorem absorbField_cons (h : t.name ≠ f.name) (row : Int) (path : Path) (ss : List Shape) :
    absorbField row path (t :: ss) f = (absorbField row path ss f).behind t := by
  cases f with
  | scalar n k v =>
    simp only [absorbField, named?_cons, if_neg (show ¬ t.name = n from h), change]
    split <;> rfl
  | map n k fs =>
    simp only [absorbField, named?_cons, if_neg (show ¬ t.name = n from h), change]
    split <;> rfl

theorem absorb_cons (h : t.name ∉ fs.map Field.name) (row : Int) (path : Path) (ss : List Shape) :
    absorb row path (t :: ss) fs = (absorb row path ss fs).behind t := by
  induction fs generalizing ss with
  | nil => rfl
  | cons f rest ih =>
    rw [List.map_cons, List.mem_cons, not_or] at h
    have hf := absorbField_cons h.1 row path ss
    have hrest := ih h.2 (absorbField row path ss f).shapes
    simp only [absorb, hf]
    simp only [Absorbed.behind] at hrest ⊢
    rw [hrest]

end Shape

/-! ## Rows after rows -/

namespace RowSchema

variable {s : RowSchema} {rows now later : List Row} {row : Row}

theorem foldAll_append (s : RowSchema) (now later : List Row) :
    s.foldAll (now ++ later) =
      (((s.foldAll now).1.foldAll later).1,
        (s.foldAll now).2 ++ ((s.foldAll now).1.foldAll later).2) := by
  induction now generalizing s with
  | nil => rfl
  | cons row rest ih => simp only [List.cons_append, foldAll, ih]

theorem foldAll_concat (s : RowSchema) (rows : List Row) (row : Row) :
    (s.foldAll (rows ++ [row])).1 = ((s.foldAll rows).1.fold row).schema := by
  rw [foldAll_append]
  rfl

theorem grows_foldAll_append (s : RowSchema) (now later : List Row) :
    Shape.Grows (s.foldAll now).1.shapes (s.foldAll (now ++ later)).1.shapes := by
  rw [foldAll_append]
  exact grows_foldAll _ later

/-- The shapes after one row of many grow into those after all. -/
theorem grows_foldAll_of_getElem? (s : RowSchema) {rows : List Row} {row : Row} {i : Nat}
    (hi : rows[i]? = some row) :
    Shape.Grows (s.foldAll (rows.take i ++ [row])).1.shapes (s.foldAll rows).1.shapes := by
  have hone : rows.take (i + 1) = rows.take i ++ [row] := by
    rw [List.take_add_one, hi]
    rfl
  have hgrows := grows_foldAll_append s (rows.take (i + 1)) (rows.drop (i + 1))
  rwa [List.take_append_drop, hone] at hgrows

theorem projection_foldAll (s : RowSchema) (rows : List Row) :
    (s.foldAll rows).1.projection = s.projection := by
  induction rows generalizing s with
  | nil => rfl
  | cons row rest ih => exact ih (s.fold row).schema

theorem rows_foldAll (s : RowSchema) (rows : List Row) :
    (s.foldAll rows).1.rows = s.rows + rows.length := by
  induction rows generalizing s with
  | nil => rfl
  | cons row rest ih =>
    have hfold : (s.fold row).schema.rows = s.rows + 1 := rfl
    have hrest := ih (s.fold row).schema
    simp only [foldAll, List.length_cons]
    omega

/-- The record of one row of many. -/
theorem getElem?_foldAll (s : RowSchema) (rows : List Row) (i : Nat) :
    (s.foldAll rows).2[i]? =
      rows[i]?.map fun row => ((s.foldAll (rows.take i)).1.fold row).record := by
  induction rows generalizing s i with
  | nil => rfl
  | cons row rest ih =>
    cases i with
    | zero => rfl
    | succ i => exact ih (s.fold row).schema i

end RowSchema

/-! ## The two parts of a schema -/

namespace Shape

/-- The attributes of some rows, where a projection wants them. -/
def ofAttributes (p : Projection) (rows : List Row) : List Shape :=
  if p.wantsAttributes then
    [.map attributesName rows.length
      ((rows.flatMap fun row => Entries.keys row.attributes).foldl touch [])]
  else []

/-- The shapes that the fields of some rows come to. -/
def ofRows (rows : List Row) : List Shape :=
  rows.foldl (fun ss row => (absorb row.ordinal [] ss row.fields).shapes) []

/-- What the fields of one more row come to. -/
def next (before : List Row) (row : Row) : Absorbed :=
  absorb row.ordinal [] (ofRows before) row.fields

theorem ofRows_concat (rows : List Row) (row : Row) :
    ofRows (rows ++ [row]) = (next rows row).shapes := by
  rw [ofRows, List.foldl_append]
  rfl

/-- Away from the attributes there are the shapes of the fields only. -/
theorem find?_ofAttributes_append {path : Path} (h : path.head? ≠ some attributesName)
    (p : Projection) (rows : List Row) (ss : List Shape) :
    find? path (ofAttributes p rows ++ ss) = find? path ss := by
  cases path with
  | nil => rfl
  | cons n rest =>
    refine find?_congr ?_ rest
    have hn : attributesName ≠ n := by simpa [eq_comm] using h
    unfold ofAttributes
    split
    · exact (named?_cons n _ ss).trans (if_neg hn)
    · rfl

theorem kindAt_ofAttributes_append {path : Path} (h : path.head? ≠ some attributesName)
    (p : Projection) (rows : List Row) (ss : List Shape) :
    kindAt path (ofAttributes p rows ++ ss) = kindAt path ss := by
  rw [kindAt, find?_ofAttributes_append h, kindAt]

theorem under_ofAttributes_append {path : Path} (h : path.head? ≠ some attributesName)
    (hp : path ≠ []) (p : Projection) (rows : List Row) (ss : List Shape) :
    under path (ofAttributes p rows ++ ss) = under path ss := by
  obtain ⟨n, rest, rfl⟩ := List.exists_cons_of_ne_nil hp
  have hn : [n].head? ≠ some attributesName := h
  have hnamed := find?_ofAttributes_append hn p rows ss
  rw [find?, find?] at hnamed
  rw [under, hnamed, under]

end Shape

/-- Every row is regular. -/
def Row.AllRegular (rows : List Row) : Prop :=
  ∀ row ∈ rows, row.IsRegular

namespace Row.AllRegular

variable {rows : List Row} {row : Row}

theorem of_concat (h : AllRegular (rows ++ [row])) : AllRegular rows ∧ row.IsRegular :=
  ⟨fun r hr => h r (List.mem_append_left _ hr),
    h row (List.mem_append_right _ (List.mem_singleton_self row))⟩

theorem concat (h : AllRegular rows) (hrow : row.IsRegular) : AllRegular (rows ++ [row]) := by
  intro r hr
  rcases List.mem_append.mp hr with hr | hr
  · exact h r hr
  · cases List.mem_singleton.mp hr
    exact hrow

theorem take (h : AllRegular rows) (n : Nat) : AllRegular (rows.take n) :=
  fun r hr => h r (List.mem_of_mem_take hr)

theorem of_getElem? (h : AllRegular rows) {i : Nat} (hi : rows[i]? = some row) : row.IsRegular :=
  h row (List.mem_of_getElem? hi)

end Row.AllRegular

namespace RowSchema

variable {p : Projection} {rows : List Row} {row : Row}

/-- The shapes that the fields of one more row come to. -/
theorem attributed_of_parts {s : RowSchema} {ss : List Shape} (hp : s.projection = p)
    (h : s.shapes = Shape.ofAttributes p rows ++ ss) (row : Row) :
    s.attributed row = Shape.ofAttributes p (rows ++ [row]) ++ ss := by
  subst hp
  unfold attributed
  unfold Shape.ofAttributes at h ⊢
  split
  · next hw =>
    rw [if_pos hw] at h
    rw [h]
    simp [withAttributes, Shape.change, Shape.name, Shape.again, Shape.mapShapes]
  · next hw =>
    rw [if_neg hw] at h
    exact h

theorem absorb_of_parts (h : row.IsRegular) (p : Projection) (rows : List Row) (ss : List Shape) :
    Shape.absorb row.ordinal [] (Shape.ofAttributes p rows ++ ss) row.fields =
      { Shape.absorb row.ordinal [] ss row.fields with
        shapes := Shape.ofAttributes p rows ++
          (Shape.absorb row.ordinal [] ss row.fields).shapes } := by
  unfold Shape.ofAttributes
  split
  · exact Shape.absorb_cons h.unreserved row.ordinal [] ss
  · rfl

/-- **A fresh schema has the attributes of its rows and the shapes of their fields.** -/
theorem shapes_foldAll_start (p : Projection) (hr : Row.AllRegular rows) :
    ((start p).foldAll rows).1.shapes = Shape.ofAttributes p rows ++ Shape.ofRows rows := by
  induction rows using List.reverseRecOn with
  | nil =>
    show (start p).shapes = _
    rw [start, Shape.ofAttributes]
    split <;> rfl
  | append_singleton rows row ih =>
    obtain ⟨hrows, hrow⟩ := hr.of_concat
    have hp : ((start p).foldAll rows).1.projection = p := projection_foldAll (start p) rows
    rw [foldAll_concat, shapes_fold, attributed_of_parts hp (ih hrows), absorb_of_parts hrow,
      Shape.ofRows_concat]
    rfl

/-- The fields of one more row come to what they come to without the attributes. -/
theorem absorb_start (hr : Row.AllRegular rows) (hrow : row.IsRegular) (p : Projection) :
    Shape.absorb row.ordinal [] (((start p).foldAll rows).1.attributed row) row.fields =
      { Shape.next rows row with
        shapes := Shape.ofAttributes p (rows ++ [row]) ++ (Shape.next rows row).shapes } := by
  have hp : ((start p).foldAll rows).1.projection = p := projection_foldAll (start p) rows
  rw [attributed_of_parts hp (shapes_foldAll_start p hr), absorb_of_parts hrow]
  rfl

/-- **The record of one more row** has its attributes first, and then its fields. -/
theorem record_fold_start (hr : Row.AllRegular rows) (hrow : row.IsRegular) (p : Projection) :
    (((start p).foldAll rows).1.fold row).record =
      (start p).opening row ++ (Shape.next rows row).entries := by
  have hopening : ((start p).foldAll rows).1.opening row = (start p).opening row := by
    rw [opening, opening, projection_foldAll]
  have hkeys : Entries.keys (Shape.next rows row).entries = row.fields.map Field.name :=
    Shape.keys_absorb row.ordinal [] (Shape.ofRows rows) row.fields
  rw [record_fold, absorb_start hr hrow, hopening]
  refine Entries.putAll_of_disjoint (hkeys ▸ hrow.distinct.nodup) fun key hkey hmem => ?_
  rw [hkeys] at hkey
  unfold opening at hmem
  split at hmem
  · cases List.mem_singleton.mp hmem
    exact hrow.unreserved hkey
  · cases hmem

/-- The fields of rows leave the name of the attributes free. -/
theorem named?_ofRows_attributes (hr : Row.AllRegular rows) :
    Shape.named? attributesName (Shape.ofRows rows) = none := by
  induction rows using List.reverseRecOn with
  | nil => rfl
  | append_singleton rows row ih =>
    obtain ⟨hrows, hrow⟩ := hr.of_concat
    rw [Shape.ofRows_concat, Shape.next, Shape.named?_absorb_of_not_mem hrow.unreserved]
    exact ih hrows

/-- The attributes of a record. -/
theorem get?_attributes_record_start (hr : Row.AllRegular rows) (hrow : row.IsRegular)
    (p : Projection) :
    Entries.get? attributesName (((start p).foldAll rows).1.fold row).record =
      if p.wantsAttributes then some (.map (attributeEntries row.attributes)) else none := by
  have hfields : Entries.get? attributesName (Shape.next rows row).entries = none := by
    rw [← Option.not_isSome_iff_eq_none]
    intro hsome
    have hmem := Entries.has_iff.mp hsome
    rw [Shape.next, Shape.keys_absorb] at hmem
    exact hrow.unreserved hmem
  rw [record_fold_start hr hrow, Entries.get?_append, hfields, Option.or_none, opening]
  show Entries.get? attributesName (if p.wantsAttributes then _ else _) = _
  split
  · exact if_pos rfl
  · rfl

/-- Away from the attributes a record has what the fields come to. -/
theorem at?_record_start (hr : Row.AllRegular rows) (hrow : row.IsRegular) (p : Projection)
    {path : Path} (hp : path ≠ []) (h : path.head? ≠ some attributesName) :
    (Value.map (((start p).foldAll rows).1.fold row).record).at? path =
      (Value.map (Shape.next rows row).entries).at? path := by
  obtain ⟨n, rest, rfl⟩ := List.exists_cons_of_ne_nil hp
  have hn : attributesName ≠ n := by simpa [eq_comm] using h
  have hopening : Entries.get? n ((start p).opening row) = none := by
    unfold opening
    split
    · exact if_neg hn
    · rfl
  rw [record_fold_start hr hrow, Value.at?_cons, Entries.get?_append, hopening, Option.none_or,
    Value.at?_cons]

/-- **The conflicts of one more row** are those of its fields. -/
theorem conflicts_fold_start (hr : Row.AllRegular rows) (hrow : row.IsRegular) (p : Projection) :
    (((start p).foldAll rows).1.fold row).conflicts = (Shape.next rows row).conflicts := by
  show (Shape.absorb row.ordinal [] (((start p).foldAll rows).1.attributed row) row.fields).own ++
    (Shape.absorb row.ordinal [] (((start p).foldAll rows).1.attributed row) row.fields).deeper = _
  rw [absorb_start hr hrow]
  rfl

end RowSchema

end Tabular
