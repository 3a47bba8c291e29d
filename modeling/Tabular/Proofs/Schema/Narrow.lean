import Tabular.Proofs.Reader.Narrow
import Tabular.Proofs.Schema.Fit
import Tabular.Proofs.Schema.Thin

/-!
# Schemas under a narrower projection

* `thin_withAttributes`, `thinEntries_putAll`: the attributes of a row, and the record they open;
* `RowSchema.Thinned`: the schema of every column, and that of a projection;
* **`Thinned.fold`**, **`Thinned.foldAll`**: the rows of two readings that went the same way.
-/

namespace Tabular

/-! ## Attributes -/

section Attributes

variable {keep : Keep} {key : String}

theorem Shape.thin_touch_of_keep (hk : keep [key] = true) (ss : List Shape) :
    thin keep (touch ss key) = touch (thin keep ss) key := by
  have hn := named?_thin hk ss
  unfold touch
  cases hs : named? key ss with
  | none =>
    rw [hs, Option.map_none] at hn
    simp only [hn]
    rw [thin_append, thin_cons_of_keep hk]
    rfl
  | some s =>
    rw [hs, Option.map_some] at hn
    simp only [hn]
    exact thin_change hk name_again fun s _ => thinIn_again keep s

theorem Shape.thin_touch_of_not_keep (hk : keep [key] = false) (ss : List Shape) :
    thin keep (touch ss key) = thin keep ss := by
  unfold touch
  split
  · rw [thin_append, thin_cons_of_not_keep (by exact hk)]
    exact List.append_nil _
  · exact thin_change_of_not_keep hk name_again ss

theorem Shape.thin_foldl_touch (keep : Keep) (keys : List String) (ss : List Shape) :
    thin keep (keys.foldl touch ss) =
      (keys.filter fun key => keep [key]).foldl touch (thin keep ss) := by
  induction keys generalizing ss with
  | nil => rfl
  | cons key rest ih =>
    rw [List.foldl_cons, ih]
    cases hk : keep [key] with
    | true => rw [List.filter_cons_of_pos (by exact hk), List.foldl_cons, thin_touch_of_keep hk]
    | false => rw [List.filter_cons_of_neg (by simp [hk]), thin_touch_of_not_keep hk]

theorem RowSchema.thin_withAttributes (hk : keep attributesPath = true) (keys : List String)
    (ss : List Shape) :
    Shape.thin keep (withAttributes keys ss) =
      withAttributes (keys.filter fun key => keep [attributesName, key]) (Shape.thin keep ss) := by
  refine Shape.thin_change hk (by simp) fun s hs => ?_
  rw [← Shape.thinIn_again]
  refine Shape.thinIn_mapShapes ?_
  rw [Shape.thin_foldl_touch, Shape.name_again, Shape.name_of_named? hs]
  rfl

theorem Value.thinEntries_put_of_keep (hk : keep [key] = true) (v : Value)
    (es : List (String × Value)) :
    thinEntries keep (Entries.put key v es) =
      Entries.put key (thin (keep.below key) v) (thinEntries keep es) := by
  induction es with
  | nil => exact thinEntries_cons_of_keep hk
  | cons e rest ih =>
    obtain ⟨k, w⟩ := e
    rw [Entries.put]
    by_cases h : k = key
    · subst h
      rw [if_pos rfl, thinEntries_cons_of_keep hk, thinEntries_cons_of_keep hk, Entries.put,
        if_pos rfl]
    · rw [if_neg h]
      cases hkeep : keep [k] with
      | true =>
        rw [thinEntries_cons_of_keep hkeep, thinEntries_cons_of_keep hkeep, Entries.put, if_neg h, ih]
      | false =>
        rw [thinEntries_cons_of_not_keep hkeep, thinEntries_cons_of_not_keep hkeep, ih]

theorem Value.thinEntries_put_of_not_keep (hk : keep [key] = false) (v : Value)
    (es : List (String × Value)) :
    thinEntries keep (Entries.put key v es) = thinEntries keep es := by
  induction es with
  | nil => exact thinEntries_cons_of_not_keep hk
  | cons e rest ih =>
    obtain ⟨k, w⟩ := e
    rw [Entries.put]
    by_cases h : k = key
    · subst h
      rw [if_pos rfl, thinEntries_cons_of_not_keep hk, thinEntries_cons_of_not_keep hk]
    · rw [if_neg h]
      cases hkeep : keep [k] with
      | true => rw [thinEntries_cons_of_keep hkeep, thinEntries_cons_of_keep hkeep, ih]
      | false => rw [thinEntries_cons_of_not_keep hkeep, thinEntries_cons_of_not_keep hkeep, ih]

theorem Value.thinEntries_putAll (keep : Keep) (es later : List (String × Value)) :
    thinEntries keep (Entries.putAll es later) =
      Entries.putAll (thinEntries keep es) (thinEntries keep later) := by
  induction later generalizing es with
  | nil => rfl
  | cons e rest ih =>
    obtain ⟨k, v⟩ := e
    rw [Entries.putAll, List.foldl_cons, ← Entries.putAll, ih]
    cases hk : keep [k] with
    | true => rw [thinEntries_put_of_keep hk, thinEntries_cons_of_keep hk]; rfl
    | false => rw [thinEntries_put_of_not_keep hk, thinEntries_cons_of_not_keep hk]

theorem thinEntries_attributeEntries (keep : Keep) (attributes : Entries (Option String)) :
    Value.thinEntries keep (attributeEntries attributes) =
      attributeEntries (attributes.filter fun a => keep [a.1]) := by
  have htext : ∀ (keep : Keep) (v : Option String), Value.thin keep (.ofText? v) = .ofText? v :=
    fun keep v => Value.thin_of_not_isMap (by cases v <;> rfl) keep
  induction attributes with
  | nil => rfl
  | cons a rest ih =>
    rw [attributeEntries, List.map_cons, ← attributeEntries]
    cases hk : keep [a.1] with
    | true =>
      rw [Value.thinEntries_cons_of_keep hk, htext, ih, List.filter_cons_of_pos (by exact hk)]
      rfl
    | false =>
      rw [Value.thinEntries_cons_of_not_keep hk, ih, List.filter_cons_of_neg (by simp [hk])]

end Attributes

namespace RowSchema

variable {p : Projection} {w n : RowSchema} {row row' : Row}

/-! ## Schemas that grow together -/

/-- A schema of every column, and that of a projection behind the kept part of the same rows. -/
structure Thinned (p : Projection) (wide narrow : RowSchema) : Prop where
  all : wide.projection = .all
  columns : narrow.projection = p
  rows : narrow.rows = wide.rows
  shapes : narrow.shapes = Shape.thin p.admits wide.shapes

theorem thinned_start (p : Projection) : Thinned p (start .all) (start p) := by
  refine ⟨rfl, rfl, rfl, ?_⟩
  show (if p.wantsAttributes then _ else _) = Shape.thin p.admits [.map attributesName 0 []]
  cases hw : p.wantsAttributes with
  | true =>
    rw [if_pos rfl, Shape.thin_cons_of_keep (s := .map attributesName 0 []) hw]
    rfl
  | false =>
    rw [if_neg Bool.false_ne_true, Shape.thin_cons_of_not_keep (s := .map attributesName 0 []) hw]
    rfl

theorem Thinned.wants (h : Thinned p w n) : w.projection.wantsAttributes = true := by
  rw [h.all]
  rfl

theorem Thinned.attributed (h : Thinned p w n) (hr : Row.Thinned p row row') :
    n.attributed row' = Shape.thin p.admits (w.attributed row) := by
  rw [RowSchema.attributed, RowSchema.attributed, if_pos h.wants, h.columns]
  cases hw : p.wantsAttributes with
  | true =>
    have hk : p.admits [attributesName] = true := hw
    rw [if_pos rfl, thin_withAttributes hk, ← h.shapes, hr.attributes,
      Entries.keys, Entries.keys, List.filter_map]
    rfl
  | false =>
    have hk : p.admits [attributesName] = false := hw
    rw [if_neg Bool.false_ne_true, h.shapes]
    exact (Shape.thin_change_of_not_keep hk (by simp) _).symm

theorem Thinned.opening (h : Thinned p w n) (hr : Row.Thinned p row row') :
    n.opening row' = Value.thinEntries p.admits (w.opening row) := by
  rw [RowSchema.opening, RowSchema.opening, if_pos h.wants, h.columns]
  cases hw : p.wantsAttributes with
  | true =>
    have hk : p.admits [attributesName] = true := hw
    rw [if_pos rfl, Value.thinEntries_cons_of_keep hk, Value.thin,
      thinEntries_attributeEntries, hr.attributes]
    rfl
  | false =>
    have hk : p.admits [attributesName] = false := hw
    rw [if_neg Bool.false_ne_true, Value.thinEntries_cons_of_not_keep hk]
    rfl

/-- **One more row.** -/
theorem Thinned.fold (h : Thinned p w n) (hr : Row.Thinned p row row') :
    Thinned p (w.fold row).schema (n.fold row').schema ∧
      (n.fold row').record = Value.thinEntries p.admits (w.fold row).record := by
  have hfields := Shape.absorb_thin p.admits row.ordinal [] (w.attributed row) row.fields
  obtain ⟨hshapes, hentries⟩ :=
    Shape.absorb_bare row'.ordinal [] (n.attributed row') row'.fields
  rw [hr.fields, hr.ordinal, h.attributed hr] at hshapes hentries
  refine ⟨⟨h.all, h.columns, congrArg (· + 1) h.rows, ?_⟩, ?_⟩
  · rw [shapes_fold, shapes_fold, ← hfields.shapes, hshapes, hr.ordinal, h.attributed hr]
  · rw [record_fold, record_fold, Value.thinEntries_putAll, ← hfields.entries, ← h.opening hr,
      hentries, hr.ordinal, h.attributed hr]

/-- **Any number of rows.** -/
theorem Thinned.foldAll (h : Thinned p w n) {rows rows' : List Row}
    (hr : List.Forall₂ (Row.Thinned p) rows rows') :
    Thinned p (w.foldAll rows).1 (n.foldAll rows').1 ∧
      (n.foldAll rows').2 = (w.foldAll rows).2.map (Value.thinEntries p.admits) := by
  induction hr generalizing w n with
  | nil => exact ⟨h, rfl⟩
  | cons hrow _ ih =>
    obtain ⟨hs, hrecord⟩ := h.fold hrow
    obtain ⟨hlast, hrecords⟩ := ih hs
    exact ⟨hlast, congrArg₂ List.cons hrecord hrecords⟩

end RowSchema

end Tabular
