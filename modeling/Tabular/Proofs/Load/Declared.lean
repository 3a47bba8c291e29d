import Tabular.Proofs.Load.Typed
import Tabular.Proofs.Load.Staged
import Tabular.Proofs.Schema.Later

/-!
# Rows of the declared types

A row keeps the shape that the schema had when it was given, and its table gets the types that the
schema comes to in the end. Since a kind once known stays, the row has values of these types.

* `ColumnType.at?`, **`kindAt_ofBranches`**: the type at a path;
* `ColumnType.Fits`: a row whose values are of the declared types;
* **`fits_pad_append`**: the rows of a schema, and its types after further rows.
-/

namespace Tabular.Sql.ColumnType

open Shape (branchIn branches kindAt)

variable {rows : Nat} {above path : Path} {ss : List Shape} {s : Shape} {name : String}

/-- The fields of a structure; other types have none. -/
def fields : ColumnType → List (String × ColumnType)
  | .struct n t rest => (n, t) :: rest
  | _ => []

/-- The type at a path below fields. -/
def at? : Path → List (String × ColumnType) → Option ColumnType
  | [], _ => none
  | [n], es => es.lookup n
  | n :: rest, es => (es.lookup n).bind fun t => at? rest t.fields

/-- The kind of the columns that have a type. -/
def kind : ColumnType → Kind
  | .varchar => .scalar
  | _ => .map

theorem lookup_ofBranches (rows : Nat) (above : Path) (name : String) (ss : List Shape) :
    (ofBranches (branches rows above ss)).lookup name =
      (Shape.named? name ss).map fun s => ofBranch (branchIn rows above s) := by
  induction ss with
  | nil => rfl
  | cons s rest ih =>
    rw [ofBranches_branches_cons, List.lookup_cons, ih, Shape.named?_cons]
    by_cases hn : s.name = name
    · rw [if_pos hn, beq_iff_eq.mpr hn.symm]
      rfl
    · rw [if_neg hn, beq_eq_false_iff_ne.mpr (Ne.symm hn)]

theorem fields_ofBranch (rows : Nat) (above : Path) (s : Shape) :
    (ofBranch (branchIn rows above s)).fields =
      ofBranches (branches rows (above ++ [s.name]) s.shapes) := by
  cases s with
  | scalar n seen => rfl
  | map n seen inner =>
    cases inner with
    | nil => rfl
    | cons t rest => rfl

theorem kind_ofBranch (rows : Nat) (above : Path) (s : Shape) :
    (ofBranch (branchIn rows above s)).kind = s.kind := by
  cases s with
  | scalar n seen => rfl
  | map n seen inner => cases inner <;> rfl

/-- **The types of shapes** are of their kinds, at every path. -/
theorem kindAt_ofBranches (rows : Nat) (above path : Path) (ss : List Shape) :
    (at? path (ofBranches (branches rows above ss))).map kind = kindAt path ss := by
  induction path generalizing above ss with
  | nil => rfl
  | cons n rest ih =>
    cases rest with
    | nil =>
      rw [at?, lookup_ofBranches, Shape.kindAt_singleton, Option.map_map]
      exact congrArg (Option.map · _) (funext fun s => kind_ofBranch rows above s)
    | cons m rest =>
      rw [at?, lookup_ofBranches, Shape.kindAt_cons (List.cons_ne_nil m rest)]
      · cases Shape.named? n ss with
        | none => rfl
        | some s =>
          rw [Option.map_some, Option.bind_some, Option.bind_some, fields_ofBranch]
          exact ih _ _
      · exact List.cons_ne_nil m rest

theorem eq_varchar_of_kind {t : ColumnType} (h : t.kind = .scalar) : t = .varchar := by
  cases t with
  | varchar => rfl
  | _ => cases h

/-! ## Rows -/

/-- The values of a row are of declared types: a text is a `VARCHAR`, a map is a `STRUCT` or `JSON`,
and only nulls stand where nothing is declared. -/
def Fits (es : List (String × ColumnType)) (row : Entries Value) : Prop :=
  ∀ path, path ≠ [] → ∀ v, (Value.map row).at? path = some v →
    match v with
    | .null => True
    | .text _ => at? path es = some .varchar
    | .map _ => ∃ t, at? path es = some t ∧ t ≠ .varchar
    | _ => False

/-- A row fits if its values are texts, maps and nulls, and those that are not null are of the kinds
of the types. -/
theorem fits_of_kinds {es : List (String × ColumnType)} {row : Entries Value}
    (hcell : (Value.map row).IsCell)
    (htext : ∀ path, path ≠ [] → ∀ s, (Value.map row).at? path = some (.text s) →
      (at? path es).map kind = some .scalar)
    (hmap : ∀ path, path ≠ [] → ∀ entries, (Value.map row).at? path = some (.map entries) →
      (at? path es).map kind = some .map) : Fits es row := by
  intro path hp v hv
  have hv' : (Value.map row).follow path = v := by rw [Value.follow_eq, hv, Option.getD_some]
  have hc := hcell.follow path
  rw [hv'] at hc
  cases hc with
  | null => trivial
  | text s =>
    obtain ⟨t, ht, hk⟩ := Option.map_eq_some_iff.mp (htext path hp s hv)
    exact eq_varchar_of_kind hk ▸ ht
  | map entries =>
    obtain ⟨t, ht, hk⟩ := Option.map_eq_some_iff.mp (hmap path hp entries hv)
    refine ⟨t, ht, ?_⟩
    rintro rfl
    cases hk

end Tabular.Sql.ColumnType

/-! ## Rows of a schema -/

namespace Tabular.RowSchema

open Sql.ColumnType (ofBranches Fits)

variable {p : Projection} {rows later : List Row} {record : Entries Value} {path : Path}

theorem kindAt_grows (rows later : List Row) {kind : Kind}
    (h : Shape.kindAt path ((start p).foldAll rows).1.shapes = some kind) :
    Shape.kindAt path ((start p).foldAll (rows ++ later)).1.held = some kind :=
  grows_held _ _ _ (grows_foldAll_append (start p) rows later _ _ h)

/-- What the record of a row has is of a kind that is known after all rows. -/
theorem kindAt_of_follow (hr : Row.AllRegular rows) (h : record ∈ ((start p).foldAll rows).2)
    (hp : path ≠ []) (hv : (Value.map record).follow path ≠ .null) (later : List Row) :
    ∃ kind, Shape.kindAt path ((start p).foldAll (rows ++ later)).1.held = some kind ∧
      kind.Bears ((Value.map record).follow path) := by
  rw [Value.follow_eq] at hv ⊢
  cases hat : (Value.map record).at? path with
  | none =>
    rw [hat] at hv
    exact absurd rfl hv
  | some v =>
    obtain ⟨kind, hkind, hbears⟩ := carries_of_mem hr h path hp v hat
    exact ⟨kind, kindAt_grows rows later hkind, hbears⟩

/-- A text that a padded record shows stands at a text column after all rows. -/
theorem kindAt_of_shows_text (hr : Row.AllRegular rows)
    (h : record ∈ ((start p).foldAll rows).2) (hp : path ≠ []) {s : String}
    (hshows : Shows (Shape.kindAt path ((start p).foldAll rows).1.held) path
      ((Value.map record).follow path) (.text s)) (later : List Row) :
    Shape.kindAt path ((start p).foldAll (rows ++ later)).1.held = some .scalar := by
  have hgiven : (Value.map record).follow path = .text s := by
    generalize Shape.kindAt path _ = known at hshows
    cases known with
    | none => cases hshows
    | some kind =>
      cases kind with
      | scalar =>
        rw [Shows] at hshows
        split at hshows
        · cases hshows
        · exact hshows.symm
      | map =>
        rw [Shows] at hshows
        split at hshows <;> cases hshows
  have hne : (Value.map record).follow path ≠ .null := by
    rw [hgiven]
    exact fun hnull => by cases hnull
  obtain ⟨kind, hkind, hbears⟩ := kindAt_of_follow hr h hp hne later
  rw [hgiven] at hbears
  cases kind with
  | scalar => exact hkind
  | map => rcases hbears with hbears | hbears <;> cases hbears

/-- A map that a padded record shows stands at a map column after all rows. -/
theorem kindAt_of_shows_map (hr : Row.AllRegular rows)
    (h : record ∈ ((start p).foldAll rows).2) (hp : path ≠ []) {entries : List (String × Value)}
    (hshows : Shows (Shape.kindAt path ((start p).foldAll rows).1.held) path
      ((Value.map record).follow path) (.map entries)) (later : List Row) :
    Shape.kindAt path ((start p).foldAll (rows ++ later)).1.held = some .map := by
  have hgiven : ((Value.map record).follow path).isMap = true ∨ p.wantsAttributes = true ∧
      path = attributesPath := by
    cases hknown : Shape.kindAt path ((start p).foldAll rows).1.held with
    | none =>
      rw [hknown] at hshows
      cases hshows
    | some kind =>
      rw [hknown] at hshows
      cases kind with
      | scalar =>
        rw [Shows] at hshows
        split at hshows
        · cases hshows
        · exact Or.inl (congrArg Value.isMap hshows.symm)
      | map =>
        rw [Shows] at hshows
        split at hshows
        · next hor =>
          rcases Bool.or_eq_true_iff.mp hor with hmap | hattr
          · exact Or.inl hmap
          · refine Or.inr ⟨?_, beq_iff_eq.mp hattr⟩
            by_contra hw
            rw [beq_iff_eq.mp hattr, attributesPath, Shape.kindAt_of_named?_none
              (named?_held_attributes hr (Bool.not_eq_true _ ▸ hw))] at hknown
            cases hknown
        · cases hshows
  rcases hgiven with hmap | ⟨hw, rfl⟩
  · have hne : (Value.map record).follow path ≠ .null := fun hnull => by
      rw [hnull] at hmap
      cases hmap
    obtain ⟨kind, hkind, hbears⟩ := kindAt_of_follow hr h hp hne later
    cases kind with
    | map => exact hkind
    | scalar => cases hmap.symm.trans hbears
  · exact kindAt_attributes hw _

/-- **The rows of a schema fit its types after further rows.** -/
theorem fits_pad_append (hr : Row.AllRegular rows) (h : record ∈ ((start p).foldAll rows).2)
    (later : List Row) :
    Fits (ofBranches (snapshotAfter p (rows ++ later)).branches)
      ((snapshotAfter p rows).pad record) := by
  have hcell : (Value.map ((snapshotAfter p rows).pad record)).IsCell :=
    isCell_pad (isCell_foldAll _ rows record h) _
  have htypes : (snapshotAfter p (rows ++ later)).branches =
      Shape.branches _ [] ((start p).foldAll (rows ++ later)).1.held :=
    Shape.branches_columns (distinct_held (distinct_after p _))
  have hshows : ∀ path, path ≠ [] → ∀ v,
      (Value.map ((snapshotAfter p rows).pad record)).at? path = some v →
      Shows (Shape.kindAt path ((start p).foldAll rows).1.held) path
        ((Value.map record).follow path) v := by
    intro path hp v hv
    have hfollow := @follow_padWith ((start p).foldAll rows).1.rows _ _
      (distinct_held (distinct_after p rows)) hp [] record
    rwa [← pad_snapshotAfter, Value.follow_eq path (.map ((snapshotAfter p rows).pad record)), hv,
      Option.getD_some] at hfollow
  rw [htypes]
  refine Sql.ColumnType.fits_of_kinds hcell (fun path hp s hv => ?_) fun path hp entries hv => ?_
  · rw [Sql.ColumnType.kindAt_ofBranches]
    exact kindAt_of_shows_text hr h hp (hshows path hp _ hv) later
  · rw [Sql.ColumnType.kindAt_ofBranches]
    exact kindAt_of_shows_map hr h hp (hshows path hp _ hv) later

end Tabular.RowSchema
