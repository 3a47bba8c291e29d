import Tabular.Proofs.Schema.Presence

/-!
# Records that conform to their snapshot

A schema that has taken some rows brings the record of each of them into the shape of its snapshot.

* **`Shape.keys_follow_padWith`**: the keys of a map in a padded record;
* `Snapshot.InShape`, **`inShape_pad`**: records with the names of the columns at every level, which
  every padded record is;
* `Snapshot.Conforms`: the keys, kinds and nulls of a row are those that the columns promise;
* **`conforms_pad`**: padded records conform;
* **`attributes_pad`**, **`exists_not_isMap_pad`**: the attributes that all of them have, and the
  maps that one of them lacks.
-/

namespace Tabular

/-! ## Keys of padded records -/

namespace Shape

variable {rows : Nat} {ss : List Shape}

theorem keys_padWith (h : Distinct ss) (rows : Nat) (above : Path) (source : Entries Value) :
    Entries.keys (Snapshot.padWith (branches rows above ss) source) = ss.map Shape.name := by
  have hkeys : Entries.keys (Branch.padAll source (branches rows above ss)) =
      ss.map Shape.name := by
    rw [padAll_branches, Entries.keys, List.map_map]
    rfl
  rw [Snapshot.padWith, Entries.ofPairs_of_nodup (hkeys ▸ h.nodup), hkeys]

/-- **A map in a padded record** has the names of the shapes at its path, in their order. -/
theorem keys_follow_padWith (h : Distinct ss) (above path : Path) (source : Entries Value)
    {es : Entries Value}
    (hes : (Value.map (Snapshot.padWith (branches rows above ss) source)).follow path = .map es) :
    Entries.keys es = (under path ss).map Shape.name := by
  induction path generalizing above ss source with
  | nil =>
    cases hes
    exact keys_padWith h rows above source
  | cons n rest ih =>
    replace hes : ((Entries.get? n (Snapshot.padWith (branches rows above ss) source)).getD
        .null).follow rest = .map es := hes
    rw [get?_padWith h] at hes
    rw [under]
    cases hn : named? n ss with
    | none =>
      rw [hn] at hes
      cases (Value.follow_null rest).symm.trans hes
    | some s =>
      rw [hn, Option.map_some, Option.getD_some] at hes
      -- what is no map leads to no map
      have hstop : ∀ v : Value, v.isMap = false → v.follow rest ≠ .map es := by
        intro v hv heq
        by_cases hr : rest = []
        · subst hr
          rw [show v = .map es from heq] at hv
          cases hv
        · rw [Value.follow_of_not_isMap hr hv] at heq
          cases heq
      cases s with
      | scalar m seen =>
        rw [pad_scalar] at hes
        refine absurd hes (hstop _ ?_)
        split
        · rfl
        · next hm => simpa using hm
      | map m seen inner =>
        rw [pad_map] at hes
        split at hes
        · exact ih (h.named? hn) (above ++ [m]) _ hes
        · exact absurd hes (hstop .null rfl)

end Shape

/-! ## Records in the shape of a snapshot -/

/-- A record has the shape of a snapshot: at every level it has just the names of the columns there,
in their order, with a map or null at a map column and no map at a text column. The attributes are
not null. -/
structure Snapshot.InShape (s : Snapshot) (record : Entries Value) : Prop where
  names : Entries.keys record = s.names
  maps : ∀ c ∈ s.columns, c.kind = .map →
    c.path ≠ attributesPath ∧ (Value.map record).follow c.path = .null ∨
      ∃ inside, (Value.map record).follow c.path = .map inside ∧
        Entries.keys inside = (s.children c.path).map Column.name
  texts : ∀ c ∈ s.columns, c.kind = .scalar →
    ((Value.map record).follow c.path).isMap = false

/-! ## Rows that conform -/

/-- The row has just the columns of the snapshot, in their order, each with the values that its kind
allows, and a column that is never null is not null. -/
structure Snapshot.Conforms (s : Snapshot) (row : Entries Value) : Prop where
  names : Entries.keys row = s.names
  maps : ∀ c ∈ s.columns, c.kind = .map → (Value.map row).follow c.path = .null ∨
    ∃ es, (Value.map row).follow c.path = .map es ∧
      Entries.keys es = (s.children c.path).map Column.name
  texts : ∀ c ∈ s.columns, c.kind = .scalar → (Value.map row).follow c.path = .null ∨
    ∃ text, (Value.map row).follow c.path = .text text
  required : ∀ c ∈ s.columns, c.nullable = false → (Value.map row).follow c.path ≠ .null

namespace RowSchema

variable {p : Projection} {rows : List Row} {row : Row} {c : Column} {i : Nat}
  {record : Entries Value}

theorem distinct_after (p : Projection) (rows : List Row) :
    Shape.Distinct ((start p).foldAll rows).1.shapes :=
  distinct_foldAll rows (distinct_start p)

theorem pad_snapshotAfter (record : Entries Value) : (snapshotAfter p rows).pad record =
    Snapshot.padWith (Shape.branches ((start p).foldAll rows).1.rows []
      ((start p).foldAll rows).1.held) record :=
  pad_snapshot (distinct_after p rows) record

theorem kindAt_of_mem_columns (hc : c ∈ (snapshotAfter p rows).columns) :
    c.path ≠ [] ∧ Shape.kindAt c.path ((start p).foldAll rows).1.held = some c.kind := by
  obtain ⟨t, ht, hct⟩ := (mem_columns_snapshot (distinct_after p rows)).mp hc
  constructor
  · intro hp
    rw [hp] at ht
    cases ht
  · rw [Shape.kindAt, ht, hct]
    rfl

/-- Attributes that are asked for are a map. -/
theorem kindAt_attributes (hw : p.wantsAttributes = true) (rows : List Row) :
    Shape.kindAt attributesPath ((start p).foldAll rows).1.held = some .map := by
  have hwants : ((start p).foldAll rows).1.projection.wantsAttributes = true := by
    rw [projection_foldAll]
    exact hw
  exact grows_held _ _ _ ((hasAttributes_start p).foldAll rows hwants)

theorem kind_of_attributes (hr : Row.AllRegular rows)
    (hc : c ∈ (snapshotAfter p rows).columns) (hpath : c.path = attributesPath) :
    c.kind = .map := by
  obtain ⟨-, hkind⟩ := kindAt_of_mem_columns hc
  rw [hpath] at hkind
  cases hw : p.wantsAttributes with
  | false =>
    rw [attributesPath, Shape.kindAt_of_named?_none (named?_held_attributes hr hw)] at hkind
    cases hkind
  | true =>
    rw [kindAt_attributes hw] at hkind
    exact (Option.some.inj hkind).symm

/-- Each attribute of a row has its column below the attributes. -/
theorem mem_names_attributes (hr : Row.AllRegular rows) (hw : p.wantsAttributes = true)
    (hrow : row ∈ rows) {key : String} (hkey : key ∈ Entries.keys row.attributes) :
    key ∈ ((snapshotAfter p rows).children attributesPath).map Column.name := by
  rw [snapshotAfter, names_children_snapshot (distinct_after p rows)]
  have hknown : Shape.kindAt [attributesName, key] ((start p).foldAll rows).1.shapes =
      some .scalar := by
    rw [shapes_foldAll_start p hr]
    exact kindAt_ofAttributes hw hrow hkey _
  have hheld := grows_held _ _ _ hknown
  rw [Shape.kindAt_cons_inner (List.cons_ne_nil key []), Shape.kindAt_singleton] at hheld
  by_contra hmem
  have hfree : Shape.named? key (Shape.inner (Shape.named? attributesName
      ((start p).foldAll rows).1.held)) = none := Shape.named?_eq_none.mpr hmem
  rw [hfree] at hheld
  cases hheld

/-! ## Padded records of a schema -/

/-- What a padded record has at the path of a column. -/
theorem shows_pad (hc : c ∈ (snapshotAfter p rows).columns)
    (record : Entries Value) :
    Shows (some c.kind) c.path ((Value.map record).follow c.path)
      ((Value.map ((snapshotAfter p rows).pad record)).follow c.path) := by
  obtain ⟨hpath, hkind⟩ := kindAt_of_mem_columns hc
  rw [pad_snapshotAfter, ← hkind]
  exact follow_padWith (distinct_held (distinct_after p rows)) hpath [] record

theorem keys_follow_pad (record : Entries Value) {path : Path} {es : Entries Value}
    (hes : (Value.map ((snapshotAfter p rows).pad record)).follow path = .map es) :
    Entries.keys es = ((snapshotAfter p rows).children path).map Column.name := by
  have hd := distinct_after p rows
  rw [pad_snapshotAfter] at hes
  rw [Shape.keys_follow_padWith (distinct_held hd) [] path record hes]
  exact (names_children_snapshot hd path).symm

/-- A padded record has a map just where the record has one, and for the attributes. -/
theorem isMap_pad (hc : c ∈ (snapshotAfter p rows).columns) (hk : c.kind = .map)
    (record : Entries Value) :
    ((Value.map ((snapshotAfter p rows).pad record)).follow c.path).isMap =
      (((Value.map record).follow c.path).isMap || c.path == attributesPath) := by
  have hshows := shows_pad hc record
  rw [hk, Shows] at hshows
  split at hshows
  · next hm => rw [hshows, hm]
  · next hm =>
    rw [Bool.not_eq_true] at hm
    rw [hshows, hm]
    rfl

/-- **A padded record is in the shape of the snapshot.** -/
theorem inShape_pad (p : Projection) (rows : List Row) (record : Entries Value) :
    (snapshotAfter p rows).InShape ((snapshotAfter p rows).pad record) where
  names := by
    have hd := distinct_after p rows
    rw [pad_snapshotAfter, Shape.keys_padWith (distinct_held hd)]
    exact (names_snapshot hd).symm
  maps c hc hk := by
    have hshows := shows_pad hc record
    rw [hk, Shows] at hshows
    split at hshows
    · right
      generalize hv : (Value.map ((snapshotAfter p rows).pad record)).follow c.path = v
        at hshows
      cases v with
      | map es => exact ⟨es, rfl, keys_follow_pad record hv⟩
      | _ => cases hshows
    · next hno =>
      refine Or.inl ⟨fun hattr => hno ?_, hshows⟩
      rw [hattr, beq_self_eq_true, Bool.or_true]
  texts c hc hk := by
    have hshows := shows_pad hc record
    rw [hk, Shows] at hshows
    rw [hshows]
    split
    · rfl
    · next hm => simpa using hm

/-- A map column that is never null is a map in every padded record. -/
theorem isMap_pad_of_required (hr : Row.AllRegular rows)
    (hc : c ∈ (snapshotAfter p rows).columns) (hk : c.kind = .map) (hn : c.nullable = false)
    (hi : ((start p).foldAll rows).2[i]? = some record) :
    ((Value.map ((snapshotAfter p rows).pad record)).follow c.path).isMap = true := by
  obtain ⟨hpath, hkind⟩ := kindAt_of_mem_columns hc
  rw [getElem?_foldAll, Option.map_eq_some_iff] at hi
  obtain ⟨row, hrow, rfl⟩ := hi
  have hne : rows ≠ [] := by
    rintro rfl
    cases hrow
  rw [isMap_pad hc hk, Bool.or_eq_true, beq_iff_eq]
  rcases (nullable_eq_false_iff hr hne hc hk).mp hn with hattr | ⟨hhead, hall⟩
  · exact Or.inr hattr
  · rw [hk] at hkind
    exact Or.inl ((isMap_record_iff hr hrow hhead hpath hkind).mpr (hall i row hrow))

/-- **Padded records conform** to the snapshot of the schema that took their rows. -/
theorem conforms_pad (hr : Row.AllRegular rows)
    (hi : ((start p).foldAll rows).2[i]? = some record) :
    (snapshotAfter p rows).Conforms ((snapshotAfter p rows).pad record) where
  names := (inShape_pad p rows record).names
  maps c hc hk := ((inShape_pad p rows record).maps c hc hk).imp_left And.right
  texts c hc hk := by
    have hshows := shows_pad hc record
    have hcell := (isCell_foldAll _ rows record (List.mem_of_getElem? hi)).follow c.path
    rw [hk, Shows] at hshows
    rw [hshows]
    generalize (Value.map record).follow c.path = given at hcell
    cases hcell with
    | null => exact Or.inl rfl
    | text s => exact Or.inr ⟨s, rfl⟩
    | map es h => exact Or.inl rfl
  required c hc hn := by
    cases hk : c.kind with
    | scalar =>
      -- only the attributes could be a text that is never null
      obtain ⟨t, -, hct⟩ := (mem_columns_snapshot (distinct_after p rows)).mp hc
      have hkind : t.kind = .scalar := by
        rw [hct] at hk
        exact hk
      rw [hct] at hn
      have hattr : c.path = attributesPath := by
        simpa [Shape.columnAt, Shape.isRequired, hkind] using hn
      rw [kind_of_attributes hr hc hattr] at hk
      cases hk
    | map =>
      have hmap := isMap_pad_of_required hr hc hk hn hi
      intro hnull
      rw [hnull] at hmap
      cases hmap

/-- **Every padded record has all attributes** of the rows that the schema took. -/
theorem attributes_pad (hr : Row.AllRegular rows) (hw : p.wantsAttributes = true)
    (record : Entries Value) :
    ∃ es, (Value.map ((snapshotAfter p rows).pad record)).follow attributesPath = .map es ∧
      ∀ row ∈ rows, ∀ key ∈ Entries.keys row.attributes, key ∈ Entries.keys es := by
  have hshows : Shows (Shape.kindAt attributesPath ((start p).foldAll rows).1.held) attributesPath
      ((Value.map record).follow attributesPath)
      ((Value.map ((snapshotAfter p rows).pad record)).follow attributesPath) := by
    rw [pad_snapshotAfter]
    exact follow_padWith (distinct_held (distinct_after p rows))
      (List.cons_ne_nil attributesName []) [] record
  rw [kindAt_attributes hw, Shows, if_pos (by simp)] at hshows
  generalize hv : (Value.map ((snapshotAfter p rows).pad record)).follow attributesPath = v
    at hshows
  cases v with
  | map es =>
    refine ⟨es, rfl, fun row hrow key hkey => ?_⟩
    rw [keys_follow_pad record hv]
    exact mem_names_attributes hr hw hrow hkey
  | _ => cases hshows

/-- A map column that may be null, and a row without a map there. -/
theorem exists_not_isMap_record (hr : Row.AllRegular rows) (hne : rows ≠ [])
    (hc : c ∈ (snapshotAfter p rows).columns) (hk : c.kind = .map) (hn : c.nullable = true) :
    ∃ i row, rows[i]? = some row ∧ ((Value.map
      (((start p).foldAll (rows.take i)).1.fold row).record).follow c.path).isMap = false := by
  obtain ⟨hpath, hkind⟩ := kindAt_of_mem_columns hc
  rw [hk] at hkind
  have hnot : ¬ (c.path = attributesPath ∨
      c.path.head? ≠ some attributesName ∧ AgreesInAll rows c.path) := by
    rw [← nullable_eq_false_iff hr hne hc hk, hn]
    exact Bool.noConfusion
  obtain ⟨hattr, hagrees⟩ := not_or.mp hnot
  by_cases hhead : c.path.head? = some attributesName
  · -- any row will do
    obtain ⟨below, hbelow⟩ := List.head?_eq_some_iff.mp hhead
    have hbelowne : below ≠ [] := by
      rintro rfl
      exact hattr hbelow
    obtain ⟨row, rest, rfl⟩ := List.exists_cons_of_ne_nil hne
    have hrow : row.IsRegular := hr row List.mem_cons_self
    refine ⟨0, row, rfl, ?_⟩
    rw [hbelow]
    exact isMap_record_below_attributes (hr.take 0) hrow p hbelowne
  · have hsome : ¬ AgreesInAll rows c.path := fun hall => hagrees ⟨hhead, hall⟩
    simp only [AgreesInAll, not_forall] at hsome
    obtain ⟨i, row, hi, hno⟩ := hsome
    refine ⟨i, row, hi, ?_⟩
    rwa [← isMap_record_iff hr hi hhead hpath hkind, Bool.not_eq_true] at hno

/-- **A map column may be null only if a row has no map there.** -/
theorem exists_not_isMap_pad (hr : Row.AllRegular rows) (hne : rows ≠ [])
    (hc : c ∈ (snapshotAfter p rows).columns) (hk : c.kind = .map) (hn : c.nullable = true) :
    ∃ record ∈ ((start p).foldAll rows).2,
      ((Value.map ((snapshotAfter p rows).pad record)).follow c.path).isMap = false := by
  obtain ⟨i, row, hi, hmap⟩ := exists_not_isMap_record hr hne hc hk hn
  have hattr : (c.path == attributesPath) = false := by
    rw [beq_eq_false_iff_ne]
    intro hpath
    rw [(nullable_eq_false_iff hr hne hc hk).mpr (Or.inl hpath)] at hn
    cases hn
  have hrecord : ((start p).foldAll rows).2[i]? =
      some (((start p).foldAll (rows.take i)).1.fold row).record := by
    rw [getElem?_foldAll, hi, Option.map_some]
  refine ⟨_, List.mem_of_getElem? hrecord, ?_⟩
  rw [isMap_pad hc hk, hmap, hattr, Bool.or_false]

end RowSchema

end Tabular
