import Mathlib.Data.List.Perm.Basic
import Tabular.Proofs.Schema.Concord
import Tabular.Proofs.Schema.Conform

/-!
# Rows in another order

Where no path is a map in one row and a text in another, the order of the rows decides nothing but
the order of the columns.

* `Value.Reordered`: values that differ in the order of keys only;
* `Shape.SameKinds`, **`SameKinds.hold`**: shapes with one kind at every path, and room for paths in
  them;
* **`SameKinds.reordered_padWith`**: they pad records alike;
* `AlwaysThere`, **`mem_columns_iff`**: the columns, told without the order of the rows;
* **`foldAll_perm`**: the schema, the conflicts and the records of rows in two orders.
-/

namespace Tabular

/-! ## The order of keys -/

/-- The values differ in the order of keys only, at every level. -/
inductive Value.Reordered : Value → Value → Prop
  | refl (v : Value) : Reordered v v
  | map {es es' : Entries Value} (nodup : (Entries.keys es).Nodup)
      (keys : (Entries.keys es).Perm (Entries.keys es'))
      (values : ∀ key v v', Entries.get? key es = some v → Entries.get? key es' = some v' →
        Reordered v v') : Reordered (.map es) (.map es')

/-! ## Shapes with the same kinds -/

namespace Shape

variable {ss ss' : List Shape} {name : String} {keys keys' : List String}

/-- The shapes have the same kind at every path. -/
def SameKinds (ss ss' : List Shape) : Prop :=
  ∀ path, kindAt path ss = kindAt path ss'

/-- Under each name there is one kind, with the same kinds below it. -/
theorem sameKinds_iff : SameKinds ss ss' ↔ ∀ name,
    (named? name ss).map kind = (named? name ss').map kind ∧
      SameKinds (inner (named? name ss)) (inner (named? name ss')) := by
  constructor
  · intro h name
    refine ⟨h [name], fun path => ?_⟩
    by_cases hp : path = []
    · rw [hp]
      rfl
    · rw [← kindAt_cons_inner hp, ← kindAt_cons_inner hp]
      exact h (name :: path)
  · intro h path
    cases path with
    | nil => rfl
    | cons n rest =>
      by_cases hr : rest = []
      · rw [hr]
        exact (h n).1
      · rw [kindAt_cons_inner hr, kindAt_cons_inner hr]
        exact (h n).2 rest

theorem SameKinds.mem_names_iff (h : SameKinds ss ss') :
    name ∈ ss.map Shape.name ↔ name ∈ ss'.map Shape.name := by
  have hkind := (sameKinds_iff.mp h name).1
  rw [← not_iff_not, ← named?_eq_none, ← named?_eq_none, ← Option.map_eq_none_iff (f := kind), hkind,
    Option.map_eq_none_iff]

/-! ## Room for paths -/

theorem named?_hold_self (name : String) (rest : Path) (ss : List Shape) :
    named? name (hold (name :: rest) ss) =
      ((named? name ss).map (mapShapes (hold rest))).or (named? name (empty (name :: rest))) := by
  rw [hold]
  cases hn : named? name ss with
  | none => rw [named?_append_of_none hn, Option.map_none, Option.none_or]
  | some s => rw [named?_change_self _ (by simp), hn, Option.map_some, Option.some_or]

theorem inner_mapShapes (g : List Shape → List Shape) (s : Shape) :
    inner (some (s.mapShapes g)) = if s.kind = .map then g (inner (some s)) else [] := by
  cases s <;> rfl

/-- **Room for a path** leaves the same kinds where there were the same kinds. -/
theorem SameKinds.hold (h : SameKinds ss ss') (path : Path) :
    SameKinds (hold path ss) (hold path ss') := by
  induction path generalizing ss ss' with
  | nil => exact h
  | cons m rest ih =>
    rw [sameKinds_iff] at h ⊢
    intro name
    by_cases hn : name = m
    · subst hn
      obtain ⟨hkind, hbelow⟩ := h name
      rw [named?_hold_self, named?_hold_self]
      generalize named? name ss = s?, named? name ss' = s?' at hkind hbelow
      cases s? with
      | none =>
        obtain rfl : s?' = none := Option.map_eq_none_iff.mp hkind.symm
        exact ⟨rfl, fun _ => rfl⟩
      | some s =>
        obtain ⟨s', rfl, hs⟩ := Option.map_eq_some_iff.mp hkind.symm
        rw [Option.map_some, Option.map_some, Option.some_or, Option.some_or, inner_mapShapes,
          inner_mapShapes, hs, Option.map_some, Option.map_some, kind_mapShapes, kind_mapShapes, hs]
        refine ⟨rfl, ?_⟩
        split
        · exact ih hbelow
        · exact fun _ => rfl
    · have hhead : (m :: rest).head? ≠ some name := by simpa [eq_comm] using hn
      rw [named?_hold_of_head?_ne hhead, named?_hold_of_head?_ne hhead]
      exact h name

theorem SameKinds.foldl_hold (h : SameKinds ss ss') (paths : List Path) :
    SameKinds (paths.foldl (fun ss path => Shape.hold path ss) ss)
      (paths.foldl (fun ss path => Shape.hold path ss) ss') := by
  induction paths generalizing ss ss' with
  | nil => exact h
  | cons path rest ih => exact ih (h.hold path)

/-- The attributes of rows, whatever their order. -/
theorem sameKinds_foldl_touch (h : ∀ key, key ∈ keys ↔ key ∈ keys') :
    SameKinds (keys.foldl touch []) (keys'.foldl touch []) := by
  rw [sameKinds_iff]
  intro key
  have hkey : ∀ keys : List String, (named? key (keys.foldl touch [])).map kind =
      if key ∈ keys then some .scalar else none :=
    fun keys => kindAt_foldl_touch key keys []
  have hno : ∀ keys : List String, inner (named? key (keys.foldl touch [])) = [] := by
    refine fun keys => inner_of_not_map ?_
    rw [hkey]
    split <;> decide
  rw [hkey, hkey, hno, hno]
  exact ⟨by simp only [h key], fun _ => rfl⟩

/-! ## Padding -/

theorem SameKinds.perm_names (h : SameKinds ss ss') (hd : Distinct ss) (hd' : Distinct ss') :
    (ss.map Shape.name).Perm (ss'.map Shape.name) :=
  (List.perm_ext_iff_of_nodup hd.nodup hd'.nodup).mpr fun _ => h.mem_names_iff

/-- **Shapes with the same kinds pad a record alike**, but for the order of keys. -/
theorem SameKinds.reordered_padWith (h : SameKinds ss ss') (hd : Distinct ss) (hd' : Distinct ss')
    (rows rows' : Nat) (above : Path) (source : Entries Value) :
    Value.Reordered (.map (Snapshot.padWith (branches rows above ss) source))
      (.map (Snapshot.padWith (branches rows' above ss') source)) := by
  induction ss using Shape.induction_below generalizing ss' above source with
  | below ss ih =>
    refine .map ?_ ?_ fun name v v' hv hv' => ?_
    · rw [keys_padWith hd]
      exact hd.nodup
    · rw [keys_padWith hd, keys_padWith hd']
      exact h.perm_names hd hd'
    · rw [get?_padWith hd, Option.map_eq_some_iff] at hv
      rw [get?_padWith hd', Option.map_eq_some_iff] at hv'
      obtain ⟨s, hs, rfl⟩ := hv
      obtain ⟨s', hs', rfl⟩ := hv'
      obtain ⟨hkind, hbelow⟩ := sameKinds_iff.mp h name
      rw [hs, hs'] at hkind hbelow
      have hn := name_of_named? hs
      have hn' := name_of_named? hs'
      cases s with
      | scalar n k =>
        cases s' with
        | scalar n' k' =>
          obtain rfl : n = n' := hn.trans hn'.symm
          rw [pad_scalar, pad_scalar]
          exact .refl _
        | map n' k' below' => cases hkind
      | map n k below =>
        cases s' with
        | scalar n' k' => cases hkind
        | map n' k' below' =>
          obtain rfl : n = n' := hn.trans hn'.symm
          rw [pad_map, pad_map]
          split
          · exact ih _ (List.mem_of_find?_eq_some hs) hbelow (hd.named? hs) (hd'.named? hs') _ _
          · exact .refl _

end Shape

/-! ## Rows in another order -/

section Rows

variable {rows rows' : List Row} {row : Row} {path : Path} {kind : Kind}

theorem KindsAgree.perm (h : KindsAgree rows) (hp : rows.Perm rows') : KindsAgree rows' :=
  fun row hrow row' hrow' => h row (hp.mem_iff.mpr hrow) row' (hp.mem_iff.mpr hrow')

theorem Row.AllRegular.perm (h : AllRegular rows) (hp : rows.Perm rows') : AllRegular rows' :=
  fun row hrow => h row (hp.mem_iff.mpr hrow)

theorem registered_perm (h : KindsAgree rows) (hp : rows.Perm rows') (path : Path) :
    registered rows path = registered rows' path := by
  ext kind
  rw [registered_eq_some_iff_exists h, registered_eq_some_iff_exists (h.perm hp)]
  simp only [hp.mem_iff]

/-- A map column is never null for these rows. -/
def AlwaysThere (rows : List Row) (path : Path) (kind : Kind) : Prop :=
  path = attributesPath ∨ kind = .map ∧ rows ≠ [] ∧ path.head? ≠ some attributesName ∧
    ∀ row ∈ rows, Field.kindAt path row.fields ≠ none

theorem alwaysThere_perm (hp : rows.Perm rows') :
    AlwaysThere rows path kind ↔ AlwaysThere rows' path kind := by
  simp only [AlwaysThere, ne_eq, hp.mem_iff, ← List.isEmpty_iff, hp.isEmpty_eq]

end Rows

/-! ## Schemas -/

namespace RowSchema

open Shape (SameKinds)

variable {p : Projection} {rows rows' : List Row} {row : Row} {c : Column} {i j : Nat}

/-- The shapes of a fresh schema after rows in two orders. -/
theorem sameKinds_shapes (hr : Row.AllRegular rows) (h : KindsAgree rows) (hp : rows.Perm rows')
    (p : Projection) :
    SameKinds ((start p).foldAll rows).1.shapes ((start p).foldAll rows').1.shapes := by
  have hr' := hr.perm hp
  have hfields : SameKinds (Shape.ofRows rows) (Shape.ofRows rows') := by
    intro path
    have hsame := registered_perm h hp path
    rwa [registered_eq hr, registered_eq hr'] at hsame
  rw [shapes_foldAll_start p hr, shapes_foldAll_start p hr']
  intro path
  by_cases hhead : path.head? = some attributesName
  · obtain ⟨rest, rfl⟩ := List.head?_eq_some_iff.mp hhead
    unfold Shape.ofAttributes
    split
    · by_cases hrest : rest = []
      · rw [hrest]
        rfl
      · rw [Shape.kindAt_cons_inner hrest, Shape.kindAt_cons_inner hrest]
        refine Shape.sameKinds_foldl_touch (fun key => ?_) rest
        simp only [List.mem_flatMap, hp.mem_iff]
    · exact hfields (attributesName :: rest)
  · rw [Shape.kindAt_ofAttributes_append hhead, Shape.kindAt_ofAttributes_append hhead]
    exact hfields path

theorem sameKinds_held (hr : Row.AllRegular rows) (h : KindsAgree rows) (hp : rows.Perm rows')
    (p : Projection) :
    SameKinds ((start p).foldAll rows).1.held ((start p).foldAll rows').1.held := by
  rw [held, held, projection_foldAll, projection_foldAll]
  exact (sameKinds_shapes hr h hp p).foldl_hold p.paths

/-- The columns that are never null. -/
theorem nullable_iff_alwaysThere (hr : Row.AllRegular rows) (h : KindsAgree rows)
    (hc : c ∈ (snapshotAfter p rows).columns) :
    c.nullable = false ↔ AlwaysThere rows c.path c.kind := by
  obtain ⟨hpath, -⟩ := kindAt_of_mem_columns hc
  by_cases hmap : c.kind = .map ∧ rows ≠ []
  · obtain ⟨hk, hne⟩ := hmap
    rw [nullable_eq_false_iff hr hne hc hk, agreesInAll_iff_forall h hpath, AlwaysThere]
    simp only [hk, hne, ne_eq, not_false_eq_true, true_and]
  · rw [nullable_eq_false hc, AlwaysThere]
    exact or_congr_right ⟨fun hn => absurd ⟨hn.1, hn.2.1⟩ hmap, fun hn => absurd ⟨hn.1, hn.2.1⟩ hmap⟩

/-- **The columns after some rows**, told without their order. -/
theorem mem_columns_iff (hr : Row.AllRegular rows) (h : KindsAgree rows) :
    c ∈ (snapshotAfter p rows).columns ↔
      Shape.kindAt c.path ((start p).foldAll rows).1.held = some c.kind ∧
        (c.nullable = false ↔ AlwaysThere rows c.path c.kind) := by
  constructor
  · intro hc
    exact ⟨(kindAt_of_mem_columns hc).2, nullable_iff_alwaysThere hr h hc⟩
  · rintro ⟨hkind, hnull⟩
    obtain ⟨t, ht, hk⟩ := Option.map_eq_some_iff.mp hkind
    have hthere : Shape.columnAt ((start p).foldAll rows).1.rows c.path t ∈
        (snapshotAfter p rows).columns :=
      (mem_columns_snapshot (distinct_after p rows)).mpr ⟨t, ht, rfl⟩
    have hsame := nullable_iff_alwaysThere hr h hthere
    have hnullable : c.nullable =
        (Shape.columnAt ((start p).foldAll rows).1.rows c.path t).nullable := by
      rw [Bool.eq_iff_iff, ← not_iff_not, Bool.not_eq_true, Bool.not_eq_true, hnull, hsame, ← hk]
      rfl
    have hc : c = Shape.columnAt ((start p).foldAll rows).1.rows c.path t := by
      obtain ⟨path, kind, nullable⟩ := c
      exact congrArg₂ (Column.mk path) hk.symm hnullable
    rw [hc]
    exact hthere

theorem nodup_columns (p : Projection) (rows : List Row) : (snapshotAfter p rows).columns.Nodup :=
  (Shape.nodup_paths_columns (distinct_held (distinct_after p rows)) _ []).of_map Column.path

/-- The columns after rows in two orders. -/
theorem columns_perm (hr : Row.AllRegular rows) (h : KindsAgree rows) (hp : rows.Perm rows')
    (p : Projection) :
    (snapshotAfter p rows).columns.Perm (snapshotAfter p rows').columns := by
  refine (List.perm_ext_iff_of_nodup (nodup_columns p rows) (nodup_columns p rows')).mpr fun c => ?_
  rw [mem_columns_iff hr h, mem_columns_iff (hr.perm hp) (h.perm hp), sameKinds_held hr h hp p c.path,
    alwaysThere_perm hp]

/-- The record of one row of many, where all kinds agree. -/
theorem getElem?_foldAll_of_kindsAgree (hr : Row.AllRegular rows) (h : KindsAgree rows)
    (hi : rows[i]? = some row) (p : Projection) :
    ((start p).foldAll rows).2[i]? =
      some ((start p).opening row ++ Field.entriesOf row.fields) := by
  rw [getElem?_foldAll, hi, Option.map_some, record_fold_of_kindsAgree hr h (List.take_subset i rows)
    (List.mem_of_getElem? hi)]

/-- **The order of rows does not matter** where no path is a map in one row and a text in another:
there is no conflict, the columns are the same but for their order, and each row comes to a record
that the last snapshot pads alike, but for the order of keys. -/
theorem foldAll_perm (p : Projection) (hr : Row.AllRegular rows) (h : KindsAgree rows)
    (hp : rows.Perm rows') :
    (start p).conflictsAll rows = [] ∧ (start p).conflictsAll rows' = [] ∧
    (snapshotAfter p rows).columns.Perm (snapshotAfter p rows').columns ∧
    ∀ (i j : Nat) (row : Row), rows[i]? = some row → rows'[j]? = some row → ∃ record record',
      ((start p).foldAll rows).2[i]? = some record ∧
        ((start p).foldAll rows').2[j]? = some record' ∧
        Value.Reordered (.map ((snapshotAfter p rows).pad record))
          (.map ((snapshotAfter p rows').pad record')) := by
  refine ⟨conflictsAll_eq_nil hr h p, conflictsAll_eq_nil (hr.perm hp) (h.perm hp) p,
    columns_perm hr h hp p, fun i j row hi hj => ?_⟩
  refine ⟨_, _, getElem?_foldAll_of_kindsAgree hr h hi p,
    getElem?_foldAll_of_kindsAgree (hr.perm hp) (h.perm hp) hj p, ?_⟩
  rw [pad_snapshotAfter, pad_snapshotAfter]
  exact (sameKinds_held hr h hp p).reordered_padWith (distinct_held (distinct_after p rows))
    (distinct_held (distinct_after p rows')) _ _ _ _

/-- Two rows that bring their columns in different orders, one of them below a map. -/
theorem foldAll_perm_reverse :
    let rows := Scan.sealed {} {} [.start "t" [], .start "r" [], .start "a" [], .text "x",
      .finish "a", .start "b" [], .start "c" [], .finish "c", .finish "b", .finish "r",
      .start "r" [("k", "v")], .start "b" [], .start "d" [], .finish "d", .start "c" [],
      .finish "c", .finish "b", .finish "r", .finish "t"]
    rows.length = 2 ∧ (snapshotAfter .all rows).columns ≠ (snapshotAfter .all rows.reverse).columns ∧
      (snapshotAfter .all rows).columns.Perm (snapshotAfter .all rows.reverse).columns ∧
      ∃ record record', ((start .all).foldAll rows).2[0]? = some record ∧
        ((start .all).foldAll rows.reverse).2[1]? = some record' ∧
        Value.Reordered (.map ((snapshotAfter .all rows).pad record))
          (.map ((snapshotAfter .all rows.reverse).pad record')) := by
  intro rows
  have hr : Row.AllRegular rows := Scan.isRegular_sealed _ _
  obtain ⟨-, -, hcolumns, hrecords⟩ := foldAll_perm .all hr
    (kindsAgree_of_walk (by decide +kernel)) (List.reverse_perm rows).symm
  exact ⟨rfl, by decide +kernel, hcolumns, hrecords 0 1 _ rfl rfl⟩

end RowSchema

end Tabular
