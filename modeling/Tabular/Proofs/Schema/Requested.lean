import Tabular.Proofs.Schema.Order

/-!
# Requested paths

A requested path has a column in every snapshot, unless a text stands in its way. The column is only
there for the request as long as no row has brought it, and every row so far has nothing for it.

* **`kindAt_hold`**: room for a path, or a text above it;
* `kindAt_of_isPrefix`: what stands above a path is a map;
* `has_snapshot_iff`, **`null_of_not_mem_carried`**, **`columns_eq_nil_iff`**: the columns of a
  snapshot;
* **`snapshot_requested`**: all of this for any projection and any rows.
-/

namespace Tabular

namespace Shape

variable {ss : List Shape} {path q : Path}

theorem kindAt_empty (hp : path ≠ []) : kindAt path (empty path) = some .scalar := by
  induction path with
  | nil => exact absurd rfl hp
  | cons n rest ih =>
    cases rest with
    | nil => rw [empty, kindAt_singleton, named?_cons, if_pos (by rfl)]; rfl
    | cons m more =>
      rw [empty, kindAt_cons (List.cons_ne_nil m more), named?_cons, if_pos (by rfl)]
      · exact ih (List.cons_ne_nil m more)
      · exact List.cons_ne_nil m more

/-- **Room is made for a path**, unless a text stands above it. -/
theorem kindAt_hold (hp : path ≠ []) (ss : List Shape) : kindAt path (hold path ss) ≠ none ∨
    ∃ q, q <+: path ∧ q ≠ path ∧ kindAt q (hold path ss) = some .scalar := by
  induction path generalizing ss with
  | nil => exact absurd rfl hp
  | cons n rest ih =>
    rw [hold]
    cases hn : named? n ss with
    | none =>
      left
      have hnew := kindAt_empty (List.cons_ne_nil n rest)
      rw [kindAt_congr (named?_append_of_none hn (empty (n :: rest))), hnew]
      exact Option.some_ne_none _
    | some s =>
      have hself : named? n (change n (mapShapes (hold rest)) ss) =
          some (s.mapShapes (hold rest)) := by
        rw [named?_change_self _ (name_mapShapes (hold rest)), hn, Option.map_some]
      show kindAt _ (change n (mapShapes (hold rest)) ss) ≠ none ∨
        ∃ q, _ ∧ _ ∧ kindAt q (change n (mapShapes (hold rest)) ss) = _
      by_cases hr : rest = []
      · left
        rw [hr, kindAt_singleton, ← hr, hself]
        exact Option.some_ne_none _
      · cases s with
        | scalar m k =>
          refine Or.inr ⟨[n], ⟨rest, rfl⟩, fun heq => hr (List.cons.inj heq).2.symm, ?_⟩
          rw [kindAt_singleton, hself]
          rfl
        | map m k inner =>
          have hbelow : ∀ {q}, q ≠ [] →
              kindAt (n :: q) (change n (mapShapes (hold rest)) ss) = kindAt q (hold rest inner) := by
            intro q hq
            rw [kindAt_cons hq, hself]
            rfl
          rcases ih hr inner with hself | ⟨q, hq, hne, hkind⟩
          · left
            rwa [hbelow hr]
          · have hqne : q ≠ [] := by
              rintro rfl
              cases hkind
            refine Or.inr ⟨n :: q, List.cons_prefix_cons.mpr ⟨rfl, hq⟩,
              fun heq => hne (List.cons.inj heq).2, ?_⟩
            rwa [hbelow hqne]

/-- What stands above a path is a map. -/
theorem kindAt_of_isPrefix (hk : kindAt path ss ≠ none) (hq : q <+: path) (hne : q ≠ path)
    (hnil : q ≠ []) : kindAt q ss = some .map := by
  induction q generalizing path ss with
  | nil => exact absurd rfl hnil
  | cons n q ih =>
    obtain ⟨rest, rfl⟩ : ∃ rest, path = n :: rest := by
      obtain ⟨later, rfl⟩ := hq
      exact ⟨q ++ later, rfl⟩
    have hr : rest ≠ [] := by
      rintro rfl
      exact hne (congrArg (n :: ·) (List.prefix_nil.mp (List.cons_prefix_cons.mp hq).2))
    rw [kindAt_cons hr] at hk
    cases hn : named? n ss with
    | none =>
      rw [hn] at hk
      exact absurd rfl hk
    | some s =>
      rw [hn, Option.bind_some] at hk
      by_cases hq' : q = []
      · subst hq'
        rw [kindAt_singleton, hn, Option.map_some]
        cases s with
        | scalar m k => exact absurd (kindAt_nil rest) hk
        | map m k inner => rfl
      · rw [kindAt_cons hq', hn, Option.bind_some]
        exact ih hk (List.cons_prefix_cons.mp hq).2 (fun heq => hne (congrArg (n :: ·) heq)) hq'

/-- **Room is made for every requested path** that no text stands above. -/
theorem kindAt_foldl_hold {paths : List Path} (hmem : path ∈ paths) (hp : path ≠ [])
    (ss : List Shape) :
    kindAt path (paths.foldl (fun ss path => hold path ss) ss) ≠ none ∨
      ∃ q, q <+: path ∧ q ≠ path ∧
        kindAt q (paths.foldl (fun ss path => hold path ss) ss) = some .scalar := by
  obtain ⟨before, later, rfl⟩ := List.append_of_mem hmem
  rw [List.foldl_append, List.foldl_cons]
  generalize before.foldl (fun ss path => hold path ss) ss = now
  have hgrows := grows_foldl_hold later (hold path now)
  rcases kindAt_hold hp now with hself | ⟨q, hq, hne, hkind⟩
  · obtain ⟨kind, hkind⟩ := Option.ne_none_iff_exists'.mp hself
    rw [hgrows path kind hkind]
    exact Or.inl (Option.some_ne_none kind)
  · exact Or.inr ⟨q, hq, hne, hgrows q _ hkind⟩

end Shape

/-! ## Snapshots -/

namespace RowSchema

variable {p : Projection} {rows : List Row} {path : Path} {c : Column} {record : Entries Value}

/-- The paths of columns are those with a kind. -/
theorem exists_column_iff {kind : Kind} :
    (∃ c ∈ (snapshotAfter p rows).columns, c.path = path ∧ c.kind = kind) ↔
      Shape.kindAt path ((start p).foldAll rows).1.held = some kind := by
  constructor
  · rintro ⟨c, hc, rfl, rfl⟩
    exact (kindAt_of_mem_columns hc).2
  · intro hk
    obtain ⟨t, ht, hkind⟩ := Option.map_eq_some_iff.mp hk
    exact ⟨Shape.columnAt _ path t,
      (mem_columns_snapshot (distinct_after p rows)).mpr ⟨t, ht, rfl⟩, rfl, hkind⟩

theorem has_snapshot : (snapshotAfter p rows).has path = true ↔
    Shape.kindAt path ((start p).foldAll rows).1.held ≠ none := by
  rw [Option.ne_none_iff_exists', Snapshot.has, List.any_eq_true]
  constructor
  · rintro ⟨c, hc, hpath⟩
    exact ⟨c.kind, exists_column_iff.mp ⟨c, hc, eq_of_beq hpath, rfl⟩⟩
  · rintro ⟨kind, hk⟩
    obtain ⟨c, hc, hpath, -⟩ := exists_column_iff.mpr hk
    exact ⟨c, hc, beq_iff_eq.mpr hpath⟩

/-- Room is made for a requested path, unless a text stands above it. -/
theorem kindAt_held_of_mem_paths (hpath : path ∈ p.paths) (hp : path ≠ []) (rows : List Row) :
    Shape.kindAt path ((start p).foldAll rows).1.held ≠ none ∨
      ∃ q, q <+: path ∧ q ≠ path ∧
        Shape.kindAt q ((start p).foldAll rows).1.held = some .scalar := by
  refine Shape.kindAt_foldl_hold ?_ hp _
  rw [projection_foldAll]
  exact hpath

/-- **A requested path has a column**, unless there is a text column above it. -/
theorem has_snapshot_iff (hpath : path ∈ p.paths) (hp : path ≠ []) :
    (snapshotAfter p rows).has path = true ↔
      ∀ c ∈ (snapshotAfter p rows).columns, c.kind = .scalar → c.path <+: path → c.path = path := by
  rw [has_snapshot]
  constructor
  · intro hhas c hc hk hprefix
    obtain ⟨hnil, hkind⟩ := kindAt_of_mem_columns hc
    by_contra hne
    rw [Shape.kindAt_of_isPrefix hhas hprefix hne hnil, hk] at hkind
    cases hkind
  · intro hfree
    rcases kindAt_held_of_mem_paths hpath hp rows with hself | ⟨q, hq, hne, hkind⟩
    · exact hself
    · obtain ⟨c, hc, rfl, hk⟩ := exists_column_iff.mpr hkind
      exact absurd (hfree c hc hk hq) hne

/-- The column of the attributes is brought, as soon as it is there. -/
theorem path_ne_attributes (hc : c ∈ (snapshotAfter p rows).columns)
    (hnone : Shape.kindAt c.path ((start p).foldAll rows).1.shapes = none) :
    c.path ≠ attributesPath := by
  intro hattr
  obtain ⟨-, hkind⟩ := kindAt_of_mem_columns hc
  rw [hattr] at hkind hnone
  cases hw : p.wantsAttributes with
  | true =>
    have hwants : ((start p).foldAll rows).1.projection.wantsAttributes = true := by
      rw [projection_foldAll]
      exact hw
    rw [(hasAttributes_start p).foldAll rows hwants] at hnone
    cases hnone
  | false =>
    rw [attributesPath, Shape.kindAt_singleton, named?_held_foldAll hw,
      ← Shape.kindAt_singleton] at hkind
    rw [attributesPath, hkind] at hnone
    cases hnone

/-- **A column that no row has brought** may be null, and is null in every row so far. -/
theorem null_of_not_mem_carried (hc : c ∈ (snapshotAfter p rows).columns)
    (hnew : c ∉ ((start p).foldAll rows).1.carried) :
    c.nullable = true ∧ ∀ record ∈ ((start p).foldAll rows).2,
      (Value.map ((snapshotAfter p rows).pad record)).follow c.path = .null := by
  have hd := distinct_after p rows
  have hnone : Shape.kindAt c.path ((start p).foldAll rows).1.shapes = none := by
    rw [mem_carried_iff hd hc, has, Option.not_isSome_iff_eq_none] at hnew
    rw [Shape.kindAt, hnew, Option.map_none]
  have hattr := path_ne_attributes hc hnone
  constructor
  · obtain ⟨t, ht, hct⟩ := (mem_columns_snapshot hd).mp hc
    have hseen : t.seen = 0 := by
      have hcount := countAt_held ((start p).foldAll rows).1 c.path
      rw [Shape.countAt_of_kindAt_eq_none hnone, Shape.countAt, ht] at hcount
      exact hcount
    rw [hct]
    simp only [Shape.columnAt, Shape.isRequired, hseen]
    simp [hattr]
    omega
  · intro record hrecord
    have hshows := shows_pad hc record
    rw [fits_foldAll (hasAttributes_start p) rows record hrecord c.path
      (kindAt_of_mem_columns hc).1 hnone] at hshows
    exact hshows.null hattr

/-- Where a path is asked for there is a column. -/
theorem columns_ne_nil_of_mem_paths (hpath : path ∈ p.paths) (hp : path ≠ []) (rows : List Row) :
    (snapshotAfter p rows).columns ≠ [] := by
  have hcolumn : ∀ {q kind}, Shape.kindAt q ((start p).foldAll rows).1.held = some kind →
      (snapshotAfter p rows).columns ≠ [] := by
    intro q kind hk
    obtain ⟨c, hc, -⟩ := exists_column_iff.mpr hk
    exact List.ne_nil_of_mem hc
  rcases kindAt_held_of_mem_paths hpath hp rows with hself | ⟨q, -, -, hkind⟩
  · obtain ⟨kind, hkind⟩ := Option.ne_none_iff_exists'.mp hself
    exact hcolumn hkind
  · exact hcolumn hkind

/-- No room is made for the path of no name. -/
theorem held_of_forall_paths (h : ∀ path ∈ p.paths, path = []) (rows : List Row) :
    ((start p).foldAll rows).1.held = ((start p).foldAll rows).1.shapes := by
  rw [held, projection_foldAll]
  show p.paths.foldl _ _ = _
  generalize ((start p).foldAll rows).1.shapes = ss
  generalize p.paths = paths at h
  induction paths with
  | nil => rfl
  | cons path rest ih =>
    rw [List.foldl_cons, h path List.mem_cons_self, Shape.hold]
    exact ih fun q hq => h q (List.mem_cons_of_mem path hq)

/-- **There is no column** if and only if no path with names is asked for and the rows have brought
nothing. -/
theorem columns_eq_nil_iff (p : Projection) (rows : List Row) :
    (snapshotAfter p rows).columns = [] ↔
      (∀ path ∈ p.paths, path = []) ∧ ((start p).foldAll rows).1.carried = [] := by
  constructor
  · intro hnil
    refine ⟨fun path hpath => ?_, ?_⟩
    · by_contra hp
      exact columns_ne_nil_of_mem_paths hpath hp rows hnil
    · have hsub := sublist_carried ((start p).foldAll rows).1
      exact List.sublist_nil.mp (hnil ▸ hsub)
  · rintro ⟨hpaths, hcarried⟩
    rw [← hcarried, carried, ← held_of_forall_paths hpaths rows]
    rfl

/-- **Requested paths.** A requested path has a column in the snapshot of any rows if and only if
it has a name and there is no text column above it. The columns that the rows have brought are there
unchanged and in their order; any other column may be null, and is null in all rows so far. There is
a column unless no path with names is asked for and the rows have brought nothing. -/
theorem snapshot_requested (p : Projection) (rows : List Row) :
    let state := ((start p).foldAll rows).1
    let s := snapshotAfter p rows
    (∀ path ∈ p.paths, (s.has path = true ↔
      path ≠ [] ∧ ∀ c ∈ s.columns, c.kind = .scalar → c.path <+: path → c.path = path)) ∧
    state.carried.Sublist s.columns ∧
    (∀ c ∈ s.columns, c ∉ state.carried → c.nullable = true ∧
      ∀ record ∈ ((start p).foldAll rows).2, (Value.map (s.pad record)).follow c.path = .null) ∧
    (s.columns = [] ↔ (∀ path ∈ p.paths, path = []) ∧ state.carried = []) := by
  refine ⟨fun path hpath => ?_, sublist_carried _, fun _ hc hnew => null_of_not_mem_carried hc hnew,
    columns_eq_nil_iff p rows⟩
  by_cases hp : path = []
  · rw [hp, has_snapshot]
    exact ⟨fun h => absurd rfl h, fun h => absurd rfl h.1⟩
  · rw [has_snapshot_iff hpath hp]
    exact ⟨fun h => ⟨hp, h⟩, And.right⟩

/-- A request that a text stands in the way of, and one that no row has brought. -/
theorem snapshot_requested_blocked :
    let p : Projection := .columns [["c", "d"], ["a", "b"]]
    let rows : List Row := [⟨"r", 0, [], [.scalar "c" 1 (some "x")]⟩]
    let s := snapshotAfter p rows
    s.has ["c", "d"] = false ∧ s.has ["a", "b"] = true ∧ s.columns ≠ [] := by
  intro p rows s
  obtain ⟨hrequested, -, -, hempty⟩ := snapshot_requested p rows
  have hblocked := hrequested ["c", "d"] (by decide)
  have hfree := hrequested ["a", "b"] (by decide)
  refine ⟨?_, hfree.mpr (by decide +kernel), fun hnil => ?_⟩
  · rw [← Bool.not_eq_true, hblocked]
    decide +kernel
  · exact absurd ((hempty.mp hnil).1 ["a", "b"] (by decide)) (by decide)

/-- **A projection of no names** has no column: not the requested path, where that is empty, and
none at all. -/
theorem not_has_nameless :
    (snapshotAfter (.columns [[]]) []).has [] = false ∧
      (snapshotAfter (.columns [[]]) []).columns = [] ∧
      (snapshotAfter (.columns []) []).columns = [] := by
  decide +kernel

end RowSchema

end Tabular
