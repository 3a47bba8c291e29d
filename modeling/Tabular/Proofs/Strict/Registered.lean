import Tabular.Proofs.Schema.Views
import Tabular.Proofs.Strict.Snapshot

/-!
# Registered paths

A path is registered once. So the columns of a snapshot are the registered paths with their kinds,
those of the requests included: none is lost on the visit of the tables, and none comes from
elsewhere.

* `Tables.Listed`, `listed_register`, **`listed_sightAll`**, `listed_hold`: every step lists a path at
  most once;
* `Tables.mem_registered_iff`: a path is listed with its kind;
* `Schema.after`, `Schema.held`, `sound_after`, **`outline_perm`**: the columns of a snapshot and the
  registered paths;
* **`RowSchema.views_agree`**: the order of the columns, those below a path, and their description.
-/

namespace Tabular

namespace Strict

namespace Tables

/-- No path is registered twice, and the row element is not registered. -/
structure Listed (t : Tables) : Prop where
  nodup : (t.registered.map Prod.fst).Nodup
  ne_nil : [] ∉ t.registered.map Prod.fst

variable {t : Tables} {above path : Path} {kind : Kind}

theorem listed_empty : Listed {} :=
  ⟨List.nodup_nil, List.not_mem_nil⟩

theorem kind?_eq_none_iff : t.kind? path = none ↔ path ∉ t.registered.map Prod.fst := by
  rw [kind?, ← Option.not_isSome_iff_eq_none, List.lookup_isSome_iff, List.mem_map]
  simp only [beq_iff_eq, @eq_comm Path path]

theorem listed_register (h : t.Listed) (above : Path) (name : String) (kind : Kind) :
    (t.register above name kind).1.Listed := by
  unfold register
  split
  · exact h
  · next hnone =>
    refine ⟨List.nodup_cons.mpr ⟨kind?_eq_none_iff.mp hnone, h.nodup⟩, fun hmem => ?_⟩
    rcases List.mem_cons.mp hmem with heq | hmem
    · exact List.concat_ne_nil name above heq.symm
    · exact h.ne_nil hmem

theorem listed_see (h : t.Listed) (path : Path) : (t.see path).Listed :=
  ⟨h.nodup, h.ne_nil⟩

/-- **The fields of a row** are listed at most once. -/
theorem listed_sightAll (fs : List Field) :
    ∀ {t : Tables} {above : Path}, t.Listed → (sightAll above t fs).Listed := by
  induction fs using Field.induction_below with
  | below fs ih =>
    intro t above h
    induction fs generalizing t with
    | nil =>
      rw [sightAll]
      exact h
    | cons f rest ihRest =>
      rw [sightAll]
      apply ihRest fun g hg => ih g (List.mem_cons_of_mem f hg)
      rw [sight_eq]
      split
      · exact ih f List.mem_cons_self (listed_see (listed_register h above f.name f.kind) _)
      · exact listed_register h above f.name f.kind

theorem listed_touchAll (keys : List String) (h : t.Listed) :
    (keys.foldl (touch above) t).Listed := by
  induction keys generalizing t with
  | nil => exact h
  | cons key rest ih => exact ih (listed_see (listed_register h above key .scalar) _)

theorem listed_hold (path : Path) (h : t.Listed) : (hold above path t).Listed := by
  induction path generalizing above t with
  | nil => exact h
  | cons name rest ih =>
    rw [hold]
    split
    · exact ih (listed_register h above name _)
    · exact ih h
    · exact h

theorem listed_holdAll (paths : List Path) (h : t.Listed) :
    (paths.foldl (fun t path => t.hold above path) t).Listed := by
  induction paths generalizing t with
  | nil => exact h
  | cons path rest ih => exact ih (listed_hold path h)

/-- A path is listed with the kind that it was registered with. -/
theorem mem_registered_iff (h : t.Listed) : (path, kind) ∈ t.registered ↔ t.kind? path = some kind := by
  have hnodup := h.nodup
  unfold kind?
  generalize t.registered = es at hnodup ⊢
  induction es with
  | nil => simp
  | cons e rest ih =>
    obtain ⟨q, k⟩ := e
    rw [List.map_cons, List.nodup_cons] at hnodup
    rw [List.mem_cons, List.lookup_cons, Prod.mk.injEq]
    by_cases hq : path = q
    · subst hq
      have hnot : (path, kind) ∉ rest := by
        intro hmem
        have hfirst := List.mem_map_of_mem (f := Prod.fst) hmem
        exact hnodup.1 hfirst
      simp [hnot, eq_comm]
    · simp [hq, ih hnodup.2, beq_false_of_ne hq]

end Tables

/-! ## Schemas -/

namespace Schema

/-- The schema after some rows. -/
def after (p : Projection) (rows : List Row) : Schema :=
  rows.foldl fold (start p)

/-- The tables with room for every path that was asked for. -/
def held (s : Schema) : Tables :=
  s.running.projection.paths.foldl (fun t path => t.hold [] path) s.tables

variable {s : Schema}

theorem running_foldl (rows : List Row) (s : Schema) :
    (rows.foldl fold s).running = (s.running.foldAll rows).1 := by
  induction rows generalizing s with
  | nil => rfl
  | cons row rest ih => exact ih (s.fold row)

theorem running_after (p : Projection) (rows : List Row) :
    (after p rows).running = ((RowSchema.start p).foldAll rows).1 :=
  running_foldl rows (start p)

/-- **Every sequence of rows keeps the tables.** -/
theorem sound_after (p : Projection) (rows : List Row) : (after p rows).Sound := by
  have hfold : ∀ (rows : List Row) {s : Schema}, s.Sound → (rows.foldl fold s).Sound := by
    intro rows
    induction rows with
    | nil => exact fun h => h
    | cons row rest ih => exact fun h => ih (h.fold row)
  exact hfold rows (sound_start p)

theorem listed_after (p : Projection) (rows : List Row) : (after p rows).tables.Listed := by
  have hfold : ∀ (rows : List Row) {s : Schema}, s.tables.Listed →
      (rows.foldl fold s).tables.Listed := by
    intro rows
    induction rows with
    | nil => exact fun h => h
    | cons row rest ih =>
      intro s h
      refine ih (Tables.listed_sightAll row.fields ?_)
      split
      · exact Tables.listed_see (Tables.listed_touchAll _ h) _
      · exact h
  refine hfold rows ?_
  show (if p.wantsAttributes then _ else _ : Tables).Listed
  split
  · exact Tables.listed_register Tables.listed_empty _ _ _
  · exact Tables.listed_empty

theorem listed_held (p : Projection) (rows : List Row) : (after p rows).held.Listed :=
  Tables.listed_holdAll _ (listed_after p rows)

theorem showsAt_held (p : Projection) (rows : List Row) :
    (after p rows).held.ShowsAt [] ((RowSchema.start p).foldAll rows).1.held := by
  rw [← running_after]
  exact Tables.showsAt_holdAll _ (sound_after p rows).shows

/-- **The columns of a snapshot are the registered paths**, with their kinds. -/
theorem outline_perm (p : Projection) (rows : List Row) :
    ((RowSchema.snapshotAfter p rows).columns.map Column.outline).Perm
      (after p rows).held.registered := by
  have hlisted := listed_held p rows
  have hkind := (showsAt_held p rows).kind
  generalize (after p rows).held = t at hlisted hkind ⊢
  have hcolumns : ((RowSchema.snapshotAfter p rows).columns.map Column.outline).Nodup := by
    apply List.Nodup.of_map Prod.fst
    rw [List.map_map]
    exact Shape.nodup_paths_columns (RowSchema.distinct_held (RowSchema.distinct_after p rows)) _ []
  refine (List.perm_ext_iff_of_nodup hcolumns hlisted.nodup.of_map).mpr fun ⟨path, kind⟩ => ?_
  rw [Tables.mem_registered_iff hlisted, List.mem_map]
  constructor
  · rintro ⟨c, hc, hout⟩
    obtain ⟨rfl, rfl⟩ := Prod.mk.inj hout
    obtain ⟨hp, hk⟩ := RowSchema.kindAt_of_mem_columns hc
    exact (hkind c.path hp).trans hk
  · intro hk
    have hp : path ≠ [] := by
      rintro rfl
      exact hlisted.ne_nil (List.mem_map_of_mem ((Tables.mem_registered_iff hlisted).mpr hk))
    obtain ⟨c, hc, rfl, rfl⟩ := RowSchema.exists_column_iff.mpr ((hkind path hp).symm.trans hk)
    exact ⟨c, hc, rfl⟩

/-- What the rows have registered has a column. -/
theorem mem_outline_of_registered {p : Projection} {rows : List Row} {e : Path × Kind}
    (he : e ∈ (after p rows).tables.registered) :
    e ∈ (RowSchema.snapshotAfter p rows).columns.map Column.outline := by
  obtain ⟨path, kind⟩ := e
  have hlisted := listed_after p rows
  have hp : path ≠ [] := by
    rintro rfl
    exact hlisted.ne_nil (List.mem_map_of_mem he)
  have hk := (Tables.mem_registered_iff hlisted).mp he
  rw [← List.nil_append path, (sound_after p rows).shows.kind path hp, running_after] at hk
  obtain ⟨c, hc, rfl, rfl⟩ := RowSchema.exists_column_of_registered hk
  exact List.mem_map_of_mem hc

end Schema

end Strict

namespace RowSchema

/-- **The views of a snapshot agree.** Whatever rows have come, the visit of the tables meets
registered paths only and gives the columns: each registered path once with its kind, those that the
rows have brought among them. The columns come depth first, and every path that leads to one of them
has the column of a map. The columns filed under a path are those directly below it, in the same
order, and the description of the snapshot, read depth first, gives the columns back. -/
theorem views_agree (p : Projection) (rows : List Row) :
    let schema := Strict.Schema.after p rows
    let s := snapshotAfter p rows
    schema.snapshot = .ok s ∧
      (s.columns.map Column.path).Nodup ∧
      Path.Preordered (s.columns.map Column.path) ∧
      (∀ c ∈ s.columns, c.path ≠ [] ∧ ∀ q, q <+: c.path → q ≠ [] → q ≠ c.path →
        ∃ d ∈ s.columns, d.path = q ∧ d.kind = .map) ∧
      (∀ e ∈ schema.tables.registered, e ∈ s.columns.map Column.outline) ∧
      (s.columns.map Column.outline).Perm schema.held.registered ∧
      (∀ path, (s.filed.lookup path).getD [] = s.children path ∧
        (s.children path).Sublist s.columns ∧
        ∀ c, c ∈ s.children path ↔ c ∈ s.columns ∧ ∃ name, c.path = path ++ [name]) ∧
      s.described? = some s.columns := by
  intro schema s
  have hd := distinct_held (distinct_after p rows)
  refine ⟨?_, Shape.nodup_paths_columns hd _ [], Shape.preordered_columns hd _ [],
    fun c hc => ⟨(kindAt_of_mem_columns hc).1, fun q hq hnil hne =>
      exists_map_of_isPrefix hc hq hnil hne⟩,
    fun e he => Strict.Schema.mem_outline_of_registered he, Strict.Schema.outline_perm p rows,
    fun path => ⟨Snapshot.lookup_filed s path, List.filter_sublist, fun c =>
      Snapshot.mem_children_iff fun c hc => (kindAt_of_mem_columns hc).1⟩,
    described?_snapshot (distinct_after p rows)⟩
  rw [(Strict.Schema.sound_after p rows).snapshot, Strict.Schema.running_after]
  rfl

/-- A text stands in the way of one request, and another one goes through an attribute. -/
theorem views_agree_requested :
    let p : Projection := .columns [["c", "d"], ["a", "b"], ["attributes", "k"]]
    let rows : List Row :=
      [⟨"r", 0, [("m", some "1")], [.map "a" 1 [.scalar "x" 2 none], .scalar "c" 3 (some "y")]⟩]
    let s := snapshotAfter p rows
    (Strict.Schema.after p rows).snapshot = .ok s ∧
      s.columns.map Column.path = [["attributes"], ["attributes", "m"], ["attributes", "k"], ["a"],
        ["a", "x"], ["a", "b"], ["c"]] ∧
      Path.Preordered (s.columns.map Column.path) ∧ s.described? = some s.columns := by
  intro p rows s
  obtain ⟨hvisit, -, horder, -, -, -, -, hdescribed⟩ := views_agree p rows
  exact ⟨hvisit, by decide +kernel, horder, hdescribed⟩

end RowSchema

end Tabular
