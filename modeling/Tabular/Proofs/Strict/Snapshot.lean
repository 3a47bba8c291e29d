import Tabular.Proofs.Strict.Tables

/-!
# Snapshots of tables

The columns of a schema in tables are visited from the names below the empty path on, with a look at
the kind of each path that is listed. Room for requested paths is made in a copy of the tables.

* `Tables.hold`, **`showsAt_hold`**, `showsAt_holdAll`: room for a path, as in the shapes;
* `Tables.visit`, **`visit_columns`**: the visit of what the tables show meets registered paths
  only;
* **`length_columns_le`**: each path comes once, so that there are no more steps than registered
  paths;
* `Strict.Schema`, `Schema.Sound`, **`Sound.fold`**, **`Sound.snapshot`**: a running schema with its
  tables, kept by every row, gives the snapshot of the schema.
-/

namespace Tabular

namespace Strict

namespace Tables

/-! ## Room for requested paths -/

/-- The tables with room for the names of a path, below another one, unless a text stands in their
way. -/
def hold (above : Path) : Path → Tables → Tables
  | [], t => t
  | name :: rest, t =>
    match t.kind? (above ++ [name]) with
    | none =>
      hold (above ++ [name]) rest
        (t.register above name (if rest = [] then .scalar else .map)).1
    | some .map => hold (above ++ [name]) rest t
    | some .scalar => t

variable {t t' : Tables} {above path : Path} {ss : List Shape} {name : String}

theorem empty_cons (name : String) (rest : Path) : ∃ s, Shape.empty (name :: rest) = [s] ∧
    s.name = name ∧ s.kind = (if rest = [] then .scalar else .map) ∧ s.seen = 0 ∧
      s.shapes = Shape.hold rest [] := by
  cases rest with
  | nil => exact ⟨.scalar name 0, rfl, rfl, rfl, rfl, rfl⟩
  | cons n rest => exact ⟨.map name 0 (Shape.empty (n :: rest)), rfl, rfl, rfl, rfl, rfl⟩

/-- **Room is made in the tables as in the shapes.** -/
theorem showsAt_hold (path : Path) (h : t.ShowsAt above ss) :
    (hold above path t).ShowsAt above (Shape.hold path ss) ∧
      SameAround above t (hold above path t) := by
  induction path generalizing above t ss with
  | nil => exact ⟨h, .refl above t⟩
  | cons name rest ih =>
    obtain ⟨hnames, hbelow⟩ := showsAt_iff.mp h
    have hin := hbelow name
    have hroot := not_isPrefix_concat above name
    rw [hold, Shape.hold]
    cases hs : Shape.named? name ss with
    | none =>
      rw [hs] at hin
      obtain ⟨s, hempty, rfl, hkind, hseen, hshapes⟩ := empty_cons name rest
      have hreg := register_of_none hin.kind (if rest = [] then .scalar else .map)
      rw [show t.kind? (above ++ [s.name]) = none from hin.kind]
      simp only [hempty]
      generalize (t.register above s.name _).1 = t₁ at hreg ⊢
      obtain ⟨-, hkind₁, hpresence, hchildren, hoff₁, hbelow₁⟩ := hreg
      obtain ⟨hheld, haround⟩ := ih (hin.below.of_sameBelow hbelow₁)
      have hoff := hoff₁.trans haround.off
      refine ⟨h.replace hoff ?_ (fun other ho => named?_concat_of_ne (Ne.symm ho) ss) ?_,
        hoff.around⟩
      · rw [haround.children _ hroot, hchildren, hnames, List.map_append]
        rfl
      · rw [Shape.named?_append_of_none hs, Shape.named?_cons, if_pos rfl]
        refine ⟨?_, ?_, ?_⟩
        · rw [haround.kind _ (Or.inr rfl), hkind₁, Option.map_some, hkind]
        · rw [haround.presence _ (Or.inr rfl), hpresence, hin.presence, Shape.seenBefore,
            Shape.seenBefore, Option.map_some, Option.getD_some, hseen]
          rfl
        · rw [Shape.inner, Option.map_some, Option.getD_some, hshapes]
          exact hheld
    | some s =>
      rw [hs] at hin
      have hname := Shape.name_mapShapes (Shape.hold rest)
      have hself : Shape.named? name (Shape.change name (Shape.mapShapes (Shape.hold rest)) ss) = _ :=
        Shape.named?_change_self _ hname ss
      have hothers : ∀ other, other ≠ name →
          Shape.named? other (Shape.change name (Shape.mapShapes (Shape.hold rest)) ss) =
            Shape.named? other ss := fun other ho => Shape.named?_change_of_ne ho _ hname ss
      rw [hs, Option.map_some] at hself
      cases s with
      | scalar m k =>
        rw [show t.kind? (above ++ [name]) = some .scalar from hin.kind]
        refine ⟨h.replace (SameAround.refl _ t).off ?_ hothers ?_, .refl above t⟩
        · rw [Shape.names_change _ hname, hnames]
        · rw [hself]
          exact hin
      | map m k inner =>
        rw [show t.kind? (above ++ [name]) = some .map from hin.kind]
        obtain ⟨hheld, haround⟩ := ih hin.below
        refine ⟨h.replace haround.off ?_ hothers ?_, haround.off.around⟩
        · rw [haround.children _ hroot, Shape.names_change _ hname, hnames]
        · rw [hself]
          exact ⟨(haround.kind _ (Or.inr rfl)).trans hin.kind,
            (haround.presence _ (Or.inr rfl)).trans hin.presence, hheld⟩

theorem showsAt_holdAll (paths : List Path) (h : t.ShowsAt above ss) :
    (paths.foldl (fun t path => t.hold above path) t).ShowsAt above
      (paths.foldl (fun ss path => Shape.hold path ss) ss) := by
  induction paths generalizing t ss with
  | nil => exact h
  | cons path rest ih => exact ih (showsAt_hold path h).1

/-! ## The visit of all columns -/

/-- The columns of the paths on a stack and of all that is listed below them, in at most so many
steps. -/
def visit (rows : Nat) (t : Tables) : Nat → List Path → Except Breach (List Column)
  | _, [] => .ok []
  | 0, _ :: _ => .error .endless
  | steps + 1, path :: stack =>
    match t.kind? path with
    | none => .error (.unregistered path)
    | some kind => do
      let later ← visit rows t steps (((t.children path).map fun name => path ++ [name]) ++ stack)
      return ⟨path, kind, !Shape.isRequired rows path kind (t.presence path)⟩ :: later

/-- The paths of shapes below a path. -/
def roots (above : Path) (ss : List Shape) : List Path :=
  ss.map fun s => above ++ [s.name]

/-- **The visit of what the tables show meets registered paths only**, and gives the columns of the
shapes. -/
theorem visit_columns (rows : Nat) (hd : Shape.Distinct ss) (h : t.ShowsAt above ss) (steps : Nat)
    (stack : List Path) :
    visit rows t ((Shape.columns rows above ss).length + steps) (roots above ss ++ stack) =
      (visit rows t steps stack).map (Shape.columns rows above ss ++ ·) := by
  induction ss using Shape.induction_below generalizing above stack steps with
  | below ss ih =>
    have hshown : ∀ s ∈ ss, t.ShowsIn (above ++ [s.name]) (some s) ∧ Shape.Distinct s.shapes := by
      intro s hs
      have hn := Shape.named?_of_mem hd.nodup hs
      exact ⟨hn ▸ (showsAt_iff.mp h).2 s.name, hd.named? hn⟩
    clear h hd
    -- the shapes are visited one by one
    induction ss generalizing steps with
    | nil =>
      rw [Shape.columns, List.length_nil, Nat.zero_add]
      show visit rows t steps stack = _
      cases visit rows t steps stack <;> rfl
    | cons s rest ihRest =>
      obtain ⟨hin, hd⟩ := hshown s List.mem_cons_self
      have hinner := ih s List.mem_cons_self hd hin.below
      have hrest := ihRest (fun s' hs' => ih s' (List.mem_cons_of_mem s hs')) steps
        fun s' hs' => hshown s' (List.mem_cons_of_mem s hs')
      have hchildren : (t.children (above ++ [s.name])).map (fun name => above ++ [s.name] ++ [name]) =
          roots (above ++ [s.name]) s.shapes := by
        rw [(showsAt_iff.mp hin.below).1, List.map_map]
        rfl
      have hlength : (Shape.columns rows above (s :: rest)).length + steps =
          (Shape.columns rows (above ++ [s.name]) s.shapes).length +
            ((Shape.columns rows above rest).length + steps) + 1 := by
        rw [Shape.columns, Shape.columnsIn_eq, List.length_append, List.length_cons]
        omega
      rw [hlength, roots, List.map_cons, List.cons_append, visit, hin.kind, Option.map_some]
      simp only [hchildren, hin.presence]
      rw [hinner, ← roots, hrest, Shape.columns, Shape.columnsIn_eq]
      cases visit rows t steps stack with
      | error breach => rfl
      | ok later =>
        exact congrArg (fun columns => Except.ok (_ :: columns)) (List.append_assoc _ _ later).symm

/-- There are no more columns than registered paths. -/
theorem length_columns_le (rows : Nat) (hd : Shape.Distinct ss) (h : t.ShowsAt [] ss) :
    (Shape.columns rows [] ss).length ≤ t.registered.length := by
  have hsub : (Shape.columns rows [] ss).map Column.path ⊆ t.registered.map Prod.fst := by
    intro path hp
    obtain ⟨c, hc, rfl⟩ := List.mem_map.mp hp
    obtain ⟨s, hs, hcolumn⟩ := (Shape.mem_columns hd).mp hc
    have hne : c.path ≠ [] := by
      intro heq
      rw [heq] at hs
      cases hs
    have hkind : t.kind? c.path = some s.kind := by
      rw [← List.nil_append c.path, h.kind c.path hne, Shape.kindAt, hs, Option.map_some]
    obtain ⟨e, he, heq⟩ := List.lookup_isSome_iff.mp (Option.isSome_iff_exists.mpr ⟨_, hkind⟩)
    exact List.mem_map.mpr ⟨e, he, (eq_of_beq heq).symm⟩
  have hle := (Shape.nodup_paths_columns hd rows []).length_le_of_subset hsub
  rwa [List.length_map, List.length_map] at hle

end Tables

/-! ## Schemas -/

/-- A running schema with its tables. -/
structure Schema where
  running : RowSchema
  tables : Tables := {}

namespace Schema

/-- The schema before the first row. -/
def start (p : Projection) : Schema where
  running := .start p
  tables := if p.wantsAttributes then (Tables.register [] attributesName .map {}).1 else {}

/-- The schema after one more row. -/
def fold (s : Schema) (row : Row) : Schema where
  running := (s.running.fold row).schema
  tables :=
    Tables.sightAll []
      (if s.running.projection.wantsAttributes then
        ((Entries.keys row.attributes).foldl (Tables.touch attributesPath) s.tables).see
          attributesPath
      else s.tables)
      row.fields

/-- The columns at this moment, by a visit of the tables. -/
def snapshot (s : Schema) : Except Breach Snapshot := do
  let t := s.running.projection.paths.foldl (fun t path => t.hold [] path) s.tables
  let columns ← t.visit s.running.rows t.registered.length
    ((t.children []).map fun name => [name])
  return ⟨columns⟩

/-- The tables show the schema, in which attributes are a map, if they are asked for. -/
structure Sound (s : Schema) : Prop where
  distinct : Shape.Distinct s.running.shapes
  shows : s.tables.ShowsAt [] s.running.shapes
  attributes : s.running.projection.wantsAttributes = true →
    Shape.kindAt attributesPath s.running.shapes = some .map

variable {s : Schema}

theorem sound_start (p : Projection) : (start p).Sound := by
  refine ⟨RowSchema.distinct_start p, ?_, fun hw => ?_⟩
  · show Tables.ShowsAt (if p.wantsAttributes then _ else {}) [] (RowSchema.start p).shapes
    rw [RowSchema.start]
    split
    · have hnew : Tables.kind? ([] ++ [attributesName]) {} = none := rfl
      obtain ⟨-, hkind, hpresence, hchildren, hoff, hbelow⟩ := Tables.register_of_none hnew .map
      refine (Tables.showsAt_empty []).replace hoff hchildren (fun other ho => ?_) ?_
      · exact (Shape.named?_cons ..).trans (if_neg (Ne.symm ho))
      · rw [show Shape.named? attributesName [.map attributesName 0 []] = _ from
          (Shape.named?_cons ..).trans (if_pos rfl)]
        exact ⟨hkind, congrFun hpresence _, (Tables.showsAt_empty _).of_sameBelow hbelow⟩
    · exact Tables.showsAt_empty []
  · show Shape.kindAt attributesPath (RowSchema.start p).shapes = _
    rw [RowSchema.start]
    simp only [show p.wantsAttributes = true from hw, if_true]
    rfl

/-- The attributes of a row come into the tables as the shape of attributes takes them. -/
theorem Sound.showsAt_withAttributes (h : s.Sound) (hw : s.running.projection.wantsAttributes = true)
    (keys : List String) :
    ((keys.foldl (Tables.touch attributesPath) s.tables).see attributesPath).ShowsAt []
      (RowSchema.withAttributes keys s.running.shapes) := by
  obtain ⟨hnames, hbelow⟩ := Tables.showsAt_iff.mp h.shows
  have hin := hbelow attributesName
  have hkind := h.attributes hw
  rw [attributesPath, Shape.kindAt_singleton] at hkind
  obtain ⟨t, ht, hmap⟩ := Option.map_eq_some_iff.mp hkind
  rw [ht] at hin
  have hname : ∀ t : Shape,
      (t.again.mapShapes fun ss => keys.foldl Shape.touch ss).name = t.name := by simp
  obtain ⟨hshown, haround⟩ := Tables.showsAt_touchAll keys hin.below
  have hoff := haround.off.trans (Tables.sameOff_see _)
  rw [RowSchema.withAttributes]
  refine h.shows.replace hoff ?_ (fun other ho => Shape.named?_change_of_ne ho _ hname _) ?_
  · rw [Shape.names_change _ hname, ← hnames]
    exact haround.children _ (Tables.not_isPrefix_concat [] attributesName)
  · rw [Shape.named?_change_self _ hname, ht, Option.map_some]
    cases t with
    | scalar n k => cases hmap
    | map n k inner =>
      refine ⟨(haround.kind _ (Or.inr rfl)).trans hin.kind, ?_,
        hshown.of_sameBelow (Tables.sameBelow_see _)⟩
      have hpresence := (haround.presence _ (Or.inr rfl)).trans hin.presence
      exact (Tables.presence_see_self attributesPath _).trans (congrArg (· + 1) hpresence)

/-- **Every row keeps the tables.** -/
theorem Sound.fold (h : s.Sound) (row : Row) : (s.fold row).Sound := by
  refine ⟨RowSchema.distinct_fold row h.distinct, ?_, fun hw =>
    RowSchema.grows_fold s.running row _ _ (h.attributes hw)⟩
  refine (Tables.showsAt_sightAll row.ordinal row.fields [] _ _ ?_).1
  split
  · next hw => exact h.showsAt_withAttributes hw _
  · exact h.shows

/-- **The snapshot meets registered paths only**, and is that of the running schema. -/
theorem Sound.snapshot (h : s.Sound) : s.snapshot = .ok s.running.snapshot := by
  have hheld := Tables.showsAt_holdAll s.running.projection.paths h.shows
  have hd := RowSchema.distinct_held h.distinct
  show (Tables.visit _ (s.running.projection.paths.foldl _ s.tables) _ _ >>= fun columns => _) = _
  generalize s.running.projection.paths.foldl (fun t path => t.hold [] path) s.tables = t at hheld ⊢
  obtain ⟨steps, hsteps⟩ := Nat.exists_eq_add_of_le
    (Tables.length_columns_le s.running.rows hd hheld)
  have hroots : (t.children []).map (fun name => [name]) = Tables.roots [] s.running.held ++ [] := by
    rw [(Tables.showsAt_iff.mp hheld).1, List.append_nil, List.map_map]
    rfl
  rw [hsteps, hroots, Tables.visit_columns s.running.rows hd hheld]
  cases steps <;> simp [Tables.visit, RowSchema.snapshot, Except.map, bind, Except.bind, pure,
    Except.pure, RowSchema.held]

end Schema

end Strict

end Tabular
