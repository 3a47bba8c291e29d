import Tabular.Proofs.Schema.Requested

/-!
# Views of a snapshot

The columns of a snapshot come depth first: each before all columns below it, and these before any
other column. The look-up of the columns directly below a path and the description of all columns
show the same list.

* `Path.Preordered`, `Preordered.append`, `Preordered.branches`, **`Shape.preordered_columns`**: the
  order of columns;
* `Snapshot.filed`, **`lookup_filed`**: the columns filed by the path that each lies directly below;
* `Value.described?`, **`described?_branches`**, `Snapshot.described?`, **`described?_snapshot`**: the
  columns read back from their description.
-/

namespace Tabular

/-! ## Depth first -/

namespace Path

/-- Each path stands directly before all paths that it leads to. -/
def Preordered (paths : List Path) : Prop :=
  ∀ before path after, paths = before ++ path :: after →
    ∃ below rest, after = below ++ rest ∧ (∀ q ∈ below, path <+: q) ∧
      ∀ q ∈ before ++ rest, ¬ path <+: q

variable {path : Path} {paths later : List Path}

theorem preordered_nil : Preordered [] := by
  intro before path after h
  exact absurd h (by simp)

theorem Preordered.cons (h : Preordered paths) (hb : ∀ q ∈ paths, path <+: q ∧ q ≠ path) :
    Preordered (path :: paths) := by
  intro before q after hsplit
  cases before with
  | nil =>
    obtain ⟨rfl, rfl⟩ := List.cons.inj hsplit
    exact ⟨paths, [], (List.append_nil _).symm, fun q hq => (hb q hq).1, by simp⟩
  | cons first before =>
    obtain ⟨rfl, rfl⟩ := List.cons.inj hsplit
    obtain ⟨below, rest, rfl, hbelow, hout⟩ := h before q after rfl
    refine ⟨below, rest, rfl, hbelow, fun q' hq' hpre => ?_⟩
    rcases List.mem_cons.mp hq' with rfl | hq'
    · obtain ⟨hpath, hne⟩ := hb q (by simp)
      exact hne (hpre.eq_of_length_le hpath.length_le)
    · exact hout q' hq' hpre

/-- Two lists one after another, in which no path leads to one of the other list. -/
theorem Preordered.append (h : Preordered paths) (h' : Preordered later)
    (hd : ∀ p ∈ paths, ∀ q ∈ later, ¬ p <+: q ∧ ¬ q <+: p) : Preordered (paths ++ later) := by
  intro before path after hsplit
  rcases List.append_eq_append_iff.mp hsplit with ⟨more, rfl, hlater⟩ | ⟨more, rfl, hmore⟩
  · subst hlater
    obtain ⟨below, rest, rfl, hbelow, hout⟩ := h' more path after rfl
    refine ⟨below, rest, rfl, hbelow, fun q hq => ?_⟩
    rw [List.append_assoc, List.mem_append] at hq
    rcases hq with hq | hq
    · exact (hd q hq path (by simp)).2
    · exact hout q hq
  · cases more with
    | nil =>
      obtain rfl : path :: after = later := hmore
      obtain ⟨below, rest, rfl, hbelow, hout⟩ := h' [] path after rfl
      refine ⟨below, rest, rfl, hbelow, fun q hq => ?_⟩
      rcases List.mem_append.mp hq with hq | hq
      · exact (hd q (by simpa using hq) path List.mem_cons_self).2
      · exact hout q (List.mem_append_right _ hq)
    | cons first more =>
      obtain ⟨rfl, rfl⟩ := List.cons.inj hmore
      obtain ⟨below, rest, rfl, hbelow, hout⟩ := h before path more rfl
      refine ⟨below, rest ++ later, List.append_assoc _ _ _, hbelow, fun q hq => ?_⟩
      rw [← List.append_assoc, List.mem_append] at hq
      rcases hq with hq | hq
      · exact hout q hq
      · exact (hd path (by simp) q hq).1

/-- A list of branches under distinct names, each of them its own path and the paths below it. -/
theorem Preordered.branches {α : Type} {items : List α} {name : α → String}
    {below : α → List Path} {above : Path} (hn : (items.map name).Nodup)
    (hb : ∀ a ∈ items, Preordered (below a) ∧
      ∀ q ∈ below a, above ++ [name a] <+: q ∧ q ≠ above ++ [name a]) :
    Preordered (items.flatMap fun a => (above ++ [name a]) :: below a) := by
  have hroot : ∀ a ∈ items, ∀ q ∈ (above ++ [name a]) :: below a, above ++ [name a] <+: q := by
    intro a ha q hq
    rcases List.mem_cons.mp hq with rfl | hq
    · exact List.prefix_refl _
    · exact ((hb a ha).2 q hq).1
  induction items with
  | nil => exact preordered_nil
  | cons a rest ih =>
    rw [List.map_cons, List.nodup_cons] at hn
    have hothers := ih hn.2 (fun b hm => hb b (List.mem_cons_of_mem a hm))
      fun b hm => hroot b (List.mem_cons_of_mem a hm)
    obtain ⟨hself, hbelow⟩ := hb a List.mem_cons_self
    rw [List.flatMap_cons]
    refine (hself.cons hbelow).append hothers fun p hp q hq => ?_
    obtain ⟨b, hmem, hq⟩ := List.mem_flatMap.mp hq
    have hpa := hroot a List.mem_cons_self p hp
    have hqb := hroot b (List.mem_cons_of_mem a hmem) q hq
    -- a path goes through one name only
    have hapart : ∀ path : Path, above ++ [name a] <+: path → ¬ above ++ [name b] <+: path := by
      intro path h h'
      have heq := (List.prefix_of_prefix_length_le h h' (by simp)).eq_of_length (by simp)
      have hname : name a = name b := by simpa using heq
      exact hn.1 (hname ▸ List.mem_map_of_mem hmem)
    exact ⟨fun h => hapart q (hpa.trans h) hqb, fun h => hapart p hpa (hqb.trans h)⟩

end Path

namespace Shape

variable {rows : Nat} {above : Path} {ss : List Shape} {c : Column}

/-- **Columns come depth first.** -/
theorem preordered_columns (h : Distinct ss) (rows : Nat) (above : Path) :
    Path.Preordered ((columns rows above ss).map Column.path) := by
  induction ss using Shape.induction_below generalizing above with
  | below ss ih =>
    have hbranches : (columns rows above ss).map Column.path = ss.flatMap fun s =>
        (above ++ [s.name]) :: (columns rows (above ++ [s.name]) s.shapes).map Column.path := by
      rw [columns_eq_flatMap, List.map_flatMap]
      simp only [columnsIn_eq, List.map_cons]
      rfl
    rw [hbranches]
    refine Path.Preordered.branches h.nodup fun s hs =>
      ⟨ih s hs (h.named? (named?_of_mem h.nodup hs)) _, fun q hq => ?_⟩
    obtain ⟨c, hc, rfl⟩ := List.mem_map.mp hq
    obtain ⟨n, more, -, hpath⟩ := path_of_mem_columns hc
    rw [hpath]
    exact ⟨List.prefix_append _ _, fun heq =>
      List.cons_ne_nil n more (List.append_right_eq_self.mp heq)⟩

end Shape

/-! ## Directly below a path -/

namespace Snapshot

/-- A column comes to the end of those that lie directly below the same path. -/
def file (c : Column) : List (Path × List Column) → List (Path × List Column)
  | [] => [(c.path.dropLast, [c])]
  | (path, cs) :: rest =>
    if path = c.path.dropLast then (path, cs ++ [c]) :: rest else (path, cs) :: file c rest

/-- The columns by the path that they lie directly below. -/
def filed (s : Snapshot) : List (Path × List Column) :=
  s.columns.foldl (fun table c => file c table) [([], [])]

variable {s : Snapshot} {c : Column} {path : Path}

theorem lookup_file (c : Column) (table : List (Path × List Column)) (path : Path) :
    ((file c table).lookup path).getD [] =
      (table.lookup path).getD [] ++ if c.path.dropLast = path then [c] else [] := by
  induction table with
  | nil =>
    rw [file, List.lookup_cons]
    by_cases h : c.path.dropLast = path
    · subst h
      simp
    · rw [if_neg h, beq_false_of_ne (Ne.symm h)]
      rfl
  | cons e rest ih =>
    obtain ⟨q, cs⟩ := e
    rw [file, List.lookup_cons]
    split
    · next hq =>
      rw [List.lookup_cons]
      by_cases h : path = q
      · subst h
        simp [hq]
      · rw [beq_false_of_ne h, if_neg (fun heq => h (heq.symm.trans hq.symm))]
        exact (List.append_nil _).symm
    · next hq =>
      rw [List.lookup_cons]
      by_cases h : path = q
      · subst h
        simp [Ne.symm hq]
      · rw [beq_false_of_ne h]
        exact ih

/-- **The columns filed under a path** are those directly below it, in their order. -/
theorem lookup_filed (s : Snapshot) (path : Path) :
    (s.filed.lookup path).getD [] = s.children path := by
  have hfold : ∀ (cs : List Column) (table : List (Path × List Column)),
      ((cs.foldl (fun table c => file c table) table).lookup path).getD [] =
        (table.lookup path).getD [] ++ cs.filter fun c => c.path.dropLast == path := by
    intro cs
    induction cs with
    | nil => simp
    | cons c rest ih =>
      intro table
      rw [List.foldl_cons, ih, lookup_file, List.filter_cons, List.append_assoc]
      by_cases h : c.path.dropLast = path
      · simp [h]
      · simp [h]
  rw [filed, hfold, children]
  by_cases h : path = []
  · subst h
    rfl
  · rw [List.lookup_cons, beq_false_of_ne h]
    rfl

theorem mem_children_iff (hp : ∀ c ∈ s.columns, c.path ≠ []) :
    c ∈ s.children path ↔ c ∈ s.columns ∧ ∃ name, c.path = path ++ [name] := by
  rw [children, List.mem_filter, beq_iff_eq]
  refine and_congr_right fun hc => ⟨?_, ?_⟩
  · rintro rfl
    exact ⟨_, (List.dropLast_append_getLast (hp c hc)).symm⟩
  · rintro ⟨name, hname⟩
    rw [hname, List.dropLast_concat]

end Snapshot

/-! ## Descriptions -/

namespace Value

mutual

/-- The columns that a value describes under a path, depth first; none for any other value. -/
def describedIn? (above : Path) : Value → Option (List Column)
  | .map [(k₁, .text name), (k₂, .text kind), (k₃, .bool nullable)] =>
    if [k₁, k₂, k₃] = ["name", "type", "nullable"] ∧ kind = Kind.scalar.name then
      some [⟨above ++ [name], .scalar, nullable⟩]
    else none
  | .map [(k₁, .text name), (k₂, .text kind), (k₃, .bool nullable), (k₄, .list fields)] =>
    if [k₁, k₂, k₃, k₄] = ["name", "type", "nullable", "fields"] ∧ kind = Kind.map.name then
      (described? (above ++ [name]) fields).map (⟨above ++ [name], .map, nullable⟩ :: ·)
    else none
  | _ => none

/-- The columns that values describe under a path, depth first. -/
def described? (above : Path) : List Value → Option (List Column)
  | [] => some []
  | v :: rest => do
    let first ← describedIn? above v
    let later ← described? above rest
    return first ++ later

end

variable {rows : Nat} {above : Path}

/-- **Shapes are read back from the description of their trees**, column by column. -/
theorem described?_branches (rows : Nat) (above : Path) (ss : List Shape) :
    described? above (Branch.describeAll (Shape.branches rows above ss)) =
      some (Shape.columns rows above ss) := by
  induction ss using Shape.induction generalizing above with
  | nil => rfl
  | scalar name seen rest ih =>
    have hself : describedIn? above (Branch.describe (Shape.branchIn rows above (.scalar name seen))) =
        some (Shape.columnsIn rows above (.scalar name seen)) := by
      simp [Shape.branchIn, Branch.describe, describedIn?, Shape.columnsIn, Column.name]
    rw [Shape.branches, Branch.describeAll, described?, hself, ih, Shape.columns]
    rfl
  | map name seen shapes rest ihShapes ih =>
    have hself : describedIn? above
        (Branch.describe (Shape.branchIn rows above (.map name seen shapes))) =
          some (Shape.columnsIn rows above (.map name seen shapes)) := by
      simp [Shape.branchIn, Branch.describe, describedIn?, Shape.columnsIn, Column.name, ihShapes]
    rw [Shape.branches, Branch.describeAll, described?, hself, ih, Shape.columns]
    rfl

end Value

/-! ## Snapshots -/

namespace Snapshot

/-- The columns that the description of a snapshot shows, depth first. -/
def described? (s : Snapshot) : Option (List Column) :=
  match s.describe with
  | .list items => Value.described? [] items
  | _ => none

end Snapshot

namespace RowSchema

variable {p : Projection} {rows : List Row} {path : Path}

theorem described?_snapshot {s : RowSchema} (h : Shape.Distinct s.shapes) :
    s.snapshot.described? = some s.snapshot.columns := by
  show Value.described? [] (Branch.describeAll s.snapshot.branches) = _
  rw [snapshot, Shape.branches_columns (distinct_held h)]
  exact Value.described?_branches s.rows [] s.held

/-- What leads to a column is the column of a map. -/
theorem exists_map_of_isPrefix {c : Column} (hc : c ∈ (snapshotAfter p rows).columns)
    (hq : path <+: c.path) (hnil : path ≠ []) (hne : path ≠ c.path) :
    ∃ d ∈ (snapshotAfter p rows).columns, d.path = path ∧ d.kind = .map := by
  rw [exists_column_iff]
  refine Shape.kindAt_of_isPrefix ?_ hq hne hnil
  rw [(kindAt_of_mem_columns hc).2]
  exact Option.some_ne_none _

/-- A registered path has a column of its kind. -/
theorem exists_column_of_registered {kind : Kind}
    (hk : Shape.kindAt path ((start p).foldAll rows).1.shapes = some kind) :
    ∃ c ∈ (snapshotAfter p rows).columns, c.path = path ∧ c.kind = kind :=
  exists_column_iff.mpr (Shape.grows_foldl_hold _ _ path kind hk)

end RowSchema

end Tabular
