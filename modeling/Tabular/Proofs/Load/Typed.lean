import Tabular.Proofs.Load.ColumnType
import Tabular.Proofs.Schema.Columns

/-!
# The types of a schema

The types of the columns of a schema have its names and its kinds, and nothing else.

* `ColumnType.listed`, **`listed_ofBranches`**: the names inside types with their kinds are the
  columns;
* `ColumnType.Describes`, **`describes_snapshot`**: a text is a `VARCHAR`; a map is a `STRUCT` of the
  columns directly below it, or `JSON` where there are none.
-/

namespace Tabular.Sql.ColumnType

open Shape (branchIn branches columnAt columnsIn columns Distinct)

variable {s : Snapshot} {c : Column} {rows : Nat} {above : Path} {ss : List Shape} {t : Shape}

/-! ## Names with their kinds -/

mutual

/-- What a type at a path says of this path and those below it. -/
def listedIn (path : Path) : ColumnType → List (Path × Kind)
  | .varchar => [(path, .scalar)]
  | .json => [(path, .map)]
  | .struct n t rest => (path, .map) :: (listedIn (path ++ [n]) t ++ listed path rest)

/-- What fields below a path say of their paths and those below them. -/
def listed (above : Path) : List (String × ColumnType) → List (Path × Kind)
  | [] => []
  | (n, t) :: rest => listedIn (above ++ [n]) t ++ listed above rest

end

theorem listedIn_ofBranch_map (path : Path) (h : c.kind = .map) (bs : List Branch) :
    listedIn path (ofBranch (.node c bs)) = (path, .map) :: listed path (ofBranches bs) := by
  obtain ⟨_, _, _⟩ := c
  cases h
  cases bs with
  | nil => rfl
  | cons b rest => rfl

theorem ofBranches_branches_cons (rows : Nat) (above : Path) (t : Shape) (rest : List Shape) :
    ofBranches (branches rows above (t :: rest)) =
      (t.name, ofBranch (branchIn rows above t)) :: ofBranches (branches rows above rest) := by
  rw [branches, ofBranches, Shape.name_branchIn]

/-- **The names inside the types of shapes**, with their kinds, are the columns. -/
theorem listed_ofBranches (rows : Nat) (above : Path) (ss : List Shape) :
    listed above (ofBranches (branches rows above ss)) =
      (columns rows above ss).map fun c => (c.path, c.kind) := by
  induction ss using Shape.induction generalizing above with
  | nil => rfl
  | scalar n seen rest ih =>
    rw [ofBranches_branches_cons, listed, ih, columns, List.map_append]
    rfl
  | map n seen inner rest ihInner ihRest =>
    rw [ofBranches_branches_cons, listed, ihRest, columns, List.map_append, branchIn,
      listedIn_ofBranch_map _ rfl, columnsIn, List.map_cons, ← ihInner]
    rfl

/-! ## Columns directly below a column -/

mutual

/-- The type is the one of a column of the snapshot. -/
def Describes (s : Snapshot) (c : Column) : ColumnType → Prop
  | .varchar => c.kind = .scalar
  | .json => c.kind = .map ∧ s.children c.path = []
  | .struct n t rest => c.kind = .map ∧ ∃ first others, s.children c.path = first :: others ∧
      n = first.name ∧ Describes s first t ∧ DescribesAll s others rest

/-- The fields are columns of the snapshot with their types, in this order. -/
def DescribesAll (s : Snapshot) : List Column → List (String × ColumnType) → Prop
  | [], [] => True
  | c :: cs, (n, t) :: rest => n = c.name ∧ Describes s c t ∧ DescribesAll s cs rest
  | _, _ => False

end

theorem describes_ofBranch_map (h : c.kind = .map) {bs : List Branch}
    (hbs : DescribesAll s (s.children c.path) (ofBranches bs)) :
    Describes s c (ofBranch (.node c bs)) := by
  obtain ⟨_, _, _⟩ := c
  cases h
  cases bs with
  | nil =>
    cases hc : s.children _ with
    | nil => exact ⟨rfl, hc⟩
    | cons first others =>
      rw [hc] at hbs
      exact hbs.elim
  | cons b rest =>
    cases hc : s.children _ with
    | nil =>
      rw [hc] at hbs
      exact hbs.elim
    | cons first others =>
      rw [hc] at hbs
      exact ⟨rfl, first, others, hc, hbs⟩

theorem under_of_mem (h : Distinct ss) (ht : t ∈ ss) (q : Path) :
    Shape.under (t.name :: q) ss = Shape.under q t.shapes := by
  rw [Shape.under, Shape.named?_of_mem h.nodup ht]
  rfl

/-- Types describe the columns of shapes if the snapshot has, below each of them, the columns of
what it holds. -/
theorem describesAll_branches (h : Distinct ss) (hs : ∀ t ∈ ss, ∀ q : Path,
      s.children (above ++ t.name :: q) = (Shape.under q t.shapes).map fun u =>
        columnAt rows (above ++ t.name :: q ++ [u.name]) u) :
    DescribesAll s (ss.map fun t => columnAt rows (above ++ [t.name]) t)
      (ofBranches (branches rows above ss)) := by
  induction ss using Shape.induction generalizing above with
  | nil => trivial
  | scalar n seen rest ih =>
    rw [ofBranches_branches_cons]
    exact ⟨(Shape.name_columnAt ..).symm, rfl,
      ih h.2.2 fun t ht => hs t (List.mem_cons_of_mem _ ht)⟩
  | map n seen inner rest ihInner ihRest =>
    have hnow : s.children (above ++ [n]) =
        inner.map fun u => columnAt rows (above ++ [n] ++ [u.name]) u :=
      hs _ List.mem_cons_self []
    have hbelow : DescribesAll s (inner.map fun u => columnAt rows (above ++ [n] ++ [u.name]) u)
        (ofBranches (branches rows (above ++ [n]) inner)) := ihInner h.2.1 fun u hu q => by
      have hq := hs _ List.mem_cons_self (u.name :: q)
      rw [show (Shape.map n seen inner).shapes = inner from rfl, under_of_mem h.2.1 hu] at hq
      rw [← List.append_cons]
      exact hq
    rw [← hnow] at hbelow
    rw [ofBranches_branches_cons]
    exact ⟨(Shape.name_columnAt ..).symm, describes_ofBranch_map rfl hbelow,
      ihRest h.2.2 fun t ht => hs t (List.mem_cons_of_mem _ ht)⟩

/-- **The types of a schema** describe its columns. -/
theorem describes_snapshot {s : RowSchema} (h : Distinct s.shapes) :
    DescribesAll s.snapshot (s.snapshot.children []) (ofBranches s.snapshot.branches) := by
  have hheld := RowSchema.distinct_held h
  have hbranches : s.snapshot.branches = branches s.rows [] s.held :=
    Shape.branches_columns hheld
  have hchildren := RowSchema.children_snapshot h []
  rw [hbranches, hchildren]
  refine describesAll_branches hheld fun t ht q => ?_
  rw [RowSchema.children_snapshot h, List.nil_append, under_of_mem hheld ht]

end Tabular.Sql.ColumnType
