import Tabular.Proofs.Load.Typed
import Tabular.Proofs.Schema.Conform

/-!
# Statements read back

The statement that makes a table has always the same tokens, but for the name of the table, the
path of the file, and the columns with their types. Whatever marks, commas, brackets and line ends
names hold, what was written comes out.

* `spelledEntries`, `readEntries`: the tokens of a literal of columns, and the columns read back;
* `template`, **`reads_createTable`**: the tokens of a statement;
* `columnTypes?`, **`columnTypes?_columnsLiteral`**: the types that a literal spells;
* **`createTable_readBack`**: a statement on the schema of any rows, down to the types.
-/

namespace Tabular.Sql

open ColumnType (ofBranch ofBranches Describes DescribesAll listed)

/-! ## Literals of columns -/

/-- The tokens of a column with the text of its type. -/
def spelledEntry (e : String × String) : List Token :=
  [.text e.1, .sign ':', .text e.2]

/-- The tokens of a literal of columns. -/
def spelledEntries (es : List (String × String)) : List Token :=
  .sign '\x7b' :: ([.sign ','].intercalate (es.map spelledEntry) ++ [.sign '\x7d'])

/-- The columns of a snapshot with the texts of their types. -/
def entries (s : Snapshot) : List (String × String) :=
  s.branches.map fun b => (b.column.name, typeOf b)

theorem lexes_entry (e : String × String) :
    Lexes (quoteLiteral e.1 ++ ": " ++ quoteLiteral e.2).toList (spelledEntry e) := by
  have hcolon : Reads [':', ' '] [.sign ':'] := rfl
  rw [String.append_assoc, String.toList_append, String.toList_append]
  exact (lexes_quoteLiteral e.1).append (hcolon.lexes_append (lexes_quoteLiteral e.2)) rfl

theorem reads_columnsLiteral (s : Snapshot) :
    Reads (columnsLiteral s).toList (spelledEntries (entries s)) := by
  have hopen : Reads ['\x7b'] [.sign '\x7b'] := rfl
  have hclose : Reads ['\x7d'] [.sign '\x7d'] := rfl
  have hall : List.Forall₂ Lexes
      ((s.branches.map fun b => quoteLiteral b.column.name ++ ": " ++ quoteLiteral (typeOf b)).map
        String.toList)
      ((entries s).map spelledEntry) := by
    rw [entries, List.map_map, List.map_map, List.forall₂_map_left_iff,
      List.forall₂_map_right_iff]
    exact List.forall₂_same.mpr fun b _ => lexes_entry (b.column.name, typeOf b)
  have h := hopen.append ((lexes_intercalate hall).reads_append hclose rfl)
  rw [columnsLiteral, String.toList_append, String.toList_append, String.toList_intercalate]
  exact h

/-- The columns in the tokens behind an opening bracket. -/
def readEntry : List Token → Option (List (String × String))
  | [.text n, .sign ':', .text t, .sign '\x7d'] => some [(n, t)]
  | .text n :: .sign ':' :: .text t :: .sign ',' :: rest => (readEntry rest).map ((n, t) :: ·)
  | _ => none

/-- The columns in the tokens of a literal. -/
def readEntries : List Token → Option (List (String × String))
  | [.sign '\x7b', .sign '\x7d'] => some []
  | .sign '\x7b' :: rest => readEntry rest
  | _ => none

theorem readEntry_spelled (e : String × String) (es : List (String × String)) :
    readEntry ([.sign ','].intercalate ((e :: es).map spelledEntry) ++ [.sign '\x7d']) =
      some (e :: es) := by
  induction es generalizing e with
  | nil => rfl
  | cons e' es ih =>
    have h := ih e'
    rw [List.map_cons] at h
    rw [List.map_cons, List.map_cons, List.intercalate_cons_cons, List.append_assoc,
      List.append_assoc]
    exact congrArg (Option.map (e :: ·)) h

theorem readEntries_spelled (es : List (String × String)) :
    readEntries (spelledEntries es) = some es := by
  cases es with
  | nil => rfl
  | cons e es =>
    have h := readEntry_spelled e es
    cases es <;> exact h

/-! ## Statements -/

/-- The tokens of a statement that makes a table of a file. -/
def template (table path : String) (es : List (String × String)) : List Token :=
  [.word "CREATE", .word "OR", .word "REPLACE", .word "TABLE", .identifier table, .word "AS",
    .word "SELECT", .sign '*', .word "FROM", .word "read_json", .sign '(',
    .text path, .sign ',',
    .word "format", .sign '=', .text "newline_delimited", .sign ',',
    .word "columns", .sign '='] ++ spelledEntries es ++ [.sign ')', .sign ';']

theorem quoteLiteral_eq (s : String) : quoteLiteral s = "'" ++ escapedPath s ++ "'" := by
  refine String.toList_injective ?_
  rw [String.toList_append, String.toList_append, quoteLiteral, quoteWith, escapedPath,
    String.toList_ofList, String.toList_ofList, String.toList_ofList]
  rfl

/-- **The tokens of a statement.** -/
theorem reads_createTable (table path : String) (s : Snapshot) :
    Reads (createTable table (escapedPath path) s).toList (template table path (entries s)) := by
  have hcreate : Reads "\n        CREATE OR REPLACE TABLE ".toList
      [.word "CREATE", .word "OR", .word "REPLACE", .word "TABLE"] := by decide +kernel
  have has : Reads " AS\n".toList [.word "AS"] := by decide +kernel
  have hselect : Reads "        SELECT * FROM read_json(\n".toList
      [.word "SELECT", .sign '*', .word "FROM", .word "read_json", .sign '('] := by decide +kernel
  have hindent : Reads "            ".toList [] := by decide +kernel
  have hcomma : Reads ",\n".toList [.sign ','] := by decide +kernel
  have hformat : Reads "            format = 'newline_delimited',\n".toList
      [.word "format", .sign '=', .text "newline_delimited", .sign ','] := by decide +kernel
  have hcolumns : Reads "            columns = ".toList [.word "columns", .sign '='] := by
    decide +kernel
  have hline : Reads "\n".toList [] := by decide +kernel
  have hend : Reads "        );\n        ".toList [.sign ')', .sign ';'] := by decide +kernel
  have htable := (lexes_quoteIdentifier table).reads_append has (by decide +kernel)
  have hpath := (lexes_quoteLiteral path).reads_append hcomma (by decide +kernel)
  have hall := hcreate.append (htable.append (hselect.append (hindent.append (hpath.append
    (hformat.append (hcolumns.append ((reads_columnsLiteral s).append (hline.append hend))))))))
  -- The marks around the path belong to the lines before it and behind it.
  have hmarks (rest : String) : "            '" ++ (escapedPath path ++ ("',\n" ++ rest)) =
      "            " ++ (quoteLiteral path ++ (",\n" ++ rest)) := by
    rw [quoteLiteral_eq, show "            '" = "            " ++ "'" from rfl,
      show "',\n" = "'" ++ ",\n" from rfl]
    simp only [String.append_assoc]
  have htext : createTable table (escapedPath path) s =
      "\n        CREATE OR REPLACE TABLE " ++ ((quoteIdentifier table ++ " AS\n") ++
        ("        SELECT * FROM read_json(\n" ++ ("            " ++
          ((quoteLiteral path ++ ",\n") ++ ("            format = 'newline_delimited',\n" ++
            ("            columns = " ++ (columnsLiteral s ++
              ("\n" ++ "        );\n        ")))))))) := by
    unfold createTable
    simp only [String.append_assoc]
    rw [hmarks]
  rw [htext]
  simp only [String.toList_append]
  exact hall

/-! ## Statements read back -/

theorem column_branches (rows : Nat) (above : Path) (ss : List Shape) :
    (Shape.branches rows above ss).map Branch.column =
      ss.map fun t => Shape.columnAt rows (above ++ [t.name]) t := by
  induction ss with
  | nil => rfl
  | cons t rest ih =>
    have hroot : (Shape.branchIn rows above t).column =
        Shape.columnAt rows (above ++ [t.name]) t := by
      cases t <;> rfl
    rw [Shape.branches, List.map_cons, List.map_cons, ih, hroot]

/-- The roots of the branches of a schema are its columns at the top. -/
theorem column_branches_snapshot {s : RowSchema} (h : Shape.Distinct s.shapes) :
    s.snapshot.branches.map Branch.column = s.snapshot.children [] := by
  have hbranches : s.snapshot.branches = Shape.branches s.rows [] s.held :=
    Shape.branches_columns (RowSchema.distinct_held h)
  rw [hbranches, column_branches, RowSchema.children_snapshot h]
  rfl

theorem describes_of_mem {s : Snapshot} {bs : List Branch} {b : Branch}
    (h : DescribesAll s (bs.map Branch.column) (ofBranches bs)) (hb : b ∈ bs) :
    Describes s b.column (ofBranch b) := by
  induction bs with
  | nil => cases hb
  | cons b' bs ih =>
    rcases List.mem_cons.mp hb with rfl | hb
    · exact h.2.1
    · exact ih h.2.2 hb

/-- The literal of a snapshot read back. -/
theorem readEntries_columnsLiteral (s : Snapshot) :
    (tokens (columnsLiteral s)).bind readEntries = some (entries s) := by
  rw [(reads_columnsLiteral s).tokens, Option.bind_some, readEntries_spelled]

/-- The columns with their types that a literal spells. -/
def columnTypes? (literal : String) : Option (List (String × ColumnType)) :=
  ((tokens literal).bind readEntries).bind fun es =>
    es.mapM fun e => (parse? e.2).map fun t => (e.1, t)

/-- **A literal read back**, down to the types. -/
theorem columnTypes?_columnsLiteral (s : Snapshot) :
    columnTypes? (columnsLiteral s) = some (ofBranches s.branches) := by
  rw [columnTypes?, readEntries_columnsLiteral, Option.bind_some, entries]
  induction s.branches with
  | nil => rfl
  | cons b rest ih =>
    rw [List.map_cons, List.mapM_cons, ih, parse?_typeOf]
    rfl

/-- The names and kinds of the columns of a schema can be told from its types. -/
theorem listed_types (p : Projection) (rows : List Row) :
    listed [] (ofBranches (RowSchema.snapshotAfter p rows).branches) =
      (RowSchema.snapshotAfter p rows).columns.map fun c => (c.path, c.kind) := by
  have hbranches : (RowSchema.snapshotAfter p rows).branches =
      Shape.branches _ [] ((RowSchema.start p).foldAll rows).1.held :=
    Shape.branches_columns (RowSchema.distinct_held (RowSchema.distinct_after p rows))
  rw [hbranches]
  exact ColumnType.listed_ofBranches _ [] _

/-- **A statement read back.** Its tokens are those of the template, with the name of the table, the
path of the file, and the columns at the top with the texts of their types. The literal of the
columns is read back to these, each text of a type is read back to the type of its column, and the
literals of schemas with other columns are others. -/
theorem createTable_readBack (table path : String) (p : Projection) (rows : List Row) :
    let s := RowSchema.snapshotAfter p rows
    ∃ types : List (Column × String),
      types.map Prod.fst = s.children [] ∧
      tokens (createTable table (escapedPath path) s) =
        some (template table path (types.map fun e => (e.1.name, e.2))) ∧
      (tokens (columnsLiteral s)).bind readEntries = some (types.map fun e => (e.1.name, e.2)) ∧
      (∀ e ∈ types, ∃ t, parse? e.2 = some t ∧ Describes s e.1 t) ∧
      ∀ (p' : Projection) (rows' : List Row),
        columnsLiteral (RowSchema.snapshotAfter p' rows') = columnsLiteral s →
        (RowSchema.snapshotAfter p' rows').columns.map (fun c => (c.path, c.kind)) =
          s.columns.map fun c => (c.path, c.kind) := by
  intro s
  have hdistinct := RowSchema.distinct_after p rows
  have hentries : (s.branches.map fun b => (b.column, typeOf b)).map (fun e => (e.1.name, e.2)) =
      entries s := List.map_map ..
  refine ⟨s.branches.map fun b => (b.column, typeOf b), ?_, ?_, ?_, ?_, ?_⟩
  · rw [List.map_map]
    exact column_branches_snapshot hdistinct
  · rw [hentries]
    exact (reads_createTable table path s).tokens
  · rw [hentries]
    exact readEntries_columnsLiteral s
  · intro e he
    obtain ⟨b, hb, rfl⟩ := List.mem_map.mp he
    have hall := ColumnType.describes_snapshot hdistinct
    rw [← column_branches_snapshot hdistinct] at hall
    exact ⟨ofBranch b, parse?_typeOf b, describes_of_mem hall hb⟩
  · intro p' rows' h
    have htypes := columnTypes?_columnsLiteral (RowSchema.snapshotAfter p' rows')
    rw [h, columnTypes?_columnsLiteral, Option.some.injEq] at htypes
    rw [← listed_types p' rows', ← htypes]
    exact listed_types p rows

end Tabular.Sql
