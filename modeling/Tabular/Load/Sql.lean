import Tabular.Schema.Snapshot

/-!
# Statements for the database

* `quoteIdentifier`, `quoteLiteral`: names and texts in a statement; a quote inside is doubled;
* `typeOf`: the type of a column: a text, a structure of the columns below it, or, where none are,
  any JSON value;
* `columnsLiteral`: the columns of a snapshot with their types;
* `createTable`, `countRows`: the two statements of a load.
-/

namespace Tabular.Sql

/-- The characters with every mark doubled. -/
def doubled (mark : Char) (cs : List Char) : List Char :=
  cs.flatMap fun c => if c = mark then [mark, mark] else [c]

/-- A text between marks. -/
def quoteWith (mark : Char) (s : String) : String :=
  String.ofList (mark :: doubled mark s.toList ++ [mark])

/-- A name in a statement. -/
def quoteIdentifier (name : String) : String :=
  quoteWith '"' name

/-- A text in a statement. -/
def quoteLiteral (s : String) : String :=
  quoteWith '\'' s

mutual

/-- The type of the column at the root of a branch. -/
def typeOf : Branch → String
  | .node c bs =>
    match c.kind, bs with
    | .scalar, _ => "VARCHAR"
    | .map, [] => "JSON"
    | .map, b :: rest => "STRUCT(" ++ ", ".intercalate (fieldTypes (b :: rest)) ++ ")"

/-- The columns below a structure, each with its type. -/
def fieldTypes : List Branch → List String
  | [] => []
  | b :: rest => (quoteIdentifier b.column.name ++ " " ++ typeOf b) :: fieldTypes rest

end

/-- The columns of a row with their types. -/
def columnsLiteral (s : Snapshot) : String :=
  let entries := s.branches.map fun b =>
    quoteLiteral b.column.name ++ ": " ++ quoteLiteral (typeOf b)
  "\x7b" ++ ", ".intercalate entries ++ "\x7d"

/-- The path of a file as it stands between the quotes of a statement. -/
def escapedPath (path : String) : String :=
  String.ofList (doubled '\'' path.toList)

/-- The statement that makes a table of a staged file; the path has its quotes doubled already. -/
def createTable (table escapedPath : String) (s : Snapshot) : String :=
  "\n        CREATE OR REPLACE TABLE " ++ quoteIdentifier table ++ " AS\n" ++
  "        SELECT * FROM read_json(\n" ++
  "            '" ++ escapedPath ++ "',\n" ++
  "            format = 'newline_delimited',\n" ++
  "            columns = " ++ columnsLiteral s ++ "\n" ++
  "        );\n        "

/-- The statement that counts the rows of a table. -/
def countRows (table : String) : String :=
  "SELECT COUNT(*) FROM " ++ quoteIdentifier table ++ ";"

end Tabular.Sql
