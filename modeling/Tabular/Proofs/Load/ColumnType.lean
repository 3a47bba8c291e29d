import Tabular.Proofs.Load.Token

/-!
# Types of columns

The type of a column is a text of the database's language, `VARCHAR`, `JSON` or
`STRUCT("name" T, ...)`, and can be read back.

* `ColumnType`, `ofBranch`: types as trees, and the type that a branch asks for;
* `ColumnType.spelled`, **`lexes_typeOf`**: the tokens of a type;
* `readType`, `close`, **`readType_spelled`**: reading a type, with the structures that are open;
* `parse?`, **`parse?_typeOf`**: the text of a type read back.
-/

namespace Tabular.Sql

/-- A type of the database. A structure has a first field. -/
inductive ColumnType where
  | varchar
  | json
  | struct (name : String) (type : ColumnType) (rest : List (String × ColumnType))
  deriving Repr, Inhabited

namespace ColumnType

/-! ## Types of branches -/

mutual

/-- The type of the column at the root of a branch. -/
def ofBranch : Branch → ColumnType
  | .node c bs =>
    match c.kind, bs with
    | .scalar, _ => .varchar
    | .map, [] => .json
    | .map, b :: rest => .struct b.column.name (ofBranch b) (ofBranches rest)

/-- The columns at the roots of branches, each with its type. -/
def ofBranches : List Branch → List (String × ColumnType)
  | [] => []
  | b :: rest => (b.column.name, ofBranch b) :: ofBranches rest

end

/-! ## Spelling -/

mutual

/-- The tokens of a type. -/
def spelled : ColumnType → List Token
  | .varchar => [.word "VARCHAR"]
  | .json => [.word "JSON"]
  | .struct n t rest =>
    [.word "STRUCT", .sign '(', .identifier n] ++ spelled t ++ spelledRest rest ++ [.sign ')']

/-- The tokens of the fields behind a field. -/
def spelledRest : List (String × ColumnType) → List Token
  | [] => []
  | (n, t) :: rest => [.sign ',', .identifier n] ++ spelled t ++ spelledRest rest

end

end ColumnType

open ColumnType

/-- A field with the blank between its name and its type. -/
theorem lexes_field {ts : List Token} (name : String) {type : String}
    (h : Lexes type.toList ts) :
    Lexes (quoteIdentifier name ++ " " ++ type).toList (.identifier name :: ts) := by
  have hblank : Reads [' '] [] := rfl
  rw [String.append_assoc, String.toList_append, String.toList_append]
  exact (lexes_quoteIdentifier name).append (hblank.lexes_append h) rfl

theorem intercalate_field (n : String) (t : ColumnType) (rest : List (String × ColumnType)) :
    [Token.sign ','].intercalate
        (((n, t) :: rest).map fun e => .identifier e.1 :: spelled e.2) =
      .identifier n :: spelled t ++ spelledRest rest := by
  induction rest generalizing n t with
  | nil => simp [spelledRest]
  | cons e rest ih =>
    obtain ⟨m, u⟩ := e
    have h := ih m u
    rw [List.map_cons] at h
    rw [List.map_cons, List.map_cons, List.intercalate_cons_cons, h]
    simp [spelledRest]

mutual

/-- **The tokens of the text of a type.** -/
theorem lexes_typeOf : ∀ b : Branch, Lexes (typeOf b).toList (spelled (ofBranch b))
  | .node ⟨_, .scalar, _⟩ _ => lexes_word "VARCHAR" (by decide) (by decide)
  | .node ⟨_, .map, _⟩ [] => lexes_word "JSON" (by decide) (by decide)
  | .node ⟨_, .map, _⟩ (b :: rest) => by
    have hopen : Reads "STRUCT(".toList [.word "STRUCT", .sign '('] := rfl
    have hclose : Reads [')'] [.sign ')'] := rfl
    have hfields := lexes_intercalate (lexes_fieldTypes (b :: rest))
    rw [ofBranches, intercalate_field] at hfields
    have hall := ((hopen.lexes_append hfields).reads_append hclose rfl).lexes
    show Lexes ("STRUCT(" ++ ", ".intercalate (fieldTypes (b :: rest)) ++ ")").toList _
    rw [String.toList_append, String.toList_append, String.toList_intercalate]
    exact hall

theorem lexes_fieldTypes : ∀ bs : List Branch, List.Forall₂ Lexes
    ((fieldTypes bs).map String.toList)
    ((ofBranches bs).map fun e => .identifier e.1 :: spelled e.2)
  | [] => .nil
  | b :: rest => .cons (lexes_field b.column.name (lexes_typeOf b)) (lexes_fieldTypes rest)

end

/-! ## Reading -/

/-- A structure that is open, up to the name of its last field. -/
inductive Frame where
  | first (name : String)
  | later (first : String × ColumnType) (rest : List (String × ColumnType)) (name : String)
  deriving Repr, Inhabited

namespace Frame

/-- The type of the last field, and the name of the next one. -/
def add (t : ColumnType) (next : String) : Frame → Frame
  | .first n => .later (n, t) [] next
  | .later e rest n => .later e (rest ++ [(n, t)]) next

/-- The structure, with the type of the field that is open and those behind it. -/
def finish (t : ColumnType) (behind : List (String × ColumnType)) : Frame → ColumnType
  | .first n => .struct n t behind
  | .later e rest n => .struct e.1 e.2 (rest ++ (n, t) :: behind)

theorem finish_add (t u : ColumnType) (next : String) (behind : List (String × ColumnType))
    (f : Frame) : (f.add t next).finish u behind = f.finish t ((next, u) :: behind) := by
  cases f with
  | first n => rfl
  | later e rest n => simp [add, finish]

end Frame

mutual

/-- The type at the beginning of tokens, and what becomes of it inside open structures. -/
def readType (stack : List Frame) : List Token → Option ColumnType
  | .word "VARCHAR" :: rest => close stack .varchar rest
  | .word "JSON" :: rest => close stack .json rest
  | .word "STRUCT" :: .sign '(' :: .identifier n :: rest => readType (.first n :: stack) rest
  | _ => none

/-- What follows a type that has been read inside open structures. -/
def close (stack : List Frame) (t : ColumnType) : List Token → Option ColumnType
  | [] => if stack.isEmpty then some t else none
  | .sign ',' :: .identifier n :: rest =>
    match stack with
    | [] => none
    | f :: stack => readType (f.add t n :: stack) rest
  | .sign ')' :: rest =>
    match stack with
    | [] => none
    | f :: stack => close stack (f.finish t []) rest
  | _ => none

end

mutual

/-- **A spelled type is read.** -/
theorem readType_spelled : ∀ (t : ColumnType) (stack : List Frame) (rest : List Token),
    readType stack (spelled t ++ rest) = close stack t rest
  | .varchar, _, _ => rfl
  | .json, _, _ => rfl
  | .struct n t more, stack, rest => by
    have hfirst := readType_spelled t (.first n :: stack) (spelledRest more ++ .sign ')' :: rest)
    have hmore := close_spelledRest more (.first n) t stack rest
    rw [spelled, List.append_assoc, List.append_assoc, List.append_assoc]
    exact hfirst.trans hmore

theorem close_spelledRest : ∀ (es : List (String × ColumnType)) (f : Frame) (t : ColumnType)
    (stack : List Frame) (rest : List Token),
    close (f :: stack) t (spelledRest es ++ .sign ')' :: rest) = close stack (f.finish t es) rest
  | [], _, _, _, _ => rfl
  | (n, u) :: es, f, t, stack, rest => by
    have hnext := readType_spelled u (f.add t n :: stack) (spelledRest es ++ .sign ')' :: rest)
    have hmore := close_spelledRest es (f.add t n) u stack rest
    rw [Frame.finish_add] at hmore
    rw [spelledRest, List.append_assoc, List.append_assoc]
    exact hnext.trans hmore

end

/-- The type that a text spells. -/
def parse? (s : String) : Option ColumnType :=
  (tokens s).bind (readType [])

/-- **The text of a type read back.** -/
theorem parse?_typeOf (b : Branch) : parse? (typeOf b) = some (ofBranch b) := by
  have h := readType_spelled (ofBranch b) [] []
  rw [List.append_nil] at h
  rw [parse?, (lexes_typeOf b).tokens, Option.bind_some, h]
  rfl

end Tabular.Sql
