import Tabular.Text.Basic

/-!
# Arguments

What the arguments of a command line are, each taken by itself. A text that starts with a dash is an
option if it is the name of one, the start of exactly one long name, or either of these with an
equals sign and a text behind it; a text with a blank in it and a negative number are values.

* `Key`, `Names`: the options, and the names they go by;
* `Argument`, `Argument.classify`: one argument;
* `Argument.classifyAll`: all of them; after two dashes every argument is a value.
-/

namespace Tabular.CommandLine

/-- An option. -/
inductive Key where
  | help
  | logLevel
  | dataLevel
  | flattenLevel
  | rowTag
  | columns
  | limit
  | batchSize
  | attributeScope
  | flattenCollision
  | pinSchema
  | database
  | table
  deriving Repr, DecidableEq, Inhabited

/-- The options of a command by their long names. -/
abbrev Names := List (String × Key)

/-- An argument. -/
inductive Argument where
  /-- A text that stands for itself. -/
  | value (text : String)
  /-- The two dashes after which every argument is a value. -/
  | mark
  /-- An option and the text that is joined to it. -/
  | option (key : Key) (joined : Option String)
  /-- The start of several long names. -/
  | ambiguous
  /-- A text in the form of an option that is none. -/
  | unknown
  deriving Repr, DecidableEq, Inhabited

namespace Argument

/-- The characters before the first equals sign, and those after it. -/
def atEquals (cs : List Char) : List Char × Option (List Char) :=
  match cs.dropWhile (· ≠ '=') with
  | _ :: after => (cs.takeWhile (· ≠ '='), some after)
  | [] => (cs, none)

/-- An option by its long name or the start of it. -/
def long (names : Names) (cs : List Char) : Option Argument :=
  let (name, joined) := atEquals cs
  let joined := joined.map String.ofList
  match names.lookup (String.ofList cs), names.lookup (String.ofList name) with
  | some key, _ => some (.option key none)
  | none, some key => some (.option key joined)
  | none, none =>
    match names.filter fun entry => name.isPrefixOf entry.1.toList with
    | [] => none
    | [entry] => some (.option entry.2 joined)
    | _ => some .ambiguous

/-- The short name of the help, which may be repeated; further letters may follow it, but no text
of its own. -/
def short (cs : List Char) : Option Argument :=
  let behind := cs.dropWhile (· = 'h')
  if behind.length = cs.length then none
  else if behind.head? = some '=' || behind.head? = some '-' then
    some (.option .help (some (String.ofList behind)))
  else some (.option .help none)

/-- The characters are one or more digits. -/
def areDigits (cs : List Char) : Bool :=
  !cs.isEmpty && cs.all fun c => (Text.digit? c).isSome

/-- The characters without a line end behind them. -/
def withoutLineEnd (cs : List Char) : List Char :=
  if cs.getLast? = some '\n' then cs.dropLast else cs

/-- The characters are a number without a sign: digits, or a point with digits behind it. -/
def isUnsigned (cs : List Char) : Bool :=
  areDigits cs ||
    match cs.dropWhile fun c => (Text.digit? c).isSome with
    | '.' :: fraction => areDigits fraction
    | _ => false

/-- An argument by itself. -/
def classify (names : Names) (s : String) : Argument :=
  match s.toList with
  | '-' :: c :: cs =>
    let option? := if c = '-' then long names s.toList else short (c :: cs)
    match option? with
    | some argument => argument
    | none =>
      if isUnsigned (withoutLineEnd (c :: cs)) || s.toList.contains ' ' then .value s else .unknown
  | _ => .value s

/-- The arguments of a command line, each with its text. -/
def classifyAll (names : Names) : List String → List (Argument × String)
  | [] => []
  | s :: rest =>
    if s = "--" then (.mark, s) :: rest.map fun r => (.value r, r)
    else (classify names s, s) :: classifyAll names rest

end Argument

end Tabular.CommandLine
