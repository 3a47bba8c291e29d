import Tabular.Value.Basic

/-!
# Checked fields

Reading named fields out of a map of loose values. What a loose value is taken for, and which key of
the map a field goes by, is for a checker to say; what cannot be read is a complaint about the key it
stands under, and all complaints are collected.

* `Fault`, `Complaint`: what is wrong with a field, and which;
* `Checker`: what loose values are taken for; `Checker.Lawful` is what is known of one;
* `readNat`, `readOptional`: readers made of those of a checker;
* `given?`, `field`: where a field stands in the map, and what is read there;
* `unknownKeys`: the complaints about keys that belong to no field.
-/

namespace Tabular.Options

/-- What is wrong with the value of a field: a short code, and the text that goes with it. -/
structure Fault where
  code : String
  note? : Option String := none
  deriving Repr, DecidableEq, Inhabited

namespace Fault

/-- A number below its bound. -/
def tooSmall : Fault :=
  { code := "greater_than_equal" }

/-- A key that belongs to no field. -/
def unknownKey : Fault :=
  { code := "extra_forbidden" }

/-- A rule between several fields is broken. -/
def rule (text : String) : Fault :=
  ⟨"value_error", some ("Value error, " ++ text)⟩

end Fault

/-- A fault and the key it was found under; none for a rule between fields. -/
structure Complaint where
  key : Option String
  fault : Fault
  deriving Repr, DecidableEq, Inhabited

/-! ## Checkers -/

/-- What loose values are taken for, and which keys of a map are taken for fields. -/
structure Checker where
  /-- A whole number. -/
  integer : Value → Except Fault Int
  /-- A truth value. -/
  truth : Value → Except Fault Bool
  /-- A text. -/
  text : Value → Except Fault String
  /-- One of several words, given with what they stand for. -/
  word : {α : Type} → List (String × α) → Value → Except Fault α
  /-- The key that a field is read under: of the keys it goes by, among those of the map. -/
  key? : List String → List String → Option String
  /-- The keys of the map that belong to no field, where each field goes by some keys. -/
  strays : List (List String) → List String → List String

/-- What is known of a checker: it takes a value of the wanted kind as it is, and it finds the
fields of a map that names none of them twice. -/
structure Checker.Lawful (c : Checker) : Prop where
  integer_int (n : Int) : c.integer (.int n) = .ok n
  truth_bool (b : Bool) : c.truth (.bool b) = .ok b
  /-- A text is taken as it is, and nothing else is taken for one. -/
  text_eq_ok_iff {v : Value} {s : String} : c.text v = .ok s ↔ v = .text s
  word_text {α : Type} {words : List (String × α)} {s : String} {a : α} :
    words.lookup s = some a → c.word words (.text s) = .ok a
  /-- A field is read under one of its keys that is in the map. -/
  mem_of_key? {names given : List String} {key : String} :
    c.key? names given = some key → key ∈ names ∧ key ∈ given
  /-- A field that is in the map is read. -/
  isSome_key? {names given : List String} {key : String} :
    key ∈ names → key ∈ given → (c.key? names given).isSome
  /-- Where the map has each field once at most, just what is no key of a field is left over. -/
  strays_eq {fields : List (List String)} {given : List String} :
    (∀ names ∈ fields, ∀ a ∈ names, ∀ b ∈ names, a ∈ given → b ∈ given → a = b) →
      c.strays fields given = given.filter fun key => !fields.any (·.contains key)

/-! ## Readers -/

/-- A whole number that is at least `least`. -/
def readNat (c : Checker) (least : Nat) (v : Value) : Except Fault Nat :=
  match c.integer v with
  | .ok n => if n < least then .error .tooSmall else .ok n.toNat
  | .error fault => .error fault

/-- A reader that takes null for the absence of a value. -/
def readOptional {α : Type} (read : Value → Except Fault α) : Value → Except Fault (Option α)
  | .null => .ok none
  | v => (read v).map some

/-! ## Fields of a map -/

/-- The entry of a field: the key it is read under, with what is given there. -/
def given? {α : Type} (c : Checker) (names : List String) (entries : Entries α) :
    Option (String × α) :=
  (c.key? names (Entries.keys entries)).bind fun key => (Entries.get? key entries).map (key, ·)

/-- A field of the map, or its default where it is not given. -/
def field {α β : Type} (c : Checker) (names : List String) (default : β) (read : α → Except Fault β)
    (entries : Entries α) : Except Complaint β :=
  match given? c names entries with
  | none => .ok default
  | some (key, a) => (read a).mapError fun fault => ⟨some key, fault⟩

/-- The complaints about a field: one or none. -/
def complaints {β : Type} : Except Complaint β → List Complaint
  | .ok _ => []
  | .error c => [c]

/-- The complaints about keys that belong to no field. -/
def unknownKeys {α : Type} (c : Checker) (fields : List (List String)) (entries : Entries α) :
    List Complaint :=
  (c.strays fields (Entries.keys entries)).map fun key => ⟨some key, .unknownKey⟩

end Tabular.Options
