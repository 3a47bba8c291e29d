/-!
# Ordered entries

A finite map that remembers the order in which its keys came: a list of pairs. Writing to a key
that is there changes its value where it stands; a new key goes to the end.

* `Entries.get?`, `Entries.put`, `Entries.ofPairs`, `Entries.keys`;
* `get?_put`, `get?_put_of_ne`: what a write does to a look-up;
* `keys_put`: what it does to the order.
-/

namespace Tabular

/-- A finite map with its keys in the order of their first writing. -/
abbrev Entries (α : Type) := List (String × α)

namespace Entries

variable {α : Type}

/-- The value at a key. -/
def get? (key : String) : Entries α → Option α
  | [] => none
  | (k, v) :: rest => if k = key then some v else get? key rest

/-- The entries with `value` at `key`. -/
def put (key : String) (value : α) : Entries α → Entries α
  | [] => [(key, value)]
  | (k, v) :: rest => if k = key then (k, value) :: rest else (k, v) :: put key value rest

/-- The keys in order. -/
def keys (entries : Entries α) : List String :=
  entries.map Prod.fst

/-- The key has a value. -/
def has (key : String) (entries : Entries α) : Bool :=
  (get? key entries).isSome

/-- The entries `later` written one after another over `entries`. -/
def putAll (entries later : Entries α) : Entries α :=
  later.foldl (fun acc e => put e.1 e.2 acc) entries

/-- The map that a list of pairs writes. -/
def ofPairs (pairs : List (String × α)) : Entries α :=
  putAll [] pairs

theorem get?_put (key : String) (value : α) (entries : Entries α) :
    get? key (put key value entries) = some value := by
  induction entries with
  | nil => simp [put, get?]
  | cons e rest ih => by_cases h : e.1 = key <;> simp [put, get?, h, ih]

theorem get?_put_of_ne {key other : String} (h : other ≠ key) (value : α) (entries : Entries α) :
    get? other (put key value entries) = get? other entries := by
  induction entries with
  | nil => simp [put, get?, h.symm]
  | cons e rest ih =>
    by_cases hk : e.1 = key
    · simp [put, get?, hk, h.symm]
    · simp [put, get?, hk, ih]

theorem keys_put (key : String) (value : α) (entries : Entries α) :
    keys (put key value entries) =
      if key ∈ keys entries then keys entries else keys entries ++ [key] := by
  induction entries with
  | nil => simp [put, keys]
  | cons e rest ih =>
    by_cases hk : e.1 = key
    · simp [put, keys, hk]
    · simp only [keys] at ih
      by_cases hm : key ∈ List.map Prod.fst rest
      · simp [put, keys, hk, ih, hm]
      · simp [put, keys, hk, ih, hm, Ne.symm hk]

end Entries

end Tabular
