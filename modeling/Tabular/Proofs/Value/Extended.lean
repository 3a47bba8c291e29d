import Mathlib.Data.List.Dedup
import Tabular.Proofs.Value.Firsts

/-!
# Entries behind others

Where entries come one list after another, and the first or the last of each key stays.

* `Entries.extend`, `extend_append`: the first entry of each new key;
* `putAll_append`, `get?_putAll_reverse`: the last value of each key;
* `length_eq_dedup`, **`length_firsts`**, **`length_ofPairs`**: how many entries are left;
* `repeats`, `repeats_eq_zero_iff`: the entries after the first of their key;
* `last?`, **`get?_ofPairs`**, `last?_of_nodup`, `last?_filter`: the last value at a key.
-/

namespace Tabular.Entries

variable {α : Type}

/-- The entries with the first of each new key behind them. -/
def extend (es later : Entries α) : Entries α :=
  es ++ firsts (keys es) later

variable {es now later : Entries α} {e : String × α} {key : String}

theorem extend_of_mem (h : e.1 ∈ keys es) :
    extend es [e] = es := by
  rw [extend, firsts_cons_of_mem h]
  exact List.append_nil es

theorem extend_of_not_mem (h : e.1 ∉ keys es) :
    extend es [e] = es ++ [e] := by
  rw [extend, firsts_cons_of_not_mem h]
  rfl

theorem extend_nil (es : Entries α) : extend es [] = es :=
  List.append_nil es

theorem extend_cons (es : Entries α) (e : String × α) (later : Entries α) :
    extend es (e :: later) = extend (extend es [e]) later := by
  by_cases h : e.1 ∈ keys es
  · rw [extend_of_mem h, extend, firsts_cons_of_mem h, extend]
  · rw [extend_of_not_mem h, extend, firsts_cons_of_not_mem h, extend, List.append_assoc,
      List.singleton_append]
    refine congrArg (fun l => es ++ e :: l) (firsts_congr (fun key => ?_) later)
    simp [keys, or_comm]

theorem extend_append (es now later : Entries α) :
    extend es (now ++ later) = extend (extend es now) later := by
  induction now generalizing es with
  | nil => rw [List.nil_append, extend_nil]
  | cons e rest ih => rw [List.cons_append, extend_cons, ih, ← extend_cons]

theorem putAll_append (es now later : Entries α) :
    putAll es (now ++ later) = putAll (putAll es now) later :=
  List.foldl_append

/-- Of the pairs with a key the last one stays. -/
theorem get?_putAll_reverse (key : String) (es later : Entries α) :
    get? key (putAll es later) = (get? key later.reverse).or (get? key es) := by
  induction later generalizing es with
  | nil => rfl
  | cons e rest ih =>
    rw [show putAll es (e :: rest) = putAll (put e.1 e.2 es) rest from rfl, ih, List.reverse_cons,
      get?_append, Option.or_assoc]
    congr 1
    by_cases h : e.1 = key
    · subst h
      rw [get?_put, get?, if_pos rfl]
      rfl
    · rw [get?_put_of_ne (Ne.symm h), get?, if_neg h]
      rfl

theorem mem_keys_firsts {seen : List String} :
    key ∈ keys (firsts seen es) ↔ key ∈ keys es ∧ key ∉ seen := by
  rw [← has_iff, has, get?_firsts, ← has_iff, has]
  split <;> simp_all

theorem mem_keys_putAll :
    key ∈ keys (putAll es later) ↔ key ∈ keys es ∨ key ∈ keys later := by
  induction later generalizing es with
  | nil => simp [putAll, keys]
  | cons e rest ih =>
    rw [show putAll es (e :: rest) = putAll (put e.1 e.2 es) rest from rfl, ih, keys_put,
      show keys (e :: rest) = e.1 :: keys rest from rfl, List.mem_cons]
    split
    · next he =>
      refine ⟨fun h => h.imp_right Or.inr, fun h => ?_⟩
      rcases h with h | rfl | h
      · exact Or.inl h
      · exact Or.inl he
      · exact Or.inr h
    · rw [List.mem_append, List.mem_singleton, or_assoc]

/-- Entries that have the keys of others, and each once, are as many as these have keys. -/
theorem length_eq_dedup (hn : (keys es).Nodup)
    (h : ∀ key, key ∈ keys es ↔ key ∈ keys later) : es.length = (keys later).dedup.length := by
  have hperm : (keys es).Perm (keys later).dedup :=
    (List.perm_ext_iff_of_nodup hn (List.nodup_dedup _)).mpr fun key => by
      rw [List.mem_dedup, h]
  rw [← hperm.length_eq, keys, List.length_map]

theorem length_firsts (es : Entries α) : (firsts [] es).length = (keys es).dedup.length :=
  length_eq_dedup (keys_firsts_nodup [] es) fun key => by
    rw [mem_keys_firsts]
    simp

theorem length_ofPairs (es : Entries α) : (ofPairs es).length = (keys es).dedup.length :=
  length_eq_dedup (nodup_keys_ofPairs es) fun key => by
    rw [ofPairs, mem_keys_putAll]
    simp [keys]

/-! ## The first and the last of each key -/

/-- How many entries come after the first of their key. -/
def repeats (es : Entries α) : Nat :=
  es.length - (firsts [] es).length

theorem repeats_eq_zero_iff : repeats es = 0 ↔ (keys es).Nodup := by
  have hlen : es.length = (keys es).length := (List.length_map _).symm
  rw [repeats, length_firsts, hlen]
  constructor
  · intro h
    have hsame : (keys es).dedup = keys es :=
      (List.dedup_sublist _).eq_of_length_le (by omega)
    exact hsame ▸ List.nodup_dedup _
  · intro h
    rw [h.dedup, Nat.sub_self]

/-- The last value at a key. -/
def last? (key : String) (es : Entries α) : Option α :=
  get? key es.reverse

theorem get?_ofPairs (key : String) (pairs : Entries α) :
    get? key (ofPairs pairs) = last? key pairs := by
  rw [ofPairs, get?_putAll_reverse, last?]
  exact Option.or_none

theorem last?_of_nodup (h : (keys es).Nodup) (key : String) :
    last? key es = get? key es := by
  rw [← get?_ofPairs, ofPairs, get?_putAll h]
  exact Option.or_none

theorem get?_filter {p : String → Bool} (hk : p key = true) (es : Entries α) :
    get? key (es.filter fun e => p e.1) = get? key es := by
  induction es with
  | nil => rfl
  | cons e rest ih =>
    rw [List.filter_cons, get?]
    split
    · rw [get?, ih]
    · next he =>
      rw [ih, if_neg]
      rintro rfl
      exact he hk

theorem last?_filter {p : String → Bool} (hk : p key = true) (es : Entries α) :
    last? key (es.filter fun e => p e.1) = last? key es := by
  rw [last?, ← List.filter_reverse, get?_filter hk, last?]

end Tabular.Entries
