import Tabular.Proofs.Value.Firsts
import Tabular.Value.Json
import Tabular.Value.JsonReader

/-!
# JSON texts read back

A record is a value of texts, nulls and maps in which no key comes twice. Its JSON text, with or
without letters beyond ASCII, holds that record and nothing else.

* `readString_letter`, **`readString_string`**: a quoted text, character by character;
* `Value.IsRecord`: the values of records;
* `readMembers_member`, `readMembers_entries`: the members of a map;
* **`restores`**, **`read?_line`**: a record out of its text.
-/

namespace Tabular

namespace Json

/-! ## Escapes -/

theorem hexValue?_hexDigit {n : Nat} (h : n < 16) : hexValue? (Text.hexDigit n) = some n := by
  have hall : ∀ m < 16, hexValue? (Text.hexDigit m) = some m := by decide
  exact hall n h

theorem unitEscape_eq (n : Nat) : unitEscape n = ['\\', 'u', Text.hexDigit (n / 16 / 16 / 16 % 16),
    Text.hexDigit (n / 16 / 16 % 16), Text.hexDigit (n / 16 % 16), Text.hexDigit (n % 16)] := rfl

theorem hexUnit?_hexDigits {n : Nat} (h : n < 0x10000) :
    hexUnit? (Text.hexDigit (n / 16 / 16 / 16 % 16)) (Text.hexDigit (n / 16 / 16 % 16))
      (Text.hexDigit (n / 16 % 16)) (Text.hexDigit (n % 16)) = some n := by
  have hmod (m : Nat) := hexValue?_hexDigit (Nat.mod_lt m (by decide : 0 < 16))
  simp only [hexUnit?, hmod, Option.bind_eq_bind, Option.bind_some, Option.pure_def,
    Option.some.injEq]
  omega

/-- An escape that stands for a character on its own. -/
theorem readString_unitEscape {c : Char} (h : c.toNat < 0x10000) (rest : List Char) :
    readString none (unitEscape c.toNat ++ rest) =
      (readString none rest).map fun r => (c :: r.1, r.2) := by
  have hc : c.toNat < 0xD800 ∨ 0xDFFF < c.toNat := by
    rcases c.valid with hv | hv
    · exact Or.inl hv
    · exact Or.inr hv.1
  rw [unitEscape_eq]
  simp only [List.cons_append, List.nil_append, readString, hexUnit?_hexDigits h]
  have h1 : ¬ (0xDC00 ≤ c.toNat ∧ c.toNat < 0xE000) := by omega
  have h2 : ¬ (0xD800 ≤ c.toNat ∧ c.toNat < 0xDC00) := by omega
  simp only [Option.bind_eq_bind, Option.bind_some, Bool.and_eq_true, decide_eq_true_eq, h1, h2,
    if_false, Char.ofNat_toNat]
  cases readString none rest <;> rfl

/-- The first of two units is held back. -/
theorem readString_high {n : Nat} (h : 0xD800 ≤ n) (h' : n < 0xDC00) (rest : List Char) :
    readString none (unitEscape n ++ rest) = readString (some n) rest := by
  have hlow : (decide (0xDC00 ≤ n) && decide (n < 0xE000)) = false := by
    rw [decide_eq_false (Nat.not_le_of_lt h'), Bool.false_and]
  have hhigh : (decide (0xD800 ≤ n) && decide (n < 0xDC00)) = true := by
    rw [decide_eq_true h, decide_eq_true h', Bool.and_self]
  rw [unitEscape_eq]
  simp only [List.cons_append, List.nil_append, readString, hexUnit?_hexDigits (by omega : n < 0x10000),
    Option.bind_eq_bind, Option.bind_some, hlow, hhigh]
  cases readString (some n) rest <;> rfl

/-- The second of two units gives the character of both. -/
theorem readString_low {n high : Nat} (h : 0xDC00 ≤ n) (h' : n < 0xE000) (rest : List Char) :
    readString (some high) (unitEscape n ++ rest) = (readString none rest).map fun r =>
      (Char.ofNat (0x10000 + (high - 0xD800) * 0x400 + (n - 0xDC00)) :: r.1, r.2) := by
  have hlow : (decide (0xDC00 ≤ n) && decide (n < 0xE000)) = true := by
    rw [decide_eq_true h, decide_eq_true h', Bool.and_self]
  rw [unitEscape_eq]
  simp only [List.cons_append, List.nil_append, readString, hexUnit?_hexDigits (by omega : n < 0x10000),
    Option.bind_eq_bind, Option.bind_some, hlow]
  cases readString none rest <;> rfl

/-- A pair of escapes that stand for a character together. -/
theorem readString_escape {c : Char} (h : 0x10000 ≤ c.toNat) (rest : List Char) :
    readString none (unitEscape (0xD800 + (c.toNat - 0x10000) / 0x400) ++
        (unitEscape (0xDC00 + (c.toNat - 0x10000) % 0x400) ++ rest)) =
      (readString none rest).map fun r => (c :: r.1, r.2) := by
  have hmax : c.toNat < 0x110000 := by
    rcases c.valid with hv | hv
    · exact Nat.lt_trans hv (by decide)
    · exact hv.2
  have hback : 0x10000 + (0xD800 + (c.toNat - 0x10000) / 0x400 - 0xD800) * 0x400 +
      (0xDC00 + (c.toNat - 0x10000) % 0x400 - 0xDC00) = c.toNat := by omega
  rw [readString_high (by omega) (by omega), readString_low (by omega) (by omega), hback,
    Char.ofNat_toNat]

/-- A character that is written as itself. -/
theorem readString_plain {c : Char} (hq : c ≠ '"') (hb : c ≠ '\\') (hc : 0x20 ≤ c.toNat)
    (rest : List Char) :
    readString none (c :: rest) = (readString none rest).map fun r => (c :: r.1, r.2) := by
  have hlow : ¬ c.toNat < 0x20 := Nat.not_lt_of_le hc
  rw [readString.eq_4 none c rest hq (fun _ _ _ _ _ h => absurd h hb) (fun _ _ h => absurd h hb)]
  simp only [hlow, hb, decide_false, Bool.or_self, Bool.false_eq_true, if_false]
  cases readString none rest <;> rfl

/-- A character that is written by a letter. -/
theorem readString_escaped {e c : Char} (he : e ≠ 'u') (hc : escaped? e = some c)
    (rest : List Char) :
    readString none ('\\' :: e :: rest) = (readString none rest).map fun r => (c :: r.1, r.2) := by
  rw [readString.eq_3 none e rest fun _ _ _ _ _ h => absurd h he, hc]
  cases readString none rest <;> rfl

/-- **A character of a quoted text** is read back, however it is written. -/
theorem readString_letter (letters : Letters) (c : Char) (rest : List Char) :
    readString none (letter letters c ++ rest) =
      (readString none rest).map fun r => (c :: r.1, r.2) := by
  unfold letter
  split
  · next h =>
    subst h
    exact readString_escaped (by decide) rfl rest
  split
  · next h =>
    subst h
    exact readString_escaped (by decide) rfl rest
  split
  · next h =>
    subst h
    exact readString_escaped (by decide) rfl rest
  split
  · next h =>
    subst h
    exact readString_escaped (by decide) rfl rest
  split
  · next h =>
    subst h
    exact readString_escaped (by decide) rfl rest
  split
  · next h =>
    subst h
    exact readString_escaped (by decide) rfl rest
  split
  · next h =>
    subst h
    exact readString_escaped (by decide) rfl rest
  split
  · next h => exact readString_unitEscape (Nat.lt_trans h (by decide)) rest
  split
  · -- beyond ASCII, by one unit or by two
    unfold escape
    simp only
    split
    · next h => exact readString_unitEscape h rest
    · next h =>
      rw [List.append_assoc]
      exact readString_escape (Nat.le_of_not_lt h) rest
  · next hq hb _ _ _ _ _ hlow _ => exact readString_plain hq hb (Nat.le_of_not_lt hlow) rest

/-- **A quoted text is read back.** -/
theorem readString_string (letters : Letters) (s : String) (rest : List Char) :
    readString none (s.toList.flatMap (letter letters) ++ '"' :: rest) = some (s.toList, rest) := by
  induction s.toList with
  | nil => rfl
  | cons c cs ih => rw [List.flatMap_cons, List.append_assoc, readString_letter, ih, Option.map_some]

/-! ## Values -/

end Json

/-- A text, a map of such values under distinct keys, or null. -/
inductive Value.IsRecord : Value → Prop where
  | null : IsRecord .null
  | text (s : String) : IsRecord (.text s)
  | map (es : List (String × Value)) : (Entries.keys es).Nodup → (∀ e ∈ es, IsRecord e.2) →
      IsRecord (.map es)

namespace Json

/-- Enough steps read a value from its text, whatever follows it. -/
def Restores (letters : Letters) (v : Value) : Prop :=
  ∀ steps rest, (lineChars letters v).length ≤ steps →
    readValue steps (lineChars letters v ++ rest) = some (v, rest)

theorem skipSpace_cons {c : Char} (h : isSpace c = false) (cs : List Char) :
    skipSpace (c :: cs) = c :: cs := by
  rw [skipSpace, List.dropWhile_cons, h]
  rfl

/-- A blank before a value is passed over. -/
theorem readValue_blank (steps : Nat) (cs : List Char) :
    readValue steps (' ' :: cs) = readValue steps cs := by
  cases steps <;> rfl

/-- A blank before a member is passed over. -/
theorem readMembers_blank (steps : Nat) (cs : List Char) :
    readMembers steps (' ' :: cs) = readMembers steps cs := by
  cases steps <;> rfl

/-- A member of a map is read, and what follows it decides whether there are more. -/
theorem readMembers_member {letters : Letters} {v : Value} (h : Restores letters v) (key : String)
    {steps : Nat} (hs : (lineChars letters v).length ≤ steps) (tail : List Char) :
    readMembers (steps + 1) (string letters key ++ ':' :: ' ' :: (lineChars letters v ++ tail)) =
      match skipSpace tail with
      | ',' :: rest => (readMembers steps rest).map fun r => ((key, v) :: r.1, r.2)
      | '\x7d' :: after => some ([(key, v)], after)
      | _ => none := by
  have hkey : skipSpace (string letters key ++ ':' :: ' ' :: (lineChars letters v ++ tail)) =
      '"' :: (key.toList.flatMap (letter letters) ++
        '"' :: ':' :: ' ' :: (lineChars letters v ++ tail)) := by
    simp [string, skipSpace_cons, isSpace]
  rw [readMembers, hkey]
  simp only [readString_string, skipSpace_cons (by rfl : isSpace ':' = false), readValue_blank,
    h steps tail hs, Option.bind_eq_bind, Option.bind_some, String.ofList_toList]
  rcases skipSpace tail with _ | ⟨c, rest⟩
  · rfl
  by_cases hcomma : c = ','
  · subst hcomma
    show (readMembers steps rest).bind _ = (readMembers steps rest).map _
    cases readMembers steps rest <;> rfl
  by_cases hbrace : c = '\x7d'
  · subst hbrace
    rfl
  · simp [hcomma, hbrace]

theorem separated_cons_cons (separator part next : List Char) (rest : List (List Char)) :
    separated separator (part :: next :: rest) =
      part ++ separator ++ separated separator (next :: rest) := rfl

/-- The members of a map are read up to its closing brace. -/
theorem readMembers_entries {letters : Letters} {es : List (String × Value)} (hne : es ≠ [])
    (h : ∀ e ∈ es, Restores letters e.2) (steps : Nat) (rest : List Char)
    (hs : (separated [',', ' '] (lineEntries letters es)).length ≤ steps) :
    readMembers steps (separated [',', ' '] (lineEntries letters es) ++ '\x7d' :: rest) =
      some (es, rest) := by
  induction es generalizing steps with
  | nil => exact absurd rfl hne
  | cons e later ih =>
    obtain ⟨key, v⟩ := e
    have hv := h (key, v) List.mem_cons_self
    cases later with
    | nil =>
      simp only [lineEntries, separated, List.length_append, List.length_cons, string] at hs
      obtain ⟨steps, rfl⟩ : ∃ n, steps = n + 1 := ⟨steps - 1, by omega⟩
      have hmember := readMembers_member hv key (by omega : (lineChars letters v).length ≤ steps)
        ('\x7d' :: rest)
      simpa [lineEntries, separated, skipSpace_cons (by rfl : isSpace '\x7d' = false)] using hmember
    | cons e' later =>
      rw [lineEntries, lineEntries, separated_cons_cons,
        show (_ :: lineEntries letters later) = lineEntries letters (e' :: later) from rfl] at hs ⊢
      simp only [List.length_append, List.length_cons, string] at hs
      obtain ⟨steps, rfl⟩ : ∃ n, steps = n + 1 := ⟨steps - 1, by omega⟩
      have hlater := ih (List.cons_ne_nil e' later) (fun e he => h e (List.mem_cons_of_mem _ he))
        steps (by omega)
      have hmember := readMembers_member hv key (by omega : (lineChars letters v).length ≤ steps)
        (',' :: ' ' :: (separated [',', ' '] (lineEntries letters (e' :: later)) ++ '\x7d' :: rest))
      simp only [skipSpace_cons (by rfl : isSpace ',' = false), readMembers_blank, hlater,
        Option.map_some] at hmember
      simpa using hmember

/-- The members of a map begin with a key. -/
theorem exists_separated_entries (letters : Letters) {es : List (String × Value)} (hne : es ≠ []) :
    ∃ cs, separated [',', ' '] (lineEntries letters es) = '"' :: cs := by
  obtain ⟨⟨key, v⟩, later, rfl⟩ := List.exists_cons_of_ne_nil hne
  cases later with
  | nil => exact ⟨_, rfl⟩
  | cons e later => exact ⟨_, rfl⟩

/-- **A record is read back from its text**, whatever follows it. -/
theorem restores {v : Value} (h : v.IsRecord) (letters : Letters) : Restores letters v := by
  induction h with
  | null =>
    intro steps rest hs
    cases steps with
    | zero => simp [lineChars] at hs
    | succ steps => rfl
  | text s =>
    intro steps rest hs
    cases steps with
    | zero => simp [lineChars, string] at hs
    | succ steps =>
      have hread := readString_string letters s rest
      simp [lineChars, string, readValue, skipSpace_cons (by rfl : isSpace '"' = false), hread]
  | map es hn h ih =>
    intro steps rest hs
    cases steps with
    | zero => simp [lineChars] at hs
    | succ steps =>
      by_cases hne : es = []
      · subst hne
        rfl
      · have hmembers := readMembers_entries hne ih steps rest
          (by simp only [lineChars, List.length_append, List.length_cons] at hs; omega)
        have hpairs : Entries.ofPairs es = es :=
          (Entries.putAll_of_disjoint hn fun _ _ => List.not_mem_nil).trans (List.nil_append es)
        obtain ⟨cs, hcs⟩ := exists_separated_entries letters hne
        rw [lineChars, List.cons_append, List.cons_append, List.append_assoc, List.singleton_append,
          readValue, skipSpace_cons (by rfl)]
        rw [hcs] at hmembers ⊢
        rw [List.cons_append] at hmembers ⊢
        simp only [skipSpace_cons (by rfl : isSpace '"' = false), hmembers, Option.map_some, hpairs]
        rfl

/-- **The text of a record holds that record**, and nothing else. -/
theorem read?_line {v : Value} (h : v.IsRecord) (letters : Letters) :
    read? (line letters v) = some v := by
  have hread := restores h letters ((lineChars letters v).length + 1) [] (Nat.le_succ _)
  rw [List.append_nil] at hread
  rw [read?, line, String.toList_ofList]
  simp only [hread]
  rfl

end Json

end Tabular
