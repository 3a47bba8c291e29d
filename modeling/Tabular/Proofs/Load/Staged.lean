import Tabular.Load.Staging
import Tabular.Proofs.Schema.Fit
import Tabular.Proofs.Value.JsonReading

/-!
# Staged rows, line by line

The rows of batches are texts, maps and nulls, which all have a JSON text without a line end. So
staging never fails, and the staged file has one line for each row.

* **`isRecord_pad`**, `isCell_pad`: padding a record;
* `writable_of_isCell`, **`not_mem_lineChars`**: the JSON text of a row;
* `stagedText`, **`stage_of_isCell`**: the staged file of some batches;
* **`splitOn_stagedText`**: its lines.
-/

namespace Tabular

open Value (IsCell IsRecord)

/-! ## Padded records -/

theorem Value.IsCell.entries {v : Value} (h : v.IsCell) : ∀ e ∈ v.entries, IsCell e.2 := by
  cases h with
  | null => nofun
  | text s => nofun
  | map es h => exact h

theorem Value.IsRecord.isCell {v : Value} (h : v.IsRecord) : v.IsCell := by
  induction h with
  | null => exact .null
  | text s => exact .text s
  | map es _ _ ih => exact .map es ih

/-- What is written entry by entry is a record if the entries are. -/
theorem Value.IsRecord.ofPairs {pairs : Entries Value} (h : ∀ e ∈ pairs, IsRecord e.2) :
    IsRecord (.map (Entries.ofPairs pairs)) :=
  .map _ (Entries.nodup_keys_ofPairs pairs)
    (Entries.forall_putAll (fun _ he => absurd he List.not_mem_nil) h)

mutual

theorem Branch.isRecord_pad {source : Entries Value} (h : ∀ e ∈ source, IsCell e.2) :
    ∀ b : Branch, (Branch.pad source b).IsRecord
  | .node ⟨path, .scalar, nullable⟩ bs => by
    have hv := IsCell.get? h (Column.name ⟨path, .scalar, nullable⟩)
    rw [Branch.pad]
    simp only
    split
    · exact .null
    · next hmap =>
      -- a column of texts takes no map, so the keys of the record itself do not matter
      generalize (Entries.get? (Column.name ⟨path, .scalar, nullable⟩) source).getD .null = v
        at hv hmap
      cases hv with
      | null => exact .null
      | text s => exact .text s
      | map es _ => exact absurd rfl hmap
  | .node ⟨path, .map, nullable⟩ bs => by
    have hv := IsCell.get? h (Column.name ⟨path, .map, nullable⟩)
    rw [Branch.pad]
    simp only
    split
    · exact .ofPairs (Branch.isRecord_padAll hv.entries bs)
    · exact .null

theorem Branch.isRecord_padAll {source : Entries Value} (h : ∀ e ∈ source, IsCell e.2) :
    ∀ bs : List Branch, ∀ e ∈ Branch.padAll source bs, IsRecord e.2
  | [], e, he => by cases he
  | b :: rest, e, he => by
    rcases List.mem_cons.mp he with rfl | he
    · exact Branch.isRecord_pad h b
    · exact Branch.isRecord_padAll h rest e he

end

/-- **A padded record** has texts, nulls and maps, and no key of a map twice. -/
theorem isRecord_pad {record : Entries Value} (h : (Value.map record).IsCell) (s : Snapshot) :
    (Value.map (s.pad record)).IsRecord :=
  .ofPairs (Branch.isRecord_padAll h.entries s.branches)

theorem isCell_pad {record : Entries Value} (h : (Value.map record).IsCell) (s : Snapshot) :
    (Value.map (s.pad record)).IsCell :=
  (isRecord_pad h s).isCell

/-! ## Their JSON text -/

namespace Json

theorem writable_of_isCell {v : Value} (h : v.IsCell) : writable v = true := by
  induction h with
  | null => rfl
  | text s => rfl
  | map es h ih =>
    show writableEntries es = true
    induction es with
    | nil => rfl
    | cons e rest ihRest =>
      rw [writableEntries, ih e List.mem_cons_self, Bool.true_and]
      exact ihRest (fun e he => h e (List.mem_cons_of_mem _ he)) fun e he =>
        ih e (List.mem_cons_of_mem _ he)

theorem hexDigit_ne (n : Nat) : '\n' ≠ Text.hexDigit (n % 16) := by
  have hall : ∀ m < 16, '\n' ≠ Text.hexDigit m := by decide
  exact hall _ (Nat.mod_lt n (by decide))

theorem not_mem_hexDigits (width n : Nat) : '\n' ∉ Text.hexDigits width n := by
  induction width generalizing n with
  | zero => exact List.not_mem_nil
  | succ width ih => simp [Text.hexDigits, ih, hexDigit_ne]

theorem not_mem_unitEscape (n : Nat) : '\n' ∉ unitEscape n := by
  simp [unitEscape, not_mem_hexDigits]

theorem not_mem_escape (c : Char) : '\n' ∉ escape c := by
  unfold escape
  simp only
  split <;> simp [not_mem_unitEscape]

theorem not_mem_letter (letters : Letters) (c : Char) : '\n' ∉ letter letters c := by
  by_cases hc : c = '\n'
  · subst hc
    simp [letter]
  · unfold letter
    repeat' split
    all_goals simp [not_mem_unitEscape, not_mem_escape, Ne.symm hc]

theorem not_mem_string (letters : Letters) (s : String) : '\n' ∉ string letters s := by
  simp [string, not_mem_letter]

theorem not_mem_separated {separator : List Char} (h : '\n' ∉ separator) {parts : List (List Char)}
    (hp : ∀ part ∈ parts, '\n' ∉ part) : '\n' ∉ separated separator parts := by
  induction parts with
  | nil => exact List.not_mem_nil
  | cons part rest ih =>
    have hpart := hp part List.mem_cons_self
    have hrest := ih fun q hq => hp q (List.mem_cons_of_mem _ hq)
    cases rest with
    | nil => exact hpart
    | cons q rest => simp [separated, hpart, h, hrest]

/-- **The JSON text of a row is one line.** -/
theorem not_mem_lineChars (letters : Letters) {v : Value} (h : v.IsCell) :
    '\n' ∉ lineChars letters v := by
  induction h with
  | null => exact fun h => by simp [lineChars] at h
  | text s => exact not_mem_string letters s
  | map es h ih =>
    have hentries : ∀ part ∈ lineEntries letters es, '\n' ∉ part := by
      clear h
      induction es with
      | nil => exact List.forall_mem_nil _
      | cons e rest ihRest =>
        intro part hpart
        rcases List.mem_cons.mp hpart with rfl | hpart
        · simp [not_mem_string, ih e List.mem_cons_self]
        · exact ihRest (fun e he => ih e (List.mem_cons_of_mem _ he)) part hpart
    have hseparator : '\n' ∉ [',', ' '] := by decide
    have hall := not_mem_separated hseparator hentries
    simp [lineChars, hall]

end Json

/-! ## Staging -/

/-- The text of a file with some rows. -/
def stagedText (rows : List (Entries Value)) : String :=
  String.join (rows.map rowLine)

theorem stageRows_of_isCell (s : Staged) {rows : List (Entries Value)}
    (h : ∀ row ∈ rows, (Value.map row).IsCell) :
    stageRows s rows =
      ({ s with text := s.text ++ stagedText rows, written := s.written + rows.length }, true) := by
  induction rows generalizing s with
  | nil => simp [stageRows, stagedText]
  | cons row rest ih =>
    have hrow : Json.writableEntries row = true :=
      Json.writable_of_isCell (h row List.mem_cons_self)
    rw [stageRows, if_pos hrow, ih _ fun r hr => h r (List.mem_cons_of_mem _ hr)]
    simp [stagedText, String.append_assoc, Nat.add_assoc, Nat.add_comm 1]

theorem stageOnto_of_isCell (s : Staged) {batches : List Batch}
    (h : ∀ row ∈ batches.flatMap Batch.rows, (Value.map row).IsCell) :
    stageOnto s batches = (⟨s.text ++ stagedText (batches.flatMap Batch.rows),
      s.written + (batches.flatMap Batch.rows).length,
      (batches.getLast?.map Batch.schema).or s.schema⟩, true) := by
  induction batches generalizing s with
  | nil => simp [stageOnto, stagedText]
  | cons batch rest ih =>
    rw [List.flatMap_cons] at h
    have hnow := stageRows_of_isCell { s with schema := some batch.schema }
      fun row hrow => h row (List.mem_append_left _ hrow)
    have hlater := fun s' => ih s' fun row hrow => h row (List.mem_append_right _ hrow)
    rw [stageOnto, hnow]
    simp only [if_true, hlater]
    cases hlast : rest.getLast? with
    | none => simp [stagedText, String.append_assoc, List.getLast?_cons, hlast, Nat.add_assoc]
    | some last => simp [stagedText, String.append_assoc, List.getLast?_cons, hlast, Nat.add_assoc]

/-- **The staged file of some batches** has their rows, in order, and the last schema. -/
theorem stage_of_isCell {batches : List Batch}
    (h : ∀ row ∈ batches.flatMap Batch.rows, (Value.map row).IsCell) :
    stage batches = (⟨stagedText (batches.flatMap Batch.rows),
      (batches.flatMap Batch.rows).length, batches.getLast?.map Batch.schema⟩, true) := by
  rw [stage, stageOnto_of_isCell {} h]
  simp

/-- **The lines of a staged file** are the JSON texts of its rows. -/
theorem splitOn_stagedText {rows : List (Entries Value)}
    (h : ∀ row ∈ rows, (Value.map row).IsCell) :
    (stagedText rows).toList.splitOn '\n' =
      rows.map (fun row => Json.lineChars .all (.map row)) ++ [[]] := by
  induction rows with
  | nil => rfl
  | cons row rest ih =>
    have hline : ∀ c ∈ Json.lineChars .all (.map row), (c == '\n') = false := by
      intro c hc
      rw [beq_eq_false_iff_ne]
      rintro rfl
      exact Json.not_mem_lineChars .all (h row List.mem_cons_self) hc
    have htext : (stagedText (row :: rest)).toList =
        Json.lineChars .all (.map row) ++ '\n' :: (stagedText rest).toList := by
      simp [stagedText, rowLine, Json.line]
    rw [htext, List.splitOn, List.splitOnP_append_cons_of_forall_mem hline '\n' rfl,
      ← List.splitOn, ih fun r hr => h r (List.mem_cons_of_mem _ hr)]
    rfl

end Tabular
