import Tabular.Proofs.Load.Staged

/-!
# Staged rows read back

A staged file has a line for every row, and the JSON text on that line holds the row: its keys in
their order, its texts and nulls, and its maps.

* `Staged.lines`: the lines of a staged file;
* **`stageAt_restores`**: the rows of any batches, out of the lines they were staged on.
-/

namespace Tabular

/-- The lines of a staged file, but for empty ones. -/
def Staged.lines (s : Staged) : List String :=
  ((s.text.toList.splitOn '\n').filter (fun cs => !cs.isEmpty)).map String.ofList

theorem lines_stagedText {rows : List (Entries Value)}
    (h : ∀ row ∈ rows, (Value.map row).IsCell) (written : Nat) (schema : Option Snapshot) :
    (⟨stagedText rows, written, schema⟩ : Staged).lines =
      rows.map fun row => Json.line .all (.map row) := by
  have hlines : (rows.map fun row => Json.lineChars .all (.map row)).filter
      (fun cs => !cs.isEmpty) = rows.map fun row => Json.lineChars .all (.map row) := by
    rw [List.filter_eq_self]
    intro cs hcs
    obtain ⟨row, -, rfl⟩ := List.mem_map.mp hcs
    rfl
  rw [Staged.lines, splitOn_stagedText h, List.filter_append, hlines, List.map_append, List.map_map]
  exact List.append_nil _

/-- **Staged rows are read back from their lines**: staging any batches of records succeeds, the
file has as many lines as rows were written, and each line holds its row. -/
theorem stageAt_restores (path : String) {batches : List Batch}
    (h : ∀ row ∈ batches.flatMap Batch.rows, (Value.map row).IsRecord) :
    let (staged, outcome) := stageAt path batches
    outcome = .ok () ∧
      staged.lines.length = staged.written ∧
      staged.lines.map Json.read? = (batches.flatMap Batch.rows).map (fun row => some (.map row)) ∧
      staged.schema = batches.getLast?.map Batch.schema := by
  have hcells : ∀ row ∈ batches.flatMap Batch.rows, (Value.map row).IsCell :=
    fun row hrow => (h row hrow).isCell
  have hlines := lines_stagedText hcells (batches.flatMap Batch.rows).length
    (batches.getLast?.map Batch.schema)
  rw [stageAt, stage_of_isCell hcells]
  refine ⟨rfl, ?_, ?_, rfl⟩
  · rw [hlines, List.length_map]
  · rw [hlines, List.map_map]
    exact List.map_congr_left fun row hrow => Json.read?_line (h row hrow) .all

/-- Three rows in two batches, with every kind of escape and both line separators. -/
theorem stageAt_restores_escapes :
    let rows : List (Entries Value) :=
      [[("q\"", .text "\\ \"q\" \n\r\t\x00\x08\x0c\x1f\x7f \u2028\u2029 é"),
        ("m", .map [("b", .null), ("a", .text ""), ("c", .map [])])], [], [("b", .null)]]
    let batches : List Batch :=
      [⟨⟨[]⟩, rows.take 2, 0⟩, ⟨⟨[⟨["b"], .scalar, true⟩]⟩, rows.drop 2, 1⟩]
    (∀ row ∈ batches.flatMap Batch.rows, (Value.map row).IsRecord) ∧
      let (staged, outcome) := stageAt "rows.jsonl" batches
      outcome = .ok () ∧
        staged.lines.length = staged.written ∧
        staged.lines.map Json.read? =
          (batches.flatMap Batch.rows).map (fun row => some (.map row)) ∧
        staged.schema = some ⟨[⟨["b"], .scalar, true⟩]⟩ := by
  intro rows batches
  have hrecords : ∀ row ∈ batches.flatMap Batch.rows, (Value.map row).IsRecord := by
    intro row hrow
    have hrow : row ∈ rows := hrow
    rcases List.mem_cons.mp hrow with rfl | hrow
    · refine .map _ (by decide) fun e he => ?_
      rcases List.mem_pair.mp he with rfl | rfl
      · exact .text _
      · refine .map _ (by decide) fun e he => ?_
        rcases List.mem_cons.mp he with rfl | he
        · exact .null
        · rcases List.mem_pair.mp he with rfl | rfl
          · exact .text _
          · exact .map _ (by decide) nofun
    · rcases List.mem_pair.mp hrow with rfl | rfl
      · exact .map _ (by decide) nofun
      · refine .map _ (by decide) fun e he => ?_
        cases List.mem_singleton.mp he
        exact .null
  exact ⟨hrecords, stageAt_restores "rows.jsonl" hrecords⟩

end Tabular
