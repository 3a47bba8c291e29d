import Tabular.Proofs.Schema.Monotone
import Tabular.Proofs.Strict.Memory

/-!
# Running schemas in memory

A running schema has a table in memory. Rows come into the table, and a snapshot works on a copy of
it, with room for the paths that were asked for. So whatever snapshots are taken in between, rows get
their records and conflicts, and snapshots their columns, from the rows that came before.

* `Strict.Recorder`, `fold`, `snapshot`, `answers`: running schemas, and calls of them;
* `Recorder.Tracks`: the table shows the running schema;
* `tracks_start`, **`tracks_fold`**, **`tracks_snapshot`**: every call keeps it so;
* **`Tracks.answers`**: the answers to any calls;
* **`answers_appendOnly`**: these, and what becomes of the columns from one moment to another.
-/

namespace Tabular

namespace Strict

/-- A running schema in memory. -/
structure Recorder where
  projection : Projection
  rows : Nat
  memory : Memory
  /-- Where its table is. -/
  table : Address

namespace Recorder

/-- A call of a running schema. -/
inductive Call where
  | fold (row : Row)
  | snapshot

/-- What a call gives: the record of a row with its conflicts, or a snapshot. -/
inductive Answer where
  | folded (record : Entries Value) (conflicts : List Conflict)
  | taken (snapshot : Except Breach Snapshot)

/-- One table, with a list for the names of the columns of a row. -/
def blank : Memory where
  tables t := if t = 0 then { places := [([], 0)] } else {}
  lists _ := []
  freeTable := 1
  freeList := 1

/-- A running schema before the first row. -/
def start (p : Projection) : Recorder where
  projection := p
  rows := 0
  memory :=
    if p.wantsAttributes then (blank.register 0 [] attributesName .map).1 else blank
  table := 0

/-- The memory after the attributes of a row. -/
def attributed (r : Recorder) (row : Row) : Memory :=
  if r.projection.wantsAttributes then
    ((Entries.keys row.attributes).foldl (Memory.touch r.table attributesPath) r.memory).see
      r.table attributesPath
  else r.memory

/-- One more row, with its record and its conflicts. -/
def fold (r : Recorder) (row : Row) : Recorder × Answer :=
  let first : Entries Value :=
    if r.projection.wantsAttributes then
      [(attributesName, .map (attributeEntries row.attributes))]
    else []
  let s := (r.attributed row).sightAll row.ordinal r.table [] row.fields
  ({ r with rows := r.rows + 1, memory := s.memory },
    .folded (Entries.putAll first s.entries) (s.own ++ s.deeper))

/-- A copy of the table, with room for every path that was asked for. -/
def held (r : Recorder) : Memory :=
  r.projection.paths.foldl (fun m path => m.hold r.memory.freeTable [] path)
    (r.memory.copy r.table)

/-- The columns at this moment, by a visit of the copy. -/
def snapshot (r : Recorder) : Recorder × Answer :=
  let t := r.held.view r.memory.freeTable
  ({ r with memory := r.held }, .taken do
    let columns ← t.visit r.rows t.registered.length ((t.children []).map fun name => [name])
    return ⟨columns⟩)

/-- The schema after a call, and the answer. -/
def call (r : Recorder) : Call → Recorder × Answer
  | .fold row => r.fold row
  | .snapshot => r.snapshot

/-- The answers to some calls, one after another. -/
def answers (r : Recorder) : List Call → List Answer
  | [] => []
  | call :: rest => (r.call call).2 :: (r.call call).1.answers rest

/-- The row of a call, if it has one. -/
def Call.row? : Call → Option Row
  | .fold row => some row
  | .snapshot => none

/-- The rows of some calls. -/
def rowsOf (calls : List Call) : List Row :=
  calls.filterMap Call.row?

end Recorder

end Strict

open Strict (Recorder)

/-- The answer that a running schema gives. -/
def RowSchema.answer (s : RowSchema) : Recorder.Call → Recorder.Answer
  | .fold row => .folded (s.fold row).record (s.fold row).conflicts
  | .snapshot => .taken (.ok s.snapshot)

namespace Strict.Recorder

/-! ## Calls -/

/-- The table in memory shows a running schema. -/
structure Tracks (r : Recorder) (s : Schema) : Prop where
  sound : s.Sound
  projection : r.projection = s.running.projection
  rows : r.rows = s.running.rows
  apart : r.memory.Apart
  shows : r.memory.view r.table = s.tables
  old : r.table < r.memory.freeTable

variable {r : Recorder} {s : Schema}

theorem apart_blank : blank.Apart := by
  have hplace : ∀ {t path a}, blank.place? t path = some a → t = 0 ∧ path = [] := by
    intro t path a h
    rw [Memory.place?, blank] at h
    simp only at h
    split at h
    · next ht =>
      refine ⟨ht, ?_⟩
      rw [List.lookup_cons] at h
      by_contra hp
      rw [beq_false_of_ne hp] at h
      cases h
    · cases h
  refine ⟨fun t e he => ?_, fun h h' => ?_⟩
  · rw [blank] at he ⊢
    simp only at he
    split at he
    · cases List.mem_singleton.mp he
      exact Nat.zero_lt_one
    · cases he
  · exact ⟨(hplace h).1.trans (hplace h').1.symm, (hplace h).2.trans (hplace h').2.symm⟩

theorem view_blank : blank.view 0 = {} := by
  have hnames : ∀ path, blank.names 0 path = [] := by
    intro path
    rw [Memory.names]
    cases blank.place? 0 path <;> rfl
  simp only [Memory.view, hnames]
  rfl

theorem tracks_start (p : Projection) : (start p).Tracks (.start p) := by
  refine ⟨Schema.sound_start p, rfl, rfl, ?_, ?_, ?_⟩ <;> simp only [start, Schema.start]
  all_goals
    have hregister := (Memory.becomes_register apart_blank 0 [] attributesName .map).1
    rw [view_blank] at hregister
    split
  · exact hregister.apart
  · exact apart_blank
  · exact hregister.shows
  · exact view_blank
  · exact hregister.freeTable ▸ Nat.zero_lt_one
  · exact Nat.zero_lt_one

/-- The attributes of a row come into the table. -/
theorem Tracks.attributed (h : r.Tracks s) (row : Row) :
    Memory.Becomes r.table r.memory (r.attributed row)
      (if s.running.projection.wantsAttributes then
        ((Entries.keys row.attributes).foldl (Tables.touch attributesPath) s.tables).see
          attributesPath
      else s.tables) := by
  rw [Recorder.attributed, h.projection]
  split
  · have hkeys := Memory.becomes_touchAll h.apart r.table attributesPath
      (Entries.keys row.attributes)
    have hseen := Memory.becomes_see hkeys.apart r.table attributesPath
    rw [hkeys.shows, h.shows] at hseen
    exact hkeys.trans hseen
  · have hsame := Memory.Becomes.refl h.apart r.table
    rwa [h.shows] at hsame

/-- The table shows the shapes that the fields of a row come to. -/
theorem Tracks.showsAt_attributed (h : r.Tracks s) (row : Row) :
    ((r.attributed row).view r.table).ShowsAt [] (s.running.attributed row) := by
  rw [(h.attributed row).shows, RowSchema.attributed]
  split
  · next hw => exact h.sound.showsAt_withAttributes hw _
  · exact h.sound.shows

/-- **A row comes into the table as into the schema**, and gets the same record and conflicts. -/
theorem tracks_fold (h : r.Tracks s) (row : Row) :
    (r.fold row).1.Tracks (s.fold row) ∧ (r.fold row).2 = s.running.answer (.fold row) := by
  have hattributed := h.attributed row
  have hfields := Memory.yields_sightAll row.ordinal r.table row.fields [] _ _ hattributed.apart
    (h.showsAt_attributed row)
  have hall := hattributed.trans hfields.becomes
  rw [hattributed.shows] at hall
  constructor
  · refine ⟨h.sound.fold row, h.projection, congrArg (· + 1) h.rows, hall.apart, hall.shows, ?_⟩
    exact hall.freeTable ▸ h.old
  · rw [fold, RowSchema.answer, RowSchema.record_fold, RowSchema.opening, ← h.projection,
      ← hfields.entries]
    refine congrArg (Answer.folded _) ?_
    rw [hfields.own, hfields.deeper]
    rfl

/-- **A snapshot leaves the table as it is**, and is that of the schema. -/
theorem tracks_snapshot (h : r.Tracks s) :
    r.snapshot.1.Tracks s ∧ r.snapshot.2 = s.running.answer .snapshot := by
  obtain ⟨hapart, hcopy, hothers⟩ := Memory.view_copy h.apart r.table
  have hheld := Memory.becomes_holdAll hapart r.memory.freeTable r.projection.paths
  rw [hcopy, h.shows] at hheld
  constructor
  · have hne : r.table ≠ r.memory.freeTable := Nat.ne_of_lt h.old
    refine ⟨h.sound, h.projection, h.rows, hheld.apart, ?_, ?_⟩
    · exact ((hheld.others _ hne).trans (hothers _ hne)).trans h.shows
    · exact hheld.freeTable ▸ Nat.lt_succ_of_lt h.old
  · have hview : r.held.view r.memory.freeTable = _ := hheld.shows
    rw [RowSchema.answer, ← h.sound.snapshot, Schema.snapshot, ← h.projection, ← h.rows, ← hview]
    rfl

/-- **The answers to any calls.** A row gets what it comes to under the schema of the rows before it,
and a snapshot is that of this schema, whatever other snapshots were taken. -/
theorem Tracks.answers (h : r.Tracks s) (calls : List Call) (i : Nat) : (r.answers calls)[i]? =
    calls[i]?.map (s.running.foldAll (rowsOf (calls.take i))).1.answer := by
  induction calls generalizing r s i with
  | nil => rfl
  | cons call rest ih =>
    cases call with
    | fold row =>
      obtain ⟨hnext, hanswer⟩ := tracks_fold h row
      cases i with
      | zero => exact congrArg some hanswer
      | succ i => exact ih hnext i
    | snapshot =>
      obtain ⟨hnext, hanswer⟩ := tracks_snapshot h
      cases i with
      | zero => exact congrArg some hanswer
      | succ i => exact ih hnext i

/-- **A running schema is append-only, and snapshots do not disturb it.** Each call is answered by
the rows that were folded before it. From some rows to more of them the columns that were brought
stay, with their kinds and in their order. A column that may be null may be so from then on, if the
names of every row are distinct; directly below the attributes this needs that no field has the name
of the attributes. -/
theorem answers_appendOnly (p : Projection) :
    (∀ calls i, ((start p).answers calls)[i]? =
      calls[i]?.map ((RowSchema.start p).foldAll (rowsOf (calls.take i))).1.answer) ∧
    ∀ rows later,
      let now := ((RowSchema.start p).foldAll rows).1
      let thereafter := ((RowSchema.start p).foldAll (rows ++ later)).1
      (∀ c ∈ now.carried, ∃ c' ∈ thereafter.carried, c'.path = c.path ∧ c'.kind = c.kind) ∧
      (now.carried.map Column.outline).Sublist (thereafter.snapshot.columns.map Column.outline) ∧
      (rows ≠ [] → (∀ row ∈ rows ++ later, Field.Distinct row.fields) →
        ∀ c ∈ now.snapshot.columns, ∀ c' ∈ thereafter.snapshot.columns, c'.path = c.path →
          (c.path.dropLast = attributesPath →
            ∀ row ∈ rows ++ later, attributesName ∉ row.fields.map Field.name) →
          c.nullable = true → c'.nullable = true) := by
  refine ⟨(tracks_start p).answers, fun rows later => ⟨fun c hc => ?_, ?_, ?_⟩⟩
  · have hmem := (RowSchema.sublist_append p rows later).subset (List.mem_map_of_mem hc)
    obtain ⟨c', hc', heq⟩ := List.mem_map.mp hmem
    exact ⟨c', hc', congrArg Prod.fst heq, congrArg Prod.snd heq⟩
  · exact (RowSchema.sublist_append p rows later).trans ((RowSchema.sublist_carried _).map _)
  · intro hne hd c hc c' hc' hpath hfree hn
    exact RowSchema.nullable_append hd hne hc hc' hpath hfree hn

/-- A requested column that no row has brought so far, and then a map. -/
theorem answers_appendOnly_placeholder :
    let p : Projection := .columns [["m"]]
    let rows := Scan.sealed { projection := p } {} [.start "t" [], .start "r" [], .finish "r",
      .start "r" [], .start "m" [], .start "k" [], .text "v", .finish "k", .finish "m",
      .finish "r", .finish "t"]
    let thereafter := ((RowSchema.start p).foldAll (rows.take 1 ++ rows.drop 1)).1
    (∃ c ∈ thereafter.snapshot.columns, c.path = ["m"] ∧ c.kind = .map) ∧
      ∀ c ∈ thereafter.snapshot.columns, c.path = ["m"] → c.nullable = true := by
  intro p rows thereafter
  have hc : (⟨["m"], .scalar, true⟩ : Column) ∈
      ((RowSchema.start p).foldAll (rows.take 1)).1.snapshot.columns := by
    decide +kernel
  have hdistinct : ∀ row ∈ rows.take 1 ++ rows.drop 1, Field.Distinct row.fields := by
    intro row hrow
    rw [List.take_append_drop] at hrow
    exact (Scan.isRegular_sealed _ _ row hrow).distinct
  refine ⟨by decide +kernel, fun c' hc' hpath => ?_⟩
  exact ((answers_appendOnly p).2 (rows.take 1) (rows.drop 1)).2.2 (by decide +kernel) hdistinct _ hc
    c' hc' hpath (by decide +kernel) rfl

end Strict.Recorder

end Tabular
