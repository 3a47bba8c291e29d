import Tabular.Proofs.Reader.Drained
import Tabular.Proofs.Reader.Sealed
import Tabular.Proofs.Tree.Gathered

/-!
# Attributes on their way through a scan

Over any stream, nested or not, a row loses none of the attributes that it began with. Rows for
their own attributes count one just where a tag has a name twice.

* `Scan.Has`, `has_feed`, **`isPrefix_sealed`**: a row keeps the attributes that it has;
* `Event.Distinct`: streams in which no tag has a name twice;
* `duplicates_feed`, `duplicates_passage`, **`duplicates_rest`**: rows for their own attributes count
  none there.
-/

namespace Tabular

/-! ## Attributes that a row has -/

theorem Collected.isPrefix_ofNested (scope : AttributeScope) (p : Projection) (label : String)
    (attributes : Entries String) (c : Collected) :
    c.kept <+: (c.ofNested scope p label attributes).kept := by
  cases scope with
  | row => exact List.prefix_refl _
  | all =>
    cases hw : p.wantsAttributes with
    | false => simp [ofNested, offerAll, hw]
    | true =>
      rw [ofNested, kept_offerAll_filter hw]
      exact List.prefix_append _ _

theorem OpenRow.isPrefix_startChild (o : ReaderOptions) (flattened : Bool) (name : String)
    (attributes : Entries String) (r : OpenRow) (t : Tally) :
    r.draft.attributes <+: (r.startChild o flattened name attributes t).1.draft.attributes := by
  obtain ⟨frame, q, he, -, -, ⟨-, ha⟩ | ⟨-, ha⟩⟩ :=
    attributes_startChild o flattened name attributes r t
  · rw [he, ← ha]
    exact List.prefix_refl _
  · rw [he]
    show _ <+: q.draft.attributes
    rw [ha]
    exact Collected.isPrefix_ofNested _ _ _ _ ⟨r.draft.attributes, 0⟩

namespace Scan

variable {o : ReaderOptions} {s s' : Scan} {event : Event} {events : List Event} {row? : Option Row}
  {own : Entries (Option String)}

/-- The row under construction has these attributes, and maybe more behind them. -/
def Has (own : Entries (Option String)) (s : Scan) : Prop :=
  ∃ r, s.builder.row = some r ∧ own <+: r.draft.attributes

theorem Steady.inside_of_row (h : s.Steady o) {r : OpenRow} (hr : s.builder.row = some r) :
    s.skipDepth = none ∧ o.dataLevel ≤ s.openTags.length := by
  cases h with
  | outside skip row depth => cases row.symm.trans hr
  | inside r skip row depth => exact ⟨skip, by omega⟩
  | skipping skip row depth => cases row.symm.trans hr

/-- **A row keeps its attributes at an event**, also at its end. -/
theorem has_feed (h : s.Steady o) (hown : s.Has own) (hf : s.feed o event = .ok (s', row?)) :
    (row? = none → s'.Has own) ∧ ∀ row, row? = some row → own <+: row.attributes := by
  obtain ⟨r, hr, hpre⟩ := hown
  obtain ⟨hskip, hdepth⟩ := h.inside_of_row hr
  cases event with
  | start name attributes =>
    obtain ⟨rfl, rfl⟩ : s.start o name attributes = s' ∧ none = row? := by simpa [feed] using hf
    refine ⟨fun _ => ?_, fun _ hrow => by cases hrow⟩
    rw [start_inside hskip hdepth]
    refine ⟨_, by simp only [Builder.startChild, hr]; rfl, ?_⟩
    exact hpre.trans (OpenRow.isPrefix_startChild o _ name attributes r _)
  | text value =>
    have hstep := builder_feed hf
    unfold Has
    generalize s'.builder = b at hstep ⊢
    cases hstep with
    | idle event => exact ⟨fun _ => ⟨r, hr, hpre⟩, fun _ hrow => by cases hrow⟩
    | text value =>
      refine ⟨fun _ => ⟨r.text value, by simp only [Builder.text, hr, Option.map_some], ?_⟩,
        fun _ hrow => by cases hrow⟩
      unfold OpenRow.text
      split <;> exact hpre
  | finish name =>
    have hstep := builder_feed hf
    unfold Has
    generalize s'.builder = b at hstep ⊢
    cases hstep with
    | idle event => exact ⟨fun _ => ⟨r, hr, hpre⟩, fun _ hrow => by cases hrow⟩
    | finish name =>
      by_cases ho : r.outer = []
      · rw [Builder.finish_of_row hr ho]
        refine ⟨fun hrow => (by cases hrow), fun row hrow => ?_⟩
        cases hrow
        exact hpre
      · rw [Builder.finish_of_inside hr ho]
        refine ⟨fun _ => ⟨_, rfl, ?_⟩, fun _ hrow => by cases hrow⟩
        obtain ⟨frame, outer, houter⟩ := List.exists_cons_of_ne_nil ho
        simp only [OpenRow.leave, houter, OpenRow.attributes_closeFrame]
        exact hpre

/-- **The row under construction is finished with the attributes that it has.** -/
theorem isPrefix_sealed (h : s.Steady o) (hown : s.Has own) {row : Row}
    (hrow : (sealed o s events)[0]? = some row) : own <+: row.attributes := by
  induction events generalizing s with
  | nil => cases hrow
  | cons event rest ih =>
    rw [sealed] at hrow
    split at hrow
    · cases hrow
    · next s' row? hf =>
      obtain ⟨hnone, hsome⟩ := has_feed h hown hf
      cases row? with
      | none => exact ih (follows_feed h hf).1.steady (hnone rfl) hrow
      | some finished =>
        obtain rfl : finished = row := by simpa using hrow
        exact hsome finished rfl

end Scan

/-! ## Counted attributes -/

namespace OpenRow

variable {o : ReaderOptions} (r : OpenRow) (t : Tally)

theorem duplicates_startChild (ho : o.attributeScope = .row) (flattened : Bool) (name : String)
    (attributes : Entries String) :
    (r.startChild o flattened name attributes t).2.duplicateAttributes = t.duplicateAttributes := by
  unfold startChild startField startFlattened
  simp only [collect_of_row ho]
  split
  · rfl
  · rfl
  · split
    · rfl
    · split
      · rfl
      · split <;> rfl
  · rfl

theorem duplicates_closeFrame (frame : Frame) (d : Draft) :
    (closeFrame o frame d t).2.duplicateAttributes = t.duplicateAttributes := by
  unfold closeFrame putFlattened
  split
  · rfl
  · split
    · rfl
    · split
      · rfl
      · split
        · rfl
        · split <;> rfl
  · rfl
  · rfl

end OpenRow

/-- No tag of the events has a name twice. -/
def Event.Distinct (events : List Event) : Prop :=
  ∀ name attributes, .start name attributes ∈ events → (Entries.keys attributes).Nodup

namespace Scan

variable {o : ReaderOptions} {s s' : Scan} {event : Event} {events : List Event} {row? : Option Row}

theorem duplicates_startRow {name : String} {attributes : Entries String} (b : Builder)
    (hn : (Entries.keys attributes).Nodup) :
    (b.startRow o name attributes).tally.duplicateAttributes = b.tally.duplicateAttributes := by
  have hcount := (Collected.ofRow_nil o.projection attributes b.tally.duplicateAttributes).2
  rw [Entries.firsts_of_nodup (hn.sublist (List.filter_sublist.map _)) fun _ _ => List.not_mem_nil]
    at hcount
  exact Nat.add_right_cancel hcount

/-- Rows for their own attributes count none at an event. -/
theorem duplicates_feed (ho : o.attributeScope = .row) (hn : Event.Distinct [event])
    (hf : s.feed o event = .ok (s', row?)) :
    s'.builder.tally.duplicateAttributes = s.builder.tally.duplicateAttributes := by
  have hstep := builder_feed hf
  generalize s'.builder = b at hstep ⊢
  cases hstep with
  | idle event => rfl
  | row name attributes => exact duplicates_startRow _ (hn _ _ (List.mem_singleton_self _))
  | child flattened name attributes =>
    unfold Builder.startChild
    split
    · rfl
    · exact OpenRow.duplicates_startChild _ _ ho flattened name attributes
  | text value => rfl
  | finish name =>
    unfold Builder.finish
    split
    · rfl
    · split
      · rfl
      · exact OpenRow.duplicates_closeFrame _ _ _

end Scan

theorem duplicates_passage {o : ReaderOptions} (ho : o.attributeScope = .row) (ending : Ending)
    {events : List Event} (hn : Event.Distinct events) (given : Nat) (s : Scan) :
    (passage o ending events given s).scan.builder.tally.duplicateAttributes =
      s.builder.tally.duplicateAttributes := by
  induction events generalizing given s with
  | nil => rfl
  | cons event rest ih =>
    have hrest : Event.Distinct rest := fun name attributes hmem =>
      hn name attributes (List.mem_cons_of_mem event hmem)
    cases hf : s.feed o event with
    | error error => rw [passage_cons_error hf]
    | ok q =>
      obtain ⟨s', row?⟩ := q
      have hstep : s'.builder.tally.duplicateAttributes = s.builder.tally.duplicateAttributes :=
        Scan.duplicates_feed ho (fun name attributes hmem =>
          hn name attributes (List.mem_cons.mpr (.inl (List.mem_singleton.mp hmem)))) hf
      cases row? with
      | none =>
        rw [passage_cons_none hf, Passage.scan_behind, ih hrest, hstep]
      | some row =>
        rw [passage_cons_some hf]
        split
        · exact hstep
        · rw [Passage.scan_behind, ih hrest, hstep]

/-- **A reader for the rows' own attributes counts none** where no tag has a name twice. -/
theorem duplicates_rest {o : ReaderOptions} (hb : 0 < o.batchSize) (ho : o.attributeScope = .row)
    {source : EventSource} (hn : Event.Distinct source.events) :
    (Reader.start o source).rest.reader.diagnostics.duplicateAttributes = 0 := by
  by_cases hl : o.limit = some 0
  · have hidle : (Reader.start o source).exhausted = true := decide_eq_true hl
    rw [Reader.rest, Reader.reader_batches_of_exhausted hidle]
    rfl
  · show (Reader.start o source).rest.reader.scan.builder.tally.duplicateAttributes = 0
    rw [(Reader.drained_rest hb hl source).tally, duplicates_passage ho _ hn]

end Tabular
