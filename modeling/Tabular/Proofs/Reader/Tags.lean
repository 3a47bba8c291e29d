import Tabular.Proofs.Reader.Attributes
import Tabular.Proofs.Reader.Calls
import Tabular.Proofs.Reader.Stops
import Tabular.Proofs.Value.Extended
import Tabular.Xml.Document

/-!
# Attributes from the text of a document

A parser reports the attributes of a tag one for one. A row keeps the first attribute of each name
and counts the others, but it is given those of its tag merged by their local names. So it has the
last one of each, and none of the others is counted.

* `Event.merged`: a start with its attributes merged, where the last one of a name stays;
* `Report.written`, `Parse.written`, **`events_source`**: the events of a parse are those with the
  attributes as they are written, merged;
* `RowElement`, `Captures`: a row element of a parse, and what its row holds and counts of the
  attributes of its tag;
* **`captures_last`**: each row has the last attribute of each name;
* `KeepsFirsts`, **`keepsFirsts_iff`**: the parses whose rows have the first ones, with the others
  counted;
* **`captures_written`**: the attributes of the rows of any parse.
-/

namespace Tabular

/-- The attributes that are asked for. -/
def Projection.asked (p : Projection) (attributes : Entries String) : Entries String :=
  attributes.filter fun a => p.admitsAttribute a.1

/-! ## Tags as they are written -/

namespace Event

/-- The event with the attributes of a start written one after another into a map. -/
def merged : Event → Event
  | .start name attributes => .start name (Entries.ofPairs attributes)
  | .text value => .text value
  | .finish name => .finish name

/-- A merged start has no name twice. -/
theorem nodup_keys_of_merged {event : Event} {name : String} {attributes : Entries String}
    (h : event.merged = .start name attributes) : (Entries.keys attributes).Nodup := by
  cases event with
  | start name' pairs =>
    cases h
    exact Entries.nodup_keys_ofPairs pairs
  | text value => cases h
  | finish name' => cases h

end Event

namespace Xml

/-- The events of a report with the attributes of a tag as they are written, one for one under their
local names. -/
def Report.written : Report → List Event
  | .start tag attributes =>
    [.start (localName tag) (attributes.map fun x => (localName x.1, x.2))]
  | report => report.events

theorem Report.merged_written (report : Report) :
    report.written.map Event.merged = report.events := by
  cases report with
  | start tag attributes => rfl
  | finish tag text => cases text <;> rfl
  | other => rfl

namespace Parse

/-- The events of a parse with the attributes of its tags as they are written. -/
def written (p : Parse) : List Event :=
  p.reports.flatMap Report.written

/-- **The events of a parse** are those with the attributes as they are written, merged. -/
theorem events_source (p : Parse) : p.source.events = p.written.map Event.merged := by
  show p.reports.flatMap Report.events = (p.reports.flatMap Report.written).map Event.merged
  rw [List.map_flatMap]
  exact congrArg (p.reports.flatMap ·) (funext fun report => report.merged_written.symm)

/-! ## Row elements -/

variable {o : ReaderOptions} {p : Parse} {name : String} {written : Entries String}
  {s : Scan} {earlier : List Row}

/-- A row element of a parse: its tag, with the attributes as they are written, stands at the
depth of rows and under a name for rows. The events before it finish the rows `earlier` and lead to
the state `s`. -/
structure RowElement (o : ReaderOptions) (p : Parse) (name : String)
    (written : Entries String) (s : Scan) (earlier : List Row) : Prop where
  written_eq : ∃ before after, p.written = before ++ .start name written :: after ∧
    Scan.run o {} (before.map Event.merged) = .ok (s, earlier)
  depth : s.openTags.length + 1 = o.dataLevel
  isRowName : o.levels.isRowName name = true

/-- What the rows of a document hold and count of the attributes of their tags, as far as they are
asked for: at each key the value `kept`, and `counted` of them when the tag is read. -/
def Captures (o : ReaderOptions) (p : Parse)
    (kept : String → Entries String → Option String) (counted : Entries String → Nat) : Prop :=
  ∀ name written s earlier, RowElement o p name written s earlier →
    let asked := o.projection.asked written
    (s.start o name (Entries.ofPairs written)).builder.tally.duplicateAttributes =
        s.builder.tally.duplicateAttributes + counted asked ∧
      ∀ row, (passage o p.source.ending p.source.events 0 {}).rows[earlier.length]? =
        some row → ∀ key ∈ Entries.keys asked,
          Entries.get? key row.attributes = (kept key asked).map some

/-- The state behind the tag of a row element, and the row that it becomes. -/
theorem RowElement.start (h : RowElement o p name written s earlier) (hd : 1 ≤ o.dataLevel) :
    let s' := s.start o name (Entries.ofPairs written)
    let own := o.projection.asked (Entries.ofPairs written)
    s'.builder.tally.duplicateAttributes = s.builder.tally.duplicateAttributes ∧
      ∀ row, (Scan.sealed o {} p.source.events)[earlier.length]? = some row →
        own.kept <+: row.attributes := by
  intro s' own
  obtain ⟨before, after, hwritten, hrun⟩ := h.written_eq
  have hsteady := (Scan.follows_run (Scan.steady_empty hd) hrun).steady
  have hskip : s.skipDepth = none := by
    have hdepth := h.depth
    cases hsteady with
    | outside skip row depth => exact skip
    | inside r skip row depth => exact skip
    | skipping skip row depth => omega
  have hplace : o.levels.place (s.openTags.length + 1) name = .rowStart := by
    rw [Scan.place_row h.depth, h.isRowName, if_pos rfl]
  have hstart : s' = { s.opening name with
      builder := s.builder.startRow o name (Entries.ofPairs written) } := by
    rw [show s' = s.start o name (Entries.ofPairs written) from rfl, Scan.start_of_place hskip,
      hplace]
  have hnodup := Entries.nodup_keys_ofPairs written
  refine ⟨?_, fun row hrow => ?_⟩
  · rw [hstart]
    exact Scan.duplicates_startRow _ hnodup
  · have hread : ReadUpTo o p.source (before.map Event.merged)
        (.start name (Entries.ofPairs written) :: after.map Event.merged) s earlier :=
      ⟨by rw [events_source, hwritten, List.map_append]; rfl, hrun⟩
    have hfeed : s.feed o (.start name (Entries.ofPairs written)) = .ok (s', none) := rfl
    rw [hread.sealed, List.getElem?_append_right (Nat.le_refl _), Nat.sub_self, Scan.sealed, hfeed]
      at hrow
    refine Scan.isPrefix_sealed (Scan.follows_feed hsteady hfeed).1.steady ?_ hrow
    rw [hstart]
    refine ⟨_, rfl, ?_⟩
    show own.kept <+: (Collected.ofRow o.projection (Entries.ofPairs written) ⟨[], _⟩).kept
    rw [(Collected.ofRow_nil o.projection _ _).1, Entries.firsts_of_nodup
      (hnodup.sublist (List.filter_sublist.map _)) fun _ _ => List.not_mem_nil]
    exact List.prefix_refl _

/-! ## The last of each name -/

/-- **A row holds the last attribute of each name** that its tag has, and none is counted. -/
theorem captures_last (hd : 1 ≤ o.dataLevel) (p : Parse) :
    Captures o p Entries.last? fun _ => 0 := by
  intro name written s earlier h asked
  obtain ⟨hcount, hown⟩ := h.start hd
  refine ⟨hcount, fun row hrow key hkey => ?_⟩
  have hsealed : (Scan.sealed o {} p.source.events)[earlier.length]? = some row := by
    obtain ⟨more, hmore⟩ := isPrefix_rows_passage o p.source.ending p.source.events 0 {}
    rw [← hmore, List.getElem?_append_left (List.getElem?_eq_some_iff.mp hrow).1, hrow]
  have hasked : o.projection.admitsAttribute key = true := by
    obtain ⟨a, ha, rfl⟩ := List.mem_map.mp hkey
    exact (List.mem_filter.mp ha).2
  have hlast : Entries.get? key (o.projection.asked (Entries.ofPairs written)) =
      Entries.last? key asked := by
    rw [Projection.asked, Entries.get?_filter hasked, Entries.get?_ofPairs]
    exact (Entries.last?_filter hasked written).symm
  obtain ⟨value, hvalue⟩ : ∃ value, Entries.last? key asked = some value := by
    refine Option.isSome_iff_exists.mp (Entries.has_iff.mpr ?_)
    rw [Entries.keys, List.map_reverse, List.mem_reverse]
    exact hkey
  -- what the row has of its tag comes before all that it takes from inside
  obtain ⟨more, hmore⟩ := hown row hsealed
  rw [← hmore, Entries.get?_append, Entries.kept, Entries.get?_map, hlast, hvalue]
  rfl

/-! ## The first of each name -/

/-- The rows of the document have the first attribute of each name that their tags have, and the
others are counted. -/
def KeepsFirsts (o : ReaderOptions) (p : Parse) : Prop :=
  Captures o p Entries.get? Entries.repeats

/-- **Rows have the first attribute of each name**, with the others counted, just where no tag of
them has a name twice. -/
theorem keepsFirsts_iff (hd : 1 ≤ o.dataLevel) (p : Parse) :
    KeepsFirsts o p ↔ ∀ name written s earlier, RowElement o p name written s earlier →
      (Entries.keys (o.projection.asked written)).Nodup := by
  constructor
  · intro h name written s earlier hrow
    rw [← Entries.repeats_eq_zero_iff]
    have hfirsts := (h name written s earlier hrow).1
    have hlast := (captures_last hd p name written s earlier hrow).1
    exact Nat.add_left_cancel (hfirsts.symm.trans hlast)
  · intro h name written s earlier hrow asked
    have hnodup : (Entries.keys asked).Nodup := h name written s earlier hrow
    obtain ⟨hcount, hkept⟩ := captures_last hd p name written s earlier hrow
    rw [Entries.repeats_eq_zero_iff.mpr hnodup]
    refine ⟨hcount, fun row hr key hkey => ?_⟩
    rw [hkept row hr key hkey, Entries.last?_of_nodup hnodup]

/-- No tag that is read has a name twice. -/
theorem distinct_source (p : Parse) : Event.Distinct p.source.events := by
  intro name attributes hmem
  rw [events_source] at hmem
  obtain ⟨event, -, h⟩ := List.mem_map.mp hmem
  exact Event.nodup_keys_of_merged h

/-- **The attributes of the rows of any parse.** Its events are those that are written, with the
attributes of every tag merged. Each row holds the last attribute of each name that its tag has, and
none is counted; so rows hold the first ones, with the others counted, just where no tag of them has
a name twice. A reader for the rows' own attributes counts none at all. -/
theorem captures_written (hv : o.Valid) (p : Parse) :
    p.source.events = p.written.map Event.merged ∧
      Captures o p Entries.last? (fun _ => 0) ∧
      (KeepsFirsts o p ↔ ∀ name written s earlier, RowElement o p name written s earlier →
        (Entries.keys (o.projection.asked written)).Nodup) ∧
      (o.attributeScope = .row →
        (Reader.start o p.source).rest.reader.diagnostics.duplicateAttributes = 0) := by
  have hd : 1 ≤ o.dataLevel := hv.levels_valid.one_le
  exact ⟨events_source p, captures_last hd p, keepsFirsts_iff hd p,
    fun ho => duplicates_rest hv.one_le_batchSize ho (distinct_source p)⟩

/-- The parse of a document with a row whose tag has one name without a prefix and with one. -/
def prefixed : Parse :=
  ⟨[.start "t" [], .start "r" [("a", "1"), ("\x7bu\x7da", "2")], .finish "r" none,
    .finish "t" none], none⟩

/-- The document, and the attributes of its row. -/
theorem captures_written_prefixed :
    let o : ReaderOptions := {}
    o.Valid ∧
      Document.parse "<t xmlns:p=\"u\"><r a=\"1\" p:a=\"2\"/></t>".toUTF8.toList = prefixed ∧
      Captures o prefixed Entries.last? (fun _ => 0) ∧
      (Reader.start o prefixed.source).rest.reader.diagnostics.duplicateAttributes = 0 := by
  have hv : ({} : ReaderOptions).Valid := ⟨⟨by decide, nofun⟩, by decide⟩
  have h := captures_written hv prefixed
  exact ⟨hv, by decide +kernel, h.2.1, h.2.2.2 rfl⟩

/-- The row of the document does not hold the first of the two, and the second is not counted. -/
theorem not_keepsFirsts_prefixed :
    RowElement {} prefixed "r" [("a", "1"), ("a", "2")] { openTags := ["t"] } [] ∧
      ¬ KeepsFirsts {} prefixed := by
  have hrow : RowElement {} prefixed "r" [("a", "1"), ("a", "2")] { openTags := ["t"] } [] :=
    ⟨⟨[.start "t" []], [.finish "r", .finish "t"], by decide +kernel, rfl⟩, rfl, rfl⟩
  refine ⟨hrow, fun h => ?_⟩
  exact absurd ((keepsFirsts_iff (by decide) prefixed).mp h _ _ _ _ hrow) (by decide)

end Parse

end Xml

end Tabular
