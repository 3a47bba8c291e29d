import Tabular.Proofs.Reader.RowName
import Tabular.Proofs.Tree.Core

/-!
# The depth of rows

What stands above the rows is not read. A reader gives of a nested stream what a reader with rows as
the outermost elements gives of the core of the stream, so that readers of streams with the same
core agree, wherever the rows are.

* `ReaderOptions.deeper`, `ReaderOptions.raised`, `place_raised`: rows at another depth;
* `Scan.under`, `Scan.Aligned`, **`Aligned.outside`**, **`Aligned.inside`**: one event of the stream,
  which is in the core or not;
* **`passage_core`**: the passage of the stream and of its core;
* `Called.SameRead`, **`Reader.rest_core`**: all batches, conflicts and counters;
* **`Reader.rest_deeper`**: a stream inside one more element, and streams that differ above the rows.
-/

namespace Tabular

variable {o : ReaderOptions} {ending : Ending} {events : List Event}

/-! ## Rows at another depth -/

namespace ReaderOptions

/-- The options for rows one level deeper. -/
def deeper (o : ReaderOptions) : ReaderOptions :=
  { o with dataLevel := o.dataLevel + 1, flattenLevel := o.flattenLevel.map (· + 1) }

/-- The options for rows that are the outermost elements. -/
def raised (o : ReaderOptions) : ReaderOptions :=
  { o with dataLevel := 1, flattenLevel := o.flattenLevel.map (· - (o.dataLevel - 1)) }

theorem raised_deeper (hd : 1 ≤ o.dataLevel) : o.deeper.raised = o.raised := by
  have hlevel : ∀ f, f + 1 - (o.dataLevel + 1 - 1) = f - (o.dataLevel - 1) := by omega
  simp only [raised, deeper, Option.map_map, Function.comp_def, hlevel]

theorem Valid.deeper (h : o.Valid) : o.deeper.Valid := by
  refine ⟨⟨Nat.le_add_left 1 _, fun f hf => ?_⟩, h.one_le_batchSize⟩
  obtain ⟨flattenLevel, hlevel, rfl⟩ := Option.map_eq_some_iff.mp hf
  exact Nat.succ_le_succ (h.levels_valid.le_flatten flattenLevel hlevel)

theorem isFlattened_raised {above : Nat} (hl : above + 1 = o.dataLevel) {depth : Nat}
    (hd : 1 ≤ depth) : o.raised.isFlattened (depth + 1) = o.isFlattened (depth + above + 1) := by
  unfold isFlattened raised
  cases o.flattenLevel with
  | none => rfl
  | some f =>
    have hlevel : f - (o.dataLevel - 1) < depth + 1 ↔ f < depth + above + 1 := by omega
    exact decide_eq_decide.mpr hlevel

/-- An element has the place of one that much deeper. -/
theorem place_raised {above : Nat} (hl : above + 1 = o.dataLevel) (depth : Nat) (name : String) :
    o.levels.place (depth + above) name = o.raised.levels.place depth name := by
  have hraised : o.raised.levels.dataLevel = 1 := rfl
  have hlevel : o.levels.dataLevel = above + 1 := hl.symm
  match depth with
  | 0 => rw [Levels.place, if_pos (by omega), Levels.place, if_pos (by omega)]
  | 1 =>
    simp only [Levels.place, hraised, hlevel, Nat.add_comm 1 above, Nat.lt_irrefl, if_false, if_true]
    rfl
  | depth + 2 =>
    have hdepth : depth + 2 + above = depth + 1 + above + 1 := by omega
    rw [hdepth, place_inside (by omega), place_inside (o := o.raised) (Nat.le_add_left 1 depth),
      isFlattened_raised hl (Nat.le_add_left 1 depth)]

end ReaderOptions

/-! ## Scans inside further elements -/

namespace Event

variable {inner above tags : List String} {event : Event}

/-- An event inside some open elements leaves these open. -/
theorem reopen_append (h : reopen (inner ++ above) event = .ok tags)
    (hd : above.length < event.depthAt (inner ++ above).length) :
    ∃ inner', reopen inner event = .ok inner' ∧ inner' ++ above = tags := by
  cases event with
  | start name attributes => exact ⟨name :: inner, rfl, Except.ok.inj h⟩
  | text value => exact ⟨inner, rfl, Except.ok.inj h⟩
  | finish name =>
    obtain ⟨opened, htags, hc⟩ := exists_of_reopen_finish h
    cases inner with
    | nil => exact absurd hd (Nat.lt_irrefl _)
    | cons first inner =>
      obtain ⟨rfl, hinner⟩ := List.cons.inj htags
      exact ⟨inner, reopen_of_closes hc inner, hinner⟩

theorem length_of_reopen (h : reopen above event = .ok tags) :
    tags.length = event.depthAfter above.length := by
  cases event with
  | start name attributes =>
    cases h
    rfl
  | text value =>
    cases h
    rfl
  | finish name =>
    obtain ⟨opened, rfl, -⟩ := exists_of_reopen_finish h
    rfl

end Event

namespace Scan

variable {s s' : Scan} {event : Event} {row? : Option Row} {above above' tags : List String}

/-- The state inside some further elements. -/
def under (above : List String) (s : Scan) : Scan :=
  { s with
    openTags := s.openTags ++ above
    skipDepth := s.skipDepth.map (· + above.length) }

theorem exists_feed (h : event.reopen s.openTags = .ok tags) (o : ReaderOptions) :
    ∃ s' row?, s.feed o event = .ok (s', row?) := by
  rw [← openTags_feed o] at h
  cases hf : s.feed o event with
  | error error =>
    rw [hf] at h
    cases h
  | ok q => exact ⟨q.1, q.2, rfl⟩

theorem start_under (hl : above.length + 1 = o.dataLevel) (name : String)
    (attributes : Entries String) :
    (s.under above).start o name attributes = (s.start o.raised name attributes).under above := by
  cases hskip : s.skipDepth with
  | some depth =>
    rw [start_of_skipping (by simp [under, hskip]), start_of_skipping (by simp [hskip])]
    rfl
  | none =>
    have hdepth : (s.openTags ++ above).length + 1 = s.openTags.length + 1 + above.length := by
      rw [List.length_append]
      omega
    rw [start_of_place (by simp [under, hskip]), start_of_place hskip]
    simp only [under, hdepth, ReaderOptions.place_raised hl]
    cases o.raised.levels.place (s.openTags.length + 1) name <;> rfl

theorem close_under (above : List String) (depth : Nat) :
    (s.under above).close o (depth + above.length) =
      ((s.close o.raised depth).1.under above, (s.close o.raised depth).2) := by
  cases hskip : s.skipDepth with
  | none =>
    simp only [close, under, hskip, Option.map_none]
    rfl
  | some d =>
    simp only [close, under, hskip, Option.map_some, Nat.add_right_cancel_iff]
    by_cases hd : depth = d
    · simp only [hd, if_true, Option.map_none]
    · simp only [hd, if_false, hskip, Option.map_some]

/-- **An event at the depth of rows or below it** is taken as in the core. -/
theorem feed_under (hl : above.length + 1 = o.dataLevel)
    (hf : s.feed o.raised event = .ok (s', row?)) :
    (s.under above).feed o event = .ok (s'.under above, row?) := by
  cases event with
  | start name attributes =>
    cases hf
    exact congrArg (fun s => Except.ok (s, none)) (start_under hl name attributes)
  | text value =>
    cases hf
    refine congrArg (fun s => Except.ok (s, none)) ?_
    simp only [text, under, Option.isSome_map]
    split <;> rfl
  | finish name =>
    cases ht : s.openTags with
    | nil => simp [feed, ht] at hf
    | cons opened rest =>
      by_cases hc : Event.closes name opened = true
      · simp only [feed, ht, hc, if_true, Except.ok.injEq] at hf
        have hclose := close_under (o := o) (s := { s with openTags := rest }) above
          (opened :: rest).length
        rw [hf, ← List.length_append] at hclose
        simp only [feed, under, ht, List.cons_append, hc, if_true]
        exact congrArg Except.ok hclose
      · simp [feed, ht, hc] at hf

/-- **An event above the rows** changes nothing but the open elements. -/
theorem feed_above (ht : s.openTags = []) (hskip : s.skipDepth = none)
    (hrow : s.builder.row = none) (ho : event.reopen above = .ok above')
    (hd : event.depthAt above.length < o.dataLevel) :
    (s.under above).feed o event = .ok (s.under above', none) := by
  have hunder : ∀ tags, s.under tags = { s with openTags := tags } := fun tags => by
    simp [under, ht, hskip]
  rw [hunder, hunder]
  cases event with
  | start name attributes =>
    cases ho
    have hplace : o.levels.place (above.length + 1) name = .outside := if_pos hd
    refine congrArg (fun s => Except.ok (s, none)) ?_
    rw [start_of_place (s := { s with openTags := above }) hskip]
    simp only [hplace]
    rfl
  | text value =>
    cases ho
    refine congrArg (fun s => Except.ok (s, none)) ?_
    have hbuilder : s.builder.text value = s.builder := by
      simp only [Builder.text, hrow, Option.map_none]
      exact congrArg (fun row => { s.builder with row }) hrow.symm
    simp only [text, hbuilder, ite_self]
  | finish name =>
    obtain ⟨opened, rfl, hc⟩ := Event.exists_of_reopen_finish ho
    simp only [feed, hc, if_true, close, hskip, Builder.finish_of_none hrow]

/-- Around the rows nothing is under construction, and nothing is skipped. -/
theorem Steady.idle (h : s.Steady o) (hd : s.openTags.length < o.dataLevel) :
    s.skipDepth = none ∧ s.builder.row = none := by
  cases h with
  | outside skip row depth => exact ⟨skip, row⟩
  | inside r skip row depth => omega
  | skipping skip row depth => omega

/-- Elements above the rows are open around a scan of the core; all of them are open where the scan
has an element open itself. -/
structure Aligned (o : ReaderOptions) (above : List String) (s : Scan) : Prop where
  steady : s.Steady o.raised
  length_lt : above.length < o.dataLevel
  full : s.openTags ≠ [] → above.length + 1 = o.dataLevel

theorem aligned_empty (hd : 1 ≤ o.dataLevel) : Aligned o [] {} :=
  ⟨steady_empty (Nat.le_refl 1), hd, absurd rfl⟩

/-- **An event that is not in the core** leaves the scan of the core where it is. -/
theorem Aligned.outside (h : Aligned o above s)
    (ho : event.reopen (s.openTags ++ above) = .ok tags)
    (hd : event.depthAt (s.openTags ++ above).length < o.dataLevel) :
    (s.under above).feed o event = .ok (s.under tags, none) ∧ Aligned o tags s ∧
      s.openTags ++ tags = tags := by
  have hopen : s.openTags = [] := by
    by_contra hne
    have hfull := h.full hne
    have hpos := List.length_pos_iff.mpr hne
    have hle := Event.le_depthAt event (s.openTags ++ above).length
    rw [List.length_append] at hle hd
    omega
  obtain ⟨hskip, hrow⟩ := h.steady.idle (by rw [hopen]; exact Nat.zero_lt_one)
  rw [hopen, List.nil_append] at ho hd
  have hlen := Event.length_of_reopen ho
  have hafter := Event.depthAfter_le_depthAt event above.length
  refine ⟨feed_above hopen hskip hrow ho hd, ⟨h.steady, by omega, absurd hopen⟩, ?_⟩
  rw [hopen, List.nil_append]

/-- **An event in the core** is taken alike. -/
theorem Aligned.inside (h : Aligned o above s)
    (ho : event.reopen (s.openTags ++ above) = .ok tags)
    (hd : o.dataLevel ≤ event.depthAt (s.openTags ++ above).length) :
    ∃ s' row?, s.feed o.raised event = .ok (s', row?) ∧
      (s.under above).feed o event = .ok (s'.under above, row?) ∧ Aligned o above s' ∧
      s'.openTags ++ above = tags := by
  have hl : above.length + 1 = o.dataLevel := by
    by_cases hopen : s.openTags = []
    · have hle := Event.depthAt_le_succ event above.length
      have hlt := h.length_lt
      rw [hopen, List.nil_append] at hd
      omega
    · exact h.full hopen
  obtain ⟨inner, hinner, rfl⟩ := Event.reopen_append ho (by omega)
  obtain ⟨s', row?, hf⟩ := exists_feed hinner o.raised
  have hopen : s'.openTags = inner := Except.ok.inj ((reopen_of_feed hf).symm.trans hinner)
  exact ⟨s', row?, hf, feed_under hl hf, ⟨(follows_feed h.steady hf).1.steady, h.length_lt,
    fun _ => hl⟩, congrArg (· ++ above) hopen⟩

end Scan

/-! ## Passages of a core -/

/-- Two passages that differ in nothing but where they are. -/
structure Passage.Agree (p p' : Passage) : Prop extends p.Alike p' where
  skippedElements : p.scan.skippedElements = p'.scan.skippedElements

theorem Passage.Agree.cons {o' : ReaderOptions} {event : Event} {rest left : List Event}
    {s s' S S' : Scan} {row? : Option Row} {given : Nat} (he : ∀ n, o.isEnough n = o'.isEnough n)
    (hf : S.feed o event = .ok (S', row?)) (hf' : s.feed o' event = .ok (s', row?))
    (hb : S'.builder = s'.builder) (hk : S'.skippedElements = s'.skippedElements)
    (h : ∀ given, (passage o ending rest given S').Agree (passage o' ending left given s')) :
    (passage o ending (event :: rest) given S).Agree
      (passage o' ending (event :: left) given s) := by
  refine ⟨.cons he hf hf' hb fun given => (h given).toAlike, ?_⟩
  cases row? with
  | none =>
    rw [passage_cons_none hf, passage_cons_none hf']
    exact (h given).skippedElements
  | some row =>
    rw [passage_cons_some hf, passage_cons_some hf', he]
    split
    · exact hk
    · exact (h _).skippedElements

theorem Passage.Agree.behind {event : Event} {rest : List Event} {s s' : Scan} {given : Nat}
    {p : Passage} (hf : s.feed o event = .ok (s', none))
    (h : (passage o ending rest given s').Agree p) :
    (passage o ending (event :: rest) given s).Agree p := by
  refine ⟨.behind hf h.toAlike, ?_⟩
  rw [passage_cons_none hf]
  exact h.skippedElements

theorem Passage.Agree.diagnostics {p p' : Passage} (h : p.Agree p') (conflicts : List Conflict) :
    { p.diagnostics conflicts with eventsConsumed := 0 } =
      { p'.diagnostics conflicts with eventsConsumed := 0 } := by
  unfold Passage.diagnostics
  rw [h.rows, h.halt, h.builder, h.toAlike.discards, h.skippedElements]

/-- **The passage of a nested stream is that of its core** where the rows are outermost. -/
theorem passage_core {above : List String} {s : Scan} (h : s.Aligned o above)
    (hn : Event.openAfter (s.openTags ++ above) events = .ok []) (given : Nat) :
    (passage o ending events given (s.under above)).Agree
      (passage o.raised ending
        (Event.core o.dataLevel (s.openTags ++ above).length events) given s) := by
  induction events generalizing s above given with
  | nil =>
    obtain ⟨hopen, rfl⟩ := List.append_eq_nil_iff.mp (Except.ok.inj hn)
    exact ⟨⟨rfl, congrArg ending.halt (List.append_nil s.openTags), rfl⟩, rfl⟩
  | cons event rest ih =>
    obtain ⟨tags, ho, hrest⟩ := Event.exists_reopen_of_openAfter hn
    have hlen := Event.length_of_reopen ho
    by_cases hd : event.depthAt (s.openTags ++ above).length < o.dataLevel
    · obtain ⟨hfeed, hnext, htags⟩ := h.outside ho hd
      rw [Event.core_cons_of_lt hd, ← hlen]
      refine .behind hfeed ?_
      have hlater := ih hnext (by rwa [htags]) given
      rwa [htags] at hlater
    · obtain ⟨s', row?, hf, hfeed, hnext, rfl⟩ := h.inside ho (Nat.le_of_not_lt hd)
      rw [Event.core_cons_of_le (Nat.le_of_not_lt hd), ← hlen]
      exact .cons (fun _ => rfl) hfeed hf rfl rfl fun given => ih hnext hrest given

/-! ## Batches, conflicts and counters -/

/-- Two readings that give the same batches and fail alike, log the same conflicts, and have the
same counters but for the number of events. -/
structure Called.SameRead (c c' : Called (List Batch × Option ReadFailure)) : Prop where
  result : c.result = c'.result
  conflictLines : Reader.conflictLines c = Reader.conflictLines c'
  diagnostics : { c.reader.diagnostics with eventsConsumed := 0 } =
    { c'.reader.diagnostics with eventsConsumed := 0 }

theorem Called.SameRead.symm {c c' : Called (List Batch × Option ReadFailure)}
    (h : c.SameRead c') : c'.SameRead c :=
  ⟨h.result.symm, h.conflictLines.symm, h.diagnostics.symm⟩

theorem Called.SameRead.trans {c c' c'' : Called (List Batch × Option ReadFailure)}
    (h : c.SameRead c') (h' : c'.SameRead c'') : c.SameRead c'' :=
  ⟨h.result.trans h'.result, h.conflictLines.trans h'.conflictLines,
    h.diagnostics.trans h'.diagnostics⟩

namespace Reader

/-- **A reader reads the core of a nested stream**, as a reader with rows as the outermost elements
does. -/
theorem rest_core (h : o.Valid) (hn : Event.Nested [] events) (ending : Ending) :
    (start o ⟨events, ending⟩).rest.SameRead
      (start o.raised ⟨Event.core o.dataLevel 0 events, ending⟩).rest := by
  have hb : 0 < o.batchSize := h.one_le_batchSize
  by_cases hl : o.limit = some 0
  · rw [rest_of_limit_zero hl, rest_of_limit_zero (o := o.raised) hl]
    exact ⟨rfl, rfl, rfl⟩
  have hagree : (Tabular.passage o ending events 0 {}).Agree
      (Tabular.passage o.raised ending (Event.core o.dataLevel 0 events) 0 {}) :=
    passage_core (Scan.aligned_empty h.levels_valid.one_le) (Event.nested_iff_openAfter.mp hn) 0
  have hwindows : windows o.raised = windows o := by
    funext index schema rows
    exact windows_congr (by rfl) (by rfl) (by rfl) index schema rows
  have hconflicts : windowConflicts o.raised = windowConflicts o := by
    funext schema rows
    exact windowConflicts_congr (by rfl) (by rfl) (by rfl) schema rows
  have hresult : (start o ⟨events, ending⟩).rest.result =
      (start o.raised ⟨Event.core o.dataLevel 0 events, ending⟩).rest.result := by
    rw [result_rest hb hl, result_rest (o := o.raised) hb hl, hwindows, hagree.halt,
      hagree.toAlike.handedOut]
    rfl
  refine ⟨hresult, ?_, ?_⟩
  · rw [conflictLines_rest hb hl, conflictLines_rest (o := o.raised) hb hl, hconflicts, hagree.rows]
    rfl
  · rw [diagnostics_rest hb hl, diagnostics_rest (o := o.raised) hb hl, hresult, hconflicts,
      hagree.rows]
    exact congrArg (fun d : Diagnostics => { d with
      batchesEmitted :=
        (start o.raised ⟨Event.core o.dataLevel 0 events, ending⟩).rest.result.1.length })
      (hagree.diagnostics _)

/-- **What stands above the rows is not read.** A nested stream inside one more element, with further
texts around the element and around the outermost ones of the stream, gives what the stream gives
where rows are one level higher; and so does a stream that differs above the rows only. -/
theorem rest_deeper (h : o.Valid) (hn : Event.Nested [] events) (ending : Ending) :
    (∀ inside before after name attributes, Event.Interspersed 0 events inside →
      (start o.deeper ⟨Event.wrapped before after name attributes inside, ending⟩).rest.SameRead
        (start o ⟨events, ending⟩).rest) ∧
      ∀ events', Event.Nested [] events' → Event.Reworded o.dataLevel 0 events events' →
        (start o ⟨events', ending⟩).rest.SameRead (start o ⟨events, ending⟩).rest := by
  have hone : 1 ≤ o.dataLevel := h.levels_valid.one_le
  have hcore := rest_core h hn ending
  refine ⟨fun inside before after name attributes hi => ?_, fun events' hn' hr => ?_⟩
  · have hwrapped := rest_core h.deeper
      (Event.nested_wrapped (hi.nested hn rfl) before after name attributes) ending
    rw [ReaderOptions.raised_deeper hone, show o.deeper.dataLevel = o.dataLevel + 1 from rfl,
      Event.core_wrapped hn hi hone] at hwrapped
    exact hwrapped.trans hcore.symm
  · have hreworded := rest_core h hn' ending
    rw [← hr.core_eq] at hreworded
    exact hreworded.trans hcore.symm

/-- Fields are flattened, and the row elements stand between texts; what is around them comes under
another name, with an attribute and with other texts. -/
theorem rest_deeper_flattened :
    let o : ReaderOptions := { flattenLevel := some 2, batchSize := 1 }
    let first : List Event :=
      [.start "r" [("k", "v")], .start "x" [], .start "y" [], .text "1", .finish "y", .finish "x",
        .finish "r"]
    let second : List Event := [.start "s" [], .start "z" [], .finish "z", .finish "s"]
    let events := .start "t" [] :: first ++ .text "-" :: second ++ [.finish "t"]
    let inside := .text "." :: events ++ [.text "."]
    let events' := .start "u" [("k", "w")] :: .text "+" :: first ++ second ++ [.text "+", .finish ""]
    let c := (start o ⟨events, .complete⟩).rest
    (o.Valid ∧ Event.Nested [] events ∧ Event.Interspersed 0 events inside ∧
        Event.Nested [] events' ∧ Event.Reworded o.dataLevel 0 events events') ∧
      (c.result.1.map fun batch => batch.schema.columns.map Column.path) =
        [[["attributes"], ["attributes", "k"], ["y"]], [["attributes"], ["z"]]] ∧
      (start o.deeper ⟨Event.wrapped ["a", "b"] ["c"] "w" [("k", "v")] inside,
        .complete⟩).rest.SameRead c ∧
      (start o ⟨events', .complete⟩).rest.SameRead c := by
  intro o first second events inside events' c
  have hvalid : o.Valid := ⟨⟨by decide, by simp [o, ReaderOptions.levels]⟩, by decide⟩
  have hnested : Event.Nested [] events := Event.nested_iff_openAfter.mpr rfl
  have hinside : Event.Interspersed 0 events inside := by
    refine .more ?_
    iterate 14 refine .event ?_
    exact .more .nil
  have hnested' : Event.Nested [] events' := Event.nested_iff_openAfter.mpr rfl
  have hreworded : Event.Reworded o.dataLevel 0 events events' := by
    refine .start (by decide) (.more (by decide) ?_)
    iterate 7 refine .kept (by decide) ?_
    refine .less (by decide) ?_
    iterate 4 refine .kept (by decide) ?_
    exact .more (by decide) (.finish (by decide) .nil)
  obtain ⟨hdeeper, hrenamed⟩ := rest_deeper hvalid hnested .complete
  refine ⟨⟨hvalid, hnested, hinside, hnested', hreworded⟩, ?_,
    hdeeper inside _ _ _ _ hinside, hrenamed events' hnested' hreworded⟩
  decide +kernel

end Reader

end Tabular
