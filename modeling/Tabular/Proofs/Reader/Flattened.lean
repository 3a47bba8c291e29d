import Tabular.Proofs.Reader.Together
import Tabular.Proofs.Schema.Single
import Tabular.Proofs.Tree.Repeat

/-!
# Flattened columns under a projection

A reader for some columns of the row element, and one for every column. Where nested elements are
left out, a repeat is skipped by the one and passed through by the other, and texts inside it are
seen by the latter only.

* `Scan.Unskipped`, `settledAlong_of_flat`: where every field is flattened, nothing is skipped;
* `Batch.SameColumns`, **`Together.sameColumns`**: a pair of batches with the same columns;
* `KeepsColumns`: the sources over which the readers agree;
* `exists_skipped_text`, `exists_unasked_number`: streams that tell the readers apart;
* **`rest_sameColumns`**: the options under which the columns are the same for all nested streams.
-/

namespace Tabular

variable {o : ReaderOptions} {p : Projection}

/-! ## Where every field is flattened -/

namespace Scan

/-- A row stands at its depth, and none of its open elements is skipped. -/
def Unskipped (o : ReaderOptions) (s : Scan) : Prop :=
  ∀ r, s.builder.row = some r → s.skipDepth = none ∧
    s.openTags.length = o.dataLevel + r.outer.length ∧
      ∀ f ∈ r.innermost :: r.outer, f.role ≠ .skipped

variable {s s' : Scan}

theorem unskipped_of_none (h : s.builder.row = none) : Unskipped o s := by
  intro r hr
  rw [h] at hr
  cases hr

theorem unskipped_start (hf : o.flattenLevel = some o.dataLevel) (h : Unskipped o s) (name : String)
    (attributes : Entries String) : Unskipped o (s.start o name attributes) := by
  cases hrow : s.builder.row with
  | none =>
    cases hs : s.skipDepth with
    | some d =>
      rw [start_of_skipping (by rw [hs]; rfl)]
      exact unskipped_of_none hrow
    | none =>
      rw [start_of_place hs]
      cases hp : o.levels.place (s.openTags.length + 1) name with
      | outside => exact unskipped_of_none hrow
      | skipped => exact unskipped_of_none hrow
      | structural => exact unskipped_of_none (by simp only [Builder.startChild, hrow])
      | flattened => exact unskipped_of_none (by simp only [Builder.startChild, hrow])
      | rowStart =>
        intro r hr
        cases hr
        refine ⟨hs, ?_, fun f hmem => ?_⟩
        · exact length_of_rowStart hp
        · rw [List.mem_singleton.mp hmem]
          simp
  | some r =>
    obtain ⟨hs, hlen, hroles⟩ := h r hrow
    have hflat : o.isFlattened (s.openTags.length + 1) = true := by
      rw [ReaderOptions.isFlattened, hf]
      exact decide_eq_true (by omega)
    have hr := hroles _ List.mem_cons_self
    rw [start_inside hs (by omega), hflat]
    intro q hq
    simp only [Builder.startChild, hrow, Option.some.injEq] at hq
    rw [← hq, OpenRow.startChild_flattened hr, OpenRow.startFlattened_fst]
    refine ⟨hs, ?_, fun f hmem => ?_⟩
    · simp only [opening, OpenRow.push, List.length_cons]
      omega
    · rcases List.mem_cons.mp hmem with rfl | hmem
      · exact fun hrole => by cases hrole
      · rcases List.mem_cons.mp hmem with rfl | hmem
        · exact hr
        · exact hroles f (List.mem_cons_of_mem _ hmem)

theorem unskipped_text (h : Unskipped o s) (value : String) : Unskipped o (s.text value) := by
  unfold text
  split
  · exact h
  · intro q hq
    obtain ⟨r, hr, rfl⟩ := Option.map_eq_some_iff.mp hq
    obtain ⟨hs, hlen, hroles⟩ := h r hr
    refine ⟨hs, by rw [OpenRow.outer_text]; exact hlen, fun f hmem => ?_⟩
    rw [OpenRow.outer_text] at hmem
    rcases List.mem_cons.mp hmem with rfl | hmem
    · have hrole := hroles _ List.mem_cons_self
      unfold OpenRow.text
      split <;> exact hrole
    · exact hroles f (List.mem_cons_of_mem _ hmem)

theorem unskipped_feed (hf : o.flattenLevel = some o.dataLevel) (h : Unskipped o s) {event : Event}
    {row? : Option Row} (hfeed : s.feed o event = .ok (s', row?)) : Unskipped o s' := by
  cases event with
  | start name attributes =>
    cases hfeed
    exact unskipped_start hf h name attributes
  | text value =>
    cases hfeed
    exact unskipped_text h value
  | finish name =>
    rw [feed] at hfeed
    split at hfeed
    · cases hfeed
    · next opened rest htags =>
      split at hfeed
      · cases hrow : s.builder.row with
        | none =>
          cases hs : s.skipDepth with
          | some d =>
            simp only [close, hs] at hfeed
            split at hfeed <;> cases hfeed <;> exact unskipped_of_none hrow
          | none =>
            simp only [close, hs, Builder.finish_of_none hrow] at hfeed
            cases hfeed
            exact unskipped_of_none hrow
        | some r =>
          obtain ⟨hs, hlen, hroles⟩ := h r hrow
          by_cases hout : r.outer = []
          · simp only [close, hs, Builder.finish_of_row hrow hout] at hfeed
            cases hfeed
            exact unskipped_of_none rfl
          · simp only [close, hs, Builder.finish_of_inside hrow hout] at hfeed
            cases hfeed
            intro q hq
            obtain ⟨frame, outer, hcons⟩ := List.exists_cons_of_ne_nil hout
            simp only [OpenRow.leave, hcons, Option.some.injEq] at hq
            subst hq
            rw [htags, hcons, List.length_cons, List.length_cons] at hlen
            refine ⟨rfl, by simp only; omega, fun f hmem => hroles f ?_⟩
            rw [hcons]
            exact List.mem_cons_of_mem _ hmem
      · cases hfeed

theorem unskipped_run (hf : o.flattenLevel = some o.dataLevel) {events : List Event}
    {rows : List Row} (h : Unskipped o s) (hr : s.run o events = .ok (s', rows)) :
    Unskipped o s' := by
  induction events generalizing s rows with
  | nil =>
    cases hr
    exact h
  | cons event rest ih =>
    obtain ⟨s₁, row?, rows₂, hfeed, hrest, rfl⟩ := run_cons_eq_ok hr
    exact ih (unskipped_feed hf h hfeed) hrest

end Scan

/-- **Where every field is flattened there is nothing that only the narrow reading sees.** -/
theorem settledAlong_of_flat (hf : o.flattenLevel = some o.dataLevel) (events : List Event) :
    SettledAlong o p {} events := by
  intro before name after s rows _ hrun r hr above leaf hrole
  have h := Scan.unskipped_run (o := o.projected .all) hf
    (Scan.unskipped_of_none (s := {}) rfl) hrun
  exact absurd hrole ((h r hr).2.2 _ List.mem_cons_self)

/-! ## Pairs of columns -/

/-- The narrow batch has the same rows, and the same columns under some names. -/
structure Batch.SameColumns (names : List String) (wide narrow : Batch) : Prop where
  size : narrow.size = wide.size
  column : ∀ name ∈ names, narrow.column [name] = wide.column [name]

namespace Shape

variable {ss : List Shape} {name : String} {names : List String}

/-- A value that a shape takes out of a record is at its name. -/
theorem pad_congr {rows : Nat} {above : Path} (s : Shape) {es es' : Entries Value}
    (h : Entries.get? s.name es = Entries.get? s.name es') :
    Branch.pad es (branchIn rows above s) = Branch.pad es' (branchIn rows above s) := by
  cases s with
  | scalar n k =>
    rw [Shape.name] at h
    rw [pad_scalar, pad_scalar, h]
  | map n k inner =>
    rw [Shape.name] at h
    rw [pad_map, pad_map, h]

theorem thinIn_ofNames {s : Shape} (h : s.name ∈ names) :
    thinIn (Projection.ofNames names).admits s = s := by
  cases s with
  | scalar n k => rfl
  | map n k inner =>
    exact congrArg (Shape.map n k) (thin_eq_self (fun _ _ => Projection.admits_ofNames.mpr h) inner)

end Shape

theorem get?_thinEntries_ofNames {names : List String} {name : String} (h : name ∈ names)
    (es : Entries Value) :
    Entries.get? name (Value.thinEntries (Projection.ofNames names).admits es) =
      Entries.get? name es := by
  rw [Value.get?_thinEntries (Projection.admits_ofNames.mpr h)]
  cases Entries.get? name es with
  | none => rfl
  | some v => exact congrArg some (Value.thin_eq_self (fun _ _ => Projection.admits_ofNames.mpr h) v)

/-- **A pair of batches with the same columns.** -/
theorem RowSchema.Together.sameColumns {names : List String} {w n : RowSchema}
    {records : List (Entries Value)} (h : Together (.ofNames names) w n records) (index : Nat) :
    Batch.SameColumns names (Batch.ofRecords w.snapshot records index)
      (Batch.ofRecords n.snapshot
        (records.map (Value.thinEntries (Projection.ofNames names).admits)) index) := by
  refine ⟨?_, fun name hname => ?_⟩
  · rw [size_ofRecords, size_ofRecords, List.length_map]
  · rw [column_ofRecords h.distinctNarrow, column_ofRecords h.distinctWide, List.map_map]
    refine List.map_congr_left fun record hr => ?_
    have hheld : Shape.named? name n.held = some ((Shape.named? name w.shapes).getD
        (.scalar name 0)) := by
      rw [held, h.columns]
      refine (Shape.named?_foldl_hold name names n.shapes).trans ?_
      rw [if_pos hname, h.shapes, Shape.named?_thin (Projection.admits_ofNames.mpr hname)]
      cases hs : Shape.named? name w.shapes with
      | none => rfl
      | some s =>
        rw [Option.map_some, Shape.thinIn_ofNames (by rw [Shape.name_of_named? hs]; exact hname)]
    have hget := get?_thinEntries_ofNames hname record
    show (Entries.get? name (Snapshot.padWith (Shape.branches n.rows [] n.held) _)).getD Value.null =
      (Entries.get? name (Snapshot.padWith (Shape.branches w.rows [] w.held) _)).getD Value.null
    rw [Shape.get?_padWith (distinct_held h.distinctNarrow),
      Shape.get?_padWith (distinct_held h.distinctWide), h.held_wide, hheld, h.rows]
    cases hs : Shape.named? name w.shapes with
    | some s =>
      rw [Option.getD_some, Option.map_some, Option.map_some, Shape.pad_congr s]
      rw [Shape.name_of_named? hs]
      exact hget
    | none =>
      have hnull := h.fits record hr [name] (List.cons_ne_nil _ _)
        (Shape.kindAt_of_named?_none hs [])
      rw [Option.getD_none, Option.map_some, Shape.pad_scalar, hget]
      rw [show (Entries.get? name record).getD .null = .null from hnull]
      rfl

/-! ## Streams that tell the readers apart -/

/-- The batches of a stream with one row. -/
theorem rest_single (hv : o.Valid) (hl : o.limit ≠ some 0) {items : List Item}
    {events : List Event} {e : Element} (h : Spells items events) (he : o.rowElements items = [e]) :
    (Reader.start o ⟨events, .complete⟩).rest.result.1 =
      [RowSchema.single o.projection (e.toRow o 0) 0] := by
  rw [rest_spells hv h, emitted_singleton hl he]
  exact windows_of_length_le (List.cons_ne_nil (e.toRow o 0) []) hv.one_le_batchSize

theorem valid_projected_all (hv : o.Valid) : (o.projected .all).Valid :=
  ⟨hv.levels_valid, hv.one_le_batchSize⟩

/-- A reader for some columns shows in them what a reader for every column shows. -/
def KeepsColumns (o : ReaderOptions) (names : List String) (source : EventSource) : Prop :=
  List.Forall₂ (Batch.SameColumns names)
    (Reader.start { o with projection := .all } source).rest.result.1
    (Reader.start o source).rest.result.1

/-- Two readers tell a column of the only row apart. -/
theorem not_keepsColumns (hv : o.Valid) {names : List String} (hp : o.projection = .ofNames names)
    (hl : o.limit ≠ some 0) {items : List Item} {events : List Event} {e : Element}
    (h : Spells items events) (he : o.rowElements items = [e]) {name : String}
    (hname : name ∈ names)
    (hdiff : (RowSchema.single (.ofNames names) (e.toRow o 0) 0).column [name] ≠
      (RowSchema.single .all (e.toRow (o.projected .all) 0) 0).column [name]) :
    ¬ KeepsColumns o names ⟨events, .complete⟩ := by
  have hwide : (Reader.start { o with projection := .all } ⟨events, .complete⟩).rest.result.1 =
      [RowSchema.single .all (e.toRow (o.projected .all) 0) 0] :=
    rest_single (valid_projected_all hv) hl h he
  have hnarrow := rest_single hv hl h he
  rw [hp] at hnarrow
  intro hkeeps
  rw [KeepsColumns, hwide, hnarrow, List.forall₂_cons] at hkeeps
  exact hdiff (hkeeps.1.column name hname)

/-- There is such a stream for every content of the row. -/
theorem exists_not_keepsColumns (hv : o.Valid) {names : List String}
    (hp : o.projection = .ofNames names) (hl : o.limit ≠ some 0) (content : List Item)
    {name : String} (hname : name ∈ names)
    (hdiff : ∀ e : Element, e.content = content →
      (RowSchema.single (.ofNames names) (e.toRow o 0) 0).column [name] ≠
        (RowSchema.single .all (e.toRow (o.projected .all) 0) 0).column [name]) :
    ∃ events, Event.Nested [] events ∧ ¬ KeepsColumns o names ⟨events, .complete⟩ := by
  obtain ⟨items, events, hs, he⟩ := exists_stream (e := ⟨o.rowName, [], content⟩)
    (isRowName_rowName o)
  exact ⟨events, nested_iff_spells.mpr ⟨items, hs⟩,
    not_keepsColumns hv hp hl hs he hname (hdiff _ rfl)⟩

/-- A name that is not among some others. -/
theorem exists_fresh (names : List String) : ∃ name, name ∉ names ∧ name ≠ attributesName := by
  obtain ⟨n, _, _, hfree, _⟩ := freeName_spec "x" (names.map fun name => .scalar name 0 none)
  refine ⟨numberedName "x" n, fun hmem => ?_, numberedName_ne_attributes "x" n⟩
  rw [Field.named?_eq_none, List.map_map] at hfree
  exact hfree (List.mem_map.mpr ⟨_, hmem, rfl⟩)

theorem cleaned_two : cleaned "2" = some "2" := by
  decide

/-- **A text inside a repeat**: the wide reader skips it with the repeat. -/
theorem column_twice_ne {names : List String} (hp : o.projection = .ofNames names) {count : Nat}
    (hf : o.flattenLevel = some (o.dataLevel + 1 + count)) {leaf name : String} (hmem : leaf ∈ names)
    (hleaf : leaf ≠ attributesName) (hname : name ∉ names) (hattr : name ≠ attributesName)
    {e : Element} (hc : e.content = Item.twice name count (.leaf leaf "2")) :
    (RowSchema.single (.ofNames names) (e.toRow o 0) 0).column [leaf] ≠
      (RowSchema.single .all (e.toRow (o.projected .all) 0) 0).column [leaf] := by
  have hflat : ∀ n, o.isFlattened n = decide (o.dataLevel + 1 + count < n) := fun n => by
    rw [ReaderOptions.isFlattened, hf]
  have hwide : (e.toRow (o.projected .all) 0).fields = [.scalar name 1 (cleaned "")] := by
    show (OpenRow.read _ o.dataLevel e.content _).1.draft.fields = _
    rw [hc]
    exact OpenRow.fields_twice_wide (o := o.projected .all)
      ((hflat _).trans (decide_eq_false (by omega))) rfl rfl rfl hattr rfl count _
  have hnarrow : (e.toRow o 0).fields = [.scalar leaf 1 (cleaned "2")] := by
    show (OpenRow.read o o.dataLevel e.content _).1.draft.fields = _
    rw [hc]
    refine OpenRow.fields_twice_narrow (fun n hle => (hflat n).trans (decide_eq_false (by omega)))
      ((hflat _).trans (decide_eq_true (by omega))) rfl rfl rfl hattr ?_ hleaf ?_ "2"
    · rw [hp, Bool.eq_false_iff, ne_eq, Projection.admits_ofNames]
      exact hname
    · rw [hp, Projection.admits_ofNames]
      exact hmem
  have htext : Field.named? leaf (e.toRow o 0).fields = some (.scalar leaf 1 (some "2")) := by
    rw [hnarrow, cleaned_two, Field.named?_cons]
    exact if_pos rfl
  have hnone : Field.named? leaf (e.toRow (o.projected .all) 0).fields = none := by
    rw [hwide, Field.named?_cons, if_neg]
    · rfl
    · rintro rfl
      exact hname hmem
  rw [RowSchema.column_single_of_text (by rw [hnarrow]; simp) hleaf htext,
    RowSchema.column_single_of_none (by rw [hwide]; simp) hleaf hnone]
  simp

theorem exists_skipped_text (hv : o.Valid) {names : List String} (hp : o.projection = .ofNames names)
    (hn : attributesName ∉ names) (hne : names ≠ []) (hl : o.limit ≠ some 0) {f : Nat}
    (hf : o.flattenLevel = some f) (hlt : o.dataLevel < f) :
    ∃ events, Event.Nested [] events ∧ ¬ KeepsColumns o names ⟨events, .complete⟩ := by
  obtain ⟨leaf, rest, rfl⟩ := List.exists_cons_of_ne_nil hne
  obtain ⟨count, rfl⟩ : ∃ count, f = o.dataLevel + 1 + count := ⟨f - o.dataLevel - 1, by omega⟩
  obtain ⟨name, hname, hattr⟩ := exists_fresh (leaf :: rest)
  have hleaf : leaf ≠ attributesName := fun h => hn (h ▸ List.mem_cons_self)
  exact exists_not_keepsColumns hv hp hl _ List.mem_cons_self
    fun e hc => column_twice_ne hp hf List.mem_cons_self hleaf hname hattr hc

/-- A row of every column numbers as many texts as there are. -/
theorem named?_numbered_wide (hf : o.isFlattened (o.dataLevel + 1) = true)
    (hnum : o.flattenCollision = .number) {name : String} (hattr : name ≠ attributesName)
    {more : Nat} (hmore : 2 ≤ more + 1) {e : Element}
    (hc : e.content = List.replicate (more + 1) (.leaf name "2")) :
    ((e.toRow (o.projected .all) 0).fields.map Field.name).Nodup ∧ ∃ handle,
      Field.named? (numberedName name (more + 1)) (e.toRow (o.projected .all) 0).fields =
        some (.scalar (numberedName name (more + 1)) handle (some "2")) := by
  have hread := OpenRow.read_leaves (o := o.projected .all)
    (p := (e.opened (o.projected .all), {})) hf rfl rfl name "2" (more + 1)
  have hfirst : Draft.NumberedTo name (cleaned "2") 1
      ((e.opened (o.projected .all)).draft.put (o.projected .all) name (cleaned "2")) :=
    Draft.numberedTo_put_first hattr rfl rfl
  have hto := hfirst.putMany (Nat.le_refl 1) (o := o.projected .all) hnum hattr (fun _ => rfl) more
  have hfields : (e.toRow (o.projected .all) 0).fields =
      (((e.opened (o.projected .all)).draft.put (o.projected .all) name (cleaned "2")).putMany
        (o.projected .all) name (cleaned "2") more).fields := by
    show (OpenRow.read _ o.dataLevel e.content _).1.draft.fields = _
    rw [hc]
    exact congrArg Draft.fields hread
  rw [hfields, ← cleaned_two]
  exact ⟨hto.nodup, hto.taken (more + 1) hmore (by omega)⟩

/-- A row of some columns gets no further than to a number that was not asked for. -/
theorem named?_numbered_narrow (hf : o.isFlattened (o.dataLevel + 1) = true)
    (hnum : o.flattenCollision = .number) {name : String} (hattr : name ≠ attributesName)
    {n : Nat} (hn : 2 ≤ n) (hmissing : o.projection.admits [name] = true →
      ∃ j, 2 ≤ j ∧ j < n ∧ ¬ o.projection.admits [numberedName name j] = true) {e : Element}
    (hc : e.content = List.replicate n (.leaf name "2")) :
    ((e.toRow o 0).fields.map Field.name).Nodup ∧
      Field.named? (numberedName name n) (e.toRow o 0).fields = none := by
  have hread := OpenRow.read_leaves (o := o) (p := (e.opened o, {})) hf rfl rfl name "2" n
  have hempty : Draft.NumbersAsked o.projection name (e.opened o).draft :=
    Draft.numbersAsked_of_empty rfl
  have hasked : Draft.NumbersAsked o.projection name
      ((e.opened o).draft.putMany o name (cleaned "2") n) :=
    hempty.putMany hnum hattr n
  have hfields : (e.toRow o 0).fields =
      ((e.opened o).draft.putMany o name (cleaned "2") n).fields := by
    show (OpenRow.read o o.dataLevel e.content _).1.draft.fields = _
    rw [hc]
    exact congrArg Draft.fields hread
  rw [hfields]
  refine ⟨hasked.nodup, ?_⟩
  -- a number before it that is not asked for would have to be there
  rw [← Option.not_isSome_iff_eq_none]
  intro hsome
  obtain ⟨hbase, _, hbelow⟩ := hasked.asked n hn hsome
  obtain ⟨j, hj, hlt, hno⟩ := hmissing hbase
  exact hno (hasked.asked j hj (hbelow j hj hlt)).2.1

/-- **A numbered column without those before it**: the wide reader fills them all. -/
theorem exists_unasked_number (hv : o.Valid) {names : List String}
    (hp : o.projection = .ofNames names) (hl : o.limit ≠ some 0)
    (hf : o.flattenLevel = some o.dataLevel) (hnum : o.flattenCollision = .number)
    (hh : ¬ o.projection.HoldsNumbers) :
    ∃ events, Event.Nested [] events ∧ ¬ KeepsColumns o names ⟨events, .complete⟩ := by
  unfold Projection.HoldsNumbers at hh
  push Not at hh
  obtain ⟨name, n, hn, hattr, hask, hmissing⟩ := hh
  have hflat : o.isFlattened (o.dataLevel + 1) = true := by
    rw [ReaderOptions.isFlattened, hf]
    exact decide_eq_true (by omega)
  have hmem : numberedName name n ∈ names := by
    rw [hp, Projection.admits_ofNames] at hask
    exact hask
  refine exists_not_keepsColumns hv hp hl (List.replicate n (.leaf name "2")) hmem fun e hc => ?_
  obtain ⟨more, rfl⟩ : ∃ more, n = more + 1 := ⟨n - 1, by omega⟩
  obtain ⟨hnodup, handle, hsome⟩ := named?_numbered_wide hflat hnum hattr hn hc
  obtain ⟨hnodup', hnone⟩ := named?_numbered_narrow hflat hnum hattr hn hmissing hc
  rw [RowSchema.column_single_of_none hnodup' (numberedName_ne_attributes _ _) hnone,
    RowSchema.column_single_of_text hnodup (numberedName_ne_attributes _ _) hsome]
  simp

/-! ## Whole readings -/

theorem keepsColumns_of_settledAlong (hv : o.Valid) {names : List String}
    (hp : o.projection = .ofNames names) (hn : attributesName ∉ names)
    (hh : o.flattenCollision = .number → o.projection.HoldsNumbers) (source : EventSource)
    (hs : SettledAlong o o.projection {} source.events) : KeepsColumns o names source := by
  have hwants : (Projection.ofNames names).wantsAttributes = false := by
    rw [Bool.eq_false_iff]
    exact fun hw => hn (Projection.admits_ofNames.mp hw)
  have ho : o.Narrows (.ofNames names) := ⟨Or.inr hwants, fun _ hnum => hp ▸ hh hnum⟩
  have hsame : o.projected (.ofNames names) = o := by
    rw [ReaderOptions.projected, ← hp]
  rw [hp] at hs
  have h := (rest_together (fun _ _ _ index h => h.sameColumns index) ho hv.levels_valid.one_le
    hv.one_le_batchSize source hs).2
  rwa [hsame] at h

/-- **Flattened columns under a projection.** A reader for some columns shows in them what a reader
for every column shows, as long as no text matters that the latter skips with a repeat. That is so
for all nested streams just if every field is flattened, and a numbered column is asked for
together with those before it, where there is a column at all. -/
theorem rest_sameColumns (hv : o.Valid) {names : List String} (hp : o.projection = .ofNames names)
    (hn : attributesName ∉ names) (hl : o.limit ≠ some 0) {f : Nat} (hf : o.flattenLevel = some f) :
    ((o.flattenCollision = .number → o.projection.HoldsNumbers) → ∀ source : EventSource,
        SettledAlong o o.projection {} source.events → KeepsColumns o names source) ∧
      (names ≠ [] →
        ((∀ events, Event.Nested [] events → KeepsColumns o names ⟨events, .complete⟩) ↔
          f = o.dataLevel ∧ (o.flattenCollision = .number → o.projection.HoldsNumbers))) := by
  refine ⟨fun hh source hs => keepsColumns_of_settledAlong hv hp hn hh source hs,
    fun hne => ⟨fun hall => ?_, fun ⟨hflat, hh⟩ events _ => ?_⟩⟩
  · have hle : o.dataLevel ≤ f := hv.levels_valid.le_flatten f hf
    have hflat : f = o.dataLevel := by
      rcases Nat.lt_or_eq_of_le hle with hlt | heq
      · obtain ⟨events, hnested, hdiff⟩ := exists_skipped_text hv hp hn hne hl hf hlt
        exact absurd (hall events hnested) hdiff
      · exact heq.symm
    refine ⟨hflat, fun hnum => ?_⟩
    by_contra hh
    obtain ⟨events, hnested, hdiff⟩ := exists_unasked_number hv hp hl (hflat ▸ hf) hnum hh
    exact hdiff (hall events hnested)
  · exact keepsColumns_of_settledAlong hv hp hn hh _
      (settledAlong_of_flat (by rw [hf, hflat]) events)

/-- Some columns of rows whose fields are all flattened. -/
theorem rest_sameColumns_flat :
    let o : ReaderOptions := { flattenLevel := some 2, projection := .ofNames ["a", "b"] }
    ∀ events, Event.Nested [] events → KeepsColumns o ["a", "b"] ⟨events, .complete⟩ :=
  ((rest_sameColumns ⟨⟨by decide, by simp [ReaderOptions.levels]⟩, by decide⟩ rfl (by decide)
    (by decide) rfl).2 (by decide)).mpr ⟨rfl, fun h => by cases h⟩

/-- A text in the second of two elements with the same name. -/
theorem not_keepsColumns_repeat :
    let o : ReaderOptions := { flattenLevel := some 3, projection := .ofNames ["a"] }
    let events : List Event :=
      [.start "t" [], .start "r" [], .start "x" [], .finish "x", .start "x" [], .start "a" [],
        .text "2", .finish "a", .finish "x", .finish "r", .finish "t"]
    o.Valid ∧ Event.Nested [] events ∧ ¬ KeepsColumns o ["a"] ⟨events, .complete⟩ := by
  intro o events
  have hv : o.Valid := ⟨⟨by decide, by simp [o, ReaderOptions.levels]⟩, by decide⟩
  have hs : Spells [.element "t" [] [.element "r" [] (Item.twice "x" 0 (.leaf "a" "2"))]] events :=
    spells_events _
  refine ⟨hv, nested_iff_spells.mpr ⟨_, hs⟩, ?_⟩
  exact not_keepsColumns hv rfl (by decide) hs rfl (List.mem_singleton_self "a")
    (column_twice_ne rfl rfl (List.mem_singleton_self "a") (by decide) (by decide) (by decide) rfl)

end Tabular
