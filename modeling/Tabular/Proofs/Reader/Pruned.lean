import Tabular.Proofs.Column.Keep
import Tabular.Proofs.Reader.Sealed

/-!
# Inside pruned elements

What leads to a column that is asked for, or lies below one, is read; everything else is pruned, and
inside a pruned element the projection is not asked again.

* `Projection.ancestors`, `Projection.answer`, `admits_columns`: the answer from two sets of paths;
* **`admits_ofPaths_iff`**: a path is admitted if it leads to a request or a request leads to it;
* `OpenRow.places`, `OpenRow.Opens`, `places_startChild`: the open elements of a row with their roles
  and paths, and what a child adds to them;
* `Placed`, `placed_start`, `placed_text`, `placed_close`, **`placed_run`**: the open elements of
  a row stand at the paths of their names, and nothing inside a pruned one is admitted;
* **`Projection.admits_pruned`**: admission is comparability of paths, and pruning loses no field.
-/

namespace Tabular

/-! ## Admission -/

namespace Projection

variable {requests : List Path} {path : Path}

/-- The non-empty paths that lead to a request, each request included. -/
def ancestors (requests : List Path) : List Path :=
  requests.flatMap fun r => (List.range' 1 r.length).map fun n => r.take n

/-- The answer from two sets: the path leads to a request, or a request leads to it and is neither
empty nor the path itself. -/
def answer (requests : List Path) (path : Path) : Bool :=
  (ancestors requests).contains path ||
    (List.range' 1 (path.length - 1)).any fun n => requests.contains (path.take n)

theorem mem_ancestors_iff : path ∈ ancestors requests ↔ ∃ r ∈ requests, leadsTo path r = true := by
  unfold ancestors
  simp only [List.mem_flatMap, List.mem_map, List.mem_range'_1, leadsTo_iff]
  constructor
  · rintro ⟨r, hr, n, hn, rfl⟩
    refine ⟨r, hr, ?_, List.take_prefix n r⟩
    apply List.ne_nil_of_length_pos
    rw [List.length_take]
    omega
  · rintro ⟨r, hr, hne, hpre⟩
    have hpos := List.length_pos_iff.mpr hne
    have hle := hpre.length_le
    exact ⟨r, hr, path.length, by omega, (List.prefix_iff_eq_take.mp hpre).symm⟩

theorem any_take_iff : ((List.range' 1 (path.length - 1)).any fun n =>
    requests.contains (path.take n)) = true ↔ ∃ r ∈ requests, liesBelow path r = true := by
  simp only [List.any_eq_true, List.mem_range'_1, List.contains_iff_mem, liesBelow_iff]
  constructor
  · rintro ⟨n, hn, hr⟩
    have hlen : (path.take n).length = n := by
      rw [List.length_take]
      omega
    refine ⟨_, hr, ?_, List.take_prefix n path, by omega⟩
    apply List.ne_nil_of_length_pos
    omega
  · rintro ⟨r, hr, hne, hpre, hlt⟩
    have hpos := List.length_pos_iff.mpr hne
    refine ⟨r.length, by omega, ?_⟩
    rwa [← List.prefix_iff_eq_take.mp hpre]

/-- **The two sets answer as the requests do.** -/
theorem admits_columns (requests : List Path) (path : Path) :
    (columns requests).admits path = answer requests path := by
  rw [Bool.eq_iff_iff, answer, Bool.or_eq_true, List.contains_iff_mem, mem_ancestors_iff,
    any_take_iff, admits_columns_iff]
  simp only [and_or_left, exists_or]

/-- **A path is admitted if it leads to a request or a request leads to it.** -/
theorem admits_ofPaths_iff (hr : ∀ r ∈ requests, r ≠ []) (hp : path ≠ []) :
    (ofPaths requests).admits path = true ↔ ∃ r ∈ requests, r <+: path ∨ path <+: r := by
  rw [ofPaths, admits_columns_iff]
  simp only [List.mem_eraseDups, leadsTo_iff, liesBelow_iff]
  refine exists_congr fun r => and_congr_right fun hmem => ⟨?_, ?_⟩
  · rintro (⟨-, h⟩ | ⟨-, h, -⟩)
    · exact Or.inr h
    · exact Or.inl h
  · rintro (h | h)
    · rcases Nat.lt_or_ge r.length path.length with hlt | hge
      · exact Or.inr ⟨hr r hmem, h, hlt⟩
      · exact Or.inl ⟨hp, (h.eq_of_length_le hge) ▸ List.prefix_refl r⟩
    · exact Or.inl ⟨hp, h⟩

/-- The order of the requests and their repetitions do not matter. -/
theorem admits_ofPaths_congr {requests' : List Path} (h : ∀ r, r ∈ requests' ↔ r ∈ requests)
    (path : Path) : (ofPaths requests').admits path = (ofPaths requests).admits path := by
  rw [Bool.eq_iff_iff, ofPaths, ofPaths, admits_columns_iff, admits_columns_iff]
  simp only [List.mem_eraseDups, h]

end Projection

/-! ## Open elements with their places -/

namespace OpenRow

/-- The open elements of a row, the row element first. -/
def frames (r : OpenRow) : List Frame :=
  (r.innermost :: r.outer).reverse

/-- The role of an open element and its path. -/
def place (frame : Frame) : Role × Path :=
  (frame.role, frame.path)

/-- The roles and the paths of the open elements, the row element first. -/
def places (r : OpenRow) : List (Role × Path) :=
  r.frames.map place

variable {o : ReaderOptions} {r : OpenRow} {t : Tally} {name : String} {flattened : Bool}
  {attributes : Entries String} {inner : Role × Path}

theorem length_places : r.places.length = r.outer.length + 1 := by
  simp [places, frames]

theorem places_getElem? (n : Nat) : r.places[n]? = r.frames[n]?.map place :=
  List.getElem?_map

theorem places_getElem?_outer : r.places[r.outer.length]? = some (place r.innermost) := by
  simp [places, frames]

/-- What an element opens inside one with the role and the path `around`. -/
inductive Opens (o : ReaderOptions) (name : String) (around : Role × Path) :
    Bool → Role × Path → Prop where
  /-- Inside an element that is left out. -/
  | skipped (flattened : Bool) (h : around.1 = .skipped) :
    Opens o name around flattened (.skipped, around.2 ++ [name])
  | flattened (flattened : Bool) (h : flattened = true ∨ around.1 = .flattened) :
    Opens o name around flattened (.flattened, [name])
  /-- Inside a pruned element, without a look at the projection. -/
  | inside (h : around.1 = .pruned) : Opens o name around false (.pruned, around.2 ++ [name])
  | pruned (h : around.1 = .built) (ha : o.projection.admits (around.2 ++ [name]) = false) :
    Opens o name around false (.pruned, around.2 ++ [name])
  /-- A name that is taken, or the attributes column. -/
  | repeated (h : around.1 = .built) : Opens o name around false (.skipped, around.2 ++ [name])
  | built (h : around.1 = .built) : Opens o name around false (.built, around.2 ++ [name])

theorem places_push (frame : Frame) (r : OpenRow) :
    (r.push frame).places = r.places ++ [place frame] := by
  simp [places, frames, push, place]

/-- **A child is added to the open elements**, in a role that follows from the one around it. -/
theorem places_startChild (o : ReaderOptions) (flattened : Bool) (name : String)
    (attributes : Entries String) (r : OpenRow) (t : Tally) :
    ∃ inner, Opens o name (place r.innermost) flattened inner ∧
      (r.startChild o flattened name attributes t).1.places = r.places ++ [inner] := by
  have hflat : (r.startFlattened o name attributes t).1.places =
      r.places ++ [(.flattened, [name])] := by
    rw [startFlattened_fst, places_push]
    rfl
  cases hr : r.innermost.role with
  | skipped =>
    rw [startChild_of_skipped hr, places_push]
    exact ⟨_, .skipped flattened hr, rfl⟩
  | flattened =>
    rw [startChild_of_flattened hr, hflat]
    exact ⟨_, .flattened flattened (Or.inr hr), rfl⟩
  | pruned =>
    cases flattened with
    | true =>
      rw [startChild_flattened (by simp [hr]), hflat]
      exact ⟨_, .flattened true (Or.inl rfl), rfl⟩
    | false =>
      rw [startPruned_fst hr, places_push]
      exact ⟨_, .inside hr, rfl⟩
  | built =>
    cases flattened with
    | true =>
      rw [startChild_flattened (by simp [hr]), hflat]
      exact ⟨_, .flattened true (Or.inl rfl), rfl⟩
    | false =>
      rw [startChild_of_built hr]
      by_cases hp : r.innermost.path ++ [name] = attributesPath
      · rw [startField_reserved hp, places_push]
        exact ⟨_, .repeated hr, rfl⟩
      · cases ha : o.projection.admits (r.innermost.path ++ [name]) with
        | false =>
          rw [startField_pruned hp ha, places_push]
          exact ⟨_, .pruned hr ha, rfl⟩
        | true =>
          cases hi : r.draft.insert r.innermost.path name with
          | none =>
            rw [startField_skipped hp ha hi, places_push]
            exact ⟨_, .repeated hr, rfl⟩
          | some d =>
            rw [startField_built hp ha hi, places_push]
            exact ⟨_, .built hr, rfl⟩

theorem places_text (value : String) : (r.text value).places = r.places := by
  unfold text
  split
  · simp [places, frames, place]
  · simp [places, frames, place]
  · rfl
  · rfl

theorem places_leave (ho : r.outer ≠ []) : (r.leave o t).1.places = r.places.dropLast := by
  obtain ⟨frame, outer, ho⟩ := List.exists_cons_of_ne_nil ho
  simp [places, frames, leave, ho]

end OpenRow

/-! ## The places of the open elements -/

/-- The open elements of a row, inside the elements of some names, each with its role and path. -/
structure Placed (o : ReaderOptions) (names : Path) (places : List (Role × Path)) : Prop where
  length_eq : places.length = names.length + 1
  /-- A nested element stands at the path of the names down to it. -/
  nested : ∀ n role path, places[n]? = some (role, path) →
    o.isFlattened (o.dataLevel + n) = false → role ≠ .flattened ∧ path = names.take n
  /-- A pruned element is nested, and it is not admitted. -/
  pruned : ∀ n path, places[n]? = some (.pruned, path) →
    o.isFlattened (o.dataLevel + n) = false ∧ path ≠ [] ∧ o.projection.admits path = false
  /-- Every nested element inside a pruned one is pruned. -/
  inside : ∀ n path, places[n]? = some (.pruned, path) → ∀ m role path', places[m]? =
    some (role, path') → n ≤ m → o.isFlattened (o.dataLevel + m) = false → role = .pruned

namespace Placed

variable {o : ReaderOptions} {names : Path} {places : List (Role × Path)} {name : String}
  {around inner : Role × Path}

/-- A place is an earlier one, or the last. -/
theorem cases_concat {n : Nat} {place : Role × Path}
    (hn : (places ++ [inner])[n]? = some place) :
    n < places.length ∧ places[n]? = some place ∨ n = places.length ∧ place = inner := by
  rw [List.getElem?_append] at hn
  split at hn
  · next hlt => exact Or.inl ⟨hlt, hn⟩
  · rw [List.getElem?_singleton] at hn
    obtain ⟨hz, he⟩ := Option.ite_none_right_eq_some.mp hn
    exact Or.inr ⟨by omega, (Option.some.inj he).symm⟩

theorem row (o : ReaderOptions) : Placed o [] [(.built, [])] := by
  have hone : ∀ {n : Nat} {place : Role × Path}, [(Role.built, ([] : Path))][n]? = some place →
      place = (.built, []) := by
    intro n place hn
    rw [List.getElem?_singleton] at hn
    exact (Option.some.inj (Option.ite_none_right_eq_some.mp hn).2).symm
  refine ⟨rfl, fun n role path hn _ => ?_, fun n path hn => ?_, fun n path hn => ?_⟩
  · cases hone hn
    simp
  · cases hone hn
  · cases hone hn

/-- Around a nested element everything is nested. -/
theorem nested_around (h : Placed o names places)
    (hf : o.isFlattened (o.dataLevel + places.length) = false) :
    o.isFlattened (o.dataLevel + names.length) = false := by
  rw [h.length_eq] at hf
  exact Bool.eq_false_iff.mpr fun ht => Bool.eq_false_iff.mp hf (isFlattened_succ ht)

/-- A nested element that starts stands at the path of its names. -/
theorem opened (h : Placed o names places) (ha : places[names.length]? = some around)
    (hi : OpenRow.Opens o name around (o.isFlattened (o.dataLevel + places.length)) inner)
    (hf : o.isFlattened (o.dataLevel + places.length) = false) :
    inner.1 ≠ .flattened ∧ inner.2 = names ++ [name] ∧ (around.1 = .pruned → inner.1 = .pruned) ∧
      (inner.1 = .pruned → o.projection.admits inner.2 = false) := by
  obtain ⟨role, path⟩ := around
  obtain ⟨hrole, rfl⟩ := h.nested _ _ _ ha (h.nested_around hf)
  rw [List.take_length] at hi ha
  rw [hf] at hi
  cases hi with
  | skipped _ hr => exact ⟨nofun, rfl, fun hp => by simp_all, nofun⟩
  | flattened _ hr => exact absurd hr (by simpa using hrole)
  | inside hr =>
    cases hr
    -- what lies below a path that is not admitted is not admitted
    obtain ⟨-, hne, hadmit⟩ := h.pruned _ _ ha
    exact ⟨nofun, rfl, fun _ => rfl, fun _ =>
      (Projection.closed_admits o.projection).not_append hne hadmit [name]⟩
  | pruned hr hadmit => exact ⟨nofun, rfl, fun _ => rfl, fun _ => hadmit⟩
  | repeated hr => exact ⟨nofun, rfl, fun hp => by simp_all, nofun⟩
  | built hr => exact ⟨nofun, rfl, fun hp => by simp_all, nofun⟩

/-- A pruned element is opened by a nested one only. -/
theorem not_flattened_of_opens {flattened : Bool} (hi : OpenRow.Opens o name around flattened inner)
    (hp : inner.1 = .pruned) : flattened = false := by
  cases hi with
  | inside | pruned => rfl
  | _ => cases hp

/-- **An element starts** inside the innermost one. -/
theorem opens (h : Placed o names places) (ha : places[names.length]? = some around)
    (hi : OpenRow.Opens o name around (o.isFlattened (o.dataLevel + places.length)) inner) :
    Placed o (names ++ [name]) (places ++ [inner]) := by
  have hlen := h.length_eq
  refine ⟨by simp [hlen], fun n role path hn hf => ?_, fun n path hn => ?_,
    fun n path hn m role path' hm hnm hf => ?_⟩
  · rcases cases_concat hn with ⟨hlt, hn⟩ | ⟨rfl, rfl⟩
    · rw [List.take_append_of_le_length (by omega)]
      exact h.nested n role path hn hf
    · obtain ⟨hrole, hpath, -⟩ := h.opened ha hi hf
      refine ⟨hrole, hpath.trans (List.take_of_length_le ?_).symm⟩
      simp [hlen]
  · rcases cases_concat hn with ⟨-, hn⟩ | ⟨rfl, rfl⟩
    · exact h.pruned n path hn
    · have hf := not_flattened_of_opens hi rfl
      obtain ⟨-, hpath, -, hadmit⟩ := h.opened ha hi hf
      refine ⟨hf, ?_, hadmit rfl⟩
      rintro rfl
      exact List.concat_ne_nil _ _ hpath.symm
  · rcases cases_concat hm with ⟨hlt, hm⟩ | ⟨rfl, rfl⟩
    · rcases cases_concat hn with ⟨-, hn⟩ | ⟨rfl, -⟩
      · exact h.inside n path hn m role path' hm hnm hf
      · exact absurd hlt (by omega)
    · obtain ⟨-, -, hkept, -⟩ := h.opened ha hi hf
      rcases cases_concat hn with ⟨hlt, hn⟩ | ⟨-, hn⟩
      · exact hkept (h.inside n path hn _ _ _ ha (by omega) (h.nested_around hf))
      · exact (Prod.mk.inj hn).1.symm

/-- **The innermost element ends**, and it is not the row element. -/
theorem dropLast (h : Placed o names places) (hn : names ≠ []) :
    Placed o names.dropLast places.dropLast := by
  have hpos := List.length_pos_iff.mpr hn
  have hlen := h.length_eq
  have hget : ∀ {n place}, places.dropLast[n]? = some place →
      n < names.length ∧ places[n]? = some place := by
    intro n place hn
    rw [List.getElem?_dropLast] at hn
    split at hn
    · exact ⟨by omega, hn⟩
    · cases hn
  refine ⟨by rw [List.length_dropLast, List.length_dropLast]; omega, fun n role path hn hf => ?_,
    fun n path hn => h.pruned n path (hget hn).2, fun n path hn m role path' hm =>
      h.inside n path (hget hn).2 m role path' (hget hm).2⟩
  obtain ⟨hlt, hn⟩ := hget hn
  rw [List.dropLast_eq_take, List.take_take, Nat.min_eq_left (by omega)]
  exact h.nested n role path hn hf

end Placed

/-! ## The open elements of a scan -/

namespace Scan

variable {o : ReaderOptions} {s s' : Scan} {events : List Event} {rows : List Row}

/-- The names of the open elements inside the row element. -/
def namesInside (o : ReaderOptions) (s : Scan) : Path :=
  s.openTags.reverse.drop o.dataLevel

/-- The names of the open elements from below the row element down to a depth. -/
def pathTo (o : ReaderOptions) (depth : Nat) (s : Scan) : Path :=
  (s.openTags.reverse.take depth).drop o.dataLevel

/-- What the builder keeps of the open element at a depth, if that is in a row. -/
def frameAt? (o : ReaderOptions) (depth : Nat) (s : Scan) : Option Frame :=
  if depth < o.dataLevel then none
  else s.builder.row.bind fun r => r.frames[depth - o.dataLevel]?

/-- The open elements of the row under construction are in their places. -/
def RowPlaced (o : ReaderOptions) (s : Scan) : Prop :=
  ∀ r, s.builder.row = some r → Placed o (s.namesInside o) r.places

theorem RowPlaced.of_none (h : s.builder.row = none) : s.RowPlaced o := by
  intro r hr
  rw [h] at hr
  cases hr

theorem namesInside_opening (hd : o.dataLevel ≤ s.openTags.length) (name : String) :
    (s.opening name).namesInside o = s.namesInside o ++ [name] := by
  unfold namesInside opening
  rw [List.reverse_cons, List.drop_append_of_le_length (by simpa using hd)]

theorem length_namesInside {r : OpenRow}
    (hd : s.openTags.length = o.dataLevel + r.outer.length) :
    (s.namesInside o).length = r.outer.length := by
  rw [namesInside, List.length_drop, List.length_reverse, hd]
  omega

theorem placed_start (h : s.Steady o) (hp : s.RowPlaced o) (name : String)
    (attributes : Entries String) : (s.start o name attributes).RowPlaced o := by
  cases h with
  | skipping skip row depth =>
    rw [start_of_skipping (by simp [skip])]
    exact .of_none row
  | inside r skip row depth =>
    rw [start_inside skip (by omega)]
    obtain ⟨inner, hopens, hplaces⟩ := OpenRow.places_startChild o
      (o.isFlattened (s.openTags.length + 1)) name attributes r s.builder.tally
    intro q hq
    simp only [Builder.startChild, row, Option.some.injEq] at hq
    subst hq
    rw [hplaces]
    have hlen := length_namesInside depth
    have hinner : r.places[(s.namesInside o).length]? = some (OpenRow.place r.innermost) := by
      rw [hlen]
      exact OpenRow.places_getElem?_outer
    show Placed o ((s.opening name).namesInside o) _
    rw [namesInside_opening (by omega)]
    apply (hp r row).opens hinner
    rwa [OpenRow.length_places, ← Nat.add_assoc, ← depth]
  | outside skip row depth =>
    rw [start_of_place skip]
    by_cases hd : s.openTags.length + 1 = o.dataLevel
    · have hplace : o.levels.place (s.openTags.length + 1) name =
          if o.levels.isRowName name then .rowStart else .skipped := by
        simp [Levels.place, ReaderOptions.levels, hd]
      rw [hplace]
      split
      · exact .of_none row
      · exact .of_none row
      · intro q hq
        cases hq
        have hnames : (s.opening name).namesInside o = [] :=
          List.drop_eq_nil_of_le (by simp [opening, hd])
        show Placed o ((s.opening name).namesInside o) _
        rw [hnames]
        exact .row o
      · next hrow => split at hrow <;> cases hrow
      · next hrow => split at hrow <;> cases hrow
    · have hplace : o.levels.place (s.openTags.length + 1) name = .outside := by
        have hlt : s.openTags.length + 1 < o.dataLevel := by omega
        simp [Levels.place, ReaderOptions.levels, hlt]
      rw [hplace]
      exact .of_none row

theorem placed_text (hp : s.RowPlaced o) (value : String) : (s.text value).RowPlaced o := by
  unfold text
  split
  · exact hp
  · intro q hq
    obtain ⟨r, hr, rfl⟩ := Option.map_eq_some_iff.mp hq
    rw [OpenRow.places_text]
    exact hp r hr

theorem placed_close (h : s.Steady o) (hp : s.RowPlaced o) {opened : String} {rest : List String}
    (ht : s.openTags = opened :: rest) :
    (({ s with openTags := rest } : Scan).close o s.openTags.length).1.RowPlaced o := by
  cases h with
  | outside skip row depth =>
    refine .of_none ?_
    simp only [close, skip, Builder.finish_of_none row, row]
  | skipping skip row depth =>
    refine .of_none ?_
    simp only [close, skip]
    split <;> exact row
  | inside r skip row depth =>
    simp only [close, skip]
    by_cases ho : r.outer = []
    · rw [Builder.finish_of_row row ho]
      exact .of_none rfl
    · rw [Builder.finish_of_inside row ho]
      intro q hq
      cases hq
      rw [OpenRow.places_leave ho]
      have hlen := length_namesInside depth
      have hpos := List.length_pos_iff.mpr ho
      have hnames : s.namesInside o ≠ [] := List.ne_nil_of_length_pos (by omega)
      have hdrop : (s.namesInside o).dropLast = rest.reverse.drop o.dataLevel := by
        have hle : o.dataLevel ≤ rest.length := by
          rw [ht, List.length_cons] at depth
          omega
        rw [namesInside, ht, List.reverse_cons,
          List.drop_append_of_le_length (by simpa using hle), List.dropLast_concat]
      show Placed o (rest.reverse.drop o.dataLevel) _
      rw [← hdrop]
      exact (hp r row).dropLast hnames

/-- **The open elements stay in their places.** -/
theorem placed_feed {event : Event} {row? : Option Row} (h : s.Steady o) (hp : s.RowPlaced o)
    (hf : s.feed o event = .ok (s', row?)) : s'.RowPlaced o := by
  cases event with
  | start name attributes =>
    cases hf
    exact placed_start h hp name attributes
  | text value =>
    cases hf
    exact placed_text hp value
  | finish name =>
    obtain ⟨opened, rest, ht, hclose⟩ := feed_finish hf
    have := placed_close h hp ht
    rwa [hclose] at this

/-- **At every moment of a run the open elements are in their places.** -/
theorem placed_run (h : s.Steady o) (hp : s.RowPlaced o) (hr : s.run o events = .ok (s', rows)) :
    s'.RowPlaced o := by
  induction events generalizing s rows with
  | nil =>
    cases hr
    exact hp
  | cons event rest ih =>
    obtain ⟨s₁, row?, later, hf, hrest, -⟩ := run_cons_eq_ok hr
    exact ih (follows_feed h hf).1.steady (placed_feed h hp hf) hrest

theorem pathTo_eq {depth : Nat} :
    s.pathTo o depth = (s.namesInside o).take (depth - o.dataLevel) := by
  rw [pathTo, namesInside, List.drop_take]

/-- An open element of a row, among the places of the row. -/
theorem place_of_frameAt? {depth : Nat} {f : Frame} (h : s.frameAt? o depth = some f) :
    ∃ r n, s.builder.row = some r ∧ depth = o.dataLevel + n ∧
      r.places[n]? = some (f.role, f.path) := by
  unfold frameAt? at h
  split at h
  · cases h
  · obtain ⟨r, hr, hf⟩ := Option.bind_eq_some_iff.mp h
    refine ⟨r, depth - o.dataLevel, hr, by omega, ?_⟩
    rw [OpenRow.places_getElem?, hf]
    rfl

theorem frameAt?_of_row {r : OpenRow} {n : Nat} (hr : s.builder.row = some r)
    (hn : n < r.places.length) :
    ∃ f, s.frameAt? o (o.dataLevel + n) = some f ∧ r.places[n]? = some (f.role, f.path) := by
  have hlt : n < r.frames.length := by simpa [OpenRow.places] using hn
  refine ⟨r.frames[n], ?_, ?_⟩
  · rw [frameAt?, if_neg (by omega), hr, Option.bind_some, Nat.add_sub_cancel_left,
      List.getElem?_eq_getElem hlt]
  · rw [OpenRow.places_getElem?, List.getElem?_eq_getElem hlt]
    rfl

/-- **No nested element from a pruned one inwards is admitted**: it is pruned as well, and so is
every nested child of it. -/
theorem pruned_of_run (hd : 1 ≤ o.dataLevel) (hr : Scan.run o {} events = .ok (s, rows))
    {depth : Nat} {f : Frame} (hf : s.frameAt? o depth = some f) (hp : f.role = .pruned)
    {deeper : Nat} (hle : depth ≤ deeper) (hopen : deeper ≤ s.openTags.length)
    (hn : o.isFlattened deeper = false) :
    (∃ g, s.frameAt? o deeper = some g ∧ g.role = .pruned ∧ g.path = s.pathTo o deeper) ∧
      ∀ rest, o.projection.admits (s.pathTo o deeper ++ rest) = false := by
  have hsteady := (follows_run (steady_empty hd) hr).steady
  obtain ⟨r, n, hrow, rfl, hplace⟩ := place_of_frameAt? hf
  have hplaced := placed_run (steady_empty hd) (.of_none rfl) hr r hrow
  have hlen : s.openTags.length = o.dataLevel + r.outer.length := by
    cases hsteady with
    | inside q skip row depth =>
      rw [hrow] at row
      cases row
      exact depth
    | outside skip row => rw [hrow] at row; cases row
    | skipping skip row => rw [hrow] at row; cases row
  obtain ⟨m, rfl⟩ : ∃ m, deeper = o.dataLevel + m := ⟨deeper - o.dataLevel, by omega⟩
  obtain ⟨g, hg, hgplace⟩ := frameAt?_of_row (o := o) hrow (n := m)
    (by rw [OpenRow.length_places]; omega)
  rw [hp] at hplace
  have hpruned := hplaced.inside n _ hplace m _ _ hgplace (by omega) hn
  have hpath := (hplaced.nested m _ _ hgplace hn).2
  rw [hpruned] at hgplace
  obtain ⟨-, hne, hadmit⟩ := hplaced.pruned m _ hgplace
  have hto : g.path = s.pathTo o (o.dataLevel + m) := by
    rw [pathTo_eq, Nat.add_sub_cancel_left, hpath]
  refine ⟨⟨g, hg, hpruned, hto⟩, fun rest => ?_⟩
  rw [← hto]
  exact (Projection.closed_admits o.projection).not_append hne hadmit rest

end Scan

namespace Projection

/-- **Admission is comparability of paths, and pruning loses nothing that is asked for.** The two
sets of a projection answer as its requests do, in whatever order and however often they are given:
a path is admitted if it leads to a request or a request leads to it. So everything that leads to an
admitted path is admitted; and at every moment of a run, for a pruned element that is open, neither
a nested element from it inwards nor anything below such an element is admitted. -/
theorem admits_pruned {requests : List Path} (hr : ∀ r ∈ requests, r ≠ []) :
    (∀ q, q ≠ [] → ((ofPaths requests).admits q = true ↔ ∃ r ∈ requests, r <+: q ∨ q <+: r)) ∧
      (∀ q, (ofPaths requests).admits q = answer requests.eraseDups q) ∧
      (∀ requests', (∀ r, r ∈ requests' ↔ r ∈ requests) →
        ∀ q, (ofPaths requests').admits q = (ofPaths requests).admits q) ∧
      (∀ q rest, q ≠ [] → (ofPaths requests).admits (q ++ rest) = true →
        (ofPaths requests).admits q = true) ∧
      ∀ (o : ReaderOptions) (events : List Event) (s : Scan) (rows : List Row), 1 ≤ o.dataLevel →
        o.projection = ofPaths requests → Scan.run o {} events = .ok (s, rows) →
        ∀ depth f, s.frameAt? o depth = some f → f.role = .pruned →
          ∀ deeper, depth ≤ deeper → deeper ≤ s.openTags.length → o.isFlattened deeper = false →
            (∃ g, s.frameAt? o deeper = some g ∧ g.role = .pruned ∧ g.path = s.pathTo o deeper) ∧
              ∀ rest, (ofPaths requests).admits (s.pathTo o deeper ++ rest) = false := by
  refine ⟨fun q hq => admits_ofPaths_iff hr hq, fun q => admits_columns _ q,
    fun requests' h q => admits_ofPaths_congr h q, fun q rest hq h => closed_admits _ q rest hq h,
    fun o events s rows hd ho hrun depth f hf hp deeper hle hopen hn => ?_⟩
  rw [← ho]
  exact Scan.pruned_of_run hd hrun hf hp hle hopen hn

/-- A request is repeated; in a row, a pruned element holds another nested one, and that a flattened
one. -/
theorem admits_pruned_nested :
    let requests : List Path := [["b", "c"], ["a"], ["b", "c"]]
    let o : ReaderOptions := { projection := .columns [["b", "c"], ["a"]], flattenLevel := some 5 }
    let events : List Event :=
      [.start "t" [], .start "r" [], .start "b" [], .start "x" [], .start "y" [], .start "z" []]
    ((∀ r ∈ requests, r ≠ []) ∧ 1 ≤ o.dataLevel ∧ o.projection = ofPaths requests) ∧
      ∃ s rows, Scan.run o {} events = .ok (s, rows) ∧
        (s.frameAt? o 4).map Frame.role = some .pruned ∧ o.isFlattened 5 = false ∧
        s.pathTo o 5 = ["b", "x", "y"] ∧
        (ofPaths requests).admits ["b"] = true ∧
        ∀ rest, (ofPaths requests).admits (["b", "x", "y"] ++ rest) = false := by
  intro requests o events
  have hr : ∀ r ∈ requests, r ≠ [] := by decide
  have ho : o.projection = ofPaths requests := by decide +kernel
  have hseen : (Scan.run o {} events).toOption.map (fun r =>
      ((r.1.frameAt? o 4).map Frame.role, r.1.openTags.length, r.1.pathTo o 5)) =
        some (some .pruned, 6, ["b", "x", "y"]) := by
    decide +kernel
  obtain ⟨hcomparable, -, -, -, hpruned⟩ := admits_pruned hr
  cases hrun : Scan.run o {} events with
  | error fault =>
    rw [hrun] at hseen
    cases hseen
  | ok r =>
    obtain ⟨s, rows⟩ := r
    rw [hrun] at hseen
    obtain ⟨hrole, hrest⟩ := Prod.mk.inj (Option.some.inj hseen)
    obtain ⟨hlength, hpath⟩ := Prod.mk.inj hrest
    obtain ⟨f, hf, hp⟩ := Option.map_eq_some_iff.mp hrole
    have hnone := (hpruned o events s rows (by decide) ho hrun 4 f hf hp 5 (by decide)
      (by rw [hlength]; decide) rfl).2
    rw [hpath] at hnone
    refine ⟨⟨hr, by decide, ho⟩, s, rows, rfl, hrole, rfl, hpath, ?_, hnone⟩
    exact (hcomparable ["b"] (by decide)).mpr ⟨["b", "c"], by decide, Or.inr (by decide)⟩

end Projection

end Tabular
