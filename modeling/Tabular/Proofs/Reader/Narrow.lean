import Mathlib.Data.List.Forall2
import Tabular.Proofs.Reader.Windows
import Tabular.Proofs.Row.Narrow

/-!
# Reading under a narrower projection

Two readings of the same events, one for every column and one for a projection, go the same way:
they take the same events and stop at the same place, and the rows of the narrow one are the kept
part of those of the wide one.

* `Scan.Narrowed`, **`narrowed_feed`**: the states, and one event;
* `Scan.Settled`, `SettledAlong`: nothing that only the narrow reading sees matters, in one state
  and in every state on the way;
* `Passage.Narrowed`, **`narrowed_passage`**: the whole readings.
-/

namespace Tabular

variable {o : ReaderOptions} {p : Projection}

namespace Scan

/-- Two states behind the same events. -/
structure Narrowed (o : ReaderOptions) (p : Projection) (w n : Scan) : Prop where
  openTags : n.openTags = w.openTags
  skipDepth : n.skipDepth = w.skipDepth
  skippedElements : n.skippedElements = w.skippedElements
  sealedRows : n.builder.sealedRows = w.builder.sealedRows
  row : Option.Rel (OpenRow.Narrowed o p w.openTags.length) w.builder.row n.builder.row
  /-- No row is skipped from inside. -/
  apart : w.skipDepth = none ∨ w.builder.row = none

/-- If an element of a row ends next, it is none that matters to the narrow reading only. -/
def Settled (o : ReaderOptions) (p : Projection) (s : Scan) : Prop :=
  ∀ r, s.builder.row = some r → r.Settles o p s.openTags.length

variable {w n : Scan}

theorem length_of_rowStart {depth : Nat} {name : String}
    (h : o.levels.place depth name = .rowStart) : depth = o.dataLevel := by
  unfold Levels.place at h
  split at h
  · cases h
  · split at h
    · next hd => exact hd
    · split at h
      · cases h
      · split at h <;> cases h

theorem Narrowed.isActive (h : Narrowed o p w n) : n.builder.isActive = w.builder.isActive := by
  have hrow := h.row
  unfold Builder.isActive
  generalize w.builder.row = rw at hrow ⊢
  generalize n.builder.row = rn at hrow ⊢
  cases hrow <;> rfl

theorem Narrowed.row_none (h : Narrowed o p w n) (hw : w.builder.row = none) :
    n.builder.row = none := by
  have hrow := h.row
  rw [hw] at hrow
  generalize n.builder.row = rn at hrow ⊢
  cases hrow
  rfl

/-- Where no row is under construction, the depth of its tree does not matter. -/
theorem Narrowed.row_of_none (h : Narrowed o p w n) (hw : w.builder.row = none) (depth : Nat) :
    Option.Rel (OpenRow.Narrowed o p depth) w.builder.row n.builder.row := by
  rw [hw, h.row_none hw]
  exact .none

theorem Narrowed.row_some (h : Narrowed o p w n) {r : OpenRow} (hw : w.builder.row = some r) :
    ∃ r', n.builder.row = some r' ∧ OpenRow.Narrowed o p w.openTags.length r r' := by
  have hrow := h.row
  rw [hw] at hrow
  generalize n.builder.row = rn at hrow ⊢
  cases hrow with
  | some hr => exact ⟨_, rfl, hr⟩

/-- An element starts outside of rows. -/
theorem narrowed_start_outside (hd : 1 ≤ o.dataLevel) (h : Narrowed o p w n)
    (hrow : w.builder.row = none) (name : String) (attributes : Entries String) :
    Narrowed o p (w.start (o.projected .all) name attributes)
      (n.start (o.projected p) name attributes) := by
  have hrow' := h.row_none hrow
  have hrel := h.row_of_none hrow
  have hopen : Narrowed o p (w.opening name) (n.opening name) :=
    ⟨congrArg (name :: ·) h.openTags, h.skipDepth, h.skippedElements, h.sealedRows, hrel _,
      Or.inr hrow⟩
  cases hs : w.skipDepth with
  | some d =>
    rw [start_of_skipping (by rw [hs]; rfl), start_of_skipping (by rw [h.skipDepth, hs]; rfl)]
    exact hopen
  | none =>
    have hlevels : ∀ p, (o.projected p).levels = o.levels := fun _ => rfl
    rw [start_of_place hs, start_of_place (h.skipDepth.trans hs), h.openTags]
    simp only [hlevels]
    cases hp : o.levels.place (w.openTags.length + 1) name with
    | outside => exact hopen
    | skipped =>
      exact ⟨hopen.openTags, rfl, congrArg (· + 1) h.skippedElements, h.sealedRows, hrel _,
        Or.inr hrow⟩
    | structural =>
      simp only [Builder.startChild, hrow, hrow']
      exact hopen
    | flattened =>
      simp only [Builder.startChild, hrow, hrow']
      exact hopen
    | rowStart =>
      refine ⟨hopen.openTags, hopen.skipDepth, h.skippedElements, h.sealedRows, .some ?_,
        Or.inl hs⟩
      rw [opening, List.length_cons, length_of_rowStart hp]
      exact OpenRow.narrowed_start hd name attributes _ _

/-- An element starts inside a row. -/
theorem narrowed_start_inside (ho : o.Narrows p) (h : Narrowed o p w n) {rw rn : OpenRow}
    (hw : w.builder.row = some rw) (hn : n.builder.row = some rn)
    (hr : OpenRow.Narrowed o p w.openTags.length rw rn) (name : String)
    (attributes : Entries String) :
    Narrowed o p (w.start (o.projected .all) name attributes)
      (n.start (o.projected p) name attributes) := by
  have hs : w.skipDepth = none := h.apart.resolve_right (by simp [hw])
  have hd : o.dataLevel ≤ w.openTags.length := by
    have := hr.frames.depth_eq
    rw [List.length_cons] at this
    omega
  have hrow : OpenRow.Narrowed o p (w.openTags.length + 1)
      (rw.startChild (o.projected .all) (o.isFlattened (w.openTags.length + 1)) name attributes
        w.builder.tally).1
      (rn.startChild (o.projected p) (o.isFlattened (w.openTags.length + 1)) name attributes
        n.builder.tally).1 := OpenRow.narrowed_startChild ho hr name attributes _ _
  have hwide : (o.projected .all).dataLevel ≤ w.openTags.length := hd
  have hnarrow : (o.projected p).dataLevel ≤ n.openTags.length := h.openTags ▸ hd
  rw [start_inside hs hwide, start_inside (h.skipDepth.trans hs) hnarrow, h.openTags]
  simp only [Builder.startChild, hw, hn]
  exact ⟨congrArg (name :: ·) h.openTags, h.skipDepth, h.skippedElements, h.sealedRows,
    .some hrow, Or.inl hs⟩

theorem narrowed_text (h : Narrowed o p w n) (value : String) :
    Narrowed o p (w.text value) (n.text value) := by
  have hcond : (n.skipDepth.isSome || value.isEmpty) = (w.skipDepth.isSome || value.isEmpty) := by
    rw [h.skipDepth]
  rw [text, text, hcond]
  split
  · exact h
  · refine ⟨h.openTags, h.skipDepth, h.skippedElements, h.sealedRows, ?_, ?_⟩
    · cases hw : w.builder.row with
      | none =>
        simp only [Builder.text, hw, h.row_none hw]
        exact .none
      | some r =>
        obtain ⟨r', hn, hr⟩ := h.row_some hw
        simp only [Builder.text, hw, hn]
        exact .some (OpenRow.narrowed_text hr value)
    · refine h.apart.imp_right fun hrow => ?_
      show w.builder.row.map (OpenRow.text value) = none
      rw [hrow]
      rfl

/-- The state with the innermost open name closed. -/
def closing (rest : List String) (s : Scan) : Scan :=
  { s with openTags := rest }

/-- Both states pass over an element, and it or one inside it ends. -/
theorem narrowed_close_skipping (h : Narrowed o p w n) {d : Nat} (hskip : w.skipDepth = some d)
    (rest : List String) :
    Narrowed o p ((w.closing rest).close (o.projected .all) w.openTags.length).1
        ((n.closing rest).close (o.projected p) n.openTags.length).1 ∧
      Option.Rel (Row.Thinned p) ((w.closing rest).close (o.projected .all) w.openTags.length).2
        ((n.closing rest).close (o.projected p) n.openTags.length).2 := by
  have hrow := h.apart.resolve_left (by rw [hskip]; simp)
  have hrow' := h.row_none hrow
  have hrel := h.row_of_none hrow
  have hw' : (w.closing rest).skipDepth = some d := hskip
  have hn' : (n.closing rest).skipDepth = w.skipDepth := h.skipDepth
  simp only [close, hw', hn', hskip, h.openTags]
  refine ⟨?_, .none⟩
  split
  · exact ⟨rfl, rfl, h.skippedElements, h.sealedRows, hrel _, Or.inl rfl⟩
  · exact ⟨rfl, h.skipDepth, h.skippedElements, h.sealedRows, hrel _, Or.inr hrow⟩

/-- An element ends in both states. -/
theorem narrowed_close (ho : o.Narrows p) (h : Narrowed o p w n) {opened : String}
    {rest : List String} (htags : w.openTags = opened :: rest) (hs : w.Settled o p) :
    Narrowed o p ((w.closing rest).close (o.projected .all) w.openTags.length).1
        ((n.closing rest).close (o.projected p) n.openTags.length).1 ∧
      Option.Rel (Row.Thinned p) ((w.closing rest).close (o.projected .all) w.openTags.length).2
        ((n.closing rest).close (o.projected p) n.openTags.length).2 := by
  cases hskip : w.skipDepth with
  | some d => exact narrowed_close_skipping h hskip rest
  | none =>
    have hw' : (w.closing rest).skipDepth = none := hskip
    have hn : (n.closing rest).skipDepth = w.skipDepth := h.skipDepth
    simp only [close, hw', hn, hskip]
    cases hw : w.builder.row with
    | none =>
      rw [Builder.finish_of_none (b := (w.closing rest).builder) hw,
        Builder.finish_of_none (b := (n.closing rest).builder) (h.row_none hw)]
      refine ⟨⟨rfl, rfl, h.skippedElements, h.sealedRows, ?_, Or.inr hw⟩, .none⟩
      show Option.Rel _ w.builder.row n.builder.row
      rw [hw, h.row_none hw]
      exact .none
    | some r =>
      obtain ⟨r', hn', hr⟩ := h.row_some hw
      have houter := hr.frames.length_eq
      simp only [List.length_cons, Nat.add_right_cancel_iff] at houter
      have hboth : r'.outer = [] ↔ r.outer = [] := by
        rw [← List.length_eq_zero_iff, ← houter, List.length_eq_zero_iff]
      by_cases hout : r.outer = []
      · -- the row element ends
        rw [Builder.finish_of_row (b := (w.closing rest).builder) hw hout,
          Builder.finish_of_row (b := (n.closing rest).builder) hn' (hboth.mpr hout)]
        refine ⟨⟨rfl, rfl, h.skippedElements, congrArg (· + 1) h.sealedRows, .none,
          Or.inr rfl⟩, .some ⟨hr.draft.tag, ?_, hr.draft.attributes, hr.draft.fields⟩⟩
        exact congrArg Int.ofNat h.sealedRows
      · have hdepth : w.openTags.length = rest.length + 1 := by rw [htags, List.length_cons]
        have hsettled := hs r hw
        rw [hdepth] at hr hsettled
        rw [Builder.finish_of_inside (b := (w.closing rest).builder) hw hout,
          Builder.finish_of_inside (b := (n.closing rest).builder) hn' (mt hboth.mp hout)]
        exact ⟨⟨rfl, rfl, h.skippedElements, h.sealedRows,
          .some (OpenRow.narrowed_leave ho hr hout hsettled _ _), Or.inl rfl⟩, .none⟩

/-- **One event keeps the states narrowed**, and gives rows to both or to none. -/
theorem narrowed_feed (ho : o.Narrows p) (hd : 1 ≤ o.dataLevel) (h : Narrowed o p w n)
    (event : Event) (hs : ∀ name, event = .finish name → w.Settled o p) :
    (∃ error, w.feed (o.projected .all) event = .error error ∧
      n.feed (o.projected p) event = .error error) ∨
    ∃ w' n' row? row?', w.feed (o.projected .all) event = .ok (w', row?) ∧
      n.feed (o.projected p) event = .ok (n', row?') ∧ Narrowed o p w' n' ∧
      Option.Rel (Row.Thinned p) row? row?' := by
  cases event with
  | start name attributes =>
    refine Or.inr ⟨_, _, none, none, rfl, rfl, ?_, .none⟩
    cases hw : w.builder.row with
    | none => exact narrowed_start_outside hd h hw name attributes
    | some r =>
      obtain ⟨r', hn, hr⟩ := h.row_some hw
      exact narrowed_start_inside ho h hw hn hr name attributes
  | text value => exact Or.inr ⟨_, _, none, none, rfl, rfl, narrowed_text h value, .none⟩
  | finish name =>
    rw [feed, feed, h.openTags]
    cases htags : w.openTags with
    | nil => exact Or.inl ⟨_, rfl, rfl⟩
    | cons opened rest =>
      simp only
      split
      · have hclose := narrowed_close ho h htags (hs name rfl)
        rw [h.openTags, htags] at hclose
        exact Or.inr ⟨_, _, _, _, rfl, rfl, hclose.1, hclose.2⟩
      · exact Or.inl ⟨_, rfl, rfl⟩

end Scan

/-! ## Whole readings -/

/-- Every state in which the wide reading meets the end of an element is settled. -/
def SettledAlong (o : ReaderOptions) (p : Projection) (s : Scan) (events : List Event) : Prop :=
  ∀ before name after s' rows, events = before ++ .finish name :: after →
    s.run (o.projected .all) before = .ok (s', rows) → s'.Settled o p

theorem SettledAlong.now {s : Scan} {name : String} {rest : List Event}
    (h : SettledAlong o p s (.finish name :: rest)) : s.Settled o p :=
  h [] name rest s [] rfl rfl

theorem SettledAlong.next {s s' : Scan} {event : Event} {rest : List Event} {row? : Option Row}
    (h : SettledAlong o p s (event :: rest))
    (hf : s.feed (o.projected .all) event = .ok (s', row?)) : SettledAlong o p s' rest := by
  intro before name after s₂ rows he hr
  refine h (event :: before) name after s₂ (row?.toList ++ rows) (by rw [he]; rfl) ?_
  rw [Scan.run_cons hf, hr]
  rfl

/-- Without flattening there is nothing that only the narrow reading sees. -/
theorem settledAlong_of_nested (hf : o.flattenLevel = none) (s : Scan) (events : List Event) :
    SettledAlong o p s events := by
  intro before name after s' rows _ _ r _ above leaf _ _ _ hflat
  rw [ReaderOptions.isFlattened, hf] at hflat
  cases hflat

/-- Two readings that went the same way. -/
structure Passage.Narrowed (p : Projection) (wide narrow : Passage) : Prop where
  rows : List.Forall₂ (Row.Thinned p) wide.rows narrow.rows
  taken : narrow.taken = wide.taken
  halt : narrow.halt = wide.halt
  skippedElements : narrow.scan.skippedElements = wide.scan.skippedElements
  isActive : narrow.scan.builder.isActive = wide.scan.builder.isActive

namespace Passage.Narrowed

variable {w n : Passage}

theorem behind (h : Narrowed p w n) {rows rows' : List Row}
    (hr : List.Forall₂ (Row.Thinned p) rows rows') (taken : Nat) :
    Narrowed p (w.behind rows taken) (n.behind rows' taken) :=
  ⟨List.rel_append hr h.rows, congrArg (taken + ·) h.taken, h.halt, h.skippedElements, h.isActive⟩

theorem discards (h : Narrowed p w n) : n.discards = w.discards := by
  rw [Passage.discards, Passage.discards, h.halt, h.isActive]

theorem handedOut (h : Narrowed p w n) (size : Nat) :
    List.Forall₂ (Row.Thinned p) (w.handedOut size) (n.handedOut size) := by
  rw [Passage.handedOut, Passage.handedOut, h.halt, h.rows.length_eq]
  split
  · exact List.forall₂_take _ h.rows
  · exact h.rows

end Passage.Narrowed

/-- **The two readings go the same way.** -/
theorem narrowed_passage (ho : o.Narrows p) (hd : 1 ≤ o.dataLevel) (ending : Ending)
    (events : List Event) (given : Nat) {w n : Scan} (h : Scan.Narrowed o p w n)
    (hs : SettledAlong o p w events) :
    Passage.Narrowed p (passage (o.projected .all) ending events given w)
      (passage (o.projected p) ending events given n) := by
  induction events generalizing given w n with
  | nil => exact ⟨.nil, rfl, congrArg ending.halt h.openTags, h.skippedElements, h.isActive⟩
  | cons event rest ih =>
    have hnow : ∀ name, event = .finish name → w.Settled o p := by
      rintro name rfl
      exact hs.now
    rcases Scan.narrowed_feed ho hd h event hnow with ⟨error, hw, hn⟩ |
      ⟨w', n', row?, row?', hw, hn, h', hrow⟩
    · rw [passage_cons_error hw, passage_cons_error hn]
      exact ⟨.nil, rfl, rfl, h.skippedElements, h.isActive⟩
    · cases hrow with
      | none =>
        rw [passage_cons_none hw, passage_cons_none hn]
        exact (ih given h' (hs.next hw)).behind .nil 1
      | some hrow =>
        rw [passage_cons_some hw, passage_cons_some hn]
        have henough : (o.projected p).isEnough = (o.projected .all).isEnough := rfl
        rw [henough]
        split
        · exact ⟨.cons hrow .nil, rfl, rfl, h'.skippedElements, h'.isActive⟩
        · exact (ih (given + 1) h' (hs.next hw)).behind (.cons hrow .nil) 1

/-- Both readings start in the same state. -/
theorem Scan.narrowed_empty (o : ReaderOptions) (p : Projection) : Scan.Narrowed o p {} {} :=
  ⟨rfl, rfl, rfl, rfl, .none, Or.inl rfl⟩

end Tabular
