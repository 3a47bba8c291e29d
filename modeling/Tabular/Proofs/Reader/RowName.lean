import Tabular.Proofs.Reader.Calls
import Tabular.Proofs.Reader.Drained
import Tabular.Proofs.Reader.Fault
import Tabular.Proofs.Tree.Sifted

/-!
# Row names

A row name is a filter. A reader that is given one reads of a nested stream what a reader without
one reads of the stream that is left when all other elements are taken out at the depth of rows.

* `ReaderOptions.tagged`, `windows_tagged`: options that differ in the row name;
* `Scan.skipping`, `Scan.start_other`, `Scan.feed_kept`: one event of the stream, which is left out
  or kept;
* **`passage_sifted`**: the passage of the stream and of what is left of it;
* **`skippedElements_passage`**: the elements that a reader skips;
* **`rest_tagged`**: all batches and counters.
-/

namespace Tabular

variable {o : ReaderOptions} {tag : String} {rows : List Row} {ending : Ending}

/-! ## Options that differ in the row name -/

/-- The options with another row name. -/
def ReaderOptions.tagged (rowTag : Option String) (o : ReaderOptions) : ReaderOptions :=
  { o with rowTag }

/-- Windows do not depend on the row name. -/
theorem windows_tagged (rowTag : Option String) (index : Nat) (schema : RowSchema) :
    windows (o.tagged rowTag) index schema rows = windows o index schema rows :=
  windows_congr (by rfl) (by rfl) (by rfl) index schema rows

theorem windowConflicts_tagged (rowTag : Option String) (schema : RowSchema) :
    windowConflicts (o.tagged rowTag) schema rows = windowConflicts o schema rows :=
  windowConflicts_congr (by rfl) (by rfl) (by rfl) schema rows

/-! ## Scans of a sifted stream -/

namespace Scan

variable {s s' : Scan} {name : String} {inside : List String}

/-- The state with some elements more open that are skipped. -/
def skipping (level : Nat) (inside : List String) (skipped : Nat) (s : Scan) : Scan :=
  { s with
    openTags := inside ++ s.openTags
    skipDepth := if inside.isEmpty then none else some level
    skippedElements := skipped }

theorem start_skipping (level skipped : Nat) (opened name : String) (inside : List String)
    (attributes : Entries String) (s : Scan) :
    (s.skipping level (opened :: inside) skipped).feed o (.start name attributes) =
      .ok (s.skipping level (name :: opened :: inside) skipped, none) :=
  congrArg (fun s => Except.ok (s, none)) (start_of_skipping rfl name attributes)

theorem text_skipping (level skipped : Nat) (opened value : String) (inside : List String)
    (s : Scan) : (s.skipping level (opened :: inside) skipped).feed o (.text value) =
      .ok (s.skipping level (opened :: inside) skipped, none) := rfl

/-- The elements inside a skipped one end, and the skipped one last. -/
theorem finish_skipping {level : Nat} (hl : s.openTags.length + 1 = level)
    {closing opened : String} (hc : Event.closes closing opened = true) (skipped : Nat) :
    (s.skipping level (opened :: inside) skipped).feed o (.finish closing) =
      .ok (s.skipping level inside skipped, none) := by
  have hdepth : (inside ++ s.openTags).length + 1 = level ↔ inside = [] := by
    rw [List.length_append, ← List.length_eq_zero_iff]
    omega
  simp only [feed, skipping, List.cons_append, hc, if_true, close, List.isEmpty_cons,
    Bool.false_eq_true, if_false, List.length_cons, hdepth]
  cases inside with
  | nil => rfl
  | cons name rest => rfl

/-- An element at the depth of rows that is not named like a row. -/
theorem start_other (hl : s.openTags.length + 1 = o.dataLevel) (hn : name ≠ tag)
    (attributes : Entries String) (skipped : Nat) :
    (s.skipping o.dataLevel [] skipped).feed (o.tagged (some tag)) (.start name attributes) =
      .ok (s.skipping o.dataLevel [name] (skipped + 1), none) := by
  have hplace : (o.tagged (some tag)).levels.place (s.openTags.length + 1) name = .skipped := by
    simp [ReaderOptions.tagged, ReaderOptions.levels, Levels.place, Levels.isRowName, hl, hn]
  rw [feed, start_of_place rfl]
  simp only [skipping, List.nil_append, hplace]
  rw [hl]
  rfl

/-- No element is skipped where no row name is asked for. -/
theorem place_untagged (depth : Nat) (name : String) :
    (o.tagged none).levels.place depth name ≠ .skipped := by
  unfold Levels.place
  simp only [ReaderOptions.tagged, ReaderOptions.levels, Levels.isRowName, if_true]
  repeat' split
  all_goals simp

theorem place_tagged {depth : Nat} (h : ¬ (depth = o.dataLevel ∧ name ≠ tag)) :
    (o.tagged (some tag)).levels.place depth name = (o.tagged none).levels.place depth name := by
  by_cases hd : depth = o.dataLevel
  · have hn : name = tag := by_contra fun hn => h ⟨hd, hn⟩
    simp [ReaderOptions.tagged, ReaderOptions.levels, Levels.place, Levels.isRowName, hn]
  · simp [ReaderOptions.tagged, ReaderOptions.levels, Levels.place, hd]

/-- Any other element starts as where no row name is asked for. -/
theorem start_kept (hs : s.skipDepth = none)
    (hkept : ¬ (s.openTags.length + 1 = o.dataLevel ∧ name ≠ tag)) (attributes : Entries String)
    (skipped : Nat) :
    (s.skipping o.dataLevel [] skipped).start (o.tagged (some tag)) name attributes =
        (s.start (o.tagged none) name attributes).skipping o.dataLevel [] skipped ∧
      (s.start (o.tagged none) name attributes).skipDepth = none := by
  have hplace := place_tagged hkept
  have hnone := place_untagged (o := o) (s.openTags.length + 1) name
  rw [start_of_place rfl, start_of_place hs]
  simp only [skipping, List.nil_append, hplace]
  cases hp : (o.tagged none).levels.place (s.openTags.length + 1) name with
  | skipped => exact absurd hp hnone
  | outside => exact ⟨rfl, hs⟩
  | rowStart => exact ⟨rfl, hs⟩
  | structural => exact ⟨rfl, hs⟩
  | flattened => exact ⟨rfl, hs⟩

/-- Any other event is taken as where no row name is asked for. -/
theorem feed_kept {event : Event} (hs : s.skipDepth = none)
    (hkept : ∀ name attributes, event = .start name attributes →
      ¬ (s.openTags.length + 1 = o.dataLevel ∧ name ≠ tag)) (skipped : Nat) {row? : Option Row}
    (hf : s.feed (o.tagged none) event = .ok (s', row?)) :
    (s.skipping o.dataLevel [] skipped).feed (o.tagged (some tag)) event =
        .ok (s'.skipping o.dataLevel [] skipped, row?) ∧ s'.skipDepth = none := by
  cases event with
  | start name attributes =>
    obtain ⟨rfl, rfl⟩ : s.start (o.tagged none) name attributes = s' ∧ none = row? := by
      simpa [feed] using hf
    obtain ⟨hstart, hnone⟩ := start_kept hs (hkept name attributes rfl) attributes skipped
    exact ⟨congrArg (fun s => Except.ok (s, none)) hstart, hnone⟩
  | text value =>
    obtain ⟨rfl, rfl⟩ : s.text value = s' ∧ none = row? := by simpa [feed] using hf
    by_cases hempty : value.isEmpty = true
    · simp [feed, text, skipping, hs, hempty]
    · simp [feed, text, skipping, hs, hempty]
  | finish closing =>
    cases ht : s.openTags with
    | nil => simp [feed, ht] at hf
    | cons opened rest =>
      by_cases hc : Event.closes closing opened = true
      · simp only [feed, ht, hc, if_true, close, hs, Except.ok.injEq, Prod.mk.injEq] at hf
        obtain ⟨rfl, rfl⟩ := hf
        simp only [feed, skipping, List.nil_append, ht, hc, if_true, close, List.isEmpty_nil]
        exact ⟨rfl, trivial⟩
      · simp [feed, ht, hc] at hf

end Scan

/-! ## Passages of a sifted stream -/

/-- Two passages that differ in nothing but what they have skipped and where. -/
structure Passage.Alike (p p' : Passage) : Prop where
  rows : p.rows = p'.rows
  halt : p.halt = p'.halt
  builder : p.scan.builder = p'.scan.builder

theorem Passage.Alike.cons {o' : ReaderOptions} {event : Event} {rest left : List Event}
    {s s' S S' : Scan} {row? : Option Row} {given : Nat} (he : ∀ n, o.isEnough n = o'.isEnough n)
    (hf : S.feed o event = .ok (S', row?)) (hf' : s.feed o' event = .ok (s', row?))
    (hb : S'.builder = s'.builder)
    (h : ∀ given, (passage o ending rest given S').Alike (passage o' ending left given s')) :
    (passage o ending (event :: rest) given S).Alike
      (passage o' ending (event :: left) given s) := by
  cases row? with
  | none =>
    rw [passage_cons_none hf, passage_cons_none hf']
    exact ⟨(h given).rows, (h given).halt, (h given).builder⟩
  | some row =>
    rw [passage_cons_some hf, passage_cons_some hf', he]
    split
    · exact ⟨rfl, rfl, hb⟩
    · exact ⟨congrArg (row :: ·) (h _).rows, (h _).halt, (h _).builder⟩

theorem Passage.Alike.behind {event : Event} {rest : List Event} {s s' : Scan} {given : Nat}
    {p : Passage} (hf : s.feed o event = .ok (s', none))
    (h : (passage o ending rest given s').Alike p) :
    (passage o ending (event :: rest) given s).Alike p := by
  rw [passage_cons_none hf]
  exact ⟨h.rows, h.halt, h.builder⟩

/-- **The passage of a nested stream is that of the sifted one** where no row name is asked for. -/
theorem passage_sifted {tags : List String} {events : List Event} (hn : Event.Nested tags events)
    {s : Scan} (hs : s.skipDepth = none) (inside : List String) (ht : tags = inside ++ s.openTags)
    (hl : inside ≠ [] → s.openTags.length + 1 = o.dataLevel) (given skipped : Nat) :
    (passage (o.tagged (some tag)) ending events given
        (s.skipping o.dataLevel inside skipped)).Alike
      (passage (o.tagged none) ending
        (Event.sifted tag o.dataLevel s.openTags.length inside.length events) given s) := by
  have he : ∀ n, (o.tagged (some tag)).isEnough n = (o.tagged none).isEnough n := fun _ => rfl
  induction hn generalizing s inside given skipped with
  | nil =>
    obtain ⟨rfl, htags⟩ := List.append_eq_nil_iff.mp ht.symm
    exact ⟨rfl, rfl, rfl⟩
  | @start tags name attributes rest _ ih =>
    cases inside with
    | cons opened inside =>
      exact .behind (Scan.start_skipping ..) (ih hs _ (congrArg _ ht) (fun _ => hl nofun) ..)
    | nil =>
      rw [List.length_nil, Event.sifted]
      split
      · next hother =>
        exact .behind (Scan.start_other hother.1 hother.2 ..)
          (ih hs [name] (congrArg _ ht) (fun _ => hother.1) ..)
      · next hkept =>
        have hf : s.feed (o.tagged none) (.start name attributes) = .ok (_, none) := rfl
        obtain ⟨hfeed, hnone⟩ := Scan.feed_kept hs (fun _ _ h => by cases h; exact hkept) skipped hf
        have htags : (s.start (o.tagged none) name attributes).openTags = name :: s.openTags :=
          Scan.openTags_start ..
        have hrest := fun given => ih hnone [] (htags ▸ congrArg _ ht)
          (absurd rfl) given skipped
        rw [htags] at hrest
        exact .cons he hfeed hf rfl hrest
  | @text tags value rest _ ih =>
    cases inside with
    | cons opened inside => exact .behind (Scan.text_skipping ..) (ih hs _ ht hl ..)
    | nil =>
      have hf : s.feed (o.tagged none) (.text value) = .ok (_, none) := rfl
      obtain ⟨hfeed, hnone⟩ := Scan.feed_kept hs (fun _ _ h => by cases h) skipped hf
      have htags : (s.text value).openTags = s.openTags := Scan.openTags_text ..
      have hrest := fun given => ih hnone [] (htags ▸ ht) (absurd rfl) given skipped
      rw [htags] at hrest
      exact .cons he hfeed hf rfl hrest
  | @finish tags opened closing rest hc _ ih =>
    cases inside with
    | cons name inside =>
      obtain ⟨rfl, htags⟩ := List.cons.inj ht
      exact .behind (Scan.finish_skipping (hl nofun) hc _) (ih hs _ htags (fun _ => hl nofun) ..)
    | nil =>
      replace ht : s.openTags = opened :: tags := ht.symm
      obtain ⟨⟨s', row?⟩, hf⟩ : ∃ q, s.feed (o.tagged none) (.finish closing) = .ok q := by
        simp [Scan.feed, ht, hc]
      obtain ⟨hfeed, hnone⟩ := Scan.feed_kept hs (fun _ _ h => by cases h) skipped hf
      have htags := Scan.reopen_of_feed hf
      rw [ht, Event.reopen_of_closes hc, Except.ok.injEq] at htags
      have hlen : s.openTags.length - 1 = s'.openTags.length := by rw [ht, htags]; rfl
      have hrest := fun given => ih hnone [] htags (absurd rfl) given skipped
      rw [← hlen] at hrest
      exact .cons he hfeed hf rfl hrest

theorem Passage.Alike.handedOut {p p' : Passage} (h : p.Alike p') (size : Nat) :
    p.handedOut size = p'.handedOut size := by
  unfold Passage.handedOut
  rw [h.halt, h.rows]

theorem Passage.Alike.discards {p p' : Passage} (h : p.Alike p') : p.discards = p'.discards := by
  unfold Passage.discards
  rw [h.halt, h.builder]

theorem Passage.Alike.diagnostics {p p' : Passage} (h : p.Alike p') (conflicts : List Conflict) :
    { p.diagnostics conflicts with skippedElements := 0, eventsConsumed := 0 } =
      { p'.diagnostics conflicts with skippedElements := 0, eventsConsumed := 0 } := by
  unfold Passage.diagnostics
  rw [h.rows, h.halt, h.builder, h.discards]

/-! ## Skipped elements -/

namespace Scan

variable {s s' : Scan} {event : Event} {row? : Option Row}

/-- Where no element is being skipped, one is if it is no row at the depth of rows. -/
theorem skippedElements_start (ht : o.rowTag = some tag) (hs : s.Steady o) (name : String)
    (attributes : Entries String) :
    (s.start o name attributes).skippedElements =
      s.skippedElements + if s.openTags.length + 1 = o.dataLevel ∧ name ≠ tag then 1 else 0 := by
  cases hskip : s.skipDepth with
  | some depth =>
    have hdeep : o.dataLevel ≤ s.openTags.length := by
      cases hs with
      | outside skip => simp [skip] at hskip
      | inside r skip => simp [skip] at hskip
      | skipping skip row hdeep => exact hdeep
    rw [start_of_skipping (by rw [hskip]; rfl), if_neg (by omega)]
    rfl
  | none =>
    have hplace : o.levels.place (s.openTags.length + 1) name = .skipped ↔
        s.openTags.length + 1 = o.dataLevel ∧ name ≠ tag := by
      by_cases hd : s.openTags.length + 1 = o.dataLevel
      · simp [Levels.place, ReaderOptions.levels, Levels.isRowName, ht, hd]
      · unfold Levels.place
        simp only [ReaderOptions.levels, hd, if_false, false_and, iff_false]
        repeat' split
        all_goals simp
    rw [start_of_place hskip]
    by_cases hother : s.openTags.length + 1 = o.dataLevel ∧ name ≠ tag
    · rw [if_pos hother, hplace.mpr hother]
    · rw [if_neg hother]
      cases hp : o.levels.place (s.openTags.length + 1) name with
      | skipped => exact absurd (hplace.mp hp) hother
      | outside => rfl
      | rowStart => rfl
      | structural => rfl
      | flattened => rfl

theorem skippedElements_close (depth : Nat) (s : Scan) :
    (s.close o depth).1.skippedElements = s.skippedElements := by
  unfold close
  split
  · split <;> rfl
  · rfl

theorem skippedElements_feed (ht : o.rowTag = some tag) (hs : s.Steady o)
    (hf : s.feed o event = .ok (s', row?)) (rest : List Event) :
    s'.skippedElements + Event.otherStarts tag o.dataLevel s'.openTags.length rest =
      s.skippedElements + Event.otherStarts tag o.dataLevel s.openTags.length (event :: rest) := by
  have hlen := (follows_feed hs hf).2
  rw [hlen]
  cases event with
  | start name attributes =>
    cases hf
    rw [skippedElements_start ht hs, Nat.add_assoc]
    rfl
  | text value =>
    cases hf
    have hsame : (s.text value).skippedElements = s.skippedElements := by
      unfold text
      split <;> rfl
    rw [hsame]
    rfl
  | finish closing =>
    have hsame : s'.skippedElements = s.skippedElements := by
      obtain ⟨opened, outer, -, hclosed⟩ := feed_finish hf
      rw [show s' = (s', row?).1 from rfl, ← hclosed, skippedElements_close]
    rw [hsame]
    rfl

end Scan

/-- **A reader skips the elements at the depth of rows that are not named like a row**, whatever the
events. -/
theorem skippedElements_passage (ht : o.rowTag = some tag) {events : List Event} {s : Scan}
    (hs : s.Steady o) (given : Nat) :
    (passage o ending events given s).scan.skippedElements =
      s.skippedElements + Event.otherStarts tag o.dataLevel s.openTags.length
        (events.take (passage o ending events given s).taken) := by
  induction events generalizing s given with
  | nil => rfl
  | cons event rest ih =>
    cases hf : s.feed o event with
    | error error =>
      rw [passage_cons_error hf]
      cases event with
      | start name attributes => cases hf
      | text value => cases hf
      | finish closing => rfl
    | ok q =>
      obtain ⟨s', row?⟩ := q
      have hs' := (Scan.follows_feed hs hf).1.steady
      cases row? with
      | none =>
        rw [passage_cons_none hf, Passage.scan_behind, Passage.taken_behind, ih hs',
          Nat.add_comm 1, List.take_succ_cons, Scan.skippedElements_feed ht hs hf]
      | some row =>
        rw [passage_cons_some hf]
        split
        · exact Scan.skippedElements_feed ht hs hf []
        · rw [Passage.scan_behind, Passage.taken_behind, ih hs',
            Nat.add_comm 1, List.take_succ_cons, Scan.skippedElements_feed ht hs hf]

namespace Reader

/-- **A row name is a filter**: a reader with one gives the batches, the failure and the counters of
a reader without one that reads the sifted stream, and counts what it skips up to the last event it
takes. -/
theorem rest_tagged (h : o.Valid) (tag : String) {events : List Event}
    (hn : Event.Nested [] events) (ending : Ending) :
    let left := Event.sifted tag o.dataLevel 0 0 events
    let c := (start (o.tagged (some tag)) ⟨events, ending⟩).rest
    let c' := (start (o.tagged none) ⟨left, ending⟩).rest
    (∀ items, Spells items events → Spells (Item.sifted tag (o.dataLevel - 1) items) left) ∧
      c.result = c'.result ∧
      { c.reader.diagnostics with skippedElements := 0, eventsConsumed := 0 } =
        { c'.reader.diagnostics with skippedElements := 0, eventsConsumed := 0 } ∧
      c.reader.diagnostics.skippedElements = Event.otherStarts tag o.dataLevel 0
        (events.take c.reader.diagnostics.eventsConsumed) := by
  intro left c c'
  have hone : 1 ≤ o.dataLevel := h.levels_valid.one_le
  have hb : 0 < o.batchSize := h.one_le_batchSize
  refine ⟨fun items hitems => ?_, ?_⟩
  · obtain ⟨_, hspells, heq⟩ := Event.spells_sifted tag hitems 0 (o.dataLevel - 1) []
    rw [Nat.zero_add, Nat.sub_add_cancel hone, List.append_nil, Event.sifted,
      List.append_nil] at heq
    exact (show left = _ from heq) ▸ hspells
  by_cases hl : o.limit = some 0
  · have hc : c = _ := rest_of_limit_zero (o := o.tagged (some tag)) hl ⟨events, ending⟩
    have hc' : c' = _ := rest_of_limit_zero (o := o.tagged none) hl ⟨left, ending⟩
    rw [hc, hc']
    exact ⟨rfl, rfl, rfl⟩
  · have halike : Passage.Alike (Tabular.passage (o.tagged (some tag)) ending events 0 {})
        (Tabular.passage (o.tagged none) ending left 0 {}) :=
      passage_sifted (s := {}) hn rfl [] rfl (absurd rfl) 0 0
    have htag : (o.tagged (some tag)).rowTag = some tag := rfl
    have hskipped :
        (Tabular.passage (o.tagged (some tag)) ending events 0 {}).scan.skippedElements = _ :=
      skippedElements_passage htag (Scan.steady_empty hone) 0
    have hdiagnostics : c.reader.diagnostics = _ :=
      diagnostics_rest (o := o.tagged (some tag)) hb hl _
    have hdiagnostics' : c'.reader.diagnostics = _ := diagnostics_rest (o := o.tagged none) hb hl _
    have hsame : c.result = c'.result := by
      rw [show c.result = _ from result_rest (o := o.tagged (some tag)) hb hl _,
        show c'.result = _ from result_rest (o := o.tagged none) hb hl _, windows_tagged,
        windows_tagged, halike.halt, halike.handedOut]
      rfl
    refine ⟨hsame, ?_, ?_⟩
    · rw [hdiagnostics, hdiagnostics', hsame, halike.rows, windowConflicts_tagged,
        windowConflicts_tagged]
      exact congrArg (fun d : Diagnostics => { d with batchesEmitted := c'.result.1.length })
        (halike.diagnostics _)
    · rw [hdiagnostics]
      exact hskipped.trans (Nat.zero_add _)

/-- Two rows may be given, and other elements stand around them, one of which holds an element that
is named like a row. -/
theorem rest_tagged_limited :
    let o : ReaderOptions := { limit := some 2, batchSize := 1 }
    let events : List Event :=
      [.start "t" [], .start "x" [], .start "r" [], .finish "r", .text "-", .finish "x",
        .start "r" [("k", "v")], .finish "r", .text "+", .start "y" [], .finish "",
        .start "r" [], .start "x" [], .finish "x", .finish "r", .start "x" [], .finish "x",
        .finish "t"]
    let left := Event.sifted "r" o.dataLevel 0 0 events
    let c := (start (o.tagged (some "r")) ⟨events, .complete⟩).rest
    let c' := (start (o.tagged none) ⟨left, .complete⟩).rest
    (o.Valid ∧ Event.Nested [] events) ∧
      (left = [.start "t" [], .start "r" [("k", "v")], .finish "r", .text "+", .start "r" [],
          .start "x" [], .finish "x", .finish "r", .finish "t"] ∧
        c.result.1.map Batch.size = [1, 1] ∧ c.reader.diagnostics.skippedElements = 2) ∧
      (∀ items, Spells items events → Spells (Item.sifted "r" (o.dataLevel - 1) items) left) ∧
      c.result = c'.result ∧
      { c.reader.diagnostics with skippedElements := 0, eventsConsumed := 0 } =
        { c'.reader.diagnostics with skippedElements := 0, eventsConsumed := 0 } ∧
      c.reader.diagnostics.skippedElements = Event.otherStarts "r" o.dataLevel 0
        (events.take c.reader.diagnostics.eventsConsumed) := by
  intro o events left c c'
  have hvalid : o.Valid := ⟨⟨by decide, nofun⟩, by decide⟩
  have hnested : Event.Nested [] events := Event.nested_iff_openAfter.mpr rfl
  refine ⟨⟨hvalid, hnested⟩, ?_, rest_tagged hvalid "r" hnested .complete⟩
  decide +kernel

end Reader

end Tabular
