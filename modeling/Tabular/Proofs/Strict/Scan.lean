import Tabular.Proofs.Reader.Sealed
import Tabular.Proofs.Strict.Builder

/-!
# Scans by handle

A scan whose builder works by handle. Texts and ends reach the builder only while it is active;
starts reach it as their depth tells.

* `Strict.Scan`, `Strict.Scan.feed`, `Strict.Scan.run`: the scan, one event and many;
* `Scan.Sound`, **`feed_strict`**: an event breaches nothing and comes to what it comes to for the
  scan;
* **`run_strict`**: so do all events;
* **`isActive_iff`**, **`length_stack`**: the open elements tell whether a row is under construction,
  and how many frames it has.
-/

namespace Tabular

namespace Strict

/-- The state between two events. -/
structure Scan where
  /-- The names of the open elements, innermost first. -/
  openTags : List String := []
  /-- The depth of the skipped element that is open. -/
  skipDepth : Option Nat := none
  skippedElements : Nat := 0
  builder : Builder := {}
  deriving Repr, Inhabited

namespace Scan

/-- An element starts. -/
def start (o : ReaderOptions) (name : String) (attributes : Entries String) (s : Scan) :
    Except Breach Scan :=
  let s := { s with openTags := name :: s.openTags }
  if s.skipDepth.isSome then .ok s
  else
    let depth := s.openTags.length
    match o.levels.place depth name with
    | .outside => .ok s
    | .skipped => .ok { s with skipDepth := some depth, skippedElements := s.skippedElements + 1 }
    | .rowStart => .ok { s with builder := startRow o name attributes s.builder }
    | .structural => do
      let builder ← startChild o false name attributes s.builder
      return { s with builder }
    | .flattened => do
      let builder ← startChild o true name attributes s.builder
      return { s with builder }

/-- Text stands in the innermost element. -/
def text (value : String) (s : Scan) : Except Breach Scan :=
  if s.builder.isActive && s.skipDepth.isNone && !value.isEmpty then do
    let builder ← Strict.text value s.builder
    return { s with builder }
  else .ok s

/-- The innermost element, at `depth`, has been closed. -/
def close (o : ReaderOptions) (depth : Nat) (s : Scan) : Except Breach (Scan × Option Row) :=
  match s.skipDepth with
  | some d => .ok (if depth = d then { s with skipDepth := none } else s, none)
  | none =>
    if s.builder.isActive then do
      let (builder, row?) ← finish o s.builder
      return ({ s with builder }, row?)
    else .ok (s, none)

/-- One event: the state after it and the row it finishes, or what is wrong with it. -/
def feed (o : ReaderOptions) (s : Scan) :
    Event → Except Breach (Except Malformed (Scan × Option Row))
  | .start name attributes => do
    let s ← s.start o name attributes
    return .ok (s, none)
  | .text value => do
    let s ← s.text value
    return .ok (s, none)
  | .finish name =>
    match s.openTags with
    | [] => .ok (.error (.unexpectedEnd name))
    | opened :: rest =>
      if Event.closes name opened then do
        let closed ← { s with openTags := rest }.close o s.openTags.length
        return .ok closed
      else .ok (.error (.mismatchedEnd name opened))

/-- The state after some events and the rows they finish, or what is wrong with one of them. -/
def run (o : ReaderOptions) : Scan → List Event → Except Breach (Except Malformed (Scan × List Row))
  | s, [] => .ok (.ok (s, []))
  | s, event :: rest => do
    match ← s.feed o event with
    | .error error => return .error error
    | .ok (s, row?) =>
      let later ← run o s rest
      return later.map fun r => (r.1, row?.toList ++ r.2)

end Scan

end Strict

/-! ## Events -/

/-- The scan by handle. -/
def Scan.strict (s : Scan) : Strict.Scan where
  openTags := s.openTags
  skipDepth := s.skipDepth
  skippedElements := s.skippedElements
  builder := s.builder.strict

namespace Scan

variable {o : ReaderOptions} {s s' : Scan} {event : Event}

/-- The open elements tell what the scan is doing, and the handles of a row under construction stand
for its fields. -/
structure Sound (o : ReaderOptions) (s : Scan) : Prop where
  steady : s.Steady o
  row : ∀ r, s.builder.row = some r → r.Sound o

theorem sound_empty (hd : 1 ≤ o.dataLevel) : Sound o {} :=
  ⟨steady_empty hd, fun _ h => by cases h⟩

theorem isActive_strict (b : Builder) : b.strict.isActive = b.isActive := by
  rw [Strict.Builder.isActive, Builder.strict, Option.isSome_map]
  rfl

/-- Around the rows no element is inside one. -/
theorem place_outside {depth : Nat} (h : depth < o.dataLevel) (name : String) :
    o.levels.place (depth + 1) name = .outside ∨ o.levels.place (depth + 1) name = .rowStart ∨
      o.levels.place (depth + 1) name = .skipped := by
  by_cases hd : depth + 1 = o.dataLevel
  · have hplace : o.levels.place (depth + 1) name =
        if o.levels.isRowName name then .rowStart else .skipped := by
      simp [Levels.place, ReaderOptions.levels, hd]
    rw [hplace]
    split
    · exact Or.inr (Or.inl rfl)
    · exact Or.inr (Or.inr rfl)
  · have hlt : depth + 1 < o.dataLevel := by omega
    exact Or.inl (by simp [Levels.place, ReaderOptions.levels, hlt])

theorem row_startChild {r : OpenRow} {b : Builder} (hb : b.row = some r) (flattened : Bool)
    (name : String) (attributes : Entries String) :
    (b.startChild o flattened name attributes).row =
      some (r.startChild o flattened name attributes b.tally).1 := by
  simp only [Builder.startChild, hb]

theorem start_strict_of_skipping (h : s.skipDepth.isSome = true) (name : String)
    (attributes : Entries String) :
    s.strict.start o name attributes = .ok (s.opening name).strict :=
  if_pos h

theorem start_strict_of_place (h : s.skipDepth = none) (name : String)
    (attributes : Entries String) : s.strict.start o name attributes =
      match o.levels.place (s.openTags.length + 1) name with
      | .outside => .ok (s.opening name).strict
      | .skipped =>
        .ok { (s.opening name).strict with
          skipDepth := some (s.openTags.length + 1)
          skippedElements := s.skippedElements + 1 }
      | .rowStart =>
        .ok { (s.opening name).strict with
          builder := Strict.startRow o name attributes s.builder.strict }
      | .structural => do
        let builder ← Strict.startChild o false name attributes s.builder.strict
        return { (s.opening name).strict with builder }
      | .flattened => do
        let builder ← Strict.startChild o true name attributes s.builder.strict
        return { (s.opening name).strict with builder } := by
  rw [Strict.Scan.start]
  exact if_neg (by simp [strict, h])

/-- An element that starts breaches nothing. -/
theorem start_strict (h : s.Sound o) (name : String) (attributes : Entries String) :
    s.strict.start o name attributes = .ok (s.start o name attributes).strict ∧
      ∀ r, (s.start o name attributes).builder.row = some r → r.Sound o := by
  cases h.steady with
  | skipping skip row depth =>
    have hskip : s.skipDepth.isSome = true := by simp [skip]
    rw [start_of_skipping hskip, start_strict_of_skipping hskip]
    exact ⟨rfl, h.row⟩
  | inside r skip row depth =>
    have hlevel : o.dataLevel ≤ s.openTags.length := by omega
    have hplace := place_inside hlevel name
    rw [start_of_place skip, start_strict_of_place skip, hplace, depth]
    cases hf : o.isFlattened (o.dataLevel + r.outer.length + 1) with
    | false =>
      obtain ⟨hchild, hsound⟩ := (h.row r row).startChild row name attributes hf.symm
      refine ⟨by simp only [Bool.false_eq_true, if_false, hchild]; rfl, fun r' hr' => ?_⟩
      cases (row_startChild row false name attributes).symm.trans hr'
      exact hsound
    | true =>
      obtain ⟨hchild, hsound⟩ := (h.row r row).startChild row name attributes hf.symm
      refine ⟨by simp only [if_true, hchild]; rfl, fun r' hr' => ?_⟩
      cases (row_startChild row true name attributes).symm.trans hr'
      exact hsound
  | outside skip row depth =>
    rw [start_of_place skip, start_strict_of_place skip]
    rcases place_outside depth name with hplace | hplace | hplace
    · rw [hplace]
      exact ⟨rfl, h.row⟩
    · rw [hplace]
      refine ⟨rfl, fun r hr => ?_⟩
      cases hr
      exact OpenRow.sound_startRow o name _
    · rw [hplace]
      exact ⟨rfl, h.row⟩

/-- Text breaches nothing. -/
theorem text_strict (h : s.Sound o) (value : String) :
    s.strict.text value = .ok (s.text value).strict ∧
      ∀ r, (s.text value).builder.row = some r → r.Sound o := by
  rw [Strict.Scan.text, text]
  cases hr : s.builder.row with
  | none =>
    have hidle : s.strict.builder.isActive = false := by
      rw [show s.strict.builder = s.builder.strict from rfl, isActive_strict, Builder.isActive, hr]
      rfl
    have hsame : s.builder.text value = s.builder := by
      rw [Builder.text, hr, Option.map_none, ← hr]
    rw [hidle, Bool.false_and, Bool.false_and, if_neg Bool.false_ne_true, hsame, ite_self]
    exact ⟨rfl, h.row⟩
  | some r =>
    have hactive : s.strict.builder.isActive = true := by
      rw [show s.strict.builder = s.builder.strict from rfl, isActive_strict, Builder.isActive, hr]
      rfl
    obtain ⟨htext, hsound⟩ := (h.row r hr).text hr value
    have hcond : (s.strict.skipDepth.isNone && !value.isEmpty) =
        !(s.skipDepth.isSome || value.isEmpty) := by
      rw [Bool.not_or, Option.not_isSome]
      rfl
    rw [hactive, Bool.true_and, hcond]
    cases s.skipDepth.isSome || value.isEmpty with
    | true => exact ⟨rfl, h.row⟩
    | false =>
      refine ⟨?_, fun r' hr' => ?_⟩
      · show (Strict.text value s.builder.strict >>= fun builder => _) = _
        rw [htext]
        rfl
      · have hrow : (s.builder.text value).row = some (r.text value) := by
          rw [Builder.text, hr, Option.map_some]
        cases hrow.symm.trans hr'
        exact hsound

/-- The end of an element breaches nothing. -/
theorem close_strict (h : s.Sound o) (depth : Nat) (rest : List String) :
    ({ s with openTags := rest } : Scan).strict.close o depth =
      .ok ((({ s with openTags := rest } : Scan).close o depth).1.strict,
        (({ s with openTags := rest } : Scan).close o depth).2) ∧
      ∀ r, (({ s with openTags := rest } : Scan).close o depth).1.builder.row = some r →
        r.Sound o := by
  rw [Strict.Scan.close, close]
  have hskip : ({ s with openTags := rest } : Scan).strict.skipDepth = s.skipDepth := rfl
  have hbuilder : ({ s with openTags := rest } : Scan).strict.builder = s.builder.strict := rfl
  simp only [hskip, hbuilder, isActive_strict, Builder.isActive]
  cases hs : s.skipDepth with
  | some d =>
    by_cases hd : depth = d
    · simp only [if_pos hd]
      exact ⟨rfl, h.row⟩
    · simp only [if_neg hd]
      exact ⟨trivial, h.row⟩
  | none =>
    cases hr : s.builder.row with
    | none =>
      rw [Builder.finish_of_none hr]
      exact ⟨rfl, fun r hr' => h.row r hr'⟩
    | some r =>
      obtain ⟨hfinish, hsound⟩ := (h.row r hr).finish hr
      refine ⟨?_, fun r' hr' => ?_⟩
      · simp only [Option.isSome_some, if_true, hfinish]
        rfl
      · by_cases ho : r.outer = []
        · simp only [Builder.finish_of_row hr ho] at hr'
          cases hr'
        · simp only [Builder.finish_of_inside hr ho, Option.some.injEq] at hr'
          subst hr'
          exact hsound ho

/-- **An event breaches nothing**, and comes to what it comes to for the scan. -/
theorem feed_strict (h : s.Sound o) (event : Event) :
    s.strict.feed o event = .ok ((s.feed o event).map fun q => (q.1.strict, q.2)) ∧
      ∀ s' row?, s.feed o event = .ok (s', row?) → s'.Sound o := by
  have hsound : ∀ s' row?, s.feed o event = .ok (s', row?) →
      (∀ r, s'.builder.row = some r → r.Sound o) → s'.Sound o :=
    fun s' row? hf hrow => ⟨(follows_feed h.steady hf).1.steady, hrow⟩
  cases event with
  | start name attributes =>
    obtain ⟨hstart, hrow⟩ := start_strict h name attributes
    rw [Strict.Scan.feed, hstart]
    refine ⟨rfl, fun s' row? hf => hsound s' row? hf ?_⟩
    cases hf
    exact hrow
  | text value =>
    obtain ⟨htext, hrow⟩ := text_strict h value
    rw [Strict.Scan.feed, htext]
    refine ⟨rfl, fun s' row? hf => hsound s' row? hf ?_⟩
    cases hf
    exact hrow
  | finish name =>
    have htags : s.strict.openTags = s.openTags := rfl
    rw [Strict.Scan.feed, htags]
    cases ht : s.openTags with
    | nil =>
      simp only [feed, ht]
      exact ⟨rfl, fun s' row? hf => (by cases hf)⟩
    | cons opened rest =>
      have hlength : (opened :: rest).length = s.openTags.length := by rw [ht]
      obtain ⟨hclose, hrow⟩ := close_strict h s.openTags.length rest
      simp only [feed, ht, hlength]
      by_cases hc : Event.closes name opened = true
      · rw [if_pos hc, if_pos hc]
        refine ⟨?_, fun s' row? hf => hsound s' row? ?_ ?_⟩
        · show (Strict.Scan.close o s.openTags.length (Scan.strict { s with openTags := rest }) >>=
            fun closed => _) = _
          rw [hclose]
          rfl
        · rw [feed, ht]
          simp only [hlength, if_pos hc]
          exact hf
        · rw [← show _ = s' from congrArg Prod.fst (Except.ok.inj hf)]
          exact hrow
      · rw [if_neg hc, if_neg hc]
        exact ⟨rfl, fun s' row? hf => (by cases hf)⟩

/-- **Events breach nothing**, and come to what they come to for the scan. -/
theorem run_strict (h : s.Sound o) (events : List Event) :
    s.strict.run o events = .ok ((s.run o events).map fun q => (q.1.strict, q.2)) ∧
      ∀ s' rows, s.run o events = .ok (s', rows) → s'.Sound o := by
  induction events generalizing s with
  | nil =>
    refine ⟨rfl, fun s' rows hr => ?_⟩
    cases hr
    exact h
  | cons event rest ih =>
    obtain ⟨hfeed, hsound⟩ := feed_strict h event
    rw [Strict.Scan.run, hfeed]
    cases hf : s.feed o event with
    | error error =>
      rw [run, hf]
      exact ⟨rfl, fun s' rows hr => (by cases hr)⟩
    | ok q =>
      obtain ⟨hrest, hend⟩ := ih (hsound q.1 q.2 hf)
      refine ⟨?_, fun s' rows hr => ?_⟩
      · rw [run_cons hf]
        show (Strict.Scan.run o q.1.strict rest >>= fun later => _) = _
        rw [hrest]
        cases run o q.1 rest <;> rfl
      · obtain ⟨s₁, row?, later, hfirst, hlater, -⟩ := run_cons_eq_ok hr
        cases hf.symm.trans hfirst
        exact hend s' later hlater

/-! ## Open elements and frames -/

/-- **A row is under construction** just where no element is skipped and the open elements reach down
to the depth of rows. -/
theorem Sound.isActive_iff (h : s.Sound o) : s.strict.builder.isActive = true ↔
    s.skipDepth = none ∧ o.dataLevel ≤ s.openTags.length := by
  rw [show s.strict.builder = s.builder.strict from rfl, isActive_strict, Builder.isActive]
  cases h.steady with
  | outside skip row depth =>
    rw [row]
    constructor
    · exact fun hrow => (by cases hrow)
    · exact fun hlevel => absurd hlevel.2 (by omega)
  | inside r skip row depth =>
    rw [row]
    exact ⟨fun _ => ⟨skip, by omega⟩, fun _ => rfl⟩
  | skipping skip row depth =>
    rw [row, skip]
    exact ⟨fun hrow => (by cases hrow), fun hskip => (by cases hskip.1)⟩

/-- **There is a frame for each open element** from the depth of rows on. -/
theorem Sound.length_stack (h : s.Sound o) (ha : s.strict.builder.isActive = true) :
    s.strict.builder.stack.length = s.openTags.length - o.dataLevel + 1 := by
  obtain ⟨hskip, hdepth⟩ := h.isActive_iff.mp ha
  cases h.steady with
  | outside skip row depth => omega
  | skipping skip row depth =>
    rw [skip] at hskip
    cases hskip
  | inside r skip row depth =>
    rw [show s.strict.builder = s.builder.strict from rfl, OpenRow.stack_strict row,
      List.length_cons, List.length_map]
    omega

end Scan

end Tabular
