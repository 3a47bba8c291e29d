import Tabular.Proofs.Strict.Draft

/-!
# Builders by handle

A row builder whose open elements carry handles, those that are no field a number below zero. It
checks what it relies on: that an element is open and a row under construction, that each handle
stands for a field, and that the field of a text was added.

* `Strict.Frame`, `Strict.Builder`, and the steps `Strict.startRow`, `Strict.startChild`,
  `Strict.text`, `Strict.finish`, `Strict.abandon`;
* `OpenRow.Sound`: open elements that stand where their handles lead, flattened ones only below the
  flatten level;
* **`OpenRow.Sound.startChild`**, **`OpenRow.Sound.finish`**: the steps of a sound row breach nothing,
  come to what the row builder comes to, and keep the row sound.
-/

namespace Tabular

namespace Strict

/-- An open element of a row: the handle of a field, or what it is instead. -/
structure Frame where
  handle : Int
  path : Path
  flattened : Bool := false
  hasChildren : Bool := false
  text : String := ""
  deriving Repr, Inhabited

/-- In place of a handle: left out with all it holds. -/
def skip : Int := -1

/-- In place of a handle: outside the projection. -/
def prune : Int := -2

/-- In place of a handle: a column under its own name. -/
def flat : Int := -3

/-- A row under construction and its open elements, innermost first. -/
structure Builder where
  tree : Option Draft := none
  stack : List Frame := []
  sealedRows : Nat := 0
  tally : Tally := {}
  deriving Repr, Inhabited

/-! ## Elements inside a row -/

/-- The draft with the attributes of an element inside the row. -/
def collect (o : ReaderOptions) (label : String) (attributes : Entries String) (d : Draft)
    (t : Tally) : Draft × Tally :=
  let c := Collected.ofNested o.attributeScope o.projection label attributes
    ⟨d.attributes, t.duplicateAttributes⟩
  ({ d with attributes := c.kept }, { t with duplicateAttributes := c.duplicates })

/-- The builder with a further open element. -/
def Builder.push (frame parent : Frame) (outer : List Frame) (work : Draft × Tally) (b : Builder) :
    Builder :=
  { b with
    tree := some work.1
    stack := frame :: { parent with hasChildren := true } :: outer
    tally := work.2 }

/-- The draft with an open element made a map, where it is a field. -/
def madeMap (frame : Frame) (d : Draft) : Except Breach Draft :=
  if 0 ≤ frame.handle then promote frame.handle d else .ok d

/-- A flattened element starts. -/
def startFlattened (o : ReaderOptions) (name : String) (attributes : Entries String)
    (parent : Frame) (outer : List Frame) (d : Draft) (b : Builder) : Except Breach Builder := do
  let d ← madeMap parent d
  return b.push { handle := flat, path := [name], flattened := true } parent outer
    (collect o name attributes d b.tally)

/-- A nested element starts inside one that is not left out. -/
def startNested (o : ReaderOptions) (name : String) (attributes : Entries String) (parent : Frame)
    (outer : List Frame) (d : Draft) (b : Builder) : Except Breach Builder :=
  let path := parent.path ++ [name]
  if parent.handle = prune then
    .ok (b.push { handle := prune, path } parent outer
      (collect o (OpenRow.label path) attributes d b.tally))
  else if path = attributesPath then
    .ok (b.push { handle := skip, path } parent outer
      (d, { b.tally with reservedCollisions := b.tally.reservedCollisions + 1 }))
  else if !o.projection.admits path then do
    let d ← promote parent.handle d
    return b.push { handle := prune, path } parent outer
      (collect o (OpenRow.label path) attributes d b.tally)
  else do
    match ← insert parent.handle name d with
    | none =>
      return b.push { handle := skip, path } parent outer
        (d, { b.tally with duplicateFields := b.tally.duplicateFields + 1 })
    | some (handle, d) =>
      return b.push { handle, path } parent outer
        (collect o (OpenRow.label path) attributes d b.tally)

/-- The text of a new column directly below the row. -/
def addColumn (name : String) (value : Option String) (d : Draft) : Except Breach Draft := do
  match ← insert 0 name d with
  | none => .error .notAdded
  | some (handle, d) => assign handle value d

/-- The column of a flattened element. -/
def putFlattened (o : ReaderOptions) (name : String) (value : Option String) (d : Draft)
    (t : Tally) : Except Breach (Draft × Tally) :=
  if name = attributesName then
    .ok (d, { t with reservedCollisions := t.reservedCollisions + 1 })
  else if !o.projection.admits [name] then .ok (d, t)
  else do
    match ← child 0 name d with
    | none =>
      let d ← addColumn name value d
      return (d, t)
    | some existing =>
      let t := { t with flattenCollisions := t.flattenCollisions + 1 }
      match ← kind existing d, o.flattenCollision with
      | .map, _ => return (d, t)
      | .scalar, .first => return (d, t)
      | .scalar, .last =>
        let d ← assign existing value d
        return (d, t)
      | .scalar, .number =>
        let free := freeName name d.fields 2 d.fields.length
        if o.projection.admits [free] then
          let d ← addColumn free value d
          return (d, t)
        else return (d, t)

/-- What the end of an element does to the draft. -/
def closeFrame (o : ReaderOptions) (frame : Frame) (d : Draft) (t : Tally) :
    Except Breach (Draft × Tally) :=
  if frame.flattened then
    if frame.hasChildren then .ok (d, t)
    else
      match frame.path with
      | [] => .error .noName
      | name :: _ => putFlattened o name (cleaned frame.text) d t
  else if 0 ≤ frame.handle then do
    match ← kind frame.handle d with
    | .map => return (d, t)
    | .scalar =>
      let d ← assign frame.handle (cleaned frame.text) d
      return (d, t)
  else .ok (d, t)

/-! ## Steps of the builder -/

/-- A row is under construction. -/
def Builder.isActive (b : Builder) : Bool :=
  b.tree.isSome

/-- A row element starts. -/
def startRow (o : ReaderOptions) (name : String) (attributes : Entries String) (b : Builder) :
    Builder :=
  let c := Collected.ofRow o.projection attributes ⟨[], b.tally.duplicateAttributes⟩
  { b with
    tree := some { tag := name, attributes := c.kept }
    stack := [{ handle := 0, path := [] }]
    tally := { b.tally with duplicateAttributes := c.duplicates } }

/-- An element starts inside the row. -/
def startChild (o : ReaderOptions) (flattened : Bool) (name : String)
    (attributes : Entries String) (b : Builder) : Except Breach Builder :=
  match b.stack with
  | [] => .error .noFrame
  | parent :: outer =>
    if parent.handle = skip then
      .ok { b with
        stack := { handle := skip, path := parent.path ++ [name] } ::
          { parent with hasChildren := true } :: outer }
    else
      match b.tree with
      | none => .error .noRow
      | some d =>
        if flattened then startFlattened o name attributes parent outer d b
        else startNested o name attributes parent outer d b

/-- Text inside the row. -/
def text (value : String) (b : Builder) : Except Breach Builder :=
  match b.stack with
  | [] => .error .noFrame
  | frame :: outer =>
    if 0 ≤ frame.handle || frame.flattened then
      .ok { b with stack := { frame with text := frame.text ++ value } :: outer }
    else .ok b

/-- The innermost element ends; the row itself, if that was the row element. -/
def finish (o : ReaderOptions) (b : Builder) : Except Breach (Builder × Option Row) :=
  match b.stack, b.tree with
  | [], _ => .error .noFrame
  | _ :: _, none => .error .noRow
  | [_], some d =>
    .ok ({ b with tree := none, stack := [], sealedRows := b.sealedRows + 1 },
      some (d.toRow b.sealedRows))
  | frame :: outer, some d => do
    let work ← closeFrame o frame d b.tally
    return ({ b with tree := some work.1, stack := outer, tally := work.2 }, none)

/-- The row under construction is given up. -/
def abandon (b : Builder) : Builder :=
  { b with tree := none, stack := [] }

end Strict

/-! ## Drafts that keep their handles -/

/-- A draft whose fields have the handles that they had before. -/
structure Draft.Keeps (d d' : Draft) : Prop where
  sound : d'.Sound
  handleAt? : ∀ path, (d.handleAt? path).isSome = true → d'.handleAt? path = d.handleAt? path

namespace Draft

variable {d d' d'' : Draft} {path : Path} {name : String}

theorem Sound.keeps (h : d.Sound) : d.Keeps d :=
  ⟨h, fun _ _ => rfl⟩

theorem Keeps.isSome (h : d.Keeps d') (hp : (d.handleAt? path).isSome = true) :
    (d'.handleAt? path).isSome = true := by
  rw [h.handleAt? path hp]
  exact hp

theorem Keeps.trans (h : d.Keeps d') (h' : d'.Keeps d'') : d.Keeps d'' :=
  ⟨h'.sound, fun path hp => (h'.handleAt? path (h.isSome hp)).trans (h.handleAt? path hp)⟩

theorem Sound.keeps_promote (h : d.Sound) (path : Path) : d.Keeps (d.promote path) :=
  ⟨(h.promote path).1, fun q _ => (h.promote path).2 q⟩

theorem Sound.keeps_assign (h : d.Sound) (path : Path) (value : Option String) :
    d.Keeps (d.assign path value) :=
  ⟨(h.assign path value).1, fun q _ => (h.assign path value).2 q⟩

theorem Sound.keeps_insert (h : d.Sound) (hp : (d.handleAt? path).isSome = true)
    (hi : d.insert path name = some d') : d.Keeps d' :=
  ⟨(h.insert hp hi).1, (h.insert hp hi).2.2⟩

theorem Sound.keeps_collect (h : d.Sound) (o : ReaderOptions) (label : String)
    (attributes : Entries String) (t : Tally) :
    d.Keeps (Strict.collect o label attributes d t).1 :=
  ⟨⟨h.distinct, h.unique, h.range, h.one_le⟩, fun _ _ => rfl⟩

end Draft

/-! ## Columns of flattened elements -/

namespace Strict

variable {o : ReaderOptions} {d d' : Draft} {path : Path} {name : String} {value : Option String}
  {t : Tally}

/-- A column whose name is free is added, and gets its text. -/
theorem addColumn_eq (h : d.Sound) (hn : Field.named? name d.fields = none)
    (value : Option String) :
    addColumn name value d = .ok (d.addColumn name value) ∧ d.Keeps (d.addColumn name value) := by
  obtain ⟨d', hi⟩ : ∃ d', d.insert [] name = some d' :=
    ⟨_, Draft.insert_eq_some_iff.mpr ⟨hn, rfl⟩⟩
  have hkeeps := h.keeps_insert rfl hi
  have hself : d'.handleAt? [name] = some d.size := (h.insert rfl hi).2.1
  have hcolumn : d.addColumn name value = d'.assign [name] value := by
    rw [Draft.addColumn, hi]
  rw [hcolumn, addColumn, ← Int.natCast_zero, insert_eq h d.handleAt?_nil, hi]
  exact ⟨assign_eq hkeeps.sound hself value, hkeeps.trans (hkeeps.sound.keeps_assign [name] value)⟩

theorem handleAt?_of_named? {f : Field} (hf : Field.named? name d.fields = some f) :
    d.handleAt? [name] = some f.handle := by
  rw [Draft.handleAt?_of_ne_nil (List.cons_ne_nil name []), Field.find?, hf]
  rfl

/-- **The column of a flattened element breaches nothing.** -/
theorem putFlattened_eq (h : d.Sound) (o : ReaderOptions) (name : String) (value : Option String)
    (t : Tally) :
    putFlattened o name value d t = .ok (OpenRow.putFlattened o name value d t) ∧
      d.Keeps (OpenRow.putFlattened o name value d t).1 := by
  rw [putFlattened, OpenRow.putFlattened]
  by_cases hn : name = attributesName
  · rw [if_pos hn, if_pos hn]
    exact ⟨rfl, h.keeps⟩
  · rw [if_neg hn, if_neg hn]
    cases hk : o.projection.admits [name] with
    | false => exact ⟨rfl, h.keeps⟩
    | true =>
      simp only [Bool.not_true, Bool.false_eq_true, if_false, child_root h]
      cases hf : Field.named? name d.fields with
      | none =>
        obtain ⟨hadd, hkeeps⟩ := addColumn_eq h hf value
        simp only [Option.map_none, bind, Except.bind, hadd]
        exact ⟨rfl, hkeeps⟩
      | some existing =>
        have hhandle := handleAt?_of_named? hf
        have hnode : d.node? [name] = some existing := hf
        simp only [Option.map_some, bind, Except.bind, kind_eq h hhandle hnode,
          assign_eq h hhandle, Draft.collide]
        cases existing.kind with
        | map => exact ⟨rfl, h.keeps⟩
        | scalar =>
          cases o.flattenCollision with
          | first => exact ⟨rfl, h.keeps⟩
          | last => exact ⟨rfl, h.keeps_assign [name] value⟩
          | number =>
            obtain ⟨n, -, hfree, hnone, -⟩ := freeName_spec name d.fields
            obtain ⟨hadd, hkeeps⟩ := addColumn_eq h hnone value
            simp only [hfree, hadd]
            cases o.projection.admits [numberedName name n] with
            | true => exact ⟨rfl, hkeeps⟩
            | false => exact ⟨rfl, h.keeps⟩

end Strict

/-! ## Open elements and their handles -/

/-- The open element with the handle that its path has in a draft. -/
def Frame.strict (d : Draft) (f : Frame) : Strict.Frame where
  handle :=
    match f.role with
    | .built => ((d.handleAt? f.path).getD 0 : Nat)
    | .flattened => Strict.flat
    | .pruned => Strict.prune
    | .skipped => Strict.skip
  path := f.path
  flattened := f.role = .flattened
  hasChildren := f.hasChildren
  text := f.text

/-- A field stands at the path of the element, or a flattened element stands below the flatten level
and has a name. -/
structure Frame.Sound (o : ReaderOptions) (d : Draft) (depth : Nat) (f : Frame) : Prop where
  built : f.role = .built → (d.handleAt? f.path).isSome = true
  flattened : f.role = .flattened → f.path ≠ [] ∧ o.isFlattened depth = true

/-- Each open element is sound at its depth, the last one at the depth of rows. -/
def Frame.AllSound (o : ReaderOptions) (d : Draft) : List Frame → Prop
  | [] => True
  | f :: outer => f.Sound o d (o.dataLevel + outer.length) ∧ AllSound o d outer

/-- A row under construction whose handles stand for fields. -/
structure OpenRow.Sound (o : ReaderOptions) (r : OpenRow) : Prop where
  draft : r.draft.Sound
  frames : Frame.AllSound o r.draft (r.innermost :: r.outer)

/-- The builder by handle. -/
def Builder.strict (b : Builder) : Strict.Builder where
  tree := b.row.map OpenRow.draft
  stack :=
    match b.row with
    | none => []
    | some r => (r.innermost :: r.outer).map (Frame.strict r.draft)
  sealedRows := b.sealedRows
  tally := b.tally

/-- The builder with another row under construction. -/
def Builder.working (b : Builder) (work : OpenRow × Tally) : Builder :=
  { b with row := some work.1, tally := work.2 }

namespace Frame

variable {o : ReaderOptions} {d d' : Draft} {f : Frame} {frames : List Frame} {depth : Nat}

theorem Sound.of_keeps (h : f.Sound o d depth) (hk : d.Keeps d') : f.Sound o d' depth :=
  ⟨fun hr => hk.isSome (h.built hr), h.flattened⟩

theorem Sound.strict_keeps (h : f.Sound o d depth) (hk : d.Keeps d') : f.strict d' = f.strict d := by
  cases hr : f.role with
  | built => simp only [strict, hr, hk.handleAt? f.path (h.built hr)]
  | flattened => simp only [strict, hr]
  | pruned => simp only [strict, hr]
  | skipped => simp only [strict, hr]

theorem AllSound.of_keeps (h : AllSound o d frames) (hk : d.Keeps d') : AllSound o d' frames := by
  induction frames with
  | nil => trivial
  | cons f outer ih => exact ⟨h.1.of_keeps hk, ih h.2⟩

/-- Open elements keep their handles with the draft. -/
theorem AllSound.strict_keeps (h : AllSound o d frames) (hk : d.Keeps d') :
    frames.map (strict d') = frames.map (strict d) := by
  induction frames with
  | nil => rfl
  | cons f outer ih => rw [List.map_cons, List.map_cons, h.1.strict_keeps hk, ih h.2]

theorem handle_strict (hr : f.role = .built) {k : Nat} (hk : d.handleAt? f.path = some k) :
    (f.strict d).handle = k := by
  simp only [strict, hr, hk, Option.getD_some]

theorem strict_built {path : Path} {k : Nat} (hk : d.handleAt? path = some k) :
    Frame.strict d { role := .built, path } = { handle := k, path } := by
  simp only [strict, hk, Option.getD_some, reduceCtorEq, decide_false]

theorem handle_strict_ne_skip (hr : f.role ≠ .skipped) (d : Draft) :
    (f.strict d).handle ≠ Strict.skip := by
  cases h : f.role with
  | built => simp only [strict, h, Strict.skip]; omega
  | flattened => simp [strict, h, Strict.flat, Strict.skip]
  | pruned => simp [strict, h, Strict.prune, Strict.skip]
  | skipped => exact absurd h hr

/-- What is no field has a number below zero. -/
theorem handle_strict_neg (hr : f.role ≠ .built) (d : Draft) : (f.strict d).handle < 0 := by
  cases h : f.role with
  | built => exact absurd h hr
  | flattened => simp [strict, h, Strict.flat]
  | pruned => simp [strict, h, Strict.prune]
  | skipped => simp [strict, h, Strict.skip]

end Frame

namespace OpenRow

variable {o : ReaderOptions} {r : OpenRow} {d : Draft} {f : Frame} {b : Builder} {name : String}
  {attributes : Entries String} {flattened : Bool}

theorem stack_strict (hb : b.row = some r) :
    b.strict.stack = r.innermost.strict r.draft :: r.outer.map (Frame.strict r.draft) := by
  simp only [Builder.strict, hb, List.map_cons]

theorem tree_strict (hb : b.row = some r) : b.strict.tree = some r.draft := by
  simp only [Builder.strict, hb, Option.map_some]

/-- **A further open element** in a draft that keeps its handles. -/
theorem Sound.push (h : r.Sound o) (hk : r.draft.Keeps d)
    (hf : f.Sound o d (o.dataLevel + r.outer.length + 1)) (t : Tally) (b : Builder) :
    (.ok (b.strict.push (f.strict d) (r.innermost.strict r.draft)
        (r.outer.map (Frame.strict r.draft)) (d, t)) : Except Breach Strict.Builder) =
      .ok (b.working (OpenRow.push f { r with draft := d }, t)).strict ∧
    (OpenRow.push f { r with draft := d }).Sound o := by
  have hinner := h.frames.1.of_keeps hk
  have hparent : Frame.strict d { r.innermost with hasChildren := true } =
      { r.innermost.strict r.draft with hasChildren := true } := by
    rw [← h.frames.1.strict_keeps hk]
    rfl
  refine ⟨?_, hk.sound, hf, ⟨hinner.built, hinner.flattened⟩, h.frames.2.of_keeps hk⟩
  simp only [Builder.strict, Builder.working, OpenRow.push, Option.map_some, List.map_cons, hparent,
    h.frames.2.strict_keeps hk, Strict.Builder.push]

/-! ### Starts -/

theorem Sound.startFlattened (h : r.Sound o) (b : Builder) (name : String)
    (attributes : Entries String)
    (hdeep : o.isFlattened (o.dataLevel + r.outer.length + 1) = true) :
    Strict.startFlattened o name attributes (r.innermost.strict r.draft)
        (r.outer.map (Frame.strict r.draft)) r.draft b.strict =
      .ok (b.working (r.startFlattened o name attributes b.tally)).strict ∧
    (r.startFlattened o name attributes b.tally).1.Sound o := by
  -- the draft in which the element starts
  obtain ⟨d, hstrict, hmade, hk⟩ : ∃ d,
      Strict.madeMap (r.innermost.strict r.draft) r.draft = .ok d ∧
      r.madeMap = { r with draft := d } ∧ r.draft.Keeps d := by
    by_cases hr : r.innermost.role = .built
    · obtain ⟨k, hk⟩ := Option.isSome_iff_exists.mp (h.frames.1.built hr)
      refine ⟨r.draft.promote r.innermost.path, ?_, ?_, h.draft.keeps_promote _⟩
      · rw [Strict.madeMap, Frame.handle_strict hr hk, if_pos (Int.natCast_nonneg k),
          Strict.promote_eq h.draft hk]
      · rw [madeMap, if_pos hr]
        rfl
    · refine ⟨r.draft, ?_, if_neg hr, h.draft.keeps⟩
      rw [Strict.madeMap, if_neg (Int.not_le.mpr (Frame.handle_strict_neg hr r.draft))]
  have hcollect := hk.trans (hk.sound.keeps_collect o name attributes b.tally)
  rw [startFlattened_eq, hmade, Strict.startFlattened, hstrict]
  have hframe : Frame.Sound o (Strict.collect o name attributes d b.tally).1
      (o.dataLevel + r.outer.length + 1) { role := .flattened, path := [name] } :=
    ⟨fun hr => (by cases hr), fun _ => ⟨List.cons_ne_nil name [], hdeep⟩⟩
  exact h.push hcollect hframe _ b

theorem sound_leftOut {role : Role} (hr : role = .pruned ∨ role = .skipped) (d : Draft) (depth : Nat)
    (path : Path) : Frame.Sound o d depth { role, path } := by
  rcases hr with rfl | rfl
  · exact ⟨fun h => (by cases h), fun h => (by cases h)⟩
  · exact ⟨fun h => (by cases h), fun h => (by cases h)⟩

theorem Sound.startPruned (h : r.Sound o) (hr : r.innermost.role = .pruned) (b : Builder)
    (name : String) (attributes : Entries String) :
    Strict.startNested o name attributes (r.innermost.strict r.draft)
        (r.outer.map (Frame.strict r.draft)) r.draft b.strict =
      .ok (b.working (r.startChild o false name attributes b.tally)).strict ∧
    (r.startChild o false name attributes b.tally).1.Sound o := by
  have hk := h.draft.keeps_collect o (label (r.innermost.path ++ [name])) attributes b.tally
  have hhandle : (r.innermost.strict r.draft).handle = Strict.prune := by
    simp only [Frame.strict, hr]
  rw [startChild_of_pruned hr, Strict.startNested]
  simp only [hhandle, if_true]
  exact h.push hk (sound_leftOut (Or.inl rfl) _ _ _) _ b

theorem Sound.startField (h : r.Sound o) (hr : r.innermost.role = .built) (b : Builder)
    (name : String) (attributes : Entries String) :
    Strict.startNested o name attributes (r.innermost.strict r.draft)
        (r.outer.map (Frame.strict r.draft)) r.draft b.strict =
      .ok (b.working (r.startField o name attributes b.tally)).strict ∧
    (r.startField o name attributes b.tally).1.Sound o := by
  obtain ⟨k, hk⟩ := Option.isSome_iff_exists.mp (h.frames.1.built hr)
  have hhandle := Frame.handle_strict hr hk
  have hpath : (r.innermost.strict r.draft).path = r.innermost.path := rfl
  have hne : ¬ (k : Int) = Strict.prune := by
    rw [Strict.prune]
    omega
  rw [Strict.startNested, OpenRow.startField]
  simp only [hhandle, hpath, if_neg hne]
  by_cases hreserved : r.innermost.path ++ [name] = attributesPath
  · rw [if_pos hreserved, if_pos hreserved]
    exact h.push h.draft.keeps (sound_leftOut (Or.inr rfl) _ _ _) _ b
  · rw [if_neg hreserved, if_neg hreserved]
    cases hadmits : o.projection.admits (r.innermost.path ++ [name]) with
    | false =>
      have hpromote := h.draft.keeps_promote r.innermost.path
      have hcollect := hpromote.trans (hpromote.sound.keeps_collect o
        (label (r.innermost.path ++ [name])) attributes b.tally)
      simp only [Bool.not_false, if_true, Strict.promote_eq h.draft hk, bind, Except.bind]
      exact h.push hcollect (sound_leftOut (Or.inl rfl) _ _ _) _ b
    | true =>
      simp only [Bool.not_true, Bool.false_eq_true, if_false, Strict.insert_eq h.draft hk, bind,
        Except.bind]
      cases hi : r.draft.insert r.innermost.path name with
      | none =>
        exact h.push h.draft.keeps (sound_leftOut (Or.inr rfl) _ _ _) _ b
      | some d =>
        have hpath' : (r.draft.handleAt? r.innermost.path).isSome = true := h.frames.1.built hr
        have hinsert := h.draft.keeps_insert hpath' hi
        have hcollect := hinsert.trans (hinsert.sound.keeps_collect o
          (label (r.innermost.path ++ [name])) attributes b.tally)
        -- the new field has the handle that the insertion gave
        have hnew : (Strict.collect o (label (r.innermost.path ++ [name])) attributes d
            b.tally).1.handleAt? (r.innermost.path ++ [name]) = some r.draft.size :=
          (h.draft.insert hpath' hi).2.1
        have hframe : Frame.Sound o (Strict.collect o (label (r.innermost.path ++ [name])) attributes d
            b.tally).1 (o.dataLevel + r.outer.length + 1)
            { role := .built, path := r.innermost.path ++ [name] } :=
          ⟨fun _ => Option.isSome_iff_exists.mpr ⟨_, hnew⟩, fun h => (by cases h)⟩
        have hpush := h.push hcollect hframe
          (Strict.collect o (label (r.innermost.path ++ [name])) attributes d b.tally).2 b
        rw [Frame.strict_built hnew] at hpush
        exact hpush

/-- **An element that starts breaches nothing.** It is flattened by its depth. -/
theorem Sound.startChild (h : r.Sound o) (hb : b.row = some r) (name : String)
    (attributes : Entries String)
    (hf : flattened = o.isFlattened (o.dataLevel + r.outer.length + 1)) :
    Strict.startChild o flattened name attributes b.strict =
      .ok (b.startChild o flattened name attributes).strict ∧
    (r.startChild o flattened name attributes b.tally).1.Sound o := by
  have hmodel : b.startChild o flattened name attributes =
      b.working (r.startChild o flattened name attributes b.tally) := by
    simp only [Builder.startChild, hb]
    rfl
  rw [hmodel, Strict.startChild, stack_strict hb]
  simp only [tree_strict hb]
  by_cases hr : r.innermost.role = .skipped
  · have hhandle : (r.innermost.strict r.draft).handle = Strict.skip := by
      simp only [Frame.strict, hr]
    rw [if_pos hhandle, startChild_of_skipped hr]
    obtain ⟨hpush, hsound⟩ := h.push h.draft.keeps
      (sound_leftOut (Or.inr rfl) r.draft _ (r.innermost.path ++ [name])) b.tally b
    refine ⟨Eq.trans ?_ hpush, hsound⟩
    rw [Strict.Builder.push, ← tree_strict hb]
    rfl
  · rw [if_neg (Frame.handle_strict_ne_skip hr r.draft)]
    cases flattened with
    | true =>
      rw [startChild_flattened hr]
      exact h.startFlattened b name attributes hf.symm
    | false =>
      cases hrole : r.innermost.role with
      | skipped => exact absurd hrole hr
      | flattened =>
        -- below a flattened element there are flattened ones only
        have hdeep := isFlattened_succ (h.frames.1.flattened hrole).2
        rw [← hf] at hdeep
        cases hdeep
      | pruned => exact h.startPruned hrole b name attributes
      | built =>
        rw [startChild_of_built hrole]
        exact h.startField hrole b name attributes

theorem sound_startRow (o : ReaderOptions) (tag : String) (attributes : Entries (Option String)) :
    Sound o ⟨{ tag, attributes }, { role := .built, path := [] }, []⟩ :=
  ⟨Draft.sound_start tag attributes, ⟨fun _ => rfl, fun h => (by cases h)⟩, trivial⟩

/-! ### Texts and ends -/

/-- **A text breaches nothing.** -/
theorem Sound.text (h : r.Sound o) (hb : b.row = some r) (value : String) :
    Strict.text value b.strict = .ok (b.text value).strict ∧ (r.text value).Sound o := by
  have hmodel : b.text value = { b with row := some (r.text value) } := by
    rw [Builder.text, hb]
    rfl
  rw [hmodel, Strict.text, stack_strict hb]
  have hcond : (decide (0 ≤ (r.innermost.strict r.draft).handle) ||
      (r.innermost.strict r.draft).flattened) =
      decide (r.innermost.role = .built ∨ r.innermost.role = .flattened) := by
    cases hr : r.innermost.role <;>
      simp [Frame.strict, hr, Strict.flat, Strict.prune, Strict.skip]
  simp only [hcond, decide_eq_true_eq]
  have hkept : ∀ frame : Frame, (frame.role = r.innermost.role) → (frame.path = r.innermost.path) →
      Sound o { r with innermost := frame } := by
    intro frame hrole hpath
    refine ⟨h.draft, ⟨fun hr => ?_, fun hr => ?_⟩, h.frames.2⟩
    · rw [hpath]
      exact h.frames.1.built (hrole ▸ hr)
    · rw [hpath]
      exact h.frames.1.flattened (hrole ▸ hr)
  by_cases hr : r.innermost.role = .built ∨ r.innermost.role = .flattened
  · have htext : r.text value =
        { r with innermost := { r.innermost with text := r.innermost.text ++ value } } := by
      rcases hr with hr | hr
      · simp only [OpenRow.text, hr]
      · simp only [OpenRow.text, hr]
    rw [if_pos hr, htext]
    refine ⟨?_, hkept _ rfl rfl⟩
    simp only [Builder.strict, hb]
    rfl
  · have htext : r.text value = r := by
      rw [not_or] at hr
      cases hrole : r.innermost.role with
      | built => exact absurd hrole hr.1
      | flattened => exact absurd hrole hr.2
      | pruned => simp only [OpenRow.text, hrole]
      | skipped => simp only [OpenRow.text, hrole]
    rw [if_neg hr, htext, ← hb]
    exact ⟨rfl, h⟩

/-- The end of an element inside the row breaches nothing. -/
theorem Sound.closeFrame (h : r.Sound o) (t : Tally) :
    Strict.closeFrame o (r.innermost.strict r.draft) r.draft t =
      .ok (OpenRow.closeFrame o r.innermost r.draft t) ∧
    r.draft.Keeps (OpenRow.closeFrame o r.innermost r.draft t).1 := by
  rw [Strict.closeFrame, OpenRow.closeFrame]
  cases hr : r.innermost.role with
  | built =>
    obtain ⟨k, hk⟩ := Option.isSome_iff_exists.mp (h.frames.1.built hr)
    obtain ⟨f, hf⟩ : ∃ f, r.draft.node? r.innermost.path = some f := by
      rw [Draft.handleAt?] at hk
      obtain ⟨f, hf, -⟩ := Option.map_eq_some_iff.mp hk
      exact ⟨f, hf⟩
    have hflat : (r.innermost.strict r.draft).flattened = false := by
      simp [Frame.strict, hr]
    rw [Frame.handle_strict hr hk, if_pos (Int.natCast_nonneg k)]
    simp only [hflat, Bool.false_eq_true, if_false, Strict.kind_eq h.draft hk hf, bind, Except.bind]
    refine ⟨?_, h.draft.keeps_assign _ _⟩
    cases hkind : f.kind with
    | map =>
      rw [Draft.assign_of_map hf hkind]
      rfl
    | scalar =>
      simp only [Strict.assign_eq h.draft hk]
      rfl
  | flattened =>
    have hflat : (r.innermost.strict r.draft).flattened = true := by
      simp [Frame.strict, hr]
    obtain ⟨name, rest, hpath⟩ := List.exists_cons_of_ne_nil (h.frames.1.flattened hr).1
    have hstrict : (r.innermost.strict r.draft).path = name :: rest := hpath
    rw [if_pos hflat, hstrict, hpath]
    show (if r.innermost.hasChildren then _ else _) = _ ∧ _
    split
    · exact ⟨rfl, h.draft.keeps⟩
    · exact Strict.putFlattened_eq h.draft o name (cleaned r.innermost.text) t
  | pruned => exact ⟨by simp [Frame.strict, hr, Strict.prune], h.draft.keeps⟩
  | skipped => exact ⟨by simp [Frame.strict, hr, Strict.skip], h.draft.keeps⟩

/-- **An element that ends breaches nothing.** -/
theorem Sound.finish (h : r.Sound o) (hb : b.row = some r) :
    Strict.finish o b.strict = .ok ((b.finish o).1.strict, (b.finish o).2) ∧
    (r.outer ≠ [] → (r.leave o b.tally).1.Sound o) := by
  rw [Strict.finish, stack_strict hb, tree_strict hb]
  cases ho : r.outer with
  | nil =>
    rw [Builder.finish_of_row hb ho]
    exact ⟨rfl, fun hne => absurd rfl hne⟩
  | cons frame outer =>
    have hne : r.outer ≠ [] := by simp [ho]
    obtain ⟨hclose, hk⟩ := h.closeFrame b.tally
    have hframes := h.frames.2
    rw [ho] at hframes
    have hleave : (r.leave o b.tally) =
        (⟨(OpenRow.closeFrame o r.innermost r.draft b.tally).1, frame, outer⟩,
          (OpenRow.closeFrame o r.innermost r.draft b.tally).2) := by
      simp only [leave, ho]
    have hmap := hframes.strict_keeps hk
    rw [Builder.finish_of_inside hb hne, hleave]
    refine ⟨?_, fun _ => ⟨hk.sound, hframes.of_keeps hk⟩⟩
    simp only [List.map_cons] at hmap ⊢
    simp only [hclose, bind, Except.bind, Builder.strict, Option.map_some, List.map_cons, hmap]
    rfl

end OpenRow

end Tabular
