import Tabular.Proofs.Row.Steps
import Tabular.Proofs.Row.Thinned

/-!
# Rows under a narrower projection

Two rows under construction that read the same events, one for every column and one for a
projection. Their open elements differ where the projection leaves something out, or where the wide
row skips what the narrow one has never seen.

* `ReaderOptions.Narrows`: options under which attributes and numbered columns are told apart;
* `Frame.Narrowed`, `Frames`: an open element in both rows, and all of them;
* `OpenRow.Narrowed`: the rows;
* `OpenRow.Settles`: no flattened element that the wide row skips matters to the narrow one;
* **`narrowed_startChild`**, **`narrowed_text`**, **`narrowed_leave`**: the steps keep rows
  narrowed.
-/

namespace Tabular

/-- Attributes inside rows do not count for the projection, and numbered columns are asked for
together with those before them. -/
structure ReaderOptions.Narrows (o : ReaderOptions) (p : Projection) : Prop where
  attributes : o.attributeScope = .row ∨ p.wantsAttributes = false
  numbers : o.flattenLevel ≠ none → o.flattenCollision = .number → p.HoldsNumbers

/-! ## Open elements -/

/-- The path does not lead into an element named as the attributes of the row. -/
def OutsideAttributes (path : Path) : Prop :=
  path.head? ≠ some attributesName

theorem OutsideAttributes.append {path : Path} {name : String} (h : OutsideAttributes path)
    (hn : path ++ [name] ≠ attributesPath) : OutsideAttributes (path ++ [name]) := by
  cases path with
  | nil =>
    intro hh
    exact hn (congrArg (fun n => [n]) (Option.some.inj hh))
  | cons a rest => exact h

/-- An open element at a depth in the wide row and in the narrow one. -/
inductive Frame.Narrowed (o : ReaderOptions) (p : Projection) (depth : Nat) :
    Frame → Frame → Prop where
  /-- A field of both rows. -/
  | built {path : Path} {hasChildren : Bool} {text : String} :
      path = [] ∨ p.admits path = true → OutsideAttributes path →
      Narrowed o p depth ⟨.built, path, hasChildren, text⟩ ⟨.built, path, hasChildren, text⟩
  /-- A flattened element of both rows. -/
  | flattened {path : Path} {hasChildren : Bool} {text : String} :
      o.isFlattened depth = true →
      Narrowed o p depth ⟨.flattened, path, hasChildren, text⟩ ⟨.flattened, path, hasChildren, text⟩
  /-- An element that both rows skip. -/
  | skipped {path : Path} {inWide inNarrow : Bool} {text text' : String} :
      Narrowed o p depth ⟨.skipped, path, inWide, text⟩ ⟨.skipped, path, inNarrow, text'⟩
  /-- An element outside the projection. -/
  | pruned {role : Role} {path : Path} {inWide inNarrow : Bool} {text text' : String} :
      role = .built ∨ role = .skipped → path ≠ [] → OutsideAttributes path →
      p.admits path = false →
      Narrowed o p depth ⟨role, path, inWide, text⟩ ⟨.pruned, path, inNarrow, text'⟩
  /-- A flattened element that the wide row skips. -/
  | hidden {above : Path} {name : String} {hasChildren : Bool} {text text' : String} :
      OutsideAttributes (above ++ [name]) → p.admits (above ++ [name]) = false →
      o.isFlattened depth = true →
      Narrowed o p depth ⟨.skipped, above ++ [name], hasChildren, text⟩
        ⟨.flattened, [name], hasChildren, text'⟩

/-- The open elements of two rows, innermost first, down from a depth to that of rows. -/
inductive Frames (o : ReaderOptions) (p : Projection) : Nat → List Frame → List Frame → Prop where
  | nil {depth : Nat} : depth + 1 = o.dataLevel → Frames o p depth [] []
  | cons {depth : Nat} {w n : Frame} {ws ns : List Frame} :
      Frame.Narrowed o p (depth + 1) w n → Frames o p depth ws ns →
      Frames o p (depth + 1) (w :: ws) (n :: ns)

/-- An open field is there. -/
def Frame.IsPresent (d : Draft) (f : Frame) : Prop :=
  f.role = .built → f.path = [] ∨ Field.has f.path d.fields = true

section Frames

variable {o : ReaderOptions} {p : Projection} {depth : Nat} {w n : Frame}

/-- A child was seen inside the element. -/
theorem Frame.Narrowed.parent (h : Frame.Narrowed o p depth w n) :
    Frame.Narrowed o p depth { w with hasChildren := true } { n with hasChildren := true } := by
  cases h with
  | built hp ho => exact .built hp ho
  | flattened hf => exact .flattened hf
  | skipped => exact .skipped
  | pruned hr hp ho hk => exact .pruned hr hp ho hk
  | hidden ho hk hf => exact .hidden ho hk hf

theorem Frames.depth_eq {ws ns : List Frame} (h : Frames o p depth ws ns) :
    depth + 1 = o.dataLevel + ws.length := by
  induction h with
  | nil hd => exact hd
  | cons _ _ ih => rw [ih, List.length_cons, Nat.add_assoc]

theorem Frames.length_eq {ws ns : List Frame} (h : Frames o p depth ws ns) :
    ws.length = ns.length := by
  induction h with
  | nil _ => rfl
  | cons _ _ ih => rw [List.length_cons, List.length_cons, ih]

end Frames

namespace Draft

variable {d d' : Draft} {path : Path} {name : String}

theorem has_insert (h : d.insert path name = some d') (other : Path)
    (hd : Field.has other d.fields = true) : Field.has other d'.fields = true := by
  unfold insert at h
  split at h
  · cases h
  · cases h
    exact Field.has_addAt path _ hd

/-- A new text is there. -/
theorem has_insert_self (hd : path = [] ∨ Field.has path d.fields = true)
    (h : d.insert path name = some d') : Field.has (path ++ [name]) d'.fields = true := by
  unfold insert at h
  split at h
  · cases h
  · cases h
    exact Field.has_addAt_self hd (.scalar name d.size none)

theorem has_assign (h : Field.has path d.fields = true) (place : Path) (value : Option String) :
    Field.has path (d.assign place value).fields = true :=
  Field.has_changeAt (Field.growing_assigned value) place h

theorem has_addColumn (h : Field.has path d.fields = true) (name : String)
    (value : Option String) : Field.has path (d.addColumn name value).fields = true := by
  unfold addColumn
  cases hi : d.insert [] name with
  | none => exact h
  | some d' => exact has_assign (has_insert hi path h) [name] value

/-- The column of a flattened element takes no field away. -/
theorem has_put (h : Field.has path d.fields = true) (o : ReaderOptions) (name : String)
    (value : Option String) : Field.has path (d.put o name value).fields = true := by
  unfold put
  split
  · exact h
  · split
    · exact has_addColumn h name value
    · unfold collide
      split
      · exact h
      · exact h
      · exact has_assign h [name] value
      · simp only
        split
        · exact has_addColumn h _ value
        · exact h

end Draft

/-! ## Rows -/

namespace OpenRow

/-- Two rows under construction with their innermost element at a depth. -/
structure Narrowed (o : ReaderOptions) (p : Projection) (depth : Nat) (w n : OpenRow) : Prop where
  draft : w.draft.Thinned p n.draft
  frames : Frames o p depth (w.innermost :: w.outer) (n.innermost :: n.outer)
  /-- Every open field of the wide row is there. -/
  present : ∀ f ∈ w.innermost :: w.outer, f.IsPresent w.draft

/-- The innermost element is no flattened element that the wide row skips while the narrow one takes
its text, unless that has no effect. -/
def Settles (o : ReaderOptions) (p : Projection) (depth : Nat) (r : OpenRow) : Prop :=
  ∀ above name, r.innermost.role = .skipped → r.innermost.path = above ++ [name] →
    r.innermost.hasChildren = false → o.isFlattened depth = true →
    OutsideAttributes (above ++ [name]) → p.admits (above ++ [name]) = false →
    name ≠ attributesName → p.admits [name] = true → r.draft.Settles o p name

section Steps

variable {o : ReaderOptions} {p : Projection} {depth : Nat} {w n : OpenRow}

/-- A child in both rows, over drafts that may have grown. -/
theorem Narrowed.push (h : Narrowed o p depth w n) {dw dn : Draft} {fw fn : Frame}
    (hd : dw.Thinned p dn)
    (hgrow : ∀ path, Field.has path w.draft.fields = true → Field.has path dw.fields = true)
    (hf : Frame.Narrowed o p (depth + 1) fw fn)
    (hnew : fw.IsPresent dw) :
    Narrowed o p (depth + 1) (({ w with draft := dw } : OpenRow).push fw)
      (({ n with draft := dn } : OpenRow).push fn) := by
  refine ⟨hd, .cons hf ?_, ?_⟩
  · cases h.frames with
    | cons hi ho => exact .cons hi.parent ho
  · intro f hmem hr
    rcases List.mem_cons.mp hmem with rfl | hmem
    · exact hnew hr
    · rcases List.mem_cons.mp hmem with rfl | hmem
      · exact (h.present _ List.mem_cons_self hr).imp_right (hgrow _)
      · exact (h.present f (List.mem_cons_of_mem _ hmem) hr).imp_right (hgrow _)

theorem narrowed_text (h : Narrowed o p depth w n) (value : String) :
    Narrowed o p depth (w.text value) (n.text value) := by
  obtain ⟨dw, fw, ws⟩ := w
  obtain ⟨dn, fn, ns⟩ := n
  obtain ⟨hd, hframes, hpresent⟩ := h
  obtain ⟨hin, houter⟩ := List.forall_mem_cons.mp hpresent
  cases hframes with
  | cons hi ho =>
    cases hi with
    | built hp hout =>
      exact ⟨hd, .cons (.built hp hout) ho, List.forall_mem_cons.mpr ⟨hin, houter⟩⟩
    | flattened hf => exact ⟨hd, .cons (.flattened hf) ho, List.forall_mem_cons.mpr ⟨hin, houter⟩⟩
    | skipped => exact ⟨hd, .cons .skipped ho, List.forall_mem_cons.mpr ⟨hin, houter⟩⟩
    | hidden hout hk hf =>
      exact ⟨hd, .cons (.hidden hout hk hf) ho, List.forall_mem_cons.mpr ⟨hin, houter⟩⟩
    | pruned hr hp hout hk =>
      rcases hr with rfl | rfl
      · exact ⟨hd, .cons (.pruned (Or.inl rfl) hp hout hk) ho,
          List.forall_mem_cons.mpr ⟨hin, houter⟩⟩
      · exact ⟨hd, .cons (.pruned (Or.inr rfl) hp hout hk) ho,
          List.forall_mem_cons.mpr ⟨hin, houter⟩⟩

/-- A flattened element starts in both rows. -/
theorem narrowed_startFlattened (ho : o.Narrows p) (h : Narrowed o p depth w n)
    (hmade : w.madeMap.draft.Thinned p n.madeMap.draft)
    (hflat : o.isFlattened (depth + 1) = true) (name : String) (attributes : Entries String)
    (t t' : Tally) :
    Narrowed o p (depth + 1) (w.startFlattened (o.projected .all) name attributes t).1
      (n.startFlattened (o.projected p) name attributes t').1 := by
  rw [startFlattened_fst, startFlattened_fst]
  refine h.push ((hmade.collected_wide ho.attributes name attributes).collected_narrow
    ho.attributes name attributes) (fun path hp => ?_) (.flattened hflat) (fun hr => by cases hr)
  show Field.has path w.madeMap.draft.fields = true
  unfold madeMap
  split
  · exact Field.has_changeAt Field.growing_promoted _ hp
  · exact hp

/-- A nested element starts in a field of both rows. -/
theorem narrowed_startField (ho : o.Narrows p) (h : Narrowed o p depth w n)
    (hpath : n.innermost.path = w.innermost.path) (hw : w.innermost.role = .built)
    (hk : w.innermost.path = [] ∨ p.admits w.innermost.path = true)
    (hout : OutsideAttributes w.innermost.path) (name : String) (attributes : Entries String)
    (t t' : Tally) :
    Narrowed o p (depth + 1) (w.startField (o.projected .all) name attributes t).1
      (n.startField (o.projected p) name attributes t').1 := by
  have hhas : w.innermost.path = [] ∨ p.admits w.innermost.path = true ∧
      Field.has w.innermost.path w.draft.fields = true := by
    rcases h.present _ List.mem_cons_self hw with he | hhas
    · exact Or.inl he
    · exact hk.imp_right fun hk => ⟨hk, hhas⟩
  by_cases hattr : w.innermost.path ++ [name] = attributesPath
  · rw [startField_reserved hattr, startField_reserved (by rw [hpath]; exact hattr), hpath]
    exact h.push h.draft (fun _ => id) .skipped fun hr => by cases hr
  · have hattr' : n.innermost.path ++ [name] ≠ attributesPath := by rw [hpath]; exact hattr
    have houtside := hout.append hattr
    have hall : (o.projected .all).projection.admits (w.innermost.path ++ [name]) = true := rfl
    cases hadm : p.admits (w.innermost.path ++ [name]) with
    | false =>
      have hadm' : (o.projected p).projection.admits (n.innermost.path ++ [name]) = false := by
        rw [hpath]
        exact hadm
      have hne : w.innermost.path ++ [name] ≠ [] := by simp
      rw [startField_pruned hattr' hadm', hpath]
      rcases h.draft.insert_hidden hhas hadm with ⟨hi, hd⟩ | ⟨dw, hi, hd⟩
      · rw [startField_skipped hattr hall hi]
        exact h.push (hd.collected_narrow ho.attributes _ _) (fun _ => id)
          (.pruned (Or.inr rfl) hne houtside hadm) fun hr => by cases hr
      · rw [startField_built hattr hall hi]
        have hgrow := Draft.has_insert hi
        have hself := Draft.has_insert_self (hhas.imp_right And.right) hi
        exact h.push ((hd.collected_wide ho.attributes _ _).collected_narrow ho.attributes _ _)
          hgrow (.pruned (Or.inl rfl) hne houtside hadm) fun _ => Or.inr hself
    | true =>
      have hadm' : (o.projected p).projection.admits (n.innermost.path ++ [name]) = true := by
        rw [hpath]
        exact hadm
      rcases h.draft.insert hadm with ⟨hi, hi'⟩ | ⟨dw, dn, hi, hi', hd⟩
      · rw [startField_skipped hattr hall hi,
          startField_skipped hattr' hadm' (by rw [hpath]; exact hi'), hpath]
        exact h.push h.draft (fun _ => id) .skipped fun hr => by cases hr
      · rw [startField_built hattr hall hi,
          startField_built hattr' hadm' (by rw [hpath]; exact hi'), hpath]
        have hgrow := Draft.has_insert hi
        have hself := Draft.has_insert_self (hhas.imp_right And.right) hi
        exact h.push ((hd.collected_wide ho.attributes _ _).collected_narrow ho.attributes _ _)
          hgrow (.built (Or.inr hadm) houtside) fun _ => Or.inr hself

/-- A nested element starts outside the projection. -/
theorem narrowed_startPruned (ho : o.Narrows p) (h : Narrowed o p depth w n)
    (hpath : n.innermost.path = w.innermost.path)
    (hw : w.innermost.role = .built ∨ w.innermost.role = .skipped)
    (hn : n.innermost.role = .pruned) (hne : w.innermost.path ≠ [])
    (hout : OutsideAttributes w.innermost.path) (hk : p.admits w.innermost.path = false)
    (name : String) (attributes : Entries String) (t t' : Tally) :
    Narrowed o p (depth + 1) (w.startChild (o.projected .all) false name attributes t).1
      (n.startChild (o.projected p) false name attributes t').1 := by
  have hne' : w.innermost.path ++ [name] ≠ attributesPath := by
    rw [Ne, append_eq_attributesPath]
    exact fun h => hne h.1
  have hk' := p.closed_admits.not_append hne hk [name]
  have hframe : ∀ {role}, role = .built ∨ role = .skipped → Frame.Narrowed o p (depth + 1)
      { role, path := w.innermost.path ++ [name] }
      { role := .pruned, path := w.innermost.path ++ [name] } :=
    fun hr => .pruned hr (by simp) (hout.append hne') hk'
  rw [startPruned_fst hn, hpath]
  rcases hw with hbuilt | hskipped
  · rw [startChild_of_built hbuilt]
    have hall : (o.projected .all).projection.admits (w.innermost.path ++ [name]) = true := rfl
    have hhas := (h.present _ List.mem_cons_self hbuilt).resolve_left hne
    cases hi : w.draft.insert w.innermost.path name with
    | none =>
      rw [startField_skipped hne' hall hi]
      exact h.push (h.draft.collected_narrow ho.attributes _ _) (fun _ => id)
        (hframe (Or.inr rfl)) fun hr => by cases hr
    | some dw =>
      rw [startField_built hne' hall hi]
      have hd := h.draft.insert_outside hne hk hhas hi
      have hgrow := Draft.has_insert hi
      have hself := Draft.has_insert_self (Or.inr hhas) hi
      exact h.push ((hd.collected_wide ho.attributes _ _).collected_narrow ho.attributes _ _)
        hgrow (hframe (Or.inl rfl)) fun _ => Or.inr hself
  · rw [startChild_of_skipped hskipped]
    exact h.push (h.draft.collected_narrow ho.attributes _ _) (fun _ => id)
      (hframe (Or.inr rfl)) fun hr => by cases hr

/-- A flattened element starts that only the narrow row sees. -/
theorem narrowed_startHidden (ho : o.Narrows p) (h : Narrowed o p depth w n)
    (hw : w.innermost.role = .skipped) (hn : n.innermost.role ≠ .built)
    (hout : OutsideAttributes (w.innermost.path)) (hne : w.innermost.path ≠ [])
    (hk : p.admits w.innermost.path = false) (hflat : o.isFlattened (depth + 1) = true)
    (name : String) (attributes : Entries String) (t t' : Tally) :
    Narrowed o p (depth + 1) (w.startChild (o.projected .all) true name attributes t).1
      (n.startFlattened (o.projected p) name attributes t').1 := by
  have hne' : w.innermost.path ++ [name] ≠ attributesPath := by
    rw [Ne, append_eq_attributesPath]
    exact fun h => hne h.1
  have hmade : n.madeMap = n := if_neg hn
  rw [startChild_of_skipped hw, startFlattened_fst, hmade]
  exact h.push (h.draft.collected_narrow ho.attributes _ _) (fun _ => id)
    (.hidden (hout.append hne') (p.closed_admits.not_append hne hk [name]) hflat)
    fun hr => by cases hr

/-- **The start of an element keeps rows narrowed.** -/
theorem narrowed_startChild (ho : o.Narrows p) (h : Narrowed o p depth w n) (name : String)
    (attributes : Entries String) (t t' : Tally) :
    Narrowed o p (depth + 1)
      (w.startChild (o.projected .all) (o.isFlattened (depth + 1)) name attributes t).1
      (n.startChild (o.projected p) (o.isFlattened (depth + 1)) name attributes t').1 := by
  obtain ⟨dw, fw, ws⟩ := w
  obtain ⟨dn, fn, ns⟩ := n
  cases h.frames with
  | @cons depth _ _ _ _ hi houter =>
    cases hi with
    | skipped =>
      rw [startChild_of_skipped rfl, startChild_of_skipped rfl]
      exact h.push h.draft (fun _ => id) .skipped fun hr => by cases hr
    | flattened hf =>
      rw [startChild_of_flattened rfl, startChild_of_flattened rfl]
      exact narrowed_startFlattened ho h h.draft (isFlattened_succ hf) name attributes t t'
    | hidden hout hk hf =>
      rw [isFlattened_succ hf, startChild_of_flattened (r := ⟨dn, _, ns⟩) rfl]
      exact narrowed_startHidden ho h rfl (by simp) hout (by simp) hk (isFlattened_succ hf) name
        attributes t t'
    | built hk hout =>
      cases hf : o.isFlattened (depth + 1 + 1) with
      | false =>
        rw [startChild_of_built rfl, startChild_of_built rfl]
        exact narrowed_startField ho h rfl rfl hk hout name attributes t t'
      | true =>
        rw [startChild_flattened (by simp), startChild_flattened (by simp)]
        exact narrowed_startFlattened ho h (h.draft.promote hk) hf name attributes t t'
    | pruned hr hne hout hk =>
      cases hf : o.isFlattened (depth + 1 + 1) with
      | false => exact narrowed_startPruned ho h rfl hr rfl hne hout hk name attributes t t'
      | true =>
        rw [startChild_flattened (r := ⟨dn, _, ns⟩) (by simp)]
        rcases hr with rfl | rfl
        · rw [startChild_flattened (by simp)]
          exact narrowed_startFlattened ho h (h.draft.promote_wide hk) hf name attributes t t'
        · exact narrowed_startHidden ho h rfl (by simp) hout hne hk hf name attributes t t'

/-- The end of an element in both rows, over drafts that may have grown. -/
theorem Narrowed.pop (h : Narrowed o p (depth + 1) w n) (hne : w.outer ≠ []) {t t' : Tally}
    (hd : (closeFrame (o.projected .all) w.innermost w.draft t).1.Thinned p
      (closeFrame (o.projected p) n.innermost n.draft t').1)
    (hgrow : ∀ path, Field.has path w.draft.fields = true →
      Field.has path (closeFrame (o.projected .all) w.innermost w.draft t).1.fields = true) :
    Narrowed o p depth (w.leave (o.projected .all) t).1 (n.leave (o.projected p) t').1 := by
  obtain ⟨dw, fw, ws⟩ := w
  obtain ⟨dn, fn, ns⟩ := n
  obtain ⟨_, hframes, hpresent⟩ := h
  cases hframes with
  | cons hi houter =>
    cases houter with
    | nil => exact absurd rfl hne
    | cons hi' houter' =>
      refine ⟨hd, .cons hi' houter', fun f hmem hr => ?_⟩
      exact (hpresent f (List.mem_cons_of_mem _ hmem) hr).imp_right (hgrow f.path)

/-- **The end of an element keeps rows narrowed**, where what only the narrow row sees is settled. -/
theorem narrowed_leave (ho : o.Narrows p) (h : Narrowed o p (depth + 1) w n) (hne : w.outer ≠ [])
    (hs : w.Settles o p (depth + 1)) (t t' : Tally) :
    Narrowed o p depth (w.leave (o.projected .all) t).1 (n.leave (o.projected p) t').1 := by
  have hnum : ∀ {d}, o.isFlattened d = true → o.flattenCollision = .number → p.HoldsNumbers := by
    intro d hf
    refine ho.numbers ?_
    intro hnone
    rw [ReaderOptions.isFlattened, hnone] at hf
    cases hf
  refine h.pop hne ?_ ?_
  · obtain ⟨dw, fw, ws⟩ := w
    obtain ⟨dn, fn, ns⟩ := n
    cases h.frames with
    | cons hi _ =>
      cases hi with
      | skipped => exact h.draft
      | built hk hout =>
        exact h.draft.assign hk
      | flattened hf =>
        rw [closeFrame_flattened rfl, closeFrame_flattened rfl]
        split
        · exact h.draft
        · exact h.draft.put (hnum hf)
      | hidden hout hk hf =>
        rw [closeFrame_flattened (f := ⟨.flattened, _, _, _⟩) rfl]
        split
        · exact h.draft
        · next hleaf =>
          exact h.draft.put_narrow (hnum hf) (hs _ _ rfl rfl (by simpa using hleaf) hf hout hk)
      | pruned hr hp hout hk =>
        rcases hr with rfl | rfl
        · exact h.draft.assign_wide hk
        · exact h.draft
  · intro path hp
    unfold closeFrame
    split
    · exact Draft.has_assign hp _ _
    · split
      · exact hp
      · rw [putFlattened_fst]
        exact Draft.has_put hp _ _ _
    · exact hp
    · exact hp

/-- A row starts narrowed. -/
theorem narrowed_start (hd : 1 ≤ o.dataLevel) (name : String) (attributes : Entries String)
    (k k' : Nat) :
    Narrowed o p o.dataLevel
      { draft :=
          { tag := name, attributes := (Collected.ofRow .all attributes ⟨[], k⟩).kept }
        innermost := { role := .built, path := [] } }
      { draft := { tag := name, attributes := (Collected.ofRow p attributes ⟨[], k'⟩).kept }
        innermost := { role := .built, path := [] } } := by
  obtain ⟨d, hd⟩ : ∃ d, o.dataLevel = d + 1 := ⟨o.dataLevel - 1, by omega⟩
  refine ⟨⟨rfl, ?_, rfl⟩, ?_, ?_⟩
  · have hw := Collected.kept_offerAll (p := .all) (c := ⟨[], k⟩) (d := ⟨[], 0⟩) rfl ""
      attributes
    have hn := Collected.kept_offerAll (p := p) (c := ⟨[], k'⟩) (d := ⟨[], 0⟩) rfl ""
      attributes
    exact hn.trans ((Collected.kept_ofRow p attributes).trans (congrArg _ hw.symm))
  · rw [hd]
    exact .cons (.built (Or.inl rfl) nofun) (.nil hd.symm)
  · intro f hmem _
    rw [List.mem_singleton.mp hmem]
    exact Or.inl rfl

end Steps

end OpenRow

/-- The narrow row has the kept part of the wide one. -/
structure Row.Thinned (p : Projection) (wide narrow : Row) : Prop where
  tag : narrow.tag = wide.tag
  ordinal : narrow.ordinal = wide.ordinal
  attributes : narrow.attributes = wide.attributes.filter fun a => p.admitsAttribute a.1
  fields : Field.bare narrow.fields = Field.thin p.admits wide.fields

end Tabular
