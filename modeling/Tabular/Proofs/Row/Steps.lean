import Tabular.Proofs.Value.Firsts
import Tabular.Row.Builder

/-!
# Steps inside a row

What each event inside a row does to the open elements, role by role. The counters have no part in
it.

* `OpenRow.madeMap`, `OpenRow.leave`: the row in which a flattened element starts, and the end of an
  element inside the row;
* `startChild_of_skipped`, `startChild_of_pruned`, `startChild_of_built`, `startChild_flattened`,
  `startChild_of_flattened`: the start of an element by the role of the one around it;
* `outer_startChild`: a child is pushed onto the open elements;
* `startChild_fst`, `leave_fst`: a row does not depend on the counters.
-/

namespace Tabular

/-! ## Depths -/

/-- The elements at some depth below a row element are flattened. -/
def ReaderOptions.isFlattened (o : ReaderOptions) (depth : Nat) : Bool :=
  match o.flattenLevel with
  | none => false
  | some f => f < depth

theorem place_inside {o : ReaderOptions} {depth : Nat} (h : o.dataLevel ≤ depth) (name : String) :
    o.levels.place (depth + 1) name =
      if o.isFlattened (depth + 1) then .flattened else .structural := by
  have h₁ : ¬ depth + 1 < o.dataLevel := by omega
  have h₂ : depth + 1 ≠ o.dataLevel := by omega
  cases hf : o.flattenLevel with
  | none => simp [Levels.place, ReaderOptions.levels, ReaderOptions.isFlattened, h₁, h₂, hf]
  | some f => simp [Levels.place, ReaderOptions.levels, ReaderOptions.isFlattened, h₁, h₂, hf]

theorem isFlattened_succ {o : ReaderOptions} {depth : Nat} (h : o.isFlattened depth = true) :
    o.isFlattened (depth + 1) = true := by
  unfold ReaderOptions.isFlattened at h ⊢
  cases hf : o.flattenLevel with
  | none =>
    rw [hf] at h
    cases h
  | some f =>
    rw [hf] at h
    simp only [decide_eq_true_eq] at h ⊢
    omega

/-! ## Collected attributes -/

namespace Collected

variable {c d : Collected} {p : Projection}

theorem offer_of_not_admits {key : String} (h : p.admitsAttribute key = false) (value : String) :
    c.offer p key value = c := by
  simp [offer, h]

theorem kept_offer (h : c.kept = d.kept) (key value : String) :
    (c.offer p key value).kept = (d.offer p key value).kept := by
  simp only [offer, h]
  split
  · exact h
  · split <;> rfl

theorem kept_offerAll (h : c.kept = d.kept) (label : String) (attributes : Entries String) :
    (c.offerAll p label attributes).kept =
      (d.offerAll p label attributes).kept := by
  unfold offerAll
  split
  · induction attributes generalizing c d with
    | nil => exact h
    | cons a rest ih => exact ih (kept_offer h _ _)
  · exact h

/-- Of the attributes that are asked for, the first of each key are kept. -/
theorem kept_offerAll_filter (hw : p.wantsAttributes = true) (label : String)
    (attributes : Entries String) (c : Collected) :
    (c.offerAll p label attributes).kept = c.kept ++ Entries.firsts (Entries.keys c.kept)
      ((attributes.filter fun a => p.admitsAttribute (label ++ a.1)).map
        fun a => (label ++ a.1, some a.2)) := by
  rw [offerAll, if_pos hw]
  induction attributes generalizing c with
  | nil => exact (List.append_nil _).symm
  | cons a rest ih =>
    rw [List.foldl_cons, ih, List.filter_cons]
    cases ha : p.admitsAttribute (label ++ a.1) with
    | false =>
      rw [offer_of_not_admits ha]
      rfl
    | true =>
      rw [if_pos rfl, List.map_cons]
      by_cases hk : label ++ a.1 ∈ Entries.keys c.kept
      · have hoffer : (c.offer p (label ++ a.1) a.2).kept = c.kept := by
          simp [offer, ha, Entries.has_iff.mpr hk]
        rw [hoffer, Entries.firsts_cons_of_mem hk]
      · have hoffer : (c.offer p (label ++ a.1) a.2).kept =
            c.kept ++ [(label ++ a.1, some a.2)] := by
          simp [offer, ha, mt Entries.has_iff.mp hk]
        rw [hoffer, Entries.firsts_cons_of_not_mem hk, List.append_assoc, List.singleton_append]
        refine congrArg (fun es => c.kept ++ (label ++ a.1, some a.2) :: es)
          (Entries.firsts_congr (fun key => ?_) _)
        simp [Entries.keys, or_comm]

/-- Where every attribute is asked for, the first of each key are kept. -/
theorem kept_offerAll_eq (hw : p.wantsAttributes = true)
    (ha : ∀ key, p.admitsAttribute key = true) (label : String)
    (attributes : Entries String) (c : Collected) :
    (c.offerAll p label attributes).kept = c.kept ++
      Entries.firsts (Entries.keys c.kept) (attributes.map fun a => (label ++ a.1, some a.2)) := by
  rw [kept_offerAll_filter hw, List.filter_eq_self.mpr fun a _ => ha _]

theorem kept_ofNested (h : c.kept = d.kept) (scope : AttributeScope) (label : String)
    (attributes : Entries String) :
    (c.ofNested scope p label attributes).kept =
      (d.ofNested scope p label attributes).kept := by
  cases scope with
  | row => exact h
  | all => exact kept_offerAll h _ _

end Collected

/-- The draft with the attributes of an element inside the row. -/
def Draft.collected (o : ReaderOptions) (label : String) (attributes : Entries String) (d : Draft) :
    Draft :=
  { d with
    attributes :=
      (Collected.ofNested o.attributeScope o.projection label attributes ⟨d.attributes, 0⟩).kept }

namespace Draft

variable {o : ReaderOptions} {label : String} {attributes : Entries String} {d : Draft}

theorem collected_of_row (h : o.attributeScope = .row) : d.collected o label attributes = d := by
  simp only [collected, Collected.ofNested, h]

theorem collected_of_unwanted (h : o.projection.wantsAttributes = false) :
    d.collected o label attributes = d := by
  cases hs : o.attributeScope with
  | row => exact collected_of_row hs
  | all =>
    simp only [collected, Collected.ofNested, hs, Collected.offerAll, h, Bool.false_eq_true,
      if_false]

end Draft

/-! ## Open elements -/

namespace OpenRow

variable {o : ReaderOptions} {r : OpenRow} {t : Tally} {flattened : Bool} {name : String}
  {attributes : Entries String}

@[simp] theorem innermost_promote : r.promote.innermost = r.innermost := rfl

@[simp] theorem outer_promote : r.promote.outer = r.outer := rfl

@[simp] theorem innermost_collect {label : String} :
    (r.collect o label attributes t).1.innermost = r.innermost := rfl

@[simp] theorem outer_collect {label : String} :
    (r.collect o label attributes t).1.outer = r.outer := rfl

theorem collect_draft (label : String) :
    (r.collect o label attributes t).1 =
      { r with draft := r.draft.collected o label attributes } := by
  simp only [collect, Draft.collected]
  rw [Collected.kept_ofNested (c := ⟨r.draft.attributes, t.duplicateAttributes⟩)
    (d := ⟨r.draft.attributes, 0⟩) rfl]

theorem collect_of_row (hs : o.attributeScope = .row) (label : String)
    (attributes : Entries String) (r : OpenRow) (t : Tally) :
    r.collect o label attributes t = (r, t) := by
  simp only [collect, Collected.ofNested, hs]

theorem startChild_of_skipped (h : r.innermost.role = .skipped) :
    r.startChild o flattened name attributes t =
      (r.push { role := .skipped, path := r.innermost.path ++ [name] }, t) := by
  simp only [startChild, h]

theorem startChild_of_pruned (h : r.innermost.role = .pruned) :
    r.startChild o false name attributes t =
      let q := r.collect o (label (r.innermost.path ++ [name])) attributes t
      (q.1.push { role := .pruned, path := r.innermost.path ++ [name] }, q.2) := by
  simp only [startChild, h]

theorem startChild_of_built (h : r.innermost.role = .built) :
    r.startChild o false name attributes t = r.startField o name attributes t := by
  simp only [startChild, h]

theorem startChild_flattened (h : r.innermost.role ≠ .skipped) :
    r.startChild o true name attributes t = r.startFlattened o name attributes t := by
  cases hr : r.innermost.role with
  | skipped => exact absurd hr h
  | built => simp only [startChild, hr]
  | flattened => simp only [startChild, hr]
  | pruned => simp only [startChild, hr]

theorem startChild_of_flattened (h : r.innermost.role = .flattened) :
    r.startChild o flattened name attributes t = r.startFlattened o name attributes t := by
  simp only [startChild, h]

theorem startField_cases (o : ReaderOptions) (name : String) (attributes : Entries String)
    (r : OpenRow) (t : Tally) :
    ∃ frame q u, r.startField o name attributes t = (push frame q, u) ∧
      frame.path = r.innermost.path ++ [name] ∧ q.innermost = r.innermost ∧ q.outer = r.outer := by
  unfold startField
  simp only
  split
  · exact ⟨_, _, _, rfl, rfl, rfl, rfl⟩
  · split
    · exact ⟨_, _, _, rfl, rfl, rfl, rfl⟩
    · split
      · exact ⟨_, _, _, rfl, rfl, rfl, rfl⟩
      · exact ⟨_, _, _, rfl, rfl, rfl, rfl⟩

/-- The row with the innermost element made a map, where it is a field. -/
def madeMap (r : OpenRow) : OpenRow :=
  if r.innermost.role = .built then r.promote else r

@[simp] theorem innermost_madeMap : r.madeMap.innermost = r.innermost := by
  unfold madeMap
  split <;> rfl

@[simp] theorem outer_madeMap : r.madeMap.outer = r.outer := by
  unfold madeMap
  split <;> rfl

theorem startFlattened_eq (o : ReaderOptions) (name : String) (attributes : Entries String)
    (r : OpenRow) (t : Tally) :
    r.startFlattened o name attributes t =
      ((r.madeMap.collect o name attributes t).1.push { role := .flattened, path := [name] },
        (r.madeMap.collect o name attributes t).2) := rfl

/-- A child is pushed onto the open elements. -/
theorem startChild_cases (o : ReaderOptions) (flattened : Bool) (name : String)
    (attributes : Entries String) (r : OpenRow) (t : Tally) :
    ∃ frame q u, r.startChild o flattened name attributes t = (push frame q, u) ∧
      q.innermost = r.innermost ∧ q.outer = r.outer := by
  have hflat : ∃ frame q u, r.startFlattened o name attributes t = (push frame q, u) ∧
      q.innermost = r.innermost ∧ q.outer = r.outer := by
    refine ⟨_, _, _, startFlattened_eq o name attributes r t, ?_, ?_⟩
    · rw [innermost_collect, innermost_madeMap]
    · rw [outer_collect, outer_madeMap]
  cases hr : r.innermost.role with
  | skipped =>
    rw [startChild_of_skipped hr]
    exact ⟨_, _, _, rfl, rfl, rfl⟩
  | flattened =>
    rw [startChild_of_flattened hr]
    exact hflat
  | pruned =>
    cases flattened with
    | true =>
      rw [startChild_flattened (by simp [hr])]
      exact hflat
    | false =>
      rw [startChild_of_pruned hr]
      exact ⟨_, _, _, rfl, rfl, rfl⟩
  | built =>
    cases flattened with
    | true =>
      rw [startChild_flattened (by simp [hr])]
      exact hflat
    | false =>
      rw [startChild_of_built hr]
      obtain ⟨frame, q, u, he, _, hi, ho⟩ := startField_cases o name attributes r t
      exact ⟨frame, q, u, he, hi, ho⟩

theorem outer_startChild :
    (r.startChild o flattened name attributes t).1.outer =
      { r.innermost with hasChildren := true } :: r.outer := by
  obtain ⟨frame, q, u, he, hi, ho⟩ := startChild_cases o flattened name attributes r t
  rw [he, ← hi, ← ho]
  rfl

theorem outer_text (value : String) : (r.text value).outer = r.outer := by
  unfold text
  split <;> rfl

theorem text_empty : r.text "" = r := by
  unfold text
  split
  · rw [String.append_empty]
  · rw [String.append_empty]
  · rfl
  · rfl

/-! ### The rows they give -/

theorem startPruned_fst (h : r.innermost.role = .pruned) :
    (r.startChild o false name attributes t).1 =
      ({ r with draft := r.draft.collected o (label (r.innermost.path ++ [name])) attributes } :
        OpenRow).push { role := .pruned, path := r.innermost.path ++ [name] } := by
  rw [startChild_of_pruned h]
  simp only [collect_draft]

theorem startFlattened_fst :
    (r.startFlattened o name attributes t).1 =
      ({ r with draft := r.madeMap.draft.collected o name attributes } : OpenRow).push
        { role := .flattened, path := [name] } := by
  rw [startFlattened_eq]
  simp only [collect_draft, madeMap]
  split <;> rfl

theorem append_eq_attributesPath {path : Path} {child : String} :
    path ++ [child] = attributesPath ↔ path = [] ∧ child = attributesName := by
  cases path with
  | nil => simp [attributesPath]
  | cons a rest => simp [attributesPath]

theorem startField_reserved (h : r.innermost.path ++ [name] = attributesPath) :
    (r.startField o name attributes t).1 =
      r.push { role := .skipped, path := r.innermost.path ++ [name] } := by
  simp only [startField, h, if_true]

theorem startField_pruned (h : r.innermost.path ++ [name] ≠ attributesPath)
    (ha : o.projection.admits (r.innermost.path ++ [name]) = false) :
    (r.startField o name attributes t).1 =
      ({ r with
          draft := (r.draft.promote r.innermost.path).collected o
            (label (r.innermost.path ++ [name])) attributes } : OpenRow).push
        { role := .pruned, path := r.innermost.path ++ [name] } := by
  simp only [startField, h, if_false, ha, Bool.not_false, if_true, collect_draft]
  rfl

theorem startField_skipped (h : r.innermost.path ++ [name] ≠ attributesPath)
    (ha : o.projection.admits (r.innermost.path ++ [name]) = true)
    (hi : r.draft.insert r.innermost.path name = none) :
    (r.startField o name attributes t).1 =
      r.push { role := .skipped, path := r.innermost.path ++ [name] } := by
  simp only [startField, h, if_false, ha, Bool.not_true, Bool.false_eq_true, hi]

theorem startField_built (h : r.innermost.path ++ [name] ≠ attributesPath)
    (ha : o.projection.admits (r.innermost.path ++ [name]) = true) {d : Draft}
    (hi : r.draft.insert r.innermost.path name = some d) :
    (r.startField o name attributes t).1 =
      ({ r with draft := d.collected o (label (r.innermost.path ++ [name])) attributes } :
        OpenRow).push { role := .built, path := r.innermost.path ++ [name] } := by
  simp only [startField, h, if_false, ha, Bool.not_true, Bool.false_eq_true, hi, collect_draft]

/-- The innermost element, which is not the row element, ends. -/
def leave (o : ReaderOptions) (r : OpenRow) (t : Tally) : OpenRow × Tally :=
  match r.outer with
  | [] => (r, t)
  | frame :: outer =>
    let (draft, t) := closeFrame o r.innermost r.draft t
    (⟨draft, frame, outer⟩, t)

/-! ## The tally has no part in the row -/

theorem collect_fst (label : String) (t' : Tally) :
    (r.collect o label attributes t).1 = (r.collect o label attributes t').1 := by
  rw [collect_draft, collect_draft]

theorem startField_fst (t' : Tally) :
    (r.startField o name attributes t).1 = (r.startField o name attributes t').1 := by
  simp only [startField]
  split
  · rfl
  · split
    · rw [collect_fst _ t']
    · split
      · rfl
      · rw [collect_fst _ t']

theorem startChild_fst (t' : Tally) :
    (r.startChild o flattened name attributes t).1 =
      (r.startChild o flattened name attributes t').1 := by
  have hflat : (r.startFlattened o name attributes t).1 =
      (r.startFlattened o name attributes t').1 := by
    rw [startFlattened_eq, startFlattened_eq, collect_fst _ t']
  cases hr : r.innermost.role with
  | skipped => rw [startChild_of_skipped hr, startChild_of_skipped hr]
  | flattened => rw [startChild_of_flattened hr, startChild_of_flattened hr, hflat]
  | pruned =>
    cases flattened with
    | true => rw [startChild_flattened (by simp [hr]), startChild_flattened (by simp [hr]), hflat]
    | false =>
      rw [startChild_of_pruned hr, startChild_of_pruned hr]
      simp only [collect_fst (t := t) _ t']
  | built =>
    cases flattened with
    | true => rw [startChild_flattened (by simp [hr]), startChild_flattened (by simp [hr]), hflat]
    | false => rw [startChild_of_built hr, startChild_of_built hr, startField_fst t']

theorem closeFrame_fst (frame : Frame) (d : Draft) (t' : Tally) :
    (closeFrame o frame d t).1 = (closeFrame o frame d t').1 := by
  simp only [closeFrame, putFlattened]
  split
  · rfl
  · split
    · rfl
    · split
      · rfl
      · split
        · rfl
        · split <;> rfl
  · rfl
  · rfl

theorem leave_fst (t' : Tally) : (r.leave o t).1 = (r.leave o t').1 := by
  unfold leave
  split
  · rfl
  · simp only [closeFrame_fst (t := t) _ _ t']

end OpenRow

/-! ## The end of an element -/

namespace Builder

variable {o : ReaderOptions} {b : Builder} {r : OpenRow}

theorem finish_of_none (h : b.row = none) : b.finish o = (b, none) := by
  simp only [finish, h]

theorem finish_of_row (h : b.row = some r) (ho : r.outer = []) :
    b.finish o = ({ b with row := none, sealedRows := b.sealedRows + 1 },
      some (r.draft.toRow b.sealedRows)) := by
  simp only [finish, h, ho]

theorem finish_of_inside (h : b.row = some r) (ho : r.outer ≠ []) :
    b.finish o = ({ b with row := some (r.leave o b.tally).1, tally := (r.leave o b.tally).2 },
      none) := by
  obtain ⟨frame, outer, ho⟩ := List.exists_cons_of_ne_nil ho
  simp only [finish, h, ho, OpenRow.leave]

end Builder

end Tabular
