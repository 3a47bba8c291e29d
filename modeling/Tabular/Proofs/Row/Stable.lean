import Tabular.Proofs.Row.Thinned

/-!
# What the steps of a row keep

A row grows by three changes of its fields: one is made a map, one is given a text, or a new text
comes under a name that is free and not reserved.

* `Field.Stable`: a property of fields that these changes keep;
* **`Stable.startChild`**, **`Stable.closeFrame`**: it is kept when an element starts or ends;
* `Field.Distinct`, **`stable_distinct`**: no map of the row has a name twice.
-/

namespace Tabular

/-- A property of the fields of a row that no change of them breaks. -/
structure Field.Stable (P : List Field → Prop) : Prop where
  promote : ∀ path fs, P fs → P (promoteAt path fs)
  assign : ∀ path value fs, P fs → P (assignAt path value fs)
  add : ∀ path name handle fs, named? name (under path fs) = none →
    path ++ [name] ≠ attributesPath → P fs → P (addAt path (.scalar name handle none) fs)

namespace Field.Stable

variable {P Q : List Field → Prop} {o : ReaderOptions} {path : Path} {name : String}
  {value : Option String} {d d' : Draft}

theorem and (hP : Stable P) (hQ : Stable Q) : Stable fun fs => P fs ∧ Q fs where
  promote path fs h := ⟨hP.promote path fs h.1, hQ.promote path fs h.2⟩
  assign path value fs h := ⟨hP.assign path value fs h.1, hQ.assign path value fs h.2⟩
  add path name handle fs hf hp h :=
    ⟨hP.add path name handle fs hf hp h.1, hQ.add path name handle fs hf hp h.2⟩

/-! ## Drafts -/

theorem insert (hP : Stable P) (hp : path ++ [name] ≠ attributesPath)
    (hi : d.insert path name = some d') (h : P d.fields) : P d'.fields := by
  obtain ⟨hfree, rfl⟩ := Draft.insert_eq_some_iff.mp hi
  exact hP.add path name d.size d.fields hfree hp h

theorem addColumn (hP : Stable P) (hn : name ≠ attributesName) (value : Option String)
    (h : P d.fields) : P (d.addColumn name value).fields := by
  unfold Draft.addColumn
  split
  · next d' hi =>
    have hp : [] ++ [name] ≠ attributesPath := fun hp =>
      hn (OpenRow.append_eq_attributesPath.mp hp).2
    exact hP.assign [name] value d'.fields (hP.insert hp hi h)
  · exact h

/-- The column of a flattened element. -/
theorem put (hP : Stable P) (o : ReaderOptions) (name : String) (value : Option String)
    (h : P d.fields) : P (d.put o name value).fields := by
  by_cases hn : name = attributesName ∨ o.projection.admits [name] = false
  · rw [Draft.put_of_unwanted hn]
    exact h
  · rw [not_or, Bool.not_eq_false] at hn
    cases hf : named? name d.fields with
    | none =>
      rw [Draft.put_of_none hn.1 hn.2 hf]
      exact hP.addColumn hn.1 value h
    | some existing =>
      rw [Draft.put_of_some hn.1 hn.2 hf]
      unfold Draft.collide
      split
      · exact h
      · exact h
      · exact hP.assign [name] value d.fields h
      · -- the column takes the first number that is free
        obtain ⟨n, _, he, _, _⟩ := freeName_spec name d.fields
        simp only [he]
        split
        · exact hP.addColumn (numberedName_ne_attributes name n) value h
        · exact h

/-! ## Elements -/

theorem madeMap {r : OpenRow} (hP : Stable P) (h : P r.draft.fields) :
    P r.madeMap.draft.fields := by
  unfold OpenRow.madeMap
  split
  · exact hP.promote r.innermost.path r.draft.fields h
  · exact h

theorem startField {r : OpenRow} (hP : Stable P) (h : P r.draft.fields) (name : String)
    (attributes : Entries String) (t : Tally) :
    P (r.startField o name attributes t).1.draft.fields := by
  by_cases hp : r.innermost.path ++ [name] = attributesPath
  · rw [OpenRow.startField_reserved hp]
    exact h
  · cases hk : o.projection.admits (r.innermost.path ++ [name]) with
    | false =>
      rw [OpenRow.startField_pruned hp hk]
      exact hP.promote r.innermost.path r.draft.fields h
    | true =>
      cases hi : r.draft.insert r.innermost.path name with
      | none =>
        rw [OpenRow.startField_skipped hp hk hi]
        exact h
      | some d =>
        have hd : P d.fields := hP.insert hp hi h
        rw [OpenRow.startField_built hp hk hi]
        exact hd

/-- **An element that starts keeps what is stable.** -/
theorem startChild {r : OpenRow} (hP : Stable P) (h : P r.draft.fields) (flattened : Bool)
    (name : String) (attributes : Entries String) (t : Tally) :
    P (r.startChild o flattened name attributes t).1.draft.fields := by
  have hflat : P (r.startFlattened o name attributes t).1.draft.fields := by
    rw [OpenRow.startFlattened_fst]
    exact hP.madeMap h
  cases hr : r.innermost.role with
  | skipped =>
    rw [OpenRow.startChild_of_skipped hr]
    exact h
  | flattened =>
    rw [OpenRow.startChild_of_flattened hr]
    exact hflat
  | pruned =>
    cases flattened with
    | true =>
      rw [OpenRow.startChild_flattened (by simp [hr])]
      exact hflat
    | false =>
      rw [OpenRow.startPruned_fst hr]
      exact h
  | built =>
    cases flattened with
    | true =>
      rw [OpenRow.startChild_flattened (by simp [hr])]
      exact hflat
    | false =>
      rw [OpenRow.startChild_of_built hr]
      exact hP.startField h name attributes t

theorem text {r : OpenRow} (h : P r.draft.fields) (value : String) :
    P (r.text value).draft.fields := by
  unfold OpenRow.text
  split <;> exact h

/-- **An element that ends keeps what is stable.** -/
theorem closeFrame (hP : Stable P) (h : P d.fields) (frame : Frame) (t : Tally) :
    P (OpenRow.closeFrame o frame d t).1.fields := by
  cases hr : frame.role with
  | built =>
    simp only [OpenRow.closeFrame, hr]
    exact hP.assign frame.path _ d.fields h
  | flattened =>
    rw [OpenRow.closeFrame_flattened hr]
    split
    · exact h
    · exact hP.put o _ _ h
  | pruned =>
    simp only [OpenRow.closeFrame, hr]
    exact h
  | skipped =>
    simp only [OpenRow.closeFrame, hr]
    exact h

theorem leave {r : OpenRow} (hP : Stable P) (h : P r.draft.fields) (t : Tally) :
    P (r.leave o t).1.draft.fields := by
  unfold OpenRow.leave
  split
  · exact h
  · exact hP.closeFrame h r.innermost t

end Field.Stable

/-! ## Distinct names -/

namespace Field

variable {fs : List Field} {f : Field} {name : String}

/-- No name comes twice below any path. -/
def Distinct (fs : List Field) : Prop :=
  ∀ path, ((under path fs).map Field.name).Nodup

theorem Distinct.nodup (h : Distinct fs) : (fs.map Field.name).Nodup :=
  h []

theorem under_cons_of_some (h : named? name fs = some f) (rest : Path) :
    under (name :: rest) fs = under rest f.fields := by
  rw [under, h]

theorem under_cons_of_none (h : named? name fs = none) (rest : Path) :
    under (name :: rest) fs = [] := by
  rw [under, h]

theorem Distinct.named? (h : Distinct fs) (hf : Field.named? name fs = some f) :
    Distinct f.fields := by
  intro path
  rw [← under_cons_of_some hf path]
  exact h (name :: path)

theorem Distinct.of_named? (hn : (fs.map Field.name).Nodup)
    (h : ∀ name f, Field.named? name fs = some f → Distinct f.fields) : Distinct fs := by
  intro path
  cases path with
  | nil => exact hn
  | cons name rest =>
    cases hf : Field.named? name fs with
    | none =>
      rw [under_cons_of_none hf]
      exact List.nodup_nil
    | some f =>
      rw [under_cons_of_some hf]
      exact h name f hf rest

theorem distinct_nil : Distinct [] :=
  .of_named? List.nodup_nil fun _ _ h => by cases h

theorem Distinct.append {new : Field} (h : Distinct fs) (hf : Field.named? new.name fs = none)
    (hnew : Distinct new.fields) : Distinct (fs ++ [new]) := by
  refine .of_named? (nodup_concat h.nodup hf) fun name f hname => ?_
  rw [named?_concat, Option.or_eq_some_iff] at hname
  rcases hname with hname | ⟨-, hname⟩
  · exact h.named? hname
  · cases (Option.ite_none_right_eq_some.mp hname).2
    exact hnew

/-- A change of one field that keeps its name. -/
theorem Distinct.change {g : Field → Field} (h : Distinct fs) (hg : ∀ f, (g f).name = f.name)
    (hd : ∀ f, Field.named? name fs = some f → Distinct (g f).fields) :
    Distinct (Field.change name g fs) := by
  refine .of_named? (by rw [names_change hg]; exact h.nodup) fun key f hkey => ?_
  by_cases hk : key = name
  · subst hk
    rw [named?_change_self g hg] at hkey
    obtain ⟨f', hf', rfl⟩ := Option.map_eq_some_iff.mp hkey
    exact hd f' hf'
  · rw [named?_change_of_ne hk g hg] at hkey
    exact h.named? hkey

theorem Distinct.changeAt {g : Field → Field} (h : Distinct fs) (hg : ∀ f, (g f).name = f.name)
    (hfields : ∀ f, (g f).fields = f.fields) (path : Path) : Distinct (Field.changeAt path g fs) := by
  induction path generalizing fs with
  | nil => exact h
  | cons n rest ih =>
    by_cases hr : rest = []
    · subst hr
      exact h.change hg fun f hf => by rw [hfields]; exact h.named? hf
    · rw [changeAt_cons_of_ne_nil hr]
      refine h.change (fun f => name_mapFields _ f) fun f hf => ?_
      cases f with
      | scalar n k v => exact distinct_nil
      | map n k inner => exact ih (h.named? hf)

theorem Distinct.addAt {new : Field} {path : Path} (h : Distinct fs)
    (hf : Field.named? new.name (under path fs) = none) (hnew : Distinct new.fields) :
    Distinct (Field.addAt path new fs) := by
  induction path generalizing fs with
  | nil => exact h.append hf hnew
  | cons n rest ih =>
    rw [Field.addAt]
    refine h.change (fun f => by simp) fun f hn => ?_
    have hinner : Distinct f.promoted.fields := by
      rw [fields_promoted]
      exact h.named? hn
    rw [under_cons_of_some hn, ← fields_promoted] at hf
    have hmap : f.promoted.kind = .map := by cases f <;> rfl
    generalize f.promoted = g at hf hinner hmap ⊢
    cases g with
    | scalar m k v => cases hmap
    | map m k inner => exact ih hinner hf

/-- **No map of a row ever has a name twice.** -/
theorem stable_distinct : Stable Distinct where
  promote path _ h := h.changeAt name_promoted fields_promoted path
  assign path value _ h :=
    h.changeAt (name_assigned value) (fun f => by cases f <;> rfl) path
  add _ _ _ _ hf _ h := h.addAt hf distinct_nil

end Field

end Tabular
