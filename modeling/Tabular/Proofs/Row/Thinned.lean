import Tabular.Proofs.Row.Numbered
import Tabular.Proofs.Row.Steps

/-!
# Drafts under a narrower projection

Two drafts that grow together, one for every column and one for a projection: the narrow one has
the kept part of the wide one.

* `Draft.Thinned`: the two drafts;
* `Draft.insert_eq_some_iff`: when a new field comes to a draft;
* `Thinned.promote`, `Thinned.assign`, `Thinned.insert`, `insert_hidden`, `insert_outside`: changes
  of both, where they are kept and where not;
* `Draft.put`, **`Thinned.put`**: the column of a flattened element that both see;
* `Draft.Settles`, **`Thinned.put_narrow`**: one that only the narrow draft sees, and that has no
  effect there;
* `Thinned.collected_wide`, `Thinned.collected_narrow`: attributes that only one of them collects.
-/

namespace Tabular

/-! ## Drafts -/

theorem Draft.insert_of_taken {d : Draft} {path : Path} {name : String}
    (h : d.isTaken path name = true) : d.insert path name = none := by
  rw [insert, h, if_pos rfl]

theorem Draft.insert_of_free {d : Draft} {path : Path} {name : String}
    (h : d.isTaken path name = false) :
    d.insert path name = some { d with
      size := d.size + 1
      fields := Field.addAt path (.scalar name d.size none) d.fields } := by
  rw [insert, h, if_neg Bool.false_ne_true]

/-- A new field comes where no other one has its name. -/
theorem Draft.insert_eq_some_iff {d d' : Draft} {path : Path} {name : String} :
    d.insert path name = some d' ↔ Field.named? name (Field.under path d.fields) = none ∧
      d' = { d with
        size := d.size + 1
        fields := Field.addAt path (.scalar name d.size none) d.fields } := by
  have hfree : d.isTaken path name = false ↔ Field.named? name (Field.under path d.fields) = none :=
    Option.isSome_eq_false_iff.trans Option.isNone_iff_eq_none
  rw [← hfree]
  cases ht : d.isTaken path name with
  | true => simp [insert_of_taken ht]
  | false => simp [insert_of_free ht, eq_comm]

/-- The narrow draft has the kept part of the wide one. -/
structure Draft.Thinned (p : Projection) (wide narrow : Draft) : Prop where
  tag : narrow.tag = wide.tag
  attributes : narrow.attributes = wide.attributes.filter fun a => p.admitsAttribute a.1
  fields : Field.bare narrow.fields = Field.thin p.admits wide.fields

namespace Draft.Thinned

open Tabular.Field

variable {p : Projection} {w n : Draft} {path : Path} {name : String} {value : Option String}

theorem isTaken (h : Thinned p w n) (hk : p.admits (path ++ [name]) = true) :
    n.isTaken path name = w.isTaken path name := by
  rw [Draft.isTaken, Draft.isTaken, ← taken_thin p.closed_admits hk w.fields, ← h.fields]
  exact (taken_thin Keep.closed_all rfl n.fields).symm

/-- A field of the row that is asked for is there with the same kind, or not at all. -/
theorem named? (h : Thinned p w n) (hk : p.admits [name] = true) :
    (Field.named? name n.fields).map Field.kind = (Field.named? name w.fields).map Field.kind := by
  have hboth : (Field.named? name n.fields).map (thinIn Keep.all) =
      (Field.named? name w.fields).map (thinIn p.admits) := by
    rw [← named?_thin rfl, ← named?_thin hk]
    exact congrArg (Field.named? name) h.fields
  have hkind := congrArg (Option.map Field.kind) hboth
  rw [Option.map_map, Option.map_map] at hkind
  simpa only [Function.comp_def, kind_thinIn] using hkind

theorem promote (h : Thinned p w n) (hk : path = [] ∨ p.admits path = true) :
    Thinned p (w.promote path) (n.promote path) := by
  refine ⟨h.tag, h.attributes, ?_⟩
  show thin Keep.all (changeAt path promoted n.fields) =
    thin p.admits (changeAt path promoted w.fields)
  rw [thin_changeAt uniform_promoted Keep.closed_all (Or.inr rfl),
    thin_changeAt uniform_promoted p.closed_admits hk]
  exact congrArg _ h.fields

theorem assign (h : Thinned p w n) (hk : path = [] ∨ p.admits path = true) :
    Thinned p (w.assign path value) (n.assign path value) := by
  refine ⟨h.tag, h.attributes, ?_⟩
  show thin Keep.all (changeAt path (assigned value) n.fields) =
    thin p.admits (changeAt path (assigned value) w.fields)
  rw [thin_changeAt (uniform_assigned value) Keep.closed_all (Or.inr rfl),
    thin_changeAt (uniform_assigned value) p.closed_admits hk]
  exact congrArg _ h.fields

theorem promote_wide (h : Thinned p w n) (hk : p.admits path = false) :
    Thinned p (w.promote path) n :=
  ⟨h.tag, h.attributes, h.fields.trans (thin_changeAt_outside growing_promoted hk w.fields).symm⟩

theorem assign_wide (h : Thinned p w n) (hk : p.admits path = false) :
    Thinned p (w.assign path value) n :=
  ⟨h.tag, h.attributes,
    h.fields.trans (thin_changeAt_outside (growing_assigned value) hk w.fields).symm⟩

/-- A new text that is asked for. -/
theorem insert (h : Thinned p w n) (hk : p.admits (path ++ [name]) = true) :
    w.insert path name = none ∧ n.insert path name = none ∨
      ∃ w' n', w.insert path name = some w' ∧ n.insert path name = some n' ∧ Thinned p w' n' := by
  have htaken := h.isTaken hk
  cases ht : w.isTaken path name with
  | true =>
    rw [ht] at htaken
    exact Or.inl ⟨Draft.insert_of_taken ht, Draft.insert_of_taken htaken⟩
  | false =>
    rw [ht] at htaken
    refine Or.inr ⟨_, _, Draft.insert_of_free ht, Draft.insert_of_free htaken, h.tag,
      h.attributes, ?_⟩
    show thin Keep.all (addAt path (.scalar name n.size none) n.fields) =
      thin p.admits (addAt path (.scalar name w.size none) w.fields)
    rw [thin_addAt Keep.closed_all rfl, thin_addAt p.closed_admits hk]
    exact congrArg _ h.fields

/-- A new text that is not asked for, in a field that is. -/
theorem insert_hidden (h : Thinned p w n)
    (hp : path = [] ∨ p.admits path = true ∧ has path w.fields = true)
    (hk : p.admits (path ++ [name]) = false) :
    w.insert path name = none ∧ Thinned p w (n.promote path) ∨
      ∃ w', w.insert path name = some w' ∧ Thinned p w' (n.promote path) := by
  have hpath : path = [] ∨ p.admits path = true := hp.imp_right And.left
  cases ht : w.isTaken path name with
  | true =>
    have hsame : w.promote path = w := by
      rw [Draft.promote, promoteAt_of_taken ht]
    refine Or.inl ⟨Draft.insert_of_taken ht, ?_⟩
    rw [← hsame]
    exact h.promote hpath
  | false =>
    refine Or.inr ⟨_, Draft.insert_of_free ht, h.tag, h.attributes, ?_⟩
    show thin Keep.all (promoteAt path n.fields) =
      thin p.admits (addAt path (.scalar name w.size none) w.fields)
    rw [thin_addAt_hidden p.closed_admits hp hk, promoteAt,
      thin_changeAt uniform_promoted Keep.closed_all (Or.inr rfl)]
    exact congrArg _ h.fields

/-- A new text in a field that is not asked for. -/
theorem insert_outside (h : Thinned p w n) (hp : path ≠ []) (hk : p.admits path = false)
    (hhas : has path w.fields = true) {w' : Draft} (hw : w.insert path name = some w') :
    Thinned p w' n := by
  rw [Draft.insert] at hw
  split at hw
  · cases hw
  · cases hw
    exact ⟨h.tag, h.attributes, h.fields.trans (thin_addAt_outside hp hk hhas _).symm⟩

/-! ### Columns of flattened elements -/

theorem addColumn (h : Thinned p w n) (hk : p.admits [name] = true) :
    Thinned p (w.addColumn name value) (n.addColumn name value) := by
  unfold Draft.addColumn
  have hnil : p.admits ([] ++ [name]) = true := hk
  rcases h.insert hnil with ⟨hw, hn⟩ | ⟨w', n', hw, hn, h'⟩
  · rw [hw, hn]
    exact h
  · rw [hw, hn]
    exact h'.assign (Or.inr hk)

theorem addColumn_wide (h : Thinned p w n) (hk : p.admits [name] = false) :
    Thinned p (w.addColumn name value) n := by
  unfold Draft.addColumn
  have hnil : p.admits ([] ++ [name]) = false := hk
  rcases h.insert_hidden (Or.inl rfl) hnil with ⟨hw, h'⟩ | ⟨w', hw, h'⟩
  · rw [hw]
    exact h
  · rw [hw]
    exact h'.assign_wide hk

theorem freeName_eq (h : Thinned p w n) (name : String) :
    freeName name n.fields 2 n.fields.length =
      freeName name (thin p.admits w.fields) 2 (thin p.admits w.fields).length := by
  rw [← h.fields, show (bare n.fields).length = n.fields.length from length_bare n.fields]
  refine freeName_congr (fun key => ?_) name _ _
  rw [bare, named?_thin rfl, Option.isSome_map]

end Draft.Thinned

/-- The options with another projection. -/
def ReaderOptions.projected (p : Projection) (o : ReaderOptions) : ReaderOptions :=
  { o with projection := p }

/-- The draft with the column of a flattened element. -/
def Draft.put (o : ReaderOptions) (name : String) (value : Option String) (d : Draft) : Draft :=
  if name = attributesName ∨ o.projection.admits [name] = false then d
  else
    match Field.named? name d.fields with
    | none => d.addColumn name value
    | some existing => d.collide o name value existing

section Put

variable {o : ReaderOptions} {name : String} {d : Draft}

theorem Draft.put_of_unwanted (h : name = attributesName ∨ o.projection.admits [name] = false)
    (value : Option String) : d.put o name value = d :=
  if_pos h

theorem Draft.put_of_none (hn : name ≠ attributesName) (hk : o.projection.admits [name] = true)
    (hd : Field.named? name d.fields = none) (value : Option String) :
    d.put o name value = d.addColumn name value := by
  rw [put, if_neg (by simp [hn, hk]), hd]

theorem Draft.put_of_some (hn : name ≠ attributesName) (hk : o.projection.admits [name] = true)
    {existing : Field} (hd : Field.named? name d.fields = some existing) (value : Option String) :
    d.put o name value = d.collide o name value existing := by
  rw [put, if_neg (by simp [hn, hk]), hd]

end Put

theorem OpenRow.putFlattened_fst (o : ReaderOptions) (name : String) (value : Option String)
    (d : Draft) (t : Tally) : (putFlattened o name value d t).1 = d.put o name value := by
  unfold putFlattened Draft.put
  by_cases hn : name = attributesName
  · rw [if_pos hn, if_pos (Or.inl hn)]
  · rw [if_neg hn]
    cases hk : o.projection.admits [name] with
    | false => rw [if_pos (by rfl), if_pos (Or.inr rfl)]
    | true =>
      rw [if_neg (by simp), if_neg (by simp [hn])]
      cases Field.named? name d.fields <;> rfl

theorem OpenRow.closeFrame_flattened {o : ReaderOptions} {f : Frame}
    (h : f.role = .flattened) (d : Draft) (t : Tally) :
    (closeFrame o f d t).1 =
      if f.hasChildren then d
      else d.put o (f.path.headD "") (cleaned f.text) := by
  simp only [closeFrame, h]
  split
  · rfl
  · rw [putFlattened_fst]

/-- A flattened element of that name has no effect on the draft under the projection: its column is
taken and keeps its text, and no numbered column is asked for either. -/
def Draft.Settles (o : ReaderOptions) (p : Projection) (name : String) (d : Draft) : Prop :=
  ∃ existing, Field.named? name d.fields = some existing ∧
    (existing.kind = .map ∨ o.flattenCollision = .first ∨ o.flattenCollision = .number ∧
      p.admits [freeName name d.fields 2 d.fields.length] = false)

namespace Draft.Thinned

open Tabular.Field

variable {o : ReaderOptions} {p : Projection} {w n : Draft} {name : String} {value : Option String}

/-- A taken column that is asked for. -/
theorem collide (h : Thinned p w n) (hnum : o.flattenCollision = .number → p.HoldsNumbers)
    (hname : name ≠ attributesName) (hk : p.admits [name] = true) {fw fn : Field}
    (hkind : fn.kind = fw.kind) :
    Thinned p (w.collide (o.projected .all) name value fw)
      (n.collide (o.projected p) name value fn) := by
  cases hf : fw.kind with
  | map =>
    simp only [Draft.collide, hkind, hf]
    exact h
  | scalar =>
    cases hpol : o.flattenCollision with
    | first =>
      simp only [Draft.collide, hkind, hf, ReaderOptions.projected, hpol]
      exact h
    | last =>
      simp only [Draft.collide, hkind, hf, ReaderOptions.projected, hpol]
      exact h.assign (Or.inr hk)
    | number =>
      simp only [Draft.collide, hkind, hf, ReaderOptions.projected, hpol, h.freeName_eq]
      rw [if_pos (by rfl)]
      rcases freeName_thin (hnum hpol) hname w.fields with heq | ⟨hw, hn⟩
      · rw [heq]
        split
        · next ha => exact h.addColumn ha
        · next ha => exact h.addColumn_wide (by simpa using ha)
      · rw [if_neg (by simp [hn])]
        exact h.addColumn_wide hw

/-- A taken column that is not asked for. -/
theorem collide_wide (h : Thinned p w n) (hnum : o.flattenCollision = .number → p.HoldsNumbers)
    (hname : name ≠ attributesName) (hk : p.admits [name] = false) (fw : Field) :
    Thinned p (w.collide (o.projected .all) name value fw) n := by
  cases hf : fw.kind with
  | map =>
    simp only [Draft.collide, hf]
    exact h
  | scalar =>
    cases hpol : o.flattenCollision with
    | first =>
      simp only [Draft.collide, hf, ReaderOptions.projected, hpol]
      exact h
    | last =>
      simp only [Draft.collide, hf, ReaderOptions.projected, hpol]
      exact h.assign_wide hk
    | number =>
      simp only [Draft.collide, hf, ReaderOptions.projected, hpol]
      rw [if_pos (by rfl)]
      refine h.addColumn_wide ?_
      obtain ⟨m, hm, he, _, _⟩ := freeName_spec name w.fields
      cases ha : p.admits [freeName name w.fields 2 w.fields.length] with
      | false => rfl
      | true =>
        rw [he] at ha
        rw [(hnum hpol name m hm hname ha).1] at hk
        cases hk

/-- **The column of a flattened element that both rows see.** -/
theorem put (h : Thinned p w n) (hnum : o.flattenCollision = .number → p.HoldsNumbers) :
    Thinned p (w.put (o.projected .all) name value) (n.put (o.projected p) name value) := by
  have hall : (o.projected .all).projection.admits [name] = true := rfl
  by_cases hname : name = attributesName
  · rw [Draft.put_of_unwanted (Or.inl hname), Draft.put_of_unwanted (Or.inl hname)]
    exact h
  · cases hk : p.admits [name] with
    | false =>
      rw [Draft.put_of_unwanted (d := n) (Or.inr hk)]
      cases hw : Field.named? name w.fields with
      | none =>
        rw [Draft.put_of_none hname hall hw]
        exact h.addColumn_wide hk
      | some fw =>
        rw [Draft.put_of_some hname hall hw]
        exact h.collide_wide hnum hname hk fw
    | true =>
      have hkinds := h.named? hk
      cases hw : Field.named? name w.fields with
      | none =>
        rw [hw, Option.map_none, Option.map_eq_none_iff] at hkinds
        rw [Draft.put_of_none hname hall hw, Draft.put_of_none hname hk hkinds]
        exact h.addColumn hk
      | some fw =>
        rw [hw, Option.map_some, Option.map_eq_some_iff] at hkinds
        obtain ⟨fn, hn, hkind⟩ := hkinds
        rw [Draft.put_of_some hname hall hw, Draft.put_of_some hname hk hn]
        exact h.collide hnum hname hk hkind

/-- A flattened element that only the narrow row sees. -/
theorem put_narrow (h : Thinned p w n) (hnum : o.flattenCollision = .number → p.HoldsNumbers)
    (hs : name ≠ attributesName → p.admits [name] = true → w.Settles o p name) :
    Thinned p w (n.put (o.projected p) name value) := by
  by_cases hname : name = attributesName
  · rw [Draft.put_of_unwanted (Or.inl hname)]
    exact h
  · cases hk : p.admits [name] with
    | false =>
      rw [Draft.put_of_unwanted (Or.inr hk)]
      exact h
    | true =>
      obtain ⟨fw, hw, hset⟩ := hs hname hk
      have hkinds := h.named? hk
      rw [hw, Option.map_some, Option.map_eq_some_iff] at hkinds
      obtain ⟨fn, hn, hkind⟩ := hkinds
      rw [Draft.put_of_some hname hk hn]
      suffices hsame : n.collide (o.projected p) name value fn = n by
        rw [hsame]
        exact h
      rcases hset with hmap | hfirst | ⟨hnumber, hfree⟩
      · simp only [Draft.collide, hkind, hmap]
      · cases hf : fw.kind <;>
          simp only [Draft.collide, hkind, hf, ReaderOptions.projected, hfirst]
      · have hfree' : p.admits [freeName name n.fields 2 n.fields.length] = false := by
          rw [h.freeName_eq]
          rcases freeName_thin (hnum hnumber) hname w.fields with heq | ⟨_, hn'⟩
          · rw [heq]
            exact hfree
          · exact hn'
        cases hf : fw.kind with
        | map => simp only [Draft.collide, hkind, hf]
        | scalar =>
          simp only [Draft.collide, hkind, hf, ReaderOptions.projected, hnumber, hfree',
            Bool.false_eq_true, if_false]

/-! ### Attributes -/

/-- Attributes inside the row do not count for the projection. -/
theorem collected_wide (h : Thinned p w n)
    (ha : o.attributeScope = .row ∨ p.wantsAttributes = false) (label : String)
    (attributes : Entries String) :
    Thinned p (w.collected (o.projected .all) label attributes) n := by
  rcases ha with hrow | hno
  · rw [Draft.collected_of_row (by exact hrow)]
    exact h
  · refine ⟨h.tag, ?_, h.fields⟩
    rw [h.attributes, Projection.filter_admitsAttribute hno, Projection.filter_admitsAttribute hno]

theorem collected_narrow (h : Thinned p w n)
    (ha : o.attributeScope = .row ∨ p.wantsAttributes = false) (label : String)
    (attributes : Entries String) :
    Thinned p w (n.collected (o.projected p) label attributes) := by
  suffices hsame : n.collected (o.projected p) label attributes = n by
    rw [hsame]
    exact h
  rcases ha with hrow | hno
  · exact Draft.collected_of_row (by exact hrow)
  · exact Draft.collected_of_unwanted (by exact hno)

end Draft.Thinned

namespace Collected

variable {p : Projection} {w n : Collected}

/-- An attribute is kept by the narrow row if it is asked for and the wide row keeps it. -/
theorem kept_offer_filter (h : n.kept = w.kept.filter fun a => p.admitsAttribute a.1)
    (key value : String) :
    (n.offer p key value).kept = (w.offer .all key value).kept.filter fun a =>
      p.admitsAttribute a.1 := by
  have hall : Projection.admitsAttribute .all key = true := rfl
  cases hk : p.admitsAttribute key with
  | false =>
    simp only [offer, hk, hall, Bool.not_false, if_true, Bool.not_true, Bool.false_eq_true, if_false]
    split
    · exact h
    · rw [List.filter_append, h]
      simp [hk]
  | true =>
    have hhas : Entries.has key n.kept = Entries.has key w.kept := by
      rw [Bool.eq_iff_iff, Entries.has_iff, Entries.has_iff, h, Entries.keys, Entries.keys]
      simp [hk]
    simp only [offer, hk, hall, Bool.not_true, Bool.false_eq_true, if_false, hhas]
    split
    · exact h
    · rw [List.filter_append, h]
      simp [hk]

/-- **The attributes of the row element**: the narrow row keeps those that are asked for. -/
theorem kept_ofRow (p : Projection) (attributes : Entries String) :
    (ofRow p attributes ⟨[], 0⟩).kept =
      (ofRow .all attributes ⟨[], 0⟩).kept.filter fun a => p.admitsAttribute a.1 := by
  cases hw : p.wantsAttributes with
  | false =>
    rw [ofRow, offerAll, hw, Projection.filter_admitsAttribute hw]
    rfl
  | true =>
    rw [ofRow, ofRow, offerAll, offerAll, if_pos hw, if_pos (by rfl)]
    suffices h : ∀ w n : Collected, (n.kept = w.kept.filter fun a => p.admitsAttribute a.1) →
        (attributes.foldl (fun acc a => offer p acc ("" ++ a.1) a.2) n).kept =
          (attributes.foldl (fun acc a => offer .all acc ("" ++ a.1) a.2) w).kept.filter
            fun a => p.admitsAttribute a.1 from h _ _ rfl
    induction attributes with
    | nil => exact fun w n h => h
    | cons a rest ih => exact fun w n h => ih _ _ (kept_offer_filter h _ _)

end Collected

end Tabular
