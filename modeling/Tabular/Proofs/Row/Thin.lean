import Tabular.Proofs.Column.Keep
import Tabular.Proofs.Row.Field

/-!
# Thinned fields

Fields of which only some paths are kept, and without their handles. A set of paths that is closed
under what leads to them is respected by every change of fields by path.

* `Field.thin`, `Field.bare`: the fields at paths that are kept, and all fields without handles;
* `named?_thin`, `taken_thin`: names among thinned fields;
* **`thin_addAt`**, `thin_addAt_hidden`, `thin_addAt_outside`: a new text where it is kept, where
  only the field around it is, and where neither is;
* **`thin_changeAt`**, `thin_changeAt_outside`: a changed field where it is kept, and where not.
-/

namespace Tabular

namespace Field

mutual

/-- A field without its handle and without what is not kept below it. -/
def thinIn (keep : Keep) : Field → Field
  | .scalar n _ v => .scalar n 0 v
  | .map n _ fs => .map n 0 (thin (keep.below n) fs)

/-- The fields at paths that are kept, without their handles. -/
def thin (keep : Keep) : List Field → List Field
  | [] => []
  | f :: rest => if keep [f.name] then thinIn keep f :: thin keep rest else thin keep rest

end

/-- All fields without their handles. -/
def bare (fs : List Field) : List Field :=
  thin Keep.all fs

variable {keep : Keep} {f new : Field} {fs rest : List Field} {name : String} {path : Path}

theorem thin_cons_of_keep (h : keep [f.name] = true) :
    thin keep (f :: rest) = thinIn keep f :: thin keep rest := by
  rw [thin, if_pos h]

theorem thin_cons_of_not_keep (h : keep [f.name] = false) :
    thin keep (f :: rest) = thin keep rest := by
  rw [thin, if_neg (by simp [h])]

@[simp] theorem name_thinIn (keep : Keep) (f : Field) : (thinIn keep f).name = f.name := by
  cases f <;> simp [thinIn, Field.name]

@[simp] theorem kind_thinIn (keep : Keep) (f : Field) : (thinIn keep f).kind = f.kind := by
  cases f <;> simp [thinIn, kind]

@[simp] theorem fields_thinIn (keep : Keep) (f : Field) :
    (thinIn keep f).fields = thin (keep.below f.name) f.fields := by
  cases f <;> simp [thinIn, fields, thin, Field.name]

theorem thinIn_promoted (keep : Keep) (f : Field) :
    thinIn keep f.promoted = (thinIn keep f).promoted := by
  cases f <;> simp [thinIn, promoted, thin]

theorem thinIn_assigned (keep : Keep) (value : Option String) (f : Field) :
    thinIn keep (f.assigned value) = (thinIn keep f).assigned value := by
  cases f <;> simp [thinIn, assigned]

theorem thinIn_mapFields {g k : List Field → List Field}
    (h : thin (keep.below f.name) (g f.fields) = k (thin (keep.below f.name) f.fields)) :
    thinIn keep (f.mapFields g) = (thinIn keep f).mapFields k := by
  cases f with
  | scalar n h v => rfl
  | map n h fs => exact congrArg (Field.map n 0) h

theorem thin_append (keep : Keep) (fs gs : List Field) :
    thin keep (fs ++ gs) = thin keep fs ++ thin keep gs := by
  induction fs with
  | nil => rfl
  | cons f rest ih =>
    cases hk : keep [f.name] with
    | true => rw [List.cons_append, thin_cons_of_keep hk, thin_cons_of_keep hk, ih, List.cons_append]
    | false => rw [List.cons_append, thin_cons_of_not_keep hk, thin_cons_of_not_keep hk, ih]

theorem length_bare (fs : List Field) : (bare fs).length = fs.length := by
  induction fs with
  | nil => rfl
  | cons f rest ih => exact congrArg (· + 1) ih

/-! ## Names -/

theorem named?_thin (h : keep [name] = true) (fs : List Field) :
    named? name (thin keep fs) = (named? name fs).map (thinIn keep) := by
  induction fs with
  | nil => rfl
  | cons f rest ih =>
    rw [named?_cons]
    by_cases hf : f.name = name
    · rw [thin_cons_of_keep (hf ▸ h), named?_cons, name_thinIn, if_pos hf, if_pos hf]
      rfl
    · rw [if_neg hf, ← ih]
      cases hk : keep [f.name] with
      | true => rw [thin_cons_of_keep hk, named?_cons, name_thinIn, if_neg hf]
      | false => rw [thin_cons_of_not_keep hk]

theorem named?_thin_of_not_keep (h : keep [name] = false) (fs : List Field) :
    named? name (thin keep fs) = none := by
  induction fs with
  | nil => rfl
  | cons f rest ih =>
    cases hk : keep [f.name] with
    | true =>
      rw [thin_cons_of_keep hk, named?_cons, name_thinIn, if_neg, ih]
      rintro rfl
      rw [h] at hk
      cases hk
    | false => rw [thin_cons_of_not_keep hk, ih]

/-- A name below a path that is kept with it is taken or not, whatever else is left out. -/
theorem taken_thin (hc : keep.Closed) (hk : keep (path ++ [name]) = true) (fs : List Field) :
    (named? name (under path (thin keep fs))).isSome = (named? name (under path fs)).isSome := by
  induction path generalizing keep fs with
  | nil =>
    rw [under, under, named?_thin hk, Option.isSome_map]
  | cons n rest ih =>
    rw [under, under, named?_thin (hc.head hk)]
    cases hf : named? n fs with
    | none => rfl
    | some f =>
      show (named? name (under rest (thinIn keep f).fields)).isSome = _
      rw [fields_thinIn, name_of_named? hf]
      exact ih (hc.below n) hk f.fields

/-! ## Changes by path -/

/-- A change of one field that does not look below it. -/
structure Uniform (g : Field → Field) : Prop extends Growing g where
  thinIn : ∀ (keep : Keep) (f : Field), thinIn keep (g f) = g (thinIn keep f)

theorem uniform_promoted : Uniform promoted :=
  ⟨growing_promoted, thinIn_promoted⟩

theorem uniform_assigned (value : Option String) : Uniform (assigned value) :=
  ⟨growing_assigned value, fun keep => thinIn_assigned keep value⟩

theorem thin_change {g k : Field → Field} (h : keep [name] = true) (hg : ∀ f, (g f).name = f.name)
    (hf : ∀ f, named? name fs = some f → thinIn keep (g f) = k (thinIn keep f)) :
    thin keep (change name g fs) = change name k (thin keep fs) := by
  induction fs with
  | nil => rfl
  | cons f rest ih =>
    by_cases hn : f.name = name
    · have hk : keep [f.name] = true := hn ▸ h
      rw [change, if_pos hn, thin_cons_of_keep ((hg f).symm ▸ hk), thin_cons_of_keep hk, change,
        name_thinIn, if_pos hn, hf f (by rw [named?_cons, if_pos hn])]
    · have ih' := ih fun f' hf' => hf f' (by rw [named?_cons, if_neg hn, hf'])
      rw [change, if_neg hn]
      cases hk : keep [f.name] with
      | true => rw [thin_cons_of_keep hk, thin_cons_of_keep hk, change, name_thinIn, if_neg hn, ih']
      | false => rw [thin_cons_of_not_keep hk, thin_cons_of_not_keep hk, ih']

theorem thin_change_of_not_keep {g : Field → Field} (h : keep [name] = false)
    (hg : ∀ f, (g f).name = f.name) (fs : List Field) :
    thin keep (change name g fs) = thin keep fs := by
  induction fs with
  | nil => rfl
  | cons f rest ih =>
    by_cases hn : f.name = name
    · have hk : keep [f.name] = false := hn ▸ h
      rw [change, if_pos hn, thin_cons_of_not_keep ((hg f).symm ▸ hk), thin_cons_of_not_keep hk]
    · rw [change, if_neg hn]
      cases hk : keep [f.name] with
      | true => rw [thin_cons_of_keep hk, thin_cons_of_keep hk, ih]
      | false => rw [thin_cons_of_not_keep hk, thin_cons_of_not_keep hk, ih]

theorem change_id (name : String) (fs : List Field) : change name id fs = fs := by
  induction fs with
  | nil => rfl
  | cons f rest ih =>
    rw [change, ih]
    split <;> rfl

/-- A change below a name that leaves what is kept there as it is. -/
theorem thin_change_same {g : Field → Field} (h : keep [name] = true)
    (hg : ∀ f, (g f).name = f.name)
    (hf : ∀ f, named? name fs = some f → thinIn keep (g f) = thinIn keep f) :
    thin keep (change name g fs) = thin keep fs := by
  rw [thin_change (k := id) h hg hf, change_id]

/-- **A field that is kept is changed among thinned fields.** -/
theorem thin_changeAt {g : Field → Field} (hg : Uniform g) (hc : keep.Closed)
    (hk : path = [] ∨ keep path = true) (fs : List Field) :
    thin keep (changeAt path g fs) = changeAt path g (thin keep fs) := by
  induction path generalizing keep fs with
  | nil => rfl
  | cons n rest ih =>
    have hk := hk.resolve_left (List.cons_ne_nil n rest)
    by_cases hr : rest = []
    · subst hr
      exact thin_change hk hg.name fun f _ => hg.thinIn keep f
    · rw [changeAt_cons_of_ne_nil hr, changeAt_cons_of_ne_nil hr]
      refine thin_change (hc.head hk) (name_mapFields _) fun f hf => ?_
      refine thinIn_mapFields (ih (hc.below f.name) (Or.inr ?_) f.fields)
      rw [name_of_named? hf]
      exact hk

/-- A change of a field that is not kept is not seen. -/
theorem thin_changeAt_outside {g : Field → Field} (hg : Growing g) (hk : keep path = false)
    (fs : List Field) : thin keep (changeAt path g fs) = thin keep fs := by
  induction path generalizing keep fs with
  | nil => rfl
  | cons n rest ih =>
    by_cases hr : rest = []
    · subst hr
      exact thin_change_of_not_keep hk hg.name fs
    · rw [changeAt_cons_of_ne_nil hr]
      cases hn : keep [n] with
      | false => exact thin_change_of_not_keep hn (name_mapFields _) fs
      | true =>
        refine thin_change_same hn (name_mapFields _) fun f hf => ?_
        cases f with
        | scalar m k v => rfl
        | map m k gs =>
          have hm : m = n := name_of_named? hf
          have hbelow : thin (keep.below m) (changeAt rest g gs) = thin (keep.below m) gs :=
            ih (by rw [hm]; exact hk) gs
          exact congrArg (Field.map m 0) hbelow

/-! ## New texts -/

/-- **A new text that is kept is added among thinned fields.** -/
theorem thin_addAt (hc : keep.Closed) (hk : keep (path ++ [name]) = true) (handle : Nat)
    (value : Option String) (fs : List Field) :
    thin keep (addAt path (.scalar name handle value) fs) =
      addAt path (.scalar name 0 value) (thin keep fs) := by
  induction path generalizing keep fs with
  | nil =>
    rw [addAt, thin_append, thin_cons_of_keep hk]
    rfl
  | cons n rest ih =>
    rw [addAt, addAt]
    refine thin_change (hc.head hk) (fun f => by simp) fun f hf => ?_
    rw [← thinIn_promoted]
    refine thinIn_mapFields ?_
    rw [name_promoted, fields_promoted]
    refine ih (hc.below f.name) ?_ f.fields
    rw [name_of_named? hf]
    exact hk

/-- A field above a field that is there is a map. -/
theorem has_of_has_cons {n : String} {rest : Path} (hr : rest ≠ []) (h : has (n :: rest) fs = true)
    (hf : named? n fs = some f) : has rest f.fields = true ∧ f.promoted = f := by
  rw [has, find?_cons_of_ne_nil hr, hf] at h
  refine ⟨h, ?_⟩
  cases f with
  | scalar m k v =>
    obtain ⟨m', rest', rfl⟩ := List.exists_cons_of_ne_nil hr
    have hnone : find? (m' :: rest') [] = none := by
      cases rest' <;> rfl
    rw [Option.bind_some, fields, hnone] at h
    cases h
  | map m k gs => rfl

theorem mapFields_id (f : Field) : f.mapFields id = f := by
  cases f <;> rfl

/-- **A new text that is not kept makes a map of the field around it, which is.** -/
theorem thin_addAt_hidden (hc : keep.Closed)
    (hp : path = [] ∨ keep path = true ∧ has path fs = true)
    (hk : keep (path ++ [name]) = false) (handle : Nat) (value : Option String) :
    thin keep (addAt path (.scalar name handle value) fs) = promoteAt path (thin keep fs) := by
  induction path generalizing keep fs with
  | nil =>
    rw [addAt, thin_append, thin_cons_of_not_keep hk]
    exact List.append_nil _
  | cons n rest ih =>
    obtain ⟨hkeep, hhas⟩ := hp.resolve_left (List.cons_ne_nil n rest)
    rw [addAt, promoteAt]
    by_cases hr : rest = []
    · subst hr
      refine thin_change hkeep (fun f => by simp) fun f hf => ?_
      rw [← thinIn_promoted, thinIn_mapFields (k := id), mapFields_id]
      rw [addAt, thin_append, thin_cons_of_not_keep, name_promoted]
      · exact List.append_nil _
      · rw [name_promoted, name_of_named? hf]
        exact hk
    · rw [changeAt_cons_of_ne_nil hr]
      refine thin_change (hc.head hkeep) (fun f => by simp) fun f hf => ?_
      obtain ⟨hhas', hmap⟩ := has_of_has_cons hr hhas hf
      rw [hmap]
      refine thinIn_mapFields (ih (hc.below f.name) (Or.inr ⟨?_, hhas'⟩) ?_)
      · rw [name_of_named? hf]
        exact hkeep
      · rw [name_of_named? hf]
        exact hk

/-- A new text in a field that is not kept is not seen. -/
theorem thin_addAt_outside (hp : path ≠ []) (hk : keep path = false) (hhas : has path fs = true)
    (new : Field) : thin keep (addAt path new fs) = thin keep fs := by
  induction path generalizing keep fs with
  | nil => exact absurd rfl hp
  | cons n rest ih =>
    rw [addAt]
    cases hn : keep [n] with
    | false => exact thin_change_of_not_keep hn (fun f => by simp) fs
    | true =>
      have hr : rest ≠ [] := by
        rintro rfl
        rw [hn] at hk
        cases hk
      refine thin_change_same hn (fun f => by simp) fun f hf => ?_
      obtain ⟨hhas', hmap⟩ := has_of_has_cons hr hhas hf
      rw [hmap, thinIn_mapFields (k := id), mapFields_id]
      refine ih hr ?_ hhas'
      rw [name_of_named? hf]
      exact hk

theorem change_of_named? {g : Field → Field} (h : ∀ f, named? name fs = some f → g f = f) :
    change name g fs = fs := by
  induction fs with
  | nil => rfl
  | cons f rest ih =>
    by_cases hn : f.name = name
    · rw [change, if_pos hn, h f (by rw [named?_cons, if_pos hn])]
    · rw [change, if_neg hn, ih fun f' hf' => h f' (by rw [named?_cons, if_neg hn, hf'])]

/-- Where a name is taken below a path, the field there is a map. -/
theorem promoteAt_of_taken (h : (named? name (under path fs)).isSome = true) :
    promoteAt path fs = fs := by
  induction path generalizing fs with
  | nil => rfl
  | cons n rest ih =>
    rw [promoteAt]
    by_cases hr : rest = []
    · subst hr
      refine change_of_named? fun f hf => ?_
      rw [under, hf] at h
      cases f with
      | scalar m k v => cases h
      | map m k gs => rfl
    · rw [changeAt_cons_of_ne_nil hr]
      refine change_of_named? fun f hf => ?_
      rw [under, hf] at h
      cases f with
      | scalar m k v => rfl
      | map m k gs => exact congrArg (Field.map m k) (ih h)

end Field

end Tabular
