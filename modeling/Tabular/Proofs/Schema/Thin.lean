import Tabular.Proofs.Row.Thin
import Tabular.Proofs.Schema.Growth

/-!
# Thinned shapes and records

Shapes and records of which only some paths are kept. Where only the kept part of the fields is seen,
there is the kept part of the shapes and of the records.

* `Shape.thin`, `Value.thin`, `Value.thinEntries`: the shapes and values at paths that are kept;
* `kindAt_thin`, `follow_thin`: what stands at a path that is kept;
* **`absorb_thin`**, `absorb_bare`: thinned fields under thinned shapes, and fields without handles.
-/

namespace Tabular

/-! ## Shapes -/

namespace Shape

mutual

/-- A shape without what is not kept below it. -/
def thinIn (keep : Keep) : Shape → Shape
  | .scalar n k => .scalar n k
  | .map n k ss => .map n k (thin (keep.below n) ss)

/-- The shapes at paths that are kept. -/
def thin (keep : Keep) : List Shape → List Shape
  | [] => []
  | s :: rest => if keep [s.name] then thinIn keep s :: thin keep rest else thin keep rest

end

variable {keep : Keep} {s : Shape} {ss rest : List Shape} {name : String} {path : Path}

theorem thin_cons_of_keep (h : keep [s.name] = true) :
    thin keep (s :: rest) = thinIn keep s :: thin keep rest := by
  rw [thin, if_pos h]

theorem thin_cons_of_not_keep (h : keep [s.name] = false) :
    thin keep (s :: rest) = thin keep rest := by
  rw [thin, if_neg (by simp [h])]

@[simp] theorem name_thinIn (keep : Keep) (s : Shape) : (thinIn keep s).name = s.name := by
  cases s <;> simp [thinIn, Shape.name]

@[simp] theorem kind_thinIn (keep : Keep) (s : Shape) : (thinIn keep s).kind = s.kind := by
  cases s <;> simp [thinIn, kind]

@[simp] theorem shapes_thinIn (keep : Keep) (s : Shape) :
    (thinIn keep s).shapes = thin (keep.below s.name) s.shapes := by
  cases s <;> simp [thinIn, shapes, thin, Shape.name]

theorem thinIn_again (keep : Keep) (s : Shape) : thinIn keep s.again = (thinIn keep s).again := by
  cases s <;> simp [thinIn, again]

theorem thinIn_mapShapes {g g' : List Shape → List Shape}
    (h : thin (keep.below s.name) (g s.shapes) = g' (thin (keep.below s.name) s.shapes)) :
    thinIn keep (s.mapShapes g) = (thinIn keep s).mapShapes g' := by
  cases s with
  | scalar n k => rfl
  | map n k ss => exact congrArg (Shape.map n k) h

theorem thin_append (keep : Keep) (ss later : List Shape) :
    thin keep (ss ++ later) = thin keep ss ++ thin keep later := by
  induction ss with
  | nil => rfl
  | cons s rest ih =>
    cases hk : keep [s.name] with
    | true => rw [List.cons_append, thin_cons_of_keep hk, thin_cons_of_keep hk, ih, List.cons_append]
    | false => rw [List.cons_append, thin_cons_of_not_keep hk, thin_cons_of_not_keep hk, ih]

theorem named?_thin (h : keep [name] = true) (ss : List Shape) :
    named? name (thin keep ss) = (named? name ss).map (thinIn keep) := by
  induction ss with
  | nil => rfl
  | cons s rest ih =>
    rw [named?_cons]
    by_cases hs : s.name = name
    · rw [thin_cons_of_keep (hs ▸ h), named?_cons, name_thinIn, if_pos hs, if_pos hs]
      rfl
    · rw [if_neg hs, ← ih]
      cases hk : keep [s.name] with
      | true => rw [thin_cons_of_keep hk, named?_cons, name_thinIn, if_neg hs]
      | false => rw [thin_cons_of_not_keep hk]

theorem thin_change {g g' : Shape → Shape} (h : keep [name] = true)
    (hname : ∀ s, (g s).name = s.name)
    (hg : ∀ s, named? name ss = some s → thinIn keep (g s) = g' (thinIn keep s)) :
    thin keep (change name g ss) = change name g' (thin keep ss) := by
  induction ss with
  | nil => rfl
  | cons s rest ih =>
    by_cases hs : s.name = name
    · have hk : keep [s.name] = true := hs ▸ h
      rw [change, if_pos hs, thin_cons_of_keep ((hname s).symm ▸ hk), thin_cons_of_keep hk, change,
        name_thinIn, if_pos hs, hg s (by rw [named?_cons, if_pos hs])]
    · have ih' := ih fun t ht => hg t (by rw [named?_cons, if_neg hs, ht])
      rw [change, if_neg hs]
      cases hk : keep [s.name] with
      | true => rw [thin_cons_of_keep hk, thin_cons_of_keep hk, change, name_thinIn, if_neg hs, ih']
      | false => rw [thin_cons_of_not_keep hk, thin_cons_of_not_keep hk, ih']

theorem thin_change_of_not_keep {g : Shape → Shape} (h : keep [name] = false)
    (hname : ∀ s, (g s).name = s.name) (ss : List Shape) :
    thin keep (change name g ss) = thin keep ss := by
  induction ss with
  | nil => rfl
  | cons s rest ih =>
    by_cases hs : s.name = name
    · have hk : keep [s.name] = false := hs ▸ h
      rw [change, if_pos hs, thin_cons_of_not_keep ((hname s).symm ▸ hk), thin_cons_of_not_keep hk]
    · rw [change, if_neg hs]
      cases hk : keep [s.name] with
      | true => rw [thin_cons_of_keep hk, thin_cons_of_keep hk, ih]
      | false => rw [thin_cons_of_not_keep hk, thin_cons_of_not_keep hk, ih]

/-- **The kind at a path that is kept.** -/
theorem kindAt_thin (hc : keep.Closed) (hk : keep path = true) (ss : List Shape) :
    kindAt path (thin keep ss) = kindAt path ss := by
  induction path generalizing keep ss with
  | nil => rfl
  | cons n rest ih =>
    have hn := named?_thin (hc.head hk) ss
    by_cases hr : rest = []
    · subst hr
      rw [kindAt_singleton, kindAt_singleton, hn, Option.map_map]
      cases named? n ss <;> simp
    · rw [kindAt_cons hr, kindAt_cons hr, hn]
      cases hs : named? n ss with
      | none => rfl
      | some s =>
        simp only [Option.map_some, Option.bind_some, shapes_thinIn, name_of_named? hs]
        exact ih (hc.below n) hk s.shapes

mutual

theorem thinIn_eq_self {keep : Keep} (h : ∀ path, path ≠ [] → keep path = true) :
    ∀ s : Shape, thinIn keep s = s
  | .scalar _ _ => rfl
  | .map n k ss => congrArg (Shape.map n k) (thin_eq_self (fun _ _ => h _ (List.cons_ne_nil n _)) ss)

/-- Where every path is kept. -/
theorem thin_eq_self {keep : Keep} (h : ∀ path, path ≠ [] → keep path = true) :
    ∀ ss : List Shape, thin keep ss = ss
  | [] => rfl
  | s :: rest => by
    rw [thin_cons_of_keep (h _ (List.cons_ne_nil _ _)), thinIn_eq_self h s, thin_eq_self h rest]

end

end Shape

/-! ## Values -/

namespace Value

mutual

/-- A value without what is not kept below it. -/
def thin (keep : Keep) : Value → Value
  | .map es => .map (thinEntries keep es)
  | v => v

/-- The entries at paths that are kept. -/
def thinEntries (keep : Keep) : List (String × Value) → List (String × Value)
  | [] => []
  | (k, v) :: rest =>
    if keep [k] then (k, thin (keep.below k) v) :: thinEntries keep rest else thinEntries keep rest

end

variable {keep : Keep} {es : List (String × Value)} {key : String} {v : Value}

theorem thinEntries_cons_of_keep (h : keep [key] = true) :
    thinEntries keep ((key, v) :: es) = (key, thin (keep.below key) v) :: thinEntries keep es := by
  rw [thinEntries, if_pos h]

theorem thinEntries_cons_of_not_keep (h : keep [key] = false) :
    thinEntries keep ((key, v) :: es) = thinEntries keep es := by
  rw [thinEntries, if_neg (by simp [h])]

theorem thinEntries_append (keep : Keep) (es later : List (String × Value)) :
    thinEntries keep (es ++ later) = thinEntries keep es ++ thinEntries keep later := by
  induction es with
  | nil => rfl
  | cons e rest ih =>
    obtain ⟨k, v⟩ := e
    cases hk : keep [k] with
    | true =>
      rw [List.cons_append, thinEntries_cons_of_keep hk, thinEntries_cons_of_keep hk, ih,
        List.cons_append]
    | false =>
      rw [List.cons_append, thinEntries_cons_of_not_keep hk, thinEntries_cons_of_not_keep hk, ih]

@[simp] theorem isMap_thin (keep : Keep) (v : Value) : (thin keep v).isMap = v.isMap := by
  cases v <;> simp [thin, isMap]

theorem thin_of_not_isMap (h : v.isMap = false) (keep : Keep) : thin keep v = v := by
  cases v with
  | map es => cases h
  | _ => simp [thin]

theorem entries_thin (keep : Keep) (v : Value) :
    (thin keep v).entries = thinEntries keep v.entries := by
  cases v <;> simp [thin, entries, thinEntries]

theorem get?_thinEntries (h : keep [key] = true) (es : List (String × Value)) :
    Entries.get? key (thinEntries keep es) = (Entries.get? key es).map (thin (keep.below key)) := by
  induction es with
  | nil => rfl
  | cons e rest ih =>
    obtain ⟨k, v⟩ := e
    by_cases hk : k = key
    · subst hk
      rw [thinEntries_cons_of_keep h, Entries.get?, if_pos rfl, Entries.get?, if_pos rfl]
      rfl
    · rw [Entries.get?, if_neg hk, ← ih]
      cases hkeep : keep [k] with
      | true => rw [thinEntries_cons_of_keep hkeep, Entries.get?, if_neg hk]
      | false => rw [thinEntries_cons_of_not_keep hkeep]

/-- **The value at a path that is kept.** -/
theorem follow_thin {path : Path} (hc : keep.Closed) (hk : path = [] ∨ keep path = true)
    (v : Value) : ∃ keep', (thin keep v).follow path = thin keep' (v.follow path) := by
  induction path generalizing keep v with
  | nil => exact ⟨keep, rfl⟩
  | cons n rest ih =>
    have hk := hk.resolve_left (List.cons_ne_nil n rest)
    have hget : (Entries.get? n (thin keep v).entries).getD .null =
        thin (keep.below n) ((Entries.get? n v.entries).getD .null) := by
      rw [entries_thin, get?_thinEntries (hc.head hk)]
      cases Entries.get? n v.entries <;> simp [thin]
    rw [follow, follow, hget]
    exact ih (hc.below n) (Or.inr hk) _

mutual

theorem thin_eq_self {keep : Keep} (h : ∀ path, path ≠ [] → keep path = true) :
    ∀ v : Value, thin keep v = v
  | .map es => congrArg Value.map (thinEntries_eq_self h es)
  | .null => rfl
  | .bool _ => rfl
  | .int _ => rfl
  | .decimal _ => rfl
  | .text _ => rfl
  | .list _ => rfl
  | .unwritable => rfl

/-- Where every path is kept. -/
theorem thinEntries_eq_self {keep : Keep} (h : ∀ path, path ≠ [] → keep path = true) :
    ∀ es : List (String × Value), thinEntries keep es = es
  | [] => rfl
  | (k, v) :: rest => by
    have hbelow : thin (keep.below k) v = v :=
      thin_eq_self (fun _ _ => h _ (List.cons_ne_nil k _)) v
    rw [thinEntries_cons_of_keep (h _ (List.cons_ne_nil _ _)), hbelow, thinEntries_eq_self h rest]

end

end Value

/-! ## Rows under shapes -/

namespace Shape

/-- The kept part of what comes of fields under shapes. -/
structure Absorbed.Thinned (keep : Keep) (wide narrow : Absorbed) : Prop where
  shapes : narrow.shapes = thin keep wide.shapes
  entries : narrow.entries = Value.thinEntries keep wide.entries

section Absorb

variable {keep : Keep} {row : Int} {path : Path} {ss : List Shape} {name : String} {handle : Nat}

/-- A field that is not kept. -/
theorem absorbField_thin_outside (row : Int) (path : Path) (ss : List Shape) {f : Field}
    (hk : keep [f.name] = false) :
    thin keep (absorbField row path ss f).shapes = thin keep ss ∧
      Value.thinEntries keep (absorbField row path ss f).entries = [] := by
  have hnew : ∀ {new : Shape}, new.name = f.name → thin keep (ss ++ [new]) = thin keep ss := by
    intro new hn
    rw [thin_append, thin_cons_of_not_keep (by rw [hn]; exact hk)]
    exact List.append_nil _
  cases f with
  | scalar n h v =>
    simp only [absorbField]
    split
    · exact ⟨hnew rfl, Value.thinEntries_cons_of_not_keep hk⟩
    · exact ⟨thin_change_of_not_keep hk name_again ss, Value.thinEntries_cons_of_not_keep hk⟩
    · exact ⟨rfl, Value.thinEntries_cons_of_not_keep hk⟩
  | map n h fs =>
    simp only [absorbField]
    split
    · exact ⟨hnew rfl, Value.thinEntries_cons_of_not_keep hk⟩
    · exact ⟨rfl, Value.thinEntries_cons_of_not_keep hk⟩
    · exact ⟨thin_change_of_not_keep hk (by simp) ss, Value.thinEntries_cons_of_not_keep hk⟩

/-- A text that is kept. -/
theorem absorbField_thin_scalar (hk : keep [name] = true) (value : Option String) :
    Absorbed.Thinned keep (absorbField row path ss (.scalar name handle value))
      (absorbField row path (thin keep ss) (.scalar name 0 value)) := by
  have hentry : ∀ v, v.isMap = false →
      [(name, v)] = Value.thinEntries keep [(name, v)] := fun v hv => by
    rw [Value.thinEntries_cons_of_keep hk, Value.thin_of_not_isMap hv]
    rfl
  have htext : (Value.ofText? value).isMap = false := by cases value <;> rfl
  have hn := named?_thin hk ss
  cases hs : named? name ss with
  | none =>
    rw [hs, Option.map_none] at hn
    simp only [absorbField, hs, hn]
    refine ⟨?_, hentry _ htext⟩
    rw [thin_append, thin_cons_of_keep hk]
    rfl
  | some s =>
    rw [hs, Option.map_some] at hn
    cases s with
    | scalar n k =>
      simp only [absorbField, hs, hn, thinIn]
      exact ⟨(thin_change hk name_again fun s _ => thinIn_again keep s).symm, hentry _ htext⟩
    | map n k inner =>
      simp only [absorbField, hs, hn, thinIn]
      exact ⟨rfl, hentry _ rfl⟩

/-- A map that is kept. -/
theorem absorbField_thin_map {fields : List Field} (hk : keep [name] = true)
    (h : ∀ path ss, Absorbed.Thinned (keep.below name) (absorb row path ss fields)
      (absorb row path (thin (keep.below name) ss) (Field.thin (keep.below name) fields))) :
    Absorbed.Thinned keep (absorbField row path ss (.map name handle fields))
      (absorbField row path (thin keep ss)
        (.map name 0 (Field.thin (keep.below name) fields))) := by
  have hentry : ∀ es es', es' = Value.thinEntries (keep.below name) es →
      [(name, Value.map es')] = Value.thinEntries keep [(name, Value.map es)] := by
    rintro es _ rfl
    rw [Value.thinEntries_cons_of_keep hk]
    rfl
  have hn := named?_thin hk ss
  cases hs : named? name ss with
  | none =>
    rw [hs, Option.map_none] at hn
    simp only [absorbField, hs, hn]
    refine ⟨?_, hentry _ _ (h (path ++ [name]) []).entries⟩
    rw [thin_append, thin_cons_of_keep hk, thinIn, ← (h (path ++ [name]) []).shapes]
    rfl
  | some s =>
    rw [hs, Option.map_some] at hn
    cases s with
    | scalar n k =>
      simp only [absorbField, hs, hn, thinIn]
      refine ⟨rfl, ?_⟩
      rw [Value.thinEntries_cons_of_keep hk, Value.thin_of_not_isMap rfl]
      rfl
    | map n k inner =>
      obtain rfl : n = name := name_of_named? hs
      simp only [absorbField, hs, hn, thinIn]
      refine ⟨(thin_change hk (by simp) fun s hs' => ?_).symm,
        hentry _ _ (h (path ++ [n]) inner).entries⟩
      rw [hs] at hs'
      cases hs'
      exact congrArg (Shape.map n (k + 1)) (h (path ++ [n]) inner).shapes.symm

/-- A field that is kept, before others. -/
theorem Absorbed.Thinned.cons {f f' : Field} {rest : List Field}
    (hf : Absorbed.Thinned keep (absorbField row path ss f)
      (absorbField row path (thin keep ss) f'))
    (hrest : ∀ ss, Absorbed.Thinned keep (absorb row path ss rest)
      (absorb row path (thin keep ss) (Field.thin keep rest))) :
    Absorbed.Thinned keep (absorb row path ss (f :: rest))
      (absorb row path (thin keep ss) (f' :: Field.thin keep rest)) := by
  have hr := hrest (absorbField row path ss f).shapes
  rw [← hf.shapes] at hr
  refine ⟨hr.shapes, ?_⟩
  show _ ++ _ = Value.thinEntries keep (_ ++ _)
  rw [Value.thinEntries_append, hf.entries, hr.entries]

/-- A field that is not kept, before others. -/
theorem Absorbed.Thinned.cons_outside {f : Field} {rest : List Field} (hk : keep [f.name] = false)
    (hrest : ∀ ss, Absorbed.Thinned keep (absorb row path ss rest)
      (absorb row path (thin keep ss) (Field.thin keep rest))) :
    Absorbed.Thinned keep (absorb row path ss (f :: rest))
      (absorb row path (thin keep ss) (Field.thin keep rest)) := by
  obtain ⟨hshapes, hentries⟩ := absorbField_thin_outside row path ss hk
  have hr := hrest (absorbField row path ss f).shapes
  rw [hshapes] at hr
  refine ⟨hr.shapes, ?_⟩
  show _ = Value.thinEntries keep (_ ++ _)
  rw [Value.thinEntries_append, hentries, hr.entries, List.nil_append]

/-- **Thinned fields under thinned shapes.** -/
theorem absorb_thin (keep : Keep) (row : Int) (path : Path) (ss : List Shape) (fs : List Field) :
    Absorbed.Thinned keep (absorb row path ss fs)
      (absorb row path (thin keep ss) (Field.thin keep fs)) := by
  induction fs using Field.induction generalizing keep path ss with
  | nil => exact ⟨rfl, rfl⟩
  | scalar name handle value rest ih =>
    cases hk : keep [name] with
    | true =>
      rw [Field.thin_cons_of_keep (by exact hk)]
      exact (absorbField_thin_scalar hk value).cons fun ss => ih keep path ss
    | false =>
      rw [Field.thin_cons_of_not_keep (by exact hk)]
      exact .cons_outside hk fun ss => ih keep path ss
  | map name handle fields rest ihFields ihRest =>
    cases hk : keep [name] with
    | true =>
      rw [Field.thin_cons_of_keep (by exact hk)]
      exact (absorbField_thin_map hk fun path ss => ihFields (keep.below name) path ss).cons
        fun ss => ihRest keep path ss
    | false =>
      rw [Field.thin_cons_of_not_keep (by exact hk)]
      exact .cons_outside hk fun ss => ihRest keep path ss

/-- Shapes and records do not depend on handles. -/
theorem absorb_bare (row : Int) (path : Path) (ss : List Shape) (fs : List Field) :
    (absorb row path ss (Field.bare fs)).shapes = (absorb row path ss fs).shapes ∧
      (absorb row path ss (Field.bare fs)).entries = (absorb row path ss fs).entries := by
  have h := absorb_thin Keep.all row path ss fs
  have hall : ∀ path, path ≠ [] → Keep.all path = true := fun _ _ => rfl
  rw [thin_eq_self hall] at h
  exact ⟨h.shapes.trans (thin_eq_self hall _), h.entries.trans (Value.thinEntries_eq_self hall _)⟩

end Absorb

end Shape

end Tabular
