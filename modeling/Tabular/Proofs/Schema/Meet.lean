import Tabular.Proofs.Schema.Growth
import Tabular.Proofs.Value.Firsts

/-!
# Fields and the shapes they meet

A field is absorbed by the shape under its name and has nothing to do with the others. It agrees
with that shape if there is none or one of its own kind; otherwise it is a conflict.

* `Shape.Accepts`, `Shape.meet`: what a field comes to, by the shape under its name;
* `meet_text`, `meet_map`, `meet_of_ne`: the three ways it can go;
* **`meet_of_accepts`**: the first two of them in one;
* `named?_absorb`, `get?_absorb`, `names_absorb`: the shapes and the record of some fields, name by
  name;
* `Outcome`, **`outcome_absorb`**: both together, by what becomes of a name;
* **`conflicts_absorb`**: their conflicts, field by field.
-/

namespace Tabular

/-- A field as a value, where a map comes to the given entries. -/
def Field.shown (es : Entries Value) : Field → Value
  | .scalar _ _ v => .ofText? v
  | .map .. => .map es

namespace Shape

variable {row : Int} {path : Path} {ss : List Shape} {s : Shape} {s? : Option Shape}
  {fs : List Field} {f : Field} {key : String}

/-! ## One field -/

theorem keys_absorbField : Entries.keys (absorbField row path ss f).entries = [f.name] := by
  cases f with
  | scalar n h v =>
    simp only [absorbField]
    split <;> rfl
  | map n h fs =>
    simp only [absorbField]
    split <;> rfl

theorem named?_absorbField_of_ne (h : key ≠ f.name) :
    named? key (absorbField row path ss f).shapes = named? key ss := by
  have hnew : ∀ {new : Shape}, new.name = f.name → named? key (ss ++ [new]) = named? key ss := by
    intro new hn
    rw [named?, List.find?_append, List.find?_singleton, hn]
    have : (f.name == key) = false := beq_false_of_ne (Ne.symm h)
    rw [this]
    exact Option.or_none
  cases f with
  | scalar n k v =>
    simp only [absorbField]
    split
    · exact hnew rfl
    · exact named?_change_of_ne h again name_again ss
    · rfl
  | map n k fs =>
    simp only [absorbField]
    split
    · exact hnew rfl
    · rfl
    · exact named?_change_of_ne h _ (by simp) ss

/-- The conflicts at a level and below it. -/
def Absorbed.conflicts (a : Absorbed) : List Conflict :=
  a.own ++ a.deeper

/-- What a field comes to. -/
structure Met where
  shape : Shape
  value : Value
  conflicts : List Conflict

/-- There is no shape yet, or one of the kind of the field. -/
def Accepts (s? : Option Shape) (f : Field) : Prop :=
  ∀ s, s? = some s → s.kind = f.kind

/-- How often a shape was seen. -/
def seenBefore (s? : Option Shape) : Nat :=
  (s?.map seen).getD 0

/-- The shapes that the fields of a map come to. -/
def inner (s? : Option Shape) : List Shape :=
  (s?.map shapes).getD []

/-- What a field at `path` comes to, by the shape under its name. -/
def meet (row : Int) (path : Path) (s? : Option Shape) (f : Field) : Met :=
  match s?.filter fun s => s.kind ≠ f.kind with
  | some s => ⟨s, .null, [⟨path ++ [f.name], s.kind, f.kind, row⟩]⟩
  | none =>
    match f with
    | .scalar n _ v => ⟨.scalar n (seenBefore s? + 1), .ofText? v, []⟩
    | .map n _ fs =>
      let a := absorb row (path ++ [n]) (inner s?) fs
      ⟨.map n (seenBefore s? + 1) a.shapes, .map a.entries, a.conflicts⟩

theorem accepts_none (f : Field) : Accepts none f := by
  rintro s ⟨⟩

theorem exists_of_not_accepts (h : ¬ Accepts s? f) : ∃ s, s? = some s ∧ s.kind ≠ f.kind := by
  simpa [Accepts] using h

theorem filter_of_accepts (h : Accepts s? f) : (s?.filter fun s => s.kind ≠ f.kind) = none := by
  cases s? with
  | none => rfl
  | some s => simp [Option.filter, h s rfl]

theorem meet_text {n : String} {h : Nat} {v : Option String} (ha : Accepts s? (.scalar n h v)) :
    meet row path s? (.scalar n h v) = ⟨.scalar n (seenBefore s? + 1), .ofText? v, []⟩ := by
  simp only [meet, filter_of_accepts ha]

theorem meet_map {n : String} {h : Nat} (ha : Accepts s? (.map n h fs)) :
    meet row path s? (.map n h fs) =
      ⟨.map n (seenBefore s? + 1) (absorb row (path ++ [n]) (inner s?) fs).shapes,
        .map (absorb row (path ++ [n]) (inner s?) fs).entries,
        (absorb row (path ++ [n]) (inner s?) fs).conflicts⟩ := by
  simp only [meet, filter_of_accepts ha]

theorem meet_of_ne (hk : s.kind ≠ f.kind) :
    meet row path (some s) f = ⟨s, .null, [⟨path ++ [f.name], s.kind, f.kind, row⟩]⟩ := by
  have hf : ((some s).filter fun s => s.kind ≠ f.kind) = some s := by
    simp [Option.filter, hk]
  simp only [meet, hf]

theorem inner_of_accepts_text {n : String} {h : Nat} {v : Option String}
    (ha : Accepts s? (.scalar n h v)) : inner s? = [] := by
  cases s? with
  | none => rfl
  | some s =>
    cases s with
    | scalar m k => rfl
    | map m k ss => cases ha _ rfl

/-- **A field that a shape accepts is seen once more**, and what it holds comes to what the shape
holds. -/
theorem meet_of_accepts (row : Int) (path : Path) (ha : Accepts s? f) :
    (meet row path s? f).shape.kind = f.kind ∧
      (meet row path s? f).shape.seen = seenBefore s? + 1 ∧
      (meet row path s? f).shape.shapes =
        (absorb row (path ++ [f.name]) (inner s?) f.fields).shapes ∧
      (meet row path s? f).value =
        f.shown (absorb row (path ++ [f.name]) (inner s?) f.fields).entries ∧
      (meet row path s? f).conflicts =
        (absorb row (path ++ [f.name]) (inner s?) f.fields).conflicts := by
  cases f with
  | scalar n h v =>
    rw [meet_text ha, inner_of_accepts_text ha]
    exact ⟨rfl, rfl, rfl, rfl, rfl⟩
  | map n h fs =>
    rw [meet_map ha]
    exact ⟨rfl, rfl, rfl, rfl, rfl⟩

/-- **A field is absorbed by the shape under its name.** -/
theorem absorbField_eq (row : Int) (path : Path) (ss : List Shape) (f : Field) :
    named? f.name (absorbField row path ss f).shapes =
        some (meet row path (named? f.name ss) f).shape ∧
      (absorbField row path ss f).entries =
        [(f.name, (meet row path (named? f.name ss) f).value)] ∧
      (absorbField row path ss f).conflicts = (meet row path (named? f.name ss) f).conflicts := by
  cases f with
  | scalar n h v =>
    cases hn : named? n ss with
    | none =>
      have hnew : named? n (ss ++ [.scalar n 1]) = some (.scalar n 1) := by
        rw [named?_append_of_none hn, named?_cons]
        exact if_pos rfl
      simp [absorbField, hn, Field.name, hnew, meet_text (accepts_none _), seenBefore,
        Absorbed.conflicts]
    | some s =>
      obtain rfl := name_of_named? hn
      cases s with
      | scalar m k =>
        have ha : Accepts (some (.scalar m k)) (.scalar m h v) := by
          rintro s ⟨⟩
          rfl
        have hagain : named? m (change m again ss) = some (.scalar m (k + 1)) := by
          rw [named?_change_self again name_again, show named? m ss = _ from hn]
          rfl
        replace hn : named? m ss = some (.scalar m k) := hn
        simp [absorbField, Shape.name, hn, Field.name, hagain, meet_text ha, seenBefore,
          Absorbed.conflicts, Shape.seen]
      | map m k ss' =>
        replace hn : named? m ss = some (.map m k ss') := hn
        have hne : (Shape.map m k ss').kind ≠ (Field.scalar m h v).kind := by
          simp [Shape.kind, Field.kind]
        simp [absorbField, Shape.name, hn, Field.name, meet_of_ne hne, Absorbed.conflicts,
          Shape.kind, Field.kind]
  | map n h fs =>
    cases hn : named? n ss with
    | none =>
      have hnew : ∀ inner, named? n (ss ++ [.map n 1 inner]) = some (.map n 1 inner) := by
        intro inner
        rw [named?_append_of_none hn, named?_cons]
        exact if_pos rfl
      simp [absorbField, hn, Field.name, hnew, meet_map (accepts_none _), seenBefore, inner,
        Absorbed.conflicts]
    | some s =>
      obtain rfl := name_of_named? hn
      cases s with
      | scalar m k =>
        replace hn : named? m ss = some (.scalar m k) := hn
        have hne : (Shape.scalar m k).kind ≠ (Field.map m h fs).kind := by
          simp [Shape.kind, Field.kind]
        simp [absorbField, Shape.name, hn, Field.name, meet_of_ne hne, Absorbed.conflicts,
          Shape.kind, Field.kind]
      | map m k ss' =>
        replace hn : named? m ss = some (.map m k ss') := hn
        have ha : Accepts (some (.map m k ss')) (.map m h fs) := by
          rintro s ⟨⟩
          rfl
        have hagain : named? m (change m (fun s => s.again.mapShapes fun _ =>
            (absorb row (path ++ [m]) ss' fs).shapes) ss) =
            some (.map m (k + 1) (absorb row (path ++ [m]) ss' fs).shapes) := by
          rw [named?_change_self _ (by simp), hn]
          rfl
        simp [absorbField, Shape.name, hn, Field.name, hagain, meet_map ha, seenBefore, inner,
          Absorbed.conflicts, Shape.seen, Shape.shapes]

/-! ## Some fields -/

theorem keys_absorb (row : Int) (path : Path) (ss : List Shape) (fs : List Field) :
    Entries.keys (absorb row path ss fs).entries = fs.map Field.name := by
  induction fs generalizing ss with
  | nil => rfl
  | cons f rest ih =>
    show List.map Prod.fst (_ ++ _) = _
    rw [List.map_append, ← Entries.keys, ← Entries.keys, keys_absorbField, ih]
    rfl

theorem named?_absorb_of_not_mem {row : Int} {path : Path} {fs : List Field}
    (h : key ∉ fs.map Field.name) (ss : List Shape) :
    named? key (absorb row path ss fs).shapes = named? key ss := by
  induction fs generalizing ss with
  | nil => rfl
  | cons f rest ih =>
    rw [List.map_cons, List.mem_cons, not_or] at h
    exact (ih h.2 _).trans (named?_absorbField_of_ne h.1)

/-- **The shapes of some fields, name by name.** -/
theorem named?_absorb (hn : (fs.map Field.name).Nodup) (row : Int) (path : Path) (ss : List Shape)
    (name : String) :
    named? name (absorb row path ss fs).shapes =
      ((Field.named? name fs).map fun f => (meet row path (named? name ss) f).shape).or
        (named? name ss) := by
  induction fs generalizing ss with
  | nil => rfl
  | cons f rest ih =>
    rw [List.map_cons, List.nodup_cons] at hn
    show named? name (absorb row path (absorbField row path ss f).shapes rest).shapes = _
    rw [Field.named?_cons]
    by_cases hf : f.name = name
    · subst hf
      rw [named?_absorb_of_not_mem hn.1, (absorbField_eq row path ss f).1, if_pos rfl]
      rfl
    · rw [ih hn.2, if_neg hf, named?_absorbField_of_ne (Ne.symm hf)]

/-- **The record of some fields, name by name.** -/
theorem get?_absorb (hn : (fs.map Field.name).Nodup) (row : Int) (path : Path) (ss : List Shape)
    (name : String) :
    Entries.get? name (absorb row path ss fs).entries =
      (Field.named? name fs).map fun f => (meet row path (named? name ss) f).value := by
  induction fs generalizing ss with
  | nil => rfl
  | cons f rest ih =>
    rw [List.map_cons, List.nodup_cons] at hn
    show Entries.get? name ((absorbField row path ss f).entries ++
      (absorb row path (absorbField row path ss f).shapes rest).entries) = _
    rw [Entries.get?_append, Field.named?_cons, (absorbField_eq row path ss f).2.1, Entries.get?]
    by_cases hf : f.name = name
    · subst hf
      rw [if_pos rfl, if_pos rfl]
      rfl
    · rw [if_neg hf, if_neg hf, ih hn.2, named?_absorbField_of_ne (Ne.symm hf)]
      rfl

/-- What becomes of a name when some fields are absorbed: no field has it, the field that has it is
refused as it is of the other kind, or it is taken. -/
inductive Outcome (row : Int) (path : Path) (ss : List Shape) (fs : List Field) (name : String) :
    Prop
  | absent (field : Field.named? name fs = none)
      (shape : named? name (absorb row path ss fs).shapes = named? name ss)
      (entry : Entries.get? name (absorb row path ss fs).entries = none)
  | refused (f : Field) (s : Shape) (field : Field.named? name fs = some f)
      (before : named? name ss = some s) (ne : s.kind ≠ f.kind)
      (shape : named? name (absorb row path ss fs).shapes = some s)
      (entry : Entries.get? name (absorb row path ss fs).entries = some .null)
  | taken (f : Field) (s : Shape) (field : Field.named? name fs = some f)
      (accepts : Accepts (named? name ss) f)
      (shape : named? name (absorb row path ss fs).shapes = some s)
      (kind : s.kind = f.kind) (seen : s.seen = seenBefore (named? name ss) + 1)
      (shapes : s.shapes = (absorb row (path ++ [name]) (inner (named? name ss)) f.fields).shapes)
      (entry : Entries.get? name (absorb row path ss fs).entries =
        some (f.shown (absorb row (path ++ [name]) (inner (named? name ss)) f.fields).entries))

/-- **What becomes of each name.** -/
theorem outcome_absorb (hn : (fs.map Field.name).Nodup) (row : Int) (path : Path)
    (ss : List Shape) (name : String) : Outcome row path ss fs name := by
  have hshape := named?_absorb hn row path ss name
  have hentry := get?_absorb hn row path ss name
  cases hf : Field.named? name fs with
  | none =>
    rw [hf] at hshape hentry
    exact .absent hf hshape hentry
  | some f =>
    rw [hf] at hshape hentry
    by_cases ha : Accepts (named? name ss) f
    · obtain ⟨hkind, hseen, hshapes, hvalue, -⟩ := meet_of_accepts row path ha
      rw [Field.name_of_named? hf] at hshapes hvalue
      refine .taken f _ hf ha hshape hkind hseen hshapes ?_
      rw [← hvalue]
      exact hentry
    · obtain ⟨s, hs, hne⟩ := exists_of_not_accepts ha
      rw [hs, Option.map_some, meet_of_ne hne] at hshape hentry
      exact .refused f s hf hs hne hshape hentry

theorem names_absorbField (row : Int) (path : Path) (ss : List Shape) (f : Field) :
    (absorbField row path ss f).shapes.map Shape.name =
      ss.map Shape.name ++ if (named? f.name ss).isNone then [f.name] else [] := by
  cases f with
  | scalar n h v =>
    simp only [absorbField, Field.name]
    split
    · next hn => simp [hn, Shape.name]
    · next hn => simp [hn, names_change]
    · next hn => simp [hn]
  | map n h fs =>
    simp only [absorbField, Field.name]
    split
    · next hn => simp [hn, Shape.name]
    · next hn => simp [hn]
    · next hn => simp [hn, names_change]

/-- New names come behind the old ones, in the order of the fields. -/
theorem names_absorb (hn : (fs.map Field.name).Nodup) (row : Int) (path : Path)
    (ss : List Shape) :
    (absorb row path ss fs).shapes.map Shape.name =
      ss.map Shape.name ++ (fs.map Field.name).filter fun name => (named? name ss).isNone := by
  induction fs generalizing ss with
  | nil => exact (List.append_nil _).symm
  | cons f rest ih =>
    rw [List.map_cons, List.nodup_cons] at hn
    show (absorb row path (absorbField row path ss f).shapes rest).shapes.map Shape.name = _
    have hsame : ((rest.map Field.name).filter fun name =>
        (named? name (absorbField row path ss f).shapes).isNone) =
        (rest.map Field.name).filter fun name => (named? name ss).isNone := by
      refine List.filter_congr fun name hname => ?_
      rw [named?_absorbField_of_ne]
      rintro rfl
      exact hn.1 hname
    rw [ih hn.2, names_absorbField, hsame, List.append_assoc, List.map_cons, List.filter_cons]
    split <;> simp_all

/-- **The conflicts of some fields, field by field.** -/
theorem conflicts_absorb (hn : (fs.map Field.name).Nodup) (row : Int) (path : Path)
    (ss : List Shape) :
    (absorb row path ss fs).conflicts.Perm
      (fs.flatMap fun f => (meet row path (named? f.name ss) f).conflicts) := by
  induction fs generalizing ss with
  | nil => exact .refl _
  | cons f rest ih =>
    rw [List.map_cons, List.nodup_cons] at hn
    let a := absorbField row path ss f
    let b := absorb row path a.shapes rest
    have hf : a.conflicts = (meet row path (named? f.name ss) f).conflicts :=
      (absorbField_eq row path ss f).2.2
    have hrest : b.conflicts.Perm
        (rest.flatMap fun f => (meet row path (named? f.name ss) f).conflicts) := by
      refine (ih hn.2 a.shapes).trans (.of_eq ?_)
      rw [List.flatMap_def, List.flatMap_def]
      refine congrArg List.flatten (List.map_congr_left fun g hg => ?_)
      rw [named?_absorbField_of_ne]
      intro he
      exact hn.1 (he ▸ List.mem_map_of_mem hg)
    have hswap : (b.own ++ (b.deeper ++ a.deeper)).Perm (a.deeper ++ (b.own ++ b.deeper)) := by
      rw [← List.append_assoc]
      exact List.perm_append_comm
    have hnow : (absorb row path ss (f :: rest)).conflicts.Perm (a.conflicts ++ b.conflicts) := by
      show (a.own ++ b.own ++ (b.deeper ++ a.deeper)).Perm (a.own ++ a.deeper ++ (b.own ++ b.deeper))
      rw [List.append_assoc, List.append_assoc]
      exact hswap.append_left a.own
    refine hnow.trans ?_
    rw [hf, List.flatMap_cons]
    exact hrest.append_left _

end Shape

end Tabular
