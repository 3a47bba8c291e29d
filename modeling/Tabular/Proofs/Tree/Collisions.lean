import Tabular.Proofs.Row.Besides
import Tabular.Proofs.Tree.Leaf
import Tabular.Proofs.Tree.Visits
import Tabular.Proofs.Value.Extended

/-!
# Flattened leaves of a row of every column

Flattened elements without children are put beside the fields of the row, one by one in document
order. Those that share a name are told apart by a number, or one of them stays.

* `Visit.leaves`, `Visit.tops`: the leaves, and the names of the fields of the row itself;
* `Flattens`: what leaves make of columns and of the number of collisions, by the policy;
* `flattens_putFlattened`, **`Passes.flattens`**: one leaf, and all of them;
* `exists_of_mem_tops`: the fields of the row itself are named as its children;
* **`run_flattened`**: the columns of a finished row, with the counter.
-/

namespace Tabular

/-! ## Leaves and fields among what is read -/

namespace Visit

/-- A flattened element without children that is not named as the attributes, with its text. -/
def leaf? : Visit → Option (String × Option String)
  | .flattened e =>
    if (Item.elements e.content).isEmpty && e.name != attributesName then
      some (e.name, cleaned (Item.textOf e.content))
    else none
  | .field _ _ => none

/-- The name of a field of the row itself. -/
def top? : Visit → Option String
  | .field [name] _ => some name
  | .field _ _ | .flattened _ => none

/-- The flattened leaves, in document order. -/
def leaves (vs : List Visit) : Entries (Option String) :=
  vs.filterMap leaf?

/-- The names of the fields of the row itself. -/
def tops (vs : List Visit) : List String :=
  vs.filterMap top?

theorem leaves_cons (v : Visit) (vs : List Visit) :
    leaves (v :: vs) = v.leaf?.toList ++ leaves vs := by
  rw [leaves, List.filterMap_cons]
  cases v.leaf? <;> rfl

theorem tops_cons (v : Visit) (vs : List Visit) : tops (v :: vs) = v.top?.toList ++ tops vs := by
  rw [tops, List.filterMap_cons]
  cases v.top? <;> rfl

theorem leaves_append (vs vs' : List Visit) : leaves (vs ++ vs') = leaves vs ++ leaves vs' :=
  List.filterMap_append

theorem tops_append (vs vs' : List Visit) : tops (vs ++ vs') = tops vs ++ tops vs' :=
  List.filterMap_append

theorem leaf?_of_children {e : Element} (h : Item.elements e.content ≠ []) :
    leaf? (.flattened e) = none := by
  simp [leaf?, h]

theorem top?_of_inside {above : Path} (h : above ≠ []) (name : String) (e : Element) :
    top? (.field (above ++ [name]) e) = none := by
  obtain ⟨n, above, rfl⟩ := List.exists_cons_of_ne_nil h
  cases above <;> rfl

end Visit

open Visit (leaves tops leaves_cons tops_cons leaves_append tops_append)
open Tabular.Field (besides texts named? Laid Inside)

/-! ## What leaves make of the columns -/

/-- A column for a leaf: its value is that of the leaf, and its name is that of the leaf, or that
with a number. -/
def IsColumnOf (f : Field) (leaf : String × Option String) : Prop :=
  f.value? = leaf.2 ∧ (f.name = leaf.1 ∨ ∃ n, 2 ≤ n ∧ f.name = numberedName leaf.1 n)

/-- What leaves make of the columns of a row and of the number of collisions: the first text of each
name stays, or the last one does, or every text has a column. -/
def Flattens (policy : CollisionPolicy) (now : Entries (Option String)) (fs fs' : List Field)
    (n n' : Nat) : Prop :=
  match policy with
  | .first => texts fs' = (texts fs).extend now ∧ n' + fs'.length = n + fs.length + now.length
  | .last => texts fs' = (texts fs).putAll now ∧ n' + fs'.length = n + fs.length + now.length
  | .number => ∃ columns, fs' = fs ++ columns ∧ List.Forall₂ IsColumnOf columns now

namespace Flattens

variable {policy : CollisionPolicy} {now later : Entries (Option String)}
  {fs fs₁ fs₂ : List Field} {n n₁ n₂ : Nat}

theorem refl (policy : CollisionPolicy) (fs : List Field) (n : Nat) :
    Flattens policy [] fs fs n n := by
  cases policy with
  | first => exact ⟨(Entries.extend_nil _).symm, rfl⟩
  | last => exact ⟨rfl, rfl⟩
  | number => exact ⟨[], (List.append_nil fs).symm, .nil⟩

theorem trans (h : Flattens policy now fs fs₁ n n₁) (h' : Flattens policy later fs₁ fs₂ n₁ n₂) :
    Flattens policy (now ++ later) fs fs₂ n n₂ := by
  cases policy with
  | first =>
    refine ⟨by rw [h'.1, h.1, Entries.extend_append], ?_⟩
    have h₁ := h.2
    have h₂ := h'.2
    rw [List.length_append]
    omega
  | last =>
    refine ⟨by rw [h'.1, h.1, Entries.putAll_append], ?_⟩
    have h₁ := h.2
    have h₂ := h'.2
    rw [List.length_append]
    omega
  | number =>
    obtain ⟨columns, rfl, hc⟩ := h
    obtain ⟨more, rfl, hm⟩ := h'
    exact ⟨columns ++ more, List.append_assoc .., List.rel_append hc hm⟩

/-- A leaf under a new name has a column of its own. -/
theorem add {f : Field} (hf : f.name ∉ fs.map Field.name) :
    Flattens policy [(f.name, f.value?)] fs (fs ++ [f]) n n := by
  have hkey : f.name ∉ Entries.keys (texts fs) := by rwa [Field.keys_texts]
  have htexts : texts (fs ++ [f]) = texts fs ++ [(f.name, f.value?)] := Field.texts_append fs [f]
  have hlen : n + (fs ++ [f]).length = n + fs.length + 1 := by
    rw [List.length_append, Nat.add_assoc]
    rfl
  cases policy with
  | first => exact ⟨by rw [htexts, Entries.extend_of_not_mem hkey], hlen⟩
  | last => exact ⟨htexts.trans (Entries.put_of_not_mem hkey _).symm, hlen⟩
  | number => exact ⟨[f], rfl, .cons ⟨rfl, Or.inl rfl⟩ .nil⟩

theorem first_of_nil (h : Flattens .first now [] fs n n₁) :
    texts fs = Entries.firsts [] now ∧
      n₁ + (Entries.keys now).dedup.length = n + now.length := by
  have htexts : texts fs = Entries.firsts [] now := h.1
  have hlen := Entries.length_firsts now
  rw [← htexts, texts, List.length_map] at hlen
  exact ⟨htexts, hlen ▸ h.2⟩

theorem last_of_nil (h : Flattens .last now [] fs n n₁) :
    texts fs = Entries.ofPairs now ∧
      (∀ tag, Entries.get? tag (texts fs) = Entries.get? tag now.reverse) ∧
      n₁ + (Entries.keys now).dedup.length = n + now.length := by
  have htexts : texts fs = Entries.ofPairs now := h.1
  have hlen := Entries.length_ofPairs now
  rw [← htexts, texts, List.length_map] at hlen
  refine ⟨htexts, fun tag => ?_, hlen ▸ h.2⟩
  rw [htexts, Entries.ofPairs, Entries.get?_putAll_reverse, Entries.get?, Option.or_none]

end Flattens

/-! ## Steps of a draft -/

namespace Draft

variable {o : ReaderOptions} {names : List String} {d d' : Draft} {t : Tally} {name : String}
  {path : Path} {e : Element}

theorem inside_opened {place : Option Path}
    (hp : ∀ path name, place = some path → path.head? = some name → name ∈ names) :
    Inside names d.fields (d.opened place).fields := by
  cases place with
  | none => exact ⟨rfl, rfl⟩
  | some path => exact Field.inside_changeAt Field.name_promoted (fun name => hp path name rfl) _

/-- A new field, below the row itself or inside a field that stands for an element. -/
theorem laid_insert (h : Laid names d.fields) (hp : ∀ name, path.head? = some name → name ∈ names)
    (hd : d.insert path name = some d') :
    let names' := names ++ (Visit.top? (.field (path ++ [name]) e)).toList
    Laid names' d'.fields ∧ besides names' d'.fields = besides names d.fields := by
  intro names'
  obtain ⟨hfree, rfl⟩ := insert_eq_some_iff.mp hd
  cases path with
  | nil => exact h.concat (f := .scalar name d.size none) hfree
  | cons n rest =>
    have hi : Inside names d.fields (Field.addAt (n :: rest) (.scalar name d.size none) d.fields) :=
      Field.inside_change (fun f => by simp) (hp n rfl) d.fields
    have htop := Visit.top?_of_inside (List.cons_ne_nil n rest) name e
    have hnames : names' = names := by
      simp only [names', htop, Option.toList_none, List.append_nil]
    rw [hnames]
    exact ⟨h.inside hi, hi.besides_eq⟩

/-- A new column of a draft. -/
theorem flattens_addColumn (h : Laid names d.fields) (hf : named? name d.fields = none)
    (value : Option String) (policy : CollisionPolicy) (n : Nat) :
    Laid names (d.addColumn name value).fields ∧
      Flattens policy [(name, value)] (besides names d.fields)
        (besides names (d.addColumn name value).fields) n n := by
  have hnew := h.column (f := .scalar name d.size value) hf rfl
  rw [Draft.fields_addColumn hf, hnew.2]
  exact ⟨hnew.1, .add (f := .scalar name d.size value) (Field.not_mem_besides hf)⟩

/-- The column of a leaf whose name is taken. -/
theorem flattens_collide (ha : ∀ path, o.projection.admits path = true) (h : Laid names d.fields)
    (hn : name ∉ names) {existing : Field} (hf : named? name d.fields = some existing)
    (value : Option String) (n : Nat) :
    Laid names (d.collide o name value existing).fields ∧
      Flattens o.flattenCollision [(name, value)] (besides names d.fields)
        (besides names (d.collide o name value existing).fields) n (n + 1) := by
  have hcolumn : named? name (besides names d.fields) = some existing := by
    rw [Field.named?_besides hn, hf]
  have hmem : existing ∈ besides names d.fields := List.mem_of_find?_eq_some hcolumn
  have hname : name ∈ (besides names d.fields).map Field.name := by
    rw [← Field.name_of_named? hcolumn]
    exact List.mem_map_of_mem hmem
  rw [collide, h.scalar existing hmem]
  cases hp : o.flattenCollision with
  | first =>
    refine ⟨h, ?_, by simp only [List.length_singleton]; omega⟩
    rw [Entries.extend_of_mem (by rwa [Field.keys_texts])]
  | last =>
    have hnew := h.change hn value
    have hlen : (Field.change name (Field.assigned value) (besides names d.fields)).length =
        (besides names d.fields).length := by
      rw [← List.length_map Field.name, Field.names_change (Field.name_assigned value),
        List.length_map]
    refine ⟨hnew.1, ?_⟩
    show Flattens .last _ _ (besides names (Field.change name (Field.assigned value) d.fields)) _ _
    rw [hnew.2]
    refine ⟨Field.texts_change_assigned h.scalar hname, ?_⟩
    simp only [hlen, List.length_singleton]
    omega
  | number =>
    obtain ⟨m, hm, hfree, hnone, -⟩ := freeName_spec name d.fields
    have hnew := h.column (f := .scalar (numberedName name m) d.size value) hnone rfl
    simp only [ha, if_true]
    rw [hfree, fields_addColumn hnone, hnew.2]
    exact ⟨hnew.1, _, rfl, .cons ⟨rfl, Or.inr ⟨m, hm, rfl⟩⟩ .nil⟩

/-- A leaf is put beside the fields that stand for elements. -/
theorem flattens_putFlattened (ha : ∀ path, o.projection.admits path = true)
    (h : Laid names d.fields) (hn : name ∉ names) (hattr : name ≠ attributesName)
    (value : Option String) :
    Laid names (OpenRow.putFlattened o name value d t).1.fields ∧
      Flattens o.flattenCollision [(name, value)] (besides names d.fields)
        (besides names (OpenRow.putFlattened o name value d t).1.fields) t.flattenCollisions
        (OpenRow.putFlattened o name value d t).2.flattenCollisions := by
  rw [OpenRow.putFlattened, if_neg hattr, ha]
  simp only [Bool.not_true, Bool.false_eq_true, if_false]
  cases hf : named? name d.fields with
  | none => exact flattens_addColumn h hf value _ _
  | some existing => exact flattens_collide ha h hn hf value _

/-- A flattened element without elements inside is a leaf, unless it has the reserved name. -/
theorem flattens_leaf (ha : ∀ path, o.projection.admits path = true) (h : Laid names d.fields)
    (hempty : Item.elements e.content = [])
    (hfree : (Entries.keys (leaves [.flattened e])).Disjoint names) :
    let q := OpenRow.putFlattened o e.name (cleaned (Item.textOf e.content)) d t
    Laid names q.1.fields ∧
      Flattens o.flattenCollision (leaves [.flattened e]) (besides names d.fields)
        (besides names q.1.fields) t.flattenCollisions q.2.flattenCollisions := by
  intro q
  by_cases hattr : e.name = attributesName
  · have hleaves : leaves [.flattened e] = [] := by simp [leaves, Visit.leaf?, hattr]
    have hq : q = (d, { t with reservedCollisions := t.reservedCollisions + 1 }) := if_pos hattr
    rw [hleaves, hq]
    exact ⟨h, .refl _ _ _⟩
  · have hleaves : leaves [.flattened e] = [(e.name, cleaned (Item.textOf e.content))] := by
      simp [leaves, Visit.leaf?, hempty, hattr]
    rw [hleaves] at hfree ⊢
    exact flattens_putFlattened ha h (hfree (List.mem_singleton_self e.name)) hattr _

end Draft

/-! ## All that is read -/

section Passes

variable {o : ReaderOptions} {place : Option Path} {vs : List Visit} {s s' : Draft × Tally}
  {names : List String}

/-- **Leaves are put beside the fields of the row one by one**, where none of them is named as such
a field. -/
theorem Passes.flattens (ha : ∀ path, o.projection.admits path = true) (h : Passes o place vs s s')
    (hl : Laid names s.1.fields)
    (hp : ∀ path name, place = some path → path.head? = some name → name ∈ names)
    (hfree : (Entries.keys (leaves vs)).Disjoint (names ++ tops vs)) :
    Laid (names ++ tops vs) s'.1.fields ∧
      Flattens o.flattenCollision (leaves vs) (besides names s.1.fields)
        (besides (names ++ tops vs) s'.1.fields) s.2.flattenCollisions
        s'.2.flattenCollisions := by
  induction h generalizing names with
  | nil =>
    rw [show tops [] = [] from rfl, List.append_nil]
    exact ⟨hl, .refl _ _ _⟩
  | @append place vs vs' s s₁ s₂ _ _ ih ih' =>
    rw [tops_append, leaves_append, Entries.keys, List.map_append, ← List.append_assoc,
      List.disjoint_append_left] at hfree
    have hp' := fun path name hpath hname =>
      List.mem_append_left (tops vs) (hp path name hpath hname)
    have h₁ := ih hl hp (List.disjoint_append_right.mp hfree.1).1
    have h₂ := ih' h₁.1 hp' hfree.2
    rw [tops_append, leaves_append, ← List.append_assoc]
    exact ⟨h₂.1, h₁.2.trans h₂.2⟩
  | skipped hc _ =>
    rw [show tops [] = [] from rfl, List.append_nil, hc]
    exact ⟨hl, .refl _ _ _⟩
  | @field above e d d' t vs s value hd _ ih =>
    -- the names that stand for elements once the field is there
    let names' := names ++ (Visit.top? (.field (above ++ [e.name]) e)).toList
    have hnew := Draft.laid_insert (e := e) hl (fun name => hp above name rfl) hd
    have hhead : ∀ name, (above ++ [e.name]).head? = some name → name ∈ names' := by
      intro name hname
      cases above with
      | nil =>
        obtain rfl := Option.some.inj hname
        exact List.mem_append_right _ List.mem_cons_self
      | cons n rest => exact List.mem_append_left _ (hp _ name rfl hname)
    rw [tops_cons, leaves_cons, ← List.append_assoc] at hfree ⊢
    have hrest := ih hnew.1 (fun path name hpath => by cases hpath; exact hhead name) hfree
    have hassign : Inside (names' ++ tops vs) s.1.fields
        (s.1.assign (above ++ [e.name]) value).fields :=
      Field.inside_changeAt (Field.name_assigned value)
        (fun name hname => List.mem_append_left _ (hhead name hname)) _
    refine ⟨hrest.1.inside hassign, ?_⟩
    simp only
    rw [hassign.besides_eq, ← hnew.2]
    exact hrest.2
  | @leaf place e d t hempty =>
    have hi := Draft.inside_opened (d := d) hp
    have hl' := hl.inside hi
    rw [show tops [.flattened e] = [] from rfl, List.append_nil] at hfree ⊢
    rw [← hi.besides_eq]
    exact Draft.flattens_leaf (d := (collecting o e.name e.attributes (d.opened place, t)).1)
      (t := (collecting o e.name e.attributes (d.opened place, t)).2) ha hl' hempty hfree
  | @group place e d t vs s hchildren _ ih =>
    have hi := Draft.inside_opened (d := d) hp
    rw [leaves_cons, tops_cons, Visit.leaf?_of_children hchildren] at hfree ⊢
    rw [← hi.besides_eq]
    exact ih (hl.inside hi) (fun _ _ hpath => by cases hpath) hfree

end Passes

/-! ## Fields of the row itself -/

namespace OpenRow

variable {o : ReaderOptions} {depth : Nat} {above : Path} {p : OpenRow × Tally} {name : String}

/-- Inside an element of the row there are no fields of the row itself. -/
theorem tops_visits_inside (h : above ≠ []) (items : List Item) :
    tops (visits o depth above items p) = [] := by
  induction items using Item.induction generalizing depth above p with
  | nil => rfl
  | text value rest ih =>
    rw [visits_text]
    exact ih h
  | element name attributes content rest ihContent ihRest =>
    have hcontent {q : OpenRow × Tally} :
        tops (visits o (depth + 1) (above ++ [name]) content q) = [] :=
      ihContent (by simp)
    rw [visits_element, tops_append, ihRest h, List.append_nil, visitsItem]
    split
    · rw [tops_cons, hcontent]
      rfl
    · split
      · rfl
      · rw [tops_cons, hcontent, Visit.top?_of_inside h]
        rfl

/-- The fields of the row itself are named as its children. -/
theorem exists_of_mem_tops (items : List Item) (h : name ∈ tops (visits o depth [] items p)) :
    o.isFlattened (depth + 1) = false ∧ ∃ child ∈ Item.elements items, child.name = name := by
  induction items using Item.induction generalizing p with
  | nil => cases h
  | text value rest ih =>
    rw [visits_text] at h
    exact ih h
  | element other attributes content rest _ ihRest =>
    have hcontent {q : OpenRow × Tally} :
        tops (visits o (depth + 1) ([] ++ [other]) content q) = [] :=
      tops_visits_inside (by simp) content
    rw [visits_element, tops_append, List.mem_append] at h
    rcases h with h | h
    · rw [visitsItem] at h
      split at h
      · rw [tops_cons, hcontent] at h
        cases h
      · next hflat =>
        split at h
        · cases h
        · rw [tops_cons, hcontent, List.append_nil] at h
          exact ⟨by simpa using hflat, _, List.mem_cons_self, (List.mem_singleton.mp h).symm⟩
    · obtain ⟨hflat, child, hmem, hname⟩ := ihRest h
      exact ⟨hflat, child, List.mem_cons_of_mem _ hmem, hname⟩

end OpenRow

/-! ## Rows -/

namespace Scan

variable {o : ReaderOptions} {s : Scan} {name closing : String} {content : List Item}
  {inner : List Event}

/-- **What flattened leaves make of a row**: by the policy for their names the first text of each
name is its column, or the last one is, and the others are counted, or each of them has a column,
all under names of their own. None of their names is that of a child that is not flattened. -/
theorem run_flattened (attributes : Entries String) (hs : s.IsOutside)
    (hd : s.openTags.length + 1 = o.dataLevel) (hn : o.levels.isRowName name = true)
    (hc : Event.closes closing name = true) (hin : Spells content inner)
    (hp : o.projection = .all)
    (hfree : o.isFlattened (o.dataLevel + 1) = false → ∀ child ∈ Item.elements content,
      child.name ∉ Entries.keys (leaves (Element.visits o ⟨name, attributes, content⟩))) :
    let vs := Element.visits o ⟨name, attributes, content⟩
    ∃ s' row, run o s (.start name attributes :: (inner ++ [.finish closing])) = .ok (s', [row]) ∧
      let columns := besides (tops vs) row.fields
      (∀ f ∈ columns, f.kind = .scalar) ∧ (row.fields.map Field.name).Nodup ∧
      match o.flattenCollision with
      | .first =>
        texts columns = Entries.firsts [] (leaves vs) ∧
          s'.builder.tally.flattenCollisions + (Entries.keys (leaves vs)).dedup.length =
            s.builder.tally.flattenCollisions + (leaves vs).length
      | .last =>
        texts columns = Entries.ofPairs (leaves vs) ∧
          (∀ tag, Entries.get? tag (texts columns) = Entries.get? tag (leaves vs).reverse) ∧
          s'.builder.tally.flattenCollisions + (Entries.keys (leaves vs)).dedup.length =
            s.builder.tally.flattenCollisions + (leaves vs).length
      | .number => List.Forall₂ IsColumnOf columns (leaves vs) := by
  intro vs
  let e : Element := ⟨name, attributes, content⟩
  have hadmits := Projection.admits_of_all hp
  have hdisjoint : (Entries.keys (leaves vs)).Disjoint ([] ++ tops vs) := by
    intro key hkey htop
    obtain ⟨hflat, child, hchild, rfl⟩ := OpenRow.exists_of_mem_tops content htop
    exact hfree hflat child hchild hkey
  have hempty : Laid [] (e.opened o).draft.fields := ⟨nofun, nofun, List.nodup_nil⟩
  obtain ⟨hlaid, hflattens⟩ := (e.passes_row hadmits s.builder.tally).flattens hadmits hempty
    (fun path name hpath hname => by cases hpath; cases hname) hdisjoint
  rw [List.nil_append] at hlaid hflattens
  refine ⟨_, _, run_row attributes hs hd hn hc hin, hlaid.scalar, hlaid.nodup, ?_⟩
  have hpolicy : Flattens o.flattenCollision (leaves vs) [] _ s.builder.tally.flattenCollisions
    (e.counted o s.builder.tally).flattenCollisions := hflattens
  cases ho : o.flattenCollision with
  | first => exact (ho ▸ hpolicy).first_of_nil
  | last => exact (ho ▸ hpolicy).last_of_nil
  | number =>
    obtain ⟨columns, heq, hcolumns⟩ := ho ▸ hpolicy
    exact (List.nil_append columns ▸ heq) ▸ hcolumns

/-- Two names that are alike but for a number, in two fields and behind a repeat. -/
theorem run_flattened_numbered :
    let o : ReaderOptions := { flattenLevel := some 3, flattenCollision := .number }
    let s : Scan := { openTags := ["t"] }
    let content : List Item :=
      [.element "p" [] [.element "a" [] [.text " 1"], .element "a_2" [] [.text " "]],
        .element "p" [] [.element "a" [] [.text "-"]],
        .element "q" [] [.element "g" [("k", "v")] [.element "a" [] [.text "2"]],
          .element "attributes" [] []]]
    let e : Element := ⟨"r", [], content⟩
    (leaves (e.visits o) = [("a", some "1"), ("a_2", none), ("a", some "2")] ∧
      tops (e.visits o) = ["p", "q"]) ∧
    ∃ s' row, run o s (.start "r" [] :: (Item.events content ++ [.finish ""])) = .ok (s', [row]) ∧
      let columns := besides ["p", "q"] row.fields
      (∀ f ∈ columns, f.kind = .scalar) ∧ (row.fields.map Field.name).Nodup ∧
      List.Forall₂ IsColumnOf columns [("a", some "1"), ("a_2", none), ("a", some "2")] := by
  intro o s content e
  have hvisits : leaves (e.visits o) = [("a", some "1"), ("a_2", none), ("a", some "2")] ∧
      tops (e.visits o) = ["p", "q"] := by
    decide +kernel
  obtain ⟨hleaves, htops⟩ := hvisits
  have hfree : o.isFlattened (o.dataLevel + 1) = false → ∀ child ∈ Item.elements content,
      child.name ∉ Entries.keys (leaves (e.visits o)) := by
    rw [hleaves]
    decide +kernel
  have hn : o.levels.isRowName "r" = true := rfl
  have hc : Event.closes "" "r" = true := rfl
  obtain ⟨s', row, hrun, hrow⟩ := run_flattened (o := o) (s := s) [] ⟨rfl, rfl⟩ rfl hn hc
    (spells_events content) rfl hfree
  refine ⟨⟨hleaves, htops⟩, s', row, hrun, ?_⟩
  rw [← hleaves, ← htops]
  exact hrow

end Scan

end Tabular
