import Tabular.Proofs.Reader.Sealed
import Tabular.Proofs.Reader.Windows
import Tabular.Proofs.Row.Hole
import Tabular.Proofs.Tree.Scan

/-!
# Rows as functions of the tree

Without flattening, and where every column is asked for, a row is a recursive function of its
element.

* `Item.entriesOf`: the elements among some items as entries: a map for an element with elements
  inside, and otherwise its text;
* `Element.reference`: the record of a row element;
* `read_field`: reading the items inside a field;
* `record_toRow`: the record of a row is the reference of its element;
* **`rest_reference`**: the rows of a nested stream.
-/

namespace Tabular

open Entries (firsts keys)

/-! ## The reference -/

namespace Item

mutual

/-- An element as an entry: an element with elements inside is a map of the first of each name, and
any other one is its text. A text is no entry. -/
def entryOf : Item → List (String × Value)
  | .text _ => []
  | .element name _ content =>
    [(name, if (elements content).isEmpty then .ofText? (cleaned (textOf content))
      else .map (firsts [] (entriesOf content)))]

/-- The elements among some items as entries. -/
def entriesOf : List Item → List (String × Value)
  | [] => []
  | item :: rest => entryOf item ++ entriesOf rest

end

end Item

namespace Element

/-- The attributes of an element as entries, the first of each key. -/
def ownAttributes (e : Element) : List (String × Value) :=
  firsts [] (e.attributes.map fun a => (a.1, .text a.2))

/-- The record of a row element: its attributes, and the first element of each name that does not
go under the name of the attributes. -/
def reference (e : Element) : List (String × Value) :=
  (attributesName, .map e.ownAttributes) :: firsts [attributesName] (Item.entriesOf e.content)

end Element

/-! ## Reading a field -/

/-- What the items inside a field make of it: a map of the first elements of each new name, or the
field as it was. -/
structure Grown (reserved : List String) (f : Field) (items : List Item) (f' : Field) : Prop where
  name_eq : f'.name = f.name
  same : Item.elements items = [] → f' = f
  isMap : Item.elements items ≠ [] → f'.kind = .map
  entries : Field.entriesOf f'.fields = Field.entriesOf f.fields ++
    firsts (keys (Field.entriesOf f.fields) ++ reserved) (Item.entriesOf items)

namespace Grown

variable {reserved : List String} {f f' c : Field} {items rest content : List Item} {name : String}
  {attributes : Entries String}

theorem nil : Grown reserved f [] f :=
  ⟨rfl, fun _ => rfl, fun h => absurd rfl h, (List.append_nil _).symm⟩

theorem text (h : Grown reserved f items f') (value : String) :
    Grown reserved f (.text value :: items) f' :=
  ⟨h.name_eq, h.same, h.isMap, h.entries⟩

/-- An element that is left out. -/
theorem skip (h : Grown reserved f rest f') (hf : f.kind = .map)
    (hn : name ∈ keys (Field.entriesOf f.fields) ++ reserved) :
    Grown reserved f (.element name attributes content :: rest) f' := by
  refine ⟨h.name_eq, fun he => absurd he (by simp [Item.elements]), fun _ => ?_, ?_⟩
  · by_cases he : Item.elements rest = []
    · rw [h.same he, hf]
    · exact h.isMap he
  · rw [h.entries, Item.entriesOf, Item.entryOf, List.singleton_append,
      Entries.firsts_cons_of_mem hn]

/-- An element that becomes a field. -/
theorem push (h : Grown reserved (f.pushed c) rest f') (hc : c.name = name)
    (hn : name ∉ keys (Field.entriesOf f.fields) ++ reserved)
    (hv : Item.entryOf (.element name attributes content) = [(name, c.toValue)]) :
    Grown reserved f (.element name attributes content :: rest) f' := by
  refine ⟨?_, fun he => absurd he (by simp [Item.elements]), fun _ => ?_, ?_⟩
  · rw [h.name_eq, Field.name_pushed]
  · by_cases he : Item.elements rest = []
    · rw [h.same he, Field.kind_pushed]
    · exact h.isMap he
  · rw [h.entries, Item.entriesOf, hv, List.singleton_append, Entries.firsts_cons_of_not_mem hn,
      Field.fields_pushed, Field.entriesOf_append, List.append_assoc]
    have hsingle : Field.entriesOf [c] = [(name, c.toValue)] := by
      rw [← hc]
      rfl
    rw [hsingle, List.singleton_append]
    refine congrArg (fun es => Field.entriesOf f.fields ++ (name, c.toValue) :: es)
      (Entries.firsts_congr (fun key => ?_) _)
    simp only [keys, List.map_append, List.map_cons, List.map_nil, List.mem_append,
      List.mem_cons, List.not_mem_nil, or_false, or_assoc]
    exact or_left_comm

/-- The field of an element, with its text where it has no element inside. -/
theorem toValue {h : Nat} (hg : Grown [] (.scalar name h none) content c) :
    (c.assigned (cleaned (Item.textOf content))).toValue =
      if (Item.elements content).isEmpty then .ofText? (cleaned (Item.textOf content))
      else .map (firsts [] (Item.entriesOf content)) := by
  by_cases he : Item.elements content = []
  · rw [hg.same he, he]
    rfl
  · have hk := hg.isMap he
    have hentries := hg.entries
    cases c with
    | scalar n h v => cases hk
    | map n h fs =>
      rw [if_neg (by simpa using he)]
      exact congrArg Value.map hentries

end Grown

namespace OpenRow

/-- The names that no element may have at a path. -/
def reserved (path : Path) : List String :=
  if path = [] then [attributesName] else []

/-- A row with a field in a hole innermost. -/
structure Filling (path : Path) (plug : Field → List Field) (f : Field) (r : OpenRow) : Prop where
  role : r.innermost.role = .built
  path_eq : r.innermost.path = path
  fields : r.draft.fields = plug f
  isMap : path = [] → f.kind = .map

theorem Filling.isTaken {path : Path} {name : String} {plug : Field → List Field} {f : Field}
    {r : OpenRow} (hr : r.Filling path plug f) (h : Hole path name plug) (hn : f.name = name)
    (child : String) :
    r.draft.isTaken r.innermost.path child = decide (child ∈ keys (Field.entriesOf f.fields)) := by
  rw [hr.path_eq, h.isTaken hn hr.fields, Field.keys_entriesOf, Bool.eq_iff_iff, decide_eq_true_iff,
    Option.isSome_iff_ne_none, ne_eq, Field.named?_eq_none, Decidable.not_not]

section Structural

variable {o : ReaderOptions} {path : Path} {name : String} {plug : Field → List Field} {f : Field}
  {r : OpenRow} {child : String}

/-- A child under a name that is taken or reserved is skipped. -/
theorem startField_taken (hp : o.projection = .all) (h : Hole path name plug) (hn : f.name = name)
    (hr : r.Filling path plug f)
    (hc : child ∈ keys (Field.entriesOf f.fields) ++ reserved path) (attributes : Entries String)
    (t : Tally) :
    ∃ t', r.startField o child attributes t =
      (r.push { role := .skipped, path := path ++ [child] }, t') := by
  unfold startField
  rw [hr.path_eq]
  by_cases ha : path ++ [child] = attributesPath
  · exact ⟨_, if_pos ha⟩
  · have hmem : child ∈ keys (Field.entriesOf f.fields) := by
      rcases List.mem_append.mp hc with hk | hk
      · exact hk
      · rw [append_eq_attributesPath] at ha
        unfold reserved at hk
        split at hk
        · next hpath => exact absurd ⟨hpath, List.mem_singleton.mp hk⟩ ha
        · cases hk
    have ht := hr.isTaken h hn child
    rw [decide_eq_true hmem, hr.path_eq] at ht
    simp only [ha, if_false, hp, Projection.admits, Bool.not_true, Bool.false_eq_true, Draft.insert,
      ht, if_true]
    exact ⟨_, rfl⟩

/-- A child under a new name is a new text. -/
theorem startField_new (hp : o.projection = .all) (hs : o.attributeScope = .row)
    (h : Hole path name plug) (hn : f.name = name) (hr : r.Filling path plug f)
    (hc : child ∉ keys (Field.entriesOf f.fields) ++ reserved path) (attributes : Entries String)
    (t : Tally) :
    ∃ d, r.startField o child attributes t =
        (({ r with draft := d } : OpenRow).push { role := .built, path := path ++ [child] }, t) ∧
      d.tag = r.draft.tag ∧ d.attributes = r.draft.attributes ∧
      d.fields = plug (f.pushed (.scalar child r.draft.size none)) := by
  rw [List.mem_append, not_or] at hc
  have ha : path ++ [child] ≠ attributesPath := by
    rw [Ne, append_eq_attributesPath]
    rintro ⟨hpath, hchild⟩
    exact hc.2 (by rw [reserved, if_pos hpath, hchild]; exact List.mem_singleton_self _)
  have ht := hr.isTaken h hn child
  rw [decide_eq_false hc.1, hr.path_eq] at ht
  unfold startField
  rw [hr.path_eq]
  simp only [ha, if_false, hp, Projection.admits, Bool.not_true, Bool.false_eq_true, Draft.insert,
    ht, collect_of_row hs]
  refine ⟨_, rfl, rfl, rfl, ?_⟩
  show Field.addAt path (.scalar child r.draft.size none) r.draft.fields = _
  rw [hr.fields, h.add hn]

/-- What reading some items leaves of a row with a field in a hole. -/
structure FieldRead (path : Path) (plug : Field → List Field) (items : List Item) (f : Field)
    (r r' : OpenRow) : Prop extends r'.Filling path plug f where
  tag : r'.draft.tag = r.draft.tag
  attributes : r'.draft.attributes = r.draft.attributes
  text : r'.innermost.text = r.innermost.text ++ Item.textOf items

/-- An element has no text for the field around it. -/
theorem FieldRead.element {items : List Item} {r₁ r' : OpenRow}
    (h : FieldRead path plug items f r₁ r')
    (ht : r₁.draft.tag = r.draft.tag) (ha : r₁.draft.attributes = r.draft.attributes)
    (hx : r₁.innermost.text = r.innermost.text) (attributes : Entries String)
    (content : List Item) :
    FieldRead path plug (.element child attributes content :: items) f r r' :=
  ⟨h.toFilling, h.tag.trans ht, h.attributes.trans ha, h.text.trans (by rw [hx]; rfl)⟩

/-- A child that was read as a field gets its text when it ends. -/
theorem FieldRead.leave {content : List Item} {c : Field} {frame : Frame} {q : OpenRow}
    {p : OpenRow × Tally}
    (hc : FieldRead (path ++ [child]) (fun c => plug (f.pushed c)) content c (q.push frame) p.1)
    (h : Hole path name plug) (hn : f.name = name) (hfresh : Field.named? child f.fields = none)
    (hname : c.name = child) (htext : frame.text = "")
    (hleft : (p.1.leave o p.2).1 = ⟨(closeFrame o p.1.innermost p.1.draft p.2).1,
      { q.innermost with hasChildren := true }, q.outer⟩) :
    ∃ d, (p.1.leave o p.2).1 = ⟨d, { q.innermost with hasChildren := true }, q.outer⟩ ∧
      d.tag = q.draft.tag ∧ d.attributes = q.draft.attributes ∧
      d.fields = plug (f.pushed (c.assigned (cleaned (Item.textOf content)))) := by
  have hx : p.1.innermost.text = Item.textOf content := by
    rw [hc.text]
    show frame.text ++ _ = _
    rw [htext, String.empty_append]
  rw [closeFrame_built hc.role, hc.path_eq, hx] at hleft
  refine ⟨_, hleft, hc.tag, hc.attributes, ?_⟩
  show Field.changeAt (path ++ [child]) (Field.assigned _) p.1.draft.fields = _
  rw [hc.fields, h.change_child hn hfresh hname]

theorem Filling.kind_of_taken (hr : r.Filling path plug f)
    (hc : child ∈ keys (Field.entriesOf f.fields) ++ reserved path) : f.kind = .map := by
  by_cases hpath : path = []
  · exact hr.isMap hpath
  · rw [reserved, if_neg hpath, List.append_nil] at hc
    cases f with
    | scalar n h v => simp [Field.fields, Field.entriesOf, keys] at hc
    | map n h fs => rfl

/-- **Inside a field the items are read into it**: the first element of each new name becomes a
field of its own. -/
theorem read_field (hf : o.flattenLevel = none) (hp : o.projection = .all)
    (hs : o.attributeScope = .row) (items : List Item) :
    ∀ {path : Path} {name : String} {plug : Field → List Field}, Hole path name plug →
      ∀ (depth : Nat) {p : OpenRow × Tally} {f : Field}, f.name = name →
        p.1.Filling path plug f →
        ∃ f', Grown (reserved path) f items f' ∧
          FieldRead path plug items f' p.1 (read o depth items p).1 := by
  have hflat : ∀ n, o.isFlattened n = false := fun n => by rw [ReaderOptions.isFlattened, hf]
  induction items using Item.induction with
  | nil =>
    intro path name plug _ depth p f _ hr
    exact ⟨f, .nil, hr, rfl, rfl, (String.append_empty).symm⟩
  | text value rest ih =>
    intro path name plug h depth p f hn hr
    have ht : p.1.text value =
        { p.1 with innermost := { p.1.innermost with text := p.1.innermost.text ++ value } } := by
      rw [OpenRow.text]
      simp only [hr.role]
    obtain ⟨f', hg, hread⟩ := ih h depth (p := (p.1.text value, p.2)) (f := f) hn
      (by rw [ht]; exact ⟨hr.role, hr.path_eq, hr.fields, hr.isMap⟩)
    refine ⟨f', hg.text value, hread.toFilling, ?_, ?_, ?_⟩
    · rw [read_text, hread.tag, ht]
    · rw [read_text, hread.attributes, ht]
    · rw [read_text, hread.text, ht, Item.textOf, String.append_assoc]
  | element child attributes content rest ihContent ihRest =>
    intro path name plug h depth p f hn hr
    rw [read_element, hflat, startChild_of_built hr.role]
    by_cases hc : child ∈ keys (Field.entriesOf f.fields) ++ reserved path
    · obtain ⟨t, hstart⟩ := startField_taken hp h hn hr hc attributes p.2
      rw [hstart]
      have hleft := leave_read_skipped (o := o) rfl p.1 t (depth + 1) content
        (f := { role := .skipped, path := path ++ [child] }) rfl
      obtain ⟨f', hg, hread⟩ := ihRest h depth (p := leave o _ _) (f := f) hn
        (by rw [hleft]; exact ⟨hr.role, hr.path_eq, hr.fields, hr.isMap⟩)
      refine ⟨f', hg.skip (hr.kind_of_taken hc) hc, hread.element ?_ ?_ ?_ attributes content⟩
      · rw [hleft]
      · rw [hleft]
      · rw [hleft]
    · obtain ⟨d, hstart, hdtag, hdattr, hdfields⟩ :=
        startField_new hp hs h hn hr hc attributes p.2
      rw [hstart]
      rw [List.mem_append, not_or] at hc
      have hfresh : Field.named? child f.fields = none := by
        rw [Field.named?_eq_none, ← Field.keys_entriesOf]
        exact hc.1
      have hpath : path ++ [child] ≠ [] := by simp
      -- the child, filled on its own and then given its text
      obtain ⟨c, hgc, hc'⟩ := ihContent (h.child hn hfresh) (depth + 1)
        (p := (({ p.1 with draft := d } : OpenRow).push
          { role := .built, path := path ++ [child] }, p.2))
        (f := .scalar child p.1.draft.size none) rfl ⟨rfl, rfl, hdfields, fun h => absurd h hpath⟩
      have hleft := leave_read_push (o := o) { role := .built, path := path ++ [child] }
        { p.1 with draft := d } p.2 (depth + 1) content rfl
      have hname : c.name = child := hgc.name_eq
      obtain ⟨d', hd', htag, hattr, hfields⟩ := hc'.leave h hn hfresh hname rfl hleft
      obtain ⟨f', hg, hread⟩ := ihRest h depth (p := leave o _ _)
        (f := f.pushed (c.assigned (cleaned (Item.textOf content)))) (by rw [Field.name_pushed, hn])
        (by rw [hd']; exact ⟨hr.role, hr.path_eq, hfields, fun _ => Field.kind_pushed _ _⟩)
      rw [reserved, if_neg hpath] at hgc
      refine ⟨f', hg.push ?_ ?_ ?_, hread.element ?_ ?_ ?_ attributes content⟩
      · rw [Field.name_assigned, hname]
      · rw [List.mem_append, not_or]
        exact hc
      · rw [Item.entryOf, hgc.toValue]
      · rw [hd', htag, hdtag]
      · rw [hd', hattr, hdattr]
      · rw [hd']

end Structural

end OpenRow

/-! ## Rows -/

namespace Element

variable {o : ReaderOptions}

theorem attributeEntries_ofRow (hp : o.projection = .all) (e : Element) :
    attributeEntries (e.opened o).draft.attributes = e.ownAttributes := by
  have hkept : (e.opened o).draft.attributes =
      firsts [] (e.attributes.map fun a => (a.1, some a.2)) := by
    refine (Collected.kept_offerAll_eq (c := ⟨[], 0⟩) ?_ ?_ "" e.attributes).trans ?_
    · rw [hp]
      rfl
    · intro key
      rw [hp]
      rfl
    · simp only [String.empty_append]
      rfl
  rw [hkept, attributeEntries, ← Entries.firsts_map, List.map_map]
  rfl

/-- **The record of a row is the reference of its element.** -/
theorem record_toRow (hf : o.flattenLevel = none) (hp : o.projection = .all)
    (hs : o.attributeScope = .row) (ordinal : Int) (e : Element) :
    (e.toRow o ordinal).record = e.reference ∧ (e.toRow o ordinal).tag = e.name := by
  obtain ⟨f, hg, hr⟩ := OpenRow.read_field hf hp hs e.content (Hole.root e.name) o.dataLevel
    (p := (e.opened o, {})) (f := .map e.name 0 []) rfl ⟨rfl, rfl, rfl, fun _ => rfl⟩
  have hfields : Field.entriesOf (e.toRow o ordinal).fields =
      firsts [attributesName] (Item.entriesOf e.content) :=
    (congrArg Field.entriesOf hr.fields).trans hg.entries
  have hattr : attributeEntries (e.toRow o ordinal).attributes = e.ownAttributes :=
    (congrArg attributeEntries hr.attributes).trans (attributeEntries_ofRow hp e)
  refine ⟨?_, hr.tag⟩
  rw [Row.record, hfields, hattr, Entries.putAll_of_disjoint (Entries.keys_firsts_nodup _ _)]
  · rfl
  · intro key hk
    exact Entries.not_mem_of_mem_keys_firsts hk

end Element

/-- **Streaming is reading the tree**: the rows that the events of a nested stream finish are the
references of its row elements, in order, and the batches are windows over them. -/
theorem rest_reference {o : ReaderOptions} (hv : o.Valid) (hf : o.flattenLevel = none)
    (hl : o.limit = none) (hp : o.projection = .all) (hs : o.attributeScope = .row)
    {events : List Event} (h : Event.Nested [] events) :
    ∃ items rows, Spells items events ∧ Scan.sealed o {} events = rows ∧
      (Reader.start o ⟨events, .complete⟩).rest.result =
        (windows o 0 (RowSchema.start .all) rows, none) ∧
      rows.map Row.record = (o.rowElements items).map Element.reference ∧
      rows.map Row.tag = (o.rowElements items).map Element.name ∧
      rows.map Row.ordinal = (List.range (o.rowElements items).length).map Int.ofNat := by
  obtain ⟨items, hi⟩ := nested_iff_spells.mp h
  obtain ⟨s, hr, ht⟩ := Scan.run_spells hv.levels_valid.one_le hi
  have hdone := Reader.finished_rest hv.one_le_batchSize (by rw [hl]; simp) ⟨events, .complete⟩
  rw [passage_of_run hl hr, ht] at hdone
  refine ⟨items, Element.toRows o 0 (o.rowElements items), hi, Scan.sealed_eq_of_run hr, ?_, ?_, ?_,
    ?_⟩
  · have hw : (Reader.start o ⟨events, .complete⟩).window = RowSchema.start .all := by
      rw [← hp]
      exact Reader.window_start o _
    rw [← hw]
    exact Prod.ext hdone.batches hdone.failure
  · exact Element.map_toRows (fun _ e => (e.record_toRow hf hp hs _).1) 0 _
  · exact Element.map_toRows (fun _ e => (e.record_toRow hf hp hs _).2) 0 _
  · rw [Element.ordinal_toRows, List.range_eq_range']

/-- A row with a text in two pieces around an element, and a repeat. -/
theorem rest_reference_repeat :
    let events : List Event := [.start "r" [], .start "row" [("id", "1")], .start "a" [],
      .text " x", .start "b" [], .finish "", .text "y", .finish "a", .start "a" [], .finish "a",
      .finish "row", .finish "r"]
    ∃ items rows, Spells items events ∧ Scan.sealed {} {} events = rows ∧
      (Reader.start {} ⟨events, .complete⟩).rest.result =
        (windows {} 0 (RowSchema.start .all) rows, none) ∧
      rows.map Row.record = (ReaderOptions.rowElements {} items).map Element.reference ∧
      rows.map Row.tag = (ReaderOptions.rowElements {} items).map Element.name ∧
      rows.map Row.ordinal =
        (List.range (ReaderOptions.rowElements {} items).length).map Int.ofNat := by
  refine rest_reference ⟨⟨by decide, by simp [ReaderOptions.levels]⟩, by decide⟩ rfl rfl rfl rfl ?_
  refine .start (.start (.start (.text (.start (.finish ?_ (.text (.finish ?_ (.start (.finish ?_
    (.finish ?_ (.finish ?_ .nil)))))))))))
  all_goals decide

end Tabular
