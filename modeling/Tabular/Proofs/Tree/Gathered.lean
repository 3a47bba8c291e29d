import Tabular.Proofs.Tree.Offers
import Tabular.Proofs.Tree.Visits
import Tabular.Proofs.Value.Extended

/-!
# Attributes of a row of every column

Where a row has every column, the attributes of its element and of the elements inside it that are
not skipped are gathered in document order. The first of each key is kept, and the others are
counted.

* `Visit.pairs`: the attributes of an element inside a row, under the keys of the row;
* `Gathers`, **`Passes.gathers`**: what pairs do to a draft and the counters;
* `attributes_read_of_row`: a row for its own attributes takes none from inside;
* **`run_attributes`**: the attributes of a finished row, with the counter.
-/

namespace Tabular

/-! ## Pairs -/

/-- The attributes of an element, each under the label of its path and its own name. -/
def Visit.pairs : Visit → Entries String
  | .field path e => labelled path e.attributes
  | .flattened e => labelled [e.name] e.attributes

/-- Attributes as they are kept. -/
def Entries.kept (pairs : Entries String) : Entries (Option String) :=
  pairs.map fun e => (e.1, some e.2)

section Kept

open Entries (kept)

/-- What pairs do to a draft and the counters: the first of each new key is kept, and the others are
counted. -/
structure Gathers (pairs : Entries String) (s s' : Draft × Tally) : Prop where
  attributes : s'.1.attributes = Entries.extend s.1.attributes (kept pairs)
  count : s'.2.duplicateAttributes + s'.1.attributes.length =
    s.2.duplicateAttributes + s.1.attributes.length + pairs.length

namespace Gathers

variable {pairs later : Entries String} {s s₁ s₂ : Draft × Tally}

/-- A step that leaves the attributes alone. -/
theorem still (ha : s₁.1.attributes = s.1.attributes)
    (hd : s₁.2.duplicateAttributes = s.2.duplicateAttributes) : Gathers [] s s₁ :=
  ⟨ha.trans (Entries.extend_nil _).symm, by rw [ha, hd]; rfl⟩

theorem trans (h : Gathers pairs s s₁) (h' : Gathers later s₁ s₂) :
    Gathers (pairs ++ later) s s₂ := by
  have hkept : kept (pairs ++ later) = kept pairs ++ kept later := List.map_append
  refine ⟨by rw [h'.attributes, h.attributes, hkept, Entries.extend_append], ?_⟩
  have h₁ := h.count
  have h₂ := h'.count
  rw [List.length_append]
  omega

end Gathers

end Kept

/-! ## Steps of a draft -/

namespace Collected

variable {p : Projection} {label : String} {attributes : Entries String} {c : Collected}

theorem count_offer {key : String} (ha : p.admitsAttribute key = true) (value : String) :
    (c.offer p key value).duplicates + (c.offer p key value).kept.length =
      c.duplicates + c.kept.length + 1 := by
  rw [offer, ha]
  simp only [Bool.not_true, Bool.false_eq_true, if_false]
  split
  · simp only
    omega
  · rw [List.length_append, List.length_singleton, Nat.add_assoc]

/-- Every attribute that is asked for is kept or counted. -/
theorem count_offerAll_filter (hw : p.wantsAttributes = true) (label : String)
    (attributes : Entries String) (c : Collected) :
    (c.offerAll p label attributes).duplicates + (c.offerAll p label attributes).kept.length =
      c.duplicates + c.kept.length +
        (attributes.filter fun a => p.admitsAttribute (label ++ a.1)).length := by
  simp only [offerAll, hw, if_true]
  induction attributes generalizing c with
  | nil => rfl
  | cons a rest ih =>
    rw [List.foldl_cons, ih, List.filter_cons]
    cases ha : p.admitsAttribute (label ++ a.1) with
    | false =>
      rw [offer_of_not_admits ha]
      rfl
    | true =>
      rw [count_offer ha, if_pos rfl, List.length_cons]
      omega

/-- Where every attribute is asked for, each is kept or counted. -/
theorem count_offerAll (hw : p.wantsAttributes = true)
    (ha : ∀ key, p.admitsAttribute key = true) :
    (c.offerAll p label attributes).duplicates + (c.offerAll p label attributes).kept.length =
      c.duplicates + c.kept.length + attributes.length := by
  rw [count_offerAll_filter hw, List.filter_eq_self.mpr fun a _ => ha _]

/-- Of the attributes of a row element that are asked for, the first of each name are kept, and the
others are counted. -/
theorem ofRow_nil (p : Projection) (attributes : Entries String) (n : Nat) :
    let asked := attributes.filter fun a => p.admitsAttribute a.1
    (ofRow p attributes ⟨[], n⟩).kept = (Entries.firsts [] asked).kept ∧
      (ofRow p attributes ⟨[], n⟩).duplicates + (Entries.firsts [] asked).length =
        n + asked.length := by
  intro asked
  cases hw : p.wantsAttributes with
  | false =>
    have hnone : asked = [] := Projection.filter_admitsAttribute hw attributes
    simp [ofRow, offerAll, hw, hnone, Entries.firsts, Entries.kept]
  | true =>
    have hkept := kept_offerAll_filter hw "" attributes ⟨[], n⟩
    simp only [String.empty_append, List.nil_append] at hkept
    replace hkept := hkept.trans (Entries.firsts_map [] some asked)
    have hcount := count_offerAll_filter hw "" attributes ⟨[], n⟩
    simp only [String.empty_append, hkept, List.length_map, List.length_nil, Nat.add_zero] at hcount
    exact ⟨hkept, hcount⟩

end Collected

section Steps

variable {o : ReaderOptions} {place : Option Path} {vs : List Visit} {s s' : Draft × Tally}

/-- The attributes of an element inside the row are gathered. -/
theorem gathers_collecting (ha : ∀ path, o.projection.admits path = true)
    (hs : o.attributeScope = .all) (path : Path) (attributes : Entries String) (s : Draft × Tally) :
    Gathers (labelled path attributes) s (collecting o (OpenRow.label path) attributes s) := by
  have hkept : (labelled path attributes).kept =
      attributes.map fun a => (OpenRow.label path ++ "_" ++ a.1, some a.2) := by
    rw [Entries.kept, labelled, List.map_map]
    rfl
  have hcollecting : collecting o (OpenRow.label path) attributes s =
      let c := Collected.offerAll o.projection (OpenRow.label path ++ "_") attributes
        ⟨s.1.attributes, s.2.duplicateAttributes⟩
      ({ s.1 with attributes := c.kept }, { s.2 with duplicateAttributes := c.duplicates }) := by
    simp only [collecting, Collected.ofNested, hs]
  rw [hcollecting]
  refine ⟨?_, ?_⟩
  · rw [hkept]
    exact Collected.kept_offerAll_eq (ha _) (fun _ => ha _) _ attributes _
  · rw [labelled, List.length_map]
    exact Collected.count_offerAll (ha _) fun _ => ha _

theorem gathers_opened (place : Option Path) (d : Draft) (t : Tally) :
    Gathers [] (d, t) (d.opened place, t) := by
  cases place <;> exact .still rfl rfl

/-- A column of the row leaves the attributes alone. -/
theorem gathers_putFlattened (name text : String) (d : Draft) (t : Tally) :
    Gathers [] (d, t) (OpenRow.putFlattened o name (cleaned text) d t) := by
  have hattributes := OpenRow.attributes_closeFrame (o := o)
    { role := .flattened, path := [name], text } d t
  rw [OpenRow.closeFrame_of_flattened rfl] at hattributes
  refine .still hattributes ?_
  rw [OpenRow.putFlattened]
  split
  · rfl
  · split
    · rfl
    · split <;> rfl

/-- **The elements inside a row gather their attributes one by one.** -/
theorem Passes.gathers (ha : ∀ path, o.projection.admits path = true)
    (hs : o.attributeScope = .all) (h : Passes o place vs s s') : Gathers (vs.flatMap Visit.pairs) s s' := by
  induction h with
  | nil => exact .still rfl rfl
  | append _ _ ih ih' =>
    rw [List.flatMap_append]
    exact ih.trans ih'
  | skipped _ hd => exact .still rfl hd
  | @field above e d d' t vs s value hd _ ih =>
    have hinsert : Gathers [] (d, t) (d', t) := .still (OpenRow.attributes_insert hd) rfl
    have hcollect := gathers_collecting ha hs (above ++ [e.name]) e.attributes (d', t)
    have hassign : Gathers [] s (s.1.assign (above ++ [e.name]) value, s.2) := .still rfl rfl
    have hall := hinsert.trans (hcollect.trans (ih.trans hassign))
    rw [List.append_nil] at hall
    exact hall
  | @leaf place e d t _ =>
    have hcollect := gathers_collecting ha hs [e.name] e.attributes (d.opened place, t)
    rw [OpenRow.label_singleton] at hcollect
    exact (gathers_opened place d t).trans (hcollect.trans (gathers_putFlattened _ _ _ _))
  | @group place e d t vs s _ _ ih =>
    have hcollect := gathers_collecting ha hs [e.name] e.attributes (d.opened place, t)
    rw [OpenRow.label_singleton] at hcollect
    exact (gathers_opened place d t).trans (hcollect.trans ih)

end Steps

/-! ## Rows for their own attributes -/

namespace OpenRow

variable {o : ReaderOptions}

/-- A row for its own attributes takes none from inside. -/
theorem attributes_read_of_row (hs : o.attributeScope = .row) (depth : Nat) (items : List Item)
    (p : OpenRow × Tally) : (read o depth items p).1.draft.attributes = p.1.draft.attributes := by
  induction items using Item.induction generalizing depth p with
  | nil => rfl
  | text value rest ih =>
    rw [read_text, ih]
    unfold OpenRow.text
    split <;> rfl
  | element name attributes content rest ihContent ihRest =>
    obtain ⟨frame, q, hstart, -, -, hcases⟩ := attributes_startChild o
      (o.isFlattened (depth + 1)) name attributes p.1 p.2
    have hq : q.draft.attributes = p.1.draft.attributes := by
      rcases hcases with ⟨-, h⟩ | ⟨-, h⟩
      · exact h
      · rw [h, hs]
        rfl
    obtain ⟨t, hpair⟩ : ∃ t, p.1.startChild o (o.isFlattened (depth + 1)) name attributes p.2 =
        (push frame q, t) := ⟨_, Prod.ext hstart rfl⟩
    rw [read_element, ihRest, hpair, leave_read_push frame q t (depth + 1) content rfl]
    exact (attributes_closeFrame _ _ _).trans ((ihContent _ _).trans hq)

end OpenRow

/-! ## Finished rows -/

namespace Element

variable {o : ReaderOptions}

/-- The attributes of the row element itself: of those that are asked for, the first of each
name. -/
theorem attributes_opened (e : Element) :
    (e.opened o).draft.attributes =
      (Entries.firsts [] (e.attributes.filter fun a => o.projection.admitsAttribute a.1)).kept :=
  (Collected.ofRow_nil o.projection e.attributes 0).1

/-- A row starts with the attributes of its element. -/
theorem gathers_opened (ha : ∀ path, o.projection.admits path = true) (e : Element) (t : Tally) :
    Gathers e.attributes ({ tag := e.name }, t) ((e.opened o).draft, e.tallied o t) := by
  have hall : (e.attributes.filter fun a => o.projection.admitsAttribute a.1) = e.attributes :=
    List.filter_eq_self.mpr fun _ _ => ha _
  have hkept := e.attributes_opened (o := o)
  have hcount := (Collected.ofRow_nil o.projection e.attributes t.duplicateAttributes).2
  rw [hall] at hkept hcount
  refine ⟨hkept.trans (Entries.firsts_map [] some _).symm, ?_⟩
  rw [hkept, Entries.kept, List.length_map]
  exact hcount

end Element

/-- What is gathered from nothing: the first of each key, and the others are counted. -/
theorem Gathers.of_nil {pairs : Entries String} {s s' : Draft × Tally} (h : Gathers pairs s s')
    (hs : s.1.attributes = []) :
    s'.1.attributes = (Entries.firsts [] pairs).kept ∧
      s'.2.duplicateAttributes + (Entries.keys pairs).dedup.length =
        s.2.duplicateAttributes + pairs.length := by
  have hfirsts : s'.1.attributes = (Entries.firsts [] pairs).kept := by
    rw [h.attributes, hs]
    exact Entries.firsts_map [] some pairs
  have hcount := h.count
  rw [hfirsts, hs, Entries.kept, List.length_map, Entries.length_firsts] at hcount
  exact ⟨hfirsts, hcount⟩

namespace Scan

variable {o : ReaderOptions} {s : Scan} {name closing : String} {content : List Item}
  {inner : List Event}

/-- **The attributes of a row**: where it has every column and takes the attributes of the elements
inside it, the first of each key, in document order; where it takes its own only, those that are
asked for. -/
theorem run_attributes (attributes : Entries String) (hs : s.IsOutside)
    (hd : s.openTags.length + 1 = o.dataLevel) (hn : o.levels.isRowName name = true)
    (hc : Event.closes closing name = true) (hin : Spells content inner) :
    ∃ s' row, run o s (.start name attributes :: (inner ++ [.finish closing])) = .ok (s', [row]) ∧
      (o.projection = .all → o.attributeScope = .all →
        let pairs := attributes ++
          (Element.visits o ⟨name, attributes, content⟩).flatMap Visit.pairs
        row.attributes = (Entries.firsts [] pairs).kept ∧
          s'.builder.tally.duplicateAttributes + (Entries.keys pairs).dedup.length =
            s.builder.tally.duplicateAttributes + pairs.length) ∧
      (o.attributeScope = .row → o.projection.wantsAttributes = true →
        let own : Entries String := attributes.filter fun a => o.projection.admitsAttribute a.1
        row.attributes = (Entries.firsts [] own).kept ∧
          ((Entries.keys attributes).Nodup → row.attributes = own.kept)) := by
  let e : Element := ⟨name, attributes, content⟩
  refine ⟨_, _, run_row attributes hs hd hn hc hin, fun hp hscope => ?_, fun hscope _ => ?_⟩
  · have hadmits := Projection.admits_of_all hp
    have hinside := (e.passes_row hadmits s.builder.tally).gathers hadmits hscope
    exact ((e.gathers_opened hadmits s.builder.tally).trans hinside).of_nil rfl
  · have hown : (e.toRow o s.builder.sealedRows).attributes = _ :=
      (OpenRow.attributes_read_of_row hscope o.dataLevel content (e.opened o, {})).trans
        e.attributes_opened
    refine ⟨hown, fun hnodup => hown.trans (congrArg Entries.kept ?_)⟩
    refine Entries.firsts_of_nodup (hnodup.sublist ?_) fun key _ => List.not_mem_nil
    exact List.filter_sublist.map Prod.fst

/-- Attributes of one key from the row element, a field and flattened elements, and a repeat; and a
row of which one attribute is asked for. -/
theorem run_attributes_labelled :
    let o : ReaderOptions := { flattenLevel := some 3, attributeScope := .all }
    let o' : ReaderOptions := { projection := .columns [[attributesName, "id"]] }
    let s : Scan := { openTags := ["t"] }
    let content : List Item :=
      [.element "p" [("k", "x")] [], .element "p" [("l", "y")] [.text "-"],
        .element "q" [] [.element "g" [("k", "v")] [.element "h" [("k", "w")] []],
          .element "g" [("k", "u")] []]]
    let events := Event.start "r" [("id", "1"), ("p_k", "z")] ::
      (Item.events content ++ [.finish "r"])
    (∃ s' row, run o s events = .ok (s', [row]) ∧
      row.attributes =
        [("id", some "1"), ("p_k", some "z"), ("g_k", some "v"), ("h_k", some "w")] ∧
      s'.builder.tally.duplicateAttributes = 2) ∧
    ∃ s' row, run o' s events = .ok (s', [row]) ∧ row.attributes = [("id", some "1")] := by
  intro o o' s content events
  have hn : o.levels.isRowName "r" = true := rfl
  have hn' : o'.levels.isRowName "r" = true := rfl
  have hc : Event.closes "r" "r" = true := rfl
  obtain ⟨s₁, row₁, hrun₁, hall, -⟩ := run_attributes (o := o) (s := s) [("id", "1"), ("p_k", "z")]
    ⟨rfl, rfl⟩ rfl hn hc (spells_events content)
  obtain ⟨s₂, row₂, hrun₂, -, hown⟩ := run_attributes (o := o') (s := s) [("id", "1"), ("p_k", "z")]
    ⟨rfl, rfl⟩ rfl hn' hc (spells_events content)
  have hpairs : [("id", "1"), ("p_k", "z")] ++
      (Element.visits o ⟨"r", [("id", "1"), ("p_k", "z")], content⟩).flatMap Visit.pairs =
        [("id", "1"), ("p_k", "z"), ("p_k", "x"), ("g_k", "v"), ("h_k", "w"), ("g_k", "u")] := by
    decide +kernel
  obtain ⟨hattributes, hcount⟩ := hall rfl rfl
  rw [hpairs] at hattributes hcount
  refine ⟨⟨s₁, row₁, hrun₁, hattributes.trans (by decide +kernel), ?_⟩, s₂, row₂, hrun₂, ?_⟩
  · exact Nat.add_right_cancel (hcount : _ + 4 = 2 + 4)
  · exact ((hown rfl (by decide +kernel)).2 (by decide +kernel)).trans (by decide +kernel)

end Scan

end Tabular
