import Tabular.Proofs.Row.Reserved
import Tabular.Proofs.Tree.Repeat

/-!
# Attributes inside a row

Where rows keep the attributes of every element inside them, the elements of a row offer theirs under
their labels, and the first of each key is kept. What a row skips offers nothing.

* `labelled`, `OpenRow.offered`: what the elements offer that are read and not skipped;
* **`attributes_read`**: the row keeps the first of each key;
* `Item.offers`, **`offered_eq_offers`**: what all elements offer, and rows in which nothing is
  skipped;
* `offered_repeat`: a row of every column skips a repeat with its attributes;
* `get?_attributes_toRow`, `unreserved_toRow`: the finished row of an element.
-/

namespace Tabular

/-- The attributes of an element at a path of the row. -/
def labelled (path : Path) (attributes : Entries String) : Entries String :=
  attributes.map fun a => (OpenRow.label path ++ "_" ++ a.1, a.2)

namespace OpenRow

mutual

/-- What an item offers to the row in which it is read. -/
def offeredItem (o : ReaderOptions) (depth : Nat) : Item → OpenRow × Tally → Entries String
  | .text _, _ => []
  | .element name attributes content, p =>
    let q := p.1.startChild o (o.isFlattened (depth + 1)) name attributes p.2
    if q.1.innermost.role = .skipped then []
    else labelled q.1.innermost.path attributes ++ offered o (depth + 1) content q

/-- What some items offer to the row in which they are read. -/
def offered (o : ReaderOptions) (depth : Nat) : List Item → OpenRow × Tally → Entries String
  | [], _ => []
  | item :: rest, p => offeredItem o depth item p ++ offered o depth rest (readItem o depth item p)

end

variable {o : ReaderOptions} (depth : Nat) (p : OpenRow × Tally) (rest : List Item)

theorem offered_text (value : String) :
    offered o depth (.text value :: rest) p = offered o depth rest (p.1.text value, p.2) := by
  rw [offered, offeredItem, List.nil_append, readItem]

theorem offered_element (name : String) (attributes : Entries String) (content : List Item) :
    offered o depth (.element name attributes content :: rest) p =
      let q := p.1.startChild o (o.isFlattened (depth + 1)) name attributes p.2
      (if q.1.innermost.role = .skipped then []
        else labelled q.1.innermost.path attributes ++ offered o (depth + 1) content q) ++
        offered o depth rest (readItem o depth (.element name attributes content) p) := by
  rw [offered, offeredItem]

/-! ## The first of each key -/

variable {r : OpenRow} {t : Tally} {name : String} {attributes : Entries String}

theorem label_singleton (name : String) : label [name] = name := by
  simp [label]

theorem attributes_madeMap (r : OpenRow) : r.madeMap.draft.attributes = r.draft.attributes := by
  unfold madeMap
  split <;> rfl

theorem attributes_insert {d d' : Draft} {path : Path} (h : d.insert path name = some d') :
    d'.attributes = d.attributes := by
  unfold Draft.insert at h
  split at h
  · cases h
  · cases h
    rfl

/-- An element that is not skipped has its attributes collected under its label. -/
theorem attributes_startChild (o : ReaderOptions) (flattened : Bool) (name : String)
    (attributes : Entries String) (r : OpenRow) (t : Tally) :
    ∃ frame q, (r.startChild o flattened name attributes t).1 = push frame q ∧
      q.innermost = r.innermost ∧ q.outer = r.outer ∧
      (frame.role = .skipped ∧ q.draft.attributes = r.draft.attributes ∨
        frame.role ≠ .skipped ∧ q.draft.attributes = (Collected.ofNested o.attributeScope
          o.projection (label frame.path) attributes ⟨r.draft.attributes, 0⟩).kept) := by
  have hflat : ∃ frame q, (r.startFlattened o name attributes t).1 = push frame q ∧
      q.innermost = r.innermost ∧ q.outer = r.outer ∧
      (frame.role = .skipped ∧ q.draft.attributes = r.draft.attributes ∨
        frame.role ≠ .skipped ∧ q.draft.attributes = (Collected.ofNested o.attributeScope
          o.projection (label frame.path) attributes ⟨r.draft.attributes, 0⟩).kept) := by
    refine ⟨_, _, startFlattened_fst, rfl, rfl, Or.inr ⟨by simp, ?_⟩⟩
    rw [label_singleton, ← attributes_madeMap r]
    rfl
  cases hr : r.innermost.role with
  | skipped =>
    rw [startChild_of_skipped hr]
    exact ⟨_, _, rfl, rfl, rfl, Or.inl ⟨rfl, rfl⟩⟩
  | flattened =>
    rw [startChild_of_flattened hr]
    exact hflat
  | pruned =>
    cases flattened with
    | true =>
      rw [startChild_flattened (by simp [hr])]
      exact hflat
    | false => exact ⟨_, _, startPruned_fst hr, rfl, rfl, Or.inr ⟨by simp, rfl⟩⟩
  | built =>
    cases flattened with
    | true =>
      rw [startChild_flattened (by simp [hr])]
      exact hflat
    | false =>
      rw [startChild_of_built hr]
      by_cases hp : r.innermost.path ++ [name] = attributesPath
      · exact ⟨_, _, startField_reserved hp, rfl, rfl, Or.inl ⟨rfl, rfl⟩⟩
      · cases hk : o.projection.admits (r.innermost.path ++ [name]) with
        | false => exact ⟨_, _, startField_pruned hp hk, rfl, rfl, Or.inr ⟨by simp, rfl⟩⟩
        | true =>
          cases hi : r.draft.insert r.innermost.path name with
          | none => exact ⟨_, _, startField_skipped hp hk hi, rfl, rfl, Or.inl ⟨rfl, rfl⟩⟩
          | some d =>
            refine ⟨_, _, startField_built hp hk hi, rfl, rfl, Or.inr ⟨by simp, ?_⟩⟩
            rw [← attributes_insert hi]
            rfl

theorem attributes_closeFrame (frame : Frame) (d : Draft) (t : Tally) :
    (closeFrame o frame d t).1.attributes = d.attributes := by
  have hadd : ∀ (d : Draft) key value, (d.addColumn key value).attributes = d.attributes := by
    intro d key value
    unfold Draft.addColumn
    split
    · next d' hi =>
      have hd : d'.attributes = d.attributes := attributes_insert hi
      exact hd
    · rfl
  cases hr : frame.role with
  | built => simp only [closeFrame, hr, Draft.assign]
  | flattened =>
    rw [closeFrame_flattened hr]
    split
    · rfl
    · unfold Draft.put
      split
      · rfl
      · split
        · exact hadd d _ _
        · unfold Draft.collide
          split
          · rfl
          · rfl
          · rfl
          · dsimp only
            split
            · exact hadd d _ _
            · rfl
  | pruned => simp only [closeFrame, hr]
  | skipped => simp only [closeFrame, hr]

/-- A skipped element offers nothing, and any other one has its attributes offered. -/
theorem get?_startChild (hs : o.attributeScope = .all) (hw : o.projection.wantsAttributes = true)
    (ha : ∀ key, o.projection.admitsAttribute key = true) {frame : Frame} {q : OpenRow}
    (h : q.draft.attributes = (Collected.ofNested o.attributeScope o.projection (label frame.path)
      attributes ⟨r.draft.attributes, 0⟩).kept) (key : String) :
    Entries.get? key q.draft.attributes = (Entries.get? key r.draft.attributes).or
      ((Entries.get? key (labelled frame.path attributes)).map some) := by
  have hlabelled : attributes.map (fun a => (label frame.path ++ "_" ++ a.1, some a.2)) =
      (labelled frame.path attributes).map fun a => (a.1, some a.2) := by
    rw [labelled, List.map_map]
    rfl
  rw [h, hs]
  show Entries.get? key (Collected.offerAll _ _ _ _).kept = _
  rw [Collected.kept_offerAll_eq hw ha, hlabelled, Entries.get?_append, Entries.get?_firsts,
    Entries.get?_map]
  cases hk : Entries.get? key r.draft.attributes with
  | some v => rfl
  | none =>
    rw [if_neg]
    rw [← Entries.has_iff, Entries.has, hk]
    simp

/-- **A row keeps the first attribute of each key** that its elements offer. -/
theorem attributes_read (hs : o.attributeScope = .all) (hw : o.projection.wantsAttributes = true)
    (ha : ∀ key, o.projection.admitsAttribute key = true) (items : List Item) (key : String) :
    Entries.get? key (read o depth items p).1.draft.attributes =
      (Entries.get? key p.1.draft.attributes).or
        ((Entries.get? key (offered o depth items p)).map some) := by
  induction items using Item.induction generalizing depth p with
  | nil => exact Option.or_none.symm
  | text value rest ih =>
    have htext : (p.1.text value).draft.attributes = p.1.draft.attributes := by
      unfold OpenRow.text
      split <;> rfl
    rw [read_text, offered_text, ih, htext]
  | element name attributes content rest ihContent ihRest =>
    rw [read_cons, ihRest, offered_element, Entries.get?_append]
    suffices hitem : Entries.get? key (read o depth [.element name attributes content]
        p).1.draft.attributes = (Entries.get? key p.1.draft.attributes).or
          ((Entries.get? key (offeredItem o depth (.element name attributes content) p)).map some) by
      rw [hitem, Option.or_assoc, Option.map_or]
      rfl
    obtain ⟨frame, q, hstart, hi, _, hcases⟩ := attributes_startChild o
      (o.isFlattened (depth + 1)) name attributes p.1 p.2
    obtain ⟨t, hpair⟩ : ∃ t, p.1.startChild o (o.isFlattened (depth + 1)) name attributes p.2 =
        (push frame q, t) := ⟨_, Prod.ext hstart rfl⟩
    have hread : (read o depth [.element name attributes content] p).1.draft.attributes =
        (read o (depth + 1) content (push frame q, t)).1.draft.attributes := by
      rw [read_element, read_nil, hpair, leave_read_push frame q t (depth + 1) content rfl]
      exact attributes_closeFrame _ _ _
    rw [hread, offeredItem, hpair]
    show _ = Option.or _ (Option.map some (Entries.get? key (if frame.role = .skipped then [] else
      labelled frame.path attributes ++ offered o (depth + 1) content (push frame q, t))))
    rcases hcases with ⟨hrole, hq⟩ | ⟨hrole, hq⟩
    · obtain ⟨hd, _⟩ := read_of_skipped (o := o) (depth + 1) content (p := (push frame q, t)) hrole
      rw [hd, if_pos hrole]
      show Entries.get? key q.draft.attributes = _
      rw [hq]
      exact Option.or_none.symm
    · rw [ihContent, if_neg hrole, Entries.get?_append]
      show (Entries.get? key q.draft.attributes).or _ = _
      rw [get?_startChild hs hw ha hq, Option.or_assoc, Option.map_or]

end OpenRow

/-! ## Rows that skip no element -/

namespace Item

mutual

/-- The attributes of an item below a path and of all elements inside it, but for an element named
as the attributes of the row. -/
def offersIn (o : ReaderOptions) (depth : Nat) (path : Path) : Item → Entries String
  | .text _ => []
  | .element name attributes content =>
    if o.isFlattened (depth + 1) then
      labelled [name] attributes ++ offers o (depth + 1) [name] content
    else if path ++ [name] = attributesPath then []
    else labelled (path ++ [name]) attributes ++ offers o (depth + 1) (path ++ [name]) content

/-- The attributes of some items below a path and of all elements inside them. -/
def offers (o : ReaderOptions) (depth : Nat) (path : Path) : List Item → Entries String
  | [] => []
  | item :: rest => offersIn o depth path item ++ offers o depth path rest

end

/-- What elements offer does not depend on the projection. -/
theorem offers_projected (o : ReaderOptions) (p : Projection) (depth : Nat) (path : Path)
    (items : List Item) : offers (o.projected p) depth path items = offers o depth path items := by
  have hflat : ∀ n, (o.projected p).isFlattened n = o.isFlattened n := fun _ => rfl
  induction items using Item.induction generalizing depth path with
  | nil => rfl
  | text value rest ih => rw [offers, offers, offersIn, offersIn, ih]
  | element name attributes content rest ihContent ihRest =>
    rw [offers, offers, offersIn, offersIn, ihRest, ihContent, ihContent, hflat]

end Item

/-- An open element at a depth in which no child is skipped as a repeat. -/
inductive Frame.HandsOn (o : ReaderOptions) (depth : Nat) (f : Frame) : Prop where
  /-- The children are flattened. -/
  | flat : f.role ≠ .skipped → o.isFlattened (depth + 1) = true → HandsOn o depth f
  /-- The children are outside the projection, too. -/
  | pruned : f.role = .pruned → f.path ≠ [] → HandsOn o depth f
  /-- No child of the row element is asked for. -/
  | row : f.role = .built → f.path = [] →
      (∀ name, name ≠ attributesName → o.projection.admits [name] = false) → HandsOn o depth f

namespace OpenRow

variable {o : ReaderOptions} {depth : Nat} {r : OpenRow} {name : String}
  {attributes : Entries String}

theorem handsOn_congr {f f' : Frame} (h : f.HandsOn o depth) (hr : f'.role = f.role)
    (hp : f'.path = f.path) : f'.HandsOn o depth := by
  cases h with
  | flat hs hflat => exact .flat (by rw [hr]; exact hs) hflat
  | pruned h hne => exact .pruned (hr.trans h) (by rw [hp]; exact hne)
  | row h hnil hk => exact .row (hr.trans h) (hp.trans hnil) hk

/-- A child of such an element is one itself, unless it is named as the attributes of the row. -/
theorem startChild_handsOn (h : r.innermost.HandsOn o depth) (name : String)
    (attributes : Entries String) (t : Tally) :
    ∃ frame q, (r.startChild o (o.isFlattened (depth + 1)) name attributes t).1 = push frame q ∧
      q.innermost = r.innermost ∧
      (o.isFlattened (depth + 1) = true ∧ frame.role ≠ .skipped ∧ frame.path = [name] ∧
          frame.HandsOn o (depth + 1) ∨
        o.isFlattened (depth + 1) = false ∧ r.innermost.path ++ [name] = attributesPath ∧
          frame.role = .skipped ∨
        o.isFlattened (depth + 1) = false ∧ r.innermost.path ++ [name] ≠ attributesPath ∧
          frame.role ≠ .skipped ∧ frame.path = r.innermost.path ++ [name] ∧
          frame.HandsOn o (depth + 1)) := by
  have hs : r.innermost.role ≠ .skipped := by
    cases h with
    | flat hs _ => exact hs
    | pruned hr _ => simp [hr]
    | row hr _ _ => simp [hr]
  cases hflat : o.isFlattened (depth + 1) with
  | true =>
    rw [startChild_flattened hs, startFlattened_fst]
    exact ⟨_, _, rfl, rfl, Or.inl ⟨rfl, by simp, rfl, .flat (by simp) (isFlattened_succ hflat)⟩⟩
  | false =>
    have hne : r.innermost.path ++ [name] ≠ [] := by simp
    cases h with
    | flat _ hf =>
      rw [hflat] at hf
      cases hf
    | pruned hr hp =>
      have hattr : r.innermost.path ++ [name] ≠ attributesPath := by
        rw [Ne, append_eq_attributesPath]
        exact fun h => hp h.1
      exact ⟨_, _, startPruned_fst hr, rfl, Or.inr (Or.inr ⟨rfl, hattr, by simp, rfl,
        .pruned rfl hne⟩)⟩
    | row hr hp hk =>
      rw [startChild_of_built hr]
      by_cases hattr : r.innermost.path ++ [name] = attributesPath
      · exact ⟨_, _, startField_reserved hattr, rfl, Or.inr (Or.inl ⟨rfl, hattr, rfl⟩)⟩
      · have hname : name ≠ attributesName := by
          rw [append_eq_attributesPath] at hattr
          exact fun hn => hattr ⟨hp, hn⟩
        have hadmits : o.projection.admits (r.innermost.path ++ [name]) = false := by
          rw [hp]
          exact hk name hname
        exact ⟨_, _, startField_pruned hattr hadmits, rfl, Or.inr (Or.inr ⟨rfl, hattr, by simp, rfl,
          .pruned rfl hne⟩)⟩

/-- **Where no child is skipped as a repeat, every element offers its attributes.** -/
theorem offered_eq_offers (items : List Item) {p : OpenRow × Tally}
    (h : p.1.innermost.HandsOn o depth) :
    offered o depth items p = Item.offers o depth p.1.innermost.path items := by
  induction items using Item.induction generalizing depth p with
  | nil => rfl
  | text value rest ih =>
    have hframe : (p.1.text value).innermost.role = p.1.innermost.role ∧
        (p.1.text value).innermost.path = p.1.innermost.path := by
      unfold OpenRow.text
      split <;> exact ⟨rfl, rfl⟩
    rw [offered_text, ih (p := (p.1.text value, p.2)) (handsOn_congr h hframe.1 hframe.2),
      Item.offers, Item.offersIn, List.nil_append]
    exact congrArg (fun path => Item.offers o depth path rest) hframe.2
  | element name attributes content rest ihContent ihRest =>
    obtain ⟨frame, q, hstart, hi, hcases⟩ := startChild_handsOn h name attributes p.2
    obtain ⟨t, hpair⟩ : ∃ t, p.1.startChild o (o.isFlattened (depth + 1)) name attributes p.2 =
        (push frame q, t) := ⟨_, Prod.ext hstart rfl⟩
    have hleft : (readItem o depth (.element name attributes content) p).1.innermost =
        { p.1.innermost with hasChildren := true } := by
      rw [readItem, hpair, ← hi]
      exact congrArg OpenRow.innermost (leave_read_push frame q t (depth + 1) content rfl)
    have hrest := ihRest (p := readItem o depth (.element name attributes content) p)
      (handsOn_congr h (by rw [hleft]) (by rw [hleft]))
    rw [offered, hrest, hleft, Item.offers]
    refine congrArg (· ++ Item.offers o depth p.1.innermost.path rest) ?_
    rw [offeredItem, hpair, Item.offersIn]
    show (if frame.role = .skipped then [] else
      labelled frame.path attributes ++ offered o (depth + 1) content (push frame q, t)) = _
    have hcontent : frame.HandsOn o (depth + 1) →
        offered o (depth + 1) content (push frame q, t) =
          Item.offers o (depth + 1) frame.path content :=
      fun hf => ihContent (p := (push frame q, t)) hf
    rcases hcases with ⟨hflat, hrole, hpath, hf⟩ | ⟨hflat, hattr, hrole⟩ |
      ⟨hflat, hattr, hrole, hpath, hf⟩
    · rw [if_neg hrole, if_pos hflat, hcontent hf, hpath]
    · rw [if_pos hrole, if_neg (by simp [hflat]), if_pos hattr]
    · rw [if_neg hrole, if_neg (by simp [hflat]), if_neg hattr, hcontent hf, hpath]

/-- **A row skips a repeat of an element with its attributes.** -/
theorem offered_repeat {p : OpenRow × Tally} (hflat : o.isFlattened (depth + 1) = false)
    (hr : p.1.innermost.role = .built) (hp : p.1.innermost.path = []) (hn : name ≠ attributesName)
    (hk : o.projection.admits [name] = true) (hfree : Field.named? name p.1.draft.fields = none)
    (attributes : Entries String) (content : List Item) :
    offered o depth [.element name [] [], .element name attributes content] p = [] := by
  obtain ⟨d, hfields, hread⟩ := read_built hflat hr hp hn hk hfree
  have hfirst : offeredItem o depth (.element name [] []) p = [] := by
    rw [offeredItem]
    split <;> rfl
  have hmade : (readItem o depth (.element name [] []) p).1 =
      ⟨d, { p.1.innermost with hasChildren := true }, p.1.outer⟩ := hread
  rw [offered, hfirst, List.nil_append]
  generalize readItem o depth (.element name [] []) p = p₁ at hmade ⊢
  have hattr : p₁.1.innermost.path ++ [name] ≠ attributesPath := by
    rw [Ne, append_eq_attributesPath]
    exact fun h => hn h.2
  have hpath : p₁.1.innermost.path = [] := by
    rw [hmade]
    exact hp
  have htaken : p₁.1.draft.isTaken p₁.1.innermost.path name = true := by
    rw [hpath, hmade, Draft.isTaken, Field.under, hfields, Field.named?_append hfree rfl]
    rfl
  have hskip : (p₁.1.startChild o (o.isFlattened (depth + 1)) name attributes
      p₁.2).1.innermost.role = .skipped := by
    rw [hflat, startChild_of_built (by rw [hmade]; exact hr), startField_skipped hattr
      (by rw [hpath]; exact hk) (Draft.insert_of_taken htaken)]
    rfl
  rw [offered, offeredItem]
  simp only [hskip, if_true]
  rfl

/-- No element that is read gives a field the reserved name. -/
theorem unreserved_read (depth : Nat) (items : List Item) {p : OpenRow × Tally}
    (h : p.1.draft.Unreserved) : (read o depth items p).1.draft.Unreserved := by
  induction items using Item.induction generalizing depth p with
  | nil => exact h
  | text value rest ih =>
    have htext : (p.1.text value).draft.Unreserved := by
      unfold OpenRow.text
      split <;> exact h
    exact ih depth (p := (p.1.text value, p.2)) htext
  | element name attributes content rest ihContent ihRest =>
    obtain ⟨frame, q, t, hpair, _, _⟩ := startChild_cases o (o.isFlattened (depth + 1)) name
      attributes p.1 p.2
    have hstart := unreserved_startChild (o := o) h (o.isFlattened (depth + 1)) name attributes p.2
    rw [hpair] at hstart
    rw [read_element, hpair]
    refine ihRest depth ?_
    rw [leave_read_push frame q t (depth + 1) content rfl]
    exact unreserved_closeFrame (ihContent (depth + 1) (p := (push frame q, t)) hstart) _ _

end OpenRow

/-! ## Finished rows -/

namespace Element

variable {o : ReaderOptions}

/-- What the elements inside a row offer to it. -/
def offered (o : ReaderOptions) (e : Element) : Entries String :=
  OpenRow.offered o o.dataLevel e.content (e.opened o, {})

/-- **The attributes of a row** are the first ones of its element and of those inside it. -/
theorem get?_attributes_toRow (hs : o.attributeScope = .all)
    (hw : o.projection.wantsAttributes = true)
    (ha : ∀ key, o.projection.admitsAttribute key = true) (ordinal : Int) (e : Element)
    (key : String) :
    Entries.get? key (e.toRow o ordinal).attributes =
      (Entries.get? key (e.attributes ++ e.offered o)).map some := by
  have hown : Entries.get? key (e.opened o).draft.attributes =
      (Entries.get? key e.attributes).map some := by
    have hkept := Collected.kept_offerAll_eq hw ha "" e.attributes ⟨[], 0⟩
    simp only [String.empty_append, List.nil_append] at hkept
    show Entries.get? key (Collected.offerAll _ _ _ _).kept = _
    rw [hkept, Entries.get?_firsts, if_neg (by exact List.not_mem_nil), Entries.get?_map]
  have hread := OpenRow.attributes_read o.dataLevel (e.opened o, {}) hs hw ha e.content key
  rw [hown] at hread
  rw [Entries.get?_append, Option.map_or]
  exact hread

theorem unreserved_toRow (o : ReaderOptions) (ordinal : Int) (e : Element) :
    attributesName ∉ (e.toRow o ordinal).fields.map Field.name :=
  OpenRow.unreserved_read o.dataLevel e.content (p := (e.opened o, {})) List.not_mem_nil

end Element

end Tabular
