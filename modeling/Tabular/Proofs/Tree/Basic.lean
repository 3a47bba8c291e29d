import Tabular.Reader.Scan

/-!
# Element trees

A nested stream of events is the walk over a list of items, each a text or an element that holds
items itself.

* `Item`, `Item.induction`: items, and the induction over a list of them;
* `Spells`: the streams that walk over some items;
* **`nested_iff_spells`**: the nested streams are those that walk over items;
* `Element`, `elements`, `elementsAt`: the elements among items, and those at some depth below;
* `textOf`: the text that stands directly among items.
-/

namespace Tabular

/-- A text, or an element with what it holds. -/
inductive Item where
  | text (value : String)
  | element (name : String) (attributes : Entries String) (content : List Item)
  deriving Repr, Inhabited

/-- An element with what it holds. -/
structure Element where
  name : String
  attributes : Entries String
  content : List Item
  deriving Repr, Inhabited

namespace Item

theorem induction {motive : List Item → Prop} (nil : motive [])
    (text : ∀ value rest, motive rest → motive (.text value :: rest))
    (element : ∀ name attributes content rest, motive content → motive rest →
      motive (.element name attributes content :: rest)) (items : List Item) : motive items := by
  refine Item.rec_1 (motive_1 := fun item => ∀ rest, motive rest → motive (item :: rest))
    (motive_2 := motive) ?_ ?_ nil ?_ items
  · intro value rest h
    exact text value rest h
  · intro name attributes content hc rest hr
    exact element name attributes content rest hc hr
  · intro item rest hi hr
    exact hi rest hr

/-- The elements among some items. -/
def elements : List Item → List Element
  | [] => []
  | .text _ :: rest => elements rest
  | .element name attributes content :: rest => ⟨name, attributes, content⟩ :: elements rest

/-- The elements that stand `depth` levels below some items, in document order. -/
def elementsAt : Nat → List Item → List Element
  | 0, items => elements items
  | depth + 1, items => (elements items).flatMap fun e => elementsAt depth e.content

/-- The text that stands directly among some items. -/
def textOf : List Item → String
  | [] => ""
  | .text value :: rest => value ++ textOf rest
  | .element .. :: rest => textOf rest

end Item

/-! ## Streams that walk over items -/

/-- The stream walks over the items: an element starts, its content follows, and an end that
closes it. -/
inductive Spells : List Item → List Event → Prop where
  | nil : Spells [] []
  | text {value : String} {items : List Item} {events : List Event} :
      Spells items events → Spells (.text value :: items) (.text value :: events)
  | element {name closing : String} {attributes : Entries String} {content items : List Item}
      {inner events : List Event} :
      Event.closes closing name = true → Spells content inner → Spells items events →
      Spells (.element name attributes content :: items)
        (.start name attributes :: (inner ++ .finish closing :: events))

namespace Event

/-- A walk over items leaves the open names as they are. -/
theorem Nested.of_spells {items : List Item} {events : List Event} (h : Spells items events) :
    ∀ {tags : List String} {rest : List Event}, Nested tags rest → Nested tags (events ++ rest) := by
  induction h with
  | nil => exact id
  | text _ ih => exact fun hr => .text (ih hr)
  | element hc _ _ ihInner ihRest =>
    intro tags rest hr
    simpa using Nested.start (ihInner (.finish hc (ihRest hr)))

/-- A nested stream walks over items up to the end of the innermost open name. -/
theorem Nested.split : ∀ (n : Nat) {events : List Event}, events.length ≤ n →
    ∀ {tags : List String}, Nested tags events →
      (tags = [] ∧ ∃ items, Spells items events) ∨
      ∃ opened outer items inner closing after, tags = opened :: outer ∧
        events = inner ++ .finish closing :: after ∧ Spells items inner ∧
        closes closing opened = true ∧ Nested outer after := by
  intro n
  induction n with
  | zero =>
    intro events hn tags h
    cases h with
    | nil => exact Or.inl ⟨rfl, [], .nil⟩
    | start h => simp at hn
    | text h => simp at hn
    | finish hc h => simp at hn
  | succ n ih =>
    intro events hn tags h
    cases h with
    | nil => exact Or.inl ⟨rfl, [], .nil⟩
    | @text _ value rest h =>
      rcases ih (by simpa using hn) h with ⟨ht, items, hs⟩ |
        ⟨opened, outer, items, inner, closing, after, ht, he, hs, hc, ha⟩
      · exact Or.inl ⟨ht, _, .text hs⟩
      · exact Or.inr ⟨opened, outer, _, .text value :: inner, closing, after, ht,
          by rw [he]; rfl, .text hs, hc, ha⟩
    | @finish outer opened closing after hc h =>
      exact Or.inr ⟨opened, outer, [], [], closing, after, rfl, rfl, .nil, hc, h⟩
    | @start _ name attributes rest h =>
      -- the end that closes the new name, then the rest of the stream from there
      rcases ih (by simpa using hn) h with ⟨ht, _⟩ |
        ⟨_, _, content, inner, closing, after, ht, he, hs, hc, ha⟩
      · simp at ht
      · obtain ⟨rfl, rfl⟩ := List.cons.inj ht
        have hlen : after.length ≤ n := by
          rw [he] at hn
          simp at hn
          omega
        rcases ih hlen ha with ⟨ht', items, hs'⟩ |
          ⟨opened, outer, items, inner', closing', after', ht', he', hs', hc', ha'⟩
        · exact Or.inl ⟨ht', _, by rw [he]; exact .element hc hs hs'⟩
        · exact Or.inr ⟨opened, outer, _, .start name attributes ::
            (inner ++ .finish closing :: inner'), closing', after', ht', by rw [he, he']; simp,
            .element hc hs hs', hc', ha'⟩

end Event

/-- **The nested streams are the walks over items.** -/
theorem nested_iff_spells {events : List Event} :
    Event.Nested [] events ↔ ∃ items, Spells items events := by
  constructor
  · intro h
    rcases Event.Nested.split events.length (Nat.le_refl _) h with ⟨_, hs⟩ | ⟨_, _, _, _, _, _, ht, _⟩
    · exact hs
    · simp at ht
  · rintro ⟨items, hs⟩
    simpa using Event.Nested.of_spells hs .nil

end Tabular
