import Mathlib.Data.List.TakeWhile
import Tabular.Xml.Document

/-!
# Names in tokens

A document writes its names without braces, so that a name with its namespace in braces in front
of it tells what the name was.

* `BraceFree`: no brace closes inside a name;
* **`localName_qualified`**: a name behind its namespace is still told;
* `Token.BraceFree`, `Token.IsLast`: the names of a tag, and the tokens that end a document;
* **`braceFree_of_mem_tokensOf`**, **`tokensOf_ends`**: the tokens of any text.
-/

namespace Tabular.Xml

/-! ## Names behind namespaces -/

/-- No brace closes inside the name. -/
def BraceFree (name : String) : Prop :=
  '\x7d' ∉ name.toList

theorem takeWhile_reverse_of_braceFree {name : String} (h : BraceFree name) (before : List Char) :
    (name.toList.reverse ++ before).takeWhile (· ≠ '\x7d') =
      name.toList.reverse ++ before.takeWhile (· ≠ '\x7d') := by
  refine List.takeWhile_append_of_pos fun c hc => decide_eq_true ?_
  rintro rfl
  exact h (List.mem_reverse.mp hc)

theorem localName_of_braceFree {name : String} (h : BraceFree name) : localName name = name := by
  have htake := takeWhile_reverse_of_braceFree h []
  rw [List.append_nil, List.takeWhile_nil, List.append_nil] at htake
  rw [localName, htake, List.reverse_reverse, String.ofList_toList]

/-- **Behind its namespace a name is still told.** -/
theorem localName_qualified (uri : String) {name : String} (h : BraceFree name) :
    localName (qualified uri name) = name := by
  unfold qualified
  split
  · exact localName_of_braceFree h
  · have htake := takeWhile_reverse_of_braceFree h ("\x7b" ++ uri ++ "\x7d").toList.reverse
    rw [← List.reverse_append, ← String.toList_append] at htake
    have hstop : ("\x7b" ++ uri ++ "\x7d").toList.reverse.takeWhile (· ≠ '\x7d') = [] := by
      rw [String.toList_append, List.reverse_append]
      rfl
    rw [localName, htake, hstop, List.append_nil, List.reverse_reverse, String.ofList_toList]

/-- What stands behind the colon of a name is a part of it. -/
theorem braceFree_of_splitName {written before after : String} (h : BraceFree written)
    (hsplit : splitName? written = some (before, after)) : BraceFree after := by
  unfold splitName? at hsplit
  dsimp only at hsplit
  split at hsplit
  · next colon rest hrest =>
    split at hsplit
    · cases hsplit
    · cases hsplit
      intro hmem
      rw [String.toList_ofList] at hmem
      have hsuffix : colon :: rest <:+ written.toList := hrest ▸ List.dropWhile_suffix _
      exact h (hsuffix.subset (List.mem_cons_of_mem _ hmem))
  · cases hsplit

theorem braceFree_resolve {written : String} (h : BraceFree written) (scope : Scope) :
    BraceFree (resolve scope written).name := by
  unfold resolve
  split
  · next before after hsplit =>
    split
    · exact braceFree_of_splitName h hsplit
    · exact h
  · exact h

/-! ## The names that are read -/

/-- What a reader in two steps gives is given by both of them. -/
theorem exists_of_bind {ε α β : Type} {x : Except ε α} {f : α → Except ε β} {result : β}
    (h : (x >>= f) = .ok result) : ∃ value, x = .ok value ∧ f value = .ok result := by
  cases x with
  | error error => cases h
  | ok value => exact ⟨value, rfl, h⟩

theorem exists_of_map {ε α β : Type} {x : Except ε α} {f : α → β} {result : β}
    (h : x.map f = .ok result) : ∃ value, x = .ok value ∧ f value = result := by
  cases x with
  | error error => cases h
  | ok value => exact ⟨value, rfl, Except.ok.inj h⟩

variable {es : Entities} {steps : Nat} {c next : Cursor}

/-- A name is made of letters of names, and no brace is one. -/
theorem braceFree_of_name {name : String} (h : c.name = .ok (name, next)) : BraceFree name := by
  unfold Cursor.name at h
  split at h
  · split at h
    · cases h
      intro hmem
      rw [String.toList_ofList] at hmem
      have hletter : isNameLetter '\x7d' = true := List.mem_takeWhile_imp hmem
      exact absurd hletter (by decide)
    · cases h
  · cases h

theorem braceFree_of_oneAttribute {given : String × String}
    (h : oneAttribute es steps c = .ok (given, next)) : BraceFree given.1 := by
  obtain ⟨⟨name, c₁⟩, hname, h⟩ := exists_of_bind h
  obtain ⟨c₂, -, h⟩ := exists_of_bind h
  dsimp only at h
  split at h
  · split at h
    · obtain ⟨⟨value, c₃⟩, -, h⟩ := exists_of_bind h
      cases h
      exact braceFree_of_name hname
    · cases h
  · cases h

theorem braceFree_of_attributesOf {attributes : List (String × String)} {isClosed : Bool}
    (h : attributesOf es steps c = .ok (attributes, isClosed, next)) :
    ∀ x ∈ attributes, BraceFree x.1 := by
  induction steps generalizing c attributes with
  | zero => cases h
  | succ steps ih =>
    unfold attributesOf at h
    dsimp only at h
    split at h
    · cases h
      nofun
    · cases h
      nofun
    · split at h
      · cases h
      · obtain ⟨⟨given, c₁⟩, hgiven, h⟩ := exists_of_bind h
        obtain ⟨⟨more, isClosed', c₂⟩, hmore, h⟩ := exists_of_bind h
        cases h
        exact List.forall_mem_cons.mpr ⟨braceFree_of_oneAttribute hgiven, ih hmore⟩

/-! ## Tokens -/

namespace Token

/-- No brace closes inside a name of the tag. -/
def BraceFree : Token → Prop
  | .start tag _ _ => Xml.BraceFree tag.name ∧ ∀ x ∈ tag.attributes, Xml.BraceFree x.1
  | _ => True

/-- A token that nothing follows. -/
def IsLast : Token → Prop
  | .fault _ | .done _ => True
  | _ => False

end Token

variable {token : Token} {token? : Option Token}

theorem braceFree_of_startTag {first : Nat} (h : startTag es steps first c = .ok (token, next)) :
    token.BraceFree := by
  obtain ⟨⟨name, c₁⟩, hname, h⟩ := exists_of_bind h
  obtain ⟨⟨attributes, isClosed, c₂⟩, hattributes, h⟩ := exists_of_bind h
  dsimp only at h
  split at h
  · cases h
    exact ⟨braceFree_of_name hname, braceFree_of_attributesOf hattributes⟩
  · cases h

theorem braceFree_of_endTag {first : Nat} (h : endTag first c = .ok (token, next)) :
    token.BraceFree := by
  obtain ⟨⟨name, c₁⟩, -, h⟩ := exists_of_bind h
  obtain ⟨c₂, -, h⟩ := exists_of_bind h
  cases h
  trivial

theorem braceFree_of_markup (h : markup es steps c = .ok (token?, next)) :
    ∀ token ∈ token?, token.BraceFree := by
  unfold markup at h
  split at h
  · obtain ⟨_, -, h⟩ := exists_of_map h
    cases h
    nofun
  · obtain ⟨_, -, h⟩ := exists_of_map h
    cases h
    rintro _ ⟨⟩
    trivial
  · cases h
  · obtain ⟨_, -, h⟩ := exists_of_map h
    cases h
    nofun
  · obtain ⟨_, htag, h⟩ := exists_of_map h
    cases h
    rintro _ ⟨⟩
    exact braceFree_of_endTag htag
  · obtain ⟨_, htag, h⟩ := exists_of_map h
    cases h
    rintro _ ⟨⟩
    exact braceFree_of_startTag htag

theorem braceFree_of_nextToken (h : nextToken es steps c = .ok (token?, next)) :
    ∀ token ∈ token?, token.BraceFree := by
  unfold nextToken at h
  split at h
  · exact braceFree_of_markup h
  · unfold contentReference at h
    split at h
    · cases h
    · cases h
      rintro _ ⟨⟩
      trivial
    · split at h
      · cases h
        rintro _ ⟨⟩
        trivial
      · cases h
  · unfold characters at h
    dsimp only at h
    split at h
    · cases h
    · cases h
      rintro _ ⟨⟩
      trivial

theorem braceFree_of_mem_tokens (h : token ∈ tokens es steps c) : token.BraceFree := by
  induction steps generalizing c with
  | zero =>
    rw [List.mem_singleton.mp h]
    trivial
  | succ steps ih =>
    unfold tokens at h
    split at h
    · rw [List.mem_singleton.mp h]
      trivial
    · split at h
      · rw [List.mem_singleton.mp h]
        trivial
      · next hnext =>
        rcases List.mem_append.mp h with h | h
        · exact braceFree_of_nextToken hnext _ (Option.mem_toList.mp h)
        · exact ih h

/-- Whatever stands before it, a last token comes. -/
theorem tokens_ends (es : Entities) (steps : Nat) (c : Cursor) :
    ∃ before last, tokens es steps c = before ++ [last] ∧ last.IsLast := by
  induction steps generalizing c with
  | zero => exact ⟨[], _, rfl, trivial⟩
  | succ steps ih =>
    unfold tokens
    split
    · exact ⟨[], _, rfl, trivial⟩
    · split
      · exact ⟨[], _, rfl, trivial⟩
      · next token? next _ =>
        obtain ⟨before, last, hlast, hends⟩ := ih next
        exact ⟨token?.toList ++ before, last, by rw [hlast, List.append_assoc], hends⟩

/-- **The names of a text** hold no closing brace. -/
theorem braceFree_of_mem_tokensOf {d : Decoded} (h : token ∈ tokensOf d) : token.BraceFree := by
  unfold tokensOf at h
  split at h
  · rw [List.mem_singleton.mp h]
    trivial
  · dsimp only at h
    split at h
    · obtain ⟨found, hfound, rfl⟩ := List.mem_map.mp h
      split
      · trivial
      · exact braceFree_of_mem_tokens hfound
    · exact braceFree_of_mem_tokens h

/-- **The tokens of a text** end with its end or a fault. -/
theorem tokensOf_ends (d : Decoded) :
    ∃ before last, tokensOf d = before ++ [last] ∧ last.IsLast := by
  unfold tokensOf
  split
  · exact ⟨[], _, rfl, trivial⟩
  · next es c _ =>
    obtain ⟨before, last, hlast, hends⟩ := tokens_ends es (c.rest.length + 1) c
    dsimp only
    split
    · refine ⟨_, _, by rw [hlast, List.map_append, List.map_singleton], ?_⟩
      split
      · trivial
      · exact hends
    · exact ⟨before, last, hlast, hends⟩

end Tabular.Xml
