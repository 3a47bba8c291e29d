import Tabular.Proofs.Reader.Cut
import Tabular.Proofs.Reader.Fault
import Tabular.Proofs.Xml.Names
import Tabular.Xml.Document

/-!
# Documents as a parser reports them

A parser reports where elements start and end, under names with their namespaces, and stops at the
first fault of a document. Its reports become events one by one, so the events are nested as the
reports are, and a reader finds no fault in them but the parser's.

* `Event.TextAtEnd`: nested streams in which a text stands right before the end of its element;
* `Report.Nested`, `Parse.Proper`: reports that are nested, and parses whose reports begin so;
* `Assembly.Steps`, `Assembly.steps_of_step`: what each token that is no fault does;
* `textAtEnd_events`, `flatMap_events_report`, `nested_report`: one report, one token;
* **`Document.source_parse`**, **`Document.proper_parse`**: the events of a document are those of
  its parse, which is a proper one;
* **`Reader.rest_parsed`**: the reading of a proper parse, and of any document.
-/

namespace Tabular

/-! ## Streams with the text at the end -/

namespace Event

/-- The stream takes the open names, innermost first, to no open name at all. An end has the name of
the element that it closes, and a text stands right before the end of its element. -/
inductive TextAtEnd : List String → List Event → Prop where
  | nil : TextAtEnd [] []
  | start {tags : List String} {name : String} {attributes : Entries String} {rest : List Event} :
      TextAtEnd (name :: tags) rest → TextAtEnd tags (.start name attributes :: rest)
  | finish {tags : List String} {name : String} {rest : List Event} :
      TextAtEnd tags rest → TextAtEnd (name :: tags) (.finish name :: rest)
  | text {tags : List String} {name value : String} {rest : List Event} :
      TextAtEnd tags rest → TextAtEnd (name :: tags) (.text value :: .finish name :: rest)

theorem closes_self (name : String) : closes name name = true := by
  simp [closes]

theorem TextAtEnd.nested {tags : List String} {events : List Event} (h : TextAtEnd tags events) :
    Nested tags events := by
  induction h with
  | nil => exact .nil
  | start _ ih => exact .start ih
  | finish _ ih => exact .finish (closes_self _) ih
  | text _ ih => exact .text (.finish (closes_self _) ih)

end Event

namespace Xml

/-! ## Reports -/

namespace Report

/-- The reports take the open elements, innermost first, to no open element at all. -/
inductive Nested : List String → List Report → Prop where
  | nil : Nested [] []
  | start {tags : List String} {tag : String} {attributes : List (String × String)}
      {rest : List Report} : Nested (tag :: tags) rest → Nested tags (.start tag attributes :: rest)
  | finish {tags : List String} {tag : String} {text : Option String} {rest : List Report} :
      Nested tags rest → Nested (tag :: tags) (.finish tag text :: rest)
  | other {tags : List String} {rest : List Report} : Nested tags rest → Nested tags (.other :: rest)

/-- Every open element can be closed. -/
theorem nested_finishes (tags : List String) : Nested tags (tags.map (.finish · none)) := by
  induction tags with
  | nil => exact .nil
  | cons tag outer ih => exact .finish ih

/-- **Nested reports have nested events**, under the local names. -/
theorem Nested.textAtEnd_events {tags : List String} {reports : List Report}
    (h : Nested tags reports) : Event.TextAtEnd (tags.map localName) (reports.flatMap events) := by
  induction h with
  | nil => exact .nil
  | start _ ih => exact .start ih
  | @finish _ _ text _ _ ih =>
    cases text with
    | none => exact .finish ih
    | some value => exact .text ih
  | other _ ih => exact ih

end Report

namespace Parse

variable {p : Parse}

/-- The reports begin nested ones, and are all of them where there is no fault. -/
def Proper (p : Parse) : Prop :=
  ∃ later, Report.Nested [] (p.reports ++ later) ∧ (p.fault = none → later = [])

theorem Proper.textAtEnd (h : p.Proper) :
    ∃ later, Event.TextAtEnd [] (p.source.events ++ later) ∧ (p.fault = none → later = []) := by
  obtain ⟨later, hnested, hwhole⟩ := h
  refine ⟨later.flatMap Report.events, ?_, fun hfault => by rw [hwhole hfault, List.flatMap_nil]⟩
  have hevents := hnested.textAtEnd_events
  rwa [List.flatMap_append] at hevents

end Parse

/-! ## Reports of tokens -/

namespace Assembly

/-- The names of the open elements, innermost first. -/
def names (a : Assembly) : List String :=
  a.stack.map OpenElement.name

@[simp] theorem names_withChild (a : Assembly) : a.withChild.names = a.names := by
  obtain ⟨stack, hasRoot, fault⟩ := a
  cases stack <;> rfl

@[simp] theorem names_withText (value : String) (a : Assembly) :
    (a.withText value).names = a.names := by
  obtain ⟨stack, hasRoot, fault⟩ := a
  cases stack with
  | nil => rfl
  | cons e outer =>
    unfold withText
    dsimp only
    split <;> rfl

@[simp] theorem names_withFault (isFaulty : Bool) (line : Nat) (a : Assembly) :
    (a.withFault isFaulty line).names = a.names := by
  cases isFaulty <;> rfl

/-- The elements that have been reported to start are the open ones. -/
def Shows (a : Assembly) (shown : List Shown) : Prop :=
  shown.map (fun opened => localName opened.tag) = a.names

variable {a a' : Assembly} {shown : List Shown} {token : Token} {events : List Event}

/-- What a token does that is no fault in its place. -/
inductive Steps (a : Assembly) : Token → Assembly → List Event → Prop
  | start (tag : StartTag) (first last : Nat) (h : ¬ (a.stack = [] ∧ a.hasRoot = true)) :
      Steps a (.start tag first last) (a.start tag last).1 (a.start tag last).2
  | finish (first last : Nat) {e : OpenElement} {outer : List OpenElement}
      (hstack : a.stack = e :: outer) :
      Steps a (.finish e.written first last) { a with stack := outer } (ending e)
  | text (value : String) (isBlank : Bool) (first : Nat) (h : a.stack = [] → isBlank = true) :
      Steps a (.text value isBlank first) (a.withText value) []
  | reference (first : Nat) (h : a.stack ≠ []) : Steps a (.reference first) a.withChild []
  | done (line : Nat) (hstack : a.stack = []) (h : a.hasRoot = true) : Steps a (.done line) a []

theorem steps_of_step (h : a.step token = .ok (a', events)) : a.Steps token a' events := by
  cases token with
  | start tag first last =>
    simp only [step] at h
    split at h
    · cases h
    · next hroot =>
      have hstart := Steps.start tag first last (a := a) (by simpa using hroot)
      rwa [Except.ok.inj h] at hstart
  | finish written first last =>
    simp only [step] at h
    split at h
    · cases h
    · next e outer hstack =>
      split at h
      · next hwritten =>
        cases h
        cases hwritten
        exact .finish first last hstack
      · cases h
  | text value isBlank first =>
    simp only [step] at h
    split at h
    · cases h
    · next hblank =>
      cases h
      exact .text value isBlank first (by simpa using hblank)
  | reference first =>
    simp only [step] at h
    split at h
    · cases h
    · next hstack =>
      cases h
      exact .reference first (by simpa using hstack)
  | fault line => cases h
  | done line =>
    simp only [step] at h
    split at h
    · next hdone =>
      cases h
      obtain ⟨hstack, hroot⟩ := Bool.and_eq_true_iff.mp hdone
      exact .done line (List.isEmpty_iff.mp hstack) hroot
    · cases h

theorem localName_elementTag {written : String} (h : BraceFree written) (scope : Scope)
    (space : String) : localName (elementTag scope space written) = (resolve scope written).name :=
  localName_qualified _ (braceFree_resolve h scope)

/-- The attributes of a tag under their local names. -/
theorem map_localName_attributes {given : List (String × String)}
    (h : ∀ x ∈ given, BraceFree x.1) (scope : Scope) :
    (given.map fun x => (qualified (resolve scope x.1).uri (resolve scope x.1).name, x.2)).map
        (fun x => (localName x.1, x.2)) =
      ((given.map fun x => resolve scope x.1).map Resolved.name).zip (given.map Prod.snd) := by
  rw [List.map_map, List.map_map, List.zip_map']
  refine List.map_congr_left fun x hx => ?_
  simp only [Function.comp_apply, localName_qualified _ (braceFree_resolve (h x hx) scope)]

theorem names_start (tag : StartTag) (line : Nat) (a : Assembly) :
    (a.start tag line).1.names =
      if tag.isClosed then a.names
      else (resolve (innerScope a.scope tag.attributes) tag.name).name :: a.names := by
  unfold start
  dsimp only
  cases tag.isClosed with
  | true => exact (names_withFault _ line a.withChild).trans (names_withChild a)
  | false =>
    exact congrArg (_ :: ·) ((names_withFault _ line a.withChild).trans (names_withChild a))

theorem flatMap_events_report_start {tag : StartTag} {first last : Nat}
    (ht : (Token.start tag first last).BraceFree) (a : Assembly) (shown : List Shown) :
    (a.report shown (.start tag first last)).1.flatMap Report.events = (a.start tag last).2 := by
  obtain ⟨hname, hattributes⟩ := ht
  have htag := localName_elementTag hname (innerScope a.scope tag.attributes)
    (innerSpace shown tag.attributes)
  have hplain : ∀ x ∈ tag.attributes.filter fun x => !isDeclaration x.1, BraceFree x.1 :=
    fun x hx => hattributes x (List.mem_filter.mp hx).1
  have hlocal := map_localName_attributes hplain (innerScope a.scope tag.attributes)
  unfold report start
  dsimp only
  split <;> simp [Report.events, htag, hlocal, ending]

theorem shows_start (hs : a.Shows shown) {tag : StartTag} {first last : Nat}
    (ht : (Token.start tag first last).BraceFree) :
    (a.start tag last).1.Shows (a.report shown (.start tag first last)).2 := by
  have htag := localName_elementTag ht.1 (innerScope a.scope tag.attributes)
    (innerSpace shown tag.attributes)
  unfold Shows
  rw [names_start, ← hs, ← htag]
  unfold report
  dsimp only
  cases tag.isClosed <;> rfl

/-- **The reports of a token become its events**, and the open elements stay those reported. -/
theorem flatMap_events_report (hs : a.Shows shown) (ht : token.BraceFree)
    (h : a.step token = .ok (a', events)) :
    (a.report shown token).1.flatMap Report.events = events ∧
      a'.Shows (a.report shown token).2 := by
  cases steps_of_step h with
  | start tag first last => exact ⟨flatMap_events_report_start ht a shown, shows_start hs ht⟩
  | @finish first last e outer hstack =>
    rw [Shows, names, hstack] at hs
    obtain ⟨opened, rest, rfl, hopened, hrest⟩ := List.map_eq_cons_iff.mp hs
    simp only [report, hstack, List.flatMap_cons, List.flatMap_nil, List.append_nil,
      Report.events, hopened]
    exact ⟨rfl, hrest⟩
  | text value isBlank first => exact ⟨rfl, hs.trans (names_withText value a).symm⟩
  | reference first => exact ⟨rfl, hs.trans (names_withChild a).symm⟩
  | done line => exact ⟨rfl, hs⟩

/-- **The reports of a token** go from the elements that are open before it to those after it. -/
theorem nested_report (a : Assembly) (shown : List Shown) (token : Token) {rest : List Report}
    (h : Report.Nested ((a.report shown token).2.map Shown.tag) rest) :
    Report.Nested (shown.map Shown.tag) ((a.report shown token).1 ++ rest) := by
  cases token with
  | start tag first last =>
    unfold report at h ⊢
    dsimp only at h ⊢
    cases hclosed : tag.isClosed with
    | true =>
      rw [hclosed] at h
      exact .start (.finish h)
    | false =>
      rw [hclosed] at h
      exact .start h
  | finish written first last =>
    unfold report at h ⊢
    cases hstack : a.stack with
    | nil =>
      rw [hstack] at h
      exact h
    | cons e outer =>
      rw [hstack] at h
      cases shown with
      | nil => exact h
      | cons opened rest => exact .finish h
  | reference first => exact .other h
  | text value isBlank first => exact h
  | fault line => exact h
  | done line => exact h

end Assembly

variable {a a' : Assembly} {shown : List Shown} {tokens : List Token}

theorem reports_of_error {token : Token} {line : Nat} (h : a.step token = .error line)
    (shown : List Shown) (rest : List Token) : reports a shown (token :: rest) = ([], shown) := by
  simp only [reports, h]

theorem reports_of_step {token : Token} {events : List Event}
    (h : a.step token = .ok (a', events)) (shown : List Shown) (rest : List Token) :
    reports a shown (token :: rest) =
      ((a.report shown token).1 ++ (reports a' (a.report shown token).2 rest).1,
        (reports a' (a.report shown token).2 rest).2) := by
  simp only [reports, h]

/-- **The reports of tokens become their events.** -/
theorem flatMap_events_reports (hs : a.Shows shown) (ht : ∀ token ∈ tokens, token.BraceFree) :
    (reports a shown tokens).1.flatMap Report.events = (assemble a tokens).1 := by
  induction tokens generalizing a shown with
  | nil =>
    rw [assemble]
    split <;> rfl
  | cons token rest ih =>
    obtain ⟨htoken, hrest⟩ := List.forall_mem_cons.mp ht
    rw [assemble]
    cases hstep : a.step token with
    | error line =>
      rw [reports_of_error hstep]
      rfl
    | ok next =>
      obtain ⟨a', events⟩ := next
      obtain ⟨hevents, hshows⟩ := Assembly.flatMap_events_report hs htoken hstep
      rw [reports_of_step hstep, List.flatMap_append, hevents, ih hshows hrest]

/-- **The reports of tokens** go from the elements that are open at first to those at last. -/
theorem nested_reports (a : Assembly) (shown : List Shown) (tokens : List Token)
    {rest : List Report} (h : Report.Nested ((reports a shown tokens).2.map Shown.tag) rest) :
    Report.Nested (shown.map Shown.tag) ((reports a shown tokens).1 ++ rest) := by
  induction tokens generalizing a shown with
  | nil => exact h
  | cons token more ih =>
    cases hstep : a.step token with
    | error line =>
      rw [reports_of_error hstep] at h ⊢
      exact h
    | ok next =>
      rw [reports_of_step hstep] at h ⊢
      rw [List.append_assoc]
      exact Assembly.nested_report a shown token (ih next.1 _ h)

/-- A document that is read to its end leaves nothing open. -/
theorem reports_of_complete {before : List Token} {last : Token} (hl : last.IsLast)
    (hs : a.Shows shown) (ht : ∀ token ∈ before, token.BraceFree)
    (h : (assemble a (before ++ [last])).2 = .complete) :
    (reports a shown (before ++ [last])).2 = [] := by
  induction before generalizing a shown with
  | nil =>
    rw [List.nil_append, assemble] at h
    cases hstep : a.step last with
    | error line =>
      rw [hstep] at h
      cases h
    | ok next =>
      obtain ⟨a', events⟩ := next
      rw [List.nil_append, reports_of_step hstep]
      cases Assembly.steps_of_step hstep with
      | done line hstack =>
        rw [Assembly.Shows, Assembly.names, hstack] at hs
        exact List.map_eq_nil_iff.mp hs
      | _ => exact hl.elim
  | cons token rest ih =>
    obtain ⟨htoken, hrest⟩ := List.forall_mem_cons.mp ht
    rw [List.cons_append, assemble] at h
    cases hstep : a.step token with
    | error line =>
      rw [hstep] at h
      cases h
    | ok next =>
      obtain ⟨a', events⟩ := next
      rw [hstep] at h
      rw [List.cons_append, reports_of_step hstep]
      exact ih (Assembly.flatMap_events_report hs htoken hstep).2 hrest h

/-! ## Documents -/

/-- No document breaks off for want of a file. -/
theorem assemble_readable (a : Assembly) (tokens : List Token) (fault : FileFault) :
    (assemble a tokens).2 ≠ .unreadable fault := by
  induction tokens generalizing a with
  | nil =>
    unfold assemble
    cases a.fault <;> nofun
  | cons token rest ih =>
    unfold assemble
    cases a.step token with
    | error line => nofun
    | ok next => exact ih next.1

theorem shows_nil : ({} : Assembly).Shows [] :=
  rfl

/-- The ending of a document is told by its fault. -/
theorem elim_faultOf (a : Assembly) (tokens : List Token) :
    (faultOf (assemble a tokens).2).elim .complete .malformed = (assemble a tokens).2 := by
  cases h : (assemble a tokens).2 with
  | complete => rfl
  | malformed line => rfl
  | unreadable fault => exact absurd h (assemble_readable a tokens fault)

/-- **The events of a document** are those of the reports on it. -/
theorem Document.source_parse (bytes : List UInt8) : (parse bytes).source = source bytes := by
  unfold parse source Parse.source
  split
  · rfl
  · dsimp only
    rw [flatMap_events_reports shows_nil fun _ => braceFree_of_mem_tokensOf, elim_faultOf]

/-- **The reports on a document** begin nested ones, and stop early only at a fault. -/
theorem Document.proper_parse (bytes : List UInt8) : (parse bytes).Proper := by
  unfold parse
  split
  · exact ⟨[], .nil, fun _ => rfl⟩
  · dsimp only
    refine ⟨_, nested_reports {} [] _ (Report.nested_finishes _), fun hfault => ?_⟩
    obtain ⟨before, last, htokens, hlast⟩ := tokensOf_ends (decode bytes)
    have hcomplete : (assemble {} (tokensOf (decode bytes))).2 = .complete := by
      rw [← elim_faultOf]
      dsimp only at hfault
      rw [hfault]
      rfl
    have hbefore : ∀ token ∈ before, token.BraceFree := fun token htoken =>
      braceFree_of_mem_tokensOf (htokens ▸ List.mem_append_left _ htoken)
    rw [htokens] at hcomplete ⊢
    rw [reports_of_complete hlast shows_nil hbefore hcomplete]
    rfl

end Xml

namespace Reader

variable {o : ReaderOptions}

/-- The reading of a proper parse, without a row limit, fails where the parse has a fault. -/
theorem rest_source (hb : 0 < o.batchSize) (hl : o.limit = none) {p : Xml.Parse} (hp : p.Proper) :
    (start o p.source).rest.result.2 = p.fault.map fun line => .malformed (.document line) := by
  obtain ⟨later, htext, hwhole⟩ := hp.textAtEnd
  obtain ⟨reports, fault⟩ := p
  cases fault with
  | none =>
    rw [hwhole rfl, List.append_nil] at htext
    exact (rest_of_nested hb hl htext.nested).1
  | some line =>
    obtain ⟨tags, hopen⟩ := Event.exists_nested_iff.mp ⟨later, htext.nested⟩
    exact (rest_of_fails hb hl (.document tags line hopen rfl)).1

/-- **A parse never trips a reader.** The events of a proper parse begin a nested stream in which
each text stands right before the end of its element, and are all of it where the parse has no
fault. A reader without a row limit fails on them just where the parse has a fault, and with that
fault. Every document has such a parse. -/
theorem rest_parsed (hb : 0 < o.batchSize) (hl : o.limit = none) :
    (∀ p : Xml.Parse, p.Proper →
      (∃ later, Event.TextAtEnd [] (p.source.events ++ later) ∧ (p.fault = none → later = [])) ∧
        (start o p.source).rest.result.2 =
          p.fault.map fun line => .malformed (.document line)) ∧
      ∀ bytes, (Xml.Document.parse bytes).Proper ∧
        Xml.Document.source bytes = (Xml.Document.parse bytes).source :=
  ⟨fun _ hp => ⟨hp.textAtEnd, rest_source hb hl hp⟩, fun bytes =>
    ⟨Xml.Document.proper_parse bytes, (Xml.Document.source_parse bytes).symm⟩⟩

/-- A document in two namespaces whose root is ended under its local name only, behind a reference
that is kept. -/
def brokenOff : List UInt8 :=
  ("<!DOCTYPE r [<!ENTITY e \"v\">]>" ++
    "<p:r xmlns:p=\"u\" xmlns=\"v\"><a p:k=\"1\">x&e;y</a></r>").toUTF8.toList

/-- Its parse stops at the last end, and so does a reader, with the fault of the parse. -/
theorem rest_parsed_brokenOff :
    let o : ReaderOptions := { batchSize := 1 }
    let p := Xml.Document.parse brokenOff
    (0 < o.batchSize ∧ o.limit = none) ∧
      p.reports = [.start "\x7bu\x7dr" [], .start "\x7bv\x7da" [("\x7bu\x7dk", "1")], .other,
        .finish "\x7bv\x7da" (some "x")] ∧
      (Xml.Document.source brokenOff).events =
        [.start "r" [], .start "a" [("k", "1")], .text "x", .finish "a"] ∧
      p.Proper ∧ p.fault = some 1 ∧
      (start o (Xml.Document.source brokenOff)).rest.result.2 = some (.malformed (.document 1)) := by
  intro o p
  obtain ⟨hparse, hdocument⟩ := rest_parsed (o := o) (by decide) rfl
  obtain ⟨hproper, hsource⟩ := hdocument brokenOff
  have hfault : p.fault = some 1 := by decide +kernel
  obtain ⟨-, hresult⟩ := hparse p hproper
  rw [hfault, ← hsource] at hresult
  exact ⟨⟨by decide, rfl⟩, by decide +kernel, by decide +kernel, hproper, hfault, hresult⟩

end Reader

end Tabular
