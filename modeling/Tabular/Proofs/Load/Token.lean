import Mathlib.Data.List.Forall2
import Tabular.Load.Sql

/-!
# Tokens of a statement

A statement is read letter by letter: a text or a name between marks goes on to the next mark that
is not doubled, letters and digits make words, blanks separate, and everything else is a sign.

* `Token`, `Reading`, `Reading.next`: the tokens, and what one character does;
* `read`, **`tokens`**: the tokens of a text, none where a mark stays open;
* `Reads`, `Lexes`: texts whose tokens come out whatever follows, at once or behind a break;
* **`lexes_quoteWith`**: what stands between marks comes out as it was written.
-/

namespace Tabular.Sql

/-- A token of a statement. -/
inductive Token where
  /-- A keyword or a bare name. -/
  | word (letters : String)
  /-- A name between double quotes. -/
  | identifier (name : String)
  /-- A text between single quotes. -/
  | text (value : String)
  | sign (c : Char)
  deriving Repr, DecidableEq, Inhabited

/-- What the characters read last belong to; they are kept last one first. -/
inductive Reading where
  | between
  | word (letters : List Char)
  | quoted (mark : Char) (cs : List Char)
  /-- Behind a mark that ends a text, or is the first of two. -/
  | closing (mark : Char) (cs : List Char)
  deriving Repr, DecidableEq, Inhabited

/-- The character opens and closes a text or a name. -/
def isMark (c : Char) : Bool :=
  c == '\'' || c == '"'

/-- The character belongs to a word. -/
def isWordChar (c : Char) : Bool :=
  c.isAlphanum || c == '_'

/-- What stands between marks. -/
def Token.between (mark : Char) (s : String) : Token :=
  if mark = '\'' then .text s else .identifier s

namespace Reading

/-- A character behind a token. -/
def start (c : Char) : Reading × List Token :=
  if isMark c then (.quoted c [], [])
  else if isWordChar c then (.word [c], [])
  else if c.isWhitespace then (.between, [])
  else (.between, [.sign c])

/-- A character, and the tokens that end before it. -/
def next : Reading → Char → Reading × List Token
  | .between, c => start c
  | .word letters, c =>
    if isWordChar c then (.word (c :: letters), [])
    else ((start c).1, .word (String.ofList letters.reverse) :: (start c).2)
  | .quoted mark cs, c => if c = mark then (.closing mark cs, []) else (.quoted mark (c :: cs), [])
  | .closing mark cs, c =>
    if c = mark then (.quoted mark (mark :: cs), [])
    else ((start c).1, .between mark (String.ofList cs.reverse) :: (start c).2)

end Reading

/-- What some characters lead to, and the tokens that end inside them. -/
def read : Reading → List Char → Reading × List Token
  | r, [] => (r, [])
  | r, c :: rest =>
    let now := r.next c
    let later := read now.1 rest
    (later.1, now.2 ++ later.2)

/-- The tokens of a text. A blank behind it ends the last one. -/
def tokens (s : String) : Option (List Token) :=
  match read .between (s.toList ++ [' ']) with
  | (.between, ts) => some ts
  | _ => none

variable {r : Reading} {mark c : Char} {cs ds : List Char} {ts us : List Token}

theorem read_append (r : Reading) (cs ds : List Char) :
    read r (cs ++ ds) =
      ((read (read r cs).1 ds).1, (read r cs).2 ++ (read (read r cs).1 ds).2) := by
  induction cs generalizing r with
  | nil => rfl
  | cons c rest ih => simp only [List.cons_append, read, ih, List.append_assoc]

/-! ## Texts with their tokens -/

/-- The text is read to its end, with these tokens. -/
def Reads (cs : List Char) (ts : List Token) : Prop :=
  read .between cs = (.between, ts)

instance : Decidable (Reads cs ts) :=
  inferInstanceAs (Decidable (_ = _))

/-- The character ends a word and stands for itself. -/
def isBreak (c : Char) : Bool :=
  !isMark c && !isWordChar c

/-- The text has these tokens wherever a break follows. -/
def Lexes (cs : List Char) (ts : List Token) : Prop :=
  ∀ c rest, isBreak c = true → read .between (cs ++ c :: rest) =
    ((read .between (c :: rest)).1, ts ++ (read .between (c :: rest)).2)

theorem Reads.lexes (h : Reads cs ts) : Lexes cs ts := by
  intro c rest _
  rw [Reads] at h
  rw [read_append, h]

theorem Reads.append (h : Reads cs ts) (h' : Reads ds us) : Reads (cs ++ ds) (ts ++ us) := by
  rw [Reads] at h h'
  rw [Reads, read_append, h, h']

theorem Reads.lexes_append (h : Reads cs ts) (h' : Lexes ds us) : Lexes (cs ++ ds) (ts ++ us) := by
  intro c rest hc
  rw [Reads] at h
  rw [List.append_assoc, read_append, h, h' c rest hc, List.append_assoc]

theorem Lexes.append (h : Lexes cs ts) (h' : Lexes ds us) (hd : ds.head?.any isBreak = true) :
    Lexes (cs ++ ds) (ts ++ us) := by
  cases ds with
  | nil => cases hd
  | cons c ds =>
    intro d rest hbreak
    rw [List.append_assoc, List.cons_append, h c (ds ++ d :: rest) hd, ← List.cons_append,
      h' d rest hbreak, List.append_assoc]

theorem Lexes.reads_append (h : Lexes cs ts) (h' : Reads ds us)
    (hd : ds.head?.any isBreak = true) : Reads (cs ++ ds) (ts ++ us) := by
  cases ds with
  | nil => cases hd
  | cons c ds =>
    rw [Reads] at h' ⊢
    rw [h c ds hd, h']

theorem Lexes.tokens {s : String} (h : Lexes s.toList ts) : tokens s = some ts := by
  have hread := h ' ' [] (by decide)
  rw [show read .between [' '] = (.between, []) from rfl, List.append_nil] at hread
  rw [Sql.tokens, hread]

theorem Reads.tokens {s : String} (h : Reads s.toList ts) : tokens s = some ts :=
  h.lexes.tokens

/-- Texts with commas between them. -/
theorem lexes_intercalate {css : List (List Char)} {tss : List (List Token)}
    (h : List.Forall₂ Lexes css tss) :
    Lexes ([',', ' '].intercalate css) ([.sign ','].intercalate tss) := by
  induction h with
  | nil => exact Reads.lexes rfl
  | @cons cs ts css tss hfirst hrest ih =>
    cases hrest with
    | nil => simpa using hfirst
    | cons hsecond hmore =>
      have hcomma : Reads [',', ' '] [.sign ','] := rfl
      rw [List.intercalate_cons_cons, List.intercalate_cons_cons, List.append_assoc,
        List.append_assoc]
      exact hfirst.append (hcomma.lexes_append ih) rfl

/-! ## Words and marks -/

theorem read_word (h : ∀ d ∈ ds, isWordChar d = true) (cs : List Char) :
    read (.word cs) ds = (.word (ds.reverse ++ cs), []) := by
  induction ds generalizing cs with
  | nil => rfl
  | cons d rest ih =>
    have hd : (Reading.word cs).next d = (.word (d :: cs), []) :=
      if_pos (h d List.mem_cons_self)
    rw [read, hd, ih fun e he => h e (List.mem_cons_of_mem d he)]
    simp

theorem start_of_isWordChar (h : isWordChar c = true) : Reading.start c = (.word [c], []) := by
  have hmark : isMark c = false := by
    refine Bool.eq_false_iff.mpr fun hm => ?_
    rw [isMark, Bool.or_eq_true, beq_iff_eq, beq_iff_eq] at hm
    rcases hm with rfl | rfl <;> exact absurd h (by decide)
  simp [Reading.start, h, hmark]

/-- A word comes out where a break follows. -/
theorem lexes_word (s : String) (hne : s ≠ "") (h : s.toList.all isWordChar = true) :
    Lexes s.toList [.word s] := by
  intro d rest hd
  have hsign : isWordChar d = false := by
    rw [isBreak, Bool.and_eq_true] at hd
    simpa using hd.2
  rw [List.all_eq_true] at h
  cases hs : s.toList with
  | nil => exact absurd (String.toList_eq_nil_iff.mp hs) hne
  | cons c cs =>
    rw [hs] at h
    have hstart : Reading.between.next c = (.word [c], []) :=
      start_of_isWordChar (h c List.mem_cons_self)
    have hword : String.ofList (c :: cs) = s := by rw [← hs, String.ofList_toList]
    have hnext : (Reading.word (cs.reverse ++ [c])).next d =
        ((Reading.start d).1, .word s :: (Reading.start d).2) := by
      simp [Reading.next, hsign, hword]
    rw [List.cons_append, read, hstart, read_append,
      read_word (fun e he => h e (List.mem_cons_of_mem c he)) [c], read, hnext]
    rfl

/-- Inside marks a mark is read where two of them stand. -/
theorem read_doubled (mark : Char) (cs ds : List Char) :
    read (.quoted mark cs) (doubled mark ds) = (.quoted mark (ds.reverse ++ cs), []) := by
  induction ds generalizing cs with
  | nil => rfl
  | cons d rest ih =>
    have hone : read (.quoted mark cs) (if d = mark then [mark, mark] else [d]) =
        (.quoted mark (d :: cs), []) := by
      by_cases hd : d = mark <;> simp [hd, read, Reading.next]
    rw [doubled, List.flatMap_cons, ← doubled, read_append, hone, ih]
    simp

theorem isMark_of_isBreak (h : isBreak c = true) : isMark c = false := by
  rw [isBreak, Bool.and_eq_true] at h
  simpa using h.1

/-- **What stands between marks comes out as it was written.** -/
theorem lexes_quoteWith (hm : isMark mark = true) (s : String) :
    Lexes (quoteWith mark s).toList [.between mark s] := by
  intro c rest hc
  have hne : c ≠ mark := by
    rintro rfl
    exact Bool.false_ne_true ((isMark_of_isBreak hc).symm.trans hm)
  have hopen : Reading.between.next mark = (.quoted mark [], []) := by
    simp [Reading.next, Reading.start, hm]
  have hclose : read (.quoted mark s.toList.reverse) (mark :: c :: rest) =
      ((read .between (c :: rest)).1, .between mark s :: (read .between (c :: rest)).2) := by
    simp [read, Reading.next, hne]
  rw [quoteWith, String.toList_ofList, List.cons_append, List.cons_append, read, hopen,
    List.append_assoc, read_append, read_doubled, List.append_nil, List.cons_append,
    List.nil_append, hclose]
  rfl

theorem lexes_quoteIdentifier (name : String) :
    Lexes (quoteIdentifier name).toList [.identifier name] :=
  lexes_quoteWith rfl name

theorem lexes_quoteLiteral (s : String) : Lexes (quoteLiteral s).toList [.text s] :=
  lexes_quoteWith rfl s

end Tabular.Sql
