import Mathlib.Algebra.Ring.Parity
import Tabular.Proofs.Column.Format

/-!
# The grammar of path texts

What a text spells can be told without a scan: it is cut at the dots that have an even number of
back-quotes before them, and each piece gives a name.

* `Path.isCut`, `Path.pieces`, `Path.nameOf`: the pieces of a text and their names;
* `Path.Spells`, `Path.Faulty`: the texts that spell a path, and what is wrong with the others;
* `Path.segments_eq`: the scan of a text takes its pieces one by one;
* **`Path.parse_grammar`**: a text is read as a path, or refused, just as this grammar says.
-/

namespace Tabular.Path

/-! ## The grammar -/

/-- An odd number of back-quotes: the last one is still open. -/
def isOpen (cs : List Char) : Bool :=
  decide (Odd (cs.count tick))

/-- The character at a place of the text is a dot, with an even number of back-quotes before it. -/
def isCut (text : List Char) (c : Char × Nat) : Bool :=
  c.1 = '.' && !isOpen (text.take c.2)

/-- What stands before, between and behind the cuts of a text. -/
def pieces (text : List Char) : List (List Char) :=
  (text.zipIdx.splitOnP (isCut text)).map (List.map Prod.fst)

/-- The name of a piece: the piece without its back-quotes, or trimmed if it has none. -/
def nameOf (piece : List Char) : String :=
  String.ofList (if tick ∈ piece then piece.filter (· ≠ tick) else Text.trimChars piece)

/-- The text is not blank, its back-quotes are even in number, and its pieces have the names of the
path, none of them empty. -/
structure Spells (text : String) (path : Path) : Prop where
  not_blank : Text.isBlankText text = false
  balanced : isOpen text.toList = false
  names_ne : ∀ piece ∈ pieces text.toList, nameOf piece ≠ ""
  path_eq : path = (pieces text.toList).map nameOf

/-- What is wrong with a text. A piece without a name comes before an open back-quote if the piece
ends in a cut. -/
inductive Faulty (text : String) : PathError → Prop where
  | empty (h : Text.isBlankText text = true) : Faulty text (.empty (.text text))
  | emptySegment (h : Text.isBlankText text = false) {piece : List Char}
      (hname : nameOf piece = "")
      (hfirst : piece ∈ (pieces text.toList).dropLast ∨
        piece ∈ pieces text.toList ∧ isOpen text.toList = false) :
      Faulty text (.emptySegment text)
  | unbalanced (h : Text.isBlankText text = false)
      (hnames : ∀ piece ∈ (pieces text.toList).dropLast, nameOf piece ≠ "")
      (hopen : isOpen text.toList = true) : Faulty text (.unbalanced text)

/-! ## Pieces behind a text -/

variable {cs before : List Char} {c : Char} {text : String} {path : Path}

theorem isOpen_concat_tick (cs : List Char) : isOpen (cs ++ [tick]) = !isOpen cs := by
  simp [isOpen, Nat.odd_add_one, ← Nat.not_even_iff_odd]

theorem isOpen_concat (h : c ≠ tick) (cs : List Char) : isOpen (cs ++ [c]) = isOpen cs := by
  simp [isOpen, List.count_append, h]

/-- The pieces of a text that stands behind another. -/
def piecesFrom (before cs : List Char) : List (List Char) :=
  ((cs.zipIdx before.length).splitOnP (isCut (before ++ cs))).map (List.map Prod.fst)

theorem piecesFrom_nil (before : List Char) : piecesFrom before [] = [[]] :=
  rfl

theorem piecesFrom_ne_nil (before cs : List Char) : piecesFrom before cs ≠ [] :=
  fun h => List.splitOnP_ne_nil _ _ (List.map_eq_nil_iff.mp h)

theorem piecesFrom_cons (before : List Char) (c : Char) (rest : List Char) :
    piecesFrom before (c :: rest) =
      if c = '.' ∧ isOpen before = false then [] :: piecesFrom (before ++ [c]) rest
      else (piecesFrom (before ++ [c]) rest).modifyHead (c :: ·) := by
  have hcut : isCut (before ++ c :: rest) (c, before.length) = true ↔
      c = '.' ∧ isOpen before = false := by
    simp [isCut]
  have hrest : before ++ c :: rest = (before ++ [c]) ++ rest := by simp
  have hlength : before.length + 1 = (before ++ [c]).length := by simp
  rw [piecesFrom, List.zipIdx_cons, List.splitOnP_cons_eq_if_modifyHead, hrest, hlength, ← hrest]
  by_cases h : c = '.' ∧ isOpen before = false
  · rw [if_pos (hcut.mpr h), if_pos h, hrest]
    rfl
  · rw [if_neg (mt hcut.mp h), if_neg h, hrest, piecesFrom]
    cases List.splitOnP _ (rest.zipIdx (before ++ [c]).length) <;> rfl

/-! ## The scan by pieces -/

/-- The name of a piece behind letters that were read before. -/
def nameFrom (marked : Bool) (letters piece : List Char) : Option String :=
  segment? (marked || piece.contains tick) (letters.reverse ++ piece.filter (· ≠ tick))

/-- The names of pieces, the first of which is read by `read`, in a text whose last back-quote may
be open. -/
def readPieces (unclosed : Bool) (read : List Char → Option String) :
    List (List Char) → Except Stop Path
  | [] => .ok []
  | piece :: later =>
    if later = [] ∧ unclosed then .error .unbalanced
    else
      match read piece with
      | some name => (readPieces unclosed (nameFrom false []) later).map (name :: ·)
      | none => .error .emptySegment

theorem readPieces_modifyHead (unclosed : Bool) (read : List Char → Option String)
    (f : List Char → List Char) (ps : List (List Char)) :
    readPieces unclosed read (ps.modifyHead f) = readPieces unclosed (fun p => read (f p)) ps := by
  cases ps <;> rfl

/-- **The scan of a text takes its pieces one by one.** -/
theorem segments_eq (cs before : List Char) (marked : Bool) (letters : List Char) :
    segments (isOpen before) marked letters cs =
      readPieces (isOpen (before ++ cs)) (nameFrom marked letters) (piecesFrom before cs) := by
  induction cs generalizing before marked letters with
  | nil =>
    have hname : nameFrom marked letters [] = segment? marked letters.reverse := by simp [nameFrom]
    rw [segments, piecesFrom_nil, readPieces, List.append_nil, hname]
    cases isOpen before <;> cases segment? marked letters.reverse <;> rfl
  | cons c rest ih =>
    have hrest : before ++ c :: rest = (before ++ [c]) ++ rest := by simp
    rw [segments, piecesFrom_cons, hrest]
    by_cases htick : c = tick
    · subst htick
      have hname : (fun p => nameFrom marked letters (tick :: p)) = nameFrom true letters := by
        funext p
        simp [nameFrom]
      rw [if_pos rfl, if_neg fun h => absurd h.1 (by decide), readPieces_modifyHead, hname, ← ih,
        isOpen_concat_tick]
    · have hopen : isOpen (before ++ [c]) = isOpen before := isOpen_concat htick before
      rw [if_neg htick]
      by_cases hcut : c = '.' ∧ isOpen before = false
      · have hname : nameFrom marked letters [] = segment? marked letters.reverse := by
          simp [nameFrom]
        rw [if_pos (by simp [hcut]), if_pos hcut]
        cases hsegment : segment? marked letters.reverse with
        | none =>
          rw [readPieces, if_neg fun h => piecesFrom_ne_nil _ _ h.1, hname, hsegment]
        | some name =>
          rw [readPieces, if_neg fun h => piecesFrom_ne_nil _ _ h.1, hname, hsegment, ← ih, hopen,
            hcut.2]
      · have hname : (fun p => nameFrom marked letters (c :: p)) = nameFrom marked (c :: letters) := by
          funext p
          simp [nameFrom, htick, Ne.symm htick]
        rw [if_neg (by simpa using hcut), if_neg hcut, readPieces_modifyHead, hname, ← ih, hopen]

/-! ## The names of pieces -/

theorem nameFrom_nil (piece : List Char) :
    nameFrom false [] piece = if nameOf piece = "" then none else some (nameOf piece) := by
  rw [nameFrom, nameOf, segment?]
  by_cases h : tick ∈ piece
  · simp [h]
  · have hfilter : piece.filter (· ≠ tick) = piece := by
      refine List.filter_eq_self.mpr fun c hc => decide_eq_true fun heq => ?_
      exact h (heq ▸ hc)
    rw [hfilter]
    simp [h]

variable {unclosed : Bool} {piece : List Char} {later ps : List (List Char)}

theorem readPieces_single (unclosed : Bool) (piece : List Char) :
    readPieces unclosed (nameFrom false []) [piece] =
      if unclosed then .error .unbalanced
      else if nameOf piece = "" then .error .emptySegment else .ok [nameOf piece] := by
  rw [readPieces, nameFrom_nil]
  cases unclosed <;> by_cases h : nameOf piece = "" <;> simp [h, readPieces, Except.map]

theorem readPieces_cons_cons (unclosed : Bool) (piece next : List Char) (later : List (List Char)) :
    readPieces unclosed (nameFrom false []) (piece :: next :: later) =
      if nameOf piece = "" then .error .emptySegment
      else (readPieces unclosed (nameFrom false []) (next :: later)).map (nameOf piece :: ·) := by
  rw [readPieces, nameFrom_nil]
  by_cases h : nameOf piece = "" <;> simp [h]

/-- What the pieces of a text give. -/
inductive PiecesRead (unclosed : Bool) (ps : List (List Char)) : Except Stop Path → Prop where
  | ok (hopen : unclosed = false) (hnames : ∀ piece ∈ ps, nameOf piece ≠ "") :
      PiecesRead unclosed ps (.ok (ps.map nameOf))
  | emptySegment {piece : List Char} (hname : nameOf piece = "")
      (hfirst : piece ∈ ps.dropLast ∨ piece ∈ ps ∧ unclosed = false) :
      PiecesRead unclosed ps (.error .emptySegment)
  | unbalanced (hnames : ∀ piece ∈ ps.dropLast, nameOf piece ≠ "") (hopen : unclosed = true) :
      PiecesRead unclosed ps (.error .unbalanced)

theorem piecesRead_readPieces (unclosed : Bool) (ps : List (List Char)) (hne : ps ≠ []) :
    PiecesRead unclosed ps (readPieces unclosed (nameFrom false []) ps) := by
  induction ps with
  | nil => exact absurd rfl hne
  | cons piece later ih =>
    cases later with
    | nil =>
      rw [readPieces_single]
      split
      · next hopen => exact .unbalanced (List.forall_mem_nil _) hopen
      · next hopen =>
        have hopen : unclosed = false := eq_false_of_ne_true hopen
        split
        · next hname => exact .emptySegment hname (Or.inr ⟨List.mem_singleton_self piece, hopen⟩)
        · next hname => exact .ok hopen (by simpa using hname)
    | cons next later =>
      rw [readPieces_cons_cons]
      split
      · next hname => exact .emptySegment hname (Or.inl (by simp))
      · next hname =>
        have hlater := ih (List.cons_ne_nil next later)
        generalize readPieces unclosed (nameFrom false []) (next :: later) = result at hlater ⊢
        cases hlater with
        | ok hopen hnames => exact .ok hopen (List.forall_mem_cons.mpr ⟨hname, hnames⟩)
        | emptySegment hempty hfirst =>
          refine .emptySegment hempty (hfirst.imp ?_ (And.imp_left (List.mem_cons_of_mem piece)))
          exact List.mem_cons_of_mem piece
        | unbalanced hnames hopen => exact .unbalanced (List.forall_mem_cons.mpr ⟨hname, hnames⟩) hopen

/-! ## Main result -/

theorem pieces_ne_nil (cs : List Char) : pieces cs ≠ [] :=
  piecesFrom_ne_nil [] cs

theorem piecesRead_segments (cs : List Char) :
    PiecesRead (isOpen cs) (pieces cs) (segments false false [] cs) := by
  rw [show segments false false [] cs = _ from segments_eq cs [] false []]
  exact piecesRead_readPieces _ _ (pieces_ne_nil cs)

theorem spells_or_faulty (text : String) :
    (∃ path, parse text = .ok path ∧ Spells text path) ∨
      ∃ error, parse text = .error error ∧ Faulty text error := by
  have hread := piecesRead_segments text.toList
  unfold parse
  split
  · next hblank => exact Or.inr ⟨_, rfl, .empty hblank⟩
  · next hblank =>
    have hblank : Text.isBlankText text = false := eq_false_of_ne_true hblank
    generalize segments false false [] text.toList = result at hread ⊢
    cases hread with
    | ok hopen hnames => exact Or.inl ⟨_, rfl, hblank, hopen, hnames, rfl⟩
    | emptySegment hname hfirst => exact Or.inr ⟨_, rfl, .emptySegment hblank hname hfirst⟩
    | unbalanced hnames hopen => exact Or.inr ⟨_, rfl, .unbalanced hblank hnames hopen⟩

theorem Spells.not_faulty {error : PathError} (h : Spells text path) : ¬ Faulty text error := by
  intro hfaulty
  cases hfaulty with
  | empty hblank => exact Bool.false_ne_true (h.not_blank.symm.trans hblank)
  | emptySegment _ hname hfirst =>
    refine h.names_ne _ ?_ hname
    exact hfirst.elim (fun hp => (List.dropLast_sublist _).subset hp) And.left
  | unbalanced _ _ hopen => exact Bool.false_ne_true (h.balanced.symm.trans hopen)

theorem Faulty.unique {error error' : PathError} (h : Faulty text error) (h' : Faulty text error') :
    error = error' := by
  have hblank_ne (hblank : Text.isBlankText text = true) : Text.isBlankText text ≠ false :=
    fun hfull => Bool.false_ne_true (hfull.symm.trans hblank)
  have hname_ne {piece : List Char} (hname : nameOf piece = "")
      (hnames : ∀ piece ∈ (pieces text.toList).dropLast, nameOf piece ≠ "")
      (hopen : isOpen text.toList = true) : ¬ (piece ∈ (pieces text.toList).dropLast ∨
        piece ∈ pieces text.toList ∧ isOpen text.toList = false) := by
    rintro (hfirst | ⟨-, hclosed⟩)
    · exact hnames piece hfirst hname
    · exact Bool.false_ne_true (hclosed.symm.trans hopen)
  cases h with
  | empty hblank =>
    cases h' with
    | empty => rfl
    | emptySegment hfull => exact absurd hfull (hblank_ne hblank)
    | unbalanced hfull => exact absurd hfull (hblank_ne hblank)
  | emptySegment hfull hname hfirst =>
    cases h' with
    | empty hblank => exact absurd hfull (hblank_ne hblank)
    | emptySegment => rfl
    | unbalanced _ hnames hopen => exact absurd hfirst (hname_ne hname hnames hopen)
  | unbalanced hfull hnames hopen =>
    cases h' with
    | empty hblank => exact absurd hfull (hblank_ne hblank)
    | emptySegment _ hname hfirst => exact absurd hfirst (hname_ne hname hnames hopen)
    | unbalanced => rfl

/-- **The grammar of path texts.** A text is read as the path that it spells, and refused for what
is wrong with it. -/
theorem parse_grammar (text : String) :
    (∀ path, parse text = .ok path ↔ Spells text path) ∧
      ∀ error, parse text = .error error ↔ Faulty text error := by
  obtain ⟨path, hparse, hspells⟩ | ⟨error, hparse, hfaulty⟩ := spells_or_faulty text
  · refine ⟨fun path' => ⟨fun h => ?_, fun h => ?_⟩, fun error => ⟨fun h => ?_, fun h => ?_⟩⟩
    · cases hparse.symm.trans h
      exact hspells
    · rw [hparse, hspells.path_eq, h.path_eq]
    · cases hparse.symm.trans h
    · exact absurd h hspells.not_faulty
  · refine ⟨fun path => ⟨fun h => ?_, fun h => ?_⟩, fun error' => ⟨fun h => ?_, fun h => ?_⟩⟩
    · cases hparse.symm.trans h
    · exact absurd hfaulty h.not_faulty
    · cases hparse.symm.trans h
      exact hfaulty
    · rw [hparse, hfaulty.unique h]

/-- Back-quotes may open inside a piece; a name that holds nothing is told before an open one. -/
example : pieces "a\x60b.c\x60.\x60\x60.\x60d".toList =
      ["a\x60b.c\x60".toList, "\x60\x60".toList, "\x60d".toList] ∧
    nameOf "a\x60b.c\x60".toList = "ab.c" ∧
    parse "a\x60b.c\x60.\x60\x60.\x60d" = .error (.emptySegment "a\x60b.c\x60.\x60\x60.\x60d") :=
  ⟨rfl, rfl, rfl⟩

end Tabular.Path
