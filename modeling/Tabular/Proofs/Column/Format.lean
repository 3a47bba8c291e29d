import Mathlib.Data.List.DropRight
import Mathlib.Data.Set.Function
import Tabular.Column.Path

/-!
# Paths written and read back

The text of a path quotes a name for its dots only. Blanks at the ends of a name are therefore lost
when the text is read again, and a back-quote inside one is taken for a mark.

* `Text.trimBy_eq_self_iff`: what trimming leaves as it is;
* `Path.forall_of_segments`: what the scan of one name keeps holds of all names of a text;
* `Path.parse_eq_ok_iff`: a text spells a path where the scan finds its names;
* `Path.segments_format`: the scan of the text of a path, name by name;
* **`Path.parse_format_iff`**: the paths that are read back from their texts are the writable ones;
* **`Path.parse_format_of_parse`**: a path that was read is read back just if each of its names
  holds a dot or has no blank at its ends.
-/

namespace Tabular

/-! ## Trimming -/

namespace Text

variable {p : Char → Bool} {cs : List Char} {c : Char}

theorem trimBy_eq_rdropWhile (p : Char → Bool) (cs : List Char) :
    trimBy p cs = (cs.dropWhile p).rdropWhile p :=
  rfl

theorem not_of_getLast?_trimBy (h : c ∈ (trimBy p cs).getLast?) : p c = false := by
  rw [trimBy_eq_rdropWhile] at h
  obtain ⟨hne, rfl⟩ := List.mem_getLast?_eq_getLast h
  exact eq_false_of_ne_true (List.rdropWhile_last_not p _ hne)

theorem not_of_head?_trimBy (h : c ∈ (trimBy p cs).head?) : p c = false := by
  rw [trimBy_eq_rdropWhile] at h
  obtain ⟨later, hlater⟩ := List.head?_eq_some_iff.mp h
  obtain ⟨cut, hcut⟩ := List.rdropWhile_prefix p (l := cs.dropWhile p)
  have hfirst := List.head?_dropWhile_not p cs
  rw [← hcut, hlater] at hfirst
  exact hfirst

/-- Trimming leaves the characters as they are if none to be trimmed is at an end. -/
theorem trimBy_eq_self_iff :
    trimBy p cs = cs ↔ (∀ c ∈ cs.head?, p c = false) ∧ ∀ c ∈ cs.getLast?, p c = false := by
  constructor
  · intro h
    rw [← h]
    exact ⟨fun c => not_of_head?_trimBy, fun c => not_of_getLast?_trimBy⟩
  · rintro ⟨hfirst, hlast⟩
    have hleft : cs.dropWhile p = cs := by
      cases cs with
      | nil => rfl
      | cons c rest => exact List.dropWhile_cons_of_neg (by simp [hfirst c rfl])
    rw [trimBy_eq_rdropWhile, hleft, List.rdropWhile_eq_self_iff]
    intro hne
    simp [hlast _ (List.getLast_mem_getLast? hne)]

theorem trimBy_eq_nil (h : ∀ c ∈ cs, p c = true) : trimBy p cs = [] := by
  rw [trimBy_eq_rdropWhile, List.dropWhile_eq_nil_iff.mpr h, List.rdropWhile_nil]

end Text

namespace Path

variable {quoted marked : Bool} {letters cs : List Char} {name text : String} {path : Path}

/-! ## The names of a text -/

theorem ofList_of_segment? (h : segment? marked letters = some name) :
    name.toList = (if marked then letters else Text.trimChars letters) ∧ name ≠ "" := by
  unfold segment? at h
  generalize (if marked then letters else Text.trimChars letters) = cs at h
  cases cs with
  | nil => cases h
  | cons c rest =>
    cases h
    exact ⟨String.toList_ofList, fun hempty => nomatch String.ofList_eq_empty_iff.mp hempty⟩

/-- What is read between two dots is a name for what holds of it before its first letter and is
kept by a letter and by a back-quote. -/
theorem forall_of_segments {P : String → Prop} {I : Bool → List Char → Prop}
    (hstart : I false []) (htick : tick ∈ cs → ∀ marked letters, I marked letters → I true letters)
    (hletter : ∀ c ∈ cs, c ≠ tick → ∀ marked letters, I marked letters → I marked (c :: letters))
    (hclose : ∀ marked letters name, I marked letters →
      segment? marked letters.reverse = some name → P name)
    (hI : I marked letters) (h : segments quoted marked letters cs = .ok path) :
    path ≠ [] ∧ ∀ name ∈ path, P name := by
  induction cs generalizing quoted marked letters path with
  | nil =>
    unfold segments at h
    split at h
    · cases h
    · split at h
      · next name hname =>
        cases h
        exact ⟨List.cons_ne_nil name [], by simpa using hclose _ _ name hI hname⟩
      · cases h
  | cons c rest ih =>
    have ih {quoted marked : Bool} {letters : List Char} {path : Path} (hI : I marked letters)
        (h : segments quoted marked letters rest = .ok path) : path ≠ [] ∧ ∀ name ∈ path, P name :=
      ih (fun hmem => htick (List.mem_cons_of_mem c hmem))
        (fun d hd => hletter d (List.mem_cons_of_mem c hd)) hI h
    unfold segments at h
    split at h
    · next hc => exact ih (htick (hc ▸ List.mem_cons_self) _ _ hI) h
    · next hc =>
      split at h
      · split at h
        · next name hname =>
          cases hrest : segments false false [] rest with
          | error stop =>
            rw [hrest] at h
            cases h
          | ok later =>
            rw [hrest] at h
            cases h
            refine ⟨List.cons_ne_nil name later, fun n hn => ?_⟩
            rcases List.mem_cons.mp hn with rfl | hn
            · exact hclose _ _ n hI hname
            · exact (ih hstart hrest).2 n hn
        · cases h
      · exact ih (hletter c List.mem_cons_self hc _ _ hI) h

/-! ## Names without a back-quote, names without blanks at their ends -/

/-- No blank character stands at either end of a name. -/
def IsTrimmed (name : String) : Prop :=
  (∀ c ∈ name.toList.head?, Text.isBlank c = false) ∧
    ∀ c ∈ name.toList.getLast?, Text.isBlank c = false

theorem isTrimmed_iff : IsTrimmed name ↔ Text.trimChars name.toList = name.toList :=
  Text.trimBy_eq_self_iff.symm

instance : Decidable (IsTrimmed name) :=
  decidable_of_iff _ isTrimmed_iff.symm

theorem mem_letters_of_segment? (h : segment? marked letters = some name) {c : Char}
    (hc : c ∈ name.toList) : c ∈ letters := by
  rw [(ofList_of_segment? h).1] at hc
  cases marked with
  | true => exact hc
  | false =>
    have hc : c ∈ (letters.dropWhile Text.isBlank).rdropWhile Text.isBlank := hc
    exact (List.dropWhile_suffix Text.isBlank).subset ((List.rdropWhile_prefix Text.isBlank _).subset hc)

theorem isTrimmed_of_segment? (h : segment? false letters = some name) : IsTrimmed name := by
  have hname : name.toList = Text.trimBy Text.isBlank letters := (ofList_of_segment? h).1
  rw [IsTrimmed, hname]
  exact ⟨fun c => Text.not_of_head?_trimBy, fun c => Text.not_of_getLast?_trimBy⟩

/-- A name is read back unmarked just if it has no blank at its ends. -/
theorem segment?_toList (hne : name ≠ "") :
    segment? marked name.toList = some name ↔ marked = true ∨ IsTrimmed name := by
  have hnil : name.toList ≠ [] := fun h => hne (String.toList_eq_nil_iff.mp h)
  constructor
  · intro h
    cases marked with
    | true => exact Or.inl rfl
    | false => exact Or.inr (isTrimmed_of_segment? h)
  · intro h
    have hcs : (if marked then name.toList else Text.trimChars name.toList) = name.toList := by
      cases marked with
      | true => rfl
      | false => exact isTrimmed_iff.mp (h.resolve_left Bool.false_ne_true)
    rw [segment?, hcs, if_neg (by simpa using hnil), String.ofList_toList]

/-! ## The paths of texts -/

/-- A text of blanks has no name. -/
theorem segments_of_blank (h : ∀ c ∈ cs, Text.isBlank c = true)
    (hletters : ∀ c ∈ letters, Text.isBlank c = true) :
    segments false false letters cs = .error .emptySegment := by
  induction cs generalizing letters with
  | nil =>
    have hnone : segment? false letters.reverse = none := by
      rw [segment?, if_neg Bool.false_ne_true, Text.trimChars, Text.trimBy_eq_nil (by simpa using hletters)]
      rfl
    simp [segments, hnone]
  | cons c rest ih =>
    have hc : Text.isBlank c = true := h c List.mem_cons_self
    have htick : c ≠ tick := by
      rintro rfl
      exact absurd hc (by decide)
    have hdot : c ≠ '.' := by
      rintro rfl
      exact absurd hc (by decide)
    rw [segments, if_neg htick, if_neg (by simp [hdot])]
    refine ih (fun d hd => h d (List.mem_cons_of_mem c hd)) fun d hd => ?_
    rcases List.mem_cons.mp hd with rfl | hd
    · exact hc
    · exact hletters d hd

/-- A text spells a path where the scan finds its names. -/
theorem parse_eq_ok_iff : parse text = .ok path ↔ segments false false [] text.toList = .ok path := by
  unfold parse
  split
  · next hblank =>
    rw [segments_of_blank (List.all_eq_true.mp hblank) (List.forall_mem_nil _)]
    exact ⟨nofun, nofun⟩
  · cases segments false false [] text.toList with
    | ok path => simp
    | error stop => cases stop <;> simp

theorem ne_empty_of_parse (h : parse text = .ok path) : path ≠ [] ∧ ∀ name ∈ path, name ≠ "" :=
  forall_of_segments (I := fun _ _ => True) trivial (fun _ _ _ _ => trivial)
    (fun _ _ _ _ _ _ => trivial) (fun _ _ _ _ h => (ofList_of_segment? h).2) trivial
    (parse_eq_ok_iff.mp h)

/-- The back-quotes of a text are marks, never letters. -/
theorem no_tick_of_parse (h : parse text = .ok path) : ∀ name ∈ path, tick ∉ name.toList := by
  refine (forall_of_segments (I := fun _ letters => tick ∉ letters) List.not_mem_nil
    (fun _ _ _ hI => hI) (fun c _ hc _ letters hI => ?_) (fun _ letters name hI hname hmem => ?_)
    List.not_mem_nil (parse_eq_ok_iff.mp h)).2
  · rw [List.mem_cons, not_or]
    exact ⟨hc.symm, hI⟩
  · exact hI (List.mem_reverse.mp (mem_letters_of_segment? hname hmem))

/-- Without a back-quote every name is trimmed. -/
theorem isTrimmed_of_parse (h : parse text = .ok path) (htick : tick ∉ text.toList) :
    ∀ name ∈ path, IsTrimmed name := by
  refine (forall_of_segments (I := fun marked _ => marked = false) rfl
    (fun hmem => absurd hmem htick) (fun _ _ _ _ _ hI => hI)
    (fun marked letters name hI hname => ?_) rfl (parse_eq_ok_iff.mp h)).2
  cases hI
  exact isTrimmed_of_segment? hname

/-! ## The text of a path -/

/-- Letters are read one by one, dots among them only between back-quotes. -/
theorem segments_letters (h : ∀ c ∈ cs, c ≠ tick ∧ (c = '.' → quoted = true)) (rest : List Char) :
    segments quoted marked letters (cs ++ rest) =
      segments quoted marked (cs.reverse ++ letters) rest := by
  induction cs generalizing letters with
  | nil => rfl
  | cons c cs ih =>
    obtain ⟨htick, hdot⟩ := h c List.mem_cons_self
    have hgo : ¬(c = '.' && !quoted) = true := by
      rw [Bool.and_eq_true, decide_eq_true_eq]
      rintro ⟨hc, hquoted⟩
      rw [hdot hc] at hquoted
      cases hquoted
    rw [List.cons_append, segments, if_neg htick, if_neg hgo,
      ih fun d hd => h d (List.mem_cons_of_mem c hd), List.reverse_cons, List.append_assoc]
    rfl

/-- A written name is read letter by letter, between marks where it holds a dot. -/
theorem segments_formatSegment (h : tick ∉ name.toList) (rest : List Char) :
    segments false false [] ((formatSegment name).toList ++ rest) =
      segments false (name.toList.contains '.') name.toList.reverse rest := by
  have hne : ∀ c ∈ name.toList, c ≠ tick := fun c hc heq => h (heq ▸ hc)
  unfold formatSegment
  cases hdot : name.toList.contains '.' with
  | true =>
    rw [if_pos rfl, String.toList_ofList, List.cons_append, List.cons_append, List.append_assoc,
      segments, if_pos rfl, Bool.not_false, segments_letters fun c hc => ⟨hne c hc, fun _ => rfl⟩,
      List.append_nil, List.singleton_append, segments, if_pos rfl, Bool.not_true]
  | false =>
    have hno : ∀ c ∈ name.toList, c = '.' → false = true := by
      rintro c hc rfl
      exact hdot.symm.trans (List.contains_iff_mem.mpr hc)
    rw [if_neg Bool.false_ne_true, segments_letters fun c hc => ⟨hne c hc, hno c hc⟩,
      List.append_nil]

/-- What is read back of a written name. -/
def reread (name : String) : Except Stop String :=
  match segment? (name.toList.contains '.') name.toList with
  | some name => .ok name
  | none => .error .emptySegment

theorem reread_eq_ok_iff (hne : name ≠ "") :
    reread name = .ok name ↔ '.' ∈ name.toList ∨ IsTrimmed name := by
  rw [← List.contains_iff_mem, ← segment?_toList hne, reread]
  cases segment? (name.toList.contains '.') name.toList <;> simp

theorem toList_format_cons (name next : String) (path : Path) :
    (format (name :: next :: path)).toList =
      (formatSegment name).toList ++ '.' :: (format (next :: path)).toList := by
  simp [format, String.intercalate_cons_cons]

/-- The text of a path is read name by name. -/
theorem segments_format (hne : path ≠ []) (h : ∀ name ∈ path, tick ∉ name.toList) :
    segments false false [] (format path).toList = path.mapM reread := by
  induction path with
  | nil => exact absurd rfl hne
  | cons name path ih =>
    have hname := segments_formatSegment (h name List.mem_cons_self)
    rw [List.mapM_cons, reread]
    cases path with
    | nil =>
      have hformat : (format [name]).toList = (formatSegment name).toList ++ [] := by
        simp [format]
      rw [hformat, hname, segments, if_neg Bool.false_ne_true, List.reverse_reverse]
      cases segment? (name.toList.contains '.') name.toList <;> rfl
    | cons next path =>
      rw [toList_format_cons, hname, segments, if_neg (by decide), if_pos (by decide),
        List.reverse_reverse, ih (List.cons_ne_nil next path)
          fun n hn => h n (List.mem_cons_of_mem name hn)]
      cases segment? (name.toList.contains '.') name.toList with
      | none => rfl
      | some name =>
        cases List.mapM reread (next :: path) <;> rfl

theorem mapM_reread_eq_ok_iff :
    path.mapM reread = .ok path ↔ ∀ name ∈ path, reread name = .ok name := by
  induction path with
  | nil => exact ⟨fun _ => List.forall_mem_nil _, fun _ => rfl⟩
  | cons name path ih =>
    rw [List.mapM_cons, List.forall_mem_cons, ← ih]
    cases reread name with
    | error stop => exact ⟨nofun, fun h => nomatch h.1⟩
    | ok name' =>
      cases List.mapM reread path with
      | error stop => exact ⟨nofun, fun h => nomatch h.2⟩
      | ok path' =>
        constructor
        · intro h
          cases h
          exact ⟨rfl, rfl⟩
        · rintro ⟨hname, hpath⟩
          cases hname
          cases hpath
          rfl

/-- A path without back-quotes is read back just if each name is. -/
theorem parse_format_iff_forall (hne : path ≠ []) (hempty : ∀ name ∈ path, name ≠ "")
    (htick : ∀ name ∈ path, tick ∉ name.toList) :
    parse (format path) = .ok path ↔ ∀ name ∈ path, '.' ∈ name.toList ∨ IsTrimmed name := by
  rw [parse_eq_ok_iff, segments_format hne htick, mapM_reread_eq_ok_iff]
  exact forall₂_congr fun name hname => reread_eq_ok_iff (hempty name hname)

/-! ## Main results -/

/-- What a path needs to be read back from its text. -/
structure Writable (path : Path) : Prop where
  ne_nil : path ≠ []
  ne_empty : ∀ name ∈ path, name ≠ ""
  no_tick : ∀ name ∈ path, tick ∉ name.toList
  dot_or_trimmed : ∀ name ∈ path, '.' ∈ name.toList ∨ IsTrimmed name

theorem writable_of_parse_format (h : parse (format path) = .ok path) : Writable path := by
  obtain ⟨hne, hempty⟩ := ne_empty_of_parse h
  have htick := no_tick_of_parse h
  exact ⟨hne, hempty, htick, (parse_format_iff_forall hne hempty htick).mp h⟩

theorem Writable.parse_format (h : Writable path) : parse (format path) = .ok path :=
  (parse_format_iff_forall h.ne_nil h.ne_empty h.no_tick).mpr h.dot_or_trimmed

/-- **The paths that are read back from their texts** are the writable ones, and no two of these
have the same text. -/
theorem parse_format_iff :
    (∀ path, parse (format path) = .ok path ↔ Writable path) ∧
      Set.InjOn format {path | Writable path} := by
  refine ⟨fun path => ⟨writable_of_parse_format, Writable.parse_format⟩, ?_⟩
  intro path hpath path' hpath' heq
  have hparse := Writable.parse_format hpath
  rw [heq, Writable.parse_format hpath'] at hparse
  exact (Except.ok.inj hparse).symm

/-- **A path that was read is read back from its own text** just if each of its names holds a dot
or has no blank at its ends, which is so where the first text had no back-quote. -/
theorem parse_format_of_parse (h : parse text = .ok path) :
    (parse (format path) = .ok path ↔ ∀ name ∈ path, '.' ∈ name.toList ∨ IsTrimmed name) ∧
      (tick ∉ text.toList → parse (format path) = .ok path) := by
  obtain ⟨hne, hempty⟩ := ne_empty_of_parse h
  have hiff := parse_format_iff_forall hne hempty (no_tick_of_parse h)
  exact ⟨hiff, fun htick => hiff.mpr fun name hname => Or.inr (isTrimmed_of_parse h htick name hname)⟩

/-- A name between marks and a bare one with blanks around it, which the text of the path leaves
out. -/
theorem parse_format_of_parse_dotted :
    parse "\x60a.b\x60. c " = .ok ["a.b", "c"] ∧ format ["a.b", "c"] = "\x60a.b\x60.c" ∧
      parse (format ["a.b", "c"]) = .ok ["a.b", "c"] := by
  have h : parse "\x60a.b\x60. c " = .ok ["a.b", "c"] := rfl
  exact ⟨h, rfl, (parse_format_of_parse h).1.mpr (by decide)⟩

/-- A blank between marks belongs to the name, whose text is without marks. -/
theorem not_parse_format_marked :
    ¬∀ text path, parse text = .ok path → parse (format path) = .ok path := by
  intro h
  have hread : parse "\x60 a\x60" = .ok [" a"] := rfl
  have hback : parse (format [" a"]) = .ok ["a"] := rfl
  have hsame : Except.ok ["a"] = Except.ok [" a"] := hback.symm.trans (h _ _ hread)
  exact absurd (Except.ok.inj hsame) (by decide)

end Path

end Tabular
