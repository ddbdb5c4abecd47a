import Keypad.Proofs.Toml.Line

/-!
# Documents of assignments

A document that has one assignment on each line, all of different keys, denotes the table of these
assignments in their order.

## Main definitions

* `Line`: an assignment with the text of its value; `Line.IsRead`

## Main results

* `statements?_lines`: the lines are read one by one
* `build?_lines`: assignments of different keys are all kept
* `parse?_lines`: the table of a document
-/

namespace Keypad.Toml

/-- A line that assigns a value, as it is written, to a key. -/
structure Line where
  key : Text
  written : Text
  value : Value

namespace Line

/-- The characters of a line. -/
def text (line : Line) : Text := line.key ++ " = ".toList ++ line.written ++ ['\n']

def statement (line : Line) : Statement := .assignment [] line.key line.value

def entry (line : Line) : Text × Value := (line.key, line.value)

/-- Whether the key stands without quotes, and the value is read as it should be. -/
structure IsRead (line : Line) : Prop where
  key_ne_nil : line.key ≠ []
  key_chars : ∀ c ∈ line.key, isKeyChar c = true
  written : IsWritten line.written line.value

end Line

variable {line : Line} {lines : List Line} {entries : Entries} {more : Text} {limit depth : Nat}

/-- What begins with a character of one kind begins with no other. -/
theorem cons_ne_of_kind {kind : Char → Bool} {c d : Char} (hc : kind c = true)
    (hd : kind d = false) {s t : Text} : c :: s ≠ d :: t :=
  fun heq => ne_of_kind hc hd (List.cons.inj heq).1

theorem skipBlanks_of_isKeyChar {c : Char} (hc : isKeyChar c = true) (rest : Text) :
    skipBlanks (c :: rest) = c :: rest := by
  have hspace : c ≠ ' ' := ne_of_kind hc (by decide)
  have htab : c ≠ '\t' := ne_of_kind hc (by decide)
  exact List.dropWhile_cons_of_neg (by simp [isBlank, hspace, htab])

/-- A key without quotes is read up to the blank behind it. -/
theorem simpleKey?_append {key : Text} (hne : key ≠ []) (h : ∀ c ∈ key, isKeyChar c = true)
    (rest : Text) : simpleKey? (key ++ ' ' :: rest) = some (key, ' ' :: rest) := by
  obtain ⟨c, tail, rfl⟩ := List.exists_cons_of_ne_nil hne
  have hc := h c List.mem_cons_self
  have htake : (c :: tail ++ ' ' :: rest).takeWhile isKeyChar = c :: tail := by
    rw [List.takeWhile_append_of_pos h]
    simp [isKeyChar]
  have hdrop : (c :: tail ++ ' ' :: rest).dropWhile isKeyChar = ' ' :: rest := by
    rw [List.dropWhile_append_of_pos h]
    rfl
  unfold simpleKey?
  split
  · rename_i heq
    exact absurd heq (cons_ne_of_kind hc (by decide))
  · rename_i heq
    exact absurd heq (cons_ne_of_kind hc (by decide))
  · rw [htake, hdrop]
    rfl

/-- A line is read as its key and its value. -/
theorem keyValue?_line (h : line.IsRead) (depth : Nat) (more : Text) :
    keyValue? (value? (depth + 1)) (line.text ++ more) =
      some ([], line.key, line.value, '\n' :: more) := by
  obtain ⟨c, tail, hcons⟩ := List.exists_cons_of_ne_nil h.key_ne_nil
  have htext : line.text ++ more =
      line.key ++ ' ' :: ('=' :: ' ' :: (line.written ++ '\n' :: more)) := by
    simp [Line.text]
  have hskip : skipBlanks (line.text ++ more) = line.text ++ more := by
    rw [htext, hcons]
    exact skipBlanks_of_isKeyChar (h.key_chars c (hcons ▸ List.mem_cons_self)) _
  have hparts : keyParts? (keyLimit - 1) (line.text ++ more) =
      some ([line.key], '=' :: ' ' :: (line.written ++ '\n' :: more)) := by
    -- one part is far below the limit, so the reader may go on to the equals sign
    change keyParts? (keyLimit - 2 + 1) (line.text ++ more) = _
    rw [keyParts?, hskip, htext, simpleKey?_append h.key_ne_nil h.key_chars]
    rfl
  have hvalue : value? (depth + 1) (skipBlanks (' ' :: (line.written ++ '\n' :: more))) =
      some (line.value, '\n' :: more) := by
    change value? (depth + 1) (skipBlanks (line.written ++ '\n' :: more)) = _
    rw [h.written.skipBlanks_eq, h.written.value?_eq]
  rw [keyValue?, key?, hparts]
  simp only [Option.bind_eq_bind, Option.bind_some, List.getLast?_singleton, Option.pure_def,
    List.dropLast_singleton, hvalue]

/-- The first line of some is read as its assignment. -/
theorem statements?_line (h : line.IsRead) (limit : Nat) (more : Text) :
    statements? (limit + 1) (line.text ++ more) =
      (statements? limit more).map (line.statement :: ·) := by
  obtain ⟨c, tail, hcons⟩ := List.exists_cons_of_ne_nil h.key_ne_nil
  have hc := h.key_chars c (hcons ▸ List.mem_cons_self)
  have hassignment : assignment? (line.text ++ more) = some (line.statement, more) := by
    rw [assignment?]
    -- the value of a line holds no others, so any limit of nesting will do
    change (keyValue? (value? (nestingLimit - 2 + 1)) (line.text ++ more) >>= _) = _
    rw [keyValue?_line h]
    rfl
  obtain ⟨rest, hrest⟩ : ∃ rest, line.text ++ more = c :: rest := by
    rw [Line.text, hcons]
    exact ⟨_, rfl⟩
  have hnewline : newline? (c :: rest) = none := by
    unfold newline?
    split
    · rename_i heq
      exact absurd heq (cons_ne_of_kind hc (by decide))
    · rename_i heq
      exact absurd heq (cons_ne_of_kind hc (by decide))
    · rfl
  rw [statements?, hrest, skipBlanks_of_isKeyChar hc]
  split
  · rename_i heq
    cases heq
  · rename_i heq
    exact absurd heq (cons_ne_of_kind hc (by decide))
  · rename_i heq
    exact absurd heq (cons_ne_of_kind hc (by decide))
  · rw [hnewline, ← hrest, hassignment]
    dsimp only
    rw [Option.bind_eq_bind, Option.bind_some]
    cases statements? limit more with
    | none => rfl
    | some statements => rfl

/-- **The lines of a document** are read one by one. -/
theorem statements?_lines (h : ∀ line ∈ lines, line.IsRead) (hlimit : lines.length < limit) :
    statements? limit (lines.flatMap Line.text) = some (lines.map Line.statement) := by
  induction lines generalizing limit with
  | nil =>
    obtain ⟨limit, rfl⟩ := Nat.exists_eq_add_of_lt hlimit
    rfl
  | cons line lines ih =>
    obtain ⟨limit, rfl⟩ : ∃ n, limit = n + 1 := ⟨limit - 1, by omega⟩
    rw [List.flatMap_cons, statements?_line (h line List.mem_cons_self),
      ih (fun l hl => h l (List.mem_cons_of_mem _ hl)) (Nat.lt_of_succ_lt_succ hlimit)]
    rfl

/-! ## The table of a document -/

theorem get?_eq_none_iff {key : Text} :
    get? entries key = none ↔ key ∉ entries.map Prod.fst := by
  simp only [get?, Option.map_eq_none_iff, List.find?_eq_none, beq_iff_eq, List.mem_map]
  exact ⟨fun h ⟨entry, hmem, heq⟩ => h entry hmem heq, fun h entry hmem heq =>
    h ⟨entry, hmem, heq⟩⟩

/-- An assignment of a new key to the whole document adds an entry. -/
theorem perform?_line (h : line.key ∉ entries.map Prod.fst) :
    perform? (entries, []) line.statement = some (entries ++ [line.entry], []) := by
  have hnew := get?_eq_none_iff.mpr h
  simp [perform?, Line.statement, Line.entry, within?, assign?, insert?, hnew]

/-- **Assignments of different keys** are all kept, in their order. -/
theorem foldlM_perform?_lines
    (h : (entries.map Prod.fst ++ lines.map Line.key).Nodup) :
    (lines.map Line.statement).foldlM perform? (entries, []) =
      some (entries ++ lines.map Line.entry, []) := by
  induction lines generalizing entries with
  | nil => simp
  | cons line lines ih =>
    have hnew : line.key ∉ entries.map Prod.fst := fun hmem =>
      (List.nodup_append.mp h).2.2 _ hmem _ List.mem_cons_self rfl
    -- the keys that are there and those to come stay the same ones, in the same order
    have hrest : ((entries ++ [line.entry]).map Prod.fst ++ lines.map Line.key).Nodup := by
      simpa [Line.entry] using h
    rw [List.map_cons, List.foldlM_cons, perform?_line hnew, Option.bind_eq_bind,
      Option.bind_some, ih hrest]
    simp

theorem build?_lines (h : (lines.map Line.key).Nodup) :
    build? (lines.map Line.statement) = some (lines.map Line.entry) := by
  have hnew : (([] : Entries).map Prod.fst ++ lines.map Line.key).Nodup := h
  rw [build?, foldlM_perform?_lines hnew]
  rfl

/-- Each line has some characters. -/
theorem length_le_length_flatMap (lines : List Line) :
    lines.length ≤ (lines.flatMap Line.text).length := by
  induction lines with
  | nil => exact Nat.le_refl 0
  | cons line lines ih =>
    rw [List.flatMap_cons, List.length_append, List.length_cons]
    have hpos : 0 < line.text.length := by simp [Line.text]
    omega

/-- **A document of assignments** of different keys denotes the table of them. -/
theorem parse?_lines (h : ∀ line ∈ lines, line.IsRead) (hkeys : (lines.map Line.key).Nodup) :
    parse? (lines.flatMap Line.text) = some (lines.map Line.entry) := by
  have hmark : dropMark (lines.flatMap Line.text) = lines.flatMap Line.text := by
    cases lines with
    | nil => rfl
    | cons line lines =>
      have hread := h line List.mem_cons_self
      obtain ⟨c, tail, hcons⟩ := List.exists_cons_of_ne_nil hread.key_ne_nil
      rw [List.flatMap_cons, Line.text, hcons]
      unfold dropMark
      split
      · rename_i heq
        have hc := hread.key_chars c (hcons ▸ List.mem_cons_self)
        exact absurd heq (cons_ne_of_kind hc (by decide))
      · rfl
  rw [parse?, hmark, statements?_lines h (Nat.lt_succ_of_le (length_le_length_flatMap lines))]
  exact build?_lines hkeys

end Keypad.Toml
