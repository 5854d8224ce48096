/-
Comma-separated text as Python's `csv` module reads it in its default dialect. Lines end in `\n`, as text mode delivers
them.

- `parse`: `csv.reader`, character by character. A quoted cell may hold commas, line feeds and doubled quotes.
- `DictReader`: the header and the rows behind it as dictionaries; a row that is too short is filled with `None`.
- `parse_unlines`: joined cells without commas, quotes and line feeds are read back.
- `dictReader_unlines`: so a written table is read as its header and its rows.
-/
import Rv32im.Core.Text

namespace Csv

open Text

/-! ## The reader -/

/-- what stands before the next character: nothing of a row, nothing of a cell, a bare cell, a quoted cell, or the quote
that may end one -/
inductive Mode where
  | row
  | cell
  | bare
  | quoted
  | quote
deriving DecidableEq

/-- the rows of a text behind the cells `row` and the characters `cell` of an open row -/
def parseFrom (mode : Mode) (cell : List Char) (row : List (List Char)) : List Char → List (List (List Char))
  | [] => if mode = .row then [] else [row ++ [cell]]
  | c :: s =>
    if mode = .quoted then
      if c = '"' then parseFrom .quote cell row s else parseFrom .quoted (cell ++ [c]) row s
    else if c = '\n' then (if mode = .row then [] else row ++ [cell]) :: parseFrom .row [] [] s
    else if c = ',' then parseFrom .cell [] (row ++ [cell]) s
    else if c = '"' ∧ mode ≠ .bare then
      parseFrom .quoted (if mode = .quote then cell ++ ['"'] else cell) row s
    else parseFrom .bare (cell ++ [c]) row s

def parse (s : List Char) : List (List (List Char)) := parseFrom .row [] [] s

/-- a value of a row; `none` is Python's `None` -/
abbrev Cell := Option (List Char)

/-- a row as a dictionary; a key without a value raises `KeyError` -/
abbrev Row := String → Option Cell

/-- the keys of the header with the cells of a row, the last one of a repeated key; `None` behind a short row -/
def dict (fieldnames : List String) (cells : List (List Char)) : Row := fun key =>
  if key ∈ fieldnames.drop cells.length then some none
  else ((fieldnames.zip cells).reverse.lookup key).map some

/-- `csv.DictReader`, with the rows it yields -/
structure DictReader where
  fieldnames : List String
  rows : List Row

/-- the first row is the header, and empty rows are skipped -/
def dictReader (text : List Char) : DictReader :=
  match parse text with
  | [] => ⟨[], []⟩
  | header :: rows =>
    ⟨header.map String.ofList, (rows.filter fun row => row ≠ []).map (dict (header.map String.ofList))⟩

/-- a row with a cell for every name of the header -/
theorem dict_map {names : List String} {key : String} (f : String → List Char) (h : key ∈ names) :
    dict names (names.map f) key = some (some (f key)) := by
  have hdrop : key ∉ names.drop (names.map f).length := by simp
  have hlookup : ∀ l : List String, key ∈ l → (l.map fun name => (name, f name)).lookup key = some (f key) := by
    intro l hl
    induction l with
    | nil => cases hl
    | cons name l ih =>
      rw [List.map_cons, List.lookup_cons]
      by_cases hkey : key = name
      · subst hkey
        simp
      · have hfalse : (key == name) = false := beq_eq_false_iff_ne.2 hkey
        rw [hfalse]
        exact ih ((List.mem_cons.1 hl).resolve_left hkey)
  have hzip : names.zip (names.map f) = names.map fun name => (name, f name) := by
    simpa using @List.zip_map' _ _ _ id f names
  unfold dict
  rw [if_neg hdrop, hzip, ← List.map_reverse, hlookup _ (List.mem_reverse.2 h)]
  rfl

/-! ## Written tables -/

/-- a cell that needs no quotes -/
def Plain (cell : List Char) : Prop := ∀ c ∈ cell, c ≠ ',' ∧ c ≠ '\n' ∧ c ≠ '"'

def join (row : List (List Char)) : List Char := List.intercalate [','] row

theorem join_cons_cons (cell next : List Char) (row : List (List Char)) :
    join (cell :: next :: row) = cell ++ ',' :: join (next :: row) := by
  unfold join
  rw [List.intercalate_cons_cons, List.append_assoc, List.singleton_append]

theorem join_singleton (cell : List Char) : join [cell] = cell := List.intercalate_singleton

/-- a joined row is one line -/
theorem newline_notMem_join {row : List (List Char)} (h : ∀ cell ∈ row, Plain cell) : '\n' ∉ join row := by
  induction row with
  | nil => exact List.not_mem_nil
  | cons cell row ih =>
    have hcell : '\n' ∉ cell := fun hmem => (h cell List.mem_cons_self '\n' hmem).2.1 rfl
    cases row with
    | nil =>
      rw [join_singleton]
      exact hcell
    | cons next row =>
      rw [join_cons_cons]
      intro hmem
      rcases List.mem_append.1 hmem with hmem | hmem
      · exact hcell hmem
      · rcases List.mem_cons.1 hmem with heq | hmem
        · exact absurd heq (by decide)
        · exact ih (fun d hd => h d (List.mem_cons_of_mem cell hd)) hmem

/-- a bare character goes into its cell -/
theorem parseFrom_char {mode : Mode} (hmode : mode ≠ .quoted) {c : Char} (hc : c ≠ ',' ∧ c ≠ '\n' ∧ c ≠ '"')
    (cell : List Char) (row : List (List Char)) (s : List Char) :
    parseFrom mode cell row (c :: s) = parseFrom .bare (cell ++ [c]) row s := by
  obtain ⟨hcomma, hline, hquote⟩ := hc
  rw [parseFrom, if_neg hmode, if_neg hline, if_neg hcomma, if_neg fun h => hquote h.1]

theorem parseFrom_bare {l : List Char} (h : Plain l) (cell : List Char) (row : List (List Char)) (s : List Char) :
    parseFrom .bare cell row (l ++ s) = parseFrom .bare (cell ++ l) row s := by
  induction l generalizing cell with
  | nil => rw [List.nil_append, List.append_nil]
  | cons c l ih =>
    rw [List.cons_append, parseFrom_char (by decide) (h c List.mem_cons_self),
      ih (fun d hd => h d (List.mem_cons_of_mem c hd)), List.append_assoc, List.singleton_append]

/-- a plain cell, up to the character behind it -/
theorem parseFrom_plain {l : List Char} (h : Plain l) (row : List (List Char)) (s : List Char) :
    ∃ mode, (mode = .cell ∨ mode = .bare) ∧ parseFrom .cell [] row (l ++ s) = parseFrom mode l row s := by
  cases l with
  | nil => exact ⟨.cell, Or.inl rfl, rfl⟩
  | cons c l =>
    refine ⟨.bare, Or.inr rfl, ?_⟩
    rw [List.cons_append, parseFrom_char (by decide) (h c List.mem_cons_self),
      parseFrom_bare fun d hd => h d (List.mem_cons_of_mem c hd)]
    rfl

theorem parseFrom_comma {l : List Char} (h : Plain l) (row : List (List Char)) (s : List Char) :
    parseFrom .cell [] row (l ++ ',' :: s) = parseFrom .cell [] (row ++ [l]) s := by
  obtain ⟨mode, hmode, hparse⟩ := parseFrom_plain h row (',' :: s)
  rw [hparse]
  rcases hmode with rfl | rfl
  · rfl
  · rfl

theorem parseFrom_line {l : List Char} (h : Plain l) (row : List (List Char)) (s : List Char) :
    parseFrom .cell [] row (l ++ '\n' :: s) = (row ++ [l]) :: parse s := by
  obtain ⟨mode, hmode, hparse⟩ := parseFrom_plain h row ('\n' :: s)
  rw [hparse]
  rcases hmode with rfl | rfl
  · rfl
  · rfl

/-- the cells of a line behind the cells `row` -/
theorem parseFrom_join {cells : List (List Char)} (hne : cells ≠ []) (h : ∀ cell ∈ cells, Plain cell)
    (row : List (List Char)) (s : List Char) :
    parseFrom .cell [] row (join cells ++ '\n' :: s) = (row ++ cells) :: parse s := by
  induction cells generalizing row with
  | nil => exact absurd rfl hne
  | cons cell cells ih =>
    have hcell := h cell List.mem_cons_self
    cases cells with
    | nil => rw [join_singleton, parseFrom_line hcell]
    | cons next cells =>
      rw [join_cons_cons, List.append_assoc, List.cons_append, parseFrom_comma hcell,
        ih (List.cons_ne_nil next cells) (fun d hd => h d (List.mem_cons_of_mem cell hd)), List.append_assoc,
        List.singleton_append]

/-- before a character that ends no line, a row and a cell begin alike -/
theorem parseFrom_row {s : List Char} (h : ∃ c t, s = c :: t ∧ c ≠ '\n') :
    parse s = parseFrom .cell [] [] s := by
  obtain ⟨c, t, rfl, hc⟩ := h
  simp [parse, parseFrom, hc]

/-- a row of at least two cells without commas, quotes and line feeds -/
structure Writable (row : List (List Char)) : Prop where
  wide : 2 ≤ row.length
  plain : ∀ cell ∈ row, Plain cell

theorem parse_join {row : List (List Char)} (h : Writable row) (s : List Char) :
    parse (join row ++ '\n' :: s) = row :: parse s := by
  have hne : row ≠ [] := by
    rintro rfl
    exact absurd h.wide (by decide)
  have hhead : ∃ c t, join row ++ '\n' :: s = c :: t ∧ c ≠ '\n' := by
    match row, h with
    | cell :: next :: row, h =>
      rw [join_cons_cons]
      cases cell with
      | nil => exact ⟨',', _, rfl, by decide⟩
      | cons c cell => exact ⟨c, _, rfl, (h.plain _ List.mem_cons_self c List.mem_cons_self).2.1⟩
  rw [parseFrom_row hhead, parseFrom_join hne h.plain, List.nil_append]

/-- **A written table is read back.** -/
theorem parse_unlines {rows : List (List (List Char))} (h : ∀ row ∈ rows, Writable row) :
    parse (unlines (rows.map join)) = rows := by
  induction rows with
  | nil => rfl
  | cons row rows ih =>
    have hcons : unlines ((row :: rows).map join) = join row ++ '\n' :: unlines (rows.map join) := by
      simp [unlines]
    rw [hcons, parse_join (h row List.mem_cons_self), ih fun r hr => h r (List.mem_cons_of_mem row hr)]

/-- a written table, as dictionaries -/
theorem dictReader_unlines {header : List String} {rows : List (List (List Char))}
    (hheader : Writable (header.map String.toList)) (h : ∀ row ∈ rows, Writable row) :
    dictReader (unlines ((header.map String.toList :: rows).map join)) = ⟨header, rows.map (dict header)⟩ := by
  have hall : ∀ row ∈ header.map String.toList :: rows, Writable row := by
    intro row hrow
    rcases List.mem_cons.1 hrow with rfl | hrow
    · exact hheader
    · exact h row hrow
  have hnames : (header.map String.toList).map String.ofList = header := by
    rw [List.map_map]
    exact (List.map_congr_left fun name _ => String.ofList_toList).trans (List.map_id header)
  have hrows : (rows.filter fun row => decide (row ≠ [])) = rows := by
    refine List.filter_eq_self.2 fun row hrow => decide_eq_true ?_
    rintro rfl
    exact absurd (h [] hrow).wide (by decide)
  unfold dictReader
  rw [parse_unlines hall]
  simp only [hnames, hrows]

end Csv
