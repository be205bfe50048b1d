import GrammarSuite.Report.Markdown
import GrammarSuite.Proofs.Case.Labelling
import GrammarSuite.Proofs.Text.Feeds
import Mathlib.Data.List.Forall2

/-!
# Reading the Markdown report

The table of the Markdown report is read back row by row. A row is cut at the bars that no backslash
stands in front of, and in the code of its third cell a backslash in front of a bar is taken away.
This gives back any content on one line: the escape puts a backslash in front of each bar, and so
every bar of the code belongs to a pair, also where the content has backslashes of its own.

## Main definitions

* `Report.cutAtBars`: the pieces of a row
* `Report.restoreBars`: a content from its code
* `Report.tableRows`: the rows of the table of cases
* `TestCase.IsTabular`: a case that has a row of its own
* `Report.IsRowOf`: a row that shows a case

## Main results

* `Report.restoreBars_escapeBars`: the escape is undone
* `Report.cutAtBars_row`: the cells of a row
* `Report.tableRows_markdown`: the table has one row for each case
-/

namespace GrammarSuite

open Json (Misuse Value)

/-- A case with a row of its own: all that the row shows is on one line, and only the content, which
is a text, may have bars. -/
structure TestCase.IsTabular (c : TestCase) : Prop where
  isText : ∃ content, c.content = .text content
  content : Text.OnOneLine c.content.display
  id : Text.OnOneLine c.id.display
  description : Text.OnOneLine c.description.display
  idBare : '|' ∉ c.id.display.toList
  descriptionBare : '|' ∉ c.description.display.toList

namespace Report

variable {p rest s : List Char} {escaped : Bool} {c : TestCase} {row : String}

/-! ## Cells -/

/-- The pieces of characters between their bars, where it is said whether a backslash stands in
front of the first one. A bar behind a backslash is part of a piece. -/
def pieces : Bool → List Char → List (List Char)
  | _, [] => [[]]
  | escaped, c :: s =>
    if c = '|' ∧ escaped = false then [] :: pieces false s
    else Text.consLine c (pieces (c = '\\') s)

/-- A row cut at the bars that no backslash stands in front of. -/
def cutAtBars (row : String) : List String := (pieces false row.toList).map String.ofList

theorem pieces_nil (escaped : Bool) : pieces escaped [] = [[]] := rfl

theorem pieces_cons (escaped : Bool) (c : Char) (s : List Char) :
    pieces escaped (c :: s) =
      if c = '|' ∧ escaped = false then [] :: pieces false s
      else Text.consLine c (pieces (c = '\\') s) := rfl

theorem pieces_ne_nil (escaped : Bool) (s : List Char) : pieces escaped s ≠ [] := by
  cases s with
  | nil => simp [pieces_nil]
  | cons c s =>
    rw [pieces_cons]
    split
    · simp
    · cases pieces (c = '\\') s <;> simp [Text.consLine]

/-- What is put in front of a first piece does not change the number of pieces. -/
theorem eq_singleton_of_consLine {c : Char} {ls : List (List Char)} (hne : ls ≠ [])
    (h : Text.consLine c ls = [c :: p]) : ls = [p] := by
  obtain ⟨l, ls, rfl⟩ := List.exists_cons_of_ne_nil hne
  simpa [Text.consLine] using h

/-- A piece is closed by a blank and a bar. -/
theorem pieces_append (h : pieces escaped p = [p]) (rest : List Char) :
    pieces escaped (p ++ ' ' :: '|' :: rest) = (p ++ [' ']) :: pieces false rest := by
  induction p generalizing escaped with
  | nil => simp [pieces_cons, Text.consLine]
  | cons c p ih =>
    rw [pieces_cons] at h
    rw [List.cons_append, pieces_cons]
    split_ifs at h ⊢ with hbar
    · simp at h
    · rw [ih (eq_singleton_of_consLine (pieces_ne_nil _ p) h)]
      rfl

/-- A cell is a piece between blanks. -/
theorem pieces_cell (h : pieces false p = [p]) (rest : List Char) :
    pieces false (' ' :: p ++ ' ' :: '|' :: rest) = (' ' :: p ++ [' ']) :: pieces false rest := by
  rw [List.cons_append, pieces_cons, if_neg (by simp)]
  simp only [show decide (' ' = '\\') = false by decide]
  rw [pieces_append h]
  rfl

/-- A text without bars is one piece. -/
theorem pieces_of_notMem (h : '|' ∉ p) : pieces escaped p = [p] := by
  induction p generalizing escaped with
  | nil => rfl
  | cons c p ih =>
    obtain ⟨hc, hp⟩ := not_or.1 (List.mem_cons.not.1 h)
    rw [pieces_cons, if_neg fun hbar => hc hbar.1.symm, ih hp]
    rfl

/-! ## The escape -/

/-- A content from its code: a backslash in front of a bar is taken away. -/
def restoreBars : List Char → List Char
  | '\\' :: '|' :: s => '|' :: restoreBars s
  | c :: s => c :: restoreBars s
  | [] => []

/-- The characters of a text with a backslash in front of every bar. -/
def escaping (s : List Char) : List Char := s.flatMap fun c => if c = '|' then ['\\', '|'] else [c]

theorem toList_escapeBars (s : String) : (escapeBars s).toList = escaping s.toList :=
  String.toList_ofList

theorem escaping_bar_cons (s : List Char) : escaping ('|' :: s) = '\\' :: '|' :: escaping s := by
  simp [escaping]

theorem escaping_cons {c : Char} (hc : c ≠ '|') (s : List Char) :
    escaping (c :: s) = c :: escaping s := by
  simp [escaping, hc]

/-- No bar stands at the front, where a backslash of the text would be taken for its escape. -/
theorem escaping_ne_bar_cons (s rest : List Char) : escaping s ≠ '|' :: rest := by
  cases s with
  | nil => simp [escaping]
  | cons c s =>
    by_cases hc : c = '|'
    · subst hc
      simp [escaping_bar_cons]
    · simp [escaping_cons hc, hc]

/-- **The escape is undone**, whatever the text. -/
theorem restoreBars_escaping (s : List Char) : restoreBars (escaping s) = s := by
  induction s with
  | nil => rfl
  | cons c s ih =>
    by_cases hc : c = '|'
    · subst hc
      rw [escaping_bar_cons, restoreBars, ih]
    · rw [escaping_cons hc, restoreBars, ih]
      rintro rest rfl hrest
      exact escaping_ne_bar_cons s rest hrest

/-- An escaped text is part of one piece. -/
theorem pieces_escaping (hp : ∀ escaped, pieces escaped p = [p]) :
    pieces escaped (escaping s ++ p) = [escaping s ++ p] := by
  induction s generalizing escaped with
  | nil => exact hp escaped
  | cons c s ih =>
    by_cases hc : c = '|'
    · subst hc
      rw [escaping_bar_cons, List.cons_append, List.cons_append, pieces_cons, if_neg (by simp),
        pieces_cons, if_neg (by simp), ih]
      rfl
    · rw [escaping_cons hc, List.cons_append, pieces_cons, if_neg fun hbar => hc hbar.1, ih]
      rfl

theorem onOneLine_escapeBars {s : String} : Text.OnOneLine (escapeBars s) ↔ Text.OnOneLine s := by
  rw [Text.OnOneLine, Text.OnOneLine, toList_escapeBars, escaping, List.mem_flatMap, not_iff_not]
  constructor
  · rintro ⟨c, hc, hmem⟩
    split_ifs at hmem
    · simp at hmem
    · rwa [List.mem_singleton.1 hmem]
  · exact fun h => ⟨'\n', h, by simp⟩

/-! ## Rows -/

/-- A row shows a case: it is cut into the identifier, the category, the content as code and the
description, each between blanks, and nothing outside the outer bars. Without the escape the code is
the content. -/
def IsRowOf (row : String) (c : TestCase) : Prop :=
  ∃ code : String,
    cutAtBars row = ["", " " ++ c.id.display ++ " ", " " ++ c.category.name ++ " ",
      " " ++ codeMark ++ code ++ codeMark ++ " ", " " ++ c.description.display ++ " ", ""] ∧
    c.content = .text (String.ofList (restoreBars code.toList))

theorem markdownRow_eq_ok_iff : markdownRow c = .ok row ↔
    ∃ content, c.content = .text content ∧
      row = "| " ++ c.id.display ++ " | " ++ c.category.name ++ " | " ++ codeMark ++
        escapeBars content ++ codeMark ++ " | " ++ c.description.display ++ " |" := by
  rw [markdownRow]
  cases c.content <;> simp [eq_comm]

/-- A cell between blanks. -/
theorem ofList_cell (s : String) : String.ofList (' ' :: s.toList ++ [' ']) = " " ++ s ++ " " := by
  rw [← String.toList_inj]
  simp

/-- Cells without open bars are found again between the bars of a row. -/
theorem cutAtBars_row {i k l d : String} (hi : pieces false i.toList = [i.toList])
    (hk : pieces false k.toList = [k.toList]) (hl : pieces false l.toList = [l.toList])
    (hd : pieces false d.toList = [d.toList]) :
    cutAtBars ("| " ++ i ++ " | " ++ k ++ " | " ++ l ++ " | " ++ d ++ " |") =
      ["", " " ++ i ++ " ", " " ++ k ++ " ", " " ++ l ++ " ", " " ++ d ++ " ", ""] := by
  have hrow : ("| " ++ i ++ " | " ++ k ++ " | " ++ l ++ " | " ++ d ++ " |").toList =
      '|' :: (' ' :: i.toList ++ ' ' :: '|' :: (' ' :: k.toList ++ ' ' :: '|' ::
        (' ' :: l.toList ++ ' ' :: '|' :: (' ' :: d.toList ++ ' ' :: '|' :: [])))) := by
    simp
  rw [cutAtBars, hrow, pieces_cons, if_pos ⟨rfl, rfl⟩, pieces_cell hi, pieces_cell hk,
    pieces_cell hl, pieces_cell hd]
  simp only [pieces_nil, List.map_cons, List.map_nil, ofList_cell]

/-- **The cells of a row.** -/
theorem isRowOf_of_markdownRow (hc : c.IsTabular) (h : markdownRow c = .ok row) : IsRowOf row c := by
  obtain ⟨content, hcontent, rfl⟩ := markdownRow_eq_ok_iff.1 h
  refine ⟨escapeBars content, ?_, ?_⟩
  · have hcategory : '|' ∉ c.category.name.toList := by cases c.category <;> decide
    have hmark : ∀ escaped, pieces escaped ['\x60'] = [['\x60']] := by decide
    have hcode : pieces false (codeMark ++ escapeBars content ++ codeMark).toList =
        [(codeMark ++ escapeBars content ++ codeMark).toList] := by
      have hlist : (codeMark ++ escapeBars content ++ codeMark).toList =
          '\x60' :: (escaping content.toList ++ ['\x60']) := by
        simp [codeMark, toList_escapeBars]
      rw [hlist, pieces_cons, if_neg (by simp), pieces_escaping hmark]
      rfl
    have hcut := cutAtBars_row (pieces_of_notMem hc.idBare) (pieces_of_notMem hcategory) hcode
      (pieces_of_notMem hc.descriptionBare)
    simpa only [String.append_assoc] using hcut
  · rw [toList_escapeBars, restoreBars_escaping, String.ofList_toList, hcontent]

/-! ## The table -/

/-- The line between the head of the table of cases and its rows. -/
def tableHead : String := "|----|----------|---------|-------------|"

/-- The rows of the table of cases: the lines behind its head, up to an empty one. -/
def tableRows (text : String) : List String :=
  (Text.behindLast tableHead (Text.feedLines text)).takeWhile (· ≠ "")

/-- A row is one line, which is neither empty nor the head of a table. -/
theorem line_of_markdownRow (hc : c.IsTabular) (h : markdownRow c = .ok row) :
    Text.OnOneLine row ∧ row ≠ "" ∧ row ≠ tableHead := by
  obtain ⟨content, hcontent, rfl⟩ := markdownRow_eq_ok_iff.1 h
  refine ⟨?_, ?_⟩
  · have hline : Text.OnOneLine content := by simpa [hcontent, Value.display] using hc.content
    have hcategory : Text.OnOneLine c.category.name := by cases c.category <;> decide
    have hmark : Text.OnOneLine codeMark := by decide
    have hends : Text.OnOneLine "| " ∧ Text.OnOneLine " | " ∧ Text.OnOneLine " |" := by decide
    simp only [Text.onOneLine_append, onOneLine_escapeBars]
    exact ⟨⟨⟨⟨⟨⟨⟨⟨⟨⟨hends.1, hc.id⟩, hends.2.1⟩, hcategory⟩, hends.2.1⟩, hmark⟩, hline⟩, hmark⟩,
      hends.2.1⟩, hc.description⟩, hends.2.2⟩
  · -- The second character of a row is a blank.
    simp only [String.append_assoc, ne_eq, ← String.toList_inj, String.toList_append]
    exact ⟨by simp, by simp [tableHead]⟩

/-- Each row is related to its case as every row of a case is. -/
theorem forall₂_of_mapM {R : String → TestCase → Prop} {cases : List TestCase} {rows : List String}
    (hR : ∀ c ∈ cases, ∀ row, markdownRow c = .ok row → R row c)
    (h : cases.mapM markdownRow = .ok rows) : List.Forall₂ R rows cases := by
  induction cases generalizing rows with
  | nil =>
    cases h
    exact .nil
  | cons c cases ih =>
    obtain ⟨hc, hcases⟩ := List.forall_mem_cons.1 hR
    rw [List.mapM_cons] at h
    obtain ⟨row, hrow, h⟩ := Action.bind_eq_ok_iff.1 h
    obtain ⟨rest, hrest, h⟩ := Action.bind_eq_ok_iff.1 h
    cases h
    exact .cons (hc row hrow) (ih hcases hrest)

/-- All contents that are texts have rows. -/
theorem exists_mapM_markdownRow {cases : List TestCase} (h : ∀ c ∈ cases, c.IsTabular) :
    ∃ rows, cases.mapM markdownRow = .ok rows := by
  induction cases with
  | nil => exact ⟨[], rfl⟩
  | cons c cases ih =>
    obtain ⟨hc, hcases⟩ := List.forall_mem_cons.1 h
    obtain ⟨content, hcontent⟩ := hc.isText
    obtain ⟨rows, hrows⟩ := ih hcases
    exact ⟨_, by rw [List.mapM_cons, markdownRow_eq_ok_iff.2 ⟨content, hcontent, rfl⟩, hrows]; rfl⟩

/-- The report ends with the table. -/
theorem exists_of_markdownLines {r : Report} {ls : List String} (h : r.markdownLines = .ok ls) :
    ∃ front rows, r.cases.mapM markdownRow = .ok rows ∧
      ls = front ++ tableHead :: (rows ++ [""]) := by
  simp only [markdownLines, Action.bind_eq_ok_iff] at h
  obtain ⟨now, -, elapsed, -, valid, -, invalid, -, extreme, -, length, -, depth, -, operators, -,
    rows, hrows, h⟩ := h
  have hlast : ∀ {front : List String}, front.getLast? = some tableHead →
      front ++ rows ++ [""] = ls → ∃ before, ls = before ++ tableHead :: (rows ++ [""]) := by
    rintro front hfront rfl
    refine ⟨front.dropLast, ?_⟩
    conv_lhs => rw [← List.dropLast_append_getLast? _ hfront]
    simp
  obtain ⟨front, hfront⟩ := hlast (by rw [List.getLast?_append]; rfl) (Except.ok.inj h)
  exact ⟨front, rows, hrows, hfront⟩

/-- **The table has one row for each case**, in order. -/
theorem tableRows_of_markdown {r : Report} (h : ∀ c ∈ r.cases, c.IsTabular) {text : String}
    (htext : r.markdown = .ok text) : List.Forall₂ IsRowOf (tableRows text) r.cases := by
  obtain ⟨ls, hls, rfl⟩ := Action.map_eq_ok_iff.1 htext
  obtain ⟨front, rows, hrows, rfl⟩ := exists_of_markdownLines hls
  have hpairs : List.Forall₂ (fun row c => (Text.OnOneLine row ∧ row ≠ "" ∧ row ≠ tableHead) ∧
      IsRowOf row c) rows r.cases :=
    forall₂_of_mapM (fun c hc row hrow => ⟨line_of_markdownRow (h c hc) hrow,
      isRowOf_of_markdownRow (h c hc) hrow⟩) hrows
  obtain ⟨hlines, hshown⟩ := (List.forall₂_and_left _ _).1 hpairs
  have hbehind : Text.behindLast tableHead
      (Text.feedLines (Text.unlines (front ++ tableHead :: (rows ++ [""])))) = rows ++ [""] := by
    refine Text.behindLast_feedLines_unlines front (by decide) ?_ ?_
    · exact List.forall_mem_append.2 ⟨fun row hrow => (hlines row hrow).1, by decide⟩
    · rw [List.mem_append]
      rintro (hmem | hmem)
      · exact (hlines _ hmem).2.2 rfl
      · exact absurd hmem (by decide)
  have hrows : (rows ++ [""]).takeWhile (· ≠ "") = rows := by
    rw [List.takeWhile_append_of_pos fun row hrow => by simpa using (hlines row hrow).2.1]
    simp
  rwa [tableRows, hbehind, hrows]

/-- A report on the figures of cases can be made. -/
theorem exists_markdown {r : Report} {m : Metrics} {now : Instant}
    (h : ∀ c ∈ r.cases, c.IsTabular) (hfigures : r.figures = m.figures) (hnow : r.now = .ok now)
    (htotal : m.totalOperators.toValue.isWritable = true) : ∃ text, r.markdown = .ok text := by
  obtain ⟨rows, hrows⟩ := exists_mapM_markdownRow h
  have hshown : m.totalOperators.toValue.shown = .ok m.totalOperators.toValue.display := by
    rw [Value.shown, Value.written, if_pos htotal]
  obtain ⟨ls, hls⟩ : ∃ ls, r.markdownLines = .ok ls := by
    simp only [markdownLines, Action.bind_eq_ok_iff, hfigures]
    exact ⟨_, now, hnow, _, rfl, _, rfl, _, rfl, _, rfl, _, rfl, _, rfl, _, hshown, rows, hrows, rfl⟩
  exact ⟨Text.unlines ls, by rw [markdown, hls]; rfl⟩

/-- **The rows of the Markdown report are read back.** Where all that the rows show is on one line
and only contents have bars, the table has one row for each case, in order; a row is cut into the
four cells of its case, and the escape of the content is undone. A report on the figures of cases
can be made if the number of operators can be written. -/
theorem markdown_rows_are_read_back {r : Report} (h : ∀ c ∈ r.cases, c.IsTabular) :
    (∀ text, r.markdown = .ok text → List.Forall₂ IsRowOf (tableRows text) r.cases) ∧
    ∀ (m : Metrics) (now : Instant), r.figures = m.figures → r.now = .ok now →
      m.totalOperators.toValue.isWritable = true → ∃ text, r.markdown = .ok text :=
  ⟨fun _ htext => tableRows_of_markdown h htext, fun _ _ hfigures hnow htotal =>
    exists_markdown h hfigures hnow htotal⟩

/-- A report on one case, whose content has bars at both ends, one of them behind a backslash of its
own. -/
def barredReport : Report where
  cases := [{
    id := .text "VALID_0001"
    content := .text "|a\\|b\\\\|"
    category := .valid
    description := .text "bars"
    created := ⟨2024, 1, 31, 12, 0, 0, 0, none⟩ }]
  figures := Figures.usual
  now := .ok ⟨2024, 1, 31, 12, 0, 1, 0, none⟩

theorem barredReport_rows_are_read_back :
    (∀ c ∈ barredReport.cases, c.IsTabular) ∧
    ∃ text, barredReport.markdown = .ok text ∧
      List.Forall₂ IsRowOf (tableRows text) barredReport.cases := by
  have h : ∀ c ∈ barredReport.cases, c.IsTabular := by
    intro c hc
    obtain rfl := List.mem_singleton.1 hc
    exact ⟨⟨_, rfl⟩, by decide, by decide, by decide, by decide, by decide⟩
  obtain ⟨hrows, hmade⟩ := markdown_rows_are_read_back h
  have htotal : (Json.Number.whole 0).toValue.isWritable = true := by
    simp [Json.Number.toValue, Value.isWritable, Value.unwritable_pos]
  obtain ⟨text, htext⟩ := hmade {} _ rfl rfl htotal
  exact ⟨h, text, htext, hrows text htext⟩

end Report

end GrammarSuite
