import GrammarSuite.Proofs.Grammar.Reading
import GrammarSuite.Proofs.Text.Lines

/-!
# The tables of a reader

A reader holds what the rules of the text say that it has read last, and nothing else. Its two
lists of names are in the order in which the names stand in the rules, the head of a rule before its
bodies. A line that is no rule is found out before anything of it is entered, so that the reader
then holds the rules of the lines before it, as if the text had ended there.

## Main definitions

* `Rule.symbols`: the symbols of a rule in the order in which they stand
* `ListsFirsts`: a table of names in the order of their first appearance
* `Reader.Lists`, `Reader.Holds`: a reader lists the names of symbols, and holds rules

## Main results

* `ListsFirsts.note`, `Reader.Lists.foldl_addRule`: the names in the tables after a name and after
  rules
* `Reader.holds_foldl_addRule`: a reader that starts empty holds the rules it has entered
* `Reader.read_starts_afresh`: what a text leaves in a reader
-/

namespace GrammarSuite

open Text Format

/-! ## Names by their first appearance -/

namespace Form

/-- The names of the nonterminals of a form. -/
def nonterminals : Form → List String
  | [] => []
  | .nonterminal n :: rest => n :: nonterminals rest
  | .terminal _ :: rest => nonterminals rest

theorem nonterminals_append (form rest : Form) :
    nonterminals (form ++ rest) = form.nonterminals ++ rest.nonterminals := by
  fun_induction nonterminals form with
  | case1 => rfl
  | case2 n form ih => rw [List.cons_append, nonterminals, ih, List.cons_append]
  | case3 n form ih => rw [List.cons_append, nonterminals, ih]

theorem terminals_append (form rest : Form) :
    terminals (form ++ rest) = form.terminals ++ rest.terminals := by
  fun_induction terminals form with
  | case1 => rfl
  | case2 n form ih => rw [List.cons_append, terminals, ih, List.cons_append]
  | case3 n form ih => rw [List.cons_append, terminals, ih]

end Form

/-- The symbols of a rule in the order in which they stand: its head, then those of its bodies. -/
def Rule.symbols (rule : Rule) : Form := .nonterminal rule.head :: rule.bodies.flatten

/-- A table lists names, each once and in the order of their first appearance. -/
structure ListsFirsts (names table : List String) : Prop where
  mem_iff : ∀ name, name ∈ table ↔ name ∈ names
  nodup : table.Nodup
  ordered : table.Pairwise fun a b => names.idxOf a ≤ names.idxOf b

namespace ListsFirsts

theorem nil : ListsFirsts [] [] := ⟨by simp, .nil, .nil⟩

/-- A name that appears next is listed last, unless it is there already. -/
theorem note {names table : List String} (h : ListsFirsts names table) (name : String) :
    ListsFirsts (names ++ [name]) (Reader.note name table) := by
  -- The names so far keep their places.
  have hplace : ∀ a ∈ table, (names ++ [name]).idxOf a = names.idxOf a := fun a ha =>
    List.idxOf_append_of_mem ((h.mem_iff a).1 ha)
  have hordered : table.Pairwise fun a b =>
      (names ++ [name]).idxOf a ≤ (names ++ [name]).idxOf b := by
    refine h.ordered.imp_of_mem fun ha hb hle => ?_
    rwa [hplace _ ha, hplace _ hb]
  refine ⟨fun other => ?_, ?_, ?_⟩
  · rw [Reader.mem_note, h.mem_iff, List.mem_append, List.mem_singleton]
  · unfold Reader.note
    split
    · exact h.nodup
    · rename_i hnew
      exact List.nodup_append.2 ⟨h.nodup, by simp, by rintro a ha b hb rfl; simp_all⟩
  · unfold Reader.note
    split
    · exact hordered
    · rename_i hnew
      refine List.pairwise_append.2 ⟨hordered, by simp, fun a ha b hb => ?_⟩
      -- A new name stands behind all others.
      obtain rfl := List.mem_singleton.1 hb
      rw [hplace a ha, List.idxOf_append_of_notMem fun hmem => hnew ((h.mem_iff b).2 hmem)]
      exact (List.idxOf_lt_length_of_mem ((h.mem_iff a).1 ha)).le.trans (Nat.le_add_right _ _)

end ListsFirsts

namespace Reader

/-- The tables of a reader list the names of the symbols of a form. -/
structure Lists (r : Reader) (form : Form) : Prop where
  nonterminals : ListsFirsts form.nonterminals r.nonterminals
  terminals : ListsFirsts form.terminals r.terminals

namespace Lists

variable {r : Reader} {form : Form}

theorem empty : Lists {} [] := ⟨.nil, .nil⟩

/-- A symbol is entered in the table of its kind, and the other table stays as it is. -/
theorem noteSymbol (h : r.Lists form) (s : Symbol) : (r.noteSymbol s).Lists (form ++ [s]) := by
  refine ⟨?_, ?_⟩
  · rw [Form.nonterminals_append]
    cases s with
    | nonterminal n => exact h.nonterminals.note n
    | terminal n => simpa [Reader.noteSymbol, Form.nonterminals] using h.nonterminals
  · rw [Form.terminals_append]
    cases s with
    | nonterminal n => simpa [Reader.noteSymbol, noteNonterminal, Form.terminals] using h.terminals
    | terminal n => exact h.terminals.note n

theorem foldl_noteSymbol (h : r.Lists form) (body : Form) :
    (body.foldl Reader.noteSymbol r).Lists (form ++ body) := by
  induction body generalizing r form with
  | nil => simpa using h
  | cons s body ih => simpa using ih (h.noteSymbol s)

theorem foldl_addProduction (h : r.Lists form) (ps : List Production) :
    (ps.foldl addProduction r).Lists (form ++ ps.flatMap Production.body) := by
  induction ps generalizing r form with
  | nil => simpa using h
  | cons p ps ih =>
    -- The list of productions is no table.
    have hone : (r.addProduction p).Lists (form ++ p.body) :=
      ⟨(h.foldl_noteSymbol p.body).nonterminals, (h.foldl_noteSymbol p.body).terminals⟩
    simpa using ih hone

/-- The symbols of a rule are entered in the order in which they stand. -/
theorem addRule (h : r.Lists form) (rule : Rule) :
    (r.addRule rule).Lists (form ++ rule.symbols) := by
  have hhead := h.noteSymbol (.nonterminal rule.head)
  have hbodies : rule.productions.flatMap Production.body = rule.bodies.flatten := by
    rw [Rule.productions, List.flatMap_map, List.flatMap_id']
  have hstart : ∀ start, ({ r.noteNonterminal rule.head with start } : Reader).Lists
      (form ++ [.nonterminal rule.head]) := fun _ => ⟨hhead.nonterminals, hhead.terminals⟩
  have hrule := (hstart (r.start.or (some rule.head))).foldl_addProduction rule.productions
  rwa [hbodies, List.append_assoc] at hrule

/-- The tables after rules list the names in the order in which they stand in the rules. -/
theorem foldl_addRule (h : r.Lists form) (rules : List Rule) :
    (rules.foldl Reader.addRule r).Lists (form ++ rules.flatMap Rule.symbols) := by
  induction rules generalizing r form with
  | nil => simpa using h
  | cons rule rules ih => simpa using ih (h.addRule rule)

end Lists

/-- A reader holds rules if it lists their names, has their productions in order, and starts with
the head of the first. -/
structure Holds (r : Reader) (rules : List Rule) : Prop where
  lists : r.Lists (rules.flatMap Rule.symbols)
  productions : r.productions = rules.flatMap Rule.productions
  start : r.start = rules.head?.map Rule.head

/-- A reader that starts empty holds the rules that it has entered. -/
theorem holds_foldl_addRule (rules : List Rule) : (rules.foldl addRule {}).Holds rules where
  lists := Lists.empty.foldl_addRule rules
  productions := foldl_addRule_productions {} rules
  start := by rw [foldl_addRule_start, Option.none_or]

/-! ## What a text leaves -/

/-- **A reader starts afresh, and a bad line leaves nothing.** A text gives the same result in every
reader and leaves the same state there, which after a grammar are the rules of the text. After a
report on a line these are the rules of the lines before it. They are what any text leaves that has
these lines only, and such a text is read without fault if there is a rule among them. -/
theorem read_starts_afresh (reader : Reader) (text : String) (name : Json.Value) :
    reader.read text name = ({} : Reader).read text name ∧
    (∀ g, (reader.read text name).1 = .ok g →
      ∃ rules, List.Forall₂ IsRule (contents (lines text.toList)) rules ∧
        (reader.read text name).2.Holds rules) ∧
    ∀ m n, (reader.read text name).1 = .error (.malformed m) → m.lineNumber = some n →
      ∃ before line after rules, lines text.toList = before ++ line :: after ∧
        n = before.length + 1 ∧ List.Forall₂ IsRule (contents before) rules ∧
        (reader.read text name).2.Holds rules ∧
        (∃ earlier : String, lines earlier.toList = before) ∧
        ∀ (other : Reader) (earlier : String) (name' : Json.Value),
          lines earlier.toList = before →
          (other.read earlier name').2 = (reader.read text name).2 ∧
          (rules ≠ [] → ∃ g, (other.read earlier name').1 = .ok g) := by
  refine ⟨rfl, fun g hg => ?_, fun m n hm hn => ?_⟩
  · obtain ⟨rules, hrules, hstate⟩ := rules_of_read hg
    exact ⟨rules, hrules, hstate ▸ holds_foldl_addRule rules⟩
  · obtain ⟨before, line, after, fault, rules, hlines, hrules, -, -, rfl, hstate⟩ :=
      readLines_eq_some_iff.1 (readLines_of_read hm hn)
    refine ⟨before, line, after, rules, hlines, ?_, hrules, hstate ▸ holds_foldl_addRule rules, ?_,
      fun other earlier name' hearlier => ?_⟩
    · rw [← Option.some.inj hn]
      omega
    · -- The lines before the bad one, each closed by a line feed, are a text.
      refine ⟨String.ofList (before.flatMap (· ++ ['\n'])), ?_⟩
      rw [String.toList_ofList, lines_flatMap]
      refine fun l hl => isLineEnd_eq_false_of_mem_lines (s := text.toList) ?_
      rw [hlines]
      exact List.mem_append_left _ hl
    · subst hearlier
      rw [read_of_rules hrules, hstate]
      refine ⟨rfl, fun hne => ?_⟩
      obtain ⟨first, rest, rfl⟩ := List.exists_cons_of_ne_nil hne
      obtain ⟨g, hg, -⟩ := exists_grammar first rest name'
      exact ⟨g, hg⟩

/-- A terminal before the arrow of the second line leaves what the first line left. -/
theorem read_starts_afresh_line :
    ∃ m, (({} : Reader).read "S -> a\nb -> c" .null).1 = .error (.malformed m) ∧
      m.lineNumber = some 2 ∧
      (({} : Reader).read "S -> a\nb -> c" .null).2 = (({} : Reader).read "S -> a" .null).2 := by
  obtain ⟨before, line, after, rules, hlines, hn, -, -, -, hsame⟩ :=
    (read_starts_afresh {} "S -> a\nb -> c" .null).2.2 _ 2 rfl rfl
  have hlength : before.length = 1 := by omega
  have hbefore : lines "S -> a".toList = before := by
    have htake := congrArg (List.take 1) hlines
    rw [List.take_left' hlength] at htake
    exact htake
  exact ⟨_, rfl, rfl, (hsame {} "S -> a" .null hbefore).1.symm⟩

end Reader

end GrammarSuite
