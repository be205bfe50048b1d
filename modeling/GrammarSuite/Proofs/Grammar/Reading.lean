import GrammarSuite.Proofs.Grammar.Format

/-!
# Texts that are grammars

A text is a grammar if it has a rule and all its rules are well formed. What has been read of it at
any line is what the rules up to there give: their symbols, their productions in order, and the
first head. Since every symbol that is used is entered, the grammar of a text is consistent, and a
text can only fail with a report on its first bad line or on the lack of rules.

## Main definitions

* `Format.contents`: the rules of a text, as texts
* `Format.Describes`: a text describes a grammar
* `Format.Reports`: the report of a text that is no grammar
* `Reader.Knows`: a symbol has been entered

## Main results

* `Reader.knows_foldl_addRule`: the symbols that are known after rules
* `Reader.readLines_eq_none_iff`, `Reader.readLines_eq_some_iff`: reading to the end and to a fault
* `Reader.exists_grammar`: what has been read is a consistent grammar
* `Reader.read_of_rules`, `Reader.readLines_of_read`: a text of rules, and one with a bad line
* `Reader.read_follows_format`: a text is read exactly as the format says
-/

namespace GrammarSuite

open Text

namespace Format

/-- The rules of a text: what its lines hold without comments and outer blanks, if anything. -/
def contents (ls : List (List Char)) : List (List Char) := (ls.map stripComment).filter (· ≠ [])

/-- Texts describe a grammar if they are its rules in order, the first with the start symbol as its
head, and if it declares exactly the symbols that occur, in two kinds that share no name. -/
structure Describes (texts : List (List Char)) (g : Grammar) : Prop where
  rules : ∃ first rest, List.Forall₂ IsRule texts (first :: rest) ∧
    g.start = .nonterminal first.head ∧
    g.productions = (first :: rest).flatMap Rule.productions
  nonterminals : ∀ s, s ∈ g.nonterminals ↔
    s.isNonterminal = true ∧ ∃ p ∈ g.productions, s = p.headSymbol ∨ s ∈ p.body
  terminals : ∀ s, s ∈ g.terminals ↔ s.isNonterminal = false ∧ ∃ p ∈ g.productions, s ∈ p.body
  disjoint : ∀ s ∈ g.nonterminals, ∀ t ∈ g.terminals, s.name ≠ t.name

/-- The report of lines that are no grammar: there is no rule, or a first line is no rule, which is
named by its number and shown without the blanks at its end. -/
inductive Reports (ls : List (List Char)) : Malformed → Prop
  | noRules (h : contents ls = []) :
    Reports ls { reason := "Grammar text contains no productions" }
  | badLine {before line after fault} (hlines : ls = before ++ line :: after)
    (hbefore : ∀ content ∈ contents before, WellFormed content)
    (hcontent : stripComment line ≠ []) (hfault : IsFault (stripComment line) fault) :
    Reports ls
      { reason := fault.message, lineNumber := some ((before.length : Int) + 1)
        line := some (String.ofList (trimEnd line)) }

@[simp] theorem contents_nil : contents [] = [] := rfl

theorem contents_cons_of_eq {line : List Char} (h : stripComment line = [])
    (ls : List (List Char)) : contents (line :: ls) = contents ls := by
  simp [contents, h]

theorem contents_cons_of_ne {line : List Char} (h : stripComment line ≠ [])
    (ls : List (List Char)) : contents (line :: ls) = stripComment line :: contents ls := by
  simp [contents, h]

theorem forall_wellFormed_iff {texts : List (List Char)} :
    (∀ content ∈ texts, WellFormed content) ↔ ∃ rules, List.Forall₂ IsRule texts rules := by
  induction texts with
  | nil => simp
  | cons content texts ih =>
    rw [List.forall_mem_cons, ih, wellFormed_iff]
    simp [List.forall₂_cons_left_iff]

end Format

open Format

namespace Rule

/-- The symbols of a rule: its head and those of its bodies. -/
def Mentions (rule : Rule) (s : Symbol) : Prop :=
  s = .nonterminal rule.head ∨ ∃ p ∈ rule.productions, s ∈ p.body

theorem headSymbol_of_mem_productions {rule : Rule} {p : Production} (hp : p ∈ rule.productions) :
    p.headSymbol = .nonterminal rule.head := by
  obtain ⟨body, -, rfl⟩ := List.mem_map.1 hp
  rfl

end Rule

/-- The symbols of a rule are spelled as their kind demands. -/
theorem Format.IsRule.spelling {content : List Char} {rule : Rule} {s : Symbol}
    (h : IsRule content rule) (hs : rule.Mentions s) :
    s.isNonterminal = isNonterminalSpelling s.name.toList := by
  obtain ⟨before, after, -, hnonterminal, hhead, hbodies⟩ := h
  rcases hs with rfl | ⟨p, hp, hs⟩
  · simp [Symbol.isNonterminal, Symbol.name, hhead, isNonterminalSpelling_iff.2 hnonterminal]
  · obtain ⟨body, hbody, rfl⟩ := List.mem_map.1 hp
    rw [← forall₂_isBody_iff.1 hbodies] at hbody
    obtain ⟨alternative, -, rfl⟩ := List.mem_map.1 hbody
    -- The symbols of a body come from words, which decide their kind.
    have hword : ∃ w, Symbol.ofWord w = s := by
      dsimp only at hs
      unfold readBody at hs
      split at hs
      · cases hs
      · obtain ⟨w, -, hw⟩ := List.mem_map.1 hs
        exact ⟨w, hw⟩
    obtain ⟨w, rfl⟩ := hword
    unfold Symbol.ofWord
    split
    · rename_i hspelling
      simp [Symbol.isNonterminal, Symbol.name, hspelling]
    · rename_i hspelling
      simp [Symbol.isNonterminal, Symbol.name, hspelling]

/-- A rule has a production. -/
theorem Format.IsRule.productions_ne_nil {content : List Char} {rule : Rule}
    (h : IsRule content rule) : rule.productions ≠ [] := by
  obtain ⟨before, after, -, -, -, hbodies⟩ := h
  rw [Rule.productions, ← forall₂_isBody_iff.1 hbodies]
  simp [List.splitOn, List.splitOnP_ne_nil]

namespace Reader

/-- A symbol has been entered. -/
def Knows (r : Reader) : Symbol → Prop
  | .nonterminal n => n ∈ r.nonterminals
  | .terminal n => n ∈ r.terminals

/-! ## What entering changes -/

theorem mem_note {name other : String} {names : List String} :
    other ∈ note name names ↔ other ∈ names ∨ other = name := by
  unfold note
  split
  · rename_i h
    -- A name that is there already is not entered again.
    constructor
    · exact .inl
    · rintro (hmem | rfl)
      · exact hmem
      · exact h
  · simp

theorem knows_noteSymbol {r : Reader} {s t : Symbol} :
    (r.noteSymbol s).Knows t ↔ r.Knows t ∨ t = s := by
  cases s <;> cases t <;> simp [noteSymbol, noteNonterminal, Knows, mem_note]

theorem knows_foldl_noteSymbol {r : Reader} {form : Form} {t : Symbol} :
    (form.foldl noteSymbol r).Knows t ↔ r.Knows t ∨ t ∈ form := by
  induction form generalizing r with
  | nil => simp
  | cons s form ih => rw [List.foldl_cons, ih, knows_noteSymbol, List.mem_cons, or_assoc]

@[simp] theorem noteSymbol_productions (r : Reader) (s : Symbol) :
    (r.noteSymbol s).productions = r.productions := by
  cases s <;> rfl

@[simp] theorem noteSymbol_start (r : Reader) (s : Symbol) : (r.noteSymbol s).start = r.start := by
  cases s <;> rfl

@[simp] theorem foldl_noteSymbol_productions (r : Reader) (form : Form) :
    (form.foldl noteSymbol r).productions = r.productions := by
  induction form generalizing r with
  | nil => rfl
  | cons s form ih => rw [List.foldl_cons, ih, noteSymbol_productions]

@[simp] theorem foldl_noteSymbol_start (r : Reader) (form : Form) :
    (form.foldl noteSymbol r).start = r.start := by
  induction form generalizing r with
  | nil => rfl
  | cons s form ih => rw [List.foldl_cons, ih, noteSymbol_start]

theorem knows_foldl_addProduction {r : Reader} {ps : List Production} {t : Symbol} :
    (ps.foldl addProduction r).Knows t ↔ r.Knows t ∨ ∃ p ∈ ps, t ∈ p.body := by
  induction ps generalizing r with
  | nil => simp
  | cons p ps ih =>
    have hone : (r.addProduction p).Knows t ↔ r.Knows t ∨ t ∈ p.body := by
      rw [← knows_foldl_noteSymbol]
      cases t <;> rfl
    rw [List.foldl_cons, ih, hone, List.exists_mem_cons_iff, or_assoc]

theorem foldl_addProduction_productions (r : Reader) (ps : List Production) :
    (ps.foldl addProduction r).productions = r.productions ++ ps := by
  induction ps generalizing r with
  | nil => simp
  | cons p ps ih => simp [ih, addProduction]

theorem foldl_addProduction_start (r : Reader) (ps : List Production) :
    (ps.foldl addProduction r).start = r.start := by
  induction ps generalizing r with
  | nil => rfl
  | cons p ps ih => simp [ih, addProduction]

@[simp] theorem noteNonterminal_start (r : Reader) (name : String) :
    (r.noteNonterminal name).start = r.start := rfl

theorem knows_addRule {r : Reader} {rule : Rule} {t : Symbol} :
    (r.addRule rule).Knows t ↔ r.Knows t ∨ rule.Mentions t := by
  have hhead : ∀ start, ({ r.noteNonterminal rule.head with start } : Reader).Knows t ↔
      r.Knows t ∨ t = .nonterminal rule.head := by
    intro start
    rw [← knows_noteSymbol]
    cases t <;> rfl
  rw [addRule, knows_foldl_addProduction, hhead, or_assoc]
  rfl

/-! ## What rules give -/

/-- The symbols that are known after rules are those of the rules. -/
theorem knows_foldl_addRule {r : Reader} {rules : List Rule} {t : Symbol} :
    (rules.foldl addRule r).Knows t ↔ r.Knows t ∨ ∃ rule ∈ rules, rule.Mentions t := by
  induction rules generalizing r with
  | nil => simp
  | cons rule rules ih =>
    rw [List.foldl_cons, ih, knows_addRule, List.exists_mem_cons_iff, or_assoc]

/-- The productions after rules are those of the rules, in order. -/
theorem foldl_addRule_productions (r : Reader) (rules : List Rule) :
    (rules.foldl addRule r).productions = r.productions ++ rules.flatMap Rule.productions := by
  induction rules generalizing r with
  | nil => simp
  | cons rule rules ih =>
    rw [List.foldl_cons, ih, addRule, foldl_addProduction_productions, List.flatMap_cons,
      List.append_assoc]
    rfl

/-- The start symbol after rules is the first head. -/
theorem foldl_addRule_start (r : Reader) (rules : List Rule) :
    (rules.foldl addRule r).start = r.start.or (rules.head?.map Rule.head) := by
  induction rules generalizing r with
  | nil => simp
  | cons rule rules ih =>
    rw [List.foldl_cons, ih, addRule, foldl_addProduction_start]
    cases h : r.start <;> simp [h]

/-! ## Lines -/

/-- Lines are read to their end exactly if what they hold are rules, which are then entered. -/
theorem readLines_eq_none_iff {r r' : Reader} {n : Nat} {ls : List (List Char)} :
    r.readLines n ls = (none, r') ↔
      ∃ rules, List.Forall₂ IsRule (contents ls) rules ∧ r' = rules.foldl addRule r := by
  -- Induction on the lines, for every reader: a line is passed over, stops the reading, or is
  -- entered.
  induction ls generalizing r n with
  | nil => simp [readLines, eq_comm]
  | cons line rest ih =>
    rw [readLines, readLine]
    by_cases hempty : stripComment line = []
    · simp only [hempty, List.isEmpty_nil, ↓reduceIte]
      rw [ih, contents_cons_of_eq hempty]
    · have hnot : (stripComment line).isEmpty = false := by simpa using hempty
      rw [contents_cons_of_ne hempty]
      simp only [hnot, Bool.false_eq_true, ↓reduceIte]
      rcases hline : Rule.ofLine (stripComment line) with fault | rule
      · -- The line stops the reading, so it must not be a rule.
        simp only [Except.map, Prod.mk.injEq, reduceCtorEq, false_and, false_iff]
        rintro ⟨rules, hrules, -⟩
        obtain ⟨rule, _, hrule, -, rfl⟩ := List.forall₂_cons_left_iff.1 hrules
        rw [Rule.ofLine_eq_ok_iff.2 hrule] at hline
        cases hline
      · -- The line is a rule, and the first of the rules.
        simp only [Except.map]
        rw [ih]
        constructor
        · rintro ⟨rules, hrules, rfl⟩
          exact ⟨rule :: rules, .cons (Rule.ofLine_eq_ok_iff.1 hline) hrules, rfl⟩
        · rintro ⟨_, hrules, rfl⟩
          obtain ⟨rule', rules, hrule, hrest, rfl⟩ := List.forall₂_cons_left_iff.1 hrules
          rw [← Rule.ofLine_eq_ok_iff, hline, Except.ok.injEq] at hrule
          exact ⟨rules, hrest, by rw [hrule, List.foldl_cons]⟩

/-- Reading goes on behind lines that were read to their end, and only there. -/
theorem readLines_append (r : Reader) (n : Nat) (ls ms : List (List Char)) :
    r.readLines n (ls ++ ms) =
      match r.readLines n ls with
      | (none, r') => r'.readLines (n + ls.length) ms
      | (some m, r') => (some m, r') := by
  induction ls generalizing r n with
  | nil => rfl
  | cons line rest ih =>
    rw [List.cons_append, readLines, readLines]
    cases r.readLine line with
    | error fault => rfl
    | ok r' =>
      dsimp only
      rw [ih, List.length_cons, Nat.add_assoc, Nat.add_comm 1]

theorem readLine_eq_error_iff {r : Reader} {line : List Char} {fault : RuleFault} :
    r.readLine line = .error fault ↔
      stripComment line ≠ [] ∧ IsFault (stripComment line) fault := by
  rw [readLine, ← Rule.ofLine_eq_error_iff]
  by_cases hempty : stripComment line = []
  · simp [hempty]
  · cases Rule.ofLine (stripComment line) <;> simp [hempty, Except.map]

/-- Lines that are not read to their end have a first bad one, behind which nothing is read. -/
theorem exists_readLine_eq_error {r r' : Reader} {n : Nat} {ls : List (List Char)} {m : Malformed}
    (h : r.readLines n ls = (some m, r')) :
    ∃ before line after fault, ls = before ++ line :: after ∧
      r.readLines n before = (none, r') ∧ r'.readLine line = .error fault ∧
      m = { reason := fault.message, lineNumber := some ((n : Int) + before.length)
            line := some (String.ofList (trimEnd line)) } := by
  induction ls generalizing r n with
  | nil => simp [readLines] at h
  | cons line rest ih =>
    rw [readLines] at h
    cases hline : r.readLine line with
    | error fault =>
      simp only [hline, Prod.mk.injEq, Option.some.injEq] at h
      obtain ⟨rfl, rfl⟩ := h
      exact ⟨[], line, rest, fault, rfl, rfl, hline, by simp⟩
    | ok r₁ =>
      rw [hline] at h
      obtain ⟨before, bad, after, fault, rfl, hbefore, hbad, rfl⟩ := ih h
      refine ⟨line :: before, bad, after, fault, rfl, ?_, hbad, ?_⟩
      · rw [readLines, hline]
        exact hbefore
      · simp only [List.length_cons, Malformed.mk.injEq, Option.some.injEq, true_and, and_true]
        omega

/-- Lines stop the reading exactly if a first one is no rule, when the rules before it have been
entered and nothing else. -/
theorem readLines_eq_some_iff {r r' : Reader} {n : Nat} {ls : List (List Char)} {m : Malformed} :
    r.readLines n ls = (some m, r') ↔
      ∃ before line after fault rules, ls = before ++ line :: after ∧
        List.Forall₂ IsRule (contents before) rules ∧ stripComment line ≠ [] ∧
        IsFault (stripComment line) fault ∧
        m = { reason := fault.message, lineNumber := some ((n : Int) + before.length)
              line := some (String.ofList (trimEnd line)) } ∧
        r' = rules.foldl addRule r := by
  constructor
  · intro h
    obtain ⟨before, line, after, fault, rfl, hbefore, hline, rfl⟩ := exists_readLine_eq_error h
    obtain ⟨rules, hrules, rfl⟩ := readLines_eq_none_iff.1 hbefore
    obtain ⟨hcontent, hfault⟩ := readLine_eq_error_iff.1 hline
    exact ⟨before, line, after, fault, rules, rfl, hrules, hcontent, hfault, rfl, rfl⟩
  · rintro ⟨before, line, after, fault, rules, rfl, hrules, hcontent, hfault, rfl, rfl⟩
    rw [readLines_append, readLines_eq_none_iff.2 ⟨rules, hrules, rfl⟩]
    dsimp only
    rw [readLines, readLine_eq_error_iff.2 ⟨hcontent, hfault⟩]
    simp

/-- Lines that are not read to their end have a first bad one, which is reported. -/
theorem reports_of_readLines {r r' : Reader} {n : Nat} {ls : List (List Char)} {m : Malformed}
    (h : r.readLines n ls = (some m, r')) :
    ∃ before line after fault, ls = before ++ line :: after ∧
      (∀ content ∈ contents before, WellFormed content) ∧ stripComment line ≠ [] ∧
      IsFault (stripComment line) fault ∧
      m = { reason := fault.message, lineNumber := some ((n : Int) + before.length)
            line := some (String.ofList (trimEnd line)) } := by
  obtain ⟨before, line, after, fault, rules, hlines, hrules, hcontent, hfault, hm, -⟩ :=
    readLines_eq_some_iff.1 h
  exact ⟨before, line, after, fault, hlines, forall_wellFormed_iff.2 ⟨rules, hrules⟩, hcontent,
    hfault, hm⟩

/-! ## The grammar of what has been read -/

theorem mem_nonterminals_iff {r : Reader} {s : Symbol} :
    s ∈ r.nonterminals.map .nonterminal ↔ s.isNonterminal = true ∧ r.Knows s := by
  cases s <;> simp [Symbol.isNonterminal, Knows]

theorem mem_terminals_iff {r : Reader} {s : Symbol} :
    s ∈ r.terminals.map .terminal ↔ s.isNonterminal = false ∧ r.Knows s := by
  cases s <;> simp [Symbol.isNonterminal, Knows]

/-- Rules make a consistent grammar: every symbol that they use has been entered. -/
theorem exists_grammar (first : Rule) (rest : List Rule) (name : Json.Value) :
    ∃ g, ((first :: rest).foldl addRule {}).grammar name = .ok g ∧ g.name = name ∧
      g.start = .nonterminal first.head ∧
      g.productions = (first :: rest).flatMap Rule.productions ∧
      (∀ s, s ∈ g.nonterminals ↔
        s.isNonterminal = true ∧ ∃ rule ∈ first :: rest, rule.Mentions s) ∧
      ∀ s, s ∈ g.terminals ↔
        s.isNonterminal = false ∧ ∃ rule ∈ first :: rest, rule.Mentions s := by
  -- Reading starts without any symbol, so what is known are the symbols of the rules.
  have hknows : ∀ s, ((first :: rest).foldl addRule {}).Knows s ↔
      ∃ rule ∈ first :: rest, rule.Mentions s := by
    intro s
    rw [knows_foldl_addRule, or_iff_right]
    cases s <;> simp [Knows]
  have hstart := foldl_addRule_start {} (first :: rest)
  have hproductions := foldl_addRule_productions {} (first :: rest)
  -- Nothing else of the reader counts from here on.
  generalize (first :: rest).foldl addRule {} = r at hknows hstart hproductions ⊢
  rw [List.head?_cons, Option.map_some, Option.none_or] at hstart
  rw [List.nil_append] at hproductions
  have hdeclared : ∀ s, s.Declared (r.nonterminals.map .nonterminal) (r.terminals.map .terminal) ↔
      r.Knows s := by
    intro s
    cases s <;> simp [Symbol.Declared, Knows]
  have hfirst : Symbol.nonterminal first.head ∈ r.nonterminals.map .nonterminal :=
    mem_nonterminals_iff.2 ⟨rfl, (hknows _).2 ⟨first, List.mem_cons_self, .inl rfl⟩⟩
  have hall : ∀ p ∈ r.productions,
      p.Declared (r.nonterminals.map .nonterminal) (r.terminals.map .terminal) := by
    intro p hp
    rw [hproductions] at hp
    obtain ⟨rule, hrule, hp⟩ := List.mem_flatMap.1 hp
    refine ⟨mem_nonterminals_iff.2 ⟨rfl, (hknows _).2 ⟨rule, hrule, .inl ?_⟩⟩, fun s hs => ?_⟩
    · exact Rule.headSymbol_of_mem_productions hp
    · exact (hdeclared s).2 ((hknows s).2 ⟨rule, hrule, .inr ⟨p, hp, hs⟩⟩)
  obtain ⟨g, hg⟩ := Grammar.exists_ofParts name hfirst hall
  obtain ⟨hgname, hgproductions, hgstart, hnonterminals, hterminals⟩ := Grammar.mem_of_ofParts hg
  refine ⟨g, ?_, hgname, hgstart, hgproductions.trans hproductions, fun s => ?_, fun s => ?_⟩
  · rw [grammar, hstart]
    dsimp only
    rw [hg]
    rfl
  · rw [hnonterminals, mem_nonterminals_iff, hknows]
  · rw [hterminals, mem_terminals_iff, hknows]

/-- A text without rules has no grammar. -/
theorem grammar_nil (name : Json.Value) :
    ({} : Reader).grammar name = .error (.malformed noRules) := rfl

end Reader

/-- Every rule of texts is the rule of one of them. -/
theorem Format.exists_isRule_of_mem {texts : List (List Char)} {rules : List Rule} {rule : Rule}
    (h : List.Forall₂ IsRule texts rules) (hrule : rule ∈ rules) :
    ∃ content ∈ texts, IsRule content rule := by
  induction h with
  | nil => cases hrule
  | cons hcontent _ ih =>
    rcases List.mem_cons.1 hrule with rfl | hrule
    · exact ⟨_, List.mem_cons_self, hcontent⟩
    · obtain ⟨content, hmem, hcontent⟩ := ih hrule
      exact ⟨content, List.mem_cons_of_mem _ hmem, hcontent⟩

/-- The symbols of rules are those of their productions. -/
theorem Format.exists_mentions_iff {texts : List (List Char)} {rules : List Rule} {s : Symbol}
    (h : List.Forall₂ IsRule texts rules) :
    (∃ rule ∈ rules, rule.Mentions s) ↔
      ∃ p ∈ rules.flatMap Rule.productions, s = p.headSymbol ∨ s ∈ p.body := by
  constructor
  · rintro ⟨rule, hrule, rfl | ⟨p, hp, hs⟩⟩
    · -- A rule has at least one alternative, so that its head is that of a production.
      obtain ⟨content, -, hcontent⟩ := exists_isRule_of_mem h hrule
      obtain ⟨p, hp⟩ := List.exists_mem_of_ne_nil _ hcontent.productions_ne_nil
      exact ⟨p, List.mem_flatMap.2 ⟨rule, hrule, hp⟩,
        .inl (Rule.headSymbol_of_mem_productions hp).symm⟩
    · exact ⟨p, List.mem_flatMap.2 ⟨rule, hrule, hp⟩, .inr hs⟩
  · rintro ⟨p, hp, hs⟩
    obtain ⟨rule, hrule, hp⟩ := List.mem_flatMap.1 hp
    refine ⟨rule, hrule, ?_⟩
    rcases hs with rfl | hs
    · exact .inl (Rule.headSymbol_of_mem_productions hp)
    · exact .inr ⟨p, hp, hs⟩

namespace Reader

/-- Rules that are there have a grammar, which the text describes. -/
theorem describes_of_rules {texts : List (List Char)} {rules : List Rule}
    (h : List.Forall₂ IsRule texts rules) (hne : texts ≠ []) (name : Json.Value) :
    ∃ g, (rules.foldl addRule {}).grammar name = .ok g ∧ g.name = name ∧ Describes texts g := by
  cases rules with
  | nil => exact absurd (List.forall₂_nil_right_iff.1 h) hne
  | cons first rest =>
    obtain ⟨g, hg, hname, hstart, hproductions, hnonterminals, hterminals⟩ :=
      exists_grammar first rest name
    have hspelling : ∀ s, (∃ rule ∈ first :: rest, rule.Mentions s) →
        s.isNonterminal = isNonterminalSpelling s.name.toList := by
      rintro s ⟨rule, hrule, hs⟩
      obtain ⟨content, -, hcontent⟩ := exists_isRule_of_mem h hrule
      exact hcontent.spelling hs
    refine ⟨g, hg, hname, ⟨first, rest, h, hstart, hproductions⟩, fun s => ?_, fun s => ?_,
      fun s hs t ht heq => ?_⟩
    · rw [hnonterminals, exists_mentions_iff h, hproductions]
    · rw [hterminals, exists_mentions_iff h, hproductions]
      refine and_congr_right fun hterminal => exists_congr fun p => and_congr_right fun _ => ?_
      refine or_iff_right ?_
      rintro rfl
      cases hterminal
    · -- A shared name would be spelled as both kinds.
      obtain ⟨hs, hsmentions⟩ := (hnonterminals s).1 hs
      obtain ⟨ht, htmentions⟩ := (hterminals t).1 ht
      rw [hspelling s hsmentions, heq, ← hspelling t htmentions, ht] at hs
      cases hs

/-! ## Texts -/

section

variable {r : Reader} {text : String} {name : Json.Value}

/-- A text of rules is read to its end. -/
theorem read_of_rules {rules : List Rule}
    (h : List.Forall₂ IsRule (contents (lines text.toList)) rules) :
    r.read text name = ((rules.foldl addRule {}).grammar name, rules.foldl addRule {}) := by
  rw [read, readLines_eq_none_iff.2 ⟨rules, h, rfl⟩]

/-- Only a line that is no rule is reported with a number. -/
theorem lineNumber_of_grammar {m : Malformed} (h : r.grammar name = .error (.malformed m)) :
    m.lineNumber = none := by
  unfold grammar at h
  split at h
  · rw [← GrammarError.malformed.inj (Except.error.inj h)]
    rfl
  · rename_i start hstart
    cases hparts : Grammar.ofParts name (r.nonterminals.map .nonterminal)
      (r.terminals.map .terminal) r.productions (.nonterminal start) <;>
        simp [hparts, Except.mapError] at h

/-- The lines of a text that fails at one of them stop the reading there. -/
theorem readLines_of_read {m : Malformed} {n : Int}
    (h : (r.read text name).1 = .error (.malformed m)) (hn : m.lineNumber = some n) :
    readLines {} 1 (lines text.toList) = (some m, (r.read text name).2) := by
  rcases hread : readLines {} 1 (lines text.toList) with ⟨_ | m', r'⟩
  · simp only [read, hread] at h
    rw [lineNumber_of_grammar h] at hn
    cases hn
  · simp only [read, hread, Except.error.injEq, GrammarError.malformed.injEq] at h ⊢
    rw [h]

/-- A text that gives a grammar has rules. -/
theorem rules_of_read {g : Grammar} (h : (r.read text name).1 = .ok g) :
    ∃ rules, List.Forall₂ IsRule (contents (lines text.toList)) rules ∧
      (r.read text name).2 = rules.foldl addRule {} := by
  rcases hread : readLines {} 1 (lines text.toList) with ⟨_ | m, r'⟩
  · obtain ⟨rules, hrules, rfl⟩ := readLines_eq_none_iff.1 hread
    exact ⟨rules, hrules, by rw [read_of_rules hrules]⟩
  · simp [read, hread] at h

end

/-- **A text is read exactly as the format says.** It gives a grammar exactly if it has rules and all
of them are well formed. The grammar is then the one that the rules describe, and otherwise the first
bad line or the lack of rules is reported. No text gives an inconsistent grammar, and nothing depends
on what has been read before. -/
theorem read_follows_format (reader : Reader) (text : String) (name : Json.Value) :
    ((∃ g, (reader.read text name).1 = .ok g) ↔
      contents (lines text.toList) ≠ [] ∧
        ∀ content ∈ contents (lines text.toList), WellFormed content) ∧
    (∀ g, (reader.read text name).1 = .ok g →
      g.name = name ∧ Describes (contents (lines text.toList)) g) ∧
    ∀ e, (reader.read text name).1 = .error e →
      ∃ m, e = .malformed m ∧ Reports (lines text.toList) m := by
  rcases hread : readLines {} 1 (lines text.toList) with ⟨_ | m, r⟩
  · -- The lines were read to their end, and what they hold are rules.
    have hresult : (reader.read text name).1 = r.grammar name := by simp [read, hread]
    rw [hresult]
    obtain ⟨rules, hrules, rfl⟩ := readLines_eq_none_iff.1 hread
    by_cases hne : contents (lines text.toList) = []
    · rw [hne] at hrules
      rw [List.forall₂_nil_left_iff.1 hrules, List.foldl_nil, grammar_nil]
      refine ⟨by simp [hne], fun g hg => by simp at hg, fun e he => ?_⟩
      rw [← Except.error.inj he]
      exact ⟨noRules, rfl, .noRules hne⟩
    · obtain ⟨g, hg, hname, hdescribes⟩ := describes_of_rules hrules hne name
      rw [hg]
      refine ⟨⟨fun _ => ⟨hne, forall_wellFormed_iff.2 ⟨rules, hrules⟩⟩, fun _ => ⟨g, rfl⟩⟩,
        fun g' hg' => ?_, fun e he => by simp at he⟩
      rw [← Except.ok.inj hg']
      exact ⟨hname, hdescribes⟩
  · -- A line stopped the reading, which would have gone on if all were well formed.
    have hresult : (reader.read text name).1 = .error (.malformed m) := by simp [read, hread]
    rw [hresult]
    obtain ⟨before, line, after, fault, hlines, hbefore, hcontent, hfault, rfl⟩ :=
      reports_of_readLines hread
    refine ⟨?_, fun g hg => by simp at hg, fun e he => ?_⟩
    · refine ⟨fun ⟨g, hg⟩ => by simp at hg, fun ⟨_, hall⟩ => ?_⟩
      obtain ⟨rules, hrules⟩ := forall_wellFormed_iff.1 hall
      rw [readLines_eq_none_iff.2 ⟨rules, hrules, rfl⟩] at hread
      cases hread
    · refine ⟨_, (Except.error.inj he).symm, ?_⟩
      have hreport := Reports.badLine hlines hbefore hcontent hfault
      rwa [Int.add_comm] at hreport

end Reader

end GrammarSuite
