import GrammarSuite.Proofs.Grammar.Tables
import GrammarSuite.Proofs.Grammar.Written

/-!
# Joined texts

A text that is put behind another one, with a line feed between them, is read as if reading had gone
on. The lines of the whole are those of the first text with the line feed, then those of the second;
the line feed itself may close the last line of the first text, complete its line end, or make an
empty line, and adds no rule in any case. So the rules of the whole are those of both, and a bad
line is reported as in its own text, but for the number of lines before it.

## Main results

* `contents_lines_newline`: a line feed at the end of a text changes none of its rules
* `Reader.readLines_eq_some_of_readLines`: a fault does not depend on what has been read before
* `Grammar.of_rules`: a grammar of rules, by its symbols and productions
* `Grammar.ofText_joined`: the grammar or the report of joined texts
-/

namespace GrammarSuite

open Text Format

namespace Format

theorem contents_append (ls ms : List (List Char)) :
    contents (ls ++ ms) = contents ls ++ contents ms := by
  rw [contents, List.map_append, List.filter_append]
  rfl

/-- A line feed at the end of a text changes none of its rules. -/
theorem contents_lines_newline (s : List Char) :
    contents (lines (s ++ ['\n'])) = contents (lines s) := by
  rcases lines_concat_newline s with h | h
  · rw [h]
  · rw [h, contents_append, contents_cons_of_eq rfl, contents_nil, List.append_nil]

/-- The rules of joined texts are those of both. -/
theorem contents_lines_joined (s t : List Char) :
    contents (lines (s ++ '\n' :: t)) = contents (lines s) ++ contents (lines t) := by
  rw [lines_append_lines, contents_append, contents_lines_newline]

end Format

namespace Reader

/-- A fault does not depend on what has been read before it, and its line counts from where the
numbering starts. -/
theorem readLines_eq_some_of_readLines {r r' : Reader} {n : Nat} {ls : List (List Char)}
    {m : Malformed} {k : Int} (h : r.readLines n ls = (some m, r')) (hk : m.lineNumber = some k)
    (other : Reader) (shift : Nat) :
    (other.readLines (shift + n) ls).1 = some { m with lineNumber := some (shift + k) } := by
  obtain ⟨before, line, after, fault, rules, hlines, hrules, hcontent, hfault, rfl, -⟩ :=
    readLines_eq_some_iff.1 h
  rw [readLines_eq_some_iff.2 ⟨before, line, after, fault, rules, hlines, hrules, hcontent, hfault,
    rfl, rfl⟩, ← Option.some.inj hk]
  simp [Int.add_assoc]

end Reader

namespace Grammar

/-- The grammar of rules has the head of the first one as its start symbol, their productions in
order, and their symbols. -/
theorem of_rules {rules : List Rule} {name : Json.Value} {g : Grammar}
    (h : (rules.foldl Reader.addRule {}).grammar name = .ok g) :
    rules ≠ [] ∧ rules.head?.map (Symbol.nonterminal ·.head) = some g.start ∧
      g.productions = rules.flatMap Rule.productions ∧
      (∀ s, s ∈ g.nonterminals ↔ s.isNonterminal = true ∧ ∃ rule ∈ rules, rule.Mentions s) ∧
      ∀ s, s ∈ g.terminals ↔ s.isNonterminal = false ∧ ∃ rule ∈ rules, rule.Mentions s := by
  cases rules with
  | nil => simp [Reader.grammar_nil] at h
  | cons first rest =>
    obtain ⟨g', hg', -, hstart, hproductions, hnonterminals, hterminals⟩ :=
      Reader.exists_grammar first rest name
    obtain rfl : g' = g := Except.ok.inj (hg'.symm.trans h)
    refine ⟨List.cons_ne_nil first rest, ?_, hproductions, hnonterminals, hterminals⟩
    rw [hstart]
    rfl

variable {s t : String} {name name₁ name₂ : Json.Value}

theorem toList_joined (s t : String) : (s ++ "\n" ++ t).toList = s.toList ++ '\n' :: t.toList := by
  simp

/-- Two texts of grammars are together the text of a grammar, with the rules of both. -/
theorem exists_ofText_joined {g h : Grammar} (hg : ofText s name₁ = .ok g)
    (hh : ofText t name₂ = .ok h) (name : Json.Value) :
    ∃ u, ofText (s ++ "\n" ++ t) name = .ok u ∧ u.name = name ∧ u.start = g.start ∧
      u.productions = g.productions ++ h.productions ∧
      (∀ a, a ∈ u.nonterminals ↔ a ∈ g.nonterminals ∨ a ∈ h.nonterminals) ∧
      ∀ a, a ∈ u.terminals ↔ a ∈ g.terminals ∨ a ∈ h.terminals := by
  obtain ⟨rules₁, hrules₁, hg⟩ := ofText_eq_ok_iff.1 hg
  obtain ⟨rules₂, hrules₂, hh⟩ := ofText_eq_ok_iff.1 hh
  obtain ⟨hne, hgstart, hgproductions, hgnonterminals, hgterminals⟩ := of_rules hg
  obtain ⟨-, -, hhproductions, hhnonterminals, hhterminals⟩ := of_rules hh
  obtain ⟨first, rest, rfl⟩ := List.exists_cons_of_ne_nil hne
  obtain ⟨u, hu, hname, hstart, hproductions, hnonterminals, hterminals⟩ :=
    Reader.exists_grammar first (rest ++ rules₂) name
  rw [← List.cons_append] at hu hproductions hnonterminals hterminals
  have hmentions : ∀ a, (∃ rule ∈ first :: rest ++ rules₂, rule.Mentions a) ↔
      (∃ rule ∈ first :: rest, rule.Mentions a) ∨ ∃ rule ∈ rules₂, rule.Mentions a := by
    intro a
    simp only [List.mem_append, or_and_right, exists_or]
  refine ⟨u, ofText_eq_ok_iff.2 ⟨first :: rest ++ rules₂, ?_, hu⟩, hname, ?_, ?_, fun a => ?_,
    fun a => ?_⟩
  · rw [toList_joined, contents_lines_joined]
    exact List.rel_append hrules₁ hrules₂
  · rw [hstart]
    exact Option.some.inj hgstart
  · rw [hproductions, hgproductions, hhproductions, List.flatMap_append]
  · rw [hnonterminals, hgnonterminals, hhnonterminals, ← and_or_left, hmentions]
  · rw [hterminals, hgterminals, hhterminals, ← and_or_left, hmentions]

/-- A bad line stops the reading, whatever stands behind it. -/
theorem ofText_joined_of_left {m : Malformed} {k : Int}
    (h : ofText s name₁ = .error (.malformed m)) (hk : m.lineNumber = some k)
    (name : Json.Value) (t : String) : ofText (s ++ "\n" ++ t) name = .error (.malformed m) := by
  have hlines := Reader.readLines_of_read h hk
  have hwhole : ∃ rest, lines (s ++ "\n" ++ t).toList = lines s.toList ++ rest := by
    rw [toList_joined, lines_append_lines]
    rcases lines_concat_newline s.toList with hs | hs
    · exact ⟨lines t.toList, by rw [hs]⟩
    · exact ⟨[] :: lines t.toList, by rw [hs, List.append_assoc]; rfl⟩
  obtain ⟨rest, hwhole⟩ := hwhole
  rw [ofText, Reader.read, hwhole, Reader.readLines_append, hlines]

/-- A bad line behind a text of rules is reported with a number that counts these lines too. -/
theorem ofText_joined_of_right {g : Grammar} {m : Malformed} {k : Int}
    (hg : ofText s name₁ = .ok g) (h : ofText t name₂ = .error (.malformed m))
    (hk : m.lineNumber = some k) (name : Json.Value) :
    ofText (s ++ "\n" ++ t) name = .error (.malformed
      { m with lineNumber := some ((lines (s ++ "\n").toList).length + k) }) := by
  obtain ⟨rules, hrules, -⟩ := ofText_eq_ok_iff.1 hg
  have hnewline : (s ++ "\n").toList = s.toList ++ ['\n'] := by simp
  have hfirst : Reader.readLines {} 1 (lines (s ++ "\n").toList) =
      (none, rules.foldl Reader.addRule {}) := by
    refine Reader.readLines_eq_none_iff.2 ⟨rules, ?_, rfl⟩
    rwa [hnewline, contents_lines_newline]
  have hsecond := Reader.readLines_eq_some_of_readLines (Reader.readLines_of_read h hk) hk
    (rules.foldl Reader.addRule {}) (lines (s ++ "\n").toList).length
  rw [ofText, Reader.read, toList_joined, lines_append_lines, ← hnewline, Reader.readLines_append,
    hfirst]
  dsimp only
  rw [Nat.add_comm 1]
  generalize Reader.readLines _ _ (lines t.toList) = result at hsecond ⊢
  obtain ⟨_ | m', r⟩ := result
  · cases hsecond
  · rw [Option.some.inj hsecond]

/-- **Joined texts are read in turn.** Two texts of grammars that are joined by a line feed are a
text of a grammar: it starts as the first one, has the productions of the first and then those of
the second, and the symbols of both. A bad line of the first text is reported as if it stood alone.
A first bad line of the second one, behind a text that is a grammar, is reported with the same words
and the same line, and with a number that counts the lines before the second text. -/
theorem ofText_joined (s t : String) (name₁ name₂ name : Json.Value) :
    (∀ g h, ofText s name₁ = .ok g → ofText t name₂ = .ok h →
      ∃ u, ofText (s ++ "\n" ++ t) name = .ok u ∧ u.name = name ∧ u.start = g.start ∧
        u.productions = g.productions ++ h.productions ∧
        (∀ a, a ∈ u.nonterminals ↔ a ∈ g.nonterminals ∨ a ∈ h.nonterminals) ∧
        ∀ a, a ∈ u.terminals ↔ a ∈ g.terminals ∨ a ∈ h.terminals) ∧
    (∀ m k, ofText s name₁ = .error (.malformed m) → m.lineNumber = some k →
      ofText (s ++ "\n" ++ t) name = .error (.malformed m)) ∧
    ∀ g m k, ofText s name₁ = .ok g → ofText t name₂ = .error (.malformed m) →
      m.lineNumber = some k →
      ofText (s ++ "\n" ++ t) name = .error (.malformed
        { m with lineNumber := some ((lines (s ++ "\n").toList).length + k) }) :=
  ⟨fun _ _ hg hh => exists_ofText_joined hg hh name,
    fun _ _ hm hk => ofText_joined_of_left hm hk name t,
    fun _ _ _ hg hm hk => ofText_joined_of_right hg hm hk name⟩

/-- A line feed that completes the line end of the first text makes no line of its own: the bad line
behind it is the second one. -/
theorem ofText_joined_return :
    (∃ g, ofText "S -> a\r" .null = .ok g) ∧
      (∃ m, ofText "b" .null = .error (.malformed m) ∧ m.lineNumber = some 1) ∧
      ∃ m, ofText ("S -> a\r" ++ "\n" ++ "b") .null = .error (.malformed m) ∧
        m.lineNumber = some 2 :=
  ⟨⟨_, rfl⟩, ⟨_, rfl, rfl⟩, _,
    (ofText_joined "S -> a\r" "b" .null .null .null).2.2 _ _ 1 rfl rfl rfl, rfl⟩

end Grammar

end GrammarSuite
