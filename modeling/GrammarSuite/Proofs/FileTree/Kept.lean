import GrammarSuite.Proofs.FileTree.Places

/-!
# Files that are left alone

A file at a place, below directories, stays there with its text as long as nothing is written at the
place and nothing above it is moved. Making directories never touches it, since a directory is only
made where there is nothing.

## Main definitions

* `FileTree.Holds`: a file with a text stands at a place, below directories
* `FileTree.HoldsSome`: so does a file with a text of some kind

## Main results

* `Holds.writeText`, `Holds.appendText`: writing at another place
* `holds_of_writeText`, `at?_of_writeText`: writing at the place
* `at?_writeText`: what is found at the end of a path when a file is written at another place
* `makeDirectories_preserves`: what is kept when directories are made
* `Holds.move`: moving something that is not above the place
-/

namespace GrammarSuite.FileTree

open GrammarSuite.Action

variable {t t' : FileTree} {p q source target : Place} {path text new : String} {n : Node}

/-- A file with a text stands at a place, below directories. -/
structure Holds (t : FileTree) (p : Place) (text : String) : Prop where
  node : t.node? p = some (.file text)
  above : t.IsAbove p

/-- A file with a text of some kind stands at a place, below directories. -/
def HoldsSome (t : FileTree) (p : Place) (G : String → Prop) : Prop :=
  ∃ text, t.Holds p text ∧ G text

theorem at?_eq_some_iff {n : Node} :
    t.at? path = some n ↔ ∃ q, t.locate path = .ok q ∧ t.node? q = some n := by
  unfold at?
  rcases t.locate path with e | q <;> simp

/-- A file that is found at the end of a path stands below directories. -/
theorem holds_of_at? (h : t.at? path = some (.file text)) : t.Holds (Path.place path) text := by
  obtain ⟨q, hlocate, hnode⟩ := at?_eq_some_iff.1 h
  obtain rfl := locate_eq hlocate
  exact ⟨hnode, above_of_locate hlocate⟩

/-- A file is found at the end of a path of names. -/
theorem Holds.at? (h : t.Holds (Path.place path) text) (hform : FileProblem.ofPath? path = none)
    (hne : path ≠ "") (hplace : Path.place path = Path.base path ++ Path.parts path)
    (hparts : ∀ part ∈ Path.parts path, Path.IsName part ∧ Text.byteSize part ≤ Path.longestName) :
    t.at? path = some (.file text) := by
  rw [hplace] at h
  exact at?_eq_some_iff.2
    ⟨_, locate_of_follow hform hne (Path.follow_of_isAbove hparts h.above), h.node⟩

theorem isBase_of_node? (h : t.node? p ≠ some .directory) : isBase p = false := by
  by_contra hbase
  rw [node?, if_pos (by simpa using hbase)] at h
  exact h rfl

/-- A place that is no directory is not above one at which a file stands. -/
theorem Holds.not_prefix (h : t.Holds p text) (hq : t.node? q ≠ some .directory) (hne : q ≠ p) :
    ¬ q <+: p := fun hprefix => hq (h.above q hprefix hne)

/-! ## Writing -/

/-- A file stays when something else is put where no directory is. -/
theorem Holds.put (h : t.Holds p text) (hq : t.node? q ≠ some .directory) (hne : q ≠ p) :
    (t.put q n).Holds p text where
  node := by rw [node?_put_of_ne (Ne.symm hne), h.node]
  above r hr hrne := by
    rw [node?_put_of_ne, h.above r hr hrne]
    rintro rfl
    exact h.not_prefix hq hne hr

/-- A text is written at the place of its path, where there is no directory. -/
theorem locateText_eq_ok (h : t.locateText path text = .ok q) :
    t.locate path = .ok q ∧ t.node? q ≠ some .directory := by
  obtain ⟨q', hfile, hq⟩ := bind_eq_ok_iff.1 h
  obtain rfl : q' = q := by
    split at hq
    · cases hq
    · exact Except.ok.inj hq
  unfold locateFile at hfile
  split at hfile
  · cases hfile
  · rename_i place hlocate
    split at hfile
    · cases hfile
    · rename_i hnode
      obtain rfl := Except.ok.inj hfile
      exact ⟨hlocate, hnode⟩

theorem writeText_eq_ok (h : t.writeText path new = .ok t') :
    ∃ q, t.locate path = .ok q ∧ t.node? q ≠ some .directory ∧ t' = t.put q (.file new) := by
  obtain ⟨q, hlocate, hput⟩ := bind_eq_ok_iff.1 h
  obtain ⟨hq, hnode⟩ := locateText_eq_ok hlocate
  exact ⟨q, hq, hnode, (Except.ok.inj hput).symm⟩

theorem appendText_eq_ok (h : t.appendText path new = .ok t') :
    ∃ q text, t.locate path = .ok q ∧ t.node? q ≠ some .directory ∧ t' = t.put q (.file text) := by
  obtain ⟨q, hlocate, hput⟩ := bind_eq_ok_iff.1 h
  obtain ⟨hq, hnode⟩ := locateText_eq_ok hlocate
  split at hput
  · exact ⟨q, _, hq, hnode, (Except.ok.inj hput).symm⟩
  · exact ⟨q, _, hq, hnode, (Except.ok.inj hput).symm⟩

/-- A file stays when another one is written. -/
theorem Holds.writeText (h : t.Holds p text) (hne : Path.place path ≠ p)
    (hwrite : t.writeText path new = .ok t') : t'.Holds p text := by
  obtain ⟨q, hq, hnode, rfl⟩ := writeText_eq_ok hwrite
  rw [← locate_eq hq] at hne
  exact h.put hnode hne

/-- A file stays when something is written at the end of another one. -/
theorem Holds.appendText (h : t.Holds p text) (hne : Path.place path ≠ p)
    (hwrite : t.appendText path new = .ok t') : t'.Holds p text := by
  obtain ⟨q, after, hq, hnode, rfl⟩ := appendText_eq_ok hwrite
  rw [← locate_eq hq] at hne
  exact h.put hnode hne

/-- A file that is written stands at the place of its path. -/
theorem holds_of_writeText (hwrite : t.writeText path new = .ok t') :
    t'.Holds (Path.place path) new := by
  obtain ⟨q, hq, hnode, rfl⟩ := writeText_eq_ok hwrite
  rw [← locate_eq hq]
  refine ⟨node?_put_self (isBase_of_node? hnode), fun r hr hne => ?_⟩
  rw [node?_put_of_ne hne]
  exact above_of_locate hq r hr hne

/-- A path that is followed is followed still when something is put where no directory is. -/
theorem follow_put {place : Place} {parts : List String} (hq : t.node? q ≠ some .directory)
    (h : t.follow place parts = .ok p) : (t.put q n).follow place parts = .ok p := by
  induction parts generalizing place with
  | nil => exact h
  | cons part rest ih =>
    have hplace := (follow_cons h).1
    have hne : place ≠ q := by
      rintro rfl
      exact hq hplace
    rw [follow, node?_put_of_ne hne, hplace]
    rw [follow, hplace] at h
    dsimp only at h ⊢
    split at h
    · rename_i hsame
      rw [if_pos hsame]
      exact ih h
    · rename_i hsame
      rw [if_neg hsame]
      split at h
      · rename_i hup
        rw [if_pos hup]
        exact ih h
      · rename_i hup
        rw [if_neg hup]
        split at h
        · cases h
        · rename_i hlong
          rw [if_neg hlong]
          exact ih h

/-- A path that leads somewhere still leads there when something is put where no directory is. -/
theorem locate_put (hq : t.node? q ≠ some .directory) (h : t.locate path = .ok p) :
    (t.put q n).locate path = .ok p := by
  obtain ⟨hform, hfollow⟩ := follow_of_locate h
  have hne : path ≠ "" := by
    rintro rfl
    have hmissing : t.locate "" = .error .missing := rfl
    rw [hmissing] at h
    cases h
  exact locate_of_follow hform hne (follow_put hq hfollow)

/-- The path of a file that is written leads to its place. -/
theorem locate_of_writeText (hwrite : t.writeText path new = .ok t') :
    t'.locate path = .ok (Path.place path) := by
  obtain ⟨q, hq, hnode, rfl⟩ := writeText_eq_ok hwrite
  rw [← locate_eq hq]
  exact locate_put hnode hq

/-- A file that is written is at the end of its path. -/
theorem at?_of_writeText (hwrite : t.writeText path new = .ok t') :
    t'.at? path = some (.file new) :=
  at?_eq_some_iff.2 ⟨_, locate_of_writeText hwrite, (holds_of_writeText hwrite).node⟩

/-- What is at the end of a path stays there when a file is written at another place. -/
theorem at?_writeText {other : String} (h : t.at? path = some n)
    (hne : Path.place other ≠ Path.place path) (hwrite : t.writeText other new = .ok t') :
    t'.at? path = some n := by
  obtain ⟨p, hp, hnode⟩ := at?_eq_some_iff.1 h
  obtain ⟨q, hq, hdirectory, rfl⟩ := writeText_eq_ok hwrite
  rw [← locate_eq hp, ← locate_eq hq] at hne
  exact at?_eq_some_iff.2 ⟨p, locate_put hdirectory hp, by rw [node?_put_of_ne hne.symm, hnode]⟩

/-- A text in ASCII can be written wherever a file may stand. -/
theorem writeText_of_ascii (h : t.locateFile path = .ok p) (hnew : Text.IsAscii new) :
    t.writeText path new = .ok (t.put p (.file new)) := by
  have hhalves : ∀ n ∈ Text.points new, Text.isHalf n = false := by
    intro n hn
    have hlt := Text.lt_of_mem_points_ascii hnew hn
    simp only [Text.isHalf, Bool.and_eq_false_iff, decide_eq_false_iff_not]
    omega
  have hfault : Text.encodingFault? new = none := Text.halvesFrom_eq_none hhalves 0
  refine bind_eq_ok_iff.2 ⟨p, bind_eq_ok_iff.2 ⟨p, h, ?_⟩, rfl⟩
  rw [hfault]

theorem locateFile_of_writeText (hwrite : t.writeText path new = .ok t') :
    ∃ p, t.locateFile path = .ok p := by
  obtain ⟨q, hlocate, -⟩ := bind_eq_ok_iff.1 hwrite
  obtain ⟨p, hp, -⟩ := bind_eq_ok_iff.1 hlocate
  exact ⟨p, hp⟩

/-- A change that may fail keeps what it keeps when it succeeds. -/
theorem change_preserves {I : FileTree → Prop} {f : FileTree → Except FileError FileTree}
    (h : ∀ t t', I t → f t = .ok t' → I t') : (change f).Preserves I := by
  intro t ht
  rw [change, runOn_ofFunction]
  split
  · rename_i t' hf
    exact h t t' ht hf
  · exact ht

/-- What every text is kept by keeps some text of a kind. -/
theorem preserves_holdsSome {ε α : Type} {x : Action FileTree ε α} {G : String → Prop}
    (hx : ∀ text, x.Preserves fun t => t.Holds p text) :
    x.Preserves fun t => t.HoldsSome p G := by
  rintro t ⟨text, ht, htext⟩
  exact ⟨text, hx text t ht, htext⟩

/-! ## Directories -/

/-- A directory is made at the end of a path, where there is nothing. -/
theorem makeDirectory_eq_ok (h : t.makeDirectory path = .ok t') :
    ∃ q, Path.Passes path q ∧ t.node? q = none ∧ t' = t.put q .directory := by
  unfold makeDirectory at h
  dsimp only at h
  split at h
  · cases h
  · rename_i q hlocate
    split at h
    · cases h
    · rename_i hnode
      refine ⟨q, ?_, by simpa using hnode, (Except.ok.inj h).symm⟩
      rw [locate_eq hlocate]
      split
      · exact Path.passes_place path
      · rename_i hbare
        have hbare : Path.dropSlashes path.toList ≠ [] := by simpa using hbare
        rcases Path.eq_or_heads_dropSlashes hbare with heq | hheads
        · rw [heq, String.ofList_toList]
          exact Path.passes_place path
        · have hpasses := (Path.passes_place _).of_heads hheads
          rwa [String.ofList_toList] at hpasses

section

variable {I : FileTree → Prop}

theorem ensureDirectory_preserves
    (h : ∀ t q, I t → t.node? q = none → Path.Passes path q → I (t.put q .directory)) :
    (ensureDirectory path).Preserves I := by
  intro t ht
  rw [ensureDirectory, runOn_ofFunction]
  split
  · rename_i t' hmake
    obtain ⟨q, hq, hnode, rfl⟩ := makeDirectory_eq_ok hmake
    exact h t q ht hnode hq
  · split <;> exact ht

theorem orTaken_preserves {x : Action FileTree FileError Unit} (hx : x.Preserves I) :
    (orTaken x).Preserves I := by
  refine Preserves.bind hx.outcome fun result => ?_
  split
  · exact .pure _
  · split
    · exact .pure _
    · exact .throw _

theorem makeAll_preserves (rounds : Nat)
    (h : ∀ t q, I t → t.node? q = none → Path.Passes path q → I (t.put q .directory)) :
    (makeAll rounds path).Preserves I := by
  induction rounds generalizing path with
  | zero => exact ensureDirectory_preserves h
  | succ rounds ih =>
    have habove : (makeAll rounds (splitLast path).1).Preserves I := by
      refine ih fun t q ht hnode hq => h t q ht hnode ?_
      have hpasses := Path.Passes.of_heads (by rwa [String.ofList_toList]) (Path.heads_splitLast path)
      rwa [String.ofList_toList] at hpasses
    have hread : (get : Action FileTree FileError FileTree).Preserves I := fun _ ht => ht
    rw [makeAll]
    refine Preserves.bind hread fun t => ?_
    dsimp only
    split
    · refine Preserves.bind (orTaken_preserves habove) fun _ => ?_
      split
      · exact ensureDirectory_preserves h
      · exact .pure _
    · exact ensureDirectory_preserves h

/-- **What is kept when directories are made**, which is done where there is nothing, and on the way
to the path. -/
theorem makeDirectories_preserves
    (h : ∀ t q, I t → t.node? q = none → Path.Passes path q → I (t.put q .directory)) :
    (makeDirectories path).Preserves I := makeAll_preserves path.length h

end

/-- A file stays when directories are made. -/
theorem Holds.put_directory (h : t.Holds p text) (hq : t.node? q = none) :
    (t.put q .directory).Holds p text := by
  refine h.put (by rw [hq]; simp) ?_
  rintro rfl
  rw [h.node] at hq
  cases hq

theorem makeDirectories_holds (path : String) (p : Place) (text : String) :
    (makeDirectories path).Preserves fun t => t.Holds p text :=
  makeDirectories_preserves fun _ _ ht hq _ => ht.put_directory hq

/-- Nothing is made at a place that the path does not lead through. -/
theorem makeDirectories_none (h : ¬ Path.Passes path p) :
    (makeDirectories path).Preserves fun t => t.node? p = none := by
  refine makeDirectories_preserves fun t q ht _ hq => ?_
  rw [node?_put_of_ne, ht]
  rintro rfl
  exact h hq

/-- Directories that are there are left as they are. -/
theorem ensureDirectory_of_locate (hspelled : Text.IsSpelled path.toList)
    (hlocate : t.locate path = .ok q) (hnode : t.node? q = some .directory) :
    (ensureDirectory path).runOn t = (.ok (), t) := by
  have hhas : t.hasDirectory path = true := by
    rw [hasDirectory, at?, hlocate]
    simp [hnode]
  -- Without the slashes at its end, too, the path leads to a directory.
  have htaken : ∃ e, t.makeDirectory path = .error e := by
    have hbare : ∃ q, t.locate (if (Path.dropSlashes path.toList).isEmpty then path
        else String.ofList (Path.dropSlashes path.toList)) = .ok q ∧
        t.node? q = some .directory := by
      split
      · exact ⟨q, hlocate, hnode⟩
      · rename_i hempty
        have hbare : Path.dropSlashes path.toList ≠ [] := by simpa using hempty
        rcases Path.eq_or_heads_dropSlashes hbare with heq | hheads
        · rw [heq, String.ofList_toList]
          exact ⟨q, hlocate, hnode⟩
        · refine locate_of_heads hheads hbare (hheads.isSpelled hspelled) (p := q) ?_
          rwa [String.ofList_toList]
    obtain ⟨r, hr, hdirectory⟩ := hbare
    unfold makeDirectory
    dsimp only
    rw [hr]
    simp [hdirectory]
  obtain ⟨e, he⟩ := htaken
  rw [ensureDirectory, runOn_ofFunction, he]
  simp [hhas]

theorem makeDirectories_of_locate (hspelled : Text.IsSpelled path.toList)
    (hlocate : t.locate path = .ok q) (hnode : t.node? q = some .directory) :
    (makeDirectories path).runOn t = (.ok (), t) := by
  have hensured := ensureDirectory_of_locate hspelled hlocate hnode
  unfold makeDirectories
  rcases path.length with _ | rounds
  · exact hensured
  · have habove : (splitLast path).1 ≠ "" → t.has (splitLast path).1 = true := by
      intro habove
      have hheads := Path.heads_splitLast path
      have hchars : (splitLast path).1.toList ≠ [] := mt String.toList_eq_nil_iff.1 habove
      have hfound := locate_of_heads hheads hchars (hheads.isSpelled hspelled) (p := q)
        (by rwa [String.ofList_toList])
      rw [String.ofList_toList] at hfound
      obtain ⟨r, hr, hdirectory⟩ := hfound
      rw [has, at?, hr]
      simp [hdirectory]
    rw [makeAll, runOn_bind, runOn_get]
    dsimp only
    rw [if_neg fun hmissing => ?_, hensured]
    rw [habove hmissing.1] at hmissing
    simp at hmissing

/-- The empty path names no directory. -/
theorem ne_empty_of_makeDirectories (h : (makeDirectories path).runOn t = (.ok (), t')) :
    path ≠ "" := by
  rintro rfl
  have hlocate : t.locate "" = .error .missing := rfl
  have hmake : t.makeDirectory "" = .error ⟨.missing, ""⟩ := by
    unfold makeDirectory
    dsimp only
    rw [if_pos (by decide), hlocate]
  have hhas : t.hasDirectory "" = false := by
    rw [hasDirectory, at?, hlocate]
    rfl
  have hfails : (ensureDirectory "").runOn t = (.error ⟨.missing, ""⟩, t) := by
    rw [ensureDirectory, runOn_ofFunction, hmake]
    simp [hhas]
  have hrun : (makeDirectories "").runOn t = (.error ⟨.missing, ""⟩, t) := hfails
  rw [hrun] at h
  cases h

/-! ## Moving -/

/-- What is at a place that is neither moved nor moved to. -/
theorem node?_move (hsource : ¬ source <+: q) (htarget : ¬ target <+: q) :
    (t.move source target).node? q = t.node? q := by
  have hne : q ≠ target := by
    rintro rfl
    exact htarget List.prefix_rfl
  unfold node?
  split
  · rfl
  · rw [move, remove]
    dsimp only
    induction t.nodes with
    | nil => rfl
    | cons entry nodes ih =>
      obtain ⟨k, n⟩ := entry
      by_cases hk : k = target
      · have hskip : Table.erase target ((k, n) :: nodes) = Table.erase target nodes := by
          simp [Table.erase, hk]
        rw [hskip, ih, Table.get?_cons, if_neg (by rw [hk]; exact Ne.symm hne)]
      · have hkeep : Table.erase target ((k, n) :: nodes) = (k, n) :: Table.erase target nodes := by
          simp [Table.erase, hk]
        rw [hkeep, List.map_cons]
        by_cases hmoved : source <+: k
        · -- What is moved is neither here before nor after.
          have hk' : k ≠ q := by
            rintro rfl
            exact hsource hmoved
          have hnew : target ++ k.drop source.length ≠ q := by
            rintro rfl
            exact htarget (List.prefix_append _ _)
          dsimp only
          rw [if_pos (List.isPrefixOf_iff_prefix.2 hmoved), Table.get?_cons, if_neg hnew, ih,
            Table.get?_cons, if_neg hk']
        · dsimp only
          rw [if_neg (by simpa using hmoved), Table.get?_cons, Table.get?_cons, ih]

/-- **A file stays when something is moved** that is not above it. -/
theorem Holds.move (h : t.Holds p text) (hsource : ¬ source <+: p) (htarget : target ≠ p)
    (hnode : t.node? target ≠ some .directory) : (t.move source target).Holds p text := by
  have hbelow := h.not_prefix hnode htarget
  constructor
  · rw [node?_move hsource hbelow, h.node]
  · intro q hq hne
    rw [node?_move (fun hs => hsource (hs.trans hq)) (fun ht => hbelow (ht.trans hq)), h.above q hq hne]

end GrammarSuite.FileTree
