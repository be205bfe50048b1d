import GrammarSuite.FileTree.Basic
import GrammarSuite.Proofs.Action
import GrammarSuite.Proofs.Text.Spelling
import Mathlib.Data.List.Induction
import Mathlib.Tactic.Common

/-!
# The places of paths

Where a path leads is seen from its text: a tree only decides whether it leads there. The parts of a
path are followed one after the other, and each part but the last must lead to a directory. So the
place of a path that is found is that of its text, and all places above it are directories.

## Main definitions

* `Place.step`, `Place.walk`: where a part, and where a list of parts leads
* `Path.parts`, `Path.base`, `Path.place`: the parts of a path, where it starts and where it leads
* `Path.Passes`: the places that a path leads through

## Main results

* `locate_eq`: the place at which something is found is that of the text
* `above_of_locate`: the places above it are directories
* `getLast?_place`: a place ends with the name that its path ends with
* `locate_of_heads`, `locate_of_join`: where a path leads, what it starts with leads to directories
-/

namespace GrammarSuite

/-! ## Parts and places -/

/-- Where a part of a path leads from a place. -/
def Place.step (place : Place) (part : String) : Place :=
  if part = "" ∨ part = "." then place
  else if part = ".." then
    if place = ["/"] then place
    else if place = [] ∨ place.getLast? = some ".." then place ++ [".."]
    else place.dropLast
  else place ++ [part]

/-- Where parts lead from a place. -/
def Place.walk (place : Place) (parts : List String) : Place := parts.foldl Place.step place

namespace Path

/-- The parts of a path. -/
def parts (path : String) : List String := (path.toList.splitOn '/').map String.ofList

/-- The place that a path starts from. -/
def base (path : String) : Place := if path.toList.head? = some '/' then ["/"] else []

/-- The place that a path leads to. -/
def place (path : String) : Place := (base path).walk (parts path)

/-- A path leads to or through a place. -/
def Passes (path : String) (p : Place) : Prop := ∃ k, p = (base path).walk ((parts path).take k)

end Path

namespace FileTree

variable {t : FileTree} {place p q : Place} {path : String}

theorem walk_append (place : Place) (front rest : List String) :
    place.walk (front ++ rest) = (place.walk front).walk rest := List.foldl_append

/-- A part is followed from a directory only. -/
theorem follow_cons {part : String} {rest : List String} (h : t.follow place (part :: rest) = .ok p) :
    t.node? place = some .directory ∧ t.follow (place.step part) rest = .ok p := by
  rw [follow] at h
  split at h
  · cases h
  · cases h
  · rename_i hdirectory
    refine ⟨hdirectory, ?_⟩
    rw [Place.step]
    split at h
    · rename_i hsame
      rw [if_pos hsame]
      exact h
    · rename_i hsame
      rw [if_neg hsame]
      split at h
      · rename_i hup
        rw [if_pos hup]
        exact h
      · rename_i hup
        rw [if_neg hup]
        split at h
        · cases h
        · exact h

theorem follow_eq {parts : List String} (h : t.follow place parts = .ok p) :
    p = place.walk parts := by
  induction parts generalizing place with
  | nil => exact (Except.ok.inj h).symm
  | cons part rest ih => exact ih (follow_cons h).2

/-- The places above a place are directories. -/
def IsAbove (t : FileTree) (p : Place) : Prop := ∀ q, q <+: p → q ≠ p → t.node? q = some .directory

/-- One step from a directory, below which there are only directories. -/
theorem IsAbove.step (h : t.IsAbove place) (hplace : t.node? place = some .directory)
    (part : String) : t.IsAbove (place.step part) := by
  have hall : ∀ q, q <+: place → t.node? q = some .directory := fun q hq => by
    by_cases he : q = place
    · rw [he]
      exact hplace
    · exact h q hq he
  have hconcat : ∀ name, t.IsAbove (place ++ [name]) := fun name q hq hne =>
    hall q ((List.prefix_concat_iff.1 hq).resolve_left hne)
  unfold Place.step
  split
  · exact h
  · split
    · split
      · exact h
      · split
        · exact hconcat ".."
        · exact fun q hq _ => hall q (hq.trans (List.dropLast_prefix place))
    · exact hconcat part

theorem above_of_follow {parts : List String} (h : t.follow place parts = .ok p)
    (hplace : t.IsAbove place) : t.IsAbove p := by
  induction parts generalizing place with
  | nil =>
    obtain rfl := Except.ok.inj h
    exact hplace
  | cons part rest ih =>
    obtain ⟨hdirectory, hrest⟩ := follow_cons h
    exact ih hrest (hplace.step hdirectory part)

theorem isAbove_base (t : FileTree) (path : String) : t.IsAbove (Path.base path) := by
  unfold Path.base
  split
  · intro q hq hne
    have hnil : q = [] := by
      rcases List.prefix_concat_iff.1 (show q <+: [] ++ ["/"] from hq) with he | hq
      · exact absurd he hne
      · exact List.prefix_nil.1 hq
    rw [hnil]
    rfl
  · intro q hq hne
    exact absurd (List.prefix_nil.1 hq) hne

/-- A path that is found has a form, and its parts are followed from where it starts. -/
theorem follow_of_locate (h : t.locate path = .ok p) :
    FileProblem.ofPath? path = none ∧ t.follow (Path.base path) (Path.parts path) = .ok p := by
  unfold locate at h
  split at h
  · cases h
  · cases h
  · rename_i c s hproblem hchars
    refine ⟨hproblem, ?_⟩
    rw [Path.base, Path.parts, hchars]
    simpa using h

/-- **The place at which something is found is that of the text.** -/
theorem locate_eq (h : t.locate path = .ok p) : p = Path.place path :=
  follow_eq (follow_of_locate h).2

/-- **The places above it are directories.** -/
theorem above_of_locate (h : t.locate path = .ok p) : t.IsAbove p :=
  above_of_follow (follow_of_locate h).2 (isAbove_base t path)

end FileTree

/-! ## Names at the end -/

namespace Path

/-- A name that stands for itself in a path. -/
structure IsName (name : String) : Prop where
  noSlash : '/' ∉ name.toList
  ne_empty : name ≠ ""
  ne_dot : name ≠ "."
  ne_up : name ≠ ".."

/-- The part of a path in front of a name: it is empty or ends with a slash. -/
def IsFront (front : List Char) : Prop := front = [] ∨ ∃ before, front = before ++ ['/']

theorem splitOn_slash (before rest : List Char) :
    (before ++ '/' :: rest).splitOn '/' = before.splitOn '/' ++ rest.splitOn '/' :=
  List.splitOnP_append_cons before rest (by decide)

theorem parts_slash (before rest : List Char) :
    parts (String.ofList (before ++ '/' :: rest)) =
      parts (String.ofList before) ++ parts (String.ofList rest) := by
  simp only [parts, String.toList_ofList, splitOn_slash, List.map_append]

theorem parts_of_noSlash {name : String} (h : '/' ∉ name.toList) : parts name = [name] := by
  have hsplit : name.toList.splitOn '/' = [name.toList] :=
    List.splitOnP_eq_singleton fun c hc => by
      rw [beq_eq_false_iff_ne]
      rintro rfl
      exact h hc
  rw [parts, hsplit, List.map_singleton, String.ofList_toList]

/-- The last part of a path that ends with a name is this name. -/
theorem exists_parts {front : List Char} {name : String} (hfront : IsFront front)
    (h : '/' ∉ name.toList) :
    ∃ before, parts (String.ofList (front ++ name.toList)) = before ++ [name] := by
  rcases hfront with rfl | ⟨before, rfl⟩
  · exact ⟨[], by rw [List.nil_append, String.ofList_toList, parts_of_noSlash h, List.nil_append]⟩
  · refine ⟨parts (String.ofList before), ?_⟩
    rw [List.append_assoc, List.singleton_append, parts_slash, String.ofList_toList,
      parts_of_noSlash h]

/-- A name leads one place down. -/
theorem step_name {name : String} (h : IsName name) (place : Place) :
    place.step name = place ++ [name] := by
  rw [Place.step, if_neg (by simp [h.ne_empty, h.ne_dot]), if_neg h.ne_up]

/-- A path of names leads to the place that they name, if the places above it are directories. -/
theorem follow_of_isAbove {t : FileTree} {place : Place} {parts : List String}
    (hparts : ∀ part ∈ parts, IsName part ∧ Text.byteSize part ≤ longestName)
    (h : t.IsAbove (place ++ parts)) : t.follow place parts = .ok (place ++ parts) := by
  induction parts generalizing place with
  | nil => rw [FileTree.follow, List.append_nil]
  | cons part rest ih =>
    obtain ⟨⟨hname, hsize⟩, hrest⟩ := List.forall_mem_cons.1 hparts
    have hplace : t.node? place = some .directory :=
      h place (List.prefix_append _ _) (by simp)
    rw [List.append_cons] at h ⊢
    rw [FileTree.follow, hplace]
    dsimp only
    rw [if_neg (by simp [hname.ne_empty, hname.ne_dot]), if_neg hname.ne_up,
      if_neg (Nat.not_lt.2 hsize), ih hrest h]

/-- **A place ends with the name that its path ends with.** -/
theorem getLast?_place {front : List Char} {name : String} (hfront : IsFront front)
    (h : IsName name) : (place (String.ofList (front ++ name.toList))).getLast? = some name := by
  obtain ⟨before, hparts⟩ := exists_parts hfront h.noSlash
  rw [place, hparts, FileTree.walk_append]
  show (Place.step _ name).getLast? = some name
  rw [step_name h, List.getLast?_concat]

/-- A path is a front and a name without slashes. -/
theorem exists_front (path : List Char) :
    ∃ front name : List Char, path = front ++ name ∧ IsFront front ∧ '/' ∉ name := by
  induction path using List.reverseRecOn with
  | nil => exact ⟨[], [], rfl, .inl rfl, by simp⟩
  | append_singleton path c ih =>
    by_cases hc : c = '/'
    · exact ⟨path ++ [c], [], by simp, .inr ⟨path, by rw [hc]⟩, by simp⟩
    · obtain ⟨front, name, rfl, hfront, hname⟩ := ih
      refine ⟨front, name ++ [c], by simp, hfront, ?_⟩
      simp [hname, Ne.symm hc]

/-- What does not end with a dot is a name. -/
theorem isName_of_getLast? {name : String} {c : Char} (h : '/' ∉ name.toList)
    (hlast : name.toList.getLast? = some c) (hc : c ≠ '.') : IsName name where
  noSlash := h
  ne_empty := by
    rintro rfl
    simp at hlast
  ne_dot := by
    rintro rfl
    exact hc (Option.some.inj hlast).symm
  ne_up := by
    rintro rfl
    exact hc (Option.some.inj hlast).symm

/-- A path with a suffix that is no name of its own leads to a place that ends with the suffix. -/
theorem getLast?_place_append (path : String) {suffix : String} {c : Char}
    (h : '/' ∉ suffix.toList) (hlast : suffix.toList.getLast? = some c) (hc : c ≠ '.') :
    ∃ name, (place (path ++ suffix)).getLast? = some name ∧ name.toList.getLast? = some c := by
  obtain ⟨front, start, hpath, hfront, hstart⟩ := exists_front path.toList
  let name := String.ofList (start ++ suffix.toList)
  have hchars : name.toList = start ++ suffix.toList := String.toList_ofList
  have hend : name.toList.getLast? = some c := by
    rw [hchars, List.getLast?_append, hlast, Option.some_or]
  have hname : IsName name := isName_of_getLast? (by rw [hchars]; simp [hstart, h]) hend hc
  have hsplit : path ++ suffix = String.ofList (front ++ name.toList) := by
    rw [hchars, ← List.append_assoc, ← hpath, ← String.toList_append, String.ofList_toList]
  exact ⟨name, by rw [hsplit, getLast?_place hfront hname], hend⟩

/-- A path below a directory is a front and the path. -/
theorem exists_join (directory : String) {name : String} (h : name.toList.head? ≠ some '/') :
    ∃ front, join directory name = String.ofList (front ++ name.toList) ∧ IsFront front := by
  unfold join
  rw [if_neg h]
  split
  · rename_i hfront
    refine ⟨directory.toList, by rw [← String.toList_append, String.ofList_toList], ?_⟩
    rcases hfront with hempty | hslash
    · exact .inl (String.toList_eq_nil_iff.2 (String.isEmpty_iff.1 hempty))
    · exact .inr (List.getLast?_eq_some_iff.1 hslash)
  · refine ⟨directory.toList ++ ['/'], ?_, .inr ⟨_, rfl⟩⟩
    have hslash : "/".toList = ['/'] := rfl
    rw [← hslash, ← String.toList_append, ← String.toList_append, String.ofList_toList]

/-- **A path below a directory leads to a place with its name.** -/
theorem getLast?_place_join (directory : String) {name : String} (h : IsName name) :
    (place (join directory name)).getLast? = some name := by
  have hhead : name.toList.head? ≠ some '/' := fun hslash =>
    h.noSlash (List.mem_of_mem_head? hslash)
  obtain ⟨front, hjoin, hfront⟩ := exists_join directory hhead
  rw [hjoin, getLast?_place hfront h]

/-- A path below a directory with a suffix. -/
theorem join_append (directory : String) {name : String} (h : name ≠ "") (suffix : String) :
    join directory name ++ suffix = join directory (name ++ suffix) := by
  have hhead : (name ++ suffix).toList.head? = name.toList.head? := by
    obtain ⟨c, rest, hname⟩ := List.exists_cons_of_ne_nil (mt String.toList_eq_nil_iff.1 h)
    rw [String.toList_append, hname]
    rfl
  unfold join
  rw [hhead]
  split
  · rfl
  · split
    · rw [String.append_assoc]
    · rw [String.append_assoc]

/-! ## Paths on the way -/

/-- A path leads to its place. -/
theorem passes_place (path : String) : Passes path (place path) :=
  ⟨(parts path).length, by rw [List.take_length, place]⟩

theorem base_append {bare : List Char} (h : bare ≠ []) (rest : List Char) :
    base (String.ofList (bare ++ rest)) = base (String.ofList bare) := by
  obtain ⟨c, bare, rfl⟩ := List.exists_cons_of_ne_nil h
  simp [base]

theorem parts_of_slashes {slashes : List Char} (h : slashes.all (· == '/') = true) :
    ∀ part ∈ parts (String.ofList slashes), part = "" := by
  induction slashes with
  | nil => exact fun part hpart => List.mem_singleton.1 hpart
  | cons c slashes ih =>
    rw [List.all_cons, Bool.and_eq_true, beq_iff_eq] at h
    have hsplit := parts_slash [] slashes
    rw [List.nil_append] at hsplit
    rw [h.1, hsplit]
    exact fun part hpart => (List.mem_append.1 hpart).elim (fun hp => List.mem_singleton.1 hp) (ih h.2 part)

theorem walk_of_empty {parts : List String} (h : ∀ part ∈ parts, part = "") (place : Place) :
    place.walk parts = place := by
  induction parts with
  | nil => rfl
  | cons part parts ih =>
    obtain ⟨rfl, hparts⟩ := List.forall_mem_cons.1 h
    exact ih hparts

/-- Slashes lead nowhere. -/
theorem Passes.of_slashes {slashes : List Char} {p : Place}
    (hp : Passes (String.ofList slashes) p) (h : slashes.all (· == '/') = true) :
    p = base (String.ofList slashes) := by
  obtain ⟨k, rfl⟩ := hp
  exact walk_of_empty (fun part hpart => parts_of_slashes h part (List.mem_of_mem_take hpart)) _

theorem exists_slashes (s : List Char) :
    ∃ slashes, s = dropSlashes s ++ slashes ∧ slashes.all (· == '/') = true := by
  refine ⟨(s.reverse.takeWhile (· == '/')).reverse, ?_, ?_⟩
  · rw [dropSlashes, ← List.reverse_append, List.takeWhile_append_dropWhile, List.reverse_reverse]
  · rw [List.all_reverse]
    exact List.all_takeWhile

theorem all_of_dropSlashes {s : List Char} (h : dropSlashes s = []) : s.all (· == '/') = true := by
  obtain ⟨slashes, hs, hall⟩ := exists_slashes s
  rw [h, List.nil_append] at hs
  rwa [hs]

theorem dropSlashes_concat (s : List Char) : dropSlashes (s ++ ['/']) = dropSlashes s := by
  simp [dropSlashes]

/-- The start of a path, up to one of its slashes; or slashes that it starts with. -/
def Heads (start path : List Char) : Prop :=
  (start ≠ [] ∧ ∃ rest, path = start ++ '/' :: rest) ∨
    (start.all (· == '/') = true ∧ start <+: path ∧
      base (String.ofList path) = base (String.ofList start))

theorem Heads.trans {s t u : List Char} (h : Heads s t) (h' : Heads t u) : Heads s u := by
  rcases h with ⟨hs, rest, rfl⟩ | ⟨hall, hst, hbase⟩
  · rcases h' with ⟨-, rest', rfl⟩ | ⟨hall, htu, hbase⟩
    · exact .inl ⟨hs, rest ++ '/' :: rest', by simp⟩
    · rw [List.all_append, Bool.and_eq_true] at hall
      refine .inr ⟨hall.1, (List.prefix_append _ _).trans htu, ?_⟩
      rw [hbase, base_append hs]
  · rcases h' with ⟨ht, rest', rfl⟩ | ⟨-, htu, hbase'⟩
    · exact .inr ⟨hall, hst.trans (List.prefix_append _ _), by rw [base_append ht, hbase]⟩
    · exact .inr ⟨hall, hst.trans htu, hbase'.trans hbase⟩

/-- What the start of a path leads through, the path leads through. -/
theorem Passes.of_heads {start path : List Char} {p : Place}
    (hp : Passes (String.ofList start) p) (h : Heads start path) :
    Passes (String.ofList path) p := by
  rcases h with ⟨hne, rest, rfl⟩ | ⟨hall, -, hbase⟩
  · obtain ⟨k, rfl⟩ := hp
    refine ⟨min k (parts (String.ofList start)).length, ?_⟩
    rw [base_append hne, parts_slash, List.take_append_of_le_length (Nat.min_le_right _ _)]
    rcases Nat.le_total k (parts (String.ofList start)).length with hk | hk
    · rw [Nat.min_eq_left hk]
    · rw [Nat.min_eq_right hk, List.take_of_length_le hk, List.take_length]
  · exact ⟨0, by rw [hbase]; exact hp.of_slashes hall⟩

/-- A path without the slashes at its end, unless there is nothing else. -/
theorem eq_or_heads_dropSlashes {s : List Char} (h : dropSlashes s ≠ []) :
    dropSlashes s = s ∨ Heads (dropSlashes s) s := by
  obtain ⟨slashes, hs, hall⟩ := exists_slashes s
  cases slashes with
  | nil => exact .inl (by rw [List.append_nil] at hs; exact hs.symm)
  | cons c slashes =>
    rw [List.all_cons, Bool.and_eq_true, beq_iff_eq] at hall
    exact .inr (.inl ⟨h, slashes, by rw [← hall.1]; exact hs⟩)

/-- The part of a path in front of the name at its end. -/
theorem dropWhile_name {front name : List Char} (hfront : IsFront front) (hname : '/' ∉ name) :
    ((front ++ name).reverse.dropWhile (· != '/')).reverse = front := by
  have hskip : ∀ c ∈ name.reverse, (c != '/') = true := fun c hc => by
    rw [bne_iff_ne]
    rintro rfl
    exact hname (List.mem_reverse.1 hc)
  rw [List.reverse_append, List.dropWhile_append_of_pos hskip]
  rcases hfront with rfl | ⟨before, rfl⟩ <;> simp

/-- The directory of a path is a start of it. -/
theorem heads_parent (path : String) : Heads (parent path).toList path.toList := by
  obtain ⟨front, name, hpath, hfront, hname⟩ := exists_front path.toList
  unfold parent
  rw [hpath, dropWhile_name hfront hname, String.toList_ofList]
  split
  · -- Only slashes stand in front of the name.
    rename_i hall
    refine .inr ⟨hall, List.prefix_append _ _, ?_⟩
    cases front with
    | nil =>
      cases name with
      | nil => rfl
      | cons c name =>
        have hc : c ≠ '/' := fun he => hname (by rw [he]; exact List.mem_cons_self)
        simp [base, hc]
    | cons c front => exact base_append (List.cons_ne_nil c front) name
  · rename_i hall
    rcases hfront with rfl | ⟨before, rfl⟩
    · simp at hall
    · have hbefore : dropSlashes before ≠ [] := fun hnil => by
        have hslashes := all_of_dropSlashes hnil
        rw [List.all_append, hslashes] at hall
        exact hall rfl
      rw [dropSlashes_concat, List.append_assoc, List.singleton_append]
      rcases eq_or_heads_dropSlashes hbefore with heq | hheads
      · exact .inl ⟨hbefore, name, by rw [heq]⟩
      · have hlonger : Heads before (before ++ '/' :: name) :=
          .inl ⟨by rintro rfl; exact hbefore rfl, name, rfl⟩
        exact hheads.trans hlonger

/-- The directory that a path is made in is a start of it. -/
theorem heads_splitLast (path : String) :
    Heads (FileTree.splitLast path).1.toList path.toList := by
  unfold FileTree.splitLast
  split
  · exact (heads_parent _).trans (heads_parent path)
  · exact heads_parent path

/-- The start of a spelled path is spelled. -/
theorem Heads.isSpelled {start path : List Char} (h : Heads start path)
    (hpath : Text.IsSpelled path) : Text.IsSpelled start := by
  rcases h with ⟨-, rest, rfl⟩ | ⟨hall, -, -⟩
  · exact (hpath.split (by decide)).1
  · refine Text.isSpelled_of_plain fun c hc => ?_
    rw [eq_of_beq (List.all_eq_true.1 hall c hc)]
    decide

end Path

namespace FileTree

variable {t : FileTree} {place p : Place}

/-! ## What is found on the way -/

theorem follow_append (place : Place) (front rest : List String) :
    t.follow place (front ++ rest) = t.follow place front >>= fun q => t.follow q rest := by
  induction front generalizing place with
  | nil => rfl
  | cons part front ih =>
    rw [List.cons_append, follow, follow]
    split
    · rfl
    · rfl
    · split
      · exact ih _
      · split
        · exact ih _
        · split
          · rfl
          · exact ih _

/-- On the way to a place there are directories. -/
theorem follow_front {front rest : List String} (hrest : rest ≠ [])
    (h : t.follow place (front ++ rest) = .ok p) :
    ∃ q, t.follow place front = .ok q ∧ t.node? q = some .directory := by
  rw [follow_append] at h
  obtain ⟨q, hq, hnext⟩ := Action.bind_eq_ok_iff.1 h
  obtain ⟨part, rest, rfl⟩ := List.exists_cons_of_ne_nil hrest
  exact ⟨q, hq, (follow_cons hnext).1⟩

/-- Slashes do not lead away from a directory. -/
theorem follow_of_empty {parts : List String} (h : ∀ part ∈ parts, part = "")
    (hplace : t.node? place = some .directory) : t.follow place parts = .ok place := by
  induction parts with
  | nil => rfl
  | cons part parts ih =>
    obtain ⟨rfl, hparts⟩ := List.forall_mem_cons.1 h
    rw [follow, hplace]
    exact ih hparts

/-- A path that has a form is found by following its parts. -/
theorem locate_of_follow {path : String} (hform : FileProblem.ofPath? path = none) (hne : path ≠ "")
    (h : t.follow (Path.base path) (Path.parts path) = .ok p) : t.locate path = .ok p := by
  unfold locate
  split
  · simp_all
  · rename_i hempty
    exact absurd (String.toList_eq_nil_iff.1 hempty) hne
  · rename_i c s _ hchars
    rw [Path.base, Path.parts, hchars] at h
    simpa using h

theorem strayHalvesFrom_append {position : Nat} {ns ms : List Nat}
    (h : Text.strayHalvesFrom position (ns ++ ms) = none) :
    Text.strayHalvesFrom position ns = none := by
  induction ns generalizing position with
  | nil => rfl
  | cons n ns ih =>
    rw [List.cons_append, Text.strayHalvesFrom] at h
    rw [Text.strayHalvesFrom]
    split at h
    · cases h
    · rename_i hstray
      rw [if_neg hstray]
      exact ih h

/-- The start of a spelled path has a form if the path has one. -/
theorem ofPath?_of_append {start rest : List Char} (hstart : Text.IsSpelled start)
    (h : FileProblem.ofPath? (String.ofList (start ++ rest)) = none) :
    FileProblem.ofPath? (String.ofList start) = none := by
  have hpoints : Text.points (String.ofList (start ++ rest)) =
      Text.points (String.ofList start) ++ Text.pointsOf rest := by
    rw [Text.points, Text.points, String.toList_ofList, String.toList_ofList,
      Text.pointsOf_append hstart]
  unfold FileProblem.ofPath? at h ⊢
  split at h
  · cases h
  · rename_i hfault
    have hstray : Text.nameFault? (String.ofList start) = none := by
      rw [Text.nameFault?, hpoints] at hfault
      exact strayHalvesFrom_append hfault
    rw [hstray]
    dsimp only
    split at h
    · cases h
    · rename_i hnull
      rw [String.toList_ofList] at hnull ⊢
      rw [if_neg fun hmem => hnull (List.mem_append_left _ hmem)]
      split at h
      · cases h
      · rename_i hlong
        refine if_neg fun hlonger => hlong (Nat.lt_of_lt_of_le hlonger ?_)
        rw [Text.byteSize, Text.byteSize, Text.bytes, Text.bytes, hpoints, List.flatMap_append,
          List.length_append]
        exact Nat.le_add_right _ _

/-- **Where a path leads, its starts lead to directories.** -/
theorem locate_of_heads {start path : List Char} (h : Path.Heads start path) (hne : start ≠ [])
    (hspelled : Text.IsSpelled start) (hlocate : t.locate (String.ofList path) = .ok p) :
    ∃ q, t.locate (String.ofList start) = .ok q ∧ t.node? q = some .directory := by
  obtain ⟨hform, hfollow⟩ := follow_of_locate hlocate
  have hne' : String.ofList start ≠ "" := by simpa using hne
  rcases h with ⟨-, rest, rfl⟩ | ⟨hall, ⟨rest, rfl⟩, -⟩
  · rw [Path.base_append hne, Path.parts_slash] at hfollow
    obtain ⟨q, hq, hnode⟩ := follow_front
      (by simp [Path.parts, List.splitOn, List.splitOnP_ne_nil]) hfollow
    exact ⟨q, locate_of_follow (ofPath?_of_append hspelled hform) hne' hq, hnode⟩
  · have hbase : t.node? (Path.base (String.ofList start)) = some .directory := by
      unfold Path.base
      split <;> rfl
    exact ⟨_, locate_of_follow (ofPath?_of_append hspelled hform) hne'
      (follow_of_empty (Path.parts_of_slashes hall) hbase), hbase⟩

/-- Where a path below a directory leads, its directory is. -/
theorem locate_of_join {directory name : String} (hne : directory ≠ "")
    (hspelled : Text.IsSpelled directory.toList) (hname : name.toList.head? ≠ some '/')
    (hlocate : t.locate (Path.join directory name) = .ok p) :
    ∃ q, t.locate directory = .ok q ∧ t.node? q = some .directory := by
  have hchars : directory.toList ≠ [] := mt String.toList_eq_nil_iff.1 hne
  have hempty : directory.isEmpty = false := by simpa using hne
  obtain ⟨hform, hfollow⟩ := follow_of_locate hlocate
  by_cases hslash : directory.toList.getLast? = some '/'
  · -- The slash at the end is passed, as an empty part, from the directory in front of it.
    obtain ⟨before, hbefore⟩ := List.getLast?_eq_some_iff.1 hslash
    have hjoin : Path.join directory name = String.ofList (directory.toList ++ name.toList) := by
      rw [Path.join, if_neg hname, if_pos (.inr hslash), ← String.toList_append, String.ofList_toList]
    have hparts : Path.parts directory = Path.parts (String.ofList before) ++ [""] := by
      rw [← String.ofList_toList (s := directory), hbefore, Path.parts_slash]
      rfl
    rw [hjoin, Path.base_append hchars, String.ofList_toList] at hfollow
    rw [hjoin] at hform
    have hform := ofPath?_of_append hspelled hform
    rw [String.ofList_toList] at hform
    rw [hbefore, List.append_assoc, List.singleton_append, Path.parts_slash] at hfollow
    obtain ⟨q, hq, hnode⟩ := follow_front
      (by simp [Path.parts, List.splitOn, List.splitOnP_ne_nil]) hfollow
    refine ⟨q, locate_of_follow hform hne ?_, hnode⟩
    rw [hparts, follow_append, hq]
    exact follow_of_empty (fun part hpart => List.mem_singleton.1 hpart) hnode
  · have hjoin : Path.join directory name =
        String.ofList (directory.toList ++ '/' :: name.toList) := by
      rw [Path.join, if_neg hname, if_neg (by simp [hempty, hslash])]
      simp [← String.toList_inj]
    rw [hjoin] at hlocate
    have hheads : Path.Heads directory.toList (directory.toList ++ '/' :: name.toList) :=
      .inl ⟨hchars, name.toList, rfl⟩
    have hfound := locate_of_heads hheads hchars hspelled hlocate
    rwa [String.ofList_toList] at hfound

end FileTree

end GrammarSuite
