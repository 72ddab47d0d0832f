import Mathlib.Data.List.Dedup
import Mathlib.Data.List.Perm.Subperm
import Pseudocode.Proofs.Places.Mirror
/-
# `Proofs.Places.Keys` — how many modules there are

A module out of a file is identified by the absolute path of the file, cleaned as text,
while the file itself is found by following the path through the tree.  The two agree
(`absolute_of_reach`): a path that can be followed at all leads to the pieces of its clean
form.  So different keys belong to different files, and imports in progress that are all
different are no more than the module files in the tree and in the embedded library, and the
one file more that a session may have begun with (`Setup.Chains.length_le`).
-/
namespace Pseudocode

/-! ## Pieces of paths -/

namespace Path

theorem split_plain {e : List Char} (plain : '/' ∉ e) : split e = [e] := by
  induction e with
  | nil => rfl
  | cons c rest ih =>
    have other : ¬ c = '/' := fun same => plain (same ▸ List.mem_cons_self)
    rw [split, if_neg other, ih fun h => plain (List.mem_cons_of_mem c h)]

/-- What follows the last slash is in the last piece. -/
theorem split_append_plain {e : List Char} (plain : '/' ∉ e) (cs : List Char) :
    ∃ init last, split (cs ++ e) = init ++ [last ++ e] := by
  induction cs with
  | nil => exact ⟨[], [], split_plain plain⟩
  | cons c rest ih =>
    obtain ⟨init, last, split_rest⟩ := ih
    rw [List.cons_append, split, split_rest]
    split
    · exact ⟨[] :: init, last, rfl⟩
    · cases init with
      | nil => exact ⟨[], c :: last, rfl⟩
      | cons piece init => exact ⟨(c :: piece) :: init, last, rfl⟩

theorem split_ne_nil (cs : List Char) : split cs ≠ [] := by
  cases cs with
  | nil => exact List.cons_ne_nil _ _
  | cons c rest =>
    rw [split]
    split
    · exact List.cons_ne_nil _ _
    · split <;> exact List.cons_ne_nil _ _

theorem split_append_slash (cs ds : List Char) :
    split (cs ++ '/' :: ds) = split cs ++ split ds := by
  induction cs with
  | nil => rfl
  | cons c rest ih =>
    rw [List.cons_append, split, ih, split]
    split
    · rfl
    · cases pieces : split rest with
      | nil => exact absurd pieces (split_ne_nil rest)
      | cons piece more => rfl

theorem pieces_join (dir p : String) : pieces (dir ++ "/" ++ p) = pieces dir ++ pieces p := by
  have chars : (dir ++ "/" ++ p).toList = dir.toList ++ '/' :: p.toList := by
    rw [String.toList_append, String.toList_append, List.append_assoc]
    rfl
  rw [pieces, chars, split_append_slash, List.map_append, pieces, pieces]

theorem isAbsolute_append {dir : String} (rooted : isAbsolute dir = true) (p : String) :
    isAbsolute (dir ++ p) = true := by
  rw [isAbsolute, decide_eq_true_iff] at rooted ⊢
  rw [String.toList_append, List.head?_append, rooted]
  rfl

theorem ne_empty_of_isAbsolute {dir : String} (rooted : isAbsolute dir = true) : dir ≠ "" := by
  rintro rfl
  cases rooted

/-- The text of a path from the root on. -/
def ofPieces (ps : List String) : String := "/" ++ "/".intercalate ps

theorem clean_of_isAbsolute {p : String} (rooted : isAbsolute p = true) :
    clean p = ofPieces (cleanPieces p) := if_pos rooted

/-! ## Endings -/

theorem endsIn_iff {ending p : String} : endsIn ending p = true ↔ ending.toList <:+ p.toList :=
  List.isSuffixOf_iff_suffix

theorem endsIn_append_left {ending : String} (p : String) {q : String} (h : endsIn ending q = true) :
    endsIn ending (p ++ q) = true := by
  rw [endsIn_iff, String.toList_append]
  exact (endsIn_iff.mp h).trans (List.suffix_append _ _)

theorem endsIn_intercalate {ending last : String} (h : endsIn ending last = true) :
    ∀ ps : List String, endsIn ending ("/".intercalate (ps ++ [last])) = true
  | [] => by rwa [List.nil_append, String.intercalate_singleton]
  | [p] => by
    rw [List.singleton_append, String.intercalate_cons_cons, String.intercalate_singleton]
    exact endsIn_append_left _ h
  | p :: q :: ps => by
    rw [List.cons_append, List.cons_append, String.intercalate_cons_cons]
    exact endsIn_append_left _ (endsIn_intercalate h (q :: ps))

/-- The last piece of a path to a module is a name, and not one that leads elsewhere. -/
theorem cleanPieces_module {p : String} (h : endsIn Run.moduleEnding p = true) :
    ∃ init last, cleanPieces p = init ++ [last] ∧ endsIn Run.moduleEnding last = true := by
  obtain ⟨start, whole⟩ := endsIn_iff.mp h
  obtain ⟨init, last, split_p⟩ := split_append_plain
    (show '/' ∉ Run.moduleEnding.toList by decide) start
  have pieces_p : pieces p = init.map String.ofList ++
      [String.ofList (last ++ Run.moduleEnding.toList)] := by
    rw [pieces, ← whole, split_p, List.map_append, List.map_cons, List.map_nil]
  have ends : endsIn Run.moduleEnding (String.ofList (last ++ Run.moduleEnding.toList)) = true := by
    rw [endsIn_iff, String.toList_ofList]
    exact List.suffix_append _ _
  -- A piece that is skipped or leads up is too short for the ending.
  have keeps : ∀ kept, cleanStep (isAbsolute p) kept
      (String.ofList (last ++ Run.moduleEnding.toList)) =
        String.ofList (last ++ Run.moduleEnding.toList) :: kept := by
    intro kept
    have short : ∀ q : String, endsIn Run.moduleEnding q = false →
        String.ofList (last ++ Run.moduleEnding.toList) ≠ q := by
      rintro q no rfl
      rw [ends] at no
      cases no
    rw [cleanStep.eq_def, if_neg, if_neg (short ".." (by decide))]
    rw [Bool.or_eq_true, decide_eq_true_iff, decide_eq_true_iff]
    exact not_or.mpr ⟨short "" (by decide), short "." (by decide)⟩
  refine ⟨((init.map String.ofList).foldl (cleanStep (isAbsolute p)) []).reverse, _, ?_, ends⟩
  rw [cleanPieces, pieces_p, List.foldl_append, List.foldl_cons, List.foldl_nil, keeps,
    List.reverse_cons]

theorem endsIn_clean {p : String} (h : endsIn Run.moduleEnding p = true) :
    endsIn Run.moduleEnding (clean p) = true := by
  obtain ⟨init, last, pieces, ends⟩ := cleanPieces_module h
  have joined := endsIn_intercalate ends init
  rw [clean, pieces]
  split
  · exact endsIn_append_left _ joined
  · split
    next empty =>
      rw [empty] at joined
      cases joined
    next => exact joined

theorem endsIn_join {dir p : String} (h : endsIn Run.moduleEnding p = true) :
    endsIn Run.moduleEnding (join dir p) = true := by
  have named : p ≠ "" := by
    rintro rfl
    cases h
  rw [join, if_neg named, if_neg named]
  split
  · exact endsIn_clean h
  · exact endsIn_clean (endsIn_append_left _ h)

theorem endsIn_absolute {working p : String} (h : endsIn Run.moduleEnding p = true) :
    endsIn Run.moduleEnding (absolute working p) = true := by
  rw [absolute]
  split
  · exact endsIn_clean h
  · exact endsIn_join h

theorem endsIn_candidate (name dir : String) :
    endsIn Run.moduleEnding (Run.candidate (Run.moduleFile name) dir) = true := by
  have ends : endsIn Run.moduleEnding (Run.moduleFile name) = true :=
    endsIn_append_left _ (endsIn_iff.mpr (List.suffix_refl _))
  rw [Run.candidate]
  split
  · exact ends
  · exact endsIn_join ends

end Path

theorem mem_of_lookup {α β : Type} [BEq α] [LawfulBEq α] {entries : List (α × β)} {key : α} {v : β}
    (h : entries.lookup key = some v) : (key, v) ∈ entries := by
  obtain ⟨before, after, rfl, -⟩ := List.lookup_eq_some_iff.mp h
  exact List.mem_append_right _ List.mem_cons_self

/-! ## Following paths -/

namespace FileTree

variable {t : FileTree} {here there : List String}

theorem after?_eq {start pieces inside : List String} (h : after? start pieces = some inside) :
    pieces = start ++ inside := by
  induction start generalizing pieces with
  | nil => exact Option.some.inj h
  | cons s start ih =>
    cases pieces with
    | nil => cases h
    | cons p ps =>
      rw [after?] at h
      split at h
      next same => rw [same, List.cons_append, ← ih h]
      next => cases h

/-- A path that can be followed leads to where its pieces lead as text. -/
theorem follow_eq : ∀ {ps here there : List String}, ".." ∉ here → t.follow here ps = .ok there →
    (ps.foldl (Path.cleanStep true) here.reverse).reverse = there
  | [], here, there, _, h => by
    rw [List.foldl_nil, List.reverse_reverse]
    exact Except.ok.inj h
  | piece :: ps, here, there, down, h => by
    rw [follow] at h
    split at h
    · cases h
    · cases h
    rw [List.foldl_cons, Path.cleanStep.eq_def]
    split at h
    next stays =>
      rw [if_pos stays]
      exact follow_eq down h
    next =>
      rw [if_neg ‹_›]
      split at h
      next up =>
        rw [if_pos up]
        have back := follow_eq (fun mem => down (List.dropLast_subset _ mem)) h
        cases back_here : here.reverse with
        | nil =>
          obtain rfl := List.reverse_eq_nil_iff.mp back_here
          exact back
        | cons last more =>
          have pieces : here = more.reverse ++ [last] := by
            rw [← List.reverse_cons, ← back_here, List.reverse_reverse]
          have named : last ≠ ".." := by
            rintro rfl
            exact down (pieces ▸ List.mem_append_right _ List.mem_cons_self)
          rw [pieces, List.dropLast_concat, List.reverse_reverse] at back
          dsimp only
          rw [if_neg named]
          exact back
      next further =>
        rw [if_neg further]
        have down' : ".." ∉ here ++ [piece] := by
          intro mem
          rcases List.mem_append.mp mem with mem | mem
          · exact down mem
          · exact further (List.mem_singleton.mp mem).symm
        have on := follow_eq down' h
        rwa [List.reverse_append, List.reverse_singleton, List.singleton_append] at on

theorem up_not_mem_clean : ∀ (ps kept : List String), ".." ∉ kept →
    ".." ∉ ps.foldl (Path.cleanStep true) kept
  | [], _, down => down
  | piece :: ps, kept, down => by
    rw [List.foldl_cons]
    refine up_not_mem_clean ps _ ?_
    rw [Path.cleanStep.eq_def]
    split
    · exact down
    · split
      · cases kept with
        | nil => exact List.not_mem_nil
        | cons last more =>
          have named : last ≠ ".." := fun same => down (same ▸ List.mem_cons_self)
          dsimp only
          rw [if_neg named]
          exact fun mem => down (List.mem_cons_of_mem _ mem)
      next named =>
        intro mem
        rcases List.mem_cons.mp mem with same | mem
        · exact named same.symm
        · exact down mem

/-- A path that leads somewhere leads to the pieces of its absolute form. -/
theorem absolute_of_reach (rooted : Path.isAbsolute t.working = true) {path : String}
    (named : path ≠ "") (reached : t.reach path = .ok there) :
    Path.absolute t.working path = Path.ofPieces there := by
  have home_eq : t.home.reverse = (Path.pieces t.working).foldl (Path.cleanStep true) [] := by
    rw [home, Path.cleanPieces, rooted, List.reverse_reverse]
  rw [reach] at reached
  rw [Path.absolute]
  split
  next absolute =>
    rw [if_pos absolute] at reached
    rw [Path.clean_of_isAbsolute absolute, Path.cleanPieces, absolute]
    exact congrArg Path.ofPieces (follow_eq (List.not_mem_nil : ".." ∉ []) reached)
  next relative =>
    rw [if_neg relative] at reached
    have within : Path.isAbsolute (t.working ++ "/" ++ path) = true := by
      rw [String.append_assoc]
      exact Path.isAbsolute_append rooted _
    have down : ".." ∉ t.home := by
      rw [← List.mem_reverse, home_eq]
      exact up_not_mem_clean _ _ List.not_mem_nil
    rw [Path.join, if_neg (Path.ne_empty_of_isAbsolute rooted), if_neg named,
      Path.clean_of_isAbsolute within, Path.cleanPieces, within, Path.pieces_join, List.foldl_append,
      ← home_eq]
    exact congrArg Path.ofPieces (follow_eq down reached)

/-- Where a file is found. -/
theorem exists_reach_of_fileAt? {path text : String} (file : t.fileAt? path = some text) :
    path ≠ "" ∧ ∃ inside, t.reach path = .ok (t.home ++ inside) ∧
      t.files.lookup inside = some text := by
  rw [fileAt?] at file
  split at file
  next content node =>
    obtain rfl := Option.some.inj file
    rw [FileTree.node] at node
    split at node
    · cases node
    next named =>
      refine ⟨named, ?_⟩
      cases reached : t.reach path with
      | error e => rw [reached] at node; cases node
      | ok there =>
        simp only [reached, bind, Except.bind] at node
        cases found : t.nodeAt? there with
        | none => rw [found] at node; cases node
        | some n =>
          rw [found] at node
          obtain rfl : n = .file content := Except.ok.inj node
          rw [nodeAt?] at found
          split at found
          next inside after =>
            refine ⟨inside, congrArg _ (after?_eq after), ?_⟩
            split at found
            next listed => cases found; exact listed
            next => split at found <;> cases found
          next =>
            obtain ⟨-, -, no⟩ := Option.map_eq_some_iff.mp found
            cases no
  next => cases file

/-- The files of the tree that modules can be read from, by their absolute paths. -/
def modules (t : FileTree) : List String :=
  ((t.files.map fun f => Path.ofPieces (t.home ++ f.1)).filter (Path.endsIn Run.moduleEnding)).dedup

theorem mem_modules (rooted : Path.isAbsolute t.working = true) {name dir text : String}
    (file : t.fileAt? (Run.candidate (Run.moduleFile name) dir) = some text) :
    Path.absolute t.working (Run.candidate (Run.moduleFile name) dir) ∈ t.modules := by
  obtain ⟨named, inside, reached, listed⟩ := exists_reach_of_fileAt? file
  have key := absolute_of_reach rooted named reached
  have ends : Path.endsIn Run.moduleEnding (Path.absolute t.working _) = true :=
    Path.endsIn_absolute (Path.endsIn_candidate name dir)
  rw [modules, List.mem_dedup, List.mem_filter]
  refine ⟨?_, ends⟩
  exact List.mem_map.mpr ⟨_, mem_of_lookup listed, key.symm⟩

end FileTree

/-! ## Imports in progress -/

namespace Setup

variable {setup : Setup}

/-- What modules there are, by what identifies them. -/
def modules (setup : Setup) : List String :=
  setup.files.modules ++ Embedded.files.map fun f => "stdlib:" ++ f.1

theorem Keys.mem_modules (rooted : Path.isAbsolute setup.files.working = true) {key : String}
    (h : setup.Keys key) : key ∈ setup.modules := by
  rcases h with ⟨name, dir, text, file, same⟩ | ⟨path, text, listed, same⟩
  · rw [same]
    exact List.mem_append_left _ (FileTree.mem_modules rooted file)
  · rw [same]
    exact List.mem_append_right _ (List.mem_map.mpr ⟨_, mem_of_lookup listed, rfl⟩)

/-- Imports in progress that are all different are no more than there are modules, and one
file more. -/
theorem Chains.length_le (rooted : Path.isAbsolute setup.files.working = true) {keys : List String}
    (h : setup.Chains keys) (acyclic : keys.Nodup) :
    keys.length ≤ setup.files.modules.length + Embedded.files.length + 1 := by
  obtain ⟨own, rest, rfl, short, all⟩ := h
  have different : rest.Nodup := (List.nodup_append.mp acyclic).2.1
  have listed : rest ⊆ setup.modules := fun key mem => (all key mem).mem_modules rooted
  have count := (List.Nodup.subperm different listed).length_le
  rw [modules, List.length_append, List.length_map] at count
  rw [List.length_append]
  omega

end Setup

end Pseudocode
