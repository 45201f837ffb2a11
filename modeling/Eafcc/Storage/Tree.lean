import Eafcc.Storage.Backend

namespace Eafcc.Storage

/-! # Directory trees -/

/-- A plain file name. -/
structure FileName where
  text : Str
  plain : text ≠ [] ∧ '/' ∉ text ∧ text ≠ ['.'] ∧ text ≠ ['.', '.']
deriving DecidableEq

theorem FileName.text_injective : Function.Injective FileName.text := by
  rintro ⟨_, _⟩ ⟨_, _⟩ rfl
  rfl

/-- The names in a directory, in the order in which it is listed. -/
abbrev Listing := { names : List FileName // names.Nodup }

/-- The samples have one directory, of this name, in their root. -/
theorem plain_v : (['v'] : Str) ≠ [] ∧ '/' ∉ ['v'] ∧ (['v'] : Str) ≠ ['.'] ∧ (['v'] : Str) ≠ ['.', '.'] := by
  decide

theorem nodup_v : [(⟨['v'], plain_v⟩ : FileName)].Nodup := by decide

/-- A file or a directory, each with the error that keeps it from being read. -/
inductive Node where
  | file (content : Except IOError Bytes)
  | dir (failure : Option IOError) (names : Listing) (child : FileName → Node)

namespace Node

def isDir : Node → Bool
  | .file _ => false
  | .dir _ _ _ => true

/-- The node at the end of a sequence of names. -/
def find : Node → List FileName → Option Node
  | node, [] => some node
  | .dir _ names child, name :: path => if name ∈ names.val then (child name).find path else none
  | .file _, _ :: _ => none

/-- The files at and below a node, with the names that lead to them. -/
def files : Node → List (List FileName × Except IOError Bytes)
  | .file content => [([], content)]
  | .dir _ names child =>
      names.val.flatMap fun name =>
        (child name).files.map fun (path, content) => (name :: path, content)

/-- Every directory at and below a node can be listed. -/
def Listable : Node → Prop
  | .file _ => True
  | .dir failure names child => failure = none ∧ ∀ name ∈ names.val, (child name).Listable

/-- How many directories stand at and below a node. -/
def dirCount : Node → Nat
  | .file _ => 0
  | .dir _ names child => 1 + (names.val.map fun name => (child name).dirCount).sum

variable {node : Node} {path : List FileName} {content : Except IOError Bytes}

theorem mem_files : (path, content) ∈ node.files ↔ node.find path = some (.file content) := by
  induction node generalizing path with
  | file content' =>
      cases path with
      | nil => simp [files, find, eq_comm]
      | cons name rest => simp [files, find]
  | dir failure names child ih =>
      cases path with
      | nil => simp [files, find]
      | cons name rest =>
          simp only [files, find, List.mem_flatMap, List.mem_map, Prod.mk.injEq, Prod.exists,
            List.cons.injEq]
          constructor
          · rintro ⟨name, listed, rest, content, member, ⟨rfl, rfl⟩, rfl⟩
            rw [if_pos listed]
            exact (ih name).mp member
          · intro found
            split at found
            · rename_i listed
              exact ⟨name, listed, rest, content, (ih name).mpr found, ⟨rfl, rfl⟩, rfl⟩
            · contradiction

theorem find_append {first second : List FileName} :
    node.find (first ++ second) = (node.find first).bind fun middle => middle.find second := by
  induction first generalizing node with
  | nil => simp [find]
  | cons name rest ih =>
      cases node with
      | file content => simp [find]
      | dir failure names child =>
          simp only [List.cons_append, find]
          split
          · exact ih
          · rfl

theorem files_nodup (node : Node) : (node.files.map Prod.fst).Nodup := by
  induction node with
  | file content => simp [files]
  | dir failure names child ih =>
      simp only [files, List.map_flatMap, List.map_map]
      apply List.nodup_flatMap.mpr
      constructor
      · intro name _
        have cons : (Prod.fst ∘ fun (x : List FileName × Except IOError Bytes) =>
            (name :: x.1, x.2)) = (fun path => name :: path) ∘ Prod.fst := rfl
        change (List.map (Prod.fst ∘ fun (x : List FileName × Except IOError Bytes) =>
            (name :: x.1, x.2)) (child name).files).Nodup
        rw [cons, ← List.map_map]
        exact (ih name).map fun _ _ same => (List.cons.inj same).2
      · refine names.property.imp fun differ => ?_
        intro path first second
        simp only [List.mem_map, Function.comp_apply] at first second
        obtain ⟨_, _, rfl⟩ := first
        obtain ⟨_, _, same⟩ := second
        exact differ (List.cons.inj same).1.symm

end Node

/-! ## The paths of a tree -/

section Paths

/-- The path of a file or a directory, without a separator at its end. -/
def filePath (names : List FileName) : Path := names.flatMap fun name => '/' :: name.text

/-- The path of a directory with a separator at its end. -/
def dirPath (names : List FileName) : Path := filePath names ++ ['/']

/-- The key under which the index files an object. -/
def relativePath (names : List FileName) : Path := ['/'].intercalate (names.map FileName.text)

/-- A path by which the walk may ask for a directory. -/
def Leads (path : Path) (names : List FileName) : Prop :=
  path = dirPath names ∨ (names ≠ [] ∧ path = filePath names)

variable {names : List FileName} {name : FileName} {path : Path}

theorem filePath_append (first second : List FileName) :
    filePath (first ++ second) = filePath first ++ filePath second := by
  simp [filePath]

theorem filePath_singleton (name : FileName) : filePath [name] = '/' :: name.text := by
  simp [filePath]

theorem fileName_not_absolute (name : FileName) : Path.isAbsolute name.text = false := by
  obtain ⟨text, nonempty, noSeparator, -⟩ := name
  cases text with
  | nil => exact absurd rfl nonempty
  | cons c rest =>
      simp only [List.mem_cons, not_or] at noSeparator
      simp [Path.isAbsolute, Ne.symm noSeparator.1]

theorem getLast?_filePath (names : List FileName) : (filePath names).getLast? ≠ some '/' := by
  induction names using List.reverseRecOn with
  | nil => simp [filePath]
  | append_singleton names name _ =>
      obtain ⟨text, nonempty, noSeparator, -⟩ := name
      obtain ⟨init, last, rfl⟩ := (List.eq_nil_or_concat' text).resolve_left nonempty
      rw [filePath_append, filePath_singleton]
      simp only [List.mem_append, List.mem_singleton, not_or] at noSeparator
      have ends : filePath names ++ '/' :: (init ++ [last]) =
          (filePath names ++ '/' :: init) ++ [last] := by simp
      change (filePath names ++ '/' :: (init ++ [last])).getLast? ≠ some '/'
      rw [ends, List.getLast?_concat]
      simpa using Ne.symm noSeparator.2

theorem Leads.join (leads : Leads path names) (name : FileName) :
    Path.join path name.text = filePath (names ++ [name]) := by
  rw [filePath_append, filePath_singleton]
  rcases leads with rfl | ⟨nonempty, rfl⟩
  · simp [Path.join, fileName_not_absolute, dirPath]
  · have notEmpty : filePath names ≠ [] := by
      cases names with
      | nil => exact absurd rfl nonempty
      | cons first rest => simp [filePath]
    simp [Path.join, fileName_not_absolute, notEmpty, getLast?_filePath]

theorem isTrivial_fileName (name : FileName) : Path.isTrivial name.text = false := by
  obtain ⟨text, nonempty, -, notDot, -⟩ := name
  simp [Path.isTrivial, nonempty, notDot]

theorem segments_filePath (names : List FileName) :
    Path.segments (filePath names) = [] :: names.map FileName.text := by
  induction names using List.reverseRecOn with
  | nil => rfl
  | append_singleton names name ih =>
      rw [filePath_append, filePath_singleton, Path.segments, List.splitOn_append_cons_self,
        List.splitOn_eq_singleton name.plain.2.1]
      change Path.segments (filePath names) ++ _ = _
      simp [ih]

theorem segments_dirPath (names : List FileName) :
    Path.segments (dirPath names) = [] :: (names.map FileName.text ++ [[]]) := by
  rw [dirPath, Path.segments, List.splitOn_append_cons_self]
  change Path.segments (filePath names) ++ _ = _
  simp [segments_filePath]

theorem segments_relativePath (nonempty : names ≠ []) :
    Path.segments (relativePath names) = names.map FileName.text := by
  apply List.splitOn_intercalate
  · intro text member
    obtain ⟨name, -, rfl⟩ := List.mem_map.mp member
    exact name.plain.2.1
  · simpa using nonempty

theorem filePath_eq_relativePath (nonempty : names ≠ []) :
    filePath names = '/' :: relativePath names := by
  have segments := congrArg (fun segments => ['/'].intercalate segments) (segments_filePath names)
  simp only [Path.segments, List.intercalate_splitOn] at segments
  rw [segments]
  cases names with
  | nil => exact absurd rfl nonempty
  | cons name rest => simp [relativePath, List.intercalate]

theorem relativePath_ne_nil (nonempty : names ≠ []) : relativePath names ≠ [] := by
  intro empty
  have ends := getLast?_filePath names
  rw [filePath_eq_relativePath nonempty, empty] at ends
  exact ends rfl

theorem getLast?_relativePath (names : List FileName) :
    (relativePath names).getLast? ≠ some '/' := by
  by_cases empty : names = []
  · simp [empty, relativePath, List.intercalate]
  · have ends := getLast?_filePath names
    rw [filePath_eq_relativePath empty] at ends
    obtain ⟨init, last, same⟩ :=
      (List.eq_nil_or_concat' (relativePath names)).resolve_left (relativePath_ne_nil empty)
    rw [same, ← List.cons_append, List.getLast?_concat] at ends
    rwa [same, List.getLast?_concat]

theorem relativePath_concat (names : List FileName) (name : FileName) (nonempty : names ≠ []) :
    relativePath (names ++ [name]) = relativePath names ++ '/' :: name.text := by
  have longer : filePath (names ++ [name]) = '/' :: relativePath (names ++ [name]) :=
    filePath_eq_relativePath (by simp)
  rw [filePath_append, filePath_singleton, filePath_eq_relativePath nonempty] at longer
  exact (List.cons.inj longer).2.symm

theorem relativePath_injective {first second : List FileName} (nonempty : first ≠ [])
    (other : second ≠ []) (same : relativePath first = relativePath second) : first = second := by
  have segments := congrArg Path.segments same
  rw [segments_relativePath nonempty, segments_relativePath other] at segments
  exact List.map_injective_iff.mpr FileName.text_injective segments

theorem trimSegments_plain {plain : List Str} (before after : List Str)
    (leading : ∀ segment ∈ before, Path.isTrivial segment = true)
    (trailing : ∀ segment ∈ after, Path.isTrivial segment = true)
    (proper : ∀ segment ∈ plain, Path.isTrivial segment = false) :
    Path.trimSegments (before ++ (plain ++ after)) = plain := by
  have stops : ∀ (plain after : List Str), (∀ segment ∈ plain, Path.isTrivial segment = false) →
      plain ≠ [] → (plain ++ after).dropWhile Path.isTrivial = plain ++ after := by
    intro plain after proper nonempty
    cases plain with
    | nil => exact absurd rfl nonempty
    | cons first rest => simp [proper first (by simp)]
  unfold Path.trimSegments
  rw [List.dropWhile_append_of_pos leading]
  by_cases empty : plain = []
  · subst empty
    rw [List.nil_append, List.dropWhile_eq_nil_iff.mpr trailing]
    rfl
  · rw [stops plain after proper empty, List.reverse_append,
      List.dropWhile_append_of_pos fun segment member => trailing segment (List.mem_reverse.mp member)]
    have reversed := stops plain.reverse [] (fun segment member => proper segment (List.mem_reverse.mp member))
      (by simpa using empty)
    rw [List.append_nil] at reversed
    rw [reversed, List.reverse_reverse]

theorem isTrivial_names (names : List FileName) :
    ∀ segment ∈ names.map FileName.text, Path.isTrivial segment = false := by
  intro segment member
  obtain ⟨name, -, rfl⟩ := List.mem_map.mp member
  exact isTrivial_fileName name

/-- Stripping the name of the top directory off the path of a file below it. -/
theorem stripPrefix_filePath (directory : FileName) (names : List FileName) :
    Path.stripPrefix (filePath (directory :: names)) [directory.text] = some (relativePath names) := by
  have absolute : Path.isAbsolute (filePath (directory :: names)) = true := by
    simp [filePath, Path.isAbsolute]
  have trimmed := trimSegments_plain [] [] (by simp) (by simp)
    (isTrivial_names names)
  rw [List.nil_append, List.append_nil] at trimmed
  simp [Path.stripPrefix, absolute, segments_filePath, Path.stripSegments, isTrivial_fileName,
    trimmed, show Path.isTrivial [] = true from rfl, relativePath]

/-- The path below the root that a path of a directory names. -/
theorem stripPrefix_root (leads : Leads path names) :
    Path.stripPrefix path [] = some (relativePath names) := by
  have absolute : Path.isAbsolute path = true := by
    rcases leads with rfl | ⟨nonempty, rfl⟩
    · cases names <;> simp [dirPath, filePath, Path.isAbsolute]
    · cases names with
      | nil => exact absurd rfl nonempty
      | cons first rest => simp [filePath, Path.isAbsolute]
  have trimmed : Path.trimSegments (Path.segments path) = names.map FileName.text := by
    rcases leads with rfl | ⟨-, rfl⟩
    · rw [segments_dirPath]
      exact trimSegments_plain [[]] [[]] (by simp [Path.isTrivial]) (by simp [Path.isTrivial])
        (isTrivial_names names)
    · rw [segments_filePath]
      have trimmed := trimSegments_plain [[]] [] (by simp [Path.isTrivial])
        (by simp) (isTrivial_names names)
      rwa [List.append_nil] at trimmed
  simp [Path.stripPrefix, absolute, Path.stripSegments, trimmed, relativePath]

/-- A namespace of plain names, as it is written. -/
def namespaceText (names : List FileName) : Str := '/' :: names.flatMap fun name => name.text ++ ['/']

theorem leads_dirPath (names : List FileName) : Leads (dirPath names) names := .inl rfl

theorem leads_filePath (nonempty : names ≠ []) : Leads (filePath names) names :=
  .inr ⟨nonempty, rfl⟩

theorem names_not_absolute (names : List FileName) :
    Path.isAbsolute (names.flatMap fun name => name.text ++ ['/']) = false := by
  cases names with
  | nil => rfl
  | cons name rest =>
      have relative := fileName_not_absolute name
      obtain ⟨text, nonempty, _⟩ := name
      cases text with
      | nil => exact absurd rfl nonempty
      | cons c text => simpa [Path.isAbsolute] using relative

theorem namespaceText_eq_dirPath (names : List FileName) : namespaceText names = dirPath names := by
  unfold namespaceText dirPath
  induction names with
  | nil => rfl
  | cons name rest ih =>
      rw [List.flatMap_cons, filePath, List.flatMap_cons, List.append_assoc, List.append_assoc]
      change '/' :: (name.text ++ '/' :: rest.flatMap fun name => name.text ++ ['/']) =
        '/' :: name.text ++ (filePath rest ++ ['/'])
      rw [ih]
      rfl

/-- Joining names that are each followed by a separator to the path of a directory. -/
theorem Leads.join_names (leads : Leads path names) (below : List FileName) :
    Path.join path (below.flatMap fun name => name.text ++ ['/']) = dirPath (names ++ below) := by
  have written : filePath (names ++ below) ++ ['/'] = filePath names ++ namespaceText below := by
    rw [filePath_append, List.append_assoc, namespaceText_eq_dirPath, dirPath]
  rw [Path.join, names_not_absolute, if_neg (by simp), dirPath, written]
  rcases leads with rfl | ⟨nonempty, rfl⟩
  · simp [dirPath, namespaceText]
  · have notEmpty : filePath names ≠ [] := by
      cases names with
      | nil => exact absurd rfl nonempty
      | cons first rest => simp [filePath]
    rw [if_neg (by simp [notEmpty, getLast?_filePath])]
    rfl

theorem join_namespace (directory : FileName) (names : List FileName) :
    Path.join ('/' :: directory.text) (names.flatMap fun name => name.text ++ ['/']) =
      dirPath (directory :: names) := by
  have leads : Leads ('/' :: directory.text) [directory] := by
    rw [← filePath_singleton]
    exact leads_filePath (by simp)
  rw [leads.join_names, List.singleton_append]

end Paths

end Eafcc.Storage
