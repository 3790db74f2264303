import CppProfessional.Bayan.Paths
import CppProfessional.Containers.Forest

/-!
# The scanner

`FileScanner` lists the regular files below a directory that are large enough and match
one of the masks.  With `scan_level` it goes through the tree with a recursive iterator;
an entry whose directory is excluded is to be skipped, but the branch that does this goes
on with the loop without an increment.

* `scanLoop`, `scanDirectoryRecursive`, `scanDirectoryNonRecursive` — the scans;
* `Wanted`, `wanted` — the files that the recursive scan is for;
* `scanLoop_clear`, `scanLoop_stuck` — the loop lists what is to come, or never ends;
* `scanDirectoryRecursive_exact_iff` — it lists the wanted files exactly if no directory with
  entries is excluded.
-/

namespace Bayan

open Containers

/-- An entry of a directory that is not a directory. -/
inductive Kind
  | regular (size : ℕ)
  | other
  deriving DecidableEq

/-- The entries of a directory, with links followed. -/
abbrev Tree := Forest Name Kind

/-- `class FileScanner` -/
structure FileScanner where
  scanLevel : Bool
  blockSize : ℕ
  minFileSize : ℕ
  excludeDirs : List Text
  fileMasks : List Text
  scanDirs : List Text

/-- The regular expression of a mask, as the constructor makes it. -/
def maskRegex (mask : Text) : Text :=
  let result := mask.flatMap fun character =>
    if character = '.' then ['\\', '.']
    else if character = '*' then ['.', '*']
    else if character = '?' then ['.']
    else [character]
  '^' :: (result ++ ['$'])

section Scans

variable (platform : Platform) (scanner : FileScanner)

/-- `FileScanner::matches_masks(file_path)` -/
def matchesMasks (filePath : Text) : Bool :=
  scanner.fileMasks.isEmpty ||
    (scanner.fileMasks.map maskRegex).any fun regex =>
      platform.regexMatch regex (platform.filename filePath)

/-- `is_excluded(path.parent_path())` -/
def parentExcluded (path : Text) : Bool :=
  isExcluded platform scanner.excludeDirs (platform.parentPath path)

/-- What both scans do with an entry. -/
def listEntry (path : Text) (kind : Option Kind) (files : List FileInfo) : List FileInfo :=
  match kind with
  | some (.regular size) =>
      if scanner.minFileSize ≤ size ∧ matchesMasks platform scanner path = true then
        files ++ [.create path size scanner.blockSize]
      else files
  | _ => files

/-- The loop of the recursive scan.  The branch for entries of excluded directories leaves
the iterator where it is. -/
def scanLoop : ℕ → Cursor Name Kind Text → List FileInfo → Option (List FileInfo)
  | 0, _, _ => none
  | fuel + 1, iterator, files =>
      match iterator.current (entryPath platform) with
      | none => some files
      | some (path, kind) =>
          if parentExcluded platform scanner path = true then
            scanLoop fuel iterator.disableRecursionPending files
          else
            scanLoop fuel (iterator.increment (entryPath platform))
              (listEntry platform scanner path kind files)

/-- `FileScanner::scan_directory_recursive(dir, files)` -/
def scanDirectoryRecursive (fuel : ℕ) (dir : Text) (tree : Tree) (files : List FileInfo) :
    Option (List FileInfo) :=
  scanLoop platform scanner fuel (.start dir tree) files

/-- `FileScanner::scan_directory_non_recursive(dir, files)` -/
def scanDirectoryNonRecursive (dir : Text) (tree : Tree) (files : List FileInfo) :
    List FileInfo :=
  tree.level.foldl
    (fun files entry => listEntry platform scanner (entryPath platform dir entry.1) entry.2 files)
    files

/-! ### What the recursive scan is for

The specification goes over the tree, not with an iterator.  A directory is excluded
under the path that the scanner would give it, since `is_excluded` is asked about paths. -/

/-- One of the directories on the way to an entry, from the start to its own directory, is
excluded; it has the path that the scanner gives it, the parent path of the entry in it. -/
def Hidden (dir : Text) (names : List Name) : Prop :=
  ∃ front ∈ names.inits, front ≠ [] ∧
    parentExcluded platform scanner (place platform dir front) = true

instance (dir : Text) (names : List Name) : Decidable (Hidden platform scanner dir names) :=
  inferInstanceAs (Decidable (∃ front ∈ names.inits, front ≠ [] ∧
    parentExcluded platform scanner (place platform dir front) = true))

/-- An entry as a regular file, if it is one. -/
def regularFile : List Name × Option Kind → Option (List Name × ℕ)
  | (names, some (.regular size)) => some (names, size)
  | _ => none

/-- The regular files of a tree, each once, by the names on the way to them. -/
def regularFiles (tree : Tree) : List (List Name × ℕ) := tree.positions.filterMap regularFile

/-- The regular file is large enough and matches the masks. -/
structure Fits (dir : Text) (file : List Name × ℕ) : Prop where
  large : scanner.minFileSize ≤ file.2
  masks : matchesMasks platform scanner (place platform dir file.1) = true

instance (dir : Text) (file : List Name × ℕ) : Decidable (Fits platform scanner dir file) :=
  decidable_of_iff (scanner.minFileSize ≤ file.2 ∧
    matchesMasks platform scanner (place platform dir file.1) = true)
    ⟨fun h => ⟨h.1, h.2⟩, fun h => ⟨h.large, h.masks⟩⟩

/-- The regular file fits, and it is not below an excluded directory. -/
structure Wanted (dir : Text) (file : List Name × ℕ) : Prop
    extends Fits platform scanner dir file where
  visible : ¬ Hidden platform scanner dir file.1

instance (dir : Text) (file : List Name × ℕ) : Decidable (Wanted platform scanner dir file) :=
  decidable_of_iff (Fits platform scanner dir file ∧ ¬ Hidden platform scanner dir file.1)
    ⟨fun h => ⟨h.1, h.2⟩, fun h => ⟨h.toFits, h.visible⟩⟩

/-- A regular file as the scans list it. -/
def fileAt (dir : Text) (file : List Name × ℕ) : FileInfo :=
  .create (place platform dir file.1) file.2 scanner.blockSize

/-- The files that the recursive scan is to append. -/
def wanted (dir : Text) (tree : Tree) : List FileInfo :=
  ((regularFiles tree).filter fun file => Wanted platform scanner dir file).map
    (fileAt platform scanner dir)

end Scans

/-! ### The loop

The iterator moves in one branch and stays in the other.  So either no entry that is
still to come is blocked, and the loop ends after one turn for each, or it comes to one
that is and stays there for good, with every amount of fuel. -/

section Loop

variable {platform : Platform} {scanner : FileScanner}

/-- An entry adds to the list and does not look at what is there. -/
theorem listEntry_eq_append (path : Text) (kind : Option Kind) (files : List FileInfo) :
    listEntry platform scanner path kind files =
      files ++ listEntry platform scanner path kind [] := by
  unfold listEntry
  split
  · split
    · rfl
    · exact (List.append_nil files).symm
  · exact (List.append_nil files).symm

variable (platform scanner) in
/-- The iterator is at an entry of an excluded directory, or will get to one. -/
def Blocked (iterator : Cursor Name Kind Text) : Prop :=
  (∃ visit ∈ iterator.current (entryPath platform),
    parentExcluded platform scanner visit.1 = true) ∨
  iterator.recursionPending = true ∧ ∃ visit ∈ iterator.todo (entryPath platform),
    parentExcluded platform scanner visit.1 = true

/-- **The loop without excluded directories.**  It lists the entries that are to come, and
needs one turn for each of them and one to see the end. -/
theorem scanLoop_clear {iterator : Cursor Name Kind Text} {files : List FileInfo}
    (hpending : iterator.recursionPending = true)
    (hclear : ∀ visit ∈ iterator.todo (entryPath platform),
      parentExcluded platform scanner visit.1 = false) :
    scanLoop platform scanner ((iterator.todo (entryPath platform)).length + 1) iterator files =
      some (files ++ (iterator.todo (entryPath platform)).flatMap fun visit =>
        listEntry platform scanner visit.1 visit.2 []) := by
  induction htodo : iterator.todo (entryPath platform) generalizing iterator files with
  | nil =>
      rw [List.length_nil, scanLoop, iterator.current_eq, htodo]
      exact congrArg some (List.append_nil files).symm
  | cons visit visits ih =>
      have hnext : (iterator.increment (entryPath platform)).todo (entryPath platform) =
          visits := by
        rw [iterator.todo_increment _ hpending, htodo]
        rfl
      rw [htodo] at hclear
      rw [List.length_cons, scanLoop, iterator.current_eq, htodo]
      show (if parentExcluded platform scanner visit.1 = true then _ else _) = _
      rw [hclear visit List.mem_cons_self, if_neg Bool.false_ne_true,
        ih (iterator.recursionPending_increment _) _ hnext, listEntry_eq_append,
        List.flatMap_cons, List.append_assoc]
      intro later hlater
      rw [hnext] at hlater
      exact hclear later (List.mem_cons_of_mem _ hlater)

/-- The branch for excluded directories leaves the iterator where it is. -/
theorem Blocked.disable {iterator : Cursor Name Kind Text} {visit : Text × Option Kind}
    (hcurrent : iterator.current (entryPath platform) = some visit)
    (hvisit : parentExcluded platform scanner visit.1 = true) :
    Blocked platform scanner iterator.disableRecursionPending :=
  Or.inl ⟨visit, hcurrent, hvisit⟩

/-- The other branch comes closer to the excluded directory. -/
theorem Blocked.increment {iterator : Cursor Name Kind Text} {visit : Text × Option Kind}
    (h : Blocked platform scanner iterator)
    (hcurrent : iterator.current (entryPath platform) = some visit)
    (hvisit : ¬ parentExcluded platform scanner visit.1 = true) :
    Blocked platform scanner (iterator.increment (entryPath platform)) := by
  rcases h with ⟨visit', hvisit', hexcluded⟩ | ⟨hpending, visit', hvisit', hexcluded⟩
  · rw [hcurrent] at hvisit'
    obtain rfl := Option.some.inj hvisit'
    exact absurd hexcluded hvisit
  · refine Or.inr ⟨iterator.recursionPending_increment _, visit', ?_, hexcluded⟩
    rw [iterator.todo_increment _ hpending]
    rw [iterator.current_eq] at hcurrent
    rw [List.eq_cons_of_mem_head? hcurrent] at hvisit'
    rcases List.mem_cons.mp hvisit' with rfl | hlater
    · exact absurd hexcluded hvisit
    · exact hlater

/-- A blocked iterator is not at the end. -/
theorem Blocked.exists_current {iterator : Cursor Name Kind Text}
    (h : Blocked platform scanner iterator) :
    ∃ visit, iterator.current (entryPath platform) = some visit := by
  rcases h with ⟨visit, hvisit, -⟩ | ⟨-, visit, hvisit, -⟩
  · exact ⟨visit, hvisit⟩
  · rw [iterator.current_eq]
    exact ⟨_, List.head?_eq_some_head (List.ne_nil_of_mem hvisit)⟩

/-- **The loop with an excluded directory.**  It arrives at an entry of one, and never
ends. -/
theorem scanLoop_stuck {iterator : Cursor Name Kind Text} {files : List FileInfo}
    (h : Blocked platform scanner iterator) (fuel : ℕ) :
    scanLoop platform scanner fuel iterator files = none := by
  induction fuel generalizing iterator files with
  | zero => rfl
  | succ fuel ih =>
      obtain ⟨visit, hcurrent⟩ := h.exists_current
      rw [scanLoop, hcurrent]
      show (if parentExcluded platform scanner visit.1 = true then _ else _) = _
      split
      · next hvisit => exact ih (.disable hcurrent hvisit)
      · next hvisit => exact ih (h.increment hcurrent hvisit)

/-- A loop that has ended does not need its fuel.  A result is therefore the result of the
source, however much fuel it was found with. -/
theorem scanLoop_add {fuel : ℕ} {iterator : Cursor Name Kind Text} {files result : List FileInfo}
    (h : scanLoop platform scanner fuel iterator files = some result) (n : ℕ) :
    scanLoop platform scanner (fuel + n) iterator files = some result := by
  induction fuel generalizing iterator files with
  | zero => cases h
  | succ fuel ih =>
      rw [Nat.succ_add, scanLoop]
      rw [scanLoop] at h
      cases hcurrent : iterator.current (entryPath platform) with
      | none =>
          rw [hcurrent] at h
          exact h
      | some visit =>
          rw [hcurrent] at h
          have hstep : (if parentExcluded platform scanner visit.1 = true then
              scanLoop platform scanner fuel iterator.disableRecursionPending files
            else scanLoop platform scanner fuel (iterator.increment (entryPath platform))
              (listEntry platform scanner visit.1 visit.2 files)) = some result := h
          show (if parentExcluded platform scanner visit.1 = true then _ else _) = _
          split at hstep
          · next hexcluded =>
              rw [if_pos hexcluded]
              exact ih hstep
          · next hexcluded =>
              rw [if_neg hexcluded]
              exact ih hstep

end Loop

/-! ### The scans

Both scans list with the same function.  Where a recursive scan ends no directory with
entries has been excluded, and then excluding nothing is what the specification says as
well. -/

section Results

variable {platform : Platform} {scanner : FileScanner} {dir : Text} {tree : Tree}

/-- A regular file is listed under the names of its entry. -/
theorem fst_of_regularFile {entry : List Name × Option Kind} {file : List Name × ℕ}
    (h : regularFile entry = some file) : entry.1 = file.1 := by
  unfold regularFile at h
  split at h
  · obtain rfl := Option.some.inj h
    rfl
  · cases h

/-- The regular files keep their ways, in order. -/
theorem regularFiles_sublist (tree : Tree) :
    ((regularFiles tree).map Prod.fst).Sublist (tree.positions.map Prod.fst) := by
  rw [regularFiles]
  induction tree.positions with
  | nil => exact List.Sublist.slnil
  | cons entry entries ih =>
      cases hregular : regularFile entry with
      | none =>
          rw [List.filterMap_cons_none hregular]
          exact ih.cons _
      | some file =>
          rw [List.filterMap_cons_some hregular, List.map_cons, List.map_cons,
            fst_of_regularFile hregular]
          exact ih.cons_cons _

/-- Where no directory is excluded, nothing is hidden. -/
theorem not_hidden_of_clear {entry : List Name × Option Kind} (hentry : entry ∈ tree.positions)
    (hclear : ∀ entry ∈ tree.positions,
      parentExcluded platform scanner (place platform dir entry.1) = false) :
    ¬ Hidden platform scanner dir entry.1 := by
  rintro ⟨front, hfront, hne, hexcluded⟩
  obtain ⟨value, hmem⟩ :=
    Forest.mem_positions_of_prefix hentry ((List.mem_inits _ _).mp hfront) hne
  rw [hclear _ hmem] at hexcluded
  cases hexcluded

/-- Listing entries lists the regular files among them that fit. -/
theorem listEntries_eq (entries : List (List Name × Option Kind)) :
    entries.flatMap (fun entry =>
      listEntry platform scanner (place platform dir entry.1) entry.2 []) =
    ((entries.filterMap regularFile).filter fun file => Fits platform scanner dir file).map
      (fileAt platform scanner dir) := by
  induction entries with
  | nil => rfl
  | cons entry entries ih =>
      obtain ⟨names, kind⟩ := entry
      rw [List.flatMap_cons, ih]
      match kind with
      | none => rfl
      | some .other => rfl
      | some (.regular size) =>
          have hregular : regularFile (names, some (.regular size)) = some (names, size) := rfl
          have hfits : (scanner.minFileSize ≤ size ∧
              matchesMasks platform scanner (place platform dir names) = true) ↔
                Fits platform scanner dir (names, size) :=
            ⟨fun h => ⟨h.1, h.2⟩, fun h => ⟨h.large, h.masks⟩⟩
          rw [List.filterMap_cons_some hregular, List.filter_cons]
          show (if scanner.minFileSize ≤ size ∧
            matchesMasks platform scanner (place platform dir names) = true then _ else _) ++ _ = _
          by_cases h : Fits platform scanner dir (names, size)
          · rw [if_pos (hfits.mpr h), if_pos (decide_eq_true h), List.map_cons]
            rfl
          · rw [if_neg (hfits.not.mpr h), if_neg (by simpa using h)]
            rfl

/-- Where no directory is excluded all files that fit are wanted. -/
theorem wanted_eq (hclear : ∀ entry ∈ tree.positions,
      parentExcluded platform scanner (place platform dir entry.1) = false) :
    wanted platform scanner dir tree =
      ((regularFiles tree).filter fun file => Fits platform scanner dir file).map
        (fileAt platform scanner dir) := by
  refine congrArg (List.map _) (List.filter_congr fun file hfile => ?_)
  obtain ⟨entry, hentry, hregular⟩ := List.mem_filterMap.mp hfile
  have hvisible := not_hidden_of_clear hentry hclear
  rw [fst_of_regularFile hregular] at hvisible
  rw [decide_eq_decide]
  exact ⟨fun h => h.toFits, fun h => ⟨h, hvisible⟩⟩

/-- Where no directory is excluded the recursive scan appends the wanted files. -/
theorem scanDirectoryRecursive_clear (files : List FileInfo)
    (hclear : ∀ entry ∈ tree.positions,
      parentExcluded platform scanner (place platform dir entry.1) = false) :
    ∃ fuel, scanDirectoryRecursive platform scanner fuel dir tree files =
      some (files ++ wanted platform scanner dir tree) := by
  have hwalk : ∀ visit ∈ (Cursor.start dir tree).todo (entryPath platform),
      parentExcluded platform scanner visit.1 = false := by
    rw [Cursor.todo_start, Forest.walk_eq]
    intro visit hvisit
    obtain ⟨entry, hentry, rfl⟩ := List.mem_map.mp hvisit
    exact hclear entry hentry
  refine ⟨_, (scanLoop_clear rfl hwalk).trans ?_⟩
  rw [Cursor.todo_start, Forest.walk_eq, List.flatMap_map, wanted_eq hclear]
  exact congrArg (some <| files ++ ·) (listEntries_eq tree.positions)

/-- Where a directory with entries is excluded the recursive scan does not end. -/
theorem scanDirectoryRecursive_stuck {entry : List Name × Option Kind}
    (hentry : entry ∈ tree.positions)
    (hexcluded : parentExcluded platform scanner (place platform dir entry.1) = true)
    (fuel : ℕ) (files : List FileInfo) :
    scanDirectoryRecursive platform scanner fuel dir tree files = none := by
  refine scanLoop_stuck (Or.inr ⟨rfl, (place platform dir entry.1, entry.2), ?_, hexcluded⟩) fuel
  rw [Cursor.todo_start, Forest.walk_eq]
  exact List.mem_map.mpr ⟨entry, hentry, rfl⟩

/-- A recursive scan that ends has met no excluded directory. -/
theorem clear_of_scanDirectoryRecursive {fuel : ℕ} {files result : List FileInfo}
    (h : scanDirectoryRecursive platform scanner fuel dir tree files = some result) :
    ∀ entry ∈ tree.positions,
      parentExcluded platform scanner (place platform dir entry.1) = false := by
  intro entry hentry
  by_contra hexcluded
  rw [Bool.not_eq_false] at hexcluded
  rw [scanDirectoryRecursive_stuck hentry hexcluded] at h
  cases h

/-- A recursive scan that ends has appended all files that fit. -/
theorem scanDirectoryRecursive_eq {fuel : ℕ} {files result : List FileInfo}
    (h : scanDirectoryRecursive platform scanner fuel dir tree files = some result) :
    result = files ++ ((regularFiles tree).filter fun file =>
      Fits platform scanner dir file).map (fileAt platform scanner dir) := by
  have hclear := clear_of_scanDirectoryRecursive h
  obtain ⟨fuel', h'⟩ := scanDirectoryRecursive_clear files hclear
  rw [← wanted_eq hclear]
  apply Option.some.inj
  exact (scanLoop_add h fuel').symm.trans (Nat.add_comm fuel' fuel ▸ scanLoop_add h' fuel)

/-- **When the recursive scan is exact.**  It ends, having appended the regular files that
are large enough, match the masks, and are not below an excluded directory, exactly if no
entry of the tree has an excluded parent directory. -/
theorem scanDirectoryRecursive_exact_iff (platform : Platform) (scanner : FileScanner) (dir : Text)
    (tree : Tree) (files : List FileInfo) :
    (∃ fuel, scanDirectoryRecursive platform scanner fuel dir tree files =
      some (files ++ wanted platform scanner dir tree)) ↔
    ∀ entry ∈ tree.positions, isExcluded platform scanner.excludeDirs
      (platform.parentPath (place platform dir entry.1)) = false := by
  constructor
  · rintro ⟨fuel, hscan⟩
    exact clear_of_scanDirectoryRecursive hscan
  · exact scanDirectoryRecursive_clear files

/-- The pictures with an older collection, which is to be left out. -/
def archive : FileScanner where
  scanLevel := true
  blockSize := 1
  minFileSize := 1
  excludeDirs := [absolute [pics, old]]
  fileMasks := []
  scanDirs := [absolute [pics]]

/-- The directory `/pics`: only `old`, with one file in it. -/
def picsTree : Tree := .branch old (.leaf older (.regular 5) .nil) .nil

/-- The only file is below the excluded directory, so nothing is wanted; but the scan of
`/pics` does not end. -/
theorem archive_never_ends : wanted posix archive (absolute [pics]) picsTree = [] ∧
    ∀ fuel, scanDirectoryRecursive posix archive fuel (absolute [pics]) picsTree [] = none := by
  refine ⟨by decide, fun fuel => ?_⟩
  have hentry : ([old, older], some (.regular 5)) ∈ picsTree.positions := by decide
  exact scanDirectoryRecursive_stuck hentry (by decide) fuel []

end Results

end Bayan
