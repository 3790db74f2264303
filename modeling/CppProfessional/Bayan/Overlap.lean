import CppProfessional.Bayan.Duplicates
import CppProfessional.Bayan.Scanner

/-!
# Scanning several directories

`scan_directories` goes through the directories one after the other and appends what each
scan lists; `process_files` hands the list to the duplicate finder, which takes every
element of the list for a file of its own.

* `scanDirectories`, `processFiles` — from the options to the report;
* `found` — the files that the scan of one directory is to list;
* `scanDirectories_files` — a scan that ends lists what is found below each directory;
* `EachOnce` — no path is listed or printed twice, and what is printed has a duplicate;
* `processFiles_once_iff` — this holds exactly if the scans are `Apart`.
-/

namespace Bayan

open Containers

/-- What is in a directory; the entries of a directory have different names. -/
structure Directory where
  entries : Tree
  distinct : entries.Distinct

section Scans

variable (platform : Platform) (disk : Text → Option Directory) (scanner : FileScanner)

/-- What `scan_directories` returns, and what it writes to the error stream. -/
structure Scanned where
  files : List FileInfo
  warnings : List Text

/-- The directory at a path, if it exists and is one. -/
def directoryAt (dir : Text) : Option Directory :=
  if platform.pathExists dir then disk dir else none

/-- One round of the loop over the directories; nothing if the scan does not end. -/
def scanDirectory (fuel : ℕ) (scanned : Scanned) (dir : Text) : Option Scanned :=
  match directoryAt platform disk dir with
  | none =>
      let warning := "Warning: Directory does not exist or is not a directory: ".toList ++ dir
      some { scanned with warnings := scanned.warnings ++ [warning] }
  | some directory =>
      if isExcluded platform scanner.excludeDirs dir then some scanned
      else if scanner.scanLevel then
        (scanDirectoryRecursive platform scanner fuel dir directory.entries scanned.files).map
          fun files => { scanned with files := files }
      else
        some { scanned with
          files := scanDirectoryNonRecursive platform scanner dir directory.entries
            scanned.files }

/-- `FileScanner::scan_directories()` -/
def scanDirectories (fuel : ℕ) : Option Scanned :=
  scanner.scanDirs.foldlM (scanDirectory platform disk scanner fuel) ⟨[], []⟩

/-- What is found below a directory: the regular files that fit, without `scan_level` only
its own entries. -/
def found (dir : Text) : List FileInfo :=
  match directoryAt platform disk dir with
  | none => []
  | some directory =>
      if isExcluded platform scanner.excludeDirs dir then []
      else
        ((regularFiles directory.entries).filter fun file =>
          (scanner.scanLevel = true ∨ file.1.length = 1) ∧ Fits platform scanner dir file).map
            (fileAt platform scanner dir)

/-- What is found below the directories. -/
def listing : List FileInfo := scanner.scanDirs.flatMap (found platform disk scanner)

end Scans

/-- What `process_files` reports: the paths of the groups, or that there are none, or the
text of an exception. -/
inductive Report
  | noFiles
  | noDuplicates
  | groups (paths : List (List Text))
  | failure (error : Text)
  deriving DecidableEq

/-- The lines on the standard output. -/
def Report.lines : Report → List Text
  | .noFiles => ["No files found matching the criteria.".toList]
  | .noDuplicates => ["No duplicate files found.".toList]
  | .groups paths => paths.flatMap fun group => group ++ [[]]
  | .failure _ => []

/-- The paths on the standard output. -/
def Report.paths : Report → List Text
  | .groups paths => paths.flatten
  | _ => []

section Process

variable (platform : Platform) (disk : Text → Option Directory) (sys : System)
  (hash : Bytes → Text) (byHash : ∀ n, Iteration Text (Fin n)) (bySize : ∀ n, Iteration ℕ (Fin n))
  (scanner : FileScanner)

/-- What `process_files` makes of the list of files. -/
def reportOn (files : List FileInfo) : Report :=
  if files.isEmpty then .noFiles
  else
    match duplicates sys hash scanner.blockSize files (byHash _) (bySize _) with
    | .error error => .failure error
    | .ok duplicateGroups =>
        if duplicateGroups.isEmpty then .noDuplicates
        else .groups (duplicateGroups.map fun group => group.map FileInfo.path)

/-- `process_files(options)` -/
def processFiles (fuel : ℕ) : Option Report :=
  (scanDirectories platform disk scanner fuel).map fun scanned =>
    reportOn sys hash byHash bySize scanner scanned.files

end Process

/-! ### What a scan lists

A scan that ends is described by the tree below its directory, without the loop.  The
paths are different because the names of the entries of one directory are. -/

section Listing

variable {platform : Platform} {disk : Text → Option Directory} {scanner : FileScanner}

/-- Filtering by the names commutes with picking the regular files. -/
theorem filterMap_regularFile_filter (p : List Name → Bool)
    (entries : List (List Name × Option Kind)) :
    (entries.filter fun entry => p entry.1).filterMap regularFile =
      (entries.filterMap regularFile).filter fun file => p file.1 := by
  rw [List.filterMap_filter, List.filter_filterMap]
  apply List.filterMap_congr
  rintro ⟨names, kind⟩ -
  match kind with
  | none => exact ite_self none
  | some .other => exact ite_self none
  | some (.regular size) => rfl

/-- The scan of the entries of a directory. -/
theorem scanDirectoryNonRecursive_eq (dir : Text) (tree : Tree) (files : List FileInfo) :
    scanDirectoryNonRecursive platform scanner dir tree files =
      files ++ ((regularFiles tree).filter fun file =>
        file.1.length = 1 ∧ Fits platform scanner dir file).map
          (fileAt platform scanner dir) := by
  have hloop (entries : List (Name × Option Kind)) (files : List FileInfo) :
      entries.foldl (fun files entry =>
        listEntry platform scanner (entryPath platform dir entry.1) entry.2 files) files =
      files ++ (entries.map (Prod.map ([·]) id)).flatMap (fun entry =>
        listEntry platform scanner (place platform dir entry.1) entry.2 []) := by
    induction entries generalizing files with
    | nil => exact (List.append_nil files).symm
    | cons entry entries ih =>
        rw [List.foldl_cons, ih, listEntry_eq_append, List.map_cons, List.flatMap_cons,
          List.append_assoc]
        rfl
  rw [scanDirectoryNonRecursive, hloop, Forest.map_level, listEntries_eq,
    filterMap_regularFile_filter fun names => decide (names.length = 1), List.filter_filter]
  refine congrArg (files ++ List.map _ ·) (List.filter_congr fun file _ => ?_)
  rw [Bool.decide_and, Bool.and_comm]

/-- **One round.**  A scan that ends appends what is found. -/
theorem files_scanDirectory {fuel : ℕ} {scanned scanned' : Scanned} {dir : Text}
    (h : scanDirectory platform disk scanner fuel scanned dir = some scanned') :
    scanned'.files = scanned.files ++ found platform disk scanner dir := by
  unfold scanDirectory at h
  unfold found
  split at h
  · obtain rfl := Option.some.inj h
    exact (List.append_nil _).symm
  · next directory _ =>
      show _ = _ ++ if isExcluded platform scanner.excludeDirs dir = true then [] else _
      split at h
      · next hexcluded =>
          obtain rfl := Option.some.inj h
          rw [if_pos hexcluded]
          exact (List.append_nil _).symm
      · next hexcluded =>
          rw [if_neg hexcluded]
          split at h
          · next hlevel =>
              obtain ⟨files, hfiles, rfl⟩ := Option.map_eq_some_iff.mp h
              rw [scanDirectoryRecursive_eq hfiles]
              simp only [hlevel, true_or, true_and]
          · next hlevel =>
              obtain rfl := Option.some.inj h
              rw [scanDirectoryNonRecursive_eq]
              simp only [hlevel, Bool.false_eq_true, false_or]

/-- **The scan of the directories.** -/
theorem scanDirectories_files {fuel : ℕ} {scanned : Scanned}
    (h : scanDirectories platform disk scanner fuel = some scanned) :
    scanned.files = listing platform disk scanner := by
  have hloop (dirs : List Text) (start : Scanned)
      (h : dirs.foldlM (scanDirectory platform disk scanner fuel) start = some scanned) :
      scanned.files = start.files ++ dirs.flatMap (found platform disk scanner) := by
    induction dirs generalizing start with
    | nil =>
        obtain rfl := Option.some.inj h
        exact (List.append_nil _).symm
    | cons dir dirs ih =>
        rw [List.foldlM_cons] at h
        obtain ⟨next, hnext, hrest⟩ := Option.bind_eq_some_iff.mp h
        rw [ih next hrest, files_scanDirectory hnext, List.flatMap_cons, List.append_assoc]
  exact (hloop _ _ h).trans (List.nil_append _)

/-- What the scanner lists is fresh, whatever the directories are. -/
theorem fresh_listing : Fresh scanner.blockSize (listing platform disk scanner) := by
  intro i
  obtain ⟨dir, -, hfound⟩ := List.mem_flatMap.mp (List.get_mem (listing platform disk scanner) i)
  unfold found at hfound
  split at hfound
  · cases hfound
  · split at hfound
    · cases hfound
    · obtain ⟨file, -, hfile⟩ := List.mem_map.mp hfound
      rw [← hfile]
      rfl

/-- **One scan lists no path twice.** -/
theorem found_nodup (hjoins : platform.JoinsNames) (dir : Text) :
    ((found platform disk scanner dir).map FileInfo.path).Nodup := by
  unfold found
  split
  · exact List.nodup_nil
  · next directory _ =>
      split
      · exact List.nodup_nil
      · have hways := directory.distinct.positions_nodup.sublist
          (regularFiles_sublist directory.entries)
        have hplaces := hways.map (place_injective hjoins dir)
        rw [List.map_map] at hplaces ⊢
        exact hplaces.sublist (List.filter_sublist.map _)

end Listing

/-! ### Files that are not their own duplicates

A path is a name of a file, and two paths may lead to one file; which do is not decided
by the program.  What is promised is therefore relative to an `identity` of paths. -/

section Once

variable {φ : Type*} (identity : Text → φ) (sys : System)

/-- Two files of the same size with the same bytes. -/
def SameContent (file file' : FileInfo) : Prop :=
  file.size = file'.size ∧ sys.content file.path = sys.content file'.path

/-- No path is listed twice and none is printed twice; and if one is printed, another file
with the same content is listed.  Which file a path leads to is what `identity` says. -/
structure EachOnce (files : List FileInfo) (paths : List Text) : Prop where
  listed : (files.map FileInfo.path).Nodup
  printed : paths.Nodup
  duplicate : ∀ file ∈ files, file.path ∈ paths → ∃ file' ∈ files,
    identity file'.path ≠ identity file.path ∧ SameContent sys file' file

/-- What is listed twice is on two files, and what passes all rounds of the duplicate finder is
listed twice.  The first clause rules out that a file is its own duplicate under a second path,
the second one that a collision of hashes makes one. -/
structure Told (hash : Bytes → Text) (files : List FileInfo) : Prop where
  different : ∀ i j, i ≠ j → SameContent sys (files.get i) (files.get j) →
    ∃ k l, identity (files.get k).path ≠ identity (files.get l).path ∧
      SameContent sys (files.get k) (files.get i) ∧ SameContent sys (files.get l) (files.get i)
  company : ∀ i, Survives sys hash files i →
    ∃ j ≠ i, SameContent sys (files.get j) (files.get i)

variable {identity sys} {hash : Bytes → Text} {blockSize : ℕ} {files : List FileInfo}

/-- What passes all rounds has a different file with the same content. -/
theorem told_iff (hfresh : Fresh blockSize files) : Told identity sys hash files ↔
    ∀ i, Survives sys hash files i → ∃ j,
      identity (files.get j).path ≠ identity (files.get i).path ∧
        SameContent sys (files.get j) (files.get i) := by
  constructor
  · intro htold i hi
    obtain ⟨j, hne, hsame⟩ := htold.company i hi
    obtain ⟨k, l, hkl, hk, hl⟩ := htold.different i j hne.symm ⟨hsame.1.symm, hsame.2.symm⟩
    -- one of the two different files is not the file of `i`
    by_cases hki : identity (files.get k).path = identity (files.get i).path
    · exact ⟨l, fun hli => hkl (hki.trans hli.symm), hl⟩
    · exact ⟨k, hki, hk⟩
  · intro hall
    refine ⟨fun i j hne hsame => ?_, fun i hi => ?_⟩
    · have hi : Survives sys hash files i :=
        (hasTwin_of_same hne hsame.1 (hfresh.hashSequence_eq hsame.1 hsame.2)).1.survives
      obtain ⟨k, hki, hk⟩ := hall i hi
      exact ⟨k, i, hki, hk, rfl, rfl⟩
    · obtain ⟨j, hji, hj⟩ := hall i hi
      exact ⟨j, fun heq => hji (heq ▸ rfl), hj⟩

end Once

/-! ### The report

Three things can go wrong: a path is listed twice, a path is printed twice, or a file is
printed without another one like it.  The first is a matter of the directories, the last
one of the hashes, and the second one follows from the first, since the search prints no
position twice. -/

section Reports

variable {platform : Platform} {disk : Text → Option Directory}
  {φ : Type*} {identity : Text → φ} {sys : System} {hash : Bytes → Text}
  {byHash : ∀ n, Iteration Text (Fin n)} {bySize : ∀ n, Iteration ℕ (Fin n)}
  {scanner : FileScanner}

/-- The report prints the paths of the files that pass all rounds. -/
theorem exists_groups_of_reportOn {files : List FileInfo} (hfresh : Fresh scanner.blockSize files)
    (hok : ∀ error, reportOn sys hash byHash bySize scanner files ≠ .failure error) :
    ∃ printed : List (Fin files.length), printed.Nodup ∧
      (∀ i, i ∈ printed ↔ Survives sys hash files i) ∧
      (reportOn sys hash byHash bySize scanner files).paths =
        printed.map fun i => (files.get i).path := by
  unfold reportOn at hok ⊢
  split
  · next hempty =>
      obtain rfl := List.isEmpty_iff.mp hempty
      exact ⟨[], List.nodup_nil, fun i => i.elim0, rfl⟩
  · next hne =>
      rw [if_neg hne] at hok
      split
      · next error herror =>
          rw [herror] at hok
          exact absurd rfl (hok error)
      · next duplicateGroups hgroups =>
          obtain ⟨groups, hclasses, rfl⟩ := (duplicates_outcome hfresh).of_eq_ok hgroups
          refine ⟨groups.flatten, hclasses.nodup, fun i => ?_, ?_⟩
          · rw [hclasses.mem, and_iff_right (List.mem_finRange i)]
          · cases groups with
            | nil => rfl
            | cons group groups =>
                show ((List.map _ (group :: groups)).map _).flatten = _
                rw [List.map_map, List.map_flatten]
                congr 1
                apply List.map_congr_left
                intro group _
                exact List.map_map

/-- What is printed has a duplicate if what passes all rounds has one.  The report prints the
paths of the files that pass, so the three promises turn into one about the listing and one
about the search. -/
theorem eachOnce_iff {files : List FileInfo} (hfresh : Fresh scanner.blockSize files)
    (hok : ∀ error, reportOn sys hash byHash bySize scanner files ≠ .failure error) :
    EachOnce identity sys files (reportOn sys hash byHash bySize scanner files).paths ↔
      (files.map FileInfo.path).Nodup ∧ Told identity sys hash files := by
  obtain ⟨printed, hnodup, hmem, hpaths⟩ := exists_groups_of_reportOn hfresh hok
  rw [hpaths, told_iff hfresh]
  constructor
  · rintro ⟨hlisted, -, hduplicate⟩
    refine ⟨hlisted, fun i hi => ?_⟩
    obtain ⟨file', hfile', hne, hsame⟩ := hduplicate (files.get i) (List.get_mem files i)
      (List.mem_map.mpr ⟨i, (hmem i).mpr hi, rfl⟩)
    obtain ⟨j, rfl⟩ := List.mem_iff_get.mp hfile'
    exact ⟨j, hne, hsame⟩
  · rintro ⟨hlisted, htold⟩
    have hinjective : Function.Injective fun i => (files.get i).path := by
      intro i j heq
      apply hlisted.of_map.injective_get
      exact List.inj_on_of_nodup_map hlisted (List.get_mem files i) (List.get_mem files j) heq
    refine ⟨hlisted, hnodup.map hinjective, fun file hfile hpath => ?_⟩
    obtain ⟨i, hi, hpath⟩ := List.mem_map.mp hpath
    obtain ⟨j, rfl⟩ := List.mem_iff_get.mp hfile
    obtain rfl := hinjective hpath
    obtain ⟨k, hne, hsame⟩ := htold i ((hmem i).mp hi)
    exact ⟨files.get k, List.get_mem files k, hne, hsame⟩

variable (platform disk scanner) in
/-- No path is found below two of the directories. -/
def WalksApart : Prop :=
  scanner.scanDirs.Pairwise fun dir dir' =>
    List.Disjoint ((found platform disk scanner dir).map FileInfo.path)
      ((found platform disk scanner dir').map FileInfo.path)

variable (identity sys hash platform disk scanner) in
/-- No path is found below two of the directories, and the duplicate finder tells the
files that are found. -/
structure Apart : Prop where
  walks : WalksApart platform disk scanner
  told : Told identity sys hash (listing platform disk scanner)

/-- The listed paths are different if no two scans find the same one. -/
theorem listing_nodup_iff (hjoins : platform.JoinsNames) :
    ((listing platform disk scanner).map FileInfo.path).Nodup ↔
      WalksApart platform disk scanner := by
  rw [listing, List.map_flatMap, List.nodup_flatMap]
  exact and_iff_right fun dir _ => found_nodup hjoins dir

/-- **When no file is its own duplicate.**  If the scan ends, every path is listed once at
most exactly if the walks are apart; and if no exception is thrown, every path is listed
and printed once at most, and only files with a duplicate are printed, exactly if in
addition the files are told. -/
theorem processFiles_once_iff (hjoins : platform.JoinsNames) {fuel : ℕ} {scanned : Scanned}
    (hscan : scanDirectories platform disk scanner fuel = some scanned) :
    ((scanned.files.map FileInfo.path).Nodup ↔ WalksApart platform disk scanner) ∧
    ∀ report, processFiles platform disk sys hash byHash bySize scanner fuel = some report →
      (∀ error, report ≠ .failure error) →
        (EachOnce identity sys scanned.files report.paths ↔
          Apart platform disk identity sys hash scanner) := by
  rw [scanDirectories_files hscan]
  refine ⟨listing_nodup_iff hjoins, fun report hreport hok => ?_⟩
  rw [processFiles, hscan, Option.map_some, scanDirectories_files hscan] at hreport
  obtain rfl := Option.some.inj hreport
  rw [eachOnce_iff fresh_listing hok, listing_nodup_iff hjoins]
  exact ⟨fun h => ⟨h.1, h.2⟩, fun h => ⟨h.walks, h.told⟩⟩

end Reports

/-! ### A directory that is scanned twice -/

/-- A scan of `/pics`, which is given twice. -/
def twice : FileScanner where
  scanLevel := true
  blockSize := 1
  minFileSize := 1
  excludeDirs := []
  fileMasks := []
  scanDirs := [absolute [pics], absolute [pics]]

/-- There is one file of two bytes in every directory. -/
def oneFile : Text → Option Directory :=
  fun _ => some ⟨.leaf old (.regular 2) .nil, List.not_mem_nil, trivial⟩

def twoBytes : System where
  content _ := some [7, 8]
  admits _ := true

/-- The only file is listed twice, and printed as a duplicate of itself. -/
theorem twice_reported :
    (scanDirectories posix oneFile twice 2).map (fun scanned => scanned.files.map FileInfo.path) =
      some [absolute [pics, old], absolute [pics, old]] ∧
    processFiles posix oneFile twoBytes plainHash (.inserted _ <| Fin ·) (.inserted _ <| Fin ·)
      twice 2 = some (.groups [[absolute [pics, old], absolute [pics, old]]]) := by
  decide +kernel

/-- A directory that is given twice is not apart from itself. -/
theorem processFiles_once_iff_twice : ¬ Apart posix oneFile id twoBytes plainHash twice := by
  intro hapart
  have hreport : processFiles posix oneFile twoBytes plainHash (.inserted _ <| Fin ·)
      (.inserted _ <| Fin ·) twice 2 =
        some (.groups [[absolute [pics, old], absolute [pics, old]]]) := by
    decide +kernel
  obtain ⟨scanned, hscan, -⟩ := Option.map_eq_some_iff.mp hreport
  obtain ⟨-, honce⟩ := @processFiles_once_iff _ _ _ id _ _ _ _ _ posix_joinsNames _ _ hscan
  have hprinted := ((honce _ hreport fun _ h => nomatch h).mpr hapart).printed
  exact absurd hprinted (by decide)

end Bayan
