import CppProfessional.Bayan.Overlap
import CppProfessional.Commands.Replies

/-!
# The report as a text

A program that calls the duplicate finder has only its output: one path a line, and an empty
line behind every group.

* `Report.text` — the output, `readReport` — what such a program makes of it;
* `readReport_text_iff` — it gets the report exactly if no path has a line break in it.

The reader is not part of the repository.  It is the weakest thing that has to exist for the
output to be usable, and it is determined by the output: a line that is not empty is a path, an
empty line ends a group.
-/

namespace Bayan

open Commands Containers Transition

/-- The output of `process_files`. -/
def Report.text (report : Report) : Text := (report.lines.map (· ++ ['\n'])).flatten

/-- The report with a text: groups end with an empty line, and the other reports are one
line. -/
def readReport (text : Text) : Report :=
  match cut (· = []) (getlines '\n' text) with
  | ([], [line]) =>
      if line = "No duplicate files found.".toList then .noDuplicates else .noFiles
  | (groups, _) => .groups (groups.map List.dropLast)

/-- The groups of a report are not empty, and their paths are not. -/
structure Report.Proper (report : Report) : Prop where
  groups : ∀ paths, report = .groups paths → paths ≠ []
  paths : ∀ path ∈ report.paths, path ≠ []
  returned : ∀ error, report ≠ .failure error

/-- Cut behind its empty lines, the text falls into the groups that it was put together
from. -/
theorem cut_paths {paths : List (List Text)} (hpaths : ∀ path ∈ paths.flatten, path ≠ []) :
    cut (· = []) (paths.flatMap (· ++ [[]])) = (paths.map (· ++ [[]]), []) := by
  have hreplies : ∀ reply ∈ paths.map (· ++ [[]]), Reply (· = ([] : Text)) reply := by
    intro reply hreply
    obtain ⟨group, hgroup, rfl⟩ := List.mem_map.mp hreply
    exact ⟨group, [], rfl, fun path hpath => hpaths path (List.mem_flatten.mpr
      ⟨group, hgroup, hpath⟩), rfl⟩
  have hcut := cut_flatten hreplies fun line (hline : line ∈ []) => by cases hline
  rwa [List.append_nil] at hcut

/-- The lines of a report without line breaks in its paths. -/
theorem getlines_text {report : Report} (hlines : ∀ path ∈ report.paths, '\n' ∉ path) :
    getlines '\n' report.text = report.lines := by
  apply getlines_frames
  intro line hline
  cases report with
  | noFiles =>
      obtain rfl := List.mem_singleton.mp hline
      decide
  | noDuplicates =>
      obtain rfl := List.mem_singleton.mp hline
      decide
  | failure error => cases hline
  | groups paths =>
      obtain ⟨group, hgroup, hline⟩ := List.mem_flatMap.mp hline
      rcases List.mem_append.mp hline with hpath | hempty
      · exact hlines line (List.mem_flatten.mpr ⟨group, hgroup, hpath⟩)
      · obtain rfl := List.mem_singleton.mp hempty
        exact List.not_mem_nil

/-- **A report is read back.** -/
theorem readReport_text {report : Report} (h : report.Proper)
    (hlines : ∀ path ∈ report.paths, '\n' ∉ path) : readReport report.text = report := by
  unfold readReport
  rw [getlines_text hlines]
  cases report with
  | noFiles => decide
  | noDuplicates => decide
  | failure error => exact absurd rfl (h.returned error)
  | groups paths =>
      rw [Report.lines, cut_paths h.paths]
      obtain ⟨group, groups, rfl⟩ := List.exists_cons_of_ne_nil (h.groups paths rfl)
      show Report.groups (List.map List.dropLast (List.map _ (group :: groups))) = _
      rw [List.map_map]
      congr 1
      refine (List.map_congr_left fun paths _ => ?_).trans (List.map_id _)
      exact List.dropLast_concat

/-- No path that is read has a line break. -/
theorem not_mem_paths_readReport (text : Text) :
    ∀ path ∈ (readReport text).paths, '\n' ∉ path := by
  intro path hpath
  have hlines : (cut (· = []) (getlines '\n' text)).1.flatten ++
      (cut (· = []) (getlines '\n' text)).2 = getlines '\n' text := flatten_cut _
  unfold readReport at hpath
  split at hpath
  · split at hpath <;> cases hpath
  · next groups rest hcut =>
      rw [hcut] at hlines
      obtain ⟨group, hgroup, hpath⟩ := List.mem_flatten.mp hpath
      obtain ⟨lines, hmem, rfl⟩ := List.mem_map.mp hgroup
      have hread : path ∈ getlines '\n' text := by
        rw [← hlines]
        exact List.mem_append_left _ (List.mem_flatten.mpr
          ⟨lines, hmem, List.mem_of_mem_dropLast hpath⟩)
      exact notMem_of_mem_getlines hread

/-! ### The reports of the program

A group has two paths or more and no path is empty, so an empty line is always the end
of a group.  Only a line break inside a path can be mistaken. -/

section Program

variable {platform : Platform} {disk : Text → Option Directory} {sys : System}
  {hash : Bytes → Text} {byHash : ∀ n, Iteration Text (Fin n)}
  {bySize : ∀ n, Iteration ℕ (Fin n)} {scanner : FileScanner}

/-- An entry below a directory has a path. -/
theorem place_ne_nil (hjoins : platform.JoinsNames) (dir : Text) {names : List Name}
    (hne : names ≠ []) : place platform dir names ≠ [] := by
  cases names with
  | nil => exact absurd rfl hne
  | cons name names =>
      have hfirst : ∃ stem, entryPath platform dir name = stem ++ name.1 := by
        rw [entryPath, hjoins]
        split
        · exact ⟨dir, rfl⟩
        · exact ⟨dir ++ ['/'], List.append_cons ..⟩
      obtain ⟨stem, hstem⟩ := hfirst
      rw [place_cons, hstem, place_append_name hjoins]
      intro hnil
      exact name.2.1 (List.append_eq_nil_iff.mp (List.append_eq_nil_iff.mp hnil).1).2

/-- The files that are found have paths. -/
theorem path_ne_nil_of_listing (hjoins : platform.JoinsNames) :
    ∀ file ∈ listing platform disk scanner, file.path ≠ [] := by
  intro file hfile
  obtain ⟨dir, -, hfound⟩ := List.mem_flatMap.mp hfile
  unfold found at hfound
  split at hfound
  · cases hfound
  · split at hfound
    · cases hfound
    · obtain ⟨entry, hentry, rfl⟩ := List.mem_map.mp hfound
      refine place_ne_nil hjoins dir ?_
      obtain ⟨way, hway, hregular⟩ := List.mem_filterMap.mp (List.mem_filter.mp hentry).1
      obtain ⟨name, -, names, hnames⟩ := Forest.exists_of_mem_positions hway
      rcases way with ⟨_, _ | _ | _⟩
      · cases hregular
      · obtain rfl := Option.some.inj hregular
        exact fun hnil => List.cons_ne_nil name names (hnames.symm.trans hnil)
      · cases hregular

/-- A report of the program that is no failure is a proper one: neither its groups nor its
paths are empty. -/
theorem proper_of_reportOn {files : List FileInfo} (hfresh : Fresh scanner.blockSize files)
    (hpaths : ∀ file ∈ files, file.path ≠ [])
    (hok : ∀ error, reportOn sys hash byHash bySize scanner files ≠ .failure error) :
    (reportOn sys hash byHash bySize scanner files).Proper := by
  obtain ⟨printed, -, -, hprinted⟩ := exists_groups_of_reportOn hfresh hok
  refine ⟨fun paths hgroups => ?_, fun path hpath => ?_, hok⟩
  · unfold reportOn at hgroups
    split at hgroups
    · cases hgroups
    · split at hgroups
      · cases hgroups
      · split at hgroups
        · cases hgroups
        · next hne =>
            cases hgroups
            exact fun hnil => hne (List.isEmpty_iff.mpr (List.map_eq_nil_iff.mp hnil))
  · rw [hprinted] at hpath
    obtain ⟨i, -, rfl⟩ := List.mem_map.mp hpath
    exact hpaths _ (List.get_mem files i)

/-- The program reports on what the scanner has listed, once it has. -/
theorem processFiles_eq {fuel : ℕ} {report : Report}
    (h : processFiles platform disk sys hash byHash bySize scanner fuel = some report) :
    report = reportOn sys hash byHash bySize scanner (listing platform disk scanner) := by
  obtain ⟨scanned, hscan, rfl⟩ := Option.map_eq_some_iff.mp h
  rw [scanDirectories_files hscan]

/-- **When the output says what was found.**  Whatever `process_files` has printed without an
exception, its report can be read off the text exactly if no printed path has a line break
in it. -/
theorem readReport_text_iff (hjoins : platform.JoinsNames) {fuel : ℕ} {report : Report}
    (h : processFiles platform disk sys hash byHash bySize scanner fuel = some report)
    (hok : ∀ error, report ≠ .failure error) :
    readReport report.text = report ↔ ∀ path ∈ report.paths, '\n' ∉ path := by
  have hproper : report.Proper := by
    have heq := processFiles_eq h
    rw [heq] at hok ⊢
    exact proper_of_reportOn fresh_listing (path_ne_nil_of_listing hjoins) hok
  refine ⟨fun hread => ?_, readReport_text hproper⟩
  have hnone := not_mem_paths_readReport report.text
  rwa [hread] at hnone

end Program

/-! ### A name with a line break -/

def broken : Name := ⟨['a', '\n', 'b'], by decide⟩

/-- Two files of two bytes, one of which has a line break in its name. -/
def brokenFile : Text → Option Directory :=
  fun _ => some ⟨.leaf old (.regular 2) (.leaf broken (.regular 2) .nil), by decide,
    List.not_mem_nil, trivial⟩

/-- A name with a line break is read back as two. -/
theorem readReport_text_iff_broken :
    readReport (Report.groups [[absolute [pics, old], absolute [pics, broken]]]).text ≠
      .groups [[absolute [pics, old], absolute [pics, broken]]] := by
  have hreport : processFiles posix brokenFile twoBytes plainHash (.inserted _ <| Fin ·)
      (.inserted _ <| Fin ·) { twice with scanDirs := [absolute [pics]] } 3 =
        some (.groups [[absolute [pics, old], absolute [pics, broken]]]) := by
    decide +kernel
  exact (readReport_text_iff posix_joinsNames hreport fun _ h => nomatch h).not.mpr (by decide)

end Bayan
