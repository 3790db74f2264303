import CppProfessional.Bayan.Files
import CppProfessional.Containers.Joined

/-!
# Paths and excluded directories

The scanner leaves everything that has to do with paths to Boost.Filesystem, and compares
the texts of paths to find out if a directory is excluded.

* `Platform` — the operations of the libraries that the scanner calls;
* `isExcluded` — the test of a directory;
* `place` — the path to an entry, name by name from the start of a scan;
* `excludes_exact_iff` — the test looks for a prefix of the text, so besides the excluded
  directory and what is below it finds every sibling whose name begins like its own.
-/

namespace Bayan

open Containers

/-- The name of an entry of a directory. -/
def IsName (text : Text) : Prop := text ≠ [] ∧ '/' ∉ text

instance (text : Text) : Decidable (IsName text) :=
  inferInstanceAs (Decidable (text ≠ [] ∧ '/' ∉ text))

/-- The names of entries. -/
abbrev Name := {text : Text // IsName text}

/-- What the scanner calls of Boost.Filesystem and of the regular expressions.  A path is
the text that it holds. -/
structure Platform where
  /-- `operator==` of two paths. -/
  equals : Text → Text → Bool
  /-- `operator/` of a path and a name. -/
  append : Text → Text → Text
  parentPath : Text → Text
  filename : Text → Text
  pathExists : Text → Bool
  canonical : Text → Text
  /-- `std::regex_match` of an expression, in either case, and a text. -/
  regexMatch : Text → Text → Bool

section Exclusion

variable (platform : Platform)

/-- What `is_excluded` asks of one of the excluded directories. -/
def excludes (dir excludeDir : Text) : Bool :=
  platform.equals dir excludeDir ||
    (platform.pathExists excludeDir && (platform.canonical excludeDir).isPrefixOf dir)

/-- `FileScanner::is_excluded(dir)` -/
def isExcluded (excludeDirs : List Text) (dir : Text) : Bool :=
  excludeDirs.any (excludes platform dir)

/-- A directory is excluded by one of the excluded directories. -/
theorem isExcluded_iff {excludeDirs : List Text} {dir : Text} :
    isExcluded platform excludeDirs dir = true ↔
      ∃ excludeDir ∈ excludeDirs, excludes platform dir excludeDir = true :=
  List.any_eq_true

end Exclusion

/-! ### Canonical paths

On canonical paths it is possible to say what the comparison of texts should have been:
one of names.  The two differ where a name ends inside another one. -/

/-- The texts of names. -/
def texts (names : List Name) : List Text := names.map Subtype.val

/-- No name of an entry has a slash in it. -/
theorem not_mem_texts {names : List Name} : ∀ text ∈ texts names, '/' ∉ text := by
  intro text htext
  obtain ⟨name, -, rfl⟩ := List.mem_map.mp htext
  exact name.2.2

/-- The text of a canonical absolute path. -/
def absolute : List Name → Text
  | [] => ['/']
  | name :: names => joined '/' (texts (name :: names))

/-- Paths can be compared by their names or by the texts of their names. -/
theorem texts_prefix_iff {e d : List Name} : texts e <+: texts d ↔ e <+: d :=
  List.prefix_map_iff_of_injective Subtype.val_injective

theorem texts_injective : Function.Injective texts :=
  List.map_injective_iff.mpr Subtype.val_injective

/-- An absolute path determines its names, since a slash separates them and is in none. -/
theorem absolute_injective : Function.Injective absolute := by
  -- the text of the root is a separator, and all others are longer
  have hroot (n : Name) (names : List Name) : absolute [] ≠ absolute (n :: names) := by
    intro heq
    have hlen := congrArg List.length heq
    simp [absolute, texts] at hlen
    exact n.2.1 hlen.1
  intro d e heq
  cases d with
  | nil =>
      cases e with
      | nil => rfl
      | cons n e => exact absurd heq (hroot n e)
  | cons m d =>
      cases e with
      | nil => exact absurd heq.symm (hroot m d)
      | cons n e => exact texts_injective (joined_injective not_mem_texts not_mem_texts heq)

/-- **Prefixes of canonical paths.**  The text of one is a prefix of the text of the other if
its names are, or if its last name ends inside a name of the other. -/
theorem absolute_prefix_iff {e d : List Name} :
    absolute e <+: absolute d ↔ e <+: d ∨ EndsInside (texts e) (texts d) := by
  cases e with
  | nil =>
      refine iff_of_true ?_ (Or.inl List.nil_prefix)
      cases d with
      | nil => exact List.prefix_refl _
      | cons m d => exact List.cons_prefix_cons.mpr ⟨rfl, List.nil_prefix⟩
  | cons n e =>
      cases d with
      | nil =>
          -- the text of the root is a separator, and that of `n :: e` is longer
          have hlonger : ¬ absolute (n :: e) <+: absolute [] := by
            intro h
            obtain ⟨c, text, hn⟩ := List.exists_cons_of_ne_nil n.2.1
            have hlen := h.length_le
            simp [absolute, texts, hn] at hlen
          refine iff_of_false hlonger ?_
          rintro (h | ⟨front, n, m, rest, -, h, -⟩)
          · simp at h
          · simp [texts] at h
      | cons m d =>
          rw [← texts_prefix_iff]
          exact joined_prefix_iff not_mem_texts not_mem_texts

section Exactness

variable (platform : Platform)

/-- Canonical paths are compared name by name. -/
def Platform.ComparesNames : Prop :=
  ∀ d e : List Name, platform.equals (absolute d) (absolute e) = true ↔ d = e

/-- The directory exists, and its path is canonical already. -/
structure Platform.IsCanonical (names : List Name) : Prop where
  pathExists : platform.pathExists (absolute names) = true
  canonical : platform.canonical (absolute names) = absolute names

variable {platform}

/-- What a canonical excluded directory excludes. -/
theorem excludes_iff (hequals : platform.ComparesNames) {d e : List Name}
    (he : platform.IsCanonical e) :
    excludes platform (absolute d) (absolute e) = true ↔
      e <+: d ∨ EndsInside (texts e) (texts d) := by
  rw [excludes, he.pathExists, he.canonical, Bool.true_and, Bool.or_eq_true, hequals,
    List.isPrefixOf_iff_prefix, absolute_prefix_iff]
  constructor
  · rintro (rfl | hprefix)
    · exact Or.inl (List.prefix_refl d)
    · exact hprefix
  · exact Or.inr

/-- **When exclusion is by directory.**  Of the excluded directories it is those that the
test finds one by one; and one of them is found exactly if it is the directory or above
it, unless its path ends inside a name of the path of the directory. -/
theorem excludes_exact_iff (hequals : platform.ComparesNames) {es : List (List Name)}
    (hes : ∀ e ∈ es, platform.IsCanonical e) (d : List Name) :
    (isExcluded platform (es.map absolute) (absolute d) = true ↔
      ∃ e ∈ es, excludes platform (absolute d) (absolute e) = true) ∧
    ∀ e ∈ es, ((excludes platform (absolute d) (absolute e) = true ↔ e <+: d) ↔
      ¬ EndsInside (texts e) (texts d)) := by
  refine ⟨?_, fun e he => ?_⟩
  · rw [isExcluded_iff]
    simp only [List.mem_map, exists_exists_and_eq_and]
  · rw [excludes_iff hequals (hes e he)]
    constructor
    · intro hexact hinside
      exact hinside.not_prefix (texts_prefix_iff.mpr (hexact.mp (Or.inr hinside)))
    · intro hinside
      rw [or_iff_left hinside]

end Exactness

/-! ### The path to an entry

The iterator makes the path of an entry by putting its name behind that of its
directory.  Different ways through the tree give different texts, which is all that the
scan needs of paths. -/

section Places

variable (platform : Platform)

/-- The path that an iterator makes for an entry of the directory `path`. -/
def entryPath (path : Text) (name : Name) : Text := platform.append path name.1

/-- The path to an entry, from the path of the start and the names on the way. -/
def place (dir : Text) (names : List Name) : Text := names.foldl (entryPath platform) dir

@[simp] theorem place_nil (dir : Text) : place platform dir [] = dir := rfl

@[simp] theorem place_cons (dir : Text) (name : Name) (names : List Name) :
    place platform dir (name :: names) =
      place platform (entryPath platform dir name) names := rfl

/-- `operator/` puts a separator in front of the name if there is none. -/
def Platform.JoinsNames : Prop :=
  ∀ (dir : Text) (name : Name), platform.append dir name.1 =
    if dir = [] ∨ dir.getLast? = some '/' then dir ++ name.1 else dir ++ '/' :: name.1

variable {platform}

/-- A path that ends in a name does not end in a slash, since a name is not empty and has
none. -/
theorem getLast?_append_name (text : Text) (name : Name) :
    (text ++ name.1).getLast? ≠ some '/' := by
  rw [List.getLast?_append_of_ne_nil _ name.2.1]
  exact fun hlast => name.2.2 (List.mem_of_getLast? hlast)

/-- Behind a name every further name has its separator. -/
theorem place_append_name (hjoins : platform.JoinsNames) (text : Text) (name : Name)
    (names : List Name) :
    place platform (text ++ name.1) names = text ++ name.1 ++ joined '/' (texts names) := by
  induction names generalizing text name with
  | nil => exact (List.append_nil _).symm
  | cons next names ih =>
      have hjoin : entryPath platform (text ++ name.1) next =
          (text ++ name.1 ++ ['/']) ++ next.1 := by
        rw [entryPath, hjoins, if_neg, List.append_assoc _ ['/']]
        · rfl
        · rintro (hnil | hlast)
          · exact name.2.1 (List.append_eq_nil_iff.mp hnil).2
          · exact getLast?_append_name text name hlast
      rw [place_cons, hjoin, ih]
      simp [texts]

/-- **A path tells the way.**  By induction on the way: putting a name behind a path can be
undone, because names have no separator. -/
theorem place_injective (hjoins : platform.JoinsNames) (dir : Text) :
    Function.Injective (place platform dir) := by
  obtain ⟨stem, hstem, hplace⟩ : ∃ stem, dir.length ≤ stem.length ∧
      ∀ (name : Name) (names : List Name), place platform dir (name :: names) =
        stem ++ (name.1 ++ joined '/' (texts names)) := by
    by_cases hdir : dir = [] ∨ dir.getLast? = some '/'
    · refine ⟨dir, le_refl _, fun name names => ?_⟩
      rw [place_cons, entryPath, hjoins, if_pos hdir, place_append_name hjoins,
        List.append_assoc]
    · refine ⟨dir ++ ['/'], by simp, fun name names => ?_⟩
      have hjoin := hjoins dir name
      rw [if_neg hdir, List.append_cons] at hjoin
      rw [place_cons, entryPath, hjoin, place_append_name hjoins, List.append_assoc]
  have hlonger (name : Name) (names : List Name) :
      place platform dir (name :: names) ≠ place platform dir [] := by
    intro heq
    have hlen := congrArg List.length heq
    rw [hplace, List.length_append, List.length_append, place_nil] at hlen
    have := List.length_pos_of_ne_nil name.2.1
    omega
  intro ms ns heq
  cases ms with
  | nil =>
      cases ns with
      | nil => rfl
      | cons n ns => exact absurd heq.symm (hlonger n ns)
  | cons m ms =>
      cases ns with
      | nil => exact absurd heq (hlonger m ms)
      | cons n ns =>
          rw [hplace, hplace] at heq
          have htexts : joined '/' (texts (m :: ms)) = joined '/' (texts (n :: ns)) :=
            congrArg ('/' :: ·) (List.append_cancel_left heq)
          exact texts_injective (joined_injective not_mem_texts not_mem_texts htexts)

end Places

/-! ### A platform

The hypotheses about Boost.Filesystem are met by plain texts on a system without links,
and the sibling of an excluded directory is a case there. -/

/-- Paths as on a system where everything exists and no path needs to be resolved; the
regular expressions are literal texts. -/
def posix : Platform where
  equals path path' := decide (path = path')
  append dir name :=
    if dir = [] ∨ dir.getLast? = some '/' then dir ++ name else dir ++ '/' :: name
  parentPath path :=
    let front := path.reverse.dropWhile (· ≠ '/')
    let bare := front.dropWhile (· = '/')
    if bare = [] then front.take 1 else bare.reverse
  filename path := (path.reverse.takeWhile (· ≠ '/')).reverse
  pathExists _ := true
  canonical path := path
  regexMatch expression text := decide (expression = '^' :: (text ++ ['$']))

/-- On a POSIX system paths are compared name by name. -/
theorem posix_comparesNames : posix.ComparesNames := by
  intro d e
  show decide (absolute d = absolute e) = true ↔ d = e
  rw [decide_eq_true_eq, absolute_injective.eq_iff]

theorem posix_joinsNames : posix.JoinsNames := fun _ _ => rfl

theorem posix_isCanonical (names : List Name) : posix.IsCanonical names := ⟨rfl, rfl⟩

/-- The names of a directory, of one below it, and of a sibling. -/
def pics : Name := ⟨['p', 'i', 'c', 's'], by decide⟩

def old : Name := ⟨['o', 'l', 'd'], by decide⟩

def older : Name := ⟨['o', 'l', 'd', 'e', 'r'], by decide⟩

/-- With `/pics/old` the scanner excludes `/pics/older`. -/
theorem sibling_excluded : isExcluded posix [absolute [pics, old]]
    (absolute [pics, older]) = true ∧ ¬ [pics, old] <+: [pics, older] := by
  decide

/-- A directory whose name begins with that of an excluded one is taken for part of it. -/
theorem excludes_exact_iff_sibling :
    ¬ (excludes posix (absolute [pics, older]) (absolute [pics, old]) = true ↔
      [pics, old] <+: [pics, older]) := by
  have hsplit := (@excludes_exact_iff posix posix_comparesNames [[pics, old]]
    (fun e _ => posix_isCanonical e) [pics, older]).2 _ List.mem_cons_self
  rw [hsplit, not_not]
  exact ⟨[pics], old.1, older.1, [], rfl, rfl, by decide, by decide⟩

end Bayan
