import CppProfessional.Bayan.Reports
import CppProfessional.Bayan.Streams
import Mathlib.Data.Multiset.MapFold
import Mathlib.Logic.Equiv.Fin.Basic

/-!
# The order of the search

The groups come in the order of two unordered maps, and the files in the order of the
directories.  Neither decides what is found, or if the search throws.

* `duplicates_returns_iff` — when the search returns;
* `Groups.shape_eq` — the classes under a key, up to their order;
* `processFiles_order` — two scans that list the same files report the same groups, or both
  fail.

An unordered map may be gone through in any order, and in another one the next time.  Here the
order is an arrangement of the entries that is given with the search, and that it does not
matter is a statement about two searches with different arrangements.
-/

namespace Bayan

open Containers

universe u

/-! ### When the search returns

Only opening a file can fail, and a file is opened at most once.  Which files are opened
is known from the walk, so the question is whether they can all be opened, in the order
of the walk and with that many streams already open. -/

section Served

variable {ι : Type u} [DecidableEq ι] {sys : System} {files : ι → FileInfo}
  {opened wanted : Finset ι}

variable (sys files opened wanted) in
/-- The wanted files can be opened one after the other if some are open. -/
structure Served : Prop where
  file : ∀ i ∈ wanted, i ∉ opened → (sys.content (files i).path).isSome = true
  stream : ∀ n, opened.card ≤ n → n < wanted.card → sys.admits n = true

/-- Before the first block is read no stream is open, so that every file needs one. -/
theorem served_nil :
    Served sys files (owners []) wanted ↔
      (∀ i ∈ wanted, (sys.content (files i).path).isSome = true) ∧
        ∀ n < wanted.card, sys.admits n = true := by
  constructor
  · intro h
    exact ⟨fun i hi => h.file i hi (Finset.notMem_empty i),
      fun n hn => h.stream n (Nat.zero_le n) hn⟩
  · rintro ⟨hfile, hstream⟩
    exact ⟨fun i hi _ => hfile i hi, fun n _ hn => hstream n hn⟩

/-- One more file. -/
theorem served_insert {i : ι} (hnew : i ∉ opened) (hsub : insert i opened ⊆ wanted) :
    Served sys files opened wanted ↔
      ((sys.content (files i).path).isSome = true ∧ sys.admits opened.card = true) ∧
        Served sys files (insert i opened) wanted := by
  have hcard : opened.card + 1 ≤ wanted.card := by
    rw [← Finset.card_insert_of_notMem hnew]
    exact Finset.card_le_card hsub
  constructor
  · rintro ⟨hfile, hstream⟩
    refine ⟨⟨hfile i (hsub (Finset.mem_insert_self i opened)) hnew, hstream _ le_rfl hcard⟩,
      fun j hj hnot => hfile j hj fun hold => hnot (Finset.mem_insert_of_mem hold),
      fun n hn => hstream n ?_⟩
    rw [Finset.card_insert_of_notMem hnew] at hn
    exact Nat.le_of_succ_le hn
  · rintro ⟨⟨hcontent, hadmits⟩, hfile, hstream⟩
    refine ⟨fun j hj hnot => ?_, fun n hn hlt => ?_⟩
    · by_cases hji : j = i
      · rw [hji]
        exact hcontent
      · exact hfile j hj fun hmem => (Finset.mem_insert.mp hmem).elim hji hnot
    · rcases Nat.eq_or_lt_of_le hn with rfl | hlater
      · exact hadmits
      · refine hstream n ?_ hlt
        rw [Finset.card_insert_of_notMem hnew]
        exact hlater

variable [Fintype ι] {hash : Bytes → Text} {s : Search ι} {done : List (ι × ℕ)}

/-- **A walk ends** exactly if its files can be opened one after the other.  A file is opened
at its first block and stays open, so what matters is the set of files on the way and not the
blocks. -/
theorem readAll_returns_iff (h : Fetched files done s) {blocks : List (ι × ℕ)}
    (hnodup : (done ++ blocks).Nodup) :
    (∃ s', readAll sys hash blocks s = .ok s') ↔
      Served sys files (owners done) (owners (done ++ blocks)) := by
  induction blocks generalizing done s with
  | nil =>
      rw [List.append_nil]
      exact iff_of_true ⟨s, rfl⟩ ⟨fun i hi hnot => absurd hi hnot,
        fun n hle hlt => absurd hlt (Nat.not_lt.mpr hle)⟩
  | cons block blocks ih =>
      obtain ⟨i, k⟩ := block
      have hnew : (i, k) ∉ done := fun hold =>
        List.disjoint_of_nodup_append hnodup hold List.mem_cons_self
      have hassoc : done ++ (i, k) :: blocks = done ++ [(i, k)] ++ blocks := by
        rw [List.append_assoc]
        rfl
      have hsub : insert i (owners done) ⊆ owners (done ++ (i, k) :: blocks) := by
        rw [hassoc, ← owners_concat done i k]
        intro j hj
        obtain ⟨l, hl⟩ := mem_owners.mp hj
        exact mem_owners.mpr ⟨l, List.mem_append_left _ hl⟩
      have havailable : Available sys s i ↔ i ∈ owners done ∨
          (sys.content (files i).path).isSome = true ∧
            sys.admits (owners done).card = true := by
        rw [Available, h.openStreams, h.path, h.opened, mem_owners]
      rw [readAll, List.foldlM_cons]
      rcases h.read sys hash hnew with ⟨hav, s', hread, hs'⟩ | ⟨hdenied, text, hthrown⟩
      · have hrest := ih hs' (hassoc ▸ hnodup)
        rw [hread]
        refine hrest.trans ?_
        rw [← hassoc, owners_concat]
        rcases havailable.mp hav with hold | hfree
        · rw [Finset.insert_eq_of_mem hold]
        · by_cases hold : i ∈ owners done
          · rw [Finset.insert_eq_of_mem hold]
          · rw [served_insert hold hsub]
            exact (and_iff_right hfree).symm
      · rw [hthrown]
        refine iff_of_false ?_ fun hserved => hdenied ?_
        · rintro ⟨s', hok⟩
          cases hok
        · rw [havailable]
          by_cases hold : i ∈ owners done
          · exact .inl hold
          · exact .inr ((served_insert hold hsub).mp hserved).1

end Served

section Results

variable {sys : System} {hash : Bytes → Text} {blockSize : ℕ} {files : List FileInfo}
  {byHash : Iteration Text (Fin files.length)} {bySize : Iteration ℕ (Fin files.length)}

/-- The search returns exactly if every file that it opens is served. -/
theorem returns_iff_served (hfresh : Fresh blockSize files) :
    (∃ result, duplicates sys hash blockSize files byHash bySize = .ok result) ↔
      Served sys files.get (owners []) (contenders blockSize files) := by
  have hwalk : (∃ s', readAll sys hash
      (duplicateRequests sys hash blockSize files byHash bySize) ⟨files.get, []⟩ = .ok s') ↔ _ :=
    readAll_returns_iff hfresh.fetched duplicateRequests_nodup
  rw [List.nil_append, owners_duplicateRequests, ← hfresh.walk] at hwalk
  refine Iff.trans ?_ hwalk
  unfold duplicates
  cases findDuplicates sys hash byHash bySize blockSize (List.finRange files.length)
      ⟨files.get, []⟩ with
  | error e =>
      refine iff_of_false ?_ ?_
      · rintro ⟨result, hok⟩
        cases hok
      · rintro ⟨s, hok⟩
        cases hok
  | ok r => exact iff_of_true ⟨r.1, rfl⟩ ⟨r.2, rfl⟩

/-- **When the search returns.**  It opens the files that have a block and another listed
file of their size, and closes none; it throws exactly if one of them cannot be opened. -/
theorem duplicates_returns_iff (hfresh : Fresh blockSize files) :
    (∃ result, duplicates sys hash blockSize files byHash bySize = .ok result) ↔
      (∀ i ∈ contenders blockSize files, (sys.content (files.get i).path).isSome = true) ∧
        ∀ n < (contenders blockSize files).card, sys.admits n = true := by
  rw [returns_iff_served hfresh, served_nil]

/-- Only the two files of one byte can be opened. -/
def oneMissing : System where
  content path := if path = ['z'] then none else some [97]
  admits n := decide (n < 2)

/-- The missing file has a size of its own, and the two streams are enough. -/
theorem duplicates_returns_iff_oneMissing : ∃ result,
    duplicates oneMissing plainHash 1 (copies ++ [.create ['z'] 2 1]) (.inserted _ _)
      (.inserted _ _) = .ok result :=
  (duplicates_returns_iff (by decide)).mpr (by decide)

end Results

/-! ### Classes up to their order

Two sets of classes under one key have the same members.  Bags of bags forget the order
on both levels and still count, so that equal shapes mean equal groups. -/

section Shapes

variable {ι κ : Type u} {γ : Type*} {xs : List ι} {P : ι → Prop} {key : ι → γ}
  {groups groups' : List (List ι)}

/-- Groups without their order and that of their members. -/
def shape {α : Type*} (groups : List (List α)) : Multiset (Multiset α) :=
  Multiset.ofList (groups.map Multiset.ofList)

theorem shape_eq_zero_iff {α : Type*} {groups : List (List α)} :
    shape groups = 0 ↔ groups = [] := by
  rw [shape, Multiset.coe_eq_zero, List.map_eq_nil_iff]

/-- Renaming the files renames those of the groups. -/
theorem shape_map {α β : Type*} (f : α → β) (groups : List (List α)) :
    shape (groups.map (List.map f)) = (shape groups).map (Multiset.map f) := by
  rw [shape, shape, Multiset.map_coe, List.map_map, List.map_map]
  rfl

/-- Of two groups of the same elements one is a permutation of the other. -/
theorem Groups.exists_perm (h : Groups xs P key groups) (h' : Groups xs P key groups')
    {group : List ι} (hgroup : group ∈ groups) : ∃ group' ∈ groups', group.Perm group' := by
  obtain ⟨x, hx, hsame⟩ := h.same group hgroup
  have hfound : x ∈ groups'.flatten := (h'.mem x).mpr
    ((h.mem x).mp (List.mem_flatten.mpr ⟨group, hgroup, hx⟩))
  obtain ⟨group', hgroup', hx'⟩ := List.mem_flatten.mp hfound
  refine ⟨group', hgroup', (List.perm_ext_iff_of_nodup ?_ ?_).mpr fun y => ?_⟩
  · exact (List.nodup_flatten.mp h.nodup).1 group hgroup
  · exact (List.nodup_flatten.mp h'.nodup).1 group' hgroup'
  · exact (hsame y).trans (h'.mem_iff hgroup' hx').symm

/-- No two groups have the same files. -/
theorem Groups.nodup_shape (h : Groups xs P key groups) : (shape groups).Nodup := by
  obtain ⟨-, hdisjoint⟩ := List.nodup_flatten.mp h.nodup
  refine Multiset.coe_nodup.mpr (List.pairwise_map.mpr (hdisjoint.imp_of_mem ?_))
  intro group group' hgroup _ hapart heq
  obtain ⟨x, hx, -⟩ := h.same group hgroup
  exact hapart hx ((Multiset.coe_eq_coe.mp heq).subset hx)

/-- **There is one set of classes.** -/
theorem Groups.shape_eq (h : Groups xs P key groups) (h' : Groups xs P key groups') :
    shape groups = shape groups' := by
  have hsub {groups groups' : List (List ι)} (h : Groups xs P key groups)
      (h' : Groups xs P key groups') (class' : Multiset ι) (hclass : class' ∈ shape groups) :
      class' ∈ shape groups' := by
    obtain ⟨group, hgroup, rfl⟩ := List.mem_map.mp (Multiset.mem_coe.mp hclass)
    obtain ⟨group', hgroup', hperm⟩ := h.exists_perm h' hgroup
    exact Multiset.mem_coe.mpr (List.mem_map.mpr
      ⟨group', hgroup', Multiset.coe_eq_coe.mpr hperm.symm⟩)
  exact (Multiset.Nodup.ext h.nodup_shape h'.nodup_shape).mpr fun class' =>
    ⟨hsub h h' class', hsub h' h class'⟩

/-- Other names for the elements. -/
theorem Groups.map (h : Groups xs P key groups) (σ : ι ≃ κ) {ys : List κ} {Q : κ → Prop}
    {key' : κ → γ} (hmem : ∀ x, x ∈ xs ↔ σ x ∈ ys) (hpass : ∀ x, P x ↔ Q (σ x))
    (hkey : ∀ x, key x = key' (σ x)) : Groups ys Q key' (groups.map (List.map σ)) := by
  refine ⟨?_, fun y => ?_, fun group hgroup => ?_⟩
  · rw [← List.map_flatten]
    exact h.nodup.map σ.injective
  · obtain ⟨x, rfl⟩ := σ.surjective y
    rw [← List.map_flatten, List.mem_map_of_injective σ.injective, h.mem, hmem, hpass]
  · obtain ⟨members, hmembers, rfl⟩ := List.mem_map.mp hgroup
    obtain ⟨x, hx, hsame⟩ := h.same members hmembers
    refine ⟨σ x, List.mem_map_of_mem hx, fun y => ?_⟩
    obtain ⟨y, rfl⟩ := σ.surjective y
    rw [List.mem_map_of_injective σ.injective, hsame, hmem, hpass, hkey, hkey]

/-- The loop over the blocks does not look at the names. -/
theorem keepsCompany_equiv (σ : ι ≃ κ) {ys : List κ} (hmem : ∀ x, x ∈ xs ↔ σ x ∈ ys)
    {H : ι → ℕ → Text} {H' : κ → ℕ → Text} (hhash : ∀ x k, H x k = H' (σ x) k) (n : ℕ) (x : ι) :
    KeepsCompany xs H n x ↔ KeepsCompany ys H' n (σ x) := by
  induction n generalizing x with
  | zero =>
      rw [KeepsCompany, KeepsCompany, hmem, σ.surjective.exists]
      refine and_congr_right fun _ => exists_congr fun y => ?_
      rw [hmem, σ.injective.ne_iff]
  | succ n ih =>
      rw [KeepsCompany, KeepsCompany, ih, σ.surjective.exists]
      refine and_congr_right fun _ => exists_congr fun y => ?_
      rw [σ.injective.ne_iff, ih, hhash, hhash]

end Shapes

/-! ### The order of the files

The search refers to files by their positions.  Two lists with the same files are
connected by a bijection of the positions, which carries sizes, hashes and with them the
classes over. -/

/-- A permutation of a list is one of its positions, also where elements repeat. -/
theorem exists_equiv_of_perm {α : Type*} {xs ys : List α} (h : xs.Perm ys) :
    ∃ σ : Fin xs.length ≃ Fin ys.length, ∀ i, xs.get i = ys.get (σ i) := by
  induction h with
  | nil => exact ⟨Equiv.refl _, fun i => i.elim0⟩
  | cons x _ ih =>
      obtain ⟨σ, hσ⟩ := ih
      refine ⟨(finSuccEquiv _).trans (σ.optionCongr.trans (finSuccEquiv _).symm), fun i => ?_⟩
      refine Fin.cases ?_ (fun i => ?_) i
      · rfl
      · simpa using hσ i
  | swap x y xs =>
      refine ⟨Equiv.swap 0 1, fun i => ?_⟩
      refine Fin.cases rfl (fun i => Fin.cases rfl (fun i => ?_) i) i
      rw [Equiv.swap_apply_of_ne_of_ne (Fin.succ_ne_zero _)]
      · rfl
      · exact fun heq => Fin.succ_ne_zero i (Fin.succ_injective _ heq)
  | trans _ _ ih ih' =>
      obtain ⟨σ, hσ⟩ := ih
      obtain ⟨τ, hτ⟩ := ih'
      exact ⟨σ.trans τ, fun i => (hσ i).trans (hτ (σ i))⟩

section Renamed

variable {sys : System} {hash : Bytes → Text} {blockSize : ℕ} {files files' : List FileInfo}
  {σ : Fin files.length ≃ Fin files'.length} (hσ : ∀ i, files.get i = files'.get (σ i))

include hσ

/-- Files in another order are as fresh. -/
theorem Fresh.equiv (h : Fresh blockSize files) : Fresh blockSize files' := by
  intro j
  obtain ⟨i, rfl⟩ := σ.surjective j
  rw [← hσ]
  exact h i

/-- Whether a file survives the rounds does not depend on its place in the list. -/
theorem survives_equiv (i : Fin files.length) :
    Survives sys hash files i ↔ Survives sys hash files' (σ i) := by
  have hclass (j : Fin files.length) :
      j ∈ sizeClass files.get (List.finRange files.length) i ↔
        σ j ∈ sizeClass files'.get (List.finRange files'.length) (σ i) := by
    rw [sizeClass, sizeClass, List.mem_filter, List.mem_filter, hσ j, hσ i,
      and_iff_right (List.mem_finRange j), and_iff_right (List.mem_finRange (σ j))]
  unfold Survives Kept
  rw [hσ i]
  exact keepsCompany_equiv σ hclass (fun j k => by rw [hσ j]) _ i

/-- The files that the search has to open are the same, under their new numbers. -/
theorem contenders_equiv : contenders blockSize files' =
    (contenders blockSize files).map σ.toEmbedding := by
  ext j
  obtain ⟨i, rfl⟩ := σ.surjective j
  rw [Finset.mem_map_equiv, Equiv.symm_apply_apply, contenders, contenders, Finset.mem_filter,
    Finset.mem_filter, hσ i, σ.surjective.exists]
  simp only [Finset.mem_univ, true_and, hσ, σ.injective.ne_iff]

end Renamed

section Results

variable {sys : System} {hash : Bytes → Text} {blockSize : ℕ} {files files' : List FileInfo}
  {byHash : Iteration Text (Fin files.length)} {bySize : Iteration ℕ (Fin files.length)}
  {byHash' : Iteration Text (Fin files'.length)} {bySize' : Iteration ℕ (Fin files'.length)}

/-- The groups do not depend on any order. -/
theorem shape_duplicates (hfresh : Fresh blockSize files) (hperm : files.Perm files')
    {result result' : List (List FileInfo)}
    (hok : duplicates sys hash blockSize files byHash bySize = .ok result)
    (hok' : duplicates sys hash blockSize files' byHash' bySize' = .ok result') :
    shape result = shape result' := by
  obtain ⟨σ, hσ⟩ := exists_equiv_of_perm hperm
  obtain ⟨groups, hgroups, rfl⟩ := (duplicates_outcome hfresh).of_eq_ok hok
  obtain ⟨groups', hgroups', rfl⟩ := (duplicates_outcome (hfresh.equiv hσ)).of_eq_ok hok'
  have hrenamed : Groups (List.finRange files'.length) (Survives sys hash files')
      (fun j => groupKey sys hash (files'.get j)) (groups.map (List.map σ)) :=
    hgroups.map σ (fun i => iff_of_true (List.mem_finRange i) (List.mem_finRange (σ i)))
      (survives_equiv hσ) fun i => congrArg (groupKey sys hash) (hσ i)
  have hcopies : groups.map (List.map fun i => (files.get i).hashed sys hash) =
      (groups.map (List.map σ)).map (List.map fun j => (files'.get j).hashed sys hash) := by
    rw [List.map_map]
    refine List.map_congr_left fun group _ => ?_
    rw [Function.comp_apply, List.map_map]
    exact List.map_congr_left fun i _ => congrArg (FileInfo.hashed sys hash) (hσ i)
  rw [hcopies, shape_map, hrenamed.shape_eq hgroups', ← shape_map]

/-- Nor does it depend on them if the search returns. -/
theorem returns_congr (hfresh : Fresh blockSize files) (hperm : files.Perm files') :
    (∃ result, duplicates sys hash blockSize files byHash bySize = .ok result) ↔
      ∃ result, duplicates sys hash blockSize files' byHash' bySize' = .ok result := by
  obtain ⟨σ, hσ⟩ := exists_equiv_of_perm hperm
  rw [returns_iff_served hfresh, returns_iff_served (hfresh.equiv hσ), served_nil, served_nil,
    contenders_equiv hσ, Finset.card_map]
  simp only [Finset.mem_map_equiv, σ.surjective.forall, Equiv.symm_apply_apply, hσ]

end Results

/-! ### The order of the report

The report depends on the list of files, on the groups, and on whether the search
returns.  The first two are given up to their order, the third does not depend on it. -/

/-- The same report, but for the order of the groups and of the paths in them. -/
def Report.Alike : Report → Report → Prop
  | .groups paths, .groups paths' => shape paths = shape paths'
  | .failure _, .failure _ => True
  | .noFiles, .noFiles => True
  | .noDuplicates, .noDuplicates => True
  | _, _ => False

section Program

variable {platform : Platform} {disk disk' : Text → Option Directory} {sys : System}
  {hash : Bytes → Text} {byHash byHash' : ∀ n, Iteration Text (Fin n)}
  {bySize bySize' : ∀ n, Iteration ℕ (Fin n)} {scanner scanner' : FileScanner}

/-- Reports on the same files in another order are alike, whatever orders the maps are walked
in. -/
theorem reportOn_alike {files files' : List FileInfo} (hfresh : Fresh scanner.blockSize files)
    (hblock : scanner'.blockSize = scanner.blockSize) (hperm : files.Perm files') :
    (reportOn sys hash byHash bySize scanner files).Alike
      (reportOn sys hash byHash' bySize' scanner' files') := by
  have hreturns : (∃ result, duplicates sys hash scanner.blockSize files (byHash _) (bySize _) =
      .ok result) ↔ ∃ result, duplicates sys hash scanner.blockSize files' (byHash' _)
        (bySize' _) = .ok result := returns_congr hfresh hperm
  unfold reportOn
  rw [hblock]
  cases files with
  | nil =>
      obtain rfl := List.nil_perm.mp hperm
      exact trivial
  | cons file files =>
      have hne : files' ≠ [] := fun hnil => by
        subst hnil
        exact List.cons_ne_nil file files (List.perm_nil.mp hperm)
      rw [if_neg (by simp), if_neg (by simpa using hne)]
      cases hresult : duplicates sys hash scanner.blockSize (file :: files) (byHash _)
          (bySize _) with
      | error error =>
          cases hresult' : duplicates sys hash scanner.blockSize files' (byHash' _)
              (bySize' _) with
          | error error' => exact trivial
          | ok result' =>
              obtain ⟨result, hok⟩ := hreturns.mpr ⟨result', hresult'⟩
              rw [hresult] at hok
              cases hok
      | ok result =>
          obtain ⟨result', hresult'⟩ := hreturns.mp ⟨result, hresult⟩
          have hshape := shape_duplicates hfresh hperm hresult hresult'
          rw [hresult']
          dsimp only
          by_cases hnil : result = []
          · have hnil' : result' = [] := shape_eq_zero_iff.mp
              (hshape.symm.trans (shape_eq_zero_iff.mpr hnil))
            rw [hnil, hnil']
            exact trivial
          · have hnil' : result' ≠ [] := fun hnil' => hnil
              (shape_eq_zero_iff.mp (hshape.trans (shape_eq_zero_iff.mpr hnil')))
            rw [if_neg (by simpa using hnil), if_neg (by simpa using hnil')]
            show shape _ = shape _
            rw [shape_map, shape_map, hshape]

/-- What is found in a directory does not depend on the other directories of the list. -/
theorem found_scanDirs (dirs : List Text) (dir : Text) :
    found platform disk { scanner with scanDirs := dirs } dir =
      found platform disk scanner dir := by
  have hfits (file : List Name × ℕ) : Fits platform { scanner with scanDirs := dirs } dir file ↔
      Fits platform scanner dir file :=
    ⟨fun h => ⟨h.large, h.masks⟩, fun h => ⟨h.large, h.masks⟩⟩
  simp only [found, hfits]
  rfl

/-- The directories may be given in any order. -/
theorem listing_perm {dirs : List Text} (hdirs : scanner.scanDirs.Perm dirs) :
    (listing platform disk scanner).Perm
      (listing platform disk { scanner with scanDirs := dirs }) := by
  rw [listing, listing, funext (found_scanDirs dirs)]
  exact hdirs.flatMap_right _

/-- **The order decides nothing.**  Two runs that find the same files, in any order and with
any order of the maps, report the same groups up to their order, or both fail. -/
theorem processFiles_order (hblock : scanner'.blockSize = scanner.blockSize)
    (hlisted : (listing platform disk scanner).Perm (listing platform disk' scanner'))
    {fuel fuel' : ℕ} {report report' : Report}
    (h : processFiles platform disk sys hash byHash bySize scanner fuel = some report)
    (h' : processFiles platform disk' sys hash byHash' bySize' scanner' fuel' = some report') :
    report.Alike report' := by
  rw [processFiles_eq h, processFiles_eq h']
  exact reportOn_alike fresh_listing hblock hlisted

end Program

/-- A scan of two directories. -/
def twoDirs : FileScanner := { twice with scanDirs := [absolute [pics], absolute [older]] }

/-- Two directories in either order give one group, with its files in either order. -/
theorem processFiles_order_twoDirs :
    (Report.groups [[absolute [pics, old], absolute [older, old]]]).Alike
      (.groups [[absolute [older, old], absolute [pics, old]]]) := by
  have hreport : processFiles posix oneFile twoBytes plainHash (.inserted _ <| Fin ·)
      (.inserted _ <| Fin ·) twoDirs 2 =
        some (.groups [[absolute [pics, old], absolute [older, old]]]) := by
    decide +kernel
  have hreport' : processFiles posix oneFile twoBytes plainHash (.inserted _ <| Fin ·)
      (.inserted _ <| Fin ·) { twoDirs with scanDirs := [absolute [older], absolute [pics]] } 2 =
        some (.groups [[absolute [older, old], absolute [pics, old]]]) := by
    decide +kernel
  have hdirs : twoDirs.scanDirs.Perm [absolute [older], absolute [pics]] :=
    List.Perm.swap (absolute [older]) (absolute [pics]) []
  refine processFiles_order ?_ (listing_perm hdirs) hreport hreport'
  rfl

end Bayan
