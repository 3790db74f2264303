import CppProfessional.Transition.Outcome
import Mathlib.Data.Finset.Card
import Mathlib.Data.Fintype.Basic

/-!
# The files of the duplicate finder

A `FileInfo` caches the hashes of its blocks and opens its file when the first block is
read.  All of this is mutable behind `const` pointers, so the search passes a state that
holds the files, and a pointer is an index into them.  Reading throws if a file cannot
be opened.

* `numBlocks` — the number of blocks, in 64-bit unsigned arithmetic;
* `computeBlockHash` — the hash of a block, from the cache or from the disk;
* `FileInfo.Knows`, `Informed` — the hashes in the caches are those of the blocks, and
  certain ones are in the caches.
-/

namespace Bayan

open Transition

universe u

/-- A `std::string`. -/
abbrev Text := List Char

/-- The bytes of a file. -/
abbrev Bytes := List UInt8

/-- What the operating system has to offer: what can be read from a path, if it can be
opened, and whether another stream can be opened when so many are open. -/
structure System where
  content : Text → Option Bytes
  admits : ℕ → Bool

/-- `class FileInfo`; a hash that has not been computed is an empty string. -/
structure FileInfo where
  path : Text
  size : ℕ
  blockSize : ℕ
  hashes : List Text
  fileOpened : Bool
  deriving DecidableEq, Repr

/-- `(size + block_size - 1) / block_size` in `std::uintmax_t`. -/
def numBlocks (size blockSize : ℕ) : ℕ :=
  (size + blockSize + (UInt64.size - 1)) % UInt64.size / blockSize

/-- `FileInfo::FileInfo(path, size, block_size)` -/
def FileInfo.create (path : Text) (size blockSize : ℕ) : FileInfo where
  path := path
  size := size
  blockSize := blockSize
  hashes := List.replicate (numBlocks size blockSize) []
  fileOpened := false

/-- The copy constructor: the copy has no stream. -/
def FileInfo.copy (other : FileInfo) : FileInfo := { other with fileOpened := false }

/-- The files behind the pointers of a search, and the blocks that it has read from the
disk, in order. -/
structure Search (ι : Type u) where
  files : ι → FileInfo
  reads : List (ι × ℕ)

/-- An exception: its text, and the search as it is when it is thrown. -/
abbrev Thrown (ι : Type u) := Text × Search ι

section Reading

variable {ι : Type u} [DecidableEq ι] [Fintype ι] (sys : System) (hash : Bytes → Text)

def Search.set (s : Search ι) (i : ι) (file : FileInfo) : Search ι :=
  { s with files := Function.update s.files i file }

/-- The number of open streams. -/
def Search.openStreams (s : Search ι) : ℕ :=
  (Finset.univ.filter fun i => (s.files i).fileOpened = true).card

/-- `FileInfo::open_file()` -/
def openFile (s : Search ι) (i : ι) : Except (Thrown ι) (Search ι) :=
  if (s.files i).fileOpened then .ok s
  else if (sys.content (s.files i).path).isSome && sys.admits s.openStreams then
    .ok (s.set i { s.files i with fileOpened := true })
  else .error ("Failed to open file: ".toList ++ (s.files i).path, s)

/-- The bytes that `seekg` and `read` fetch from the stream. -/
def readBlock (file : FileInfo) (k : ℕ) : Bytes :=
  (((sys.content file.path).getD []).drop (k * file.blockSize)).take file.blockSize

/-- The hash of a block as it is on the disk. -/
def blockHash (file : FileInfo) (k : ℕ) : Text := hash (readBlock sys file k)

/-- `FileInfo::compute_block_hash(block_index, hash_algo)` -/
def computeBlockHash (k : ℕ) (i : ι) (s : Search ι) : Except (Thrown ι) (Text × Search ι) :=
  if (s.files i).hashes.getD k [] ≠ [] then .ok ((s.files i).hashes.getD k [], s)
  else do
    let s ← openFile sys s i
    let hashed := blockHash sys hash (s.files i) k
    let s := s.set i { s.files i with hashes := (s.files i).hashes.set k hashed }
    .ok (hashed, { s with reads := s.reads ++ [(i, k)] })

end Reading

/-! ### What a search knows

The cache is an optimisation that must not be seen.  `Informed` says that what is in it
agrees with the disk; reading a block adds to it, and nothing takes from it, so each
later block may rely on the earlier ones. -/

section Knowledge

variable {ι : Type u} (sys : System) (hash : Bytes → Text)

/-- Nothing stands in the way of a search among the files: each can be opened, whatever
is open already. -/
structure Openable (files : ι → FileInfo) : Prop where
  file : ∀ i, (sys.content (files i).path).isSome = true
  stream : ∀ n, sys.admits n = true

/-- `file` is `original` after a search: the hashes in its cache are right, and those of the
blocks in `K` are cached.  Both are needed: that a block is not computed twice rests on
`known`, and that the computation of a block may trust what it finds rests on `cached`, which
says nothing of the blocks that have not been asked for. -/
structure FileInfo.Knows (original : FileInfo) (K : ℕ → Prop) (file : FileInfo) : Prop where
  path : file.path = original.path
  size : file.size = original.size
  blockSize : file.blockSize = original.blockSize
  length : file.hashes.length = original.hashes.length
  cached : ∀ k, file.hashes.getD k [] ≠ [] →
    file.hashes.getD k [] = blockHash sys hash original k
  known : ∀ k, K k → file.hashes.getD k [] = blockHash sys hash original k

/-- In a search among `files` the cached hashes are right, and those in `D` are cached. -/
def Informed (files : ι → FileInfo) (D : ι → ℕ → Prop) (s : Search ι) : Prop :=
  ∀ i, (files i).Knows sys hash (D i) (s.files i)

variable {sys hash} {files : ι → FileInfo} {D : ι → ℕ → Prop} {s : Search ι}
  {original file : FileInfo} {K : ℕ → Prop}

namespace FileInfo.Knows

/-- The hash of a block depends on the path and the block size only. -/
theorem blockHash_eq (h : original.Knows sys hash K file) (k : ℕ) :
    blockHash sys hash file k = blockHash sys hash original k := by
  unfold blockHash readBlock
  rw [h.path, h.blockSize]

theorem mono {K' : ℕ → Prop} (h : original.Knows sys hash K file) (hsub : ∀ k, K' k → K k) :
    original.Knows sys hash K' file :=
  { h with known := fun k hk => h.known k (hsub k hk) }

theorem opened (h : original.Knows sys hash K file) (b : Bool) :
    original.Knows sys hash K { file with fileOpened := b } :=
  ⟨h.path, h.size, h.blockSize, h.length, h.cached, h.known⟩

/-- Storing the hash of a block: the block is known from now on, and the others are as before.
The block has to have a place among the hashes, or nothing would be stored. -/
theorem store (h : original.Knows sys hash K file) {k : ℕ} (hk : k < original.hashes.length) :
    original.Knows sys hash (fun l => K l ∨ l = k)
      { file with hashes := file.hashes.set k (blockHash sys hash original k) } := by
  have hget (l : ℕ) : (file.hashes.set k (blockHash sys hash original k)).getD l [] =
      if l = k then blockHash sys hash original k else file.hashes.getD l [] := by
    rw [← h.length] at hk
    by_cases hl : k = l
    · subst hl
      simp [List.getD_eq_getElem?_getD, hk]
    · simp [List.getD_eq_getElem?_getD, hl, Ne.symm hl]
  refine ⟨h.path, h.size, h.blockSize, ?_, fun l hne => ?_, fun l hl => ?_⟩
  · rw [List.length_set]
    exact h.length
  · rw [hget] at hne ⊢
    split
    · next heq => rw [heq]
    · next hold =>
        rw [if_neg hold] at hne
        exact h.cached l hne
  · rw [hget]
    split
    · next heq => rw [heq]
    · next hold => exact h.known l (hl.resolve_right hold)

end FileInfo.Knows

theorem Informed.mono {D' : ι → ℕ → Prop} (h : Informed sys hash files D s)
    (hsub : ∀ i k, D' i k → D i k) : Informed sys hash files D' s :=
  fun i => (h i).mono (hsub i)

variable [DecidableEq ι]

/-- Replacing one file. -/
theorem Informed.set (h : Informed sys hash files D s) {i : ι}
    (hfile : (files i).Knows sys hash K file) :
    Informed sys hash files (fun j => if j = i then K else D j) (s.set i file) := by
  intro j
  show (files j).Knows sys hash (if j = i then K else D j) (Function.update s.files i file j)
  by_cases hij : j = i
  · subst hij
    rw [if_pos rfl, Function.update_self]
    exact hfile
  · rw [if_neg hij, Function.update_of_ne hij]
    exact h j

variable [Fintype ι]

/-- Opening a file that can be opened changes no hash. -/
theorem openFile_outcome (h : Informed sys hash files D s) (i : ι) :
    Outcome (Openable sys files) (Informed sys hash files D) (openFile sys s i) := by
  unfold openFile
  split
  · exact h
  · split
    · refine (h.set ((h i).opened true)).mono fun j k hD => ?_
      split
      · next hij => exact hij ▸ hD
      · exact hD
    · next hdenied =>
        intro hopen
        refine hdenied ?_
        rw [(h i).path, hopen.file, hopen.stream]
        rfl

/-- **The hash of a block.**  It is that of the bytes on the disk, and it is cached. -/
theorem computeBlockHash_outcome (h : Informed sys hash files D s) {i : ι} {k : ℕ}
    (hk : k < (files i).hashes.length) :
    Outcome (Openable sys files)
      (fun r => r.1 = blockHash sys hash (files i) k ∧
        Informed sys hash files (fun j l => D j l ∨ j = i ∧ l = k) r.2)
      (computeBlockHash sys hash k i s) := by
  unfold computeBlockHash
  split
  · next hcached =>
      have hknown := (h i).cached k hcached
      refine ⟨hknown, fun j => { h j with known := ?_ }⟩
      rintro l (hD | ⟨rfl, rfl⟩)
      · exact (h j).known l hD
      · exact hknown
  · refine (openFile_outcome h i).bind fun s' h' => ?_
    refine ⟨(h' i).blockHash_eq k, ?_⟩
    have hstored := h'.set ((h' i).store hk)
    rw [← (h' i).blockHash_eq k] at hstored
    refine Informed.mono hstored fun j l hD => ?_
    split
    · next hij => exact hij ▸ hD.imp_right And.right
    · next hij => exact hD.resolve_right fun heq => hij heq.1

end Knowledge

end Bayan
