import Mathlib.Data.List.Basic
import Mathlib.Data.List.Nodup

/-!
# Forests and depth-first cursors

A directory tree is a list of entries with keys, each a leaf or a branch with entries of
its own.  A depth-first iterator keeps a stack of such lists, one for each branch that it
is in, and a context for each of them, such as the path to the branch.

* `Forest.positions` — every entry of a forest, by the keys on the way to it;
* `Forest.walk` — the entries in the order of a depth-first iterator, with contexts;
* `Cursor` — the iterator: a stack of lists that is never at the end of the topmost one;
* `Cursor.todo_increment` — an increment goes on by one entry, unless it is told not to
  descend.
-/

namespace Containers

universe u v w

/-- Entries in order: leaves with a value, and branches with the entries inside. -/
inductive Forest (κ : Type u) (α : Type v)
  | nil
  | leaf (key : κ) (value : α) (rest : Forest κ α)
  | branch (key : κ) (inside rest : Forest κ α)
  deriving DecidableEq

namespace Forest

variable {κ : Type u} {α : Type v} {γ : Type w}

/-- The keys of the entries, without those inside branches. -/
def keys : Forest κ α → List κ
  | nil => []
  | leaf key _ rest => key :: keys rest
  | branch key _ rest => key :: keys rest

/-- The entries themselves, without those inside branches; a branch has no value. -/
def level : Forest κ α → List (κ × Option α)
  | nil => []
  | leaf key value rest => (key, some value) :: level rest
  | branch key _ rest => (key, none) :: level rest

/-- All entries with the keys on the way to them. -/
def positions : Forest κ α → List (List κ × Option α)
  | nil => []
  | leaf key value rest => ([key], some value) :: positions rest
  | branch key inside rest =>
      ([key], none) :: ((positions inside).map (Prod.map (key :: ·) id) ++ positions rest)

/-- No two entries of one list have the same key. -/
def Distinct : Forest κ α → Prop
  | nil => True
  | leaf key _ rest => key ∉ rest.keys ∧ Distinct rest
  | branch key inside rest => key ∉ rest.keys ∧ Distinct inside ∧ Distinct rest

/-- The way to an entry starts with one of the keys. -/
theorem exists_of_mem_positions {forest : Forest κ α} {entry : List κ × Option α}
    (h : entry ∈ forest.positions) : ∃ key ∈ forest.keys, ∃ keys, entry.1 = key :: keys := by
  induction forest with
  | nil => cases h
  | leaf key value rest ih =>
      rcases List.mem_cons.mp h with rfl | hrest
      · exact ⟨key, List.mem_cons_self, [], rfl⟩
      · obtain ⟨key', hmem, hkeys⟩ := ih hrest
        exact ⟨key', List.mem_cons_of_mem _ hmem, hkeys⟩
  | branch key inside rest _ ih =>
      rcases List.mem_cons.mp h with rfl | hother
      · exact ⟨key, List.mem_cons_self, [], rfl⟩
      · rcases List.mem_append.mp hother with hinside | hrest
        · obtain ⟨below, -, rfl⟩ := List.mem_map.mp hinside
          exact ⟨key, List.mem_cons_self, below.1, rfl⟩
        · obtain ⟨key', hmem, hkeys⟩ := ih hrest
          exact ⟨key', List.mem_cons_of_mem _ hmem, hkeys⟩

theorem eq_singleton_of_prefix {front : List κ} {key : κ} (hfront : front <+: [key])
    (hne : front ≠ []) : front = [key] :=
  hfront.eq_of_length_le (List.length_pos_of_ne_nil hne)

/-- On the way to an entry there are only entries: every front of its names leads to one. -/
theorem mem_positions_of_prefix {forest : Forest κ α} {entry : List κ × Option α}
    (h : entry ∈ forest.positions) {front : List κ} (hfront : front <+: entry.1)
    (hne : front ≠ []) : ∃ value, (front, value) ∈ forest.positions := by
  induction forest generalizing entry front with
  | nil => cases h
  | leaf key value rest ih =>
      rcases List.mem_cons.mp h with rfl | hrest
      · exact ⟨some value, eq_singleton_of_prefix hfront hne ▸ List.mem_cons_self⟩
      · obtain ⟨value', hmem⟩ := ih hrest hfront hne
        exact ⟨value', List.mem_cons_of_mem _ hmem⟩
  | branch key inside rest ihin ih =>
      rcases List.mem_cons.mp h with rfl | hother
      · exact ⟨none, eq_singleton_of_prefix hfront hne ▸ List.mem_cons_self⟩
      · rcases List.mem_append.mp hother with hinside | hrest
        · obtain ⟨below, hbelow, rfl⟩ := List.mem_map.mp hinside
          rcases List.prefix_cons_iff.mp hfront with hnil | ⟨tail, rfl, htail⟩
          · exact absurd hnil hne
          · -- the branch itself is on the way to what is inside
            by_cases hbranch : tail = []
            · exact ⟨none, hbranch ▸ List.mem_cons_self⟩
            · obtain ⟨value', hmem⟩ := ihin hbelow htail hbranch
              exact ⟨value', List.mem_cons_of_mem _ (List.mem_append_left _
                (List.mem_map.mpr ⟨(tail, value'), hmem, rfl⟩))⟩
        · obtain ⟨value', hmem⟩ := ih hrest hfront hne
          exact ⟨value', List.mem_cons_of_mem _ (List.mem_append_right _ hmem)⟩

/-- The entries outside all branches have the shortest ways. -/
theorem map_level (forest : Forest κ α) :
    forest.level.map (Prod.map ([·]) id) =
      forest.positions.filter fun entry => entry.1.length = 1 := by
  induction forest with
  | nil => rfl
  | leaf key value rest ih => exact congrArg (([key], some value) :: ·) ih
  | branch key inside rest _ ih =>
      have hinside : ((positions inside).map (Prod.map (key :: ·) id)).filter
          (fun entry => entry.1.length = 1) = [] := by
        refine List.filter_eq_nil_iff.mpr fun entry hentry hlen => ?_
        obtain ⟨below, hbelow, rfl⟩ := List.mem_map.mp hentry
        obtain ⟨key', -, keys, hkeys⟩ := exists_of_mem_positions hbelow
        simp [hkeys] at hlen
      rw [positions, List.filter_cons_of_pos (by simp), List.filter_append, hinside,
        List.nil_append, ← ih]
      rfl

/-- The ways that start with a key that is not among the keys of a forest. -/
theorem not_mem_positions {forest : Forest κ α} {key : κ} (h : key ∉ forest.keys)
    (keys : List κ) : key :: keys ∉ forest.positions.map Prod.fst := by
  intro hmem
  obtain ⟨entry, hentry, hway⟩ := List.mem_map.mp hmem
  obtain ⟨key', hkey', keys', hway'⟩ := exists_of_mem_positions hentry
  rw [hway] at hway'
  exact h ((List.cons.inj hway').1 ▸ hkey')

/-- **Every entry has a way of its own**, if no two entries of one directory have the same
name. -/
theorem Distinct.positions_nodup {forest : Forest κ α} (h : forest.Distinct) :
    (forest.positions.map Prod.fst).Nodup := by
  induction forest with
  | nil => exact List.nodup_nil
  | leaf key value rest ih =>
      exact List.nodup_cons.mpr ⟨not_mem_positions h.1 [], ih h.2⟩
  | branch key inside rest ihin ih =>
      have hinside : ((positions inside).map (Prod.map (key :: ·) id)).map Prod.fst =
          ((positions inside).map Prod.fst).map (key :: ·) := by
        rw [List.map_map, List.map_map]
        rfl
      rw [positions, List.map_cons, List.map_append, hinside, List.nodup_cons,
        List.nodup_append]
      refine ⟨?_, (ihin h.2.1).map (List.cons_injective), ih h.2.2, ?_⟩
      · rw [List.mem_append, not_or]
        refine ⟨fun hmem => ?_, not_mem_positions h.1 []⟩
        -- what is inside has a longer way than the branch itself
        obtain ⟨way, hway, heq⟩ := List.mem_map.mp hmem
        obtain ⟨entry, hentry, rfl⟩ := List.mem_map.mp hway
        obtain ⟨key', -, keys, hkeys⟩ := exists_of_mem_positions hentry
        rw [hkeys] at heq
        cases heq
      · intro way hway way' hway' heq
        obtain ⟨below, -, rfl⟩ := List.mem_map.mp hway
        exact not_mem_positions h.1 below (heq ▸ hway')

/-! ### Walks

A walk visits an entry before what is inside it.  The context says what the way to the
entry was, in the form in which a caller wants to have it. -/

variable (into : γ → κ → γ)

/-- The entries in depth-first order.  The entries of the forest have the context `c`; an
entry is listed with the context that it makes for what is inside it. -/
def walk (c : γ) : Forest κ α → List (γ × Option α)
  | nil => []
  | leaf key value rest => (into c key, some value) :: walk c rest
  | branch key inside rest =>
      (into c key, none) :: (walk (into c key) inside ++ walk c rest)

/-- A walk collects the keys on the way to each entry. -/
theorem walk_eq (c : γ) (forest : Forest κ α) :
    forest.walk into c = forest.positions.map (Prod.map (·.foldl into c) id) := by
  induction forest generalizing c with
  | nil => rfl
  | leaf key value rest ih => exact congrArg (_ :: ·) (ih c)
  | branch key inside rest ihin ih =>
      rw [walk, positions, ihin, ih, List.map_cons, List.map_append, List.map_map]
      rfl

/-- The first entry. -/
def first (c : γ) : Forest κ α → Option (γ × Option α)
  | nil => none
  | leaf key value _ => some (into c key, some value)
  | branch key _ _ => some (into c key, none)

/-- What comes after the first entry. -/
def next : Forest κ α → Forest κ α
  | nil => nil
  | leaf _ _ rest => rest
  | branch _ _ rest => rest

/-- A walk begins with the first entry. -/
theorem head?_walk (c : γ) (forest : Forest κ α) :
    (forest.walk into c).head? = forest.first into c := by
  cases forest with
  | nil => rfl
  | leaf key value rest => rfl
  | branch key inside rest => rfl

end Forest

/-! ### Cursors

The iterator has a stack of lists, one for each branch that it is in.  Its two
operations, going inside and going on, are defined on the stack, and `increment` picks
one of them. -/

section Cursors

variable {κ : Type u} {α : Type v} {γ : Type w}

/-- The lists of entries that a depth-first iterator is in, innermost first, from the
current entry of each. -/
abbrev Frames (κ : Type u) (α : Type v) (γ : Type w) := List (γ × Forest κ α)

/-- The topmost list has an entry. -/
def Frames.Proper (frames : Frames κ α γ) : Prop := ∀ frame ∈ frames.head?, frame.2 ≠ .nil

/-- Going on behind the current entry, in the innermost list that has another one. -/
def advance : Frames κ α γ → Frames κ α γ
  | [] => []
  | (c, forest) :: outer =>
      match forest.next with
      | .nil => advance outer
      | next => (c, next) :: outer

/-- The list of a forest, unless it is empty. -/
def enter (c : γ) : Forest κ α → Frames κ α γ
  | .nil => []
  | forest => [(c, forest)]

variable (into : γ → κ → γ)

/-- Going on inside the current entry if there is anything, and otherwise behind it. -/
def descend : Frames κ α γ → Frames κ α γ
  | (c, .branch key inside rest) :: outer =>
      match inside with
      | .nil => advance ((c, .branch key inside rest) :: outer)
      | inside => (into c key, inside) :: (c, .branch key inside rest) :: outer
  | frames => advance frames

/-- Frames that are entered are proper. -/
theorem proper_enter (c : γ) (forest : Forest κ α) : (enter c forest).Proper := by
  unfold enter
  split
  · intro top htop
    cases htop
  · next forest hforest =>
      intro top htop
      obtain rfl := Option.some.inj htop
      exact hforest

/-- They stay so with the next sibling, -/
theorem proper_advance (frames : Frames κ α γ) : (advance frames).Proper := by
  induction frames with
  | nil => intro frame hframe; cases hframe
  | cons frame outer ih =>
      rw [advance]
      split
      · exact ih
      · next next hnext =>
          intro top htop
          obtain rfl := Option.some.inj htop
          exact hnext

/-- and with the first child. -/
theorem proper_descend (frames : Frames κ α γ) : (descend into frames).Proper := by
  unfold descend
  split
  · split
    · exact proper_advance _
    · next inside hinside =>
        intro top htop
        obtain rfl := Option.some.inj htop
        exact hinside
  · exact proper_advance _

variable (κ α γ) in
/-- A depth-first iterator, which is at an entry unless it is at the end. -/
structure Cursor where
  frames : Frames κ α γ
  recursionPending : Bool
  proper : frames.Proper

namespace Cursor

/-- The iterator at the first entry of a forest. -/
def start (c : γ) (forest : Forest κ α) : Cursor κ α γ where
  frames := enter c forest
  recursionPending := true
  proper := proper_enter c forest

/-- The entry that the iterator is at. -/
def current (it : Cursor κ α γ) : Option (γ × Option α) :=
  it.frames.head?.bind fun frame => frame.2.first into frame.1

/-- Staying out of the current entry at the next increment. -/
def disableRecursionPending (it : Cursor κ α γ) : Cursor κ α γ :=
  { it with recursionPending := false }

/-- The next entry: inside the current one if recursion is pending. -/
def increment (it : Cursor κ α γ) : Cursor κ α γ :=
  if it.recursionPending then ⟨descend into it.frames, true, proper_descend into it.frames⟩
  else ⟨advance it.frames, true, proper_advance it.frames⟩

end Cursor

/-! ### What is still to come

An iterator is described by the list of entries that it has still to visit.  An
increment drops the first of them; without recursion it drops what is inside this entry
as well. -/

/-- The entries behind the current one, without those inside it. -/
def behind : Frames κ α γ → List (γ × Option α)
  | [] => []
  | (c, forest) :: outer => forest.next.walk into c ++ behind outer

/-- The entries from the current one on. -/
def ahead : Frames κ α γ → List (γ × Option α)
  | [] => []
  | (c, forest) :: outer => forest.walk into c ++ behind into outer

/-- After the step to the next sibling, what is ahead is what was behind the current entry. -/
theorem ahead_advance (frames : Frames κ α γ) :
    ahead into (advance frames) = behind into frames := by
  induction frames with
  | nil => rfl
  | cons frame outer ih =>
      rw [advance, behind]
      split
      · next hnil =>
          rw [ih, hnil]
          rfl
      · rfl

/-- After the step into the current entry, what is ahead is what was ahead without it. -/
theorem ahead_descend {frames : Frames κ α γ} (h : frames.Proper) :
    ahead into (descend into frames) = (ahead into frames).tail := by
  cases frames with
  | nil => rfl
  | cons frame outer =>
      obtain ⟨c, forest⟩ := frame
      cases forest with
      | nil => exact absurd rfl (h _ rfl)
      | leaf key value rest => exact ahead_advance into ((c, .leaf key value rest) :: outer)
      | branch key inside rest =>
          have hbranch : (ahead into ((c, .branch key inside rest) :: outer)).tail =
              inside.walk into (into c key) ++
                behind into ((c, .branch key inside rest) :: outer) :=
            List.append_assoc _ _ _
          rw [hbranch]
          cases inside with
          | nil => exact ahead_advance into _
          | leaf key' value' rest' => rfl
          | branch key' inside' rest' => rfl

namespace Cursor

/-- The entries from the one that the iterator is at. -/
def todo (it : Cursor κ α γ) : List (γ × Option α) := ahead into it.frames

/-- At the start everything is to be walked. -/
theorem todo_start (c : γ) (forest : Forest κ α) :
    (start c forest).todo into = forest.walk into c := by
  cases forest with
  | nil => rfl
  | leaf key value rest => exact List.append_nil _
  | branch key inside rest => exact List.append_nil _

/-- The current entry is the first of what is still to be walked. -/
theorem current_eq (it : Cursor κ α γ) : it.current into = (it.todo into).head? := by
  obtain ⟨frames, pending, hproper⟩ := it
  cases frames with
  | nil => rfl
  | cons frame outer =>
      have hne : frame.2.walk into frame.1 ≠ [] := by
        have htop := hproper frame rfl
        cases hforest : frame.2 with
        | nil => exact absurd hforest htop
        | leaf key value rest => exact List.cons_ne_nil _ _
        | branch key inside rest => exact List.cons_ne_nil _ _
      show frame.2.first into frame.1 = (frame.2.walk into frame.1 ++ behind into outer).head?
      rw [List.head?_append_of_ne_nil _ hne, Forest.head?_walk]

/-- **One step.**  With recursion pending an increment goes to the next entry. -/
theorem todo_increment {it : Cursor κ α γ} (h : it.recursionPending = true) :
    (it.increment into).todo into = (it.todo into).tail := by
  rw [increment, if_pos h]
  exact ahead_descend into it.proper

/-- After a step recursion is pending again, whatever was disabled before it. -/
theorem recursionPending_increment (it : Cursor κ α γ) :
    (it.increment into).recursionPending = true := by
  unfold increment
  split <;> rfl

end Cursor

end Cursors

end Containers
