import CppProfessional.BulkServer.TaskManager
import CppProfessional.Transition.Ledger

/-!
# Where the commands are

Every command that the bulk server has received is in one of four places: in a
block that was pushed, in the static block of the shared manager, in the dynamic
block of its own connection, or in the dynamic block that its connection left
behind.  A ledger assigns the places, and `Books` says that it agrees with what is
stored: with the blocks pushed so far, with what was discarded, with the static
block and with the dynamic blocks of the connections.

Each thing the library does to its blocks is one lemma about `Books`: `append` and
`flush` for the static block, `collect` and `close` for a dynamic one, `register`
and `discard` for a connection that comes and goes.
-/

namespace BulkServer

open Transition
open Async (OutputTask Line Block)

/-- A command, with the id of the connection it came from and the nesting level at
which it was received. -/
structure Arrival where
  connection : Line
  level : ℤ
  command : Line
  deriving DecidableEq, Repr

/-- Where a command can be. -/
inductive Place
  | pushed (k : ℕ)
  | pending
  | collected (id : Line)
  | discarded (id : Line)
  deriving DecidableEq, Repr

/-- What a command must be to be at a place.  In the block of a closing brace there
are only commands of the connection whose id it carries. -/
def Admits (pushed : List (Block × OutputTask)) (discards : List (Line × List Line))
    (opened : Line → Option (List Line)) (a : Arrival) : Place → Prop
  | .pushed k => ∃ kind task, pushed[k]? = some (kind, task) ∧
      match kind with
      | .static => a.level ≤ 0
      | .dynamic => a.connection = task.contextId ∧ 0 < a.level
  | .pending => a.level ≤ 0
  | .collected id => a.connection = id ∧ 0 < a.level ∧ opened id ≠ none
  | .discarded id => a.connection = id ∧ 0 < a.level ∧ id ∈ discards.map Prod.fst

/-- The commands at a place, in the order in which they were received. -/
def commandsAt (ledger : Ledger Arrival Place) (p : Place) : List Line :=
  (ledger.itemsAt p).map Arrival.command

/-- The ledger agrees with the blocks pushed and the dynamic blocks discarded so far, with the
static block, and with the dynamic block `opened id` of each connection.  `admits` says of each
command why it may be where it is, and `gone` that nothing is collected any more for a
connection whose block was discarded. -/
structure Books (pushed : List (Block × OutputTask)) (discards : List (Line × List Line))
    (pending : List Line) (opened : Line → Option (List Line))
    (ledger : Ledger Arrival Place) : Prop where
  atPushed : ∀ k, commandsAt ledger (.pushed k) =
    (pushed[k]?).elim [] fun block => block.2.commands
  atPending : commandsAt ledger .pending = pending
  atCollected : ∀ id, commandsAt ledger (.collected id) = (opened id).getD []
  atDiscarded : ∀ x ∈ discards, commandsAt ledger (.discarded x.1) = x.2
  admits : ∀ x ∈ ledger.entries, Admits pushed discards opened x.1 x.2
  gone : ∀ x ∈ discards, opened x.1 = none

/-! ### Places

The ledger is a function from commands to places.  A move changes the place of all
commands at one place, so what is at a place after it is a question about two places
only. -/

section Places

variable {ledger : Ledger Arrival Place} {a : Arrival} {p q r : Place}

/-- A new entry is the last at its place. -/
theorem commandsAt_record_self :
    commandsAt (ledger.record a p) p = commandsAt ledger p ++ [a.command] := by
  rw [commandsAt, Ledger.itemsAt_record_self, List.map_append]
  rfl

theorem commandsAt_record_of_ne (hpq : p ≠ q) :
    commandsAt (ledger.record a p) q = commandsAt ledger q := by
  rw [commandsAt, Ledger.itemsAt_record_of_ne ledger a hpq, commandsAt]

theorem commandsAt_move_source (hpq : p ≠ q) : commandsAt (ledger.move p q) p = [] := by
  rw [commandsAt, Ledger.itemsAt_move_source ledger hpq]
  rfl

/-- An empty place has afterwards what was moved there, in its order. -/
theorem commandsAt_move_target (hq : commandsAt ledger q = []) :
    commandsAt (ledger.move p q) q = commandsAt ledger p := by
  rw [commandsAt, Ledger.itemsAt_move_target ledger (List.map_eq_nil_iff.mp hq), commandsAt]

theorem commandsAt_move_of_ne (hp : r ≠ p) (hq : r ≠ q) :
    commandsAt (ledger.move p q) r = commandsAt ledger r := by
  rw [commandsAt, Ledger.itemsAt_move_of_ne ledger hp hq, commandsAt]

end Places

section Admits

variable {pushed : List (Block × OutputTask)} {discards : List (Line × List Line)}
  {opened : Line → Option (List Line)} {ledger : Ledger Arrival Place} {a : Arrival} {p : Place}

/-- More blocks are pushed and more is discarded. -/
theorem Admits.mono (h : Admits pushed discards opened a p)
    (output : List (Block × OutputTask)) (gone : List (Line × List Line)) :
    Admits (pushed ++ output) (discards ++ gone) opened a p := by
  cases p with
  | pushed k =>
      obtain ⟨kind, task, hblock, hkind⟩ := h
      have hlt : k < pushed.length := (List.getElem?_eq_some_iff.mp hblock).1
      refine ⟨kind, task, ?_, hkind⟩
      rw [List.getElem?_append_left hlt, hblock]
  | pending => exact h
  | collected id => exact h
  | discarded id =>
      obtain ⟨hid, hlevel, hmem⟩ := h
      refine ⟨hid, hlevel, ?_⟩
      rw [List.map_append]
      exact List.mem_append_left _ hmem

/-- The dynamic blocks change, and the connection `id` stays or was not the place. -/
theorem Admits.update {id : Line} {block : Option (List Line)}
    (h : Admits pushed discards opened a p) (hstays : block ≠ none ∨ p ≠ .collected id) :
    Admits pushed discards (Function.update opened id block) a p := by
  cases p with
  | pushed k => exact h
  | pending => exact h
  | discarded other => exact h
  | collected other =>
      obtain ⟨hid, hlevel, hopened⟩ := h
      refine ⟨hid, hlevel, ?_⟩
      by_cases hother : other = id
      · subst hother
        rw [Function.update_self]
        exact hstays.resolve_right fun hne => hne rfl
      · rw [Function.update_of_ne hother]
        exact hopened

/-- Nothing is at a place that admits nothing. -/
theorem commandsAt_eq_nil (h : ∀ x ∈ ledger.entries, Admits pushed discards opened x.1 x.2)
    (hp : ∀ a, ¬ Admits pushed discards opened a p) : commandsAt ledger p = [] := by
  rw [commandsAt, Ledger.itemsAt, List.map_eq_nil_iff, List.map_eq_nil_iff,
    List.filter_eq_nil_iff]
  intro x hx hplace
  have hplace : x.2 = p := by simpa using hplace
  exact hp x.1 (hplace ▸ h x hx)

end Admits

/-! ### The operations

For each thing that the bulk server does to its commands there is a lemma.  It says how
the ledger has to be changed along with the blocks for the books to go on agreeing with
them. -/

section Operations

variable {pushed : List (Block × OutputTask)} {discards : List (Line × List Line)}
  {pending block : List Line} {opened : Line → Option (List Line)}
  {ledger : Ledger Arrival Place} {id : Line} {output : Option (Block × OutputTask)}

/-- A place that becomes the next block. -/
theorem pushed_move {p : Place} {x : Block × OutputTask}
    (h : ∀ k, commandsAt ledger (.pushed k) =
      (pushed[k]?).elim [] fun block => block.2.commands)
    (hp : ∀ k, p ≠ .pushed k) (hblock : commandsAt ledger p = x.2.commands) (k : ℕ) :
    commandsAt (ledger.move p (.pushed pushed.length)) (.pushed k) =
      ((pushed ++ [x])[k]?).elim [] fun block => block.2.commands := by
  by_cases hk : k = pushed.length
  · subst hk
    have hempty : commandsAt ledger (.pushed pushed.length) = [] := by
      rw [h, List.getElem?_eq_none le_rfl]
      rfl
    rw [commandsAt_move_target hempty, hblock, List.getElem?_concat_length]
    rfl
  · rw [commandsAt_move_of_ne (hp k).symm (by simpa using hk), h]
    rcases lt_or_gt_of_ne hk with hlt | hgt
    · rw [List.getElem?_append_left hlt]
    · have hlong : (pushed ++ [x]).length ≤ k := by simpa using Nat.succ_le_of_lt hgt
      rw [List.getElem?_eq_none hgt.le, List.getElem?_eq_none hlong]

/-- A command outside braces. -/
theorem Books.append (h : Books pushed discards pending opened ledger) {a : Arrival}
    (ha : a.level ≤ 0) :
    Books pushed discards (pending ++ [a.command]) opened (ledger.record a .pending) where
  atPushed k := by
    rw [commandsAt_record_of_ne (by simp)]
    exact h.atPushed k
  atPending := by rw [commandsAt_record_self, h.atPending]
  atCollected id := by
    rw [commandsAt_record_of_ne (by simp)]
    exact h.atCollected id
  atDiscarded x hx := by
    rw [commandsAt_record_of_ne (by simp)]
    exact h.atDiscarded x hx
  admits := Ledger.forall_record h.admits ha
  gone := h.gone

/-- The static block is put out: everything at its place moves to the place of the next block
pushed, which nothing has occupied yet. -/
theorem Books.flush (h : Books pushed discards block opened ledger)
    (hout : PutsOut .static id block output) :
    ∃ ledger' : Ledger Arrival Place, ledger'.items = ledger.items ∧
      Books (pushed ++ output.toList) discards [] opened ledger' := by
  cases hout with
  | nothing hnil =>
      subst hnil
      refine ⟨ledger, rfl, ?_⟩
      rw [Option.toList_none, List.append_nil]
      exact h
  | block timestamp _ =>
      refine ⟨ledger.move .pending (.pushed pushed.length), Ledger.items_move .., ?_⟩
      exact
        { atPushed := pushed_move h.atPushed (by simp) h.atPending
          atPending := commandsAt_move_source (by simp)
          atCollected := fun id => by
            rw [commandsAt_move_of_ne (by simp) (by simp)]
            exact h.atCollected id
          atDiscarded := fun x hx => by
            rw [commandsAt_move_of_ne (by simp) (by simp)]
            exact h.atDiscarded x hx
          admits := by
            refine Ledger.forall_move h.admits (fun a ha => ?_) fun a p _ ha => ?_
            · exact ⟨.static, _, List.getElem?_concat_length, ha⟩
            · simpa using ha.mono [(.static, ⟨timestamp, id, block⟩)] []
          gone := h.gone }

/-- The connections whose blocks were discarded are gone. -/
theorem Books.discarded_ne (h : Books pushed discards pending opened ledger)
    (hopened : opened id = some block) : ∀ x ∈ discards, x.1 ≠ id := by
  rintro x hx rfl
  rw [h.gone x hx] at hopened
  cases hopened

/-- When the dynamic block of a connection goes elsewhere, those of the others stay. -/
theorem Books.collected_move (h : Books pushed discards pending opened ledger) {q : Place}
    (hq : ∀ other, q ≠ .collected other) {block' : Option (List Line)}
    (hblock' : block'.getD [] = []) (other : Line) :
    commandsAt (ledger.move (.collected id) q) (.collected other) =
      (Function.update opened id block' other).getD [] := by
  by_cases hother : other = id
  · rw [hother, commandsAt_move_source (hq id).symm, Function.update_self, hblock']
  · rw [commandsAt_move_of_ne (by simpa using hother) (hq other).symm,
      Function.update_of_ne hother]
    exact h.atCollected other

/-- A command inside the braces of its connection is entered at the place of its dynamic block;
the static block and the other connections are not concerned. -/
theorem Books.collect (h : Books pushed discards pending opened ledger) {a : Arrival}
    (hopened : opened a.connection = some block) (ha : 0 < a.level) :
    Books pushed discards pending
      (Function.update opened a.connection (some (block ++ [a.command])))
      (ledger.record a (.collected a.connection)) where
  atPushed k := by
    rw [commandsAt_record_of_ne (by simp)]
    exact h.atPushed k
  atPending := by
    rw [commandsAt_record_of_ne (by simp)]
    exact h.atPending
  atCollected id := by
    by_cases hid : id = a.connection
    · rw [hid, commandsAt_record_self, h.atCollected, hopened, Function.update_self]
      rfl
    · rw [commandsAt_record_of_ne (by simpa using Ne.symm hid), Function.update_of_ne hid]
      exact h.atCollected id
  atDiscarded x hx := by
    rw [commandsAt_record_of_ne (by simp)]
    exact h.atDiscarded x hx
  admits := by
    refine Ledger.forall_record (fun x hx => (h.admits x hx).update (Or.inl (by simp))) ?_
    refine ⟨rfl, ha, ?_⟩
    rw [Function.update_self]
    simp
  gone x hx := by
    rw [Function.update_of_ne (h.discarded_ne hopened x hx)]
    exact h.gone x hx

/-- The dynamic block of a connection is put out, under the id of this connection.  An empty
block is not put out, and then there is nothing to move. -/
theorem Books.close (h : Books pushed discards pending opened ledger)
    (hopened : opened id = some block) (hout : PutsOut .dynamic id block output) :
    ∃ ledger' : Ledger Arrival Place, ledger'.items = ledger.items ∧
      Books (pushed ++ output.toList) discards pending (Function.update opened id (some []))
        ledger' := by
  cases hout with
  | nothing hnil =>
      subst hnil
      refine ⟨ledger, rfl, ?_⟩
      rw [Option.toList_none, List.append_nil, ← hopened, Function.update_eq_self]
      exact h
  | block timestamp _ =>
      refine ⟨ledger.move (.collected id) (.pushed pushed.length), Ledger.items_move .., ?_⟩
      have hblock : commandsAt ledger (.collected id) = block := by
        rw [h.atCollected, hopened]
        rfl
      exact
        { atPushed := pushed_move h.atPushed (by simp) hblock
          atPending := by
            rw [commandsAt_move_of_ne (by simp) (by simp)]
            exact h.atPending
          atCollected := h.collected_move (by simp) rfl
          atDiscarded := fun x hx => by
            rw [commandsAt_move_of_ne (by simp) (by simp)]
            exact h.atDiscarded x hx
          admits := by
            refine Ledger.forall_move h.admits (fun a ha => ?_) fun a p _ ha => ?_
            · exact ⟨.dynamic, _, List.getElem?_concat_length, ha.1, ha.2.1⟩
            · have hmono := ha.mono [(.dynamic, ⟨timestamp, id, block⟩)] []
              rw [List.append_nil] at hmono
              exact hmono.update (Or.inl (by simp))
          gone := fun x hx => by
            rw [Function.update_of_ne (h.discarded_ne hopened x hx)]
            exact h.gone x hx }

/-- A connection with a new id comes. -/
theorem Books.register (h : Books pushed discards pending opened ledger)
    (hfree : opened id = none) (hnew : ∀ x ∈ discards, x.1 ≠ id) :
    Books pushed discards pending (Function.update opened id (some [])) ledger where
  atPushed := h.atPushed
  atPending := h.atPending
  atCollected other := by
    by_cases hother : other = id
    · rw [hother, h.atCollected, hfree, Function.update_self]
      rfl
    · rw [Function.update_of_ne hother]
      exact h.atCollected other
  atDiscarded := h.atDiscarded
  admits x hx := (h.admits x hx).update (Or.inl (by simp))
  gone x hx := by
    rw [Function.update_of_ne (hnew x hx)]
    exact h.gone x hx

/-- A connection goes, and its dynamic block with it.  The commands stay in the ledger, at a
place that nothing leaves any more. -/
theorem Books.discard (h : Books pushed discards pending opened ledger)
    (hopened : opened id = some block) :
    Books pushed (discards ++ [(id, block)]) pending (Function.update opened id none)
      (ledger.move (.collected id) (.discarded id)) where
  atPushed k := by
    rw [commandsAt_move_of_ne (by simp) (by simp)]
    exact h.atPushed k
  atPending := by
    rw [commandsAt_move_of_ne (by simp) (by simp)]
    exact h.atPending
  atCollected := h.collected_move (by simp) rfl
  atDiscarded x hx := by
    -- the id was not discarded before, because it is still open
    have hnew := h.discarded_ne hopened
    rcases List.mem_append.mp hx with hx | hx
    · rw [commandsAt_move_of_ne (by simp) (by simpa using hnew x hx)]
      exact h.atDiscarded x hx
    · rw [List.mem_singleton.mp hx]
      have hempty : commandsAt ledger (.discarded id) = [] := by
        refine commandsAt_eq_nil h.admits ?_
        rintro a ⟨-, -, hmem⟩
        obtain ⟨y, hy, hid⟩ := List.mem_map.mp hmem
        exact hnew y hy hid
      rw [commandsAt_move_target hempty, h.atCollected, hopened]
      rfl
  admits := by
    refine Ledger.forall_move h.admits (fun a ha => ?_) fun a p hp ha => ?_
    · exact ⟨ha.1, ha.2.1, by simp⟩
    · have hmono := ha.mono [] [(id, block)]
      rw [List.append_nil] at hmono
      exact hmono.update (Or.inr hp)
  gone x hx := by
    rcases List.mem_append.mp hx with hx | hx
    · by_cases hid : x.1 = id
      · rw [hid, Function.update_self]
      · rw [Function.update_of_ne hid]
        exact h.gone x hx
    · rw [List.mem_singleton.mp hx, Function.update_self]

end Operations

end BulkServer
