import CppProfessional.Allocator.MyList
import CppProfessional.Transition.Machine

/-!
# The list when calls fail

`push_back` may throw before it has memory for the node, and between getting the memory
and making the node in it.  In both cases the list stays as it was, in the second one the
memory is lost.

* `Heap` is the list with the memory it lives in, `pushes` are its runs,
* `Holds` is the invariant of the list: the nodes from the head on,
* `Heap.iterate` and `Heap.destroy` are the loops over the nodes,
* `pushes_hold` says what every run leads to,
* `pushBack_refines` connects it to the list with its allocator.

`malloc` may return any address that is free; the model has no more of them than the
program, where one of the numbers below `2 ^ 64` is the null pointer.
-/

namespace Allocator

open Containers Transition

universe u

variable {T : Type u}

/-- The number of addresses. -/
def addresses : ℕ := 2 ^ 64 - 1

/-- `MyList<T, Alloc>`, with the nodes that have been made and the memory that has been
allocated. -/
structure Heap (T : Type u) where
  cells : ℕ → Option (Node T)
  allocated : List ℕ
  head : Option ℕ
  tail : Option ℕ
  size : UInt64

/-- A call of `push_back`: what the allocator and the constructor of the node do. -/
inductive Attempt (T : Type u)
  | allocationThrows (val : T)
  | constructionThrows (newNode : ℕ) (val : T)
  | succeeds (newNode : ℕ) (val : T)

/-- What a call does; `undefined` is a write through a pointer to no node. -/
inductive Effect (T : Type u)
  | pushed (val : T)
  | thrown
  | undefined
  deriving DecidableEq

/-- What the destructor does with a node. -/
inductive Release
  | destroyed (node : ℕ)
  | deallocated (node : ℕ)
  deriving DecidableEq, Repr

namespace Heap

/-- `MyList()` -/
def empty : Heap T := ⟨fun _ => none, [], none, none, 0⟩

/-- What `malloc` may return. -/
def Free (h : Heap T) (a : ℕ) : Prop := a < addresses ∧ a ∉ h.allocated

instance (h : Heap T) (a : ℕ) : Decidable (h.Free a) := inferInstanceAs (Decidable (_ ∧ _))

/-- `allocate(1)` -/
def allocate (h : Heap T) (newNode : ℕ) : Heap T := { h with allocated := newNode :: h.allocated }

/-- `new (newNode) Node(val)` -/
def construct (h : Heap T) (newNode : ℕ) (val : T) : Heap T :=
  { h with cells := Function.update h.cells newNode (some ⟨none, val⟩) }

/-- `node->setNext(newNext)`, where there is a node. -/
def setNext (h : Heap T) (node : Option ℕ) (newNext : ℕ) : Option (Heap T) :=
  node.bind fun a => (h.cells a).map fun cell =>
    { h with cells := Function.update h.cells a (some { cell with next := some newNext }) }

/-- The rest of `push_back` once the node is made. -/
def link (h : Heap T) (newNode : ℕ) : Option (Heap T) :=
  match h.head with
  | none => some { h with head := some newNode, tail := some newNode, size := h.size + 1 }
  | some _ =>
      (h.setNext h.tail newNode).map fun h => { h with tail := some newNode, size := h.size + 1 }

/-- `push_back` -/
def pushBack (h : Heap T) : Attempt T → Option (Effect T × Heap T)
  | .allocationThrows _ => some (.thrown, h)
  | .constructionThrows newNode _ =>
      if h.Free newNode then some (.thrown, h.allocate newNode) else none
  | .succeeds newNode val =>
      if h.Free newNode then
        match ((h.allocate newNode).construct newNode val).link newNode with
        | some h' => some (.pushed val, h')
        | none => some (.undefined, h)
      else none

/-- The loop from `begin()` to `end()`, unless it reads through a pointer to no node or the
fuel runs out. -/
def iterateFrom (cells : ℕ → Option (Node T)) : ℕ → Option ℕ → Option (List T)
  | _, none => some []
  | 0, some _ => none
  | fuel + 1, some current =>
      (cells current).bind fun node => (iterateFrom cells fuel node.next).map (node.val :: ·)

/-- The values from `begin()` to `end()`. -/
def iterate (h : Heap T) (fuel : ℕ) : Option (List T) := iterateFrom h.cells fuel h.head

/-- The loop of the destructor: it reads the next pointer, destroys the node and gives its
memory back, unless there is no such node or memory or the fuel runs out. -/
def destroyFrom : ℕ → (ℕ → Option (Node T)) → List ℕ → Option ℕ →
    Option (List Release × (ℕ → Option (Node T)) × List ℕ)
  | _, cells, allocated, none => some ([], cells, allocated)
  | 0, _, _, some _ => none
  | fuel + 1, cells, allocated, some current =>
      (cells current).bind fun node =>
        if current ∈ allocated then
          (destroyFrom fuel (Function.update cells current none) (allocated.erase current)
            node.next).map
              fun rest => (.destroyed current :: .deallocated current :: rest.1, rest.2)
        else none

/-- `~MyList` -/
def destroy (h : Heap T) (fuel : ℕ) : Option (List Release × (ℕ → Option (Node T)) × List ℕ) :=
  destroyFrom fuel h.cells h.allocated h.head

end Heap

open Heap

/-- The list under any sequence of calls. -/
def pushes (T : Type u) : Machine (Heap T) (Attempt T) (Effect T) where
  init h := h = empty
  step := pushBack

/-- The value that a call has put into the list. -/
def Effect.values : Effect T → List T
  | .pushed val => [val]
  | _ => []

/-- The nodes of a list.  The chain alone would not determine what a new node changes:
`push_back` reaches the last node through `tail`, and that writing to it leaves the others
alone rests on `nodup`.  The last two clauses are about the allocator, which must not hand out
an address that is in use. -/
structure Holds (h : Heap T) (nodes : List (ℕ × T)) : Prop where
  chain : Chain h.cells none h.head nodes
  tail : h.tail = nodes.getLast?.map Prod.fst
  size : h.size.toNat = nodes.length
  nodup : (nodes.map Prod.fst).Nodup
  allocated : ∀ x ∈ nodes, x.1 ∈ h.allocated
  bounded : ∀ a ∈ h.allocated, a < addresses

theorem holds_empty : Holds (empty : Heap T) [] :=
  ⟨.nil, rfl, rfl, List.nodup_nil, fun _ hx => absurd hx List.not_mem_nil,
    fun _ ha => absurd ha List.not_mem_nil⟩

section Step

variable {h : Heap T} {nodes : List (ℕ × T)} {newNode : ℕ}

/-- A free cell is not among the nodes of the list, so writing it cannot cut the chain. -/
theorem Holds.notMem (hh : Holds h nodes) (hfree : h.Free newNode) :
    newNode ∉ nodes.map Prod.fst := by
  intro hmem
  obtain ⟨x, hx, heq⟩ := List.mem_map.mp hmem
  exact hfree.2 (heq ▸ hh.allocated x hx)

/-- Memory that is lost does not change the list. -/
theorem Holds.allocate (hh : Holds h nodes) (hfree : h.Free newNode) :
    Holds (h.allocate newNode) nodes := by
  refine ⟨hh.chain, hh.tail, hh.size, hh.nodup, ?_, ?_⟩
  · intro x hx
    exact List.mem_cons_of_mem _ (hh.allocated x hx)
  · intro a ha
    rcases List.mem_cons.mp ha with rfl | ha
    · exact hfree.1
    · exact hh.bounded a ha

/-- What a new node means for the addresses and the size, which does not wrap around. -/
theorem Holds.grow (hh : Holds h nodes) (hfree : h.Free newNode) (val : T) :
    ((nodes ++ [(newNode, val)]).map Prod.fst).Nodup ∧
      (∀ x ∈ nodes ++ [(newNode, val)], x.1 ∈ newNode :: h.allocated) ∧
      (h.size + 1).toNat = (nodes ++ [(newNode, val)]).length := by
  have hnodup : ((nodes ++ [(newNode, val)]).map Prod.fst).Nodup := by
    rw [List.map_append, List.map_singleton, ← List.concat_eq_append]
    exact hh.nodup.concat (hh.notMem hfree)
  have hallocated : ∀ x ∈ nodes ++ [(newNode, val)], x.1 ∈ newNode :: h.allocated := by
    intro x hx
    rcases List.mem_append.mp hx with hold | hnew
    · exact List.mem_cons_of_mem _ (hh.allocated x hold)
    · rw [List.mem_singleton.mp hnew]
      exact List.mem_cons_self
  have hlength : (nodes ++ [(newNode, val)]).length ≤ addresses :=
    Chain.length_le hnodup fun x hx => (hh.allocate hfree).bounded x.1 (hallocated x hx)
  refine ⟨hnodup, hallocated, ?_⟩
  rw [List.length_append, List.length_singleton] at hlength ⊢
  rw [UInt64.toNat_add, hh.size]
  exact Nat.mod_eq_of_lt (Nat.lt_of_le_of_lt hlength (by decide))

/-- **A call that does not fail** puts its value behind the others.  The node is written before
it is linked, so that no chain ever leads to a node without a value. -/
theorem Holds.push (hh : Holds h nodes) (hfree : h.Free newNode) (val : T) :
    ∃ h', ((h.allocate newNode).construct newNode val).link newNode = some h' ∧
      Holds h' (nodes ++ [(newNode, val)]) := by
  obtain ⟨hnodup, hallocated, hsize⟩ := hh.grow hfree val
  have hbounded := (hh.allocate hfree).bounded
  have hfresh := hh.notMem hfree
  obtain ⟨cells, allocated, head, tail, size⟩ := h
  cases head with
  | none =>
      -- the first node is head and tail
      obtain rfl := hh.chain.eq_nil
      refine ⟨_, rfl, ?_, rfl, hsize, hnodup, hallocated, hbounded⟩
      exact .cons (Function.update_self ..) .nil
  | some b =>
      obtain ⟨front, a, v, rfl, hcell⟩ := hh.chain.exists_last
      obtain rfl : tail = some a := by simpa using hh.tail
      have hne : a ≠ newNode := by
        rintro rfl
        exact hfresh (by simp)
      -- the old tail is the node before the new one
      have htail : Function.update cells newNode (some ⟨none, val⟩) a = some ⟨none, v⟩ := by
        rw [Function.update_of_ne hne]
        exact hcell
      refine ⟨⟨Function.update (Function.update cells newNode (some ⟨none, val⟩)) a
          (some ⟨some newNode, v⟩), newNode :: allocated, some b, some newNode, size + 1⟩, ?_,
        hh.chain.link hh.nodup hfresh, by simp, hsize, hnodup, hallocated, hbounded⟩
      simp only [link, setNext, Heap.allocate, construct, Option.bind_some, htail,
        Option.map_some]

/-- **One call.**  It appends its value, or throws and leaves the list as it was; there is
always a node to write to. -/
theorem Holds.pushBack (hh : Holds h nodes) {attempt : Attempt T} {effect : Effect T}
    {h' : Heap T} (hstep : h.pushBack attempt = some (effect, h')) :
    (∃ newNode val, effect = .pushed val ∧ Holds h' (nodes ++ [(newNode, val)])) ∨
      effect = .thrown ∧ Holds h' nodes ∧ h'.cells = h.cells ∧ h'.head = h.head ∧
        h'.tail = h.tail ∧ h'.size = h.size := by
  cases attempt with
  | allocationThrows val =>
      cases hstep
      exact .inr ⟨rfl, hh, rfl, rfl, rfl, rfl⟩
  | constructionThrows newNode val =>
      rw [Heap.pushBack] at hstep
      split_ifs at hstep with hfree
      cases hstep
      exact .inr ⟨rfl, hh.allocate hfree, rfl, rfl, rfl, rfl⟩
  | succeeds newNode val =>
      rw [Heap.pushBack] at hstep
      split_ifs at hstep with hfree
      obtain ⟨h₁, hlink, hholds⟩ := hh.push hfree val
      rw [hlink] at hstep
      cases hstep
      exact .inl ⟨newNode, val, rfl, hholds⟩

end Step

/-! ### The loops over the nodes

Both loops follow pointers, so neither says by itself that it ends.  They are given
fuel, and the chain of `Holds` tells how much is enough: one step for each node. -/

/-- An iterator that starts at the head of a chain meets the values of its nodes in order,
given steps enough for all of them. -/
theorem iterateFrom_eq {cells : ℕ → Option (Node T)} {p : Option ℕ} {nodes : List (ℕ × T)}
    (h : Chain cells none p nodes) {fuel : ℕ} (hfuel : nodes.length ≤ fuel) :
    iterateFrom cells fuel p = some (nodes.map Prod.snd) := by
  induction h generalizing fuel with
  | nil => cases fuel <;> rfl
  | cons hcell _ ih =>
      cases fuel with
      | zero => cases hfuel
      | succ fuel =>
          rw [iterateFrom, hcell, Option.bind_some, ih (Nat.le_of_succ_le_succ hfuel)]
          rfl

/-- What the destructor does with the nodes of a chain. -/
def releases (nodes : List (ℕ × T)) : List Release :=
  nodes.flatMap fun x => [.destroyed x.1, .deallocated x.1]

/-- Nothing is done twice. -/
theorem nodup_releases {nodes : List (ℕ × T)} (hnodup : (nodes.map Prod.fst).Nodup) :
    (releases nodes).Nodup := by
  induction nodes with
  | nil => exact List.nodup_nil
  | cons node nodes ih =>
      rw [List.map_cons, List.nodup_cons] at hnodup
      have hnew {r : Release} (hr : r ∈ releases nodes) :
          r ≠ .destroyed node.1 ∧ r ≠ .deallocated node.1 := by
        obtain ⟨x, hx, hmem⟩ := List.mem_flatMap.mp hr
        have hne : x.1 ≠ node.1 := fun heq => hnodup.1 (heq ▸ List.mem_map_of_mem hx)
        simp only [List.mem_cons, List.not_mem_nil, or_false] at hmem
        rcases hmem with rfl | rfl
        · exact ⟨fun h => hne (Release.destroyed.inj h), Release.noConfusion⟩
        · exact ⟨Release.noConfusion, fun h => hne (Release.deallocated.inj h)⟩
      show (Release.destroyed node.1 :: Release.deallocated node.1 :: releases nodes).Nodup
      rw [List.nodup_cons, List.nodup_cons, List.mem_cons, not_or]
      exact ⟨⟨Release.noConfusion, fun hr => (hnew hr).1 rfl⟩, fun hr => (hnew hr).2 rfl,
        ih hnodup.2⟩

/-- The destructor goes through the nodes of a chain and touches nothing else.  By induction on
the chain; that the next pointer is read before its node is freed is why no freed memory is
looked at. -/
theorem destroyFrom_eq {cells : ℕ → Option (Node T)} {allocated : List ℕ} {p : Option ℕ}
    {nodes : List (ℕ × T)} (h : Chain cells none p nodes) (hnodup : (nodes.map Prod.fst).Nodup)
    (hallocated : ∀ x ∈ nodes, x.1 ∈ allocated) {fuel : ℕ} (hfuel : nodes.length ≤ fuel) :
    ∃ cells', destroyFrom fuel cells allocated p =
        some (releases nodes, cells', allocated.diff (nodes.map Prod.fst)) ∧
      (∀ a ∈ nodes.map Prod.fst, cells' a = none) ∧
      ∀ a ∉ nodes.map Prod.fst, cells' a = cells a := by
  induction nodes generalizing cells allocated p fuel with
  | nil =>
      cases h
      refine ⟨cells, ?_, fun a ha => absurd ha List.not_mem_nil, fun a _ => rfl⟩
      cases fuel <;> rfl
  | cons node nodes ih =>
      cases h with
      | @cons a next v _ hcell hrest =>
          cases fuel with
          | zero => cases hfuel
          | succ fuel =>
              rw [List.map_cons, List.nodup_cons] at hnodup
              rw [List.forall_mem_cons] at hallocated
              have hne : ∀ x ∈ nodes, x.1 ≠ a := by
                intro x hx heq
                exact hnodup.1 (List.mem_map.mpr ⟨x, hx, heq⟩)
              have hframe : Chain (Function.update cells a none) none next nodes :=
                hrest.frame fun x hx => Function.update_of_ne (hne x hx) _ _
              have hkept : ∀ x ∈ nodes, x.1 ∈ allocated.erase a := by
                intro x hx
                exact (List.mem_erase_of_ne (hne x hx)).mpr (hallocated.2 x hx)
              obtain ⟨cells', hloop, hgone, hsame⟩ :=
                ih hframe hnodup.2 hkept (Nat.le_of_succ_le_succ hfuel)
              refine ⟨cells', ?_, ?_, ?_⟩
              · rw [destroyFrom, hcell, Option.bind_some, if_pos hallocated.1, hloop,
                  Option.map_some, List.map_cons, List.diff_cons]
                rfl
              · intro b hb
                rcases List.mem_cons.mp hb with rfl | hb
                · rw [hsame _ hnodup.1, Function.update_self]
                · exact hgone b hb
              · intro b hb
                rw [List.map_cons, List.mem_cons, not_or] at hb
                rw [hsame b hb.2, Function.update_of_ne hb.1]

/-! ### Runs

One call keeps `Holds` and appends at most one value; over a run the nodes therefore
hold the values of the calls that did not throw, in the order of the calls. -/

/-- What a run leads to: the nodes with the values that were pushed. -/
theorem holds_of_execution {trace : List (Attempt T × Effect T)} {h : Heap T}
    (hexec : (pushes T).Execution trace h) :
    ∃ nodes, Holds h nodes ∧ nodes.map Prod.snd = Machine.history Effect.values trace := by
  refine hexec.induct (I := fun trace h =>
    ∃ nodes, Holds h nodes ∧ nodes.map Prod.snd = Machine.history Effect.values trace) ?_ ?_
  · rintro h rfl
    exact ⟨[], holds_empty, rfl⟩
  · rintro trace h attempt effect h' - ⟨nodes, hholds, hvalues⟩ hstep
    rw [Machine.history_append, Machine.history_singleton, ← hvalues]
    rcases hholds.pushBack hstep with ⟨newNode, val, rfl, hholds'⟩ | ⟨rfl, hholds', -⟩
    · exact ⟨_, hholds', List.map_append⟩
    · exact ⟨nodes, hholds', (List.append_nil _).symm⟩

/-- **The list after any calls.**  Its nodes hold the values that were pushed; a call that
throws leaves it alone; going through it gives these values; and the destructor destroys
and deallocates every node once. -/
theorem pushes_hold {trace : List (Attempt T × Effect T)} {h : Heap T}
    (hexec : (pushes T).Execution trace h) :
    ∃ nodes, Holds h nodes ∧ nodes.map Prod.snd = Machine.history Effect.values trace ∧
      (∀ attempt effect h', h.pushBack attempt = some (effect, h') →
        (∃ newNode val, effect = .pushed val ∧ Holds h' (nodes ++ [(newNode, val)])) ∨
          effect = .thrown ∧ Holds h' nodes ∧ h'.cells = h.cells ∧ h'.head = h.head ∧
            h'.tail = h.tail ∧ h'.size = h.size) ∧
      ∀ fuel, h.size.toNat ≤ fuel →
        h.iterate fuel = some (Machine.history Effect.values trace) ∧
        ∃ cells', h.destroy fuel =
            some (releases nodes, cells', h.allocated.diff (nodes.map Prod.fst)) ∧
          (releases nodes).Nodup := by
  obtain ⟨nodes, hholds, hvalues⟩ := holds_of_execution hexec
  refine ⟨nodes, hholds, hvalues, fun attempt effect h' => hholds.pushBack, ?_⟩
  intro fuel hfuel
  rw [hholds.size] at hfuel
  obtain ⟨cells', hdestroy, -⟩ :=
    destroyFrom_eq hholds.chain hholds.nodup hholds.allocated hfuel
  refine ⟨?_, cells', hdestroy, nodup_releases hholds.nodup⟩
  rw [← hvalues]
  exact iterateFrom_eq hholds.chain hfuel

/-! ### The list with its allocator

The list of `MyList` hands out addresses in order and never reuses one.  It is an
instance of the list above: its allocator is one of the choices that a call of
`push_back` leaves open. -/

/-- The list of `MyList` in memory that is handed out in order. -/
def MyList.toHeap (l : MyList T) : Heap T :=
  ⟨l.cells, (List.range l.top).reverse, l.head, l.tail, l.size⟩

/-- The call that an allocator with a limit makes possible. -/
def attemptOf (limit : UInt64) (l : MyList T) (val : T) : Attempt T :=
  if limit = 0 then .allocationThrows val else .succeeds l.top val

/-- **`push_back` with the allocator of its own** is the call that the allocator makes
possible, as long as there is memory. -/
theorem pushBack_refines {limit : UInt64} {l : MyList T} {nodes : List (ℕ × T)}
    (hrep : Represents l nodes) (htop : l.top < addresses) (val : T) :
    ∃ effect, l.toHeap.pushBack (attemptOf limit l val) =
      some (effect, (l.pushBack limit val).2.toHeap) ∧
        (effect = .thrown ↔ (l.pushBack limit val).1 = .error .badAlloc) := by
  by_cases hlimit : limit = 0
  · subst hlimit
    rw [attemptOf, if_pos rfl, pushBack_of_zero]
    exact ⟨.thrown, rfl, iff_of_true rfl rfl⟩
  · have hfree : l.toHeap.Free l.top :=
      ⟨htop, fun hmem => Nat.lt_irrefl _ (List.mem_range.mp (List.mem_reverse.mp hmem))⟩
    have hrange : (List.range (l.top + 1)).reverse = l.top :: (List.range l.top).reverse := by
      rw [List.range_succ, List.reverse_append]
      rfl
    have htail : ∀ b, l.head = some b → ∃ a v, l.tail = some a ∧
        l.cells a = some ⟨none, v⟩ ∧ a ≠ l.top := by
      intro b hb
      have hchain := hrep.chain
      rw [hb] at hchain
      obtain ⟨front, a, v, rfl, hcell⟩ := hchain.exists_last
      refine ⟨a, v, by simpa using hrep.tail, hcell, ?_⟩
      exact (hrep.lt_top (a, v) (by simp)).ne
    refine ⟨.pushed val, ?_, iff_of_false (fun h => by cases h) ?_⟩
    · rw [attemptOf, if_neg hlimit, Heap.pushBack, if_pos hfree]
      obtain ⟨cells, top, head, tail, size⟩ := l
      cases head with
      | none =>
          simp only [link, MyList.toHeap, Heap.allocate, construct, MyList.pushBack,
            allocate_create, if_neg hlimit, MyList.newNode, hrange]
      | some b =>
          obtain ⟨a, v, rfl, hcell, hne⟩ := htail b rfl
          have hset : Function.update cells top (some ⟨none, val⟩) a = some ⟨none, v⟩ := by
            rw [Function.update_of_ne hne]
            exact hcell
          simp only [link, MyList.toHeap, Heap.allocate, construct, MyList.pushBack,
            allocate_create, if_neg hlimit, MyList.newNode, hrange, setNext, MyList.setNext, hset,
            Option.bind_some, Option.map_some]
    · rw [(pushBack_represents hlimit hrep val).1]
      intro h
      cases h

/-- Four calls, of which two throw. -/
def fourAttempts : List (Attempt ℕ) :=
  [.succeeds 3 10, .allocationThrows 20, .constructionThrows 5 30, .succeeds 1 40]

/-- Two of four attempts fail, one in the allocation and one in the construction, and the
values of the other two are in the list. -/
theorem pushes_hold_fourAttempts :
    ∃ nodes, Holds ((pushes ℕ).play empty fourAttempts (by decide)).2 nodes ∧
      nodes.map Prod.snd = [10, 40] := by
  have hplays : ((pushes ℕ).exec empty fourAttempts).isSome = true := by decide
  obtain ⟨nodes, hholds, hvalues, -⟩ := pushes_hold (Machine.execution_play rfl hplays)
  exact ⟨nodes, hholds, hvalues⟩

end Allocator
