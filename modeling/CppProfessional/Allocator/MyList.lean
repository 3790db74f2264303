import CppProfessional.Containers.Chain
import Mathlib.Data.UInt

/-!
# The list and its allocator

`MyAllocator<T, size>` counts the elements that it has handed out and refuses to go
over its limit.  `MyList` asks an allocator for every node, but each call of
`push_back` makes an allocator of its own, and so does the destructor, so no counter
ever sees more than one element.

* `pushBack_represents` — below a limit that is not zero, every call appends its value;
* `destroy_represents` — the destructor frees all nodes, and counts down from zero;
* `LimitHolds` — the promise of an element limit;
* `limit_holds_iff` — the promise is kept only where no node is ever made.

The memory hands out addresses one after the other, and `malloc` does not fail.
-/

namespace Allocator

open Containers

/-- The exception that the allocator throws. -/
inductive Exception
  | badAlloc
  deriving DecidableEq, Repr

/-- `MyAllocator<T, size>`. -/
structure MyAllocator where
  memoryAlloc : UInt64
  deriving DecidableEq, Repr

/-- `MyAllocator()` -/
def MyAllocator.create : MyAllocator := ⟨0⟩

/-- The counter of `allocate`. -/
def MyAllocator.allocate (size : UInt64) (alloc : MyAllocator) (n : UInt64) :
    Except Exception MyAllocator :=
  if size < alloc.memoryAlloc + n then .error .badAlloc
  else .ok ⟨alloc.memoryAlloc + n⟩

/-- The counter of `deallocate`. -/
def MyAllocator.deallocate (alloc : MyAllocator) (n : UInt64) : MyAllocator :=
  ⟨alloc.memoryAlloc - n⟩

variable {T : Type*}

/-- `MyList<T, Alloc>` and the memory of its nodes, in which all addresses from `top`
on are free. -/
structure MyList (T : Type*) where
  cells : ℕ → Option (Node T)
  top : ℕ
  head : Option ℕ
  tail : Option ℕ
  size : UInt64

namespace MyList

/-- `MyList()` -/
def empty : MyList T := ⟨fun _ => none, 0, none, none, 0⟩

/-- `new (newNode) Node(val)` in memory from `malloc`. -/
def newNode (l : MyList T) (val : T) : ℕ × MyList T :=
  (l.top, { l with cells := Function.update l.cells l.top (some ⟨none, val⟩), top := l.top + 1 })

/-- `setNext` through a pointer to a node. -/
def setNext (l : MyList T) (node : Option ℕ) (next : ℕ) : MyList T :=
  match node with
  | none => l
  | some a =>
      { l with cells := Function.update l.cells a ((l.cells a).map ({ · with next := some next })) }

/-- `push_back` -/
def pushBack (limit : UInt64) (l : MyList T) (val : T) : Except Exception Unit × MyList T :=
  match MyAllocator.create.allocate limit 1 with
  | .error e => (.error e, l)
  | .ok _ =>
      let (newNode, l) := l.newNode val
      let l :=
        match l.head with
        | none => { l with head := some newNode, tail := some newNode }
        | some _ => { l.setNext l.tail newNode with tail := some newNode }
      (.ok (), { l with size := l.size + 1 })

/-- The values from `begin()` to `end()`; no chain has more nodes than were made. -/
def values (l : MyList T) : List T := walk l.cells l.top l.head

/-- The loop of the destructor: the values of the counter before each `deallocate`, the
allocator and the memory afterwards, unless the fuel runs out or a pointer leads to
freed memory. -/
def destroyFrom : ℕ → MyAllocator → (ℕ → Option (Node T)) → Option ℕ →
    Option (List UInt64 × MyAllocator × (ℕ → Option (Node T)))
  | _, alloc, cells, none => some ([], alloc, cells)
  | 0, _, _, some _ => none
  | fuel + 1, alloc, cells, some current =>
      match cells current with
      | none => none
      | some node =>
          (destroyFrom fuel (alloc.deallocate 1) (Function.update cells current none)
              node.next).map
            fun (counters, alloc', cells') => (alloc.memoryAlloc :: counters, alloc', cells')

/-- `~MyList` -/
def destroy (l : MyList T) : Option (List UInt64 × MyAllocator × (ℕ → Option (Node T))) :=
  destroyFrom l.top .create l.cells l.head

/-- The list after a sequence of calls of `push_back`, whose exceptions are caught. -/
def pushAll (limit : UInt64) (vals : List T) : MyList T :=
  vals.foldl (fun l val => (l.pushBack limit val).2) empty

/-- The last value of a sequence is pushed last; this is the form in which the induction on the
sequence needs it. -/
theorem pushAll_concat (limit : UInt64) (vals : List T) (val : T) :
    pushAll limit (vals ++ [val]) = ((pushAll limit vals).pushBack limit val).2 := by
  simp only [pushAll, List.foldl_append, List.foldl_cons, List.foldl_nil]

end MyList

/-! ### What the list holds

A client sees a list through its iterators, and these follow the chain of `next`
pointers.  `Represents` is the chain together with what keeps an insertion from
disturbing it. -/

/-- A list whose nodes hold the given values.  `tail` and `nodup` are what an insertion at the
end needs: it writes through the pointer to the last node, and no other node may lie there.
`lt_top` keeps new addresses apart from old ones. -/
structure Represents (l : MyList T) (nodes : List (ℕ × T)) : Prop where
  chain : Chain l.cells none l.head nodes
  tail : l.tail = nodes.getLast?.map Prod.fst
  size : l.size = UInt64.ofNat nodes.length
  nodup : (nodes.map Prod.fst).Nodup
  lt_top : ∀ x ∈ nodes, x.1 < l.top

theorem represents_empty : Represents (MyList.empty : MyList T) [] :=
  ⟨.nil, rfl, rfl, List.nodup_nil, fun _ hx => absurd hx List.not_mem_nil⟩

/-- What a client reads off a list is what its nodes hold, in their order. -/
theorem Represents.values {l : MyList T} {nodes : List (ℕ × T)} (h : Represents l nodes) :
    l.values = nodes.map Prod.snd :=
  walk_eq h.chain (Chain.length_le h.nodup h.lt_top)

/-- The counter of a new allocator does not reach a limit that is not zero. -/
theorem allocate_create {limit : UInt64} :
    MyAllocator.create.allocate limit 1 = if limit = 0 then .error .badAlloc else .ok ⟨1⟩ := by
  have hlt : limit < 0 + 1 ↔ limit = 0 := by
    rw [UInt64.lt_iff_toNat_lt, ← UInt64.toNat_inj]
    show limit.toNat < 1 ↔ limit.toNat = 0
    exact Nat.lt_one_iff
  simp only [MyAllocator.allocate, MyAllocator.create, hlt]
  rfl

section PushBack

variable {limit : UInt64} {l : MyList T} {nodes : List (ℕ × T)}

/-- A limit of zero refuses every element, since the allocator is asked for one and may give
none. -/
theorem pushBack_of_zero (l : MyList T) (val : T) :
    l.pushBack 0 val = (.error .badAlloc, l) := by
  simp only [MyList.pushBack, allocate_create, if_true]

/-- The address that `malloc` returns is new. -/
theorem Represents.top_fresh (h : Represents l nodes) : l.top ∉ nodes.map Prod.fst := by
  intro hmem
  obtain ⟨x, hx, heq⟩ := List.mem_map.mp hmem
  exact absurd (h.lt_top x hx) (heq ▸ Nat.lt_irrefl _)

/-- What the new node means for the addresses and the size. -/
theorem Represents.grow (h : Represents l nodes) (val : T) :
    l.size + 1 = UInt64.ofNat (nodes ++ [(l.top, val)]).length ∧
      ((nodes ++ [(l.top, val)]).map Prod.fst).Nodup ∧
      ∀ x ∈ nodes ++ [(l.top, val)], x.1 < l.top + 1 := by
  refine ⟨?_, ?_, ?_⟩
  · rw [h.size, List.length_append, List.length_singleton, UInt64.ofNat_add]
    rfl
  · rw [List.map_append, List.map_singleton, ← List.concat_eq_append]
    exact h.nodup.concat h.top_fresh
  · intro x hx
    rcases List.mem_append.mp hx with hold | hnew
    · exact Nat.lt_succ_of_lt (h.lt_top x hold)
    · rw [List.mem_singleton.mp hnew]
      exact Nat.lt_succ_self _

/-- **Every call appends its value**, whatever the limit, unless it is zero.  The allocator
that is asked is a new one each time, so a limit of one element is never reached. -/
theorem pushBack_represents (hlimit : limit ≠ 0) (h : Represents l nodes) (val : T) :
    (l.pushBack limit val).1 = .ok () ∧
      Represents (l.pushBack limit val).2 (nodes ++ [(l.top, val)]) := by
  obtain ⟨hsize, hnodup, hlt⟩ := h.grow val
  obtain ⟨cells, top, head, tail, size⟩ := l
  simp only [MyList.pushBack, allocate_create, if_neg hlimit, MyList.newNode]
  cases head with
  | none =>
      -- the first node is head and tail
      obtain rfl := h.chain.eq_nil
      exact ⟨trivial, .cons (Function.update_self ..) .nil, rfl, hsize, hnodup, hlt⟩
  | some b =>
      obtain ⟨front, a, v, rfl, hcell⟩ := h.chain.exists_last
      obtain rfl : tail = some a := by simpa using h.tail
      have hne : a ≠ top := (h.lt_top (a, v) (by simp)).ne
      -- the old tail is the node before the new one
      have hset : (Function.update cells top (some ⟨none, val⟩) a).map
          ({ · with next := some top }) = some (⟨some top, v⟩ : Node T) := by
        rw [Function.update_of_ne hne, show cells a = some ⟨none, v⟩ from hcell]
        rfl
      simp only [MyList.setNext, hset]
      exact ⟨trivial, h.chain.link h.nodup h.top_fresh, by simp, hsize, hnodup, hlt⟩

/-- The values held after a run are all those that were pushed. -/
theorem pushAll_represents (hlimit : limit ≠ 0) (vals : List T) :
    ∃ nodes, Represents (MyList.pushAll limit vals) nodes ∧ nodes.map Prod.snd = vals := by
  induction vals using List.reverseRecOn with
  | nil => exact ⟨[], represents_empty, rfl⟩
  | append_singleton vals val ih =>
      obtain ⟨nodes, hnodes, rfl⟩ := ih
      rw [MyList.pushAll_concat]
      refine ⟨_, (pushBack_represents hlimit hnodes val).2, ?_⟩
      rw [List.map_append]
      rfl

/-- With a limit of zero nothing is ever held. -/
theorem pushAll_zero (vals : List T) : MyList.pushAll 0 vals = MyList.empty := by
  induction vals using List.reverseRecOn with
  | nil => rfl
  | append_singleton vals val ih => rw [MyList.pushAll_concat, ih, pushBack_of_zero]

end PushBack

/-! ### The destructor

The loop is the same whatever the counters are; what they are is looked at separately,
since the destructor subtracts one from the counter of an allocator that has not handed
out anything. -/

/-- The loop frees the nodes of a chain and nothing else, counting down once for each.  Enough
fuel is as much as there are nodes. -/
theorem destroyFrom_chain {cells : ℕ → Option (Node T)} {p : Option ℕ} {nodes : List (ℕ × T)}
    (h : Chain cells none p nodes) (hnodup : (nodes.map Prod.fst).Nodup) {fuel : ℕ}
    (hfuel : nodes.length ≤ fuel) (alloc : MyAllocator) :
    ∃ counters cells', MyList.destroyFrom fuel alloc cells p =
        some (counters, ⟨alloc.memoryAlloc - UInt64.ofNat nodes.length⟩, cells') ∧
      counters.length = nodes.length ∧ (∀ a ∈ nodes.map Prod.fst, cells' a = none) ∧
      ∀ a ∉ nodes.map Prod.fst, cells' a = cells a := by
  induction nodes generalizing cells p fuel alloc with
  | nil =>
      cases h
      refine ⟨[], cells, ?_, rfl, fun a ha => absurd ha List.not_mem_nil, fun a _ => rfl⟩
      have hzero : alloc.memoryAlloc - UInt64.ofNat ([] : List (ℕ × T)).length =
          alloc.memoryAlloc := UInt64.sub_zero _
      rw [hzero]
      cases fuel <;> rfl
  | cons node nodes ih =>
      cases h with
      | @cons a next v _ hcell hrest =>
          cases fuel with
          | zero => cases hfuel
          | succ fuel =>
              rw [List.map_cons, List.nodup_cons] at hnodup
              have hframe : Chain (Function.update cells a none) none next nodes := by
                refine hrest.frame fun x hx => Function.update_of_ne ?_ _ _
                intro heq
                exact hnodup.1 (List.mem_map.mpr ⟨x, hx, heq⟩)
              obtain ⟨counters, cells', hloop, hlength, hfreed, hkept⟩ :=
                ih hframe hnodup.2 (Nat.le_of_succ_le_succ hfuel) (alloc.deallocate 1)
              have hcount : (alloc.deallocate 1).memoryAlloc - UInt64.ofNat nodes.length =
                  alloc.memoryAlloc - UInt64.ofNat ((a, v) :: nodes).length := by
                rw [List.length_cons, Nat.add_comm, UInt64.ofNat_add]
                exact sub_sub _ _ _
              refine ⟨alloc.memoryAlloc :: counters, cells', ?_, by simp [hlength], ?_, ?_⟩
              · rw [MyList.destroyFrom, hcell]
                simp only [hloop, hcount, Option.map_some]
              · intro b hb
                rcases List.mem_cons.mp hb with rfl | hrest
                · rw [hkept _ hnodup.1, Function.update_self]
                · exact hfreed b hrest
              · intro b hb
                rw [List.map_cons, List.mem_cons, not_or] at hb
                rw [hkept b hb.2, Function.update_of_ne hb.1]

/-- **The destructor** frees every node, whatever became of the counter. -/
theorem destroy_represents {l : MyList T} {nodes : List (ℕ × T)} (h : Represents l nodes) :
    ∃ counters cells', l.destroy =
        some (counters, ⟨0 - UInt64.ofNat nodes.length⟩, cells') ∧
      counters.length = nodes.length ∧ (∀ a ∈ nodes.map Prod.fst, cells' a = none) ∧
      ∀ a ∉ nodes.map Prod.fst, cells' a = l.cells a :=
  destroyFrom_chain h.chain h.nodup (Chain.length_le h.nodup h.lt_top) .create

/-- The first node is given back to an allocator that has handed out nothing. -/
theorem zero_mem_counters {l : MyList T} {nodes : List (ℕ × T)} (h : Represents l nodes)
    (hne : nodes ≠ []) {counters : List UInt64} {alloc : MyAllocator}
    {cells' : ℕ → Option (Node T)} (hdestroy : l.destroy = some (counters, alloc, cells')) :
    0 ∈ counters := by
  obtain ⟨cells, top, head, tail, size⟩ := l
  cases h.chain with
  | nil => exact absurd rfl hne
  | @cons a next v nodes hcell _ =>
      rw [MyList.destroy] at hdestroy
      cases top with
      | zero => cases hdestroy
      | succ top =>
          simp only [MyList.destroyFrom, show cells a = some ⟨next, v⟩ from hcell,
            Option.map_eq_some_iff] at hdestroy
          obtain ⟨rest, -, heq⟩ := hdestroy
          rw [← (Prod.mk.inj heq).1]
          exact List.mem_cons_self ..

/-! ### The limit -/

/-- The promise of an element limit, for a sequence of calls: the first calls succeed, as
many as the limit, each later one throws and changes neither the values nor the size, so
that no more elements than the limit are held; and the destructor never counts below
zero. -/
structure LimitHolds (limit : UInt64) (vals : List T) : Prop where
  held : ∀ front, front <+: vals → (MyList.pushAll limit front).values.length ≤ limit.toNat
  succeeds : ∀ front val, front ++ [val] <+: vals → front.length < limit.toNat →
    ((MyList.pushAll limit front).pushBack limit val).1 = .ok ()
  throws : ∀ front val, front ++ [val] <+: vals → limit.toNat ≤ front.length →
    ((MyList.pushAll limit front).pushBack limit val).1 = .error .badAlloc ∧
      ((MyList.pushAll limit front).pushBack limit val).2.values =
        (MyList.pushAll limit front).values ∧
      ((MyList.pushAll limit front).pushBack limit val).2.size =
        (MyList.pushAll limit front).size
  counts : ∃ counters alloc cells,
    (MyList.pushAll limit vals).destroy = some (counters, alloc, cells) ∧
      ∀ counter ∈ counters, 1 ≤ counter

/-- A limit holds if the list never takes anything and every refusal is due to a limit of
zero. -/
theorem limitHolds_of_empty {limit : UInt64} {vals : List T}
    (h : ∀ front, front <+: vals → MyList.pushAll limit front = MyList.empty)
    (hthrows : ∀ front val, front ++ [val] <+: vals → limit = 0) : LimitHolds limit vals := by
  refine ⟨?_, ?_, ?_, ⟨[], .create, fun _ => none, ?_, by simp⟩⟩
  · intro front hfront
    rw [h front hfront]
    exact Nat.zero_le _
  · intro front val hfront hlt
    obtain rfl := hthrows front val hfront
    exact absurd hlt (Nat.not_lt_zero _)
  · intro front val hfront _
    obtain rfl := hthrows front val hfront
    rw [pushBack_of_zero]
    exact ⟨rfl, rfl, rfl⟩
  · rw [h vals (List.prefix_refl _)]
    rfl

/-- **The limit holds only where no node is ever made.**  With a single node the destructor
already counts below zero, because its allocator is a new one; and with more values than the
limit nothing refuses them. -/
theorem limit_holds_iff (limit : UInt64) (vals : List T) :
    LimitHolds limit vals ↔ limit = 0 ∨ vals = [] := by
  constructor
  · intro h
    by_contra hneither
    rw [not_or] at hneither
    obtain ⟨hlimit, hne⟩ := hneither
    obtain ⟨nodes, hnodes, hvals⟩ := pushAll_represents hlimit vals
    obtain ⟨counters, alloc, cells, hdestroy, hcounts⟩ := h.counts
    have hnodes' : nodes ≠ [] := by
      rintro rfl
      exact hne hvals.symm
    have hzero := hcounts 0 (zero_mem_counters hnodes hnodes' hdestroy)
    revert hzero
    decide
  · rintro (rfl | rfl)
    · exact limitHolds_of_empty (fun front _ => pushAll_zero front) fun _ _ _ => rfl
    · refine limitHolds_of_empty (fun front hfront => ?_) fun front val hfront => ?_
      · rw [List.prefix_nil.mp hfront]
        rfl
      · exact absurd (List.prefix_nil.mp hfront) (by simp)

/-- **Three elements and a limit of one.**  All calls succeed, and the destructor counts
down from zero. -/
theorem limit_exceeded :
    (MyList.pushAll 1 [10, 20, 30]).values = [10, 20, 30] ∧
      (MyList.pushAll 1 [10, 20, 30]).destroy.map (·.1) =
        some [0, 18446744073709551615, 18446744073709551614] ∧
      ¬LimitHolds 1 [10, 20, 30] := by
  refine ⟨by decide, by decide, fun h => ?_⟩
  have hheld := h.held [10, 20, 30] (List.prefix_refl _)
  revert hheld
  decide

end Allocator
