import CppProfessional.Allocator.MyList
import CppProfessional.Transition.Machine
import Mathlib.Algebra.BigOperators.Group.List.Basic

/-!
# The books of the allocator

One `MyAllocator` and a caller that gives back what it got.  `memory_alloc` is an unsigned
64-bit number, and so are the sum that `allocate` compares with the limit and the number
of bytes that it asks `malloc` for.

* `caller` — the calls as a machine, which remembers what is still to be given back;
* `Accounted` — the promise for one call, in natural numbers;
* `Fits` — the calls for which nothing wraps around;
* `accounted_iff_fits` — the promise is kept along exactly these runs.

Whether a sum wraps around depends on what has been allocated before, so the promise is about
runs.  `Fits` is a condition on each call in the state in which it is made, and a run of calls
that fit keeps the books balanced: the condition of the next call is again one about natural
numbers.
-/

namespace Allocator

open Transition

/-- The argument of `malloc` in `allocate`. -/
def MyAllocator.bytes (sizeofT n : UInt64) : UInt64 := sizeofT * n

/-- What `malloc` returns, a null pointer when there is no memory. -/
abbrev Pointer := Option ℕ

/-- The calls, `allocate` with what `malloc` returns. -/
inductive Call
  | allocate (n : UInt64) (ptr : Pointer)
  | deallocate (ptr : Pointer) (n : UInt64)
  deriving DecidableEq, Repr

/-- What a call does. -/
inductive Outcome
  | allocated (bytes : UInt64)
  | thrown (e : Exception)
  | freed
  deriving DecidableEq, Repr

/-- The allocator, and the allocations that its caller has not given back. -/
structure Books where
  alloc : MyAllocator
  held : List (Pointer × UInt64)
  deriving DecidableEq, Repr

namespace Books

/-- A new allocator. -/
def start : Books := ⟨.create, []⟩

/-- The number of elements allocated and not yet deallocated. -/
def elements (s : Books) : ℕ := (s.held.map fun x => x.2.toNat).sum

/-- One call; only what is held can be given back. -/
def call (size sizeofT : UInt64) (s : Books) : Call → Option (Outcome × Books)
  | .allocate n ptr =>
      match s.alloc.allocate size n with
      | .error e => some (.thrown e, s)
      | .ok alloc => some (.allocated (MyAllocator.bytes sizeofT n), ⟨alloc, (ptr, n) :: s.held⟩)
  | .deallocate ptr n =>
      if (ptr, n) ∈ s.held then
        some (.freed, ⟨s.alloc.deallocate n, s.held.erase (ptr, n)⟩)
      else none

/-- The counter is the number of elements, and the limit is kept.  The limit is needed for the
count: only because the elements fit into it do the sum of `allocate` and the difference of
`deallocate` not wrap. -/
structure Balanced (size : UInt64) (s : Books) : Prop where
  counter : s.alloc.memoryAlloc.toNat = s.elements
  limit : s.elements ≤ size.toNat

/-- Nothing is out at the start, so the counter is right whatever the type holds. -/
theorem balanced_start (size : UInt64) : Balanced size start := ⟨rfl, Nat.zero_le _⟩

end Books

open Books

/-- The caller and its allocator. -/
def caller (size sizeofT : UInt64) : Machine Books Call Outcome where
  init s := s = start
  step := call size sizeofT

/-- The promise: the books balance after the call, `allocate` throws exactly when the
elements would go over the limit, and it asks for as many bytes as the elements take. -/
structure Accounted (size sizeofT : UInt64) (s : Books) (e : Call) (o : Outcome) (s' : Books) :
    Prop where
  balanced : Balanced size s'
  throws : ∀ n ptr, e = .allocate n ptr →
    (o = .thrown .badAlloc ↔ size.toNat < s.elements + n.toNat)
  unchanged : o = .thrown .badAlloc → s' = s
  bytes : ∀ n ptr bytes, e = .allocate n ptr → o = .allocated bytes →
    bytes.toNat = sizeofT.toNat * n.toNat

/-- The sum of the elements stays below `2 ^ 64`, and where it is within the limit the bytes
do so, too. -/
def Fits (size sizeofT : UInt64) (s : Books) (e : Call) : Prop :=
  ∀ n ptr, e = .allocate n ptr → s.elements + n.toNat < 2 ^ 64 ∧
    (s.elements + n.toNat ≤ size.toNat → sizeofT.toNat * n.toNat < 2 ^ 64)

section Step

variable {size sizeofT : UInt64} {s : Books}

theorem lt_add_iff (hs : Balanced size s) (n : UInt64) :
    size < s.alloc.memoryAlloc + n ↔ size.toNat < (s.elements + n.toNat) % 2 ^ 64 := by
  rw [UInt64.lt_iff_toNat_lt, UInt64.toNat_add, hs.counter]

/-- Without a carry the comparison is the one that was meant; with a carry `allocate`
succeeds, whatever the limit. -/
theorem lt_add_iff_of_fits (hs : Balanced size s) (n : UInt64) :
    (size < s.alloc.memoryAlloc + n ↔ size.toNat < s.elements + n.toNat) ↔
      s.elements + n.toNat < 2 ^ 64 := by
  have hsize := size.toNat_lt
  have hn := n.toNat_lt
  have hlimit := hs.limit
  rw [lt_add_iff hs]
  omega

/-- The product of `allocate` is the number of bytes as long as it fits into 64 bits, and only
then; it is one of the two numbers that may wrap around. -/
theorem toNat_bytes (sizeofT n : UInt64) :
    (MyAllocator.bytes sizeofT n).toNat = sizeofT.toNat * n.toNat ↔
      sizeofT.toNat * n.toNat < 2 ^ 64 := by
  rw [MyAllocator.bytes, UInt64.toNat_mul, Nat.mod_eq_iff_lt (by decide)]

/-- A record more on the list stands for the elements it was asked for. -/
theorem elements_cons (alloc : MyAllocator) (ptr : Pointer) (n : UInt64)
    (held : List (Pointer × UInt64)) :
    (Books.mk alloc ((ptr, n) :: held)).elements = (Books.mk alloc held).elements + n.toNat := by
  show n.toNat + _ = _ + n.toNat
  rw [Nat.add_comm]
  rfl

/-- A record taken off the list gives its elements back, wherever it stood: the list is a bag,
since the client may deallocate in any order. -/
theorem elements_erase {ptr : Pointer} {n : UInt64} (h : (ptr, n) ∈ s.held)
    (alloc : MyAllocator) :
    s.elements = (Books.mk alloc (s.held.erase (ptr, n))).elements + n.toNat := by
  have hsum := ((List.perm_cons_erase h).map fun x => x.2.toNat).sum_eq
  rw [List.map_cons, List.sum_cons, Nat.add_comm] at hsum
  exact hsum

/-- What is given back was counted. -/
theorem balanced_deallocate (hs : Balanced size s) {ptr : Pointer} {n : UInt64}
    (h : (ptr, n) ∈ s.held) :
    Balanced size ⟨s.alloc.deallocate n, s.held.erase (ptr, n)⟩ := by
  have herase := elements_erase h (s.alloc.deallocate n)
  have hcounter := hs.counter
  have hlimit := hs.limit
  have hle : n ≤ s.alloc.memoryAlloc := by
    rw [UInt64.le_iff_toNat_le]
    omega
  refine ⟨?_, by omega⟩
  show (s.alloc.memoryAlloc - n).toNat = _
  rw [UInt64.toNat_sub_of_le _ _ hle]
  omega

/-- The exception is the right answer exactly when the sum does not wrap around. -/
theorem accounted_thrown (hs : Balanced size s) {n : UInt64} {ptr : Pointer}
    (hover : size < s.alloc.memoryAlloc + n) :
    Accounted size sizeofT s (.allocate n ptr) (.thrown .badAlloc) s ↔
      Fits size sizeofT s (.allocate n ptr) := by
  have hmeant := lt_add_iff_of_fits hs n
  constructor
  · intro h n' ptr' he
    cases he
    have hlt := (h.throws n ptr rfl).mp rfl
    exact ⟨hmeant.mp (iff_of_true hover hlt), fun hle => absurd hlt (Nat.not_lt.mpr hle)⟩
  · intro h
    have hlt := (hmeant.mpr (h n ptr rfl).1).mp hover
    refine ⟨hs, ?_, fun _ => rfl, ?_⟩
    · intro n' ptr' he
      cases he
      exact iff_of_true rfl hlt
    · intro n' ptr' bytes he ho
      cases ho

/-- Memory is the right answer exactly when neither number wraps around: the sum that was
compared with the limit, and the number of bytes that was asked for. -/
theorem accounted_allocated (hs : Balanced size s) {n : UInt64} {ptr : Pointer}
    (hwithin : ¬size < s.alloc.memoryAlloc + n) :
    Accounted size sizeofT s (.allocate n ptr) (.allocated (MyAllocator.bytes sizeofT n))
        ⟨⟨s.alloc.memoryAlloc + n⟩, (ptr, n) :: s.held⟩ ↔
      Fits size sizeofT s (.allocate n ptr) := by
  have hmeant := lt_add_iff_of_fits hs n
  constructor
  · intro h n' ptr' he
    cases he
    have hnlt : ¬size.toNat < s.elements + n.toNat := by
      intro hlt
      cases (h.throws n ptr rfl).mpr hlt
    refine ⟨hmeant.mp (iff_of_false hwithin hnlt), fun _ => ?_⟩
    exact (toNat_bytes sizeofT n).mp (h.bytes n ptr _ rfl rfl)
  · intro h
    obtain ⟨hsum, hbytes⟩ := h n ptr rfl
    have hnlt : ¬size.toNat < s.elements + n.toNat := fun hlt =>
      hwithin ((hmeant.mpr hsum).mpr hlt)
    refine ⟨⟨?_, ?_⟩, ?_, ?_, ?_⟩
    · rw [elements_cons, UInt64.toNat_add, hs.counter]
      exact Nat.mod_eq_of_lt hsum
    · rw [elements_cons]
      exact Nat.not_lt.mp hnlt
    · intro n' ptr' he
      cases he
      exact iff_of_false Outcome.noConfusion hnlt
    · intro ho
      cases ho
    · intro n' ptr' bytes he ho
      cases he
      cases ho
      exact (toNat_bytes sizeofT n).mpr (hbytes (Nat.not_lt.mp hnlt))

/-- **One call** keeps the promise exactly when it fits.  The cases are those of the code: a
sum above the limit, a `malloc` that fails, memory, and a block given back. -/
theorem accounted_step (hs : Balanced size s) {e : Call} {o : Outcome} {s' : Books}
    (hstep : call size sizeofT s e = some (o, s')) :
    Accounted size sizeofT s e o s' ↔ Fits size sizeofT s e := by
  cases e with
  | allocate n ptr =>
      rw [call, MyAllocator.allocate] at hstep
      split_ifs at hstep with hover
      · cases hstep
        exact accounted_thrown hs hover
      · cases hstep
        exact accounted_allocated hs hover
  | deallocate ptr n =>
      rw [call] at hstep
      split_ifs at hstep with hheld
      cases hstep
      refine iff_of_true ⟨balanced_deallocate hs hheld, ?_, ?_, ?_⟩ ?_
      · intro n' ptr' he
        cases he
      · intro ho
        cases ho
      · intro n' ptr' bytes he
        cases he
      · intro n' ptr' he
        cases he

end Step

/-- **The accounting.**  Along a run every call keeps the promise exactly when every call
fits. -/
theorem accounted_iff_fits (size sizeofT : UInt64) (calls : List Call) :
    (caller size sizeofT).Along (Accounted size sizeofT) start calls ↔
      (caller size sizeofT).Along (fun s e _ _ => Fits size sizeofT s e) start calls :=
  Machine.along_congr (I := Balanced size) (fun _ _ _ _ hs hstep => accounted_step hs hstep)
    (fun _ _ _ _ _ _ h => h.balanced) (balanced_start size) calls

/-- **A wrapped sum.**  With a limit of ten, five elements and then all but one of the
numbers there are. -/
theorem wrapped_sum_accepted :
    (caller 10 4).exec start [.allocate 5 (some 0), .allocate 18446744073709551615 (some 1)] =
      some ([(.allocate 5 (some 0), .allocated 20),
          (.allocate 18446744073709551615 (some 1), .allocated 18446744073709551612)],
        ⟨⟨4⟩, [(some 1, 18446744073709551615), (some 0, 5)]⟩) ∧
      ¬(caller 10 4).Along (Accounted 10 4) start
        [.allocate 5 (some 0), .allocate 18446744073709551615 (some 1)] := by
  refine ⟨by decide, fun h => ?_⟩
  have hfirst := h (.allocated 20) ⟨⟨5⟩, [(some 0, 5)]⟩ (by decide)
  have hsecond := hfirst.2 (.allocated 18446744073709551612)
    ⟨⟨4⟩, [(some 1, 18446744073709551615), (some 0, 5)]⟩ (by decide)
  have hlimit := hsecond.1.balanced.limit
  revert hlimit
  decide

end Allocator
