import Mathlib.Data.List.Basic
import Mathlib.Data.List.Infix

/-!
# Names joined by a separator

A path is written as a text by putting a separator in front of each of its names.  The
names do not contain the separator, so the text determines them; but a prefix of the text
may end in the middle of a name, and this is what sets prefixes of texts apart from
prefixes of lists of names.

* `joined_injective` — the text determines the names;
* `joined_prefix_iff` — when one text is a prefix of another.
-/

namespace Containers

variable {α : Type*} {sep : α}

/-- The names, each behind a separator. -/
def joined (sep : α) (names : List (List α)) : List α := names.flatMap fun name => sep :: name

@[simp] theorem joined_nil : joined sep [] = [] := rfl

@[simp] theorem joined_cons (name : List α) (names : List (List α)) :
    joined sep (name :: names) = sep :: (name ++ joined sep names) := rfl

/-- With the separator between the names only the first one has none. -/
theorem intercalate_cons (name : List α) (names : List (List α)) :
    List.intercalate [sep] (name :: names) = name ++ joined sep names := by
  induction names generalizing name with
  | nil => rw [List.intercalate_singleton, joined_nil, List.append_nil]
  | cons next names ih =>
      rw [List.intercalate_cons_cons, ih, joined_cons, List.append_assoc]
      rfl

/-- A text that is empty or starts with the separator. -/
def Headed (sep : α) (text : List α) : Prop := ∀ c ∈ text.head?, c = sep

/-- Names that are put together begin with the separator. -/
theorem headed_joined (names : List (List α)) : Headed sep (joined sep names) := by
  intro c hc
  cases names with
  | nil => cases hc
  | cons name names => exact (Option.some.inj hc).symm

/-- A text has only one name in front of the first separator, whatever follows. -/
theorem name_append_injective {n m xs ys : List α} (hn : sep ∉ n) (hm : sep ∉ m)
    (hxs : Headed sep xs) (hys : Headed sep ys) (h : n ++ xs = m ++ ys) : n = m ∧ xs = ys := by
  induction n generalizing m with
  | nil =>
      cases m with
      | nil => exact ⟨rfl, h⟩
      | cons d m =>
          refine absurd (hxs d ?_) fun heq => hm (heq ▸ List.mem_cons_self)
          rw [List.nil_append] at h
          rw [h]
          rfl
  | cons c n ih =>
      cases m with
      | nil =>
          refine absurd (hys c ?_) fun heq => hn (heq ▸ List.mem_cons_self)
          rw [List.nil_append] at h
          rw [← h]
          rfl
      | cons d m =>
          obtain ⟨rfl, htail⟩ := List.cons_eq_cons.mp h
          obtain ⟨rfl, hrest⟩ := ih (fun hc => hn (List.mem_cons_of_mem _ hc))
            (fun hc => hm (List.mem_cons_of_mem _ hc)) htail
          exact ⟨rfl, hrest⟩

/-- **The text determines the names.** -/
theorem joined_injective {xs ys : List (List α)} (hxs : ∀ x ∈ xs, sep ∉ x)
    (hys : ∀ y ∈ ys, sep ∉ y) (h : joined sep xs = joined sep ys) : xs = ys := by
  induction xs generalizing ys with
  | nil =>
      cases ys with
      | nil => rfl
      | cons y ys => cases h
  | cons x xs ih =>
      cases ys with
      | nil => cases h
      | cons y ys =>
          rw [List.forall_mem_cons] at hxs hys
          rw [joined_cons, joined_cons] at h
          obtain ⟨rfl, hrest⟩ := name_append_injective hxs.1 hys.1 (headed_joined xs)
            (headed_joined ys) (List.cons.inj h).2
          rw [ih hxs.2 hys.2 hrest]

/-- A name in front of a text is in front of its first name. -/
theorem name_prefix_iff {n m rest : List α} (hn : sep ∉ n) (hrest : Headed sep rest) :
    n <+: m ++ rest ↔ n <+: m := by
  refine ⟨fun h => ?_, fun h => h.trans (List.prefix_append m rest)⟩
  induction n generalizing m with
  | nil => exact List.nil_prefix
  | cons c n ih =>
      cases m with
      | nil =>
          obtain ⟨tail, htail⟩ := h
          refine absurd (hrest c ?_) fun heq => hn (heq ▸ List.mem_cons_self)
          rw [List.nil_append] at htail
          rw [← htail]
          rfl
      | cons d m =>
          rw [List.cons_append, List.cons_prefix_cons] at h
          rw [List.cons_prefix_cons]
          exact ⟨h.1, ih (fun hc => hn (List.mem_cons_of_mem _ hc)) h.2⟩

/-- A text that goes on after its first name is in front of another one only if that has
the same first name. -/
theorem name_append_prefix_iff {n m xs ys : List α} (hn : sep ∉ n) (hm : sep ∉ m)
    (hxs : Headed sep xs) (hne : xs ≠ []) (hys : Headed sep ys) :
    n ++ xs <+: m ++ ys ↔ n = m ∧ xs <+: ys := by
  constructor
  · rintro ⟨tail, htail⟩
    rw [List.append_assoc] at htail
    have hhead : Headed sep (xs ++ tail) := by
      intro c hc
      rw [List.head?_append_of_ne_nil xs hne] at hc
      exact hxs c hc
    obtain ⟨heq, hrest⟩ := name_append_injective hn hm hhead hys htail
    exact ⟨heq, tail, hrest⟩
  · rintro ⟨rfl, hprefix⟩
    exact (List.prefix_append_right_inj n).mpr hprefix

/-- `xs` ends in a name that is only the beginning of the name that `ys` has there. -/
def EndsInside (xs ys : List (List α)) : Prop :=
  ∃ front n m rest, xs = front ++ [n] ∧ ys = front ++ m :: rest ∧ n <+: m ∧ n ≠ m

/-- What ends inside a name is not made of whole names. -/
theorem EndsInside.not_prefix {xs ys : List (List α)} (h : EndsInside xs ys) : ¬ xs <+: ys := by
  obtain ⟨front, n, m, rest, rfl, rfl, -, hne⟩ := h
  rw [List.prefix_append_right_inj, List.cons_prefix_cons]
  exact fun hprefix => hne hprefix.1

/-- One name ends inside another if it is a beginning of it and not all of it. -/
theorem endsInside_singleton {x y : List α} {ys : List (List α)} :
    EndsInside [x] (y :: ys) ↔ x <+: y ∧ x ≠ y := by
  constructor
  · rintro ⟨front, n, m, rest, hx, hy, hprefix⟩
    cases front with
    | nil =>
        obtain ⟨rfl, -⟩ := List.cons_eq_cons.mp hx
        obtain ⟨rfl, -⟩ := List.cons_eq_cons.mp hy
        exact hprefix
    | cons z front => simp at hx
  · intro h
    exact ⟨[], x, y, ys, rfl, rfl, h⟩

/-- Equal first names do not matter. -/
theorem endsInside_cons {x y : List α} {xs ys : List (List α)} (hne : xs ≠ []) :
    EndsInside (x :: xs) (y :: ys) ↔ x = y ∧ EndsInside xs ys := by
  constructor
  · rintro ⟨front, n, m, rest, hx, hy, hprefix⟩
    cases front with
    | nil => exact absurd (List.cons_eq_cons.mp hx).2 hne
    | cons z front =>
        obtain ⟨rfl, hxs⟩ := List.cons_eq_cons.mp hx
        obtain ⟨rfl, hys⟩ := List.cons_eq_cons.mp hy
        exact ⟨rfl, front, n, m, rest, hxs, hys, hprefix⟩
  · rintro ⟨rfl, front, n, m, rest, rfl, rfl, hprefix⟩
    exact ⟨x :: front, n, m, rest, rfl, rfl, hprefix⟩

/-- **Prefixes of texts.**  The text of `xs` is a prefix of that of `ys` if `xs` is a
prefix of `ys`, or ends inside one of its names. -/
theorem joined_prefix_iff {xs ys : List (List α)} (hxs : ∀ x ∈ xs, sep ∉ x)
    (hys : ∀ y ∈ ys, sep ∉ y) :
    joined sep xs <+: joined sep ys ↔ xs <+: ys ∨ EndsInside xs ys := by
  induction xs generalizing ys with
  | nil => exact iff_of_true List.nil_prefix (Or.inl List.nil_prefix)
  | cons x xs ih =>
      cases ys with
      | nil =>
          refine iff_of_false (by simp) ?_
          rintro (h | ⟨front, n, m, rest, -, h, -⟩)
          · simp at h
          · simp at h
      | cons y ys =>
          rw [List.forall_mem_cons] at hxs hys
          rw [joined_cons, joined_cons, List.cons_prefix_cons, List.cons_prefix_cons,
            and_iff_right rfl]
          cases xs with
          | nil =>
              rw [joined_nil, List.append_nil, name_prefix_iff hxs.1 (headed_joined ys),
                endsInside_singleton, and_iff_left List.nil_prefix]
              by_cases heq : x = y
              · simp [heq]
              · simp [heq]
          | cons x' xs =>
              rw [name_append_prefix_iff hxs.1 hys.1 (headed_joined _) (by simp)
                (headed_joined ys), ih hxs.2 hys.2, endsInside_cons (by simp), and_or_left]

end Containers
