import CppProfessional.Commands.Framing

/-!
# Replies of several lines

A reply is some lines that do not close it and one line that does.  A stream of replies can
then be read without knowing the requests: a reader cuts behind every closing line.

* `Reply closes lines` — the lines are one reply;
* `cut closes lines` — the reader: the replies, and what follows the last one;
* `cut_flatten` — it reads what was sent;
* `exists_frames_of_prefix` — a part of a stream of frames that ends with a delimiter ends
  with a frame.

The lines may be of any type, and which of them close a reply is any decidable property.  That
a reply has no closing line before its last one is all that a protocol has to provide.
-/

namespace Commands

universe u

variable {α : Type u} {closes : α → Prop}

/-- Lines that do not close a reply, and one that does. -/
def Reply (closes : α → Prop) (lines : List α) : Prop :=
  ∃ body last, lines = body ++ [last] ∧ (∀ line ∈ body, ¬ closes line) ∧ closes last

/-- Put a line in front of the first reply, or of the rest if there is no reply. -/
def consReply (line : α) : List (List α) × List α → List (List α) × List α
  | ([], rest) => ([], line :: rest)
  | (reply :: replies, rest) => ((line :: reply) :: replies, rest)

section Cut

variable [DecidablePred closes]

/-- Cut behind every line that closes a reply. -/
def cut (closes : α → Prop) [DecidablePred closes] : List α → List (List α) × List α
  | [] => ([], [])
  | line :: lines =>
      if closes line then ([line] :: (cut closes lines).1, (cut closes lines).2)
      else consReply line (cut closes lines)

omit [DecidablePred closes] in
/-- A further line belongs to the first reply, or is what is left. -/
theorem flatten_consReply (line : α) (read : List (List α) × List α) :
    (consReply line read).1.flatten ++ (consReply line read).2 =
      line :: (read.1.flatten ++ read.2) := by
  match read with
  | ([], rest) => rfl
  | (reply :: replies, rest) => rfl

/-- Nothing is lost. -/
theorem flatten_cut (lines : List α) :
    (cut closes lines).1.flatten ++ (cut closes lines).2 = lines := by
  induction lines with
  | nil => rfl
  | cons line lines ih =>
      rw [cut]
      split
      · rw [List.flatten_cons, List.append_assoc, ih]
        rfl
      · rw [flatten_consReply, ih]

/-- The first reply is cut off. -/
theorem cut_append {reply : List α} (h : Reply closes reply) (lines : List α) :
    cut closes (reply ++ lines) = (reply :: (cut closes lines).1, (cut closes lines).2) := by
  obtain ⟨body, last, rfl, hbody, hlast⟩ := h
  induction body with
  | nil => rw [List.nil_append, List.singleton_append, cut, if_pos hlast]
  | cons line body ih =>
      rw [List.cons_append, List.cons_append, cut, if_neg (hbody line List.mem_cons_self),
        ih fun other hother => hbody other (List.mem_cons_of_mem line hother)]
      rfl

/-- Lines without a closing one stay. -/
theorem cut_of_forall_not {lines : List α} (h : ∀ line ∈ lines, ¬ closes line) :
    cut closes lines = ([], lines) := by
  induction lines with
  | nil => rfl
  | cons line lines ih =>
      rw [cut, if_neg (h line List.mem_cons_self),
        ih fun other hother => h other (List.mem_cons_of_mem line hother)]
      rfl

/-- **A stream of replies is read back.** -/
theorem cut_flatten {replies : List (List α)} {rest : List α}
    (h : ∀ reply ∈ replies, Reply closes reply) (hrest : ∀ line ∈ rest, ¬ closes line) :
    cut closes (replies.flatten ++ rest) = (replies, rest) := by
  induction replies with
  | nil => exact cut_of_forall_not hrest
  | cons reply replies ih =>
      rw [List.flatten_cons, List.append_assoc, cut_append (h reply List.mem_cons_self),
        ih fun other hother => h other (List.mem_cons_of_mem reply hother)]

end Cut

/-! ### Streams of frames

What arrives in a stream is bytes.  If no line of a reply has the delimiter inside, the
lines are found again, and a part of the stream that ends with a delimiter is made of
whole lines. -/

variable {delim : α}

/-- The lines of a stream of frames. -/
theorem getlines_frames [DecidableEq α] {lines : List (List α)}
    (hlines : ∀ line ∈ lines, delim ∉ line) :
    getlines delim (lines.map (· ++ [delim])).flatten = lines := by
  rw [getlines_flatten, flatMap_getlines_frames hlines]
  intro frame hframe
  obtain ⟨line, -, rfl⟩ := List.mem_map.mp hframe
  exact Or.inr List.getLast?_concat

/-- A part that ends with a delimiter ends with a frame, wherever the stream was cut. -/
theorem exists_frames_of_prefix {lines : List (List α)} (hlines : ∀ line ∈ lines, delim ∉ line)
    {part : List α} (hpart : part ++ [delim] <+: (lines.map (· ++ [delim])).flatten) :
    ∃ front line back, lines = front ++ line :: back ∧
      part ++ [delim] = ((front ++ [line]).map (· ++ [delim])).flatten := by
  induction lines generalizing part with
  | nil =>
      rw [List.map_nil, List.flatten_nil, List.prefix_nil] at hpart
      exact absurd hpart (List.append_ne_nil_of_right_ne_nil _ (List.cons_ne_nil _ _))
  | cons line lines ih =>
      rw [List.map_cons, List.flatten_cons] at hpart
      have hline := hlines line List.mem_cons_self
      have hwhole (h : part ++ [delim] = line ++ [delim]) : ∃ front line' back,
          line :: lines = front ++ line' :: back ∧
            part ++ [delim] = ((front ++ [line']).map (· ++ [delim])).flatten :=
        ⟨[], line, lines, rfl, by simpa using h⟩
      rcases List.prefix_or_prefix_of_prefix hpart (List.prefix_append _ _) with hshort | hlong
      · -- the delimiter of the part is the one behind the first line
        rcases List.prefix_concat_iff.mp hshort with heq | hinside
        · exact hwhole heq
        · exact absurd (hinside.subset (by simp)) hline
      · obtain ⟨more, hmore⟩ := hlong
        rcases List.eq_nil_or_concat more with rfl | ⟨more', c, rfl⟩
        · exact hwhole (by rw [← hmore, List.append_nil])
        · rw [List.concat_eq_append, ← List.append_assoc] at hmore
          obtain ⟨rfl, hlast⟩ := List.append_inj' hmore rfl
          obtain rfl := List.singleton_injective hlast
          rw [List.append_assoc, List.prefix_append_right_inj] at hpart
          obtain ⟨front, line', back, rfl, hfront⟩ :=
            ih (fun other hother => hlines other (List.mem_cons_of_mem line hother)) hpart
          refine ⟨line :: front, line', back, rfl, ?_⟩
          rw [List.append_assoc, hfront, List.cons_append, List.map_cons, List.flatten_cons]

end Commands
