import CppProfessional.Commands.Blocks

/-!
# Lines of a stream that arrives in segments

A reader of a byte stream has a buffer.  What arrives is put at its end; a frame, which is
a line with its delimiter, is taken from its front; and at the end of the stream a rest
without delimiter is completed to a frame.  For any alphabet and any segments, the frames
taken are the lines of the stream.

## Main definitions

* `Framed delim arrived frames buffer` — the invariant of the reader: the frames and the
  buffer are what has arrived, and every frame is a line with its delimiter;
* `completed delim rest` — the frame that is made of the rest.

`Framed.arrive` and `Framed.take` are the two steps, `Framed.finish` is the end.
-/

namespace Commands

universe u

variable {α : Type u} [DecidableEq α] {delim : α}

/-! ### Frames

A frame is a line with its delimiter.  A text and its frames determine each other, up to
a last line without delimiter. -/

/-- A line and what follows it. -/
theorem getlines_line {line : List α} (hline : delim ∉ line) (rest : List α) :
    getlines delim (line ++ delim :: rest) = line :: getlines delim rest := by
  induction line with
  | nil => rw [List.nil_append, getlines, if_pos rfl]
  | cons c line ih =>
      have hc : c ≠ delim := fun hc => hline (by rw [hc]; exact List.mem_cons_self ..)
      rw [List.cons_append, getlines, if_neg hc,
        ih fun hmem => hline (List.mem_cons_of_mem c hmem)]
      rfl

/-- A rest without delimiter is one line. -/
theorem getlines_of_notMem {rest : List α} (hne : rest ≠ []) (hrest : delim ∉ rest) :
    getlines delim rest = [rest] := by
  induction rest with
  | nil => exact absurd rfl hne
  | cons c rest ih =>
      have hc : c ≠ delim := fun hc => hrest (by rw [hc]; exact List.mem_cons_self ..)
      rw [getlines, if_neg hc]
      by_cases hnil : rest = []
      · rw [hnil]
        rfl
      · rw [ih hnil fun hmem => hrest (List.mem_cons_of_mem c hmem)]
        rfl

/-- No line has a delimiter in it, which is why a text can be cut into lines and put together
again. -/
theorem notMem_of_mem_getlines {data line : List α} (h : line ∈ getlines delim data) :
    delim ∉ line := by
  induction data generalizing line with
  | nil => cases h
  | cons c data ih =>
      rw [getlines] at h
      split at h
      · rcases List.mem_cons.mp h with rfl | h
        · exact List.not_mem_nil
        · exact ih h
      · next hc =>
        cases hlines : getlines delim data with
        | nil =>
            rw [hlines, consHead, List.mem_singleton] at h
            rw [h, List.mem_singleton]
            exact fun heq => hc heq.symm
        | cons first others =>
            rw [hlines, consHead, List.mem_cons] at h
            rcases h with rfl | h
            · intro hmem
              rcases List.mem_cons.mp hmem with heq | hmem
              · exact hc heq.symm
              · exact ih (by rw [hlines]; exact List.mem_cons_self ..) hmem
            · exact ih (by rw [hlines]; exact List.mem_cons_of_mem _ h)

/-- The lines of the frames are the lines. -/
theorem flatMap_getlines_frames {lines : List (List α)} (hlines : ∀ line ∈ lines, delim ∉ line) :
    (lines.map (· ++ [delim])).flatMap (getlines delim) = lines := by
  induction lines with
  | nil => rfl
  | cons line lines ih =>
      rw [List.map_cons, List.flatMap_cons, getlines_line (hlines line (List.mem_cons_self ..)),
        ih fun other hother => hlines other (List.mem_cons_of_mem line hother)]
      rfl

/-! ### The reader

A reader knows nothing of the segments: it sees its buffer.  What it has taken and what
is in the buffer together are what has arrived, and this does not depend on where the
segments end. -/

/-- The frames taken and the buffer are what has arrived.  The second clause makes the frames
those of the text: without it any cut would do. -/
structure Framed (delim : α) (arrived : List α) (frames : List (List α)) (buffer : List α) :
    Prop where
  flatten : frames.flatten ++ buffer = arrived
  frames : ∀ frame ∈ frames, ∃ line, delim ∉ line ∧ frame = line ++ [delim]

/-- The frame made of the rest of a stream, if there is one. -/
def completed (delim : α) (rest : List α) : List (List α) :=
  if rest = [] then [] else [rest ++ [delim]]

variable {arrived buffer : List α} {frames : List (List α)}

omit [DecidableEq α] in
theorem Framed.nil : Framed delim [] [] [] := ⟨rfl, fun _ hframe => by cases hframe⟩

omit [DecidableEq α] in
theorem Framed.arrive (h : Framed delim arrived frames buffer) (segment : List α) :
    Framed delim (arrived ++ segment) frames (buffer ++ segment) :=
  ⟨by rw [← List.append_assoc, h.flatten], h.frames⟩

/-- The characters up to and including the first delimiter. -/
theorem take_idxOf_succ (hmem : delim ∈ buffer) :
    ∃ line, delim ∉ line ∧ buffer.take (buffer.idxOf delim + 1) = line ++ [delim] := by
  induction buffer with
  | nil => cases hmem
  | cons c buffer ih =>
      by_cases hc : c = delim
      · refine ⟨[], List.not_mem_nil, ?_⟩
        rw [hc, List.idxOf_cons_self]
        rfl
      · have hmem' : delim ∈ buffer := (List.mem_cons.mp hmem).resolve_left fun heq => hc heq.symm
        obtain ⟨line, hline, htake⟩ := ih hmem'
        refine ⟨c :: line, ?_, ?_⟩
        · intro hmem
          rcases List.mem_cons.mp hmem with heq | hmem
          · exact hc heq.symm
          · exact hline hmem
        · rw [List.idxOf_cons_ne _ hc, List.take_succ_cons, htake]
          rfl

/-- A frame is taken. -/
theorem Framed.take (h : Framed delim arrived frames buffer) (hmem : delim ∈ buffer) :
    Framed delim arrived (frames ++ [buffer.take (buffer.idxOf delim + 1)])
      (buffer.drop (buffer.idxOf delim + 1)) := by
  constructor
  · rw [List.flatten_append, List.flatten_singleton, List.append_assoc, List.take_append_drop,
      h.flatten]
  · intro frame hframe
    rcases List.mem_append.mp hframe with hframe | hframe
    · exact h.frames frame hframe
    · rw [List.mem_singleton.mp hframe]
      exact take_idxOf_succ hmem

/-- **The frames are the lines of the stream**, once the rest is completed. -/
theorem Framed.finish (h : Framed delim arrived frames buffer) (hrest : delim ∉ buffer) :
    frames ++ completed delim buffer = (getlines delim arrived).map (· ++ [delim]) := by
  obtain ⟨hflatten, hframes⟩ := h
  induction frames generalizing arrived with
  | nil =>
      rw [← hflatten, List.flatten_nil, List.nil_append, List.nil_append, completed]
      split
      · next hnil =>
        rw [hnil]
        rfl
      · next hne =>
        rw [getlines_of_notMem hne hrest]
        rfl
  | cons frame frames ih =>
      obtain ⟨line, hline, rfl⟩ := hframes frame (List.mem_cons_self ..)
      have hothers := ih rfl fun other hother => hframes other (List.mem_cons_of_mem _ hother)
      rw [← hflatten, List.flatten_cons, List.append_assoc, List.append_assoc,
        List.singleton_append, getlines_line hline, List.map_cons, List.cons_append, hothers]

end Commands
