import CppProfessional.Editor.Objects
import Mathlib.Data.List.Nodup
import Mathlib.Data.List.ReduceOption

/-!
# What a view shows

Without pointers the editor is a name, a list of lines, and for every view the lines that it
showed when it was last refreshed.  A view is good as long as its document is there and none
of these lines has been removed, and this can be told from the indices: new lines come at the
end, so the lines of a view stay the first ones until one of them is removed.

* `Sheet`, `sheet` — the editor without pointers;
* `Related` — a state of the editor and its sheet;
* `editor_bisim` — no client can tell them apart;
* `render_after` — when a view can be rendered after a refresh, and what it prints.
-/

namespace Editor

open Transition

/-! ### The editor without pointers

A page remembers the lines themselves, so nothing can dangle.  Two flags say what a view
with pointers could not do any more. -/

/-- A view: the lines that it shows, if its document is still there, and if all of the lines
are. -/
structure Page where
  lines : List Line
  current : Bool
  intact : Bool
  deriving DecidableEq, Repr

/-- The document is replaced. -/
def Page.outdate (page : Page) : Page := { page with current := false }

/-- A line is removed. -/
def Page.remove (index : ℕ) (page : Page) : Page :=
  if index < page.lines.length then { page with intact := false } else page

/-- A document, if its lines can be changed, and the views; those without a document show
nothing. -/
structure Sheet where
  name : Text
  lines : List Line
  attached : Bool
  pages : List (Option Page)
  deriving DecidableEq, Repr

namespace Sheet

/-- A new document, with the controller of its primitives or without. -/
def replace (t : Sheet) (name : Text) (attached : Bool) : Sheet where
  name := name
  lines := []
  attached := attached
  pages := t.pages.map (Option.map Page.outdate)

/-- The lines that a view gets before an allocation fails. -/
def grant (t : Sheet) : Option ℕ → List Line
  | none => t.lines
  | some failing => t.lines.take failing

/-- One action. -/
def step (t : Sheet) : Action → Option (Result × Sheet)
  | .createNewDocument name failing =>
      match failing with
      | some .first => some (.badAlloc, t)
      | some .second => some (.badAlloc, t.replace name false)
      | none => some (.done, t.replace name true)
  | .loadDocument _ failing =>
      match failing with
      | some .first => some (.badAlloc, t)
      | some .second => some (.badAlloc, t.replace "Loaded Document".toList false)
      | none => some (.returned true, t.replace "Loaded Document".toList true)
  | .saveDocument _ => some (.returned true, t)
  | .setName name failing =>
      if failing then some (.badAlloc, t) else some (.done, { t with name := name })
  | .createLine start endPoint thickness failing =>
      match failing with
      | some .first => some (.badAlloc, t)
      | some .second => if t.attached then some (.badAlloc, t) else none
      | none =>
          if t.attached then
            some (.done, { t with lines := t.lines ++ [.create start endPoint thickness] })
          else none
  | .removePrimitive index =>
      if t.attached then
        some (.done,
          { t with
            lines := t.lines.eraseIdx index
            pages := t.pages.map (Option.map (Page.remove index)) })
      else none
  | .openView room failing =>
      if !room then some (.badAlloc, t)
      else if (t.grant failing).length < t.lines.length then some (.badAlloc, t)
      else some (.done, { t with pages := t.pages ++ [some ⟨t.lines, true, true⟩] })
  | .openEmptyView room =>
      if !room then some (.badAlloc, t) else some (.done, { t with pages := t.pages ++ [none] })
  | .update index failing =>
      match t.pages[index]? with
      | none => none
      | some none => some (.done, t)
      | some (some page) =>
          if page.current then
            some (if (t.grant failing).length < t.lines.length then .badAlloc else .done,
              { t with pages := t.pages.set index (some ⟨t.grant failing, true, true⟩) })
          else none
  | .render index =>
      match t.pages[index]? with
      | none => none
      | some none => some (.printed ["No document to render".toList], t)
      | some (some page) =>
          if page.current && page.intact then
            some (.printed (header t.name page.lines.length ++ page.lines.map Line.text), t)
          else none

end Sheet

/-- The sheet of `start`. -/
def blank : Sheet := ⟨"Untitled".toList, [], true, []⟩

/-- The editor without pointers. -/
def sheet : Machine Sheet Action Result where
  init t := t = blank
  step := Sheet.step

/-! ### The editor and its sheet

The relation pairs a pointer with the line behind it for as long as the object is there,
and says of every other pointer only that its object will not come back. -/

/-- The line that a primitive is. -/
def Primitive.asLine : Primitive → Line
  | .line drawn => drawn

/-- The lines of some primitives. -/
def linesOf (primitives : List (Address × Primitive)) : List Line :=
  primitives.map fun primitive => primitive.2.asLine

/-- A view and its page: as long as the document is there, the view has the addresses of the
first primitives, or one that is gone.  An address is not enough to know what is behind it, so
`known` keeps all of them below the next new address: what is allocated later cannot be taken
for what the view was made for. -/
structure Shows (s : State) (view : DocumentView) (page : Page) : Prop where
  document : ∃ pointer, view.document = some pointer ∧ pointer < s.allocated ∧
    (page.current = true ↔ pointer = s.controller.address)
  known : ∀ pointer ∈ view.primitiveViews, pointer < s.allocated
  whole : page.current = true → page.intact = true →
    ∃ shown, shown <+: s.controller.document.primitives ∧
      view.primitiveViews = shown.map Prod.fst ∧ page.lines = linesOf shown
  broken : page.current = true → page.intact = false →
    ∃ pointer ∈ view.primitiveViews, pointer ∉ s.controller.document.addresses

/-- A view and its page, which may have no document. -/
def Matches (s : State) (view : DocumentView) : Option Page → Prop
  | none => view = ⟨none, []⟩
  | some page => Shows s view page

theorem matches_empty (s : State) : Matches s ⟨none, []⟩ none := rfl

/-- A state and its sheet.  The clauses on the addresses have nothing to do with what is
printed; they are what keeps a line that is added from being taken for an older one. -/
structure Related (s : State) (t : Sheet) : Prop where
  name : t.name = s.controller.document.name
  lines : t.lines = linesOf s.controller.document.primitives
  attached : t.attached = true ↔ s.controller.primitiveController.document = s.controller.address
  nodup : s.controller.document.addresses.Nodup
  known : ∀ pointer ∈ s.controller.document.addresses, pointer < s.allocated
  address : s.controller.address < s.allocated
  controller : s.controller.primitiveController.document < s.allocated
  pages : List.Forall₂ (Matches s) s.views t.pages

/-- A new editor is a blank sheet. -/
theorem related_start : Related start blank where
  name := rfl
  lines := rfl
  attached := iff_of_true rfl rfl
  nodup := List.nodup_nil
  known := fun _ h => by cases h
  address := Nat.one_pos
  controller := Nat.one_pos
  pages := .nil

/-! ### Following pointers

A view looks up its pointers one after the other and stops at the first that leads
nowhere, so it renders either all of its lines or nothing. -/

section Pointers

variable {s : State}

/-- If every element has a value, the list has. -/
theorem mapM_eq_some {α β : Type*} {f : α → Option β} {g : α → β} {xs : List α}
    (h : ∀ x ∈ xs, f x = some (g x)) : xs.mapM f = some (xs.map g) := by
  induction xs with
  | nil => rfl
  | cons x xs ih =>
      rw [List.mapM_cons, h x List.mem_cons_self, ih fun y hy => h y (List.mem_cons_of_mem x hy)]
      rfl

/-- If one has none, neither has the list. -/
theorem mapM_eq_none {α β : Type*} {f : α → Option β} {xs : List α} {x : α} (hx : x ∈ xs)
    (h : f x = none) : xs.mapM f = none := by
  induction xs with
  | nil => cases hx
  | cons y xs ih =>
      rw [List.mapM_cons]
      rcases List.mem_cons.mp hx with rfl | hx
      · rw [h]
        rfl
      · rw [ih hx]
        cases f y <;> rfl

/-- A primitive is at its address. -/
theorem primitiveAt_eq (hnodup : s.controller.document.addresses.Nodup)
    {primitive : Address × Primitive} (hmem : primitive ∈ s.controller.document.primitives) :
    s.primitiveAt primitive.1 = some primitive.2 := by
  obtain ⟨front, back, hsplit⟩ := List.append_of_mem hmem
  refine List.lookup_eq_some_iff.mpr ⟨front, back, hsplit, fun other hother => ?_⟩
  rw [Document.addresses, hsplit, List.map_append, List.map_cons] at hnodup
  refine bne_iff_ne.mpr fun heq => ?_
  refine List.disjoint_of_nodup_append hnodup (List.mem_map_of_mem hother) ?_
  rw [← heq]
  exact List.mem_cons_self

/-- Nothing is at an address that no primitive has. -/
theorem primitiveAt_eq_none {pointer : Address}
    (h : pointer ∉ s.controller.document.addresses) : s.primitiveAt pointer = none := by
  refine List.lookup_eq_none_iff.mpr fun primitive hmem => ?_
  exact bne_iff_ne.mpr fun heq => h (heq ▸ List.mem_map_of_mem hmem)

/-- The pointer at an index, null behind the last one. -/
theorem getPrimitive_eq (document : Document) (index : ℕ) :
    document.getPrimitive index = document.addresses[index]? := by
  unfold Document.getPrimitive Document.addresses
  rw [List.getElem?_map]
  split
  · next h =>
      rw [List.getElem?_eq_getElem h]
      rfl
  · next h =>
      rw [List.getElem?_eq_none (Nat.not_lt.mp h)]
      rfl

/-- The views of the first primitives have their addresses.  A primitive is looked up by its
position, so the count must not exceed the number of primitives. -/
theorem createPrimitiveViews_eq (hnodup : s.controller.document.addresses.Nodup) {count : ℕ}
    (hcount : count ≤ s.controller.document.getPrimitiveCount) :
    s.createPrimitiveViews s.controller.document count =
      some (s.controller.document.addresses.take count) := by
  have hlength : s.controller.document.addresses.length =
      s.controller.document.getPrimitiveCount := List.length_map _
  have hview : ∀ i ∈ List.range count,
      s.createView (s.controller.document.getPrimitive i) =
        some s.controller.document.addresses[i]? := by
    intro i hi
    have hlt : i < s.controller.document.primitives.length :=
      Nat.lt_of_lt_of_le (List.mem_range.mp hi) hcount
    rw [getPrimitive_eq, Document.addresses, List.getElem?_map, List.getElem?_eq_getElem hlt]
    show Option.map _ (s.primitiveAt _) = _
    rw [primitiveAt_eq hnodup (List.getElem_mem hlt)]
    cases (s.controller.document.primitives[i]).2
    rfl
  rw [State.createPrimitiveViews, mapM_eq_some hview, Option.map_some]
  have hrange : (List.range count).map (s.controller.document.addresses[·]?) =
      (s.controller.document.addresses.take count).map some := by
    refine List.ext_getElem ?_ fun i hi _ => ?_
    · rw [List.length_map, List.length_range, List.length_map, List.length_take, hlength,
        Nat.min_eq_left hcount]
    · rw [List.length_map, List.length_range] at hi
      simp [Nat.lt_of_lt_of_le hi (hlength ▸ hcount)]
  rw [hrange, List.reduceOption, List.filterMap_map]
  exact congrArg some (List.filterMap_some)

/-- A view all of whose lines are there. -/
theorem mapM_renderPrimitive (hnodup : s.controller.document.addresses.Nodup)
    {shown : List (Address × Primitive)} (hshown : shown <+: s.controller.document.primitives) :
    (shown.map Prod.fst).mapM s.renderPrimitive = some ((linesOf shown).map Line.text) := by
  have hrender : ∀ primitive ∈ shown, (s.renderPrimitive ∘ Prod.fst) primitive =
      some primitive.2.asLine.text := by
    intro primitive hmem
    rw [Function.comp_apply, State.renderPrimitive, primitiveAt_eq hnodup (hshown.subset hmem)]
    cases primitive.2
    rfl
  rw [List.mapM_map, linesOf, List.map_map]
  exact mapM_eq_some hrender

end Pointers

/-! ### What an action does to the views

There are three things that happen to a document: it is replaced, a primitive is added,
or one is removed.  For each it is said what becomes of a view. -/

section Frames

variable {s : State} {view : DocumentView} {page : Page}

/-- The document and its primitives are where they were. -/
theorem Shows.congr (h : Shows s view page) {s' : State}
    (haddress : s'.controller.address = s.controller.address)
    (hprimitives : s'.controller.document.primitives = s.controller.document.primitives)
    (hallocated : s.allocated ≤ s'.allocated) : Shows s' view page := by
  obtain ⟨pointer, hpointer, hlt, hcurrent⟩ := h.document
  refine ⟨⟨pointer, hpointer, Nat.lt_of_lt_of_le hlt hallocated, haddress ▸ hcurrent⟩,
    fun q hq => Nat.lt_of_lt_of_le (h.known q hq) hallocated, ?_, ?_⟩
  · rw [hprimitives]
    exact h.whole
  · rw [Document.addresses, hprimitives]
    exact h.broken

/-- A document that is replaced is gone. -/
theorem Shows.replace (h : Shows s view page) (document : Document) :
    Shows (s.replaceDocument document) view page.outdate := by
  obtain ⟨pointer, hpointer, hlt, -⟩ := h.document
  refine ⟨⟨pointer, hpointer, Nat.lt_succ_of_lt hlt, ?_⟩,
    fun q hq => Nat.lt_succ_of_lt (h.known q hq), fun hold => ?_, fun hold => ?_⟩
  · exact iff_of_false Bool.false_ne_true (Nat.ne_of_lt hlt)
  · exact absurd hold Bool.false_ne_true
  · exact absurd hold Bool.false_ne_true

/-- A new primitive comes last, at an address that no view has. -/
theorem Shows.add (h : Shows s view page) (primitive : Primitive) :
    Shows { s.setDocument (s.controller.document.addPrimitive (s.allocated, primitive)) with
      allocated := s.allocated + 1 } view page := by
  obtain ⟨pointer, hpointer, hlt, hcurrent⟩ := h.document
  refine ⟨⟨pointer, hpointer, Nat.lt_succ_of_lt hlt, hcurrent⟩,
    fun q hq => Nat.lt_succ_of_lt (h.known q hq), fun hnow hintact => ?_, fun hnow hbroken => ?_⟩
  · obtain ⟨shown, hshown, hviews⟩ := h.whole hnow hintact
    exact ⟨shown, hshown.trans (List.prefix_append _ _), hviews⟩
  · obtain ⟨q, hq, hgone⟩ := h.broken hnow hbroken
    refine ⟨q, hq, fun hmem => ?_⟩
    rw [Document.addresses, State.setDocument, Document.addPrimitive, List.map_append,
      List.mem_append] at hmem
    rcases hmem with hold | hnew
    · exact hgone hold
    · exact Nat.ne_of_lt (h.known q hq) (List.mem_singleton.mp hnew)

/-- An index behind the last primitive removes none. -/
theorem removePrimitive_primitives (document : Document) (index : ℕ) :
    (document.removePrimitive index).primitives = document.primitives.eraseIdx index := by
  unfold Document.removePrimitive
  split
  · rfl
  · next h => exact (List.eraseIdx_of_length_le (Nat.not_lt.mp h)).symm

/-- A primitive is removed: the views that have its address are broken, and the others show
what they did.  No other primitive has the same address, so a view is not broken by mistake. -/
theorem Shows.remove (h : Shows s view page) (hnodup : s.controller.document.addresses.Nodup)
    (index : ℕ) :
    Shows (s.setDocument (s.controller.document.removePrimitive index)) view
      (page.remove index) := by
  have haddresses : (s.controller.document.removePrimitive index).addresses =
      s.controller.document.addresses.eraseIdx index := by
    rw [Document.addresses, removePrimitive_primitives, List.eraseIdx_eq_take_drop_succ,
      List.eraseIdx_eq_take_drop_succ, List.map_append, List.map_take, List.map_drop]
    rfl
  have hcurrent : (page.remove index).current = page.current := by
    unfold Page.remove
    split <;> rfl
  refine ⟨hcurrent ▸ h.document, h.known, fun hnow hintact => ?_, fun hnow hbroken => ?_⟩
  · rw [hcurrent] at hnow
    unfold Page.remove at hintact ⊢
    split at hintact
    · cases hintact
    · next hout =>
        rw [if_neg hout]
        obtain ⟨shown, ⟨rest, hrest⟩, hviews, hlines⟩ := h.whole hnow hintact
        refine ⟨shown, ⟨rest.eraseIdx (index - shown.length), ?_⟩, hviews, hlines⟩
        have hlength : shown.length ≤ index := by
          rw [hlines, linesOf, List.length_map] at hout
          exact Nat.not_lt.mp hout
        show _ = (s.controller.document.removePrimitive index).primitives
        rw [removePrimitive_primitives, ← hrest, List.eraseIdx_append_of_length_le hlength]
  · rw [hcurrent] at hnow
    show ∃ pointer ∈ view.primitiveViews,
      pointer ∉ (s.controller.document.removePrimitive index).addresses
    rw [haddresses]
    cases hwhole : page.intact with
    | false =>
        obtain ⟨q, hq, hgone⟩ := h.broken hnow hwhole
        exact ⟨q, hq, fun hmem => hgone (List.mem_of_mem_eraseIdx hmem)⟩
    | true =>
        -- the removed primitive is one of the first, which the view has
        unfold Page.remove at hbroken
        split at hbroken
        · next hlt =>
            obtain ⟨shown, hshown, hviews, hlines⟩ := h.whole hnow hwhole
            rw [hlines, linesOf, List.length_map] at hlt
            have hfront : view.primitiveViews <+: s.controller.document.addresses :=
              hviews ▸ hshown.map Prod.fst
            have hviewed : index < view.primitiveViews.length := by
              rw [hviews, List.length_map]
              exact hlt
            have hindex := Nat.lt_of_lt_of_le hviewed hfront.length_le
            refine ⟨view.primitiveViews[index], List.getElem_mem hviewed, ?_⟩
            rw [hfront.getElem hviewed, ← hnodup.erase_getElem index hindex]
            exact hnodup.not_mem_erase
        · rw [hwhole] at hbroken
          cases hbroken

/-- The document of a view, if it is still there. -/
theorem Shows.documentAt (h : Shows s view page) : ∃ pointer, view.document = some pointer ∧
      s.documentAt pointer = if page.current = true then some s.controller.document else none := by
  obtain ⟨pointer, hpointer, -, hcurrent⟩ := h.document
  refine ⟨pointer, hpointer, ?_⟩
  unfold State.documentAt
  by_cases hnow : page.current = true
  · rw [if_pos hnow, if_pos (hcurrent.mp hnow)]
  · rw [if_neg hnow, if_neg fun heq => hnow (hcurrent.mpr heq)]

/-- A view goes on matching its page as long as the document stays where it is and keeps its
primitives.  Addresses may only be added, so that none of the view's is given out anew. -/
theorem Matches.congr {page : Option Page} (h : Matches s view page) {s' : State}
    (haddress : s'.controller.address = s.controller.address)
    (hprimitives : s'.controller.document.primitives = s.controller.document.primitives)
    (hallocated : s.allocated ≤ s'.allocated) : Matches s' view page := by
  cases page with
  | none => exact h
  | some page => exact Shows.congr h haddress hprimitives hallocated

end Frames

section Lists

variable {α β : Type*} {R : α → β → Prop} {xs : List α} {ys : List β}

/-- Related lists have related elements, or none, at each index. -/
theorem rel_getElem? (h : List.Forall₂ R xs ys) (i : ℕ) : Option.Rel R xs[i]? ys[i]? := by
  induction h generalizing i with
  | nil => exact .none
  | cons hxy _ ih =>
      cases i with
      | zero => exact .some hxy
      | succ i => exact ih i

/-- Related elements may be put into related lists. -/
theorem forall₂_set (h : List.Forall₂ R xs ys) (i : ℕ) {x : α} {y : β} (hxy : R x y) :
    List.Forall₂ R (xs.set i x) (ys.set i y) := by
  induction h generalizing i with
  | nil => exact .nil
  | cons hfirst hrest ih =>
      cases i with
      | zero => exact .cons hxy hrest
      | succ i => exact .cons hfirst (ih i)

end Lists

/-! ### The editor and its sheet step by step

Each action is followed on both sides, with every allocation at which it may fail; in
the end this is a bisimulation, so nothing that a client can see is different. -/

namespace Related

variable {s : State} {t : Sheet}

/-- The document is replaced, and not yet the controller of its primitives. -/
theorem replace (h : Related s t) (name : Text) :
    Related (s.replaceDocument ⟨name, []⟩) (t.replace name false) where
  name := rfl
  lines := rfl
  attached := iff_of_false Bool.false_ne_true (Nat.ne_of_lt h.controller)
  nodup := List.nodup_nil
  known := fun _ hmem => by cases hmem
  address := Nat.lt_succ_self _
  controller := Nat.lt_succ_of_lt h.controller
  pages := by
    refine List.forall₂_map_right_iff.mpr (h.pages.imp fun view page hpage => ?_)
    cases page with
    | none => exact hpage
    | some page => exact Shows.replace hpage _

/-- The controller of the primitives follows. -/
theorem attach (h : Related s t) : Related s.attach { t with attached := true } where
  name := h.name
  lines := h.lines
  attached := iff_of_true rfl rfl
  nodup := h.nodup
  known := h.known
  address := h.address
  controller := h.address
  pages := h.pages.imp fun _ _ hpage => hpage.congr rfl rfl (Nat.le_refl _)

/-- A name is no address, and disturbs nothing. -/
theorem setName (h : Related s t) (name : Text) :
    Related (s.setDocument (s.controller.document.setName name)) { t with name := name } where
  name := rfl
  lines := h.lines
  attached := h.attached
  nodup := h.nodup
  known := h.known
  address := h.address
  controller := h.controller
  pages := h.pages.imp fun _ _ hpage => hpage.congr rfl rfl (Nat.le_refl _)

/-- A new line gets a new address, so no view can point to it yet and none is broken by it. -/
theorem addLine (h : Related s t) (line : Line) :
    Related { s.setDocument (s.controller.document.addPrimitive (s.allocated, .line line)) with
      allocated := s.allocated + 1 } { t with lines := t.lines ++ [line] } where
  name := h.name
  lines := by
    show t.lines ++ [line] =
      linesOf (s.controller.document.primitives ++ [(s.allocated, .line line)])
    rw [h.lines, linesOf, linesOf, List.map_append]
    rfl
  attached := h.attached
  nodup := by
    show (List.map Prod.fst (s.controller.document.primitives ++ [_])).Nodup
    rw [List.map_append]
    exact List.nodup_append.mpr ⟨h.nodup, List.nodup_singleton _, fun p hp q hq =>
      List.mem_singleton.mp hq ▸ Nat.ne_of_lt (h.known p hp)⟩
  known := by
    intro p hp
    have hp' : p ∈ List.map Prod.fst
        (s.controller.document.primitives ++ [(s.allocated, .line line)]) := hp
    rw [List.map_append, List.mem_append] at hp'
    rcases hp' with hold | hnew
    · exact Nat.lt_succ_of_lt (h.known p hold)
    · rw [List.mem_singleton.mp hnew]
      exact Nat.lt_succ_self _
  address := Nat.lt_succ_of_lt h.address
  controller := Nat.lt_succ_of_lt h.controller
  pages := by
    refine h.pages.imp fun view page hpage => ?_
    cases page with
    | none => exact hpage
    | some page => exact Shows.add hpage _

/-- The line that is removed is gone for the views that point to it; the others still find
theirs. -/
theorem removeLine (h : Related s t) (index : ℕ) :
    Related (s.setDocument (s.controller.document.removePrimitive index))
      { t with
        lines := t.lines.eraseIdx index
        pages := t.pages.map (Option.map (Page.remove index)) } where
  name := by
    show t.name = (s.controller.document.removePrimitive index).name
    unfold Document.removePrimitive
    split <;> exact h.name
  lines := by
    show t.lines.eraseIdx index = linesOf (s.controller.document.removePrimitive index).primitives
    rw [removePrimitive_primitives, h.lines, linesOf, linesOf, List.eraseIdx_eq_take_drop_succ,
      List.eraseIdx_eq_take_drop_succ, List.map_append, List.map_take, List.map_drop]
  attached := h.attached
  nodup := by
    show (List.map Prod.fst (s.controller.document.removePrimitive index).primitives).Nodup
    rw [removePrimitive_primitives]
    exact h.nodup.sublist ((List.eraseIdx_sublist _ _).map _)
  known := by
    intro p hp
    refine h.known p (List.Sublist.subset ?_ hp)
    show (List.map Prod.fst (s.controller.document.removePrimitive index).primitives).Sublist _
    rw [removePrimitive_primitives]
    exact (List.eraseIdx_sublist _ _).map _
  address := h.address
  controller := h.controller
  pages := by
    refine List.forall₂_map_right_iff.mpr (h.pages.imp fun view page hpage => ?_)
    cases page with
    | none => exact hpage
    | some page => exact Shows.remove hpage h.nodup index

/-- There are not more views than primitives. -/
theorem granted_le (document : Document) (failing : Option ℕ) :
    State.granted document failing ≤ document.getPrimitiveCount := by
  cases failing with
  | none => exact Nat.le_refl _
  | some failing => exact Nat.min_le_right _ _

/-- The lines that a view gets are those of the primitives for which there is memory. -/
theorem grant_eq (h : Related s t) (failing : Option ℕ) : t.grant failing =
    linesOf (s.controller.document.primitives.take
      (State.granted s.controller.document failing)) := by
  cases failing with
  | none =>
      show t.lines = linesOf (List.take s.controller.document.primitives.length _)
      rw [List.take_length, h.lines]
  | some failing =>
      show t.lines.take failing = linesOf (List.take (min failing _) _)
      rw [h.lines, linesOf, linesOf, ← List.map_take]
      congr 1
      rw [List.take_eq_take_min]
      rfl

/-- The page shows as many lines as there was memory for. -/
theorem length_grant (h : Related s t) (failing : Option ℕ) :
    (t.grant failing).length = State.granted s.controller.document failing := by
  rw [h.grant_eq, linesOf, List.length_map, List.length_take]
  exact Nat.min_eq_left (granted_le _ failing)

/-- The sheet has a line for each primitive. -/
theorem length_lines (h : Related s t) :
    t.lines.length = s.controller.document.getPrimitiveCount := by
  rw [h.lines, linesOf, List.length_map]
  rfl

/-- A view that has just been refreshed. -/
theorem matches_fresh (h : Related s t) (failing : Option ℕ) :
    Matches s ⟨some s.controller.address, s.controller.document.addresses.take
      (State.granted s.controller.document failing)⟩ (some ⟨t.grant failing, true, true⟩) := by
  refine ⟨⟨_, rfl, h.address, iff_of_true rfl rfl⟩,
    fun p hp => h.known p (List.mem_of_mem_take hp), fun _ _ => ?_, fun _ hbroken => ?_⟩
  · exact ⟨_, List.take_prefix _ _, List.map_take.symm, h.grant_eq failing⟩
  · cases hbroken

/-- The controller of the primitives finds its document unless a replacement has failed half
way. -/
theorem documentAt_controller (h : Related s t) :
    s.documentAt s.controller.primitiveController.document =
      if t.attached = true then some s.controller.document else none := by
  unfold State.documentAt
  by_cases hattached : t.attached = true
  · rw [if_pos hattached, if_pos (h.attached.mp hattached)]
  · rw [if_neg hattached, if_neg fun heq => hattached (h.attached.mpr heq)]

/-- **Rendering.**  It follows no pointer to nothing exactly if the document and all lines of
the view are there. -/
theorem render_eq (h : Related s t) {view : DocumentView} {page : Page}
    (hpage : Shows s view page) : s.render view =
      if page.current && page.intact then
        some (header t.name page.lines.length ++ page.lines.map Line.text)
      else none := by
  obtain ⟨pointer, hpointer, hdocument⟩ := hpage.documentAt
  unfold State.render
  rw [hpointer]
  dsimp only
  rw [hdocument]
  cases hnow : page.current with
  | false => rfl
  | true =>
      show (view.primitiveViews.mapM s.renderPrimitive).bind _ = _
      cases hintact : page.intact with
      | false =>
          obtain ⟨gone, hmem, hgone⟩ := hpage.broken hnow hintact
          rw [mapM_eq_none hmem]
          · rfl
          · rw [State.renderPrimitive, primitiveAt_eq_none hgone, Option.map_none]
      | true =>
          obtain ⟨shown, hshown, hviews, hlines⟩ := hpage.whole hnow hintact
          rw [hviews, mapM_renderPrimitive h.nodup hshown, hlines, h.name]
          show some (header _ (shown.map Prod.fst).length ++ _) = some _
          rw [List.length_map, linesOf, List.length_map]

/-- A new view is a new page. -/
theorem addView (h : Related s t) {view : DocumentView} {page : Option Page}
    (hpage : Matches s view page) :
    Related { s with views := s.views ++ [view] } { t with pages := t.pages ++ [page] } :=
  { h with
    pages := List.rel_append
      (h.pages.imp fun _ _ hold => hold.congr rfl rfl (Nat.le_refl _))
      (.cons (hpage.congr rfl rfl (Nat.le_refl _)) .nil) }

/-- A view that is refreshed is a page written anew. -/
theorem setView (h : Related s t) (index : ℕ) {view : DocumentView} {page : Option Page}
    (hpage : Matches s view page) :
    Related { s with views := s.views.set index view } { t with pages := t.pages.set index page } :=
  { h with
    pages := forall₂_set
      (h.pages.imp fun _ _ hold => hold.congr rfl rfl (Nat.le_refl _)) index
      (hpage.congr rfl rfl (Nat.le_refl _)) }

/-- If there is memory for all views, a view gets all lines. -/
theorem grant_eq_lines (h : Related s t) {failing : Option ℕ}
    (hall : ¬State.granted s.controller.document failing <
      s.controller.document.getPrimitiveCount) : t.grant failing = t.lines := by
  have hcount := Nat.le_antisymm (granted_le _ _) (Nat.not_lt.mp hall)
  rw [h.grant_eq, hcount, h.lines]
  exact congrArg linesOf List.take_length

/-- A view and a page are at the same indices. -/
theorem viewAt (h : Related s t) (index : ℕ) :
    s.views[index]? = none ∧ t.pages[index]? = none ∨
      ∃ view page, s.views[index]? = some view ∧ t.pages[index]? = some page ∧
        Matches s view page := by
  have hrel := rel_getElem? h.pages index
  cases hview : s.views[index]? <;> cases hpage : t.pages[index]? <;> rw [hview, hpage] at hrel
  · exact .inl ⟨rfl, rfl⟩
  · cases hrel
  · cases hrel
  · exact .inr ⟨_, _, rfl, rfl, Option.rel_some_some.mp hrel⟩

/-- A view is refreshed: the old views of its lines are deleted first, so that a failing
allocation leaves it with fewer lines and not with old ones. -/
theorem update (h : Related s t) (index : ℕ) (failing : Option ℕ) :
    Option.Rel (fun r r' => r.1 = r'.1 ∧ Related r.2 r'.2) (s.step (.update index failing))
      (t.step (.update index failing)) := by
  rw [State.step, Sheet.step]
  rcases h.viewAt index with ⟨hview, hpage⟩ | ⟨view, page, hview, hpage, hmatches⟩
  · rw [hview, hpage]
    exact .none
  · rw [hview, hpage, Option.bind_eq_bind, Option.bind_some]
    cases page with
    | none =>
        obtain rfl : view = ⟨none, []⟩ := hmatches
        obtain ⟨hlt, hget⟩ := List.getElem?_eq_some_iff.mp hpage
        have hsame : t.pages.set index none = t.pages :=
          (congrArg (t.pages.set index) hget.symm).trans (List.set_getElem_self hlt)
        have hset := h.setView index (matches_empty s)
        rw [hsame] at hset
        exact .some ⟨rfl, hset⟩
    | some page =>
        obtain ⟨pointer, hpointer, hdocument⟩ := Shows.documentAt hmatches
        rw [hpointer]
        dsimp only
        rw [hdocument]
        split
        · next hnow =>
            rw [Option.bind_eq_bind, Option.bind_some,
              createPrimitiveViews_eq h.nodup (granted_le _ _), h.length_grant, h.length_lines]
            obtain ⟨_, hpointer', -, hcurrent⟩ := hmatches.document
            obtain rfl := Option.some.inj (hpointer.symm.trans hpointer')
            have hset := h.setView index (h.matches_fresh failing)
            rw [← hcurrent.mp hnow] at hset
            exact .some ⟨rfl, hset⟩
        · exact .none

end Related

/-- **Pointers do not show.**  In related states the same actions are defined, with the same
results. -/
theorem editor_bisim : Machine.IsBisim editor sheet Related := by
  intro s t action h
  cases action with
  | createNewDocument name failing =>
      match failing with
      | some .first => exact .some ⟨rfl, h⟩
      | some .second => exact .some ⟨rfl, h.replace name⟩
      | none => exact .some ⟨rfl, (h.replace name).attach⟩
  | loadDocument filename failing =>
      match failing with
      | some .first => exact .some ⟨rfl, h⟩
      | some .second => exact .some ⟨rfl, h.replace _⟩
      | none => exact .some ⟨rfl, (h.replace _).attach⟩
  | saveDocument filename => exact .some ⟨rfl, h⟩
  | setName name failing =>
      cases failing with
      | true => exact .some ⟨rfl, h⟩
      | false => exact .some ⟨rfl, h.setName name⟩
  | createLine start endPoint thickness failing =>
      have hdocument := h.documentAt_controller
      match failing with
      | some .first => exact .some ⟨rfl, h⟩
      | some .second =>
          show Option.Rel _ (Option.map _ _) (if _ then _ else _)
          rw [hdocument]
          split
          · exact .some ⟨rfl, h⟩
          · exact .none
      | none =>
          show Option.Rel _ (Option.map _ _) (if _ then _ else _)
          rw [hdocument]
          split
          · exact .some ⟨rfl, h.addLine _⟩
          · exact .none
  | removePrimitive index =>
      show Option.Rel _ (Option.map _ _) (if _ then _ else _)
      rw [h.documentAt_controller]
      split
      · exact .some ⟨rfl, h.removeLine index⟩
      · exact .none
  | openView room failing =>
      cases room with
      | false => exact .some ⟨rfl, h⟩
      | true =>
          show Option.Rel _ ((s.createPrimitiveViews _ _).bind _) (if _ then _ else _)
          rw [createPrimitiveViews_eq h.nodup (Related.granted_le _ _), h.length_grant,
            h.length_lines, Option.bind_some]
          split
          · exact .some ⟨rfl, h⟩
          · next hall =>
              have hadded := h.addView (h.matches_fresh failing)
              rw [h.grant_eq_lines hall] at hadded
              exact .some ⟨rfl, hadded⟩
  | openEmptyView room =>
      cases room with
      | false => exact .some ⟨rfl, h⟩
      | true => exact .some ⟨rfl, h.addView (matches_empty s)⟩
  | update index failing => exact h.update index failing
  | render index =>
      show Option.Rel _ (s.step (.render index)) (t.step (.render index))
      rw [State.step, Sheet.step]
      rcases h.viewAt index with ⟨hview, hpage⟩ | ⟨view, page, hview, hpage, hmatches⟩
      · rw [hview, hpage]
        exact .none
      · rw [hview, hpage, Option.bind_eq_bind, Option.bind_some]
        cases page with
        | none =>
            obtain rfl : view = ⟨none, []⟩ := hmatches
            exact .some ⟨rfl, h⟩
        | some page =>
            dsimp only
            rw [h.render_eq hmatches]
            split
            · exact .some ⟨rfl, h⟩
            · exact .none

/-- **The editor is a drawing.**  Every client gets from the editor what it would get from the
sheet, and it follows a pointer to nothing exactly where the sheet has no step. -/
theorem same_results (actions : List Action) :
    (editor.exec start actions).map Prod.fst = (sheet.exec blank actions).map Prod.fst := by
  have hrel := editor_bisim.exec related_start actions
  cases heditor : editor.exec start actions <;> cases hsheet : sheet.exec blank actions <;>
    rw [heditor, hsheet] at hrel
  · rfl
  · cases hrel
  · cases hrel
  · exact congrArg some (Option.rel_some_some.mp hrel).1

/-- Every state of the editor is that of some sheet. -/
theorem exists_related {s : State} (h : editor.Reachable s) : ∃ t, Related s t := by
  obtain ⟨trace, _, rfl, hrun⟩ := h
  obtain ⟨t, -, ht⟩ := editor_bisim.run hrun related_start
  exact ⟨t, ht⟩

/-! ### A view after a refresh

From here on the sheet is used in place of the editor.  A page is written by a refresh
only, and every other action either spares it or makes it impossible to render. -/

/-- The action does not take away any of the first lines, nor the document. -/
def Action.spares (count : ℕ) : Action → Bool
  | .createNewDocument _ failing | .loadDocument _ failing => failing = some .first
  | .removePrimitive index => count ≤ index
  | _ => true

section Refreshed

variable {t t' : Sheet} {k : ℕ} {page : Page}

variable (t k page) in
/-- The page `k` shows the lines of `page`, if all that has happened since has spared them. -/
def Keeps (spared : Bool) : Prop :=
  ∃ page', t.pages[k]? = some (some page') ∧ page'.lines = page.lines ∧
    (page'.current && page'.intact) = (page.current && page.intact && spared)

theorem keeps_of_eq (hpage : t.pages[k]? = some (some page)) : Keeps t k page true :=
  ⟨page, hpage, rfl, (Bool.and_true _).symm⟩

/-- More pages do not change the first ones. -/
theorem keeps_append (hpage : t.pages[k]? = some (some page)) (last : Option Page) :
    Keeps { t with pages := t.pages ++ [last] } k page true := by
  refine keeps_of_eq ?_
  obtain ⟨hlt, -⟩ := List.getElem?_eq_some_iff.mp hpage
  show (t.pages ++ [last])[k]? = _
  rw [List.getElem?_append_left hlt, hpage]

/-- A page keeps its lines when the document is replaced, but they are no longer there. -/
theorem keeps_replace (hpage : t.pages[k]? = some (some page)) (name : Text) (attached : Bool) :
    Keeps (t.replace name attached) k page false := by
  refine ⟨page.outdate, ?_, rfl, ?_⟩
  · show (t.pages.map _)[k]? = _
    rw [List.getElem?_map, hpage]
    rfl
  · rw [Bool.and_false]
    rfl

/-- It keeps its lines when one is removed, and they are all still there if that was none of
them. -/
theorem keeps_remove (hpage : t.pages[k]? = some (some page)) (index : ℕ) (lines : List Line) :
    Keeps { t with lines := lines, pages := t.pages.map (Option.map (Page.remove index)) } k page
      (page.lines.length ≤ index) := by
  refine ⟨page.remove index, ?_, ?_, ?_⟩
  · show (t.pages.map _)[k]? = _
    rw [List.getElem?_map, hpage]
    rfl
  · unfold Page.remove
    split <;> rfl
  · unfold Page.remove
    split
    · next hlt => simp [Nat.not_le.mpr hlt]
    · next hle => simp [Nat.not_lt.mp hle]

/-- **One action**, and a page that it does not refresh keeps its lines; the action decides
whether they may still be printed. -/
theorem keeps_step {action : Action} {result : Result} (hstep : t.step action = some (result, t'))
    (hkept : ∀ failing, action ≠ .update k failing) (hpage : t.pages[k]? = some (some page)) :
    Keeps t' k page (action.spares page.lines.length) := by
  cases action with
  | createNewDocument name failing =>
      match failing with
      | some .first | some .second | none =>
          cases hstep
          first | exact keeps_of_eq hpage | exact keeps_replace hpage ..
  | loadDocument filename failing =>
      match failing with
      | some .first | some .second | none =>
          cases hstep
          first | exact keeps_of_eq hpage | exact keeps_replace hpage ..
  | saveDocument filename =>
      cases hstep
      exact keeps_of_eq hpage
  | setName name failing =>
      cases failing <;> cases hstep <;> exact keeps_of_eq hpage
  | createLine start endPoint thickness failing =>
      match failing with
      | some .first =>
          cases hstep
          exact keeps_of_eq hpage
      | some .second | none =>
          change (if t.attached = true then _ else _) = _ at hstep
          split at hstep
          · cases hstep
            exact keeps_of_eq hpage
          · cases hstep
  | removePrimitive index =>
      rw [Sheet.step] at hstep
      split at hstep
      · cases hstep
        exact keeps_remove hpage index _
      · cases hstep
  | openView room failing =>
      rw [Sheet.step] at hstep
      split at hstep
      · cases hstep
        exact keeps_of_eq hpage
      · split at hstep
        · cases hstep
          exact keeps_of_eq hpage
        · cases hstep
          exact keeps_append hpage _
  | openEmptyView room =>
      cases room with
      | false =>
          cases hstep
          exact keeps_of_eq hpage
      | true =>
          cases hstep
          exact keeps_append hpage _
  | update index failing =>
      have hne : index ≠ k := fun heq => hkept failing (heq ▸ rfl)
      rw [Sheet.step] at hstep
      split at hstep
      · cases hstep
      · cases hstep
        exact keeps_of_eq hpage
      · split at hstep
        · cases hstep
          refine keeps_of_eq ?_
          show (t.pages.set index _)[k]? = _
          rw [List.getElem?_set_ne hne, hpage]
        · cases hstep
  | render index =>
      rw [Sheet.step] at hstep
      split at hstep
      · cases hstep
      · cases hstep
        exact keeps_of_eq hpage
      · split at hstep
        · cases hstep
          exact keeps_of_eq hpage
        · cases hstep

/-- **A run** that does not refresh the page. -/
theorem keeps_run {trace : List (Action × Result)} (hrun : sheet.Run t trace t')
    (hkept : ∀ e ∈ trace, ∀ failing, e.1 ≠ .update k failing)
    (hpage : t.pages[k]? = some (some page)) :
    Keeps t' k page (trace.all fun e => e.1.spares page.lines.length) := by
  induction hrun with
  | refl => exact keeps_of_eq hpage
  | @snoc trace _ _ action _ _ hstep ih =>
      obtain ⟨page', hpage', hlines, hflags⟩ :=
        ih fun e he => hkept e (List.mem_append_left _ he)
      have hlast : ∀ failing, action ≠ .update k failing :=
        hkept _ (List.mem_append_right trace List.mem_cons_self)
      obtain ⟨page'', hpage'', hlines', hflags'⟩ := keeps_step hstep hlast hpage'
      refine ⟨page'', hpage'', hlines'.trans hlines, ?_⟩
      rw [hflags', hflags, hlines, List.all_append, Bool.and_assoc]
      simp

end Refreshed

/-- The actions that make view `k` or refresh it. -/
inductive Refresh (s : State) : ℕ → Action → Prop
  | opened (room : Bool) (failing : Option ℕ) :
      Refresh s s.views.length (.openView room failing)
  | updated {k : ℕ} {view : DocumentView} {pointer : Address} (failing : Option ℕ) :
      s.views[k]? = some view → view.document = some pointer → Refresh s k (.update k failing)

/-- A refresh that does not throw shows all lines of the document, which it does not change. -/
theorem page_refresh {s : State} {t t₁ : Sheet} {k : ℕ} {action : Action} (h : Related s t)
    (hrefresh : Refresh s k action) (hstep : t.step action = some (.done, t₁)) :
    t₁.pages[k]? = some (some ⟨t₁.lines, true, true⟩) := by
  cases hrefresh with
  | opened room failing =>
      rw [Sheet.step] at hstep
      split at hstep
      · cases hstep
      · split at hstep
        · cases hstep
        · cases hstep
          have hlength := h.pages.length_eq
          show (t.pages ++ [_])[s.views.length]? = _
          rw [hlength, List.getElem?_concat_length]
  | @updated _ view pointer failing hview hpointer =>
      rcases h.viewAt k with ⟨hnone, -⟩ | ⟨view', page, hview', hpage, hmatches⟩
      · rw [hview] at hnone
        cases hnone
      · obtain rfl := Option.some.inj (hview.symm.trans hview')
        cases page with
        | none =>
            obtain rfl : view = ⟨none, []⟩ := hmatches
            cases hpointer
        | some page =>
            obtain ⟨hlt, -⟩ := List.getElem?_eq_some_iff.mp hpage
            rw [Sheet.step, hpage] at hstep
            dsimp only at hstep
            rw [h.length_grant, h.length_lines] at hstep
            split at hstep
            · split at hstep
              · cases hstep
              · next hall =>
                  cases hstep
                  show (t.pages.set k _)[k]? = _
                  rw [List.getElem?_set_self hlt, h.grant_eq_lines hall]
            · cases hstep

/-- **Rendering after a refresh.**  After a view has been made or updated and until it is
updated again, whatever else happens, it can be rendered exactly if no document has taken the
place of its own and no line has been removed at an index below the number of its lines; it
then prints the name that the document has now and the lines that it had at the refresh. -/
theorem render_after {s s₁ s₂ : State} {k : ℕ} {action : Action} {trace : List (Action × Result)}
    (hreach : editor.Reachable s) (hrefresh : Refresh s k action)
    (hdone : editor.step s action = some (.done, s₁)) (hrun : editor.Run s₁ trace s₂)
    (hkept : ∀ e ∈ trace, ∀ failing, e.1 ≠ .update k failing) :
    editor.step s₂ (.render k) =
      if ∀ e ∈ trace, e.1.spares s₁.controller.document.getPrimitiveCount = true then
        some (.printed (header s₂.controller.document.name
          s₁.controller.document.getPrimitiveCount ++
            (linesOf s₁.controller.document.primitives).map Line.text), s₂)
      else none := by
  obtain ⟨t, h⟩ := exists_related hreach
  obtain ⟨t₁, hstep, h₁⟩ := editor_bisim.step hdone h
  obtain ⟨t₂, hrun', h₂⟩ := editor_bisim.run hrun h₁
  obtain ⟨page, hpage, hlines, hflags⟩ := keeps_run hrun' hkept (page_refresh h hrefresh hstep)
  rcases h₂.viewAt k with ⟨-, hnone⟩ | ⟨view, page', hview, hpage', hmatches⟩
  · rw [hpage] at hnone
    cases hnone
  · obtain rfl := Option.some.inj (hpage.symm.trans hpage')
    show s₂.step (.render k) = _
    rw [State.step, hview, Option.bind_eq_bind, Option.bind_some, h₂.render_eq hmatches, hflags,
      hlines, h₁.length_lines, h₂.name, h₁.lines]
    by_cases hall : ∀ e ∈ trace, e.1.spares s₁.controller.document.getPrimitiveCount = true
    · rw [if_pos hall, if_pos (by simpa using hall)]
      rfl
    · rw [if_neg hall, if_neg (by simpa using hall)]
      rfl

/-- A document with one line. -/
def oneLine : List (Action × Result) × State :=
  editor.play start [.createLine ⟨0, 0⟩ ⟨1, 1⟩ 1 none] (by decide +kernel)

/-- A view of it, which another line does not reach. -/
def viewed : List (Action × Result) × State :=
  editor.play oneLine.2 [.openView true none] (by decide +kernel)

def edited : List (Action × Result) × State :=
  editor.play viewed.2 [.createLine ⟨2, 2⟩ ⟨3, 3⟩ 1 none, .removePrimitive 1, .setName ['d'] false]
    (by decide +kernel)

/-- A view made of a document with one line goes on showing it under the new name. -/
theorem render_after_oneLine : editor.step edited.2 (.render 0) =
    some (.printed ["Rendering document: d".toList, "Number of primitives: 1".toList,
      "Rendering Line from (0,0) to (1,1) with thickness 1".toList], edited.2) := by
  have hreach : editor.Reachable oneLine.2 := (Machine.execution_play rfl _).reachable
  have hdone : editor.step oneLine.2 (.openView true none) = some (.done, viewed.2) := by
    decide +kernel
  have hrefresh : Refresh oneLine.2 0 (.openView true none) := .opened true none
  have hrun : editor.Run viewed.2 edited.1 edited.2 := Machine.run_play _
  have hactions : edited.1.map Prod.fst =
      [.createLine ⟨2, 2⟩ ⟨3, 3⟩ 1 none, .removePrimitive 1, .setName ['d'] false] := by
    decide +kernel
  have hkept : ∀ e ∈ edited.1, ∀ failing, e.1 ≠ .update 0 failing := by
    intro e he failing heq
    have hmem : e.1 ∈ edited.1.map Prod.fst := List.mem_map_of_mem he
    rw [hactions, heq] at hmem
    simp at hmem
  rw [render_after hreach hrefresh hdone hrun hkept]
  decide +kernel

end Editor
