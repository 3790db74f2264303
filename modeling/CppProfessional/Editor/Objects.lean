import CppProfessional.Transition.Machine
import Mathlib.Data.List.Forall2

/-!
# The objects of the editor

The document controller owns the document and the document owns its primitives; everyone
else has plain pointers.  A pointer is the address of an object, and no address is given out
twice, so a pointer to an object that is gone points to nothing from then on.  What follows
it is undefined.

* `Document`, `PrimitiveController`, `DocumentController` — the model and its controllers;
* `DocumentView`, `State.render` — the views, which print lines of text;
* `editor` — the machine of what a client does: each action may find that the memory is
  exhausted, and a step that follows a pointer to nothing does not exist.
-/

namespace Editor

open Transition

/-- A `std::string`. -/
abbrev Text := List Char

/-- Where an object is. -/
abbrev Address := ℕ

/-- `struct Point` -/
structure Point where
  x : Int32
  y : Int32
  deriving DecidableEq, Repr

/-- `class Line` -/
structure Line where
  x1 : Int32
  y1 : Int32
  x2 : Int32
  y2 : Int32
  thickness : Int32
  deriving DecidableEq, Repr

/-- `Line::Line(start, end, thickness)` -/
def Line.create (start endPoint : Point) (thickness : Int32) : Line where
  x1 := start.x
  y1 := start.y
  x2 := endPoint.x
  y2 := endPoint.y
  thickness := thickness

/-- `class Primitive`, by the classes that derive from it. -/
inductive Primitive
  | line (line : Line)
  deriving DecidableEq, Repr

/-- `Primitive::getType()` -/
def Primitive.getType : Primitive → Text
  | .line _ => "Line".toList

/-! ### The model

The document and the controllers are kept as values in the state, each with its address;
the views are the only ones that keep addresses of objects that they do not own. -/

/-- `class Document`; each primitive with its address. -/
structure Document where
  name : Text
  primitives : List (Address × Primitive)
  deriving DecidableEq, Repr

namespace Document

/-- `addPrimitive(primitive)` -/
def addPrimitive (document : Document) (primitive : Address × Primitive) : Document :=
  { document with primitives := document.primitives ++ [primitive] }

/-- `removePrimitive(index)` -/
def removePrimitive (document : Document) (index : ℕ) : Document :=
  if index < document.primitives.length then
    { document with primitives := document.primitives.eraseIdx index }
  else document

/-- `getPrimitive(index)`, which may be a null pointer. -/
def getPrimitive (document : Document) (index : ℕ) : Option Address :=
  if h : index < document.primitives.length then some (document.primitives.get ⟨index, h⟩).1
  else none

/-- `getPrimitiveCount()` -/
def getPrimitiveCount (document : Document) : ℕ := document.primitives.length

/-- `setName(name)` -/
def setName (document : Document) (name : Text) : Document := { document with name := name }

/-- `saveToFile(document, filename)`, which has no use for either yet. -/
def saveToFile (_document : Document) (_filename : Text) : Bool := true

/-- `loadFromFile(filename)`, which does not look at the file yet. -/
def loadFromFile (_filename : Text) : Document := ⟨"Loaded Document".toList, []⟩

/-- The addresses of the primitives. -/
def addresses (document : Document) : List Address := document.primitives.map Prod.fst

end Document

/-- `class PrimitiveController` -/
structure PrimitiveController where
  document : Address
  deriving DecidableEq, Repr

/-- `class DocumentController`: the document that it owns, where it is, and the controller of
its primitives. -/
structure DocumentController where
  address : Address
  document : Document
  primitiveController : PrimitiveController
  deriving DecidableEq, Repr

/-- `class DocumentView`: a pointer that may be null, and the pointers of the `LineView`
objects. -/
structure DocumentView where
  document : Option Address
  primitiveViews : List Address
  deriving DecidableEq, Repr

/-- The controller, the next address, and the views in the order in which they were made. -/
structure State where
  controller : DocumentController
  allocated : Address
  views : List DocumentView
  deriving DecidableEq, Repr

/-! ### Pointers

Following a pointer means to look the address up.  If nothing is there the program does
something undefined, and the model has no step. -/

namespace State

/-- The document at an address, if it is still there. -/
def documentAt (s : State) (pointer : Address) : Option Document :=
  if pointer = s.controller.address then some s.controller.document else none

/-- The primitive at an address, if it is still there. -/
def primitiveAt (s : State) (pointer : Address) : Option Primitive :=
  s.controller.document.primitives.lookup pointer

/-! ### The views

A view of the document makes a view for each primitive when it is refreshed, and only
then.  What it prints later is looked up through these pointers. -/

/-- `PrimitiveViewFactory::createView(primitive)`; nothing if the pointer is not null and
points to nothing. -/
def createView (s : State) : Option Address → Option (Option Address)
  | none => some none
  | some pointer =>
      (s.primitiveAt pointer).map fun primitive =>
        if primitive.getType = "Line".toList then some pointer else none

/-- The loop of `DocumentView::createPrimitiveViews()` over the first primitives. -/
def createPrimitiveViews (s : State) (document : Document) (count : ℕ) :
    Option (List Address) :=
  ((List.range count).mapM fun i => s.createView (document.getPrimitive i)).map List.reduceOption

end State

/-- The text of a number. -/
def decimal (n : Int32) : Text := (toString n.toInt).toList

/-- What `LineView::render()` prints of a line. -/
def Line.text (line : Line) : Text :=
  "Rendering Line from (".toList ++ decimal line.x1 ++ ",".toList ++ decimal line.y1 ++
    ") to (".toList ++ decimal line.x2 ++ ",".toList ++ decimal line.y2 ++
      ") with thickness ".toList ++ decimal line.thickness

/-- `LineView::render()` -/
def State.renderPrimitive (s : State) (pointer : Address) : Option Text :=
  (s.primitiveAt pointer).map fun
    | .line line => line.text

/-- The first lines of `DocumentView::render()`. -/
def header (name : Text) (count : ℕ) : List Text :=
  ["Rendering document: ".toList ++ name,
    "Number of primitives: ".toList ++ (toString count).toList]

/-- `DocumentView::render()` -/
def State.render (s : State) (view : DocumentView) : Option (List Text) :=
  match view.document with
  | none => some ["No document to render".toList]
  | some pointer => do
      let document ← s.documentAt pointer
      let lines ← view.primitiveViews.mapM s.renderPrimitive
      some (header document.name view.primitiveViews.length ++ lines)

/-! ### What a client does

An action may fail at any of its allocations.  What has been done before the failing one
stays done, which is why an action is more than a step that succeeds or does nothing. -/

/-- The allocation of an action for which there is no memory. -/
inductive Allocation
  | first
  | second
  deriving DecidableEq, Repr

/-- What a client does.  A `failing` allocation throws `std::bad_alloc`: of the document or of
the controller of its primitives, of the room for a name, of the line or of the room for it in
the vector, or of a view at the primitive of this index; without `room` there is no memory for
the view of the document itself. -/
inductive Action
  | createNewDocument (name : Text) (failing : Option Allocation)
  | loadDocument (filename : Text) (failing : Option Allocation)
  | saveDocument (filename : Text)
  | setName (name : Text) (failing : Bool)
  | createLine (start endPoint : Point) (thickness : Int32) (failing : Option Allocation)
  | removePrimitive (index : ℕ)
  | openView (room : Bool) (failing : Option ℕ)
  | openEmptyView (room : Bool)
  | update (view : ℕ) (failing : Option ℕ)
  | render (view : ℕ)
  deriving DecidableEq, Repr

/-- What an action returns, prints or throws. -/
inductive Result
  | done
  | returned (value : Bool)
  | printed (lines : List Text)
  | badAlloc
  deriving DecidableEq, Repr

namespace State

/-- `document_ = ...`: the old document is gone. -/
def replaceDocument (s : State) (document : Document) : State :=
  { s with
    controller := { s.controller with address := s.allocated, document := document }
    allocated := s.allocated + 1 }

/-- `primitiveController_ = std::make_unique<PrimitiveController>(document_.get())` -/
def attach (s : State) : State :=
  { s with controller := { s.controller with primitiveController := ⟨s.controller.address⟩ } }

/-- The document is changed in its place. -/
def setDocument (s : State) (document : Document) : State :=
  { s with controller := { s.controller with document := document } }

/-- How many views are made before an allocation fails. -/
def granted (document : Document) : Option ℕ → ℕ
  | none => document.getPrimitiveCount
  | some failing => min failing document.getPrimitiveCount

/-- One action; `none` if there is no such view, or if it follows a pointer to nothing. -/
def step (s : State) : Action → Option (Result × State)
  | .createNewDocument name failing =>
      match failing with
      | some .first => some (.badAlloc, s)
      | some .second => some (.badAlloc, s.replaceDocument ⟨name, []⟩)
      | none => some (.done, (s.replaceDocument ⟨name, []⟩).attach)
  | .loadDocument filename failing =>
      match failing with
      | some .first => some (.badAlloc, s)
      | some .second => some (.badAlloc, s.replaceDocument (.loadFromFile filename))
      | none => some (.returned true, (s.replaceDocument (.loadFromFile filename)).attach)
  | .saveDocument filename =>
      some (.returned (s.controller.document.saveToFile filename), s)
  | .setName name failing =>
      if failing then some (.badAlloc, s)
      else some (.done, s.setDocument (s.controller.document.setName name))
  | .createLine start endPoint thickness failing =>
      match failing with
      | some .first => some (.badAlloc, s)
      | some .second =>
          (s.documentAt s.controller.primitiveController.document).map fun _ => (.badAlloc, s)
      | none =>
          (s.documentAt s.controller.primitiveController.document).map fun document =>
            (.done,
              { s.setDocument (document.addPrimitive
                  (s.allocated, .line (.create start endPoint thickness))) with
                allocated := s.allocated + 1 })
  | .removePrimitive index =>
      (s.documentAt s.controller.primitiveController.document).map fun document =>
        (.done, s.setDocument (document.removePrimitive index))
  | .openView room failing => do
      if !room then some (.badAlloc, s)
      else
        let document := s.controller.document
        let primitiveViews ← s.createPrimitiveViews document (granted document failing)
        if granted document failing < document.getPrimitiveCount then some (.badAlloc, s)
        else
          some (.done,
            { s with views := s.views ++ [⟨some s.controller.address, primitiveViews⟩] })
  | .openEmptyView room =>
      if !room then some (.badAlloc, s)
      else some (.done, { s with views := s.views ++ [⟨none, []⟩] })
  | .update index failing => do
      let view ← s.views[index]?
      match view.document with
      | none => some (.done, { s with views := s.views.set index ⟨none, []⟩ })
      | some pointer => do
          let document ← s.documentAt pointer
          let primitiveViews ← s.createPrimitiveViews document (granted document failing)
          some (if granted document failing < document.getPrimitiveCount then .badAlloc else .done,
            { s with views := s.views.set index { view with primitiveViews := primitiveViews } })
  | .render index => do
      let view ← s.views[index]?
      let lines ← s.render view
      some (.printed lines, s)

end State

/-- `DocumentController::DocumentController()`, which creates a document. -/
def start : State where
  controller := ⟨0, ⟨"Untitled".toList, []⟩, ⟨0⟩⟩
  allocated := 1
  views := []

/-- The editor and its client. -/
def editor : Machine State Action Result where
  init s := s = start
  step := State.step

/-- The calls of `main`. -/
example : (editor.exec start
    [.createNewDocument "New Document".toList none, .openView true none,
      .createLine ⟨10, 10⟩ ⟨100, 100⟩ 1 none, .removePrimitive 0,
      .saveDocument "document.vec".toList, .loadDocument "document.vec".toList none,
      .openView true none, .render 1]).map (fun r => (r.1.map Prod.snd).getLast?) =
    some (some (.printed ["Rendering document: Loaded Document".toList,
      "Number of primitives: 0".toList])) := by
  decide +kernel

end Editor
