import GoTreeSitter.Source.Point

/-
  Syntax-tree nodes as far as spans are concerned, and the edit of spans.

  Key definitions include:
    * `NodeKind`
    * `addUint32Delta`
    * `shiftPointAfterEdit`

  A node keeps its children either as node pointers or as compact child references; a reference is a
  node, a compact leaf, a pending parent or a tree-less node. The kinds share one record here and
  are told apart by `NodeKind`. Each has its own edit functions, all of the same shape, which are
  one function here that branches on the kind of node.
-/

-- Nodes

namespace GoTreeSitter

/- The representation of a node. -/
inductive NodeKind where
  /- A node with child pointers. -/
  | node
  /- A node with compact child references. -/
  | finalChildRefs
  /- A leaf kept without a full node record. -/
  | compactFullLeaf
  /- An interior node kept without a full node record. -/
  | pendingParent
  /- A byte-span record without points. -/
  | noTreeNode
deriving DecidableEq

/- Byte and point extent of one node. -/
structure Span where
  startByte : UInt32
  endByte : UInt32
  startPoint : Point
  endPoint : Point
deriving DecidableEq

/- A node with its extent, dirty mark and children. -/
inductive Node where
  | mk (kind : NodeKind) (span : Span) (dirty : Bool) (children : List Node) : Node

namespace Node

def kind : Node → NodeKind
| mk kind _ _ _ => kind

def span : Node → Span
| mk _ span _ _ => span

def dirty : Node → Bool
| mk _ _ dirty _ => dirty

def children : Node → List Node
| mk _ _ _ children => children

def startByte (n : Node) : UInt32 := n.span.startByte

def endByte (n : Node) : UInt32 := n.span.endByte

end Node

-- Byte and Point Arithmetic

/- Add a signed delta, clamped to the 32-bit range. -/
def addUint32Delta (value : UInt32) (delta : Int) : UInt32 :=
  let next : Int := value.toNat + delta
  if next < 0 then
    0
  else if next > 2 ^ 32 - 1 then
    UInt32.ofNat (2 ^ 32 - 1)
  else
    UInt32.ofNat next.toNat

/- The new place of a point behind the edit. -/
def shiftPointAfterEdit (p : Point) (edit : InputEdit) (rowDelta : Int) : Point :=
  if p.row < edit.oldEndPoint.row then
    p
  else if p.row > edit.oldEndPoint.row then
    { p with row := addUint32Delta p.row rowDelta }
  else
    let columnDelta : UInt32 :=
      if p.column ≥ edit.oldEndPoint.column then
        p.column - edit.oldEndPoint.column
      else
        0
    { row := addUint32Delta p.row rowDelta
      column := addUint32Delta edit.newEndPoint.column
          columnDelta.toNat }

/- An edit with the differences computed from it. -/
structure EditDelta where
  edit : InputEdit
  byteDelta : Int
  rowDelta : Int
  hasTailShift : Bool

namespace EditDelta

/- The differences of an edit. -/
def ofEdit (edit : InputEdit) : EditDelta :=
  let byteDelta : Int := edit.newEndByte.toNat - edit.oldEndByte.toNat
  { edit := edit
    byteDelta := byteDelta
    rowDelta := edit.newEndPoint.row.toNat - edit.oldEndPoint.row.toNat
    hasTailShift := byteDelta ≠ 0 ∨ edit.newEndPoint ≠ edit.oldEndPoint }

@[simp]
lemma ofEdit_edit (edit : InputEdit) : (ofEdit edit).edit = edit := rfl

/- The differences of an edit that moves nothing. -/
def unshifted (edit : InputEdit) : EditDelta where
  edit := edit
  byteDelta := 0
  rowDelta := 0
  hasTailShift := false

@[simp]
lemma unshifted_edit (edit : InputEdit) : (unshifted edit).edit = edit := rfl

end EditDelta

-- Node Spans

namespace NodeKind

/- The kinds that refer to children. -/
def hasChildren : NodeKind → Bool
| node => true
| finalChildRefs => true
| pendingParent => true
| compactFullLeaf => false
| noTreeNode => false

/- The kinds that record points. -/
def hasPoints : NodeKind → Bool
| noTreeNode => false
| _ => true

end NodeKind

namespace Span

variable (d : EditDelta) (kind : NodeKind) (span : Span)

/- Set the start; only kinds with points record the point. -/
def setStart (startByte : UInt32) (startPoint : Point) : Span :=
  if kind.hasPoints then
    { span with
      startByte := startByte
      startPoint := startPoint }
  else
    { span with startByte := startByte }

/- Set the end; only kinds with points record the point. -/
def setEnd (endByte : UInt32) (endPoint : Point) : Span :=
  if kind.hasPoints then
    { span with
      endByte := endByte
      endPoint := endPoint }
  else
    { span with endByte := endByte }

/- Move both ends of a span behind the edit. -/
def shiftAfterEdit : Span :=
  (span.setStart kind (addUint32Delta span.startByte d.byteDelta) (shiftPointAfterEdit
    span.startPoint d.edit d.rowDelta)).setEnd kind (addUint32Delta span.endByte d.byteDelta)
    (shiftPointAfterEdit span.endPoint d.edit d.rowDelta)

/- A start inside the edit moves to its new end. -/
def adjustStart : Span :=
  if span.startByte > d.edit.startByte then
    span.setStart kind d.edit.newEndByte d.edit.newEndPoint
  else
    span

/- An end inside the edit moves to its new end. -/
def adjustEnd : Span :=
  if span.endByte ≤ d.edit.oldEndByte then
    span.setEnd kind d.edit.newEndByte d.edit.newEndPoint
  else
    span.setEnd kind (addUint32Delta span.endByte d.byteDelta)
      (shiftPointAfterEdit span.endPoint d.edit d.rowDelta)

/- Adjust both ends of a span that overlaps the edit. -/
def adjustOverlap : Span :=
  (span.adjustStart d kind).adjustEnd d kind

end Span

-- Tree Traversals

namespace Node

mutual

/- Move a whole subtree behind the edit. -/
def shiftSubtreeAfterEdit (d : EditDelta) : Node → Node
| mk kind span dirty children =>
  mk kind (span.shiftAfterEdit d kind) dirty (if kind.hasChildren then
      shiftChildrenAfterEdit d children
    else
      children)

/- Move every child subtree behind the edit. -/
def shiftChildrenAfterEdit (d : EditDelta) : List Node → List Node
| [] => []
| child :: children => shiftSubtreeAfterEdit d child :: shiftChildrenAfterEdit d children

end

mutual

/-
  Edit a node: one in front of the edit is kept, one behind it is moved, and one that overlaps it is
  marked dirty and adjusted together with its affected children.
-/
def editNodeWithDelta (d : EditDelta) : Node → Node
| mk kind span dirty children =>
  if span.endByte ≤ d.edit.startByte then
    mk kind span dirty children
  else if span.startByte ≥ d.edit.oldEndByte then
    if ! d.hasTailShift then
      mk kind span dirty children
    else
      shiftSubtreeAfterEdit d (mk kind span dirty children)
  else
    mk kind (span.adjustOverlap d kind) true (if kind.hasChildren then
        editChildrenWithDelta d children
      else
        children)

/- The loop over the children of an overlapping node. -/
def editChildrenWithDelta (d : EditDelta) : List Node → List Node
| [] => []
| child :: children =>
  if child.endByte ≤ d.edit.startByte then
    child :: editChildrenWithDelta d children
  else if child.startByte ≥ d.edit.oldEndByte then
    if ! d.hasTailShift then
      child :: children
    else
      shiftSubtreeAfterEdit d child :: editChildrenWithDelta d children
  else
    editNodeWithDelta d child :: editChildrenWithDelta d children

end

mutual

/- Mark the path to the one replaced byte. -/
def editNodeSingleByteReplacement (edit : InputEdit) : Node → Node
| mk kind span dirty children =>
  if span.endByte ≤ edit.startByte ∨ span.startByte ≥ edit.oldEndByte then
    mk kind span dirty children
  else if kind = .finalChildRefs then
    editNodeWithDelta (.unshifted edit) (mk kind span dirty children)
  else
    mk kind span true (editChildrenSingleByteReplacement edit children)

def editChildrenSingleByteReplacement (edit : InputEdit) : List Node → List Node
| [] => []
| child :: children =>
  if child.endByte ≤ edit.startByte then
    child :: editChildrenSingleByteReplacement edit children
  else if child.startByte ≥ edit.oldEndByte then
    child :: children
  else
    editNodeSingleByteReplacement edit child :: editChildrenSingleByteReplacement edit children

end

mutual

/-
  The way to the leaf the general edit remembers: the last one it marks. A compact leaf is marked
  and passed over.
-/
def lastEditedLeafWithDelta (d : EditDelta) : Node → Option (List Nat)
| mk kind span _ children =>
  if span.endByte ≤ d.edit.startByte ∨ span.startByte ≥ d.edit.oldEndByte then none
  else if children.length = 0 then
    if kind = .node ∨ kind = .finalChildRefs then some []
    else none
  else lastLeafOfChildrenWithDelta d 0 children

def lastLeafOfChildrenWithDelta (d : EditDelta) : Nat → List Node → Option (List Nat)
| _, [] => none
| i, child :: children =>
  if child.endByte ≤ d.edit.startByte then
    lastLeafOfChildrenWithDelta d (i + 1) children
  else if child.startByte ≥ d.edit.oldEndByte then
    if ! d.hasTailShift then none
    else lastLeafOfChildrenWithDelta d (i + 1) children
  else
    (lastLeafOfChildrenWithDelta d (i + 1) children).or
      ((lastEditedLeafWithDelta d child).map (i :: ·))

end

mutual

/- The way to the leaf the edit of one byte remembers. -/
def lastEditedLeafSingleByteReplacement (edit : InputEdit) : Node → Option (List Nat)
| mk kind span dirty children =>
  if span.endByte ≤ edit.startByte ∨ span.startByte ≥ edit.oldEndByte then none
  else if kind = .finalChildRefs then
    lastEditedLeafWithDelta (.unshifted edit) (mk kind span dirty children)
  else if children.length = 0 then
    if kind = .node then some [] else none
  else
    lastLeafOfChildrenSingleByteReplacement edit 0 children

def lastLeafOfChildrenSingleByteReplacement (edit : InputEdit) : Nat → List Node → Option (List Nat)
| _, [] => none
| i, child :: children =>
  if child.endByte ≤ edit.startByte then
    lastLeafOfChildrenSingleByteReplacement edit (i + 1) children
  else if child.startByte ≥ edit.oldEndByte then none
  else
    (lastLeafOfChildrenSingleByteReplacement edit (i + 1) children).or
      ((lastEditedLeafSingleByteReplacement edit child).map (i :: ·))

end

end Node

-- Trees

/- A syntax tree with the edits recorded on it. -/
structure Tree where
  root : Option Node
  edits : List InputEdit

namespace InputEdit

/- One byte replaced by one byte, with no moved text. -/
def isSingleByteReplacement (edit : InputEdit) : Bool := edit.newEndByte = edit.oldEndByte &&
    edit.oldEndByte > edit.startByte && edit.oldEndByte - edit.startByte = 1 && edit.newEndPoint =
    edit.oldEndPoint

end InputEdit

namespace Tree

/- Record an edit and adjust the tree to it. -/
def edit (t : Tree) (edit : InputEdit) : Tree where
  edits := t.edits ++ [edit]
  root := t.root.map (fun root =>
      if edit.isSingleByteReplacement then
        root.editNodeSingleByteReplacement edit
      else
        root.editNodeWithDelta (.ofEdit edit))

end Tree

end GoTreeSitter
