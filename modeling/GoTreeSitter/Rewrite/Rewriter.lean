import GoTreeSitter.Tree.Edit
import Mathlib.Data.List.Sort

/-
  The source rewriter: collected edits and their application.

  Key definitions include:
    * `RewriteEdit`
    * `Rewriter`

  The edits are sorted by an unstable sort before they are applied. `Rewriter.Apply` therefore
  relates a rewriter to the outcome under any list the sort may return, and `Rewriter.apply` is the
  outcome under one of them.
-/

-- Collected Edits

namespace GoTreeSitter

variable (source : Source)

/- Replace the bytes from `startByte` up to `endByte`. -/
structure RewriteEdit where
  startByte : UInt32
  endByte : UInt32
  newText : Source
deriving DecidableEq

/- A source text with the edits collected for it. -/
structure Rewriter where
  source : Source
  edits : List RewriteEdit

namespace Rewriter

variable (r : Rewriter) (node : Node)

/- A rewriter without edits. -/
def new : Rewriter where
  source := source
  edits := []

/- Collect the replacement of a byte range. -/
def replaceRange (startByte endByte : UInt32) (newText : Source) : Rewriter where
  source := r.source
  edits := r.edits ++ [⟨startByte, endByte, newText⟩]

/- Collect the replacement of the text of a node. -/
def replace (newText : Source) : Rewriter :=
  r.replaceRange node.startByte node.endByte newText

/- Collect an insertion before a node. -/
def insertBefore (text : Source) : Rewriter :=
  r.replaceRange node.startByte node.startByte text

/- Collect an insertion after a node. -/
def insertAfter (text : Source) : Rewriter :=
  r.replaceRange node.endByte node.endByte text

/- Collect the removal of the text of a node. -/
def delete : Rewriter := r.replaceRange node.startByte node.endByte []

end Rewriter

-- Sorting and Validation

/- Why a set of edits is refused. -/
inductive RewriteError where
  | invalidRange (startByte endByte : UInt32) (sourceLength : Nat)
  | overlappingEdits (prevStart prevEnd curStart curEnd : UInt32)
  | overlappingInsertions (startByte : UInt32)
deriving DecidableEq

namespace RewriteError

/- The error text. -/
def message : RewriteError → String
| invalidRange startByte endByte sourceLength =>
  "rewrite: invalid edit range [" ++ toString startByte ++ "," ++ toString endByte ++
    ") for source length " ++ toString sourceLength
| overlappingEdits prevStart prevEnd curStart curEnd =>
  "rewrite: overlapping edits at bytes [" ++ toString prevStart ++ "," ++ toString prevEnd ++
    ") and [" ++ toString curStart ++ "," ++ toString curEnd ++ ")"
| overlappingInsertions startByte =>
  "rewrite: overlapping insertions at byte " ++ toString startByte

end RewriteError

namespace RewriteEdit

/- The sort order: by start byte, then by end byte. -/
def less (a b : RewriteEdit) : Bool :=
  if a.startByte ≠ b.startByte then
    a.startByte < b.startByte
  else
    a.endByte < b.endByte

/-
  A list the sort may return: a permutation in which no later element is less than an earlier one.
-/
structure Sorts (edits sorted : List RewriteEdit) : Prop where
  perm : sorted.Perm edits
  ordered : sorted.Pairwise (fun a b => ¬ less b a = true)

/- The range is reversed or ends past the source. -/
def invalidRange (edit : RewriteEdit) : Bool := edit.startByte > edit.endByte ||
    decide (edit.endByte.toNat > source.length)

/- The first edit in the list with an invalid range. -/
def checkRanges : List RewriteEdit → Except RewriteError Unit
| [] => .ok ()
| edit :: edits =>
  if edit.invalidRange source then
    .error (.invalidRange edit.startByte edit.endByte source.length)
  else
    checkRanges edits

/- The first adjacent pair that overlaps. -/
def checkOverlaps : List RewriteEdit → Except RewriteError Unit
| [] => .ok ()
| [_] => .ok ()
| prev :: cur :: rest =>
  if prev.endByte > cur.startByte then
    .error (.overlappingEdits prev.startByte prev.endByte cur.startByte cur.endByte)
  else if prev.startByte = prev.endByte ∧ cur.startByte = cur.endByte ∧
      prev.startByte = cur.startByte then
    .error (.overlappingInsertions prev.startByte)
  else
    checkOverlaps (cur :: rest)

end RewriteEdit

-- Application

/- The point after reading `newText` from `startPoint`. -/
def computeNewEndPoint (startPoint : Point) (newText : Source) : Point := newText.foldl (fun p b =>
    if b = newline then
      ⟨p.row + 1, 0⟩
    else
      ⟨p.row, p.column + 1⟩)
    startPoint

namespace Rewriter

/- The loop variables of the application pass. -/
structure BuildState where
  buf : Source
  pos : UInt32
  currentPoint : Point
  edits : List InputEdit

/- One edit of the application pass. -/
def buildStep (st : BuildState) (e : RewriteEdit) : BuildState :=
  let unchanged :=
    if e.startByte > st.pos then
      Text.slice source st.pos.toNat e.startByte.toNat
    else
      []
  let buf := st.buf ++ unchanged
  let startPoint := computeNewEndPoint st.currentPoint unchanged
  let startByte := UInt32.ofNat buf.length
  let oldSpan := Text.slice source e.startByte.toNat e.endByte.toNat
  let newEndPoint := computeNewEndPoint startPoint e.newText
  { buf := buf ++ e.newText
    pos := e.endByte
    currentPoint := newEndPoint
    edits := st.edits ++
      [{ startByte := startByte
         oldEndByte := startByte + UInt32.ofNat oldSpan.length
         newEndByte := startByte + UInt32.ofNat e.newText.length
         startPoint := startPoint
         oldEndPoint := computeNewEndPoint startPoint oldSpan
         newEndPoint := newEndPoint }] }

/- The application pass over the sorted edits. -/
def build (sorted : List RewriteEdit) : BuildState :=
  sorted.foldl (buildStep source) ⟨[], 0, ⟨0, 0⟩, []⟩

/- The bytes after the last edit. -/
def remaining (pos : UInt32) : Source :=
  if pos < UInt32.ofNat source.length then
    source.drop pos.toNat
  else
    []

/- Validate and apply a sorted list of edits. -/
def applySorted (sorted : List RewriteEdit) : Except RewriteError (Source × List InputEdit) := do
  RewriteEdit.checkRanges source sorted
  RewriteEdit.checkOverlaps sorted
  let st := build source sorted
  return (st.buf ++ remaining source st.pos, st.edits)

/-
  An outcome of `Apply`: without edits the source itself,
  otherwise the outcome for some sorted list.
-/
inductive Apply (r : Rewriter) : Except RewriteError (Source × List InputEdit) → Prop where
  | unedited (hEdits : r.edits = []) : Apply r (.ok (r.source, []))
  | edited (sorted : List RewriteEdit) (hEdits : r.edits ≠ [])
      (hSorted : RewriteEdit.Sorts r.edits sorted) :
      Apply r (applySorted r.source sorted)

/- The outcome under insertion sort. -/
def apply (r : Rewriter) : Except RewriteError (Source × List InputEdit) :=
  if r.edits = [] then
    .ok (r.source, [])
  else
    applySorted r.source (r.edits.insertionSort (fun a b => ¬ b.less a))

end Rewriter

end GoTreeSitter
