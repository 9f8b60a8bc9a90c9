import GoTreeSitter.Source.Point
import GoTreeSitter.Search.Sorted
import GoTreeSitter.Text.Utf8

/-
  Sources in UTF-16 and their maps to UTF-8.

  Key definitions include:
    * `decodeUTF16Rune`
    * `encodeUTF16ToUTF8WithMap`

  The map is built rune by rune. A surrogate that is not part of a pair becomes the replacement
  rune. Offsets are 32-bit, as in the parser.
-/

-- Code Units

namespace GoTreeSitter

variable (source : List UInt16)

/- The line-feed code unit. -/
def newlineUnit : UInt16 := 10

def isUTF16LeadSurrogate (u : UInt16) : Bool := 0xD800 ≤ u && u ≤ 0xDBFF

def isUTF16TrailSurrogate (u : UInt16) : Bool := 0xDC00 ≤ u && u ≤ 0xDFFF

def isSurrogate (u : UInt16) : Bool := 0xD800 ≤ u && u < 0xE000

/- The rune of a pair, or the replacement rune. -/
def decodePair (first second : UInt16) : Nat :=
  if isUTF16LeadSurrogate first
      && isUTF16TrailSurrogate second then
    (first.toNat - 0xD800) * 1024 + (second.toNat - 0xDC00) + 0x10000
  else
    Text.runeError

/- The rune at a position and its number of code units. -/
def decodeUTF16Rune (pos : Nat) : Nat × Nat :=
  let r := source.getD pos 0
  if isSurrogate r then
    match source[pos + 1]? with
    | some r2 =>
      let decoded := decodePair r r2
      if decoded ≠ Text.runeError then
        (decoded, 2)
      else
        (Text.runeError, 1)
    | none => (Text.runeError, 1)
  else
    (r.toNat, 1)

lemma decodeUTF16Rune_size_pos (pos : Nat) : 0 < (decodeUTF16Rune source pos).2 := by
  unfold decodeUTF16Rune
  dsimp only
  repeat' split
  all_goals exact Nat.succ_pos _

/- No pair of surrogates is cut at the offset. -/
def utf16Boundary (offset : UInt32) : Bool :=
  if offset > UInt32.ofNat source.length then
    false
  else if offset = 0 ∨ offset = UInt32.ofNat source.length then
    true
  else
    let prev := source.getD (offset.toNat - 1) 0
    let next := source.getD offset.toNat 0
    !isUTF16LeadSurrogate prev || !isUTF16TrailSurrogate next

-- Source Map

/- Offsets of a source in UTF-16 and of its UTF-8 form. -/
structure Utf16SourceMap where
  source : List UInt16
  utf8 : List UInt8
  byteToUnit : List UInt32
  byteBoundary : List Bool
  unitToByte : List UInt32
  unitBoundary : List Bool
  lineStartUnits : List UInt32
  lineStartBytes : List UInt32

variable (m : Utf16SourceMap) (offset : UInt32)

namespace Utf16SourceMap

/- The map before any rune. -/
def initial : Utf16SourceMap where
  source := source
  utf8 := []
  byteToUnit := [0]
  byteBoundary := [true]
  unitToByte := List.replicate (source.length + 1) 0
  unitBoundary := (List.replicate (source.length + 1) false).set 0 true
  lineStartUnits := [0]
  lineStartBytes := [0]

/- A line starts after a line feed. -/
def addLineStart (r offset : Nat) (starts : List UInt32) : List UInt32 :=
  if r = 10 then
    starts ++ [UInt32.ofNat offset]
  else
    starts

/- One rune of the source is added to the map. -/
def addRune (unitStart : Nat) : Utf16SourceMap :=
  let byteStart := m.utf8.length
  let r := (decodeUTF16Rune m.source unitStart).1
  let unitSize := (decodeUTF16Rune m.source unitStart).2
  let encoded := Text.encodeRune r
  let unitEnd := unitStart + unitSize
  let byteEnd := byteStart + encoded.length
  { source := m.source
    utf8 := m.utf8 ++ encoded
    unitToByte := ((List.range' unitStart unitSize).foldl
        (fun bytes u => bytes.set u (UInt32.ofNat byteStart))
        m.unitToByte).set unitEnd (UInt32.ofNat byteEnd)
    unitBoundary := (m.unitBoundary.set unitStart true).set unitEnd true
    byteToUnit := m.byteToUnit ++ (List.range' 1 encoded.length).map
        (fun i => UInt32.ofNat (if i = encoded.length then unitEnd else unitStart))
    byteBoundary := m.byteBoundary ++ (List.range' 1 encoded.length).map
        (fun i => i == encoded.length)
    lineStartUnits := addLineStart r unitEnd m.lineStartUnits
    lineStartBytes := addLineStart r byteEnd m.lineStartBytes }

/- The runes from a position on are added to the map. -/
def addRunes (m : Utf16SourceMap) (unitPos : Nat) : Utf16SourceMap :=
  if unitPos < source.length then
    addRunes (m.addRune unitPos) (unitPos + (decodeUTF16Rune source unitPos).2)
  else
    m
termination_by source.length - unitPos
decreasing_by
  have hSize := decodeUTF16Rune_size_pos source unitPos
  omega

end Utf16SourceMap

def encodeUTF16ToUTF8WithMap : List UInt8 × Utf16SourceMap :=
  let m := Utf16SourceMap.addRunes source (Utf16SourceMap.initial source) 0
  (m.utf8, m)

namespace Utf16SourceMap

/- The code unit of a byte offset between runes. -/
def byteToUTF16Unit : Option UInt32 :=
  if offset > UInt32.ofNat (m.byteToUnit.length - 1) then
    none
  else if m.byteBoundary[offset.toNat]? = some true then
    m.byteToUnit[offset.toNat]?
  else
    none

/- The byte of a code-unit offset between runes. -/
def utf16UnitToByte : Option UInt32 :=
  if offset > UInt32.ofNat (m.unitToByte.length - 1) then
    none
  else if m.unitBoundary[offset.toNat]? = some true then
    m.unitToByte[offset.toNat]?
  else
    none

/- The last line that starts at the offset or before. -/
def rowOf (starts : List UInt32) (offset : UInt32) : Nat :=
  Search.lowerBound 1 (fun i => (starts[i]?).any (fun start => ¬ start > offset))
      starts.length 0 starts.length - 1

/- The row and the column of an offset. -/
def pointFrom (starts : List UInt32) (offset : UInt32) : Point where
  row := UInt32.ofNat (rowOf starts offset)
  column := offset - starts.getD (rowOf starts offset) 0

def pointForUnit : Option Point :=
  if offset > UInt32.ofNat m.source.length then
    none
  else
    some (pointFrom m.lineStartUnits offset)

def pointForUTF8Byte : Option Point :=
  if offset > UInt32.ofNat m.utf8.length then
    none
  else
    some (pointFrom m.lineStartBytes offset)

end Utf16SourceMap

end GoTreeSitter
