import Mathlib.Data.Nat.Bitwise

/-
  Snapshots of the Python scanner and of the tag stack of the HTML scanner.

  Main declarations:
    * `serializePythonScannerState`
    * `BufferSuits`
    * `python_snapshot_exact`
    * `htmlSerializeTags`
    * `html_snapshot_exact`

  The flag of the Python scanner is written only where it is set, so that a buffer in use before
  keeps its first byte. A snapshot of tags has their number twice, then for each tag its type and,
  for a custom one, its name after a length.
-/

-- States and Snapshots

namespace GoTreeSitter.Scanner

open List

structure PythonScannerState where
  indents : List UInt16
  delimiters : List UInt8
  insideInterpolatedString : Bool := false
  deriving DecidableEq

def pyDelimFormat : UInt8 := (1 : UInt8) <<< 4

def isFormat (d : UInt8) : Bool := d &&& pyDelimFormat != 0

def syncInsideInterpolatedString (s : PythonScannerState) : PythonScannerState :=
  { s with insideInterpolatedString := s.delimiters.any isFormat }

/- The flag that is written. -/
def flagOf (s : PythonScannerState) : Bool :=
  (syncInsideInterpolatedString s).insideInterpolatedString

/- The bytes of an indent, the low one first. -/
def indentBytes (v : UInt16) : List UInt8 := [(v &&& 0xFF).toUInt8, ((v >>> 8) &&& 0xFF).toUInt8]

/- What is written over the buffer, item by item while there is room. -/
def writeAll {α : Type} (bytesOf : α → List UInt8) : List α → List UInt8 → List UInt8
  | [], _ => []
  | item :: rest, room =>
    if (bytesOf item).length ≤ room.length then
      bytesOf item ++ writeAll bytesOf rest (room.drop (bytesOf item).length)
    else []

/- The bytes of the buffer that are used afterwards. -/
def serializePythonScannerState (s : PythonScannerState) (buf : List UInt8) : List UInt8 :=
  match buf with
  | [] => []
  | [first] => [if flagOf s then 1 else first]
  | first :: _ :: room =>
    let delimCount := min s.delimiters.length 255
    let delimiters := writeAll (fun d => [d]) (s.delimiters.take delimCount) room
    -- the first indent is a sentinel
    let indents := writeAll indentBytes (s.indents.drop 1) (room.drop delimiters.length)
    (if flagOf s then 1 else first) :: UInt8.ofNat delimCount :: (delimiters ++ indents)

def readIndents : List UInt8 → List UInt16
  | low :: high :: rest => (low.toUInt16 ||| high.toUInt16 <<< 8) :: readIndents rest
  | _ => []

def deserializePythonScannerState (s : PythonScannerState) (buf : List UInt8) :
    PythonScannerState :=
  let s := { s with delimiters := [], indents := [0], insideInterpolatedString := false }
  match buf with
  | [] => s
  | [flag] => { s with insideInterpolatedString := flag != 0 }
  | _ :: count :: body =>
    let s := syncInsideInterpolatedString { s with delimiters := body.take count.toNat }
    { s with indents := s.indents ++ readIndents (body.drop count.toNat) }

-- Exactness

/- The bytes that stand for a state. -/
def encoding (s : PythonScannerState) : List UInt8 :=
  (if flagOf s then 1 else 0) :: UInt8.ofNat s.delimiters.length ::
    (s.delimiters ++ (s.indents.drop 1).flatMap indentBytes)

lemma writeAll_eq {α : Type} (bytesOf : α → List UInt8) (items : List α) (room : List UInt8)
    (hRoom : (items.flatMap bytesOf).length ≤ room.length) :
    writeAll bytesOf items room = items.flatMap bytesOf := by
  induction items generalizing room with
  | nil => rfl
  | cons item items ih =>
    rw [flatMap_cons, length_append] at hRoom
    rw [writeAll, if_pos (by omega), ih _ (by rw [length_drop]; omega), flatMap_cons]

lemma indent_of_bytes (v : UInt16) :
    (v &&& 0xFF).toUInt8.toUInt16 ||| ((v >>> 8) &&& 0xFF).toUInt8.toUInt16 <<< 8 = v := by
  have hMask : ∀ n : Nat, n &&& 255 = n % 2 ^ 8 := fun n => Nat.and_two_pow_sub_one_eq_mod n 8
  have hv := v.toNat_lt
  have hHigh : (v.toNat / 256 % 256) <<< 8 < 65536 := by
    omega
  have hLow : v.toNat % 256 < 2 ^ 8 := by omega
  rw [← UInt16.toNat_inj, UInt16.toNat_or]
  simp [hMask, Nat.shiftRight_eq_div_pow, Nat.mod_eq_of_lt hHigh]
  rw [Nat.or_comm, ← Nat.shiftLeft_add_eq_or_of_lt hLow]
  omega

lemma readIndents_flatMap (indents : List UInt16) :
    readIndents (indents.flatMap indentBytes) = indents := by
  induction indents with
  | nil => rfl
  | cons v indents ih =>
    rw [flatMap_cons, indentBytes, cons_append, cons_append, nil_append, readIndents, ih,
      indent_of_bytes]

lemma length_writeAll_le {α : Type} (bytesOf : α → List UInt8) (items : List α)
    (room : List UInt8) :
    (writeAll bytesOf items room).length ≤ room.length := by
  induction items generalizing room with
  | nil => exact Nat.zero_le _
  | cons item items ih =>
    rw [writeAll]
    split_ifs with hRoom
    · have hRest := ih (room.drop (bytesOf item).length)
      rw [length_drop] at hRest
      rw [length_append]
      omega
    · exact Nat.zero_le _

variable {s : PythonScannerState} {buf : List UInt8}

/- The flag is written or the byte was zero, a byte counts the delimiters, and all have room. -/
structure BufferSuits (s : PythonScannerState) (buf : List UInt8) : Prop where
  clean : flagOf s = true ∨ buf.head? = some 0
  count : s.delimiters.length ≤ 255
  room : (encoding s).length ≤ buf.length

lemma serialize_eq_encoding (hSuits : BufferSuits s buf) :
    serializePythonScannerState s buf = encoding s := by
  have hRoom := hSuits.room
  rcases buf with _ | ⟨first, _ | ⟨_, room⟩⟩
  · cases hRoom
  · simp [encoding] at hRoom
  have hOnly : s.delimiters.flatMap (fun d => [d]) = s.delimiters := flatMap_singleton' _
  have hFits :
      s.delimiters.length + ((s.indents.drop 1).flatMap indentBytes).length ≤ room.length :=
    by simpa [encoding] using hRoom
  have hDelimiters : writeAll (fun d => [d]) s.delimiters room = s.delimiters := by
    rw [writeAll_eq _ _ _ (by rw [hOnly]; omega), hOnly]
  have hIndents := writeAll_eq indentBytes (s.indents.drop 1) (room.drop s.delimiters.length)
    (by rw [length_drop]; omega)
  simp only [serializePythonScannerState, min_eq_left hSuits.count, take_length, hDelimiters,
    hIndents, encoding]
  split_ifs with hFormat
  · rfl
  · rw [Option.some.inj (hSuits.clean.resolve_left hFormat)]

lemma deserialize_encoding
    (hSentinel : s.indents.head? = some 0)
    (hCount : s.delimiters.length ≤ 255)
    (payload : PythonScannerState) :
    deserializePythonScannerState payload (encoding s) = syncInsideInterpolatedString s := by
  have hIndents : s.indents = 0 :: s.indents.drop 1 := by
    cases hCons : s.indents with
    | nil => simp [hCons] at hSentinel
    | cons first rest => simpa [hCons] using hSentinel
  have hNat : (UInt8.ofNat s.delimiters.length).toNat = s.delimiters.length :=
    UInt8.toNat_ofNat_of_lt' (Nat.lt_succ_of_le hCount)
  simp only [encoding, deserializePythonScannerState, hNat, take_left, drop_left,
    readIndents_flatMap, syncInsideInterpolatedString]
  rw [singleton_append, ← hIndents]

/- No more delimiters are read than a byte counts. -/
lemma delimiters_deserialize_le (payload : PythonScannerState) (bytes : List UInt8) :
    (deserializePythonScannerState payload bytes).delimiters.length ≤ 255 := by
  rcases bytes with _ | ⟨first, _ | ⟨count, body⟩⟩
  · exact Nat.zero_le _
  · exact Nat.zero_le _
  · have hCount := count.toNat_lt
    have hTake := length_take_le count.toNat body
    change (body.take count.toNat).length ≤ 255
    omega

/- What is as long as the encoding and starts like it has had room and a clean byte. -/
lemma suits_of_serialize_eq (hSame : serializePythonScannerState s buf = encoding s)
    (hCount : s.delimiters.length ≤ 255) :
    BufferSuits s buf := by
  rcases buf with _ | ⟨first, _ | ⟨second, room⟩⟩
  · cases hSame
  · simp [serializePythonScannerState, encoding] at hSame
  refine ⟨?_, hCount, ?_⟩
  · have hFirst := congrArg head? hSame
    by_cases hFlag : flagOf s
    · exact .inl hFlag
    · simp [serializePythonScannerState, encoding, hFlag] at hFirst
      exact .inr (congrArg some hFirst)
  · have hDelimiters := length_writeAll_le (fun d => [d])
      (s.delimiters.take (min s.delimiters.length 255)) room
    have hIndents := length_writeAll_le indentBytes (s.indents.drop 1) (room.drop
      (writeAll (fun d => [d]) (s.delimiters.take (min s.delimiters.length 255)) room).length)
    rw [length_drop] at hIndents
    rw [← hSame]
    simp only [serializePythonScannerState, length_cons, length_append]
    omega

/- A snapshot is exact, or there is none, just where the buffer is empty or suits the state. -/
theorem python_snapshot_exact
    (hSentinel : s.indents.head? = some 0) :
    (serializePythonScannerState s buf = [] ∨
      (serializePythonScannerState s buf = encoding s ∧
        ∀ payload,
          deserializePythonScannerState payload (serializePythonScannerState s buf) =
            syncInsideInterpolatedString s)) ↔
      buf = [] ∨ BufferSuits s buf := by
  constructor
  · rintro (hNone | ⟨hSame, hRestored⟩)
    · rcases buf with _ | ⟨first, _ | ⟨second, room⟩⟩
      · exact .inl rfl
      · cases hNone
      · cases hNone
    · have hCount := delimiters_deserialize_le s (serializePythonScannerState s buf)
      rw [hRestored s] at hCount
      exact .inr (suits_of_serialize_eq hSame hCount)
  · rintro (rfl | hSuits)
    · exact .inl rfl
    · rw [serialize_eq_encoding hSuits]
      exact .inr ⟨rfl, deserialize_encoding hSentinel hSuits.count⟩

/- Two indents and a format string within a plain one, in a used buffer. -/
theorem python_snapshot_exact_nested :
    serializePythonScannerState ⟨[0, 4, 260], [2, 17], true⟩ [7, 7, 7, 7, 7, 7, 7, 7, 7] =
      [1, 2, 2, 17, 4, 0, 4, 1] ∧
      deserializePythonScannerState ⟨[0, 8], [1], false⟩ [1, 2, 2, 17, 4, 0, 4, 1] =
        ⟨[0, 4, 260], [2, 17], true⟩ := by
  have hSuits : BufferSuits ⟨[0, 4, 260], [2, 17], true⟩ [7, 7, 7, 7, 7, 7, 7, 7, 7] :=
    ⟨.inl rfl, by decide, by decide⟩
  rcases (python_snapshot_exact rfl).mpr (.inr hSuits) with hNone | ⟨hSame, hRestored⟩
  · cases hNone
  · rw [hSame] at hRestored
    exact ⟨hSame, hRestored ⟨[0, 8], [1], false⟩⟩

/- A used buffer keeps its first byte. -/
theorem python_snapshot_keeps_byte :
    serializePythonScannerState ⟨[0], [], false⟩ [7, 7, 7] = [7, 0] ∧
      serializePythonScannerState ⟨[0], [], false⟩ [0, 7, 7] = [0, 0] := by
  decide

end GoTreeSitter.Scanner

-- Tags and Snapshots

namespace GoTreeSitter.Scanner

open List

def htmlTagCustom : UInt8 := 88

def htmlTagInterpolation : UInt8 := 89

structure HtmlTag where
  tagType : UInt8
  customName : List UInt8 := []
  deriving DecidableEq

/- What is written for a tag. -/
def tagBytes (tag : HtmlTag) : List UInt8 :=
  tag.tagType :: if tag.tagType = htmlTagCustom then
    UInt8.ofNat tag.customName.length :: tag.customName else []

/- The low byte of a count, then the high one. -/
def countBytes (count : Nat) : List UInt8 := [UInt8.ofNat count, UInt8.ofNat (count >>> 8)]

def countOf (low high : UInt8) : Nat := low.toNat ||| high.toNat <<< 8

/- The first pass: whether all tags can be written. -/
def htmlTagsFit (room : Nat) : List HtmlTag → Nat → Bool
  | [], _ => true
  | tag :: rest, size =>
    if htmlTagInterpolation < tag.tagType then false
    else if tag.tagType = htmlTagCustom ∧ 255 < tag.customName.length then false
    else if room < size + (tagBytes tag).length then false
    else htmlTagsFit room rest (size + (tagBytes tag).length)

/- The bytes of the buffer that are used afterwards. -/
def htmlSerializeTags (tags : List HtmlTag) (buf : List UInt8) : List UInt8 :=
  if buf.length < 4 ∨ 0xFFFF < tags.length then []
  else if htmlTagsFit buf.length tags 4 then
    countBytes tags.length ++ countBytes tags.length ++ tags.flatMap tagBytes
  else []

/- The validation: what is behind the tags. -/
def skipTags : Nat → List UInt8 → Option (List UInt8)
  | 0, rest => some rest
  | _ + 1, [] => none
  | count + 1, tagType :: rest =>
    if htmlTagInterpolation < tagType then none
    else if tagType = htmlTagCustom then
      match rest with
      | [] => none
      | nameLen :: rest =>
        if rest.length < nameLen.toNat then none else skipTags count (rest.drop nameLen.toNat)
    else skipTags count rest

/- The second pass, over what was let through. -/
def readTags : Nat → List UInt8 → List HtmlTag
  | 0, _ => []
  | _ + 1, [] => []
  | count + 1, tagType :: rest =>
    if tagType = htmlTagCustom then
      match rest with
      | [] => []
      | nameLen :: rest =>
        ⟨tagType, rest.take nameLen.toNat⟩ :: readTags count (rest.drop nameLen.toNat)
    else ⟨tagType, []⟩ :: readTags count rest

/- A snapshot that is rejected gives none. -/
def htmlDeserializeTagsInto (dst : List HtmlTag) (buf : List UInt8) : Option (List HtmlTag) :=
  match buf with
  | low :: high :: low' :: high' :: rest =>
    if countOf low high ≠ countOf low' high' then none
    else if skipTags (countOf low high) rest = some [] then
      some (dst.take 0 ++ readTags (countOf low high) rest)
    else none
  | _ => none

-- Counts

lemma countOf_eq (low high : UInt8) : countOf low high = low.toNat + 256 * high.toNat := by
  have hLow := low.toNat_lt
  rw [countOf, Nat.or_comm, ← Nat.shiftLeft_add_eq_or_of_lt hLow, Nat.shiftLeft_eq]
  omega

lemma countBytes_countOf (low high : UInt8) : countBytes (countOf low high) = [low, high] := by
  have hLow := low.toNat_lt
  have hHigh := high.toNat_lt
  simp [countOf_eq, countBytes, ← UInt8.toNat_inj, Nat.shiftRight_eq_div_pow]
  omega

lemma countOf_countBytes (count : Nat) (hCount : count ≤ 0xFFFF) :
    countOf (UInt8.ofNat count) (UInt8.ofNat (count >>> 8)) = count := by
  rw [countOf_eq, UInt8.toNat_ofNat', UInt8.toNat_ofNat', Nat.shiftRight_eq_div_pow]
  omega

-- Exactness

/- A tag that can be written. -/
def Writable (tag : HtmlTag) : Prop := ¬ htmlTagInterpolation < tag.tagType ∧
  ¬ (tag.tagType = htmlTagCustom ∧ 255 < tag.customName.length)

/- The first pass lets through what can be written. -/
lemma htmlTagsFit_iff {room size : Nat} (hSize : size ≤ room) (tags : List HtmlTag) :
    htmlTagsFit room tags size ↔
      (∀ tag ∈ tags, Writable tag) ∧ size + (tags.flatMap tagBytes).length ≤ room := by
  induction tags generalizing size with
  | nil => simpa [htmlTagsFit] using hSize
  | cons tag rest ih =>
    rw [forall_mem_cons, flatMap_cons, length_append, ← Nat.add_assoc, Writable, htmlTagsFit]
    by_cases hType : htmlTagInterpolation < tag.tagType
    · simp [hType]
    by_cases hName : tag.tagType = htmlTagCustom ∧ 255 < tag.customName.length
    · simp [hName]
    rw [if_neg hType, if_neg hName]
    split_ifs with hRoom
    · simp
      omega
    · rw [ih (by omega)]
      simp [hType, hName]

/- The passes of the decoder over what is written. -/
lemma passes_flatMap {tags : List HtmlTag} (hTags : ∀ tag ∈ tags, Writable tag)
    (hNamed : ∀ tag ∈ tags, tag.tagType ≠ htmlTagCustom → tag.customName = []) :
    skipTags tags.length (tags.flatMap tagBytes) = some [] ∧
      readTags tags.length (tags.flatMap tagBytes) = tags := by
  induction tags with
  | nil => exact ⟨rfl, rfl⟩
  | cons tag rest ih =>
    rcases forall_mem_cons.mp hTags with ⟨⟨hType, hLong⟩, hRest⟩
    rcases forall_mem_cons.mp hNamed with ⟨hName, hNames⟩
    rcases ih hRest hNames with ⟨hSkip, hRead⟩
    rw [flatMap_cons, length_cons, tagBytes, cons_append]
    unfold skipTags readTags
    rw [if_neg hType]
    rcases tag with ⟨tagType, name⟩
    by_cases hCustom : tagType = htmlTagCustom
    · have hLen : (UInt8.ofNat name.length).toNat = name.length :=
        UInt8.toNat_ofNat_of_lt' (Nat.lt_succ_of_le (not_lt.mp fun h => hLong ⟨hCustom, h⟩))
      simp [hCustom, hLen, hSkip, hRead]
    · have hEmpty : name = [] := hName hCustom
      simp [hCustom, hEmpty, hSkip, hRead]

/- What the validation lets through is what is written. -/
lemma flatMap_readTags {count : Nat} {bytes : List UInt8} (hSkip : skipTags count bytes = some []) :
    (readTags count bytes).length = count ∧ (readTags count bytes).flatMap tagBytes = bytes ∧
      ∀ tag ∈ readTags count bytes, Writable tag := by
  induction count generalizing bytes with
  | zero => simp [Option.some.inj hSkip, readTags]
  | succ count ih =>
    cases bytes with
    | nil => cases hSkip
    | cons tagType rest =>
      unfold skipTags at hSkip
      unfold readTags
      split at hSkip
      · cases hSkip
      rename_i hType
      split_ifs at hSkip with hCustom
      · cases rest with
        | nil => cases hSkip
        | cons nameLen rest =>
          dsimp only at hSkip ⊢
          split at hSkip
          · cases hSkip
          rcases ih hSkip with ⟨hLength, hBytes, hTags⟩
          have hNat := nameLen.toNat_lt
          have hTake : (rest.take nameLen.toNat).length = nameLen.toNat :=
            length_take_of_le (by omega)
          rw [if_pos hCustom]
          refine ⟨by simp [hLength], ?_, forall_mem_cons.mpr ⟨⟨hType, ?_⟩, hTags⟩⟩
          · simp [tagBytes, hCustom, hTake, hBytes]
          · rw [hTake]
            omega
      · rcases ih hSkip with ⟨hLength, hBytes, hTags⟩
        rw [if_neg hCustom]
        refine ⟨by simp [hLength], ?_, forall_mem_cons.mpr ⟨⟨hType, ?_⟩, hTags⟩⟩
        · simp [tagBytes, hCustom, hBytes]
        · exact fun h => hCustom h.1

/-
  A stack that is written is read back, and bytes that are
  read are those that are written for their stack.
-/
theorem html_snapshot_exact :
    (∀ tags : List HtmlTag,
      (∀ tag ∈ tags, tag.tagType ≠ htmlTagCustom → tag.customName = []) →
        ∀ buf dst,
          htmlSerializeTags tags buf = [] ∨
            htmlDeserializeTagsInto dst (htmlSerializeTags tags buf) = some tags) ∧
      ∀ bytes dst tags,
        htmlDeserializeTagsInto dst bytes = some tags →
          ∀ buf : List UInt8, bytes.length ≤ buf.length → htmlSerializeTags tags buf = bytes := by
  refine ⟨fun tags hNamed buf dst => ?_, fun bytes dst tags hRead buf hRoom => ?_⟩
  · unfold htmlSerializeTags
    split
    · exact .inl rfl
    split
    · rename_i hShort hFit
      have hTags := ((htmlTagsFit_iff (by omega) tags).mp hFit).1
      rcases passes_flatMap hTags hNamed with ⟨hSkip, hRead⟩
      have hCount := countOf_countBytes tags.length (by omega)
      simp [countBytes, htmlDeserializeTagsInto, hCount, hSkip, hRead]
    · exact .inl rfl
  unfold htmlDeserializeTagsInto at hRead
  split at hRead
  · rename_i low high low' high' rest
    split at hRead
    · cases hRead
    split at hRead
    · rename_i hSame hSkip
      rcases flatMap_readTags hSkip with ⟨hLength, hBytes, hTags⟩
      cases hRead
      have hTwice := countBytes_countOf low' high'
      rw [← not_not.mp hSame, countBytes_countOf] at hTwice
      have hLow := low.toNat_lt
      have hHigh := high.toNat_lt
      have hCount := countOf_eq low high
      rw [← hBytes] at hRoom
      simp only [length_cons] at hRoom
      rw [take_zero, nil_append, htmlSerializeTags, if_neg (by omega), if_pos ((htmlTagsFit_iff (by
        omega) _).mpr ⟨hTags, by omega⟩), hLength, hBytes, countBytes_countOf]
      simpa using hTwice
    · cases hRead
  · cases hRead

/- A stack with a custom tag in a buffer that just fits. -/
theorem html_snapshot_exact_custom :
    htmlDeserializeTagsInto []
      (htmlSerializeTags [⟨htmlTagCustom, [88]⟩] [7, 7, 7, 7, 7, 7, 7]) =
      some [⟨htmlTagCustom, [88]⟩] :=
  (html_snapshot_exact.1 [⟨htmlTagCustom, [88]⟩] (by decide) [7, 7, 7, 7, 7, 7, 7]
    []).resolve_left (by decide)

end GoTreeSitter.Scanner
