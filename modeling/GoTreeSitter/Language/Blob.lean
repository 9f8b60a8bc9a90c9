import GoTreeSitter.Codes.Prefix
import GoTreeSitter.Store.PartialMap
import GoTreeSitter.Language.Table
import Mathlib.Data.Finset.Sort

/-
  Language blobs.

  Key definitions include:
    * `Gzip` and `BlobFormat`
    * `encodeLargeStateGotosTrailer`

  Values are taken up to the difference between empty and
  nil, which the message format does not keep.
-/

-- Languages

namespace GoTreeSitter

structure SymbolMetadata where
  name : String := ""
  visible : Bool := false
  named : Bool := false
  supertype : Bool := false
  generatedRepeatAux : Bool := false
  deriving DecidableEq

abbrev LargeStateGotos : Type := Store.PartialMap UInt64 StateID

/- The exported fields of a language: those that loading reads or changes, and the others. -/
structure BlobLanguage (ρ : Type) where
  symbolNames : List String
  symbolMetadata : List SymbolMetadata
  tokenCount : UInt32
  largeStateGotos : LargeStateGotos
  others : ρ

/- The place of the last occurrence of a text. -/
def lastIndex (text pattern : List Char) : Option Nat :=
  (List.range (text.length + 1)).reverse.find? fun i => pattern.isPrefixOf (text.drop i)

def isGeneratedRepeatAuxSymbolName (name : String) : Bool :=
  match lastIndex name.toList "_repeat".toList with
  | none => false
  | some 0 => false
  | some idx =>
    let digits :=
      name.toList.drop (idx + "_repeat".toList.length)
    !digits.isEmpty && digits.all fun c => '0' ≤ c && c ≤ '9'

namespace BlobLanguage

variable {ρ : Type}

/- The metadata of one symbol, with the flag if it is inferred. -/
def inferGeneratedRepeatAux (lang : BlobLanguage ρ) (i : Nat) (entry : SymbolMetadata) :
    SymbolMetadata :=
  if entry.generatedRepeatAux || entry.visible || entry.named || entry.supertype then entry
  else if lang.tokenCount > 0 ∧ UInt32.ofNat i < lang.tokenCount then entry
  else
    let name :=
      if entry.name = "" then (lang.symbolNames[i]?).getD ""
      else entry.name
    if isGeneratedRepeatAuxSymbolName name then
      { entry with generatedRepeatAux := true }
    else entry

def inferGeneratedRepeatAuxMetadata (lang : BlobLanguage ρ) : BlobLanguage ρ :=
  { lang with
      symbolMetadata := lang.symbolMetadata.mapIdx lang.inferGeneratedRepeatAux }

end BlobLanguage

-- Envelopes

abbrev Bytes : Type := List UInt8

variable (data : Bytes)

def languageBlobEnvelopeMagic : Bytes := [0x47, 0x54, 0x53, 0x42, 0x4c, 0x4f, 0x42, 0]

def languageBlobEnvelopeVersionOffset : Nat := languageBlobEnvelopeMagic.length

def languageBlobEnvelopeFlagsOffset : Nat := languageBlobEnvelopeVersionOffset + 2

def languageBlobEnvelopePayloadLengthOffset : Nat := languageBlobEnvelopeFlagsOffset + 2

def languageBlobEnvelopeHeaderSize : Nat := languageBlobEnvelopePayloadLengthOffset + 8

def languageBlobEnvelopeVersion : Nat := 1

def languageBlobEnvelopeFlagLargeStateGotosTrailer : Nat := 1

def hasGzipHeader : Bool := decide (data.take 2 = [0x1f, 0x8b])

/- The number in some bytes of the data. -/
def numberAt (start stop : Nat) : Nat :=
  Codes.bigEndianValue ((data.drop start).take (stop - start))

def envelopeVersion : Nat := numberAt data languageBlobEnvelopeVersionOffset
    languageBlobEnvelopeFlagsOffset

def envelopeFlags : Nat := numberAt data languageBlobEnvelopeFlagsOffset
    languageBlobEnvelopePayloadLengthOffset

def envelopePayloadLength : Nat :=
  numberAt data languageBlobEnvelopePayloadLengthOffset languageBlobEnvelopeHeaderSize

def wrapLanguageBlobEnvelope (compressed : Bytes) : Except String Bytes :=
  if hasGzipHeader compressed then
    .ok (languageBlobEnvelopeMagic ++ Codes.bigEndian 2 languageBlobEnvelopeVersion ++
      Codes.bigEndian 2 languageBlobEnvelopeFlagLargeStateGotosTrailer ++
      Codes.bigEndian 8 compressed.length ++ compressed)
  else
    .error ("wrap language blob envelope: payload is not " ++ "gzip data")

/- The payload, and whether it must have a trailer. -/
def unwrapLanguageBlobEnvelope : Except String (Bytes × Bool) :=
  if languageBlobEnvelopeMagic.isPrefixOf data = false then
    .ok (data, false)
  else if data.length < languageBlobEnvelopeHeaderSize then
    .error ("unwrap language blob envelope: truncated " ++ s!"header: got {data.length} bytes, " ++
      s!"need {languageBlobEnvelopeHeaderSize}")
  else if envelopeVersion data ≠ languageBlobEnvelopeVersion then
    .error ("unwrap language blob envelope: unsupported " ++ s!"version {envelopeVersion data}")
  else if envelopeFlags data ≠ languageBlobEnvelopeFlagLargeStateGotosTrailer then
    .error ("unwrap language blob envelope: unsupported " ++ "flags 0x" ++ String.ofList
      (Nat.toDigits 16 (envelopeFlags data)))
  else
    let payload := data.drop languageBlobEnvelopeHeaderSize
    -- lengths are compared as 64-bit numbers
    if envelopePayloadLength data ≠ payload.length % 2 ^ 64 then
      .error ("unwrap language blob envelope: payload " ++
        s!"length = {envelopePayloadLength data}, " ++ s!"actual = {payload.length}")
    else if hasGzipHeader payload = false then
      .error ("unwrap language blob envelope: payload is " ++ "not gzip data")
    else .ok (payload, true)

-- Blobs

abbrev LargeStateGotoPair : Type := UInt64 × StateID

/- Compression; what is read back is the whole stream. -/
structure Gzip where
  compress : Bytes → Bytes
  decompress : Bytes → Except String Bytes
  decompress_compress : ∀ raw : Bytes, decompress (compress raw) = .ok raw
  header : ∀ raw : Bytes, (compress raw).take 2 = [0x1f, 0x8b]

/- Compression, and messages for languages and for pairs. -/
structure BlobFormat (ρ : Type) where
  gzip : Gzip
  language : Codes.Message UInt8 (BlobLanguage ρ)
  pairs : Codes.Message UInt8 (List LargeStateGotoPair)

/- The entries of the map by key. -/
def sortedPairs (m : LargeStateGotos) : List LargeStateGotoPair :=
  (m.keys.sort (· ≤ ·)).filterMap fun k =>
    (m.get k).map fun target => (k, target)

/- Later entries of a key overwrite earlier ones. -/
def pairMap (pairs : List LargeStateGotoPair) : LargeStateGotos :=
  Store.PartialMap.ofList pairs.reverse

namespace BlobFormat

variable {ρ : Type} (f : BlobFormat ρ)

/- No bytes for an empty map. -/
def encodeLargeStateGotosTrailer (m : LargeStateGotos) : Bytes :=
  if m.keys = ∅ then [] else f.pairs.encode (sortedPairs m)

/- No map where nothing or no pair follows. -/
def decodeLargeStateGotosTrailer (rest : Bytes) : Except String (Option LargeStateGotos) :=
  if rest = [] then .ok none
  else
    match f.pairs.decode rest with
    | none => .error "decode large-state-gotos trailer"
    | some (pairs, more) =>
      if more ≠ [] then
        .error ("decode large-state-gotos trailer: " ++ s!"{more.length} trailing bytes")
      else if pairs = [] then .ok none
      else .ok (some (pairMap pairs))

def encodeLanguageBlob (lang : BlobLanguage ρ) : Except String Bytes :=
  let trailer := f.encodeLargeStateGotosTrailer lang.largeStateGotos
  let toEncode :=
    if lang.largeStateGotos.keys = ∅ then lang
    else { lang with largeStateGotos := .empty }
  let out := f.gzip.compress (f.language.encode toEncode ++ trailer)
  if trailer = [] then .ok out
  else
    (wrapLanguageBlobEnvelope out).mapError ("finalize language blob: " ++ ·)

/- The language with the map of its trailer. -/
def attachTrailer (lang : BlobLanguage ρ) (expectsTrailer : Bool)
    (trailer : Option LargeStateGotos) : Except String (BlobLanguage ρ) :=
  match trailer, expectsTrailer with
  | none, true =>
    .error ("decode language: envelope requires a " ++ "non-empty large-state-gotos trailer")
  | some _, false =>
    .error ("decode language: large-state-gotos " ++ "trailer requires a versioned envelope")
  | some m, true => .ok { lang with largeStateGotos := m }
  | none, false => .ok lang

/- What follows the message of the language is its trailer. -/
def readTrailer (lang : BlobLanguage ρ) (expectsTrailer : Bool) (rest : Bytes) :
    Except String (BlobLanguage ρ) := do
  let trailer ← (f.decodeLargeStateGotosTrailer rest).mapError ("decode language: " ++ ·)
  let lang ← attachTrailer lang expectsTrailer trailer
  .ok lang.inferGeneratedRepeatAuxMetadata

def loadLanguage : Except String (BlobLanguage ρ) := do
  let (compressed, expectsTrailer) ← (unwrapLanguageBlobEnvelope data).mapError
      ("decode language: " ++ ·)
  let raw ← f.gzip.decompress compressed
  match f.language.decode raw with
  | none => .error "decode language"
  | some (lang, rest) => f.readTrailer lang expectsTrailer rest

end BlobFormat

end GoTreeSitter
