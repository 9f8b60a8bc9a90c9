import GoTreeSitter.Language.Blob
import Mathlib.Logic.Equiv.List

/-
  Blobs are read back, and damaged blobs are refused.

  Key theorems include:
    * `BlobFormat.loadLanguage_refuses_header`
    * `BlobFormat.blob_roundTrip_and_fail_closed`
-/

-- The Map and Its Pairs

namespace GoTreeSitter

open List Codes

variable {data : Bytes}

lemma mem_sortedPairs {m : LargeStateGotos} {k : UInt64} {target : StateID} :
    (k, target) ∈ sortedPairs m ↔ m.get k = some target := by
  unfold sortedPairs
  rw [mem_filterMap]
  constructor
  · rintro ⟨k', _, hPair⟩
    rcases Option.map_eq_some_iff.mp hPair with ⟨target', hGet, hEq⟩
    cases hEq
    exact hGet
  intro hGet
  refine ⟨k, ?_, ?_⟩
  · rw [Finset.mem_sort, m.mem_keys, hGet]
    rfl
  · rw [hGet]
    rfl

lemma pairMap_sortedPairs (m : LargeStateGotos) : pairMap (sortedPairs m) = m := by
  apply Store.PartialMap.ext_get
  intro k
  cases hFound : (pairMap (sortedPairs m)).get k with
  | some target =>
    have hMem := Store.PartialMap.mem_of_get_ofList hFound
    rw [mem_reverse, mem_sortedPairs] at hMem
    exact hMem.symm
  | none =>
    cases hGet : m.get k with
    | none => rfl
    | some target =>
      have hMem : (k, target) ∈ (sortedPairs m).reverse :=
        mem_reverse.mpr (mem_sortedPairs.mpr hGet)
      have hNone := lookup_eq_none_iff.mp hFound (k, target) hMem
      simp at hNone

lemma sortedPairs_ne_nil {m : LargeStateGotos} (hSome : m.keys ≠ ∅) : sortedPairs m ≠ [] := by
  intro hNil
  apply hSome
  apply Finset.eq_empty_of_forall_notMem
  intro k hk
  rcases Option.isSome_iff_exists.mp ((m.mem_keys k).mp hk) with ⟨target, hGet⟩
  have hMem := mem_sortedPairs.mpr hGet
  simp [hNil] at hMem

-- Envelopes

/- What comes before the length of the payload. -/
def envelopeStart : Bytes := languageBlobEnvelopeMagic ++ [0, 1, 0, 1]

lemma wrapLanguageBlobEnvelope_eq {compressed : Bytes}
    (hHeader : compressed.take 2 = [0x1f, 0x8b]) :
    wrapLanguageBlobEnvelope compressed =
      .ok (envelopeStart ++ (Codes.bigEndian 8 compressed.length ++ compressed)) := by
  unfold wrapLanguageBlobEnvelope hasGzipHeader
  rw [if_pos (decide_eq_true hHeader)]
  rfl

lemma envelopeVersion_eq (rest : Bytes) :
    envelopeVersion (envelopeStart ++ rest) = languageBlobEnvelopeVersion := by
  show bigEndianValue [0, 1] = 1
  decide

lemma envelopeFlags_eq (rest : Bytes) :
    envelopeFlags (envelopeStart ++ rest) = languageBlobEnvelopeFlagLargeStateGotosTrailer := by
  show bigEndianValue [0, 1] = 1
  decide

lemma envelopePayloadLength_eq (n : Nat) (payload : Bytes) :
    envelopePayloadLength (envelopeStart ++ (Codes.bigEndian 8 n ++ payload)) = n % 2 ^ 64 := by
  have hTake : (bigEndian 8 n ++ payload).take 8 = bigEndian 8 n :=
    take_left' (length_bigEndian 8 n)
  show bigEndianValue ((bigEndian 8 n ++ payload).take 8) = _
  rw [hTake, bigEndianValue_bigEndian, show (256 : Nat) ^ 8 = 2 ^ 64 by decide]

lemma drop_headerSize (n : Nat) (payload : Bytes) :
    (envelopeStart ++ (Codes.bigEndian 8 n ++ payload)).drop languageBlobEnvelopeHeaderSize =
      payload := drop_left'
    (Codes.length_bigEndian 8 n)

/- An envelope gives back its payload. -/
lemma unwrap_wrap {compressed : Bytes} (hHeader : compressed.take 2 = [0x1f, 0x8b]) :
    unwrapLanguageBlobEnvelope
      (envelopeStart ++ (Codes.bigEndian 8 compressed.length ++ compressed)) =
      .ok (compressed, true) := by
  have hMagic : languageBlobEnvelopeMagic.isPrefixOf
      (envelopeStart ++ (bigEndian 8 compressed.length ++ compressed)) :=
      isPrefixOf_iff_prefix.mpr ⟨_, (append_assoc _ _ _).symm⟩
  have hLength : ¬ (envelopeStart ++ (bigEndian 8 compressed.length ++ compressed)).length <
      languageBlobEnvelopeHeaderSize := by
    rw [length_append, length_append, length_bigEndian]
    show ¬ 12 + (8 + _) < 20
    omega
  unfold unwrapLanguageBlobEnvelope
  rw [hMagic, if_neg (show ¬ true = false by decide), if_neg hLength, if_neg (not_not_intro
    (envelopeVersion_eq _)), if_neg (not_not_intro (envelopeFlags_eq _))]
  rw [drop_headerSize, envelopePayloadLength_eq, if_neg (not_not_intro rfl)]
  unfold hasGzipHeader
  rw [decide_eq_true hHeader, if_neg (show ¬ true = false by decide)]

/- A compressed stream is no envelope. -/
lemma unwrap_of_gzip (hPlain : ¬ languageBlobEnvelopeMagic <+: data) :
    unwrapLanguageBlobEnvelope data = .ok (data, false) := by
  refine if_pos ?_
  rw [Bool.eq_false_iff]
  intro hMagic
  exact hPlain (List.isPrefixOf_iff_prefix.mp hMagic)

lemma not_magic_of_header (hHeader : data.take 2 = [0x1f, 0x8b]) :
    ¬ languageBlobEnvelopeMagic <+: data := by
  rintro ⟨tail, rfl⟩
  exact absurd (List.cons.inj hHeader).1 (by decide)

lemma unwrap_envelope_cases
    (hMagic : languageBlobEnvelopeMagic <+: data) :
    (∃ err, unwrapLanguageBlobEnvelope data = .error err) ∨
      (unwrapLanguageBlobEnvelope data =
        .ok (data.drop languageBlobEnvelopeHeaderSize, true) ∧
        languageBlobEnvelopeHeaderSize ≤ data.length ∧
        envelopeVersion data = languageBlobEnvelopeVersion ∧
        envelopeFlags data = languageBlobEnvelopeFlagLargeStateGotosTrailer ∧
        envelopePayloadLength data =
          (data.drop languageBlobEnvelopeHeaderSize).length % 2 ^ 64) := by
  have hMagic' : languageBlobEnvelopeMagic.isPrefixOf data := isPrefixOf_iff_prefix.mpr hMagic
  unfold unwrapLanguageBlobEnvelope
  rw [hMagic', if_neg (show ¬ true = false by decide)]
  split
  · exact .inl ⟨_, rfl⟩
  split
  · exact .inl ⟨_, rfl⟩
  split
  · exact .inl ⟨_, rfl⟩
  dsimp only
  split
  · exact .inl ⟨_, rfl⟩
  split
  · exact .inl ⟨_, rfl⟩
  rename_i hShort hVersion hFlags hLength _
  exact .inr ⟨rfl, Nat.not_lt.mp hShort, not_not.mp hVersion, not_not.mp hFlags, not_not.mp hLength⟩

-- Trailers

namespace BlobFormat

variable {ρ : Type} (f : BlobFormat ρ) {data rest : Bytes} {lang : BlobLanguage ρ}
  (pairs : List LargeStateGotoPair)

lemma encode_pairs_ne_nil : f.pairs.encode pairs ≠ [] := by
  apply f.pairs.encode_ne_nil (b := (0, 0) :: pairs)
  intro hEq
  exact absurd (congrArg List.length hEq) (by simp)

lemma decodeTrailer_pairs (more : Bytes) :
    f.decodeLargeStateGotosTrailer (f.pairs.encode pairs ++ more) =
      if more ≠ [] then
        .error ("decode large-state-gotos trailer: " ++ s!"{more.length} trailing bytes")
      else if pairs = [] then .ok none else .ok (some (pairMap pairs)) := by
  unfold decodeLargeStateGotosTrailer
  have hSome : f.pairs.encode pairs ++ more ≠ [] := by
    intro hNil
    exact f.encode_pairs_ne_nil pairs (append_eq_nil_iff.mp hNil).1
  rw [if_neg hSome, f.pairs.decode_encode]

lemma loadLanguage_of_parts {compressed raw : Bytes} {expectsTrailer : Bool}
    (hUnwrap : unwrapLanguageBlobEnvelope data = .ok (compressed, expectsTrailer))
    (hRaw : f.gzip.decompress compressed = .ok raw)
    (hLang : f.language.decode raw = some (lang, rest)) :
    f.loadLanguage data = f.readTrailer lang expectsTrailer rest := by
  unfold loadLanguage
  rw [hUnwrap]
  show (f.gzip.decompress compressed).bind _ = _
  rw [hRaw, Except.bind]
  simp [hLang]

/- An envelope must have a trailer with pairs, and no more. -/
lemma readTrailer_enveloped (lang : BlobLanguage ρ)
    (hRest : rest = [] ∨ rest = f.pairs.encode [] ∨
      ∃ pairs more, more ≠ [] ∧ rest = f.pairs.encode pairs ++ more) :
    ∃ err, f.readTrailer lang true rest = .error err := by
  unfold readTrailer
  rcases hRest with rfl | rfl | ⟨pairs, more, hMore, rfl⟩
  · exact ⟨_, rfl⟩
  · rw [← append_nil (f.pairs.encode []), f.decodeTrailer_pairs]
    exact ⟨_, rfl⟩
  · rw [f.decodeTrailer_pairs, if_pos hMore]
    exact ⟨_, rfl⟩

lemma readTrailer_plain (lang : BlobLanguage ρ) {pairs : List LargeStateGotoPair} {more : Bytes}
    (hSome : pairs ≠ [] ∨ more ≠ []) :
    ∃ err, f.readTrailer lang false (f.pairs.encode pairs ++ more) = .error err := by
  unfold readTrailer
  rw [f.decodeTrailer_pairs]
  by_cases hMore : more ≠ []
  · rw [if_pos hMore]
    exact ⟨_, rfl⟩
  have hPairs := hSome.resolve_right hMore
  rw [if_neg hMore, if_neg hPairs]
  exact ⟨_, rfl⟩

-- Blobs

lemma loadLanguage_plain (hNone : lang.largeStateGotos.keys = ∅) :
    ∃ data,
      f.encodeLanguageBlob lang = .ok data ∧
        f.loadLanguage data = .ok lang.inferGeneratedRepeatAuxMetadata := by
  have hTrailer : f.encodeLargeStateGotosTrailer lang.largeStateGotos = [] := if_pos hNone
  unfold encodeLanguageBlob
  rw [hTrailer, if_pos rfl, if_pos hNone, append_nil]
  refine ⟨_, rfl, ?_⟩
  have hPlain := not_magic_of_header (f.gzip.header (f.language.encode lang))
  have hLang := f.language.decode_encode lang []
  rw [append_nil] at hLang
  rw [f.loadLanguage_of_parts (unwrap_of_gzip hPlain) (f.gzip.decompress_compress _) hLang]
  rfl

lemma loadLanguage_enveloped (hSome : lang.largeStateGotos.keys ≠ ∅) :
    ∃ data,
      f.encodeLanguageBlob lang = .ok data ∧
        f.loadLanguage data = .ok lang.inferGeneratedRepeatAuxMetadata := by
  have hTrailer : f.encodeLargeStateGotosTrailer lang.largeStateGotos =
      f.pairs.encode (sortedPairs lang.largeStateGotos) := if_neg hSome
  unfold encodeLanguageBlob
  rw [hTrailer, if_neg (f.encode_pairs_ne_nil _),
    if_neg hSome, wrapLanguageBlobEnvelope_eq (f.gzip.header _)]
  refine ⟨_, rfl, ?_⟩
  rw [f.loadLanguage_of_parts (unwrap_wrap (f.gzip.header _)) (f.gzip.decompress_compress _)
    (f.language.decode_encode _ _)]
  unfold readTrailer
  rw [← append_nil (f.pairs.encode _), f.decodeTrailer_pairs, if_neg (not_not_intro rfl),
    if_neg (sortedPairs_ne_nil hSome), pairMap_sortedPairs]
  rfl

lemma loadLanguage_error_of_unwrap {err : String}
    (hUnwrap : unwrapLanguageBlobEnvelope data = .error err) :
    ∃ err, f.loadLanguage data = .error err := by
  unfold loadLanguage
  rw [hUnwrap]
  exact ⟨_, rfl⟩

lemma loadLanguage_refuses_header
    (hMagic : languageBlobEnvelopeMagic <+: data)
    (hDamaged : data.length < languageBlobEnvelopeHeaderSize ∨
      envelopeVersion data ≠ languageBlobEnvelopeVersion ∨
      envelopeFlags data ≠ languageBlobEnvelopeFlagLargeStateGotosTrailer ∨
      envelopePayloadLength data ≠ (data.drop languageBlobEnvelopeHeaderSize).length % 2 ^ 64) :
    ∃ err, f.loadLanguage data = .error err := by
  rcases unwrap_envelope_cases hMagic with ⟨err, hError⟩ | ⟨_, hLong, hVersion, hFlags, hLength⟩
  · exact f.loadLanguage_error_of_unwrap hError
  rcases hDamaged with h | h | h | h
  · exact absurd hLong (Nat.not_le.mpr h)
  · exact absurd hVersion h
  · exact absurd hFlags h
  · exact absurd hLength h

lemma loadLanguage_refuses_trailer (hMagic : languageBlobEnvelopeMagic <+: data)
    (hRaw : f.gzip.decompress (data.drop languageBlobEnvelopeHeaderSize) =
      .ok (f.language.encode lang ++ rest))
    (hRest : rest = [] ∨ rest = f.pairs.encode [] ∨
      ∃ pairs more, more ≠ [] ∧ rest = f.pairs.encode pairs ++ more) :
    ∃ err, f.loadLanguage data = .error err := by
  rcases unwrap_envelope_cases hMagic with ⟨err, hError⟩ | ⟨hUnwrap, _⟩
  · exact f.loadLanguage_error_of_unwrap hError
  · rw [f.loadLanguage_of_parts hUnwrap hRaw (f.language.decode_encode lang rest)]
    exact f.readTrailer_enveloped lang hRest

-- Round Trip and Refusal

/-
  Every language is read back from its blob, up to the inferred flags. Envelopes with a damaged
  header, or whose trailer is missing, empty or followed by more bytes, are refused, and so are
  plain blobs with pairs in a trailer or with bytes behind it.
-/
theorem blob_roundTrip_and_fail_closed
    (f : BlobFormat ρ) :
    (∀ lang : BlobLanguage ρ, ∃ data,
      f.encodeLanguageBlob lang = .ok data ∧
        f.loadLanguage data = .ok lang.inferGeneratedRepeatAuxMetadata) ∧
      (∀ data : Bytes,
        languageBlobEnvelopeMagic <+: data →
          (data.length < languageBlobEnvelopeHeaderSize ∨
            envelopeVersion data ≠ languageBlobEnvelopeVersion ∨
            envelopeFlags data ≠ languageBlobEnvelopeFlagLargeStateGotosTrailer ∨
            envelopePayloadLength data ≠
              (data.drop languageBlobEnvelopeHeaderSize).length % 2 ^ 64) →
          ∃ err, f.loadLanguage data = .error err) ∧
      (∀ (data rest : Bytes) (lang : BlobLanguage ρ),
        languageBlobEnvelopeMagic <+: data →
          f.gzip.decompress (data.drop languageBlobEnvelopeHeaderSize) =
            .ok (f.language.encode lang ++ rest) →
          (rest = [] ∨ rest = f.pairs.encode [] ∨
            ∃ pairs more, more ≠ [] ∧ rest = f.pairs.encode pairs ++ more) →
          ∃ err, f.loadLanguage data = .error err) ∧
      (∀ (data more : Bytes) (lang : BlobLanguage ρ) (pairs : List LargeStateGotoPair),
        ¬ languageBlobEnvelopeMagic <+: data →
          f.gzip.decompress data =
            .ok (f.language.encode lang ++ (f.pairs.encode pairs ++ more)) →
          (pairs ≠ [] ∨ more ≠ []) → ∃ err, f.loadLanguage data = .error err) := by
  refine ⟨?_, ?_, ?_, ?_⟩
  · intro lang
    by_cases hNone : lang.largeStateGotos.keys = ∅
    · exact f.loadLanguage_plain hNone
    · exact f.loadLanguage_enveloped hNone
  · intro data hMagic hDamaged
    exact f.loadLanguage_refuses_header hMagic hDamaged
  · intro data rest lang hMagic hRaw hRest
    exact f.loadLanguage_refuses_trailer hMagic hRaw hRest
  · intro data more lang pairs hPlain hRaw hSome
    rw [f.loadLanguage_of_parts (unwrap_of_gzip hPlain) hRaw (f.language.decode_encode lang _)]
    exact f.readTrailer_plain lang hSome

/- Numbers in unary, with a mark at the end. -/
def unary (n : Nat) : Bytes := List.replicate n 0 ++ [1]

lemma unambiguous_unary : Codes.Unambiguous unary := by
  apply unambiguous_terminated
  · intro n n' hEq
    simpa using congrArg List.length hEq
  · simp

/- The characters of a text as numbers. -/
def textCode (s : String) : List Nat := s.toList.map Char.toNat

lemma textCode_injective : Function.Injective textCode := by
  intro s s' hEq
  have hChars := map_injective_iff.mpr (fun c c' h => Char.toNat_inj.mp h) hEq
  exact String.toList_inj.mp hChars

def metadataCode (entry : SymbolMetadata) : List Nat × Bool × Bool × Bool × Bool :=
  (textCode entry.name, entry.visible, entry.named, entry.supertype, entry.generatedRepeatAux)

lemma metadataCode_injective : Function.Injective metadataCode := by
  rintro ⟨name, v, n, s, g⟩ ⟨name', v', n', s', g'⟩ hEq
  simp only [metadataCode, Prod.mk.injEq] at hEq
  rcases hEq with ⟨hName, rfl, rfl, rfl, rfl⟩
  rw [textCode_injective hName]

def pairCode (pair : LargeStateGotoPair) : Nat × Nat := (pair.1.toNat, pair.2.toNat)

lemma pairCode_injective : Function.Injective pairCode := by
  rintro ⟨k, target⟩ ⟨k', target'⟩ hEq
  simp only [pairCode, Prod.mk.injEq] at hEq
  rw [UInt64.toNat_inj.mp hEq.1, UInt32.toNat_inj.mp hEq.2]

def languageCode (lang : BlobLanguage Unit) :
    List (List Nat) × List (List Nat × Bool × Bool × Bool × Bool) × Nat × List (Nat × Nat) :=
  (lang.symbolNames.map textCode, lang.symbolMetadata.map metadataCode, lang.tokenCount.toNat,
    (sortedPairs lang.largeStateGotos).map pairCode)

lemma languageCode_injective : Function.Injective languageCode := by
  rintro ⟨names, entries, count, gotos, _⟩ ⟨names', entries', count', gotos', _⟩ hEq
  simp only [languageCode, Prod.mk.injEq] at hEq
  rcases hEq with ⟨hNames, hEntries, hCount, hGotos⟩
  have hPairs := map_injective_iff.mpr pairCode_injective hGotos
  have hMap : gotos = gotos' := by rw [← pairMap_sortedPairs gotos, hPairs, pairMap_sortedPairs]
  rw [map_injective_iff.mpr textCode_injective hNames, map_injective_iff.mpr
    metadataCode_injective hEntries, UInt32.toNat_inj.mp hCount, hMap]

/- A format that counts, and does not compress. -/
noncomputable def unaryFormat : BlobFormat Unit where
  gzip :=
    { compress := fun raw => 0x1f :: 0x8b :: raw
      decompress := fun data => .ok (data.drop 2)
      decompress_compress := fun _ => rfl
      header := fun _ => rfl }
  language := .ofUnambiguous (unambiguous_unary.comp
      (Encodable.encode_injective.comp languageCode_injective))
  pairs := .ofUnambiguous (unambiguous_unary.comp (Encodable.encode_injective.comp
      (map_injective_iff.mpr pairCode_injective)))

/- A language with one goto on the side. -/
def oneGotoLanguage : BlobLanguage Unit where
  symbolNames := ["end", "list_repeat1"]
  symbolMetadata := [{ name := "end" }, {}]
  tokenCount := 1
  largeStateGotos := .ofList [(7, 70000)]
  others := ()

theorem blob_roundTrip_and_fail_closed_oneGoto :
    ∃ data,
      unaryFormat.encodeLanguageBlob oneGotoLanguage = .ok data ∧
        unaryFormat.loadLanguage data = .ok oneGotoLanguage.inferGeneratedRepeatAuxMetadata :=
  (blob_roundTrip_and_fail_closed unaryFormat).1 oneGotoLanguage

/- The language without the goto. -/
def plainLanguage : BlobLanguage Unit := { oneGotoLanguage with largeStateGotos := .empty }

/- A plain blob whose trailer has no pair is accepted. -/
theorem empty_trailer_accepted :
    ∃ (data : Bytes) (lang : BlobLanguage Unit),
      ¬ languageBlobEnvelopeMagic <+: data ∧
        unaryFormat.gzip.decompress data =
          .ok (unaryFormat.language.encode plainLanguage ++ unaryFormat.pairs.encode []) ∧
        unaryFormat.loadLanguage data = .ok lang := by
  have hPlain : ¬ languageBlobEnvelopeMagic <+:
      unaryFormat.gzip.compress
        (unaryFormat.language.encode plainLanguage ++ unaryFormat.pairs.encode []) :=
    not_magic_of_header (unaryFormat.gzip.header _)
  refine ⟨_, plainLanguage.inferGeneratedRepeatAuxMetadata,
    hPlain, unaryFormat.gzip.decompress_compress _, ?_⟩
  rw [unaryFormat.loadLanguage_of_parts (unwrap_of_gzip hPlain)
    (unaryFormat.gzip.decompress_compress _) (unaryFormat.language.decode_encode plainLanguage _)]
  unfold readTrailer
  rw [← append_nil (unaryFormat.pairs.encode []), unaryFormat.decodeTrailer_pairs]
  rfl

end BlobFormat

end GoTreeSitter
