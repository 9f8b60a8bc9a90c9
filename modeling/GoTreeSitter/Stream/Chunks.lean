import Mathlib.Algebra.Order.Ring.Nat
import Mathlib.Data.Nat.Bitwise

/-
  Streams that are written chunk after chunk, and bit fields of 32-bit words.

  Main declarations:
    * `Stream.writeWords`
    * `Stream.ChunkAt`
    * `Stream.chunkAt_foldlM_placed`
    * `Stream.placed_sorted`
    * `Word.toNat_mask`

  A stream is allocated with a filler in every place. Items of known sizes are placed one after the
  other, and each of them is then written over the filler at its own place. In a word, packing a
  field above others is addition, shifting right is division and masking is a remainder.
-/

-- Writing

namespace Stream

open List

variable {α ι ε : Type}

/- A run that succeeds had a first step that succeeded. -/
lemma exists_of_bind_ok {first : Except ε α} {next : α → Except ε ι} {result : ι}
    (hRun : (first >>= next) = .ok result) :
    ∃ a, first = .ok a ∧ next a = .ok result := by
  cases first with
  | error err => cases hRun
  | ok a => exact ⟨a, rfl, hRun⟩

variable {items : List ι}

/- A loop that succeeds succeeds on every item. -/
lemma ok_of_forM_ok {visit : ι → Except ε Unit} (hRun : items.forM visit = .ok ()) {item : ι}
    (hItem : item ∈ items) :
    visit item = .ok () := by
  induction items with
  | nil => cases hItem
  | cons first items ih =>
    rcases exists_of_bind_ok hRun with ⟨_, hFirst, hRest⟩
    rcases mem_cons.mp hItem with rfl | hTail
    · exact hFirst
    · exact ih hRest hTail

/- Store words at consecutive places. -/
def writeWords (stream : List α) (start : Nat) : List α → List α
| [] => stream
| w :: ws => writeWords (stream.set start w) (start + 1) ws

lemma writeWords_over (before old new after : List α) (hLength : old.length = new.length) :
    writeWords (before ++ (old ++ after)) before.length new = before ++ (new ++ after) := by
  induction new generalizing before old with
  | nil =>
    have hOld : old = [] := eq_nil_of_length_eq_zero hLength
    rw [hOld]
    rfl
  | cons w ws ih =>
    cases old with
    | nil => cases hLength
    | cons x xs =>
      have hTail : xs.length = ws.length := Nat.succ.inj hLength
      have hSet : (before ++ (x :: xs ++ after)).set before.length w =
          (before ++ [w]) ++ (xs ++ after) := by simp
      have hNext := ih (before ++ [w]) xs hTail
      rw [length_append] at hNext
      rw [writeWords, hSet]
      exact hNext.trans (by simp)

-- Chunks of a Stream

/- The stream holds the chunk at the place. -/
def ChunkAt (stream : List α) (start : Nat) (chunk : List α) : Prop :=
  ∃ before after : List α, stream = before ++ (chunk ++ after) ∧ before.length = start

namespace ChunkAt

variable {stream chunk : List α} {start : Nat}

/- Reading inside the chunk. -/
lemma getElem?_add {k : Nat} (h : ChunkAt stream start chunk) (hk : k < chunk.length) :
    stream[start + k]? = chunk[k]? := by
  rcases h with ⟨before, after, rfl, rfl⟩
  rw [getElem?_append_right (Nat.le_add_right _ _), Nat.add_sub_cancel_left,
    getElem?_append_left hk]

/- The rest of a chunk is a chunk. -/
lemma drop {rest : List α} (h : ChunkAt stream start (chunk ++ rest)) :
    ChunkAt stream (start + chunk.length) rest := by
  rcases h with ⟨before, after, rfl, rfl⟩
  exact ⟨before ++ chunk, after, by simp, by simp⟩

/- Chunks stay where they are when a stream grows. -/
lemma append (h : ChunkAt stream start chunk) (more : List α) :
    ChunkAt (stream ++ more) start chunk := by
  rcases h with ⟨before, after, rfl, rfl⟩
  exact ⟨before, after ++ more, by simp, rfl⟩

lemma slice (h : ChunkAt stream start chunk) : (stream.drop start).take chunk.length = chunk := by
  rcases h with ⟨before, after, rfl, rfl⟩
  rw [drop_left, take_left]

end ChunkAt

-- Placing Items

variable {size : ι → Nat}

/- Items with their places, one after the other. -/
def placed (size : ι → Nat) : Nat → List ι → List (Nat × ι)
| _, [] => []
| start, item :: items => (start, item) :: placed size (start + size item) items

/- The size of a list of items. -/
def total (size : ι → Nat) (items : List ι) : Nat := (items.map size).sum

@[simp]
lemma total_nil (size : ι → Nat) : total size [] = 0 := rfl

@[simp]
lemma total_cons (size : ι → Nat) (item : ι) (items : List ι) :
    total size (item :: items) = size item + total size items := by
  rw [total, map_cons, sum_cons]
  rfl

lemma placed_bound {start : Nat} {p : Nat × ι} (hMem : p ∈ placed size start items) :
    start ≤ p.1 ∧ p.1 + size p.2 ≤ start + total size items := by
  induction items generalizing start with
  | nil => cases hMem
  | cons item items ih =>
    rw [total_cons]
    rcases mem_cons.mp hMem with rfl | hTail
    · exact ⟨le_rfl, by dsimp only; omega⟩
    · have hBound := ih hTail
      exact ⟨by omega, by omega⟩

lemma placed_sorted (start : Nat) (items : List ι) (hPos : ∀ item ∈ items, 0 < size item) :
    ((placed size start items).map Prod.fst).Pairwise (· < ·) := by
  induction items generalizing start with
  | nil => exact List.Pairwise.nil
  | cons item items ih =>
    rw [placed, map_cons, pairwise_cons]
    constructor
    · intro place hPlace
      rcases mem_map.mp hPlace with ⟨p, hp, rfl⟩
      have hItem := hPos item (mem_cons_self ..)
      have hBound := (placed_bound hp).1
      omega
    · apply ih
      intro other hOther
      exact hPos other (mem_cons_of_mem _ hOther)

/-
  Writing an item replaces the filler at its place by words
  that the item may have, as many as its size says.
-/
def EmitsInPlace (filler : α) (size : ι → Nat) (emit : List α → Nat → ι → Except ε (List α))
    (Rendered : ι → List α → Prop) (items : List ι) : Prop :=
  ∀ item ∈ items, ∀ before after stream : List α, emit (before ++ (List.replicate (size item) filler
      ++ after)) before.length item = .ok stream → ∃ words : List α, Rendered item words ∧
      words.length = size item ∧ stream = before ++ (words ++ after)

/-
  Writing all items one after the other leaves each of them at its place. The induction is on the
  items, with what is already written as the front of the stream.
-/
lemma chunkAt_foldlM_placed
    {filler : α}
    {emit : List α → Nat → ι → Except ε (List α)}
    {Rendered : ι → List α → Prop}
    (hEmit : EmitsInPlace filler size emit Rendered items)
    {before after stream : List α}
    (hRun : (placed size before.length items).foldlM (fun stream p => emit stream p.1 p.2)
      (before ++ (List.replicate (total size items) filler ++ after)) = .ok stream) :
    ∃ written,
      stream = (before ++ written) ++ after ∧ written.length = total size items ∧
        ∀ p ∈ placed size before.length items, ∃ words,
          Rendered p.2 words ∧ ChunkAt (before ++ written) p.1 words := by
  induction items generalizing before with
  | nil =>
    cases hRun
    refine ⟨[], by simp, rfl, ?_⟩
    intro p hp
    cases hp
  | cons item items ih =>
    have hSplit : before ++ (List.replicate (total size (item :: items)) filler ++ after) =
        before ++
          (List.replicate (size item) filler ++
            (List.replicate (total size items) filler ++ after)) := by
        rw [total_cons, ← replicate_append_replicate, append_assoc]
    rw [placed, foldlM_cons, hSplit] at hRun
    cases hStep : emit (before ++ (List.replicate (size item) filler ++ (List.replicate (total size
        items) filler ++ after))) before.length item with
    | error err =>
      rw [hStep] at hRun
      cases hRun
    | ok next =>
      rw [hStep] at hRun
      rcases hEmit item (mem_cons_self ..) _ _ _ hStep with
        ⟨words, hRendered, hWords, hNext⟩
      have hFront :
          next = (before ++ words) ++ (List.replicate (total size items) filler ++ after) := by
        rw [hNext, append_assoc]
      have hPlace : before.length + size item = (before ++ words).length := by
        rw [length_append, hWords]
      have hTail : EmitsInPlace filler size emit Rendered items := by
        intro other hOther
        exact hEmit other (mem_cons_of_mem _ hOther)
      rw [hPlace] at hRun
      rw [hFront] at hRun
      rcases ih hTail hRun with ⟨written, hStream, hLength, hChunks⟩
      rw [append_assoc before] at hStream hChunks
      refine ⟨words ++ written, hStream, ?_, ?_⟩
      · rw [length_append, hWords, hLength, total_cons]
      intro p hp
      rw [placed, hPlace] at hp
      rcases mem_cons.mp hp with rfl | hLater
      · exact ⟨words, hRendered, before, written, rfl, rfl⟩
      · exact hChunks p hLater

end Stream

-- Fields

namespace Word

/-
  A field packed above a lower part adds a multiple of its
  weight, if the lower part stays below and the field fits.
-/
lemma toNat_pack (low high k : UInt32) (hk : k.toNat < 32) (hLow : low.toNat < 2 ^ k.toNat)
    (hFit : high.toNat * 2 ^ k.toNat < 2 ^ 32) :
    (low ||| high <<< k).toNat = low.toNat + high.toNat * 2 ^ k.toNat := by
  rw [UInt32.toNat_or, UInt32.toNat_shiftLeft, Nat.mod_eq_of_lt hk, Nat.shiftLeft_eq,
    Nat.mod_eq_of_lt hFit, Nat.or_comm, ← Nat.shiftLeft_eq, ← Nat.shiftLeft_add_eq_or_of_lt hLow,
    Nat.shiftLeft_eq, add_comm]

lemma toNat_shiftRight (w k : UInt32) (hk : k.toNat < 32) :
    (w >>> k).toNat = w.toNat / 2 ^ k.toNat := by
  rw [UInt32.toNat_shiftRight, Nat.mod_eq_of_lt hk, Nat.shiftRight_eq_div_pow]

lemma toNat_mask (w mask : UInt32) (n : Nat) (hMask : mask.toNat = 2 ^ n - 1) :
    (w &&& mask).toNat = w.toNat % 2 ^ n := by
  rw [UInt32.toNat_and, hMask, Nat.and_two_pow_sub_one_eq_mod]

/- Adding a number that does not overflow. -/
lemma toNat_add_ofNat (w : UInt32) (n : Nat) (hFit : w.toNat + n < 2 ^ 32) :
    (w + UInt32.ofNat n).toNat = w.toNat + n := by
  have hn : n < 2 ^ 32 := lt_of_le_of_lt (Nat.le_add_left n w.toNat) hFit
  rw [UInt32.toNat_add, UInt32.toNat_ofNat_of_lt' hn, Nat.mod_eq_of_lt hFit]

end Word
