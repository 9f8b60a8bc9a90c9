import GoTreeSitter.Search.Sorted
import GoTreeSitter.Text.Position
import Mathlib.Data.List.Induction

/-
  Positions from the starts of lines, and cuts of two texts into parts that belong together.

  Main declarations:
    * `Text.Cuts`
    * `Text.lineStarts`
    * `Text.lineAt`
    * `Text.Cuts.lt_iff`
    * `Text.Cuts.eq_of_fst`
    * `Text.lineAt_eq`

  A cut is an offset of the first text with an offset of the second one. Between two cuts both texts
  have letters, so each offset of a cut tells the other one. The line of an offset is found by a
  search among the starts of lines. It is the row that reading the text up to the offset leads to,
  and the column is what is left.
-/

namespace Text

open List

/- Cuts of texts with `m` and with `n` letters. -/
structure Cuts (cuts : List (Nat × Nat)) (m n : Nat) : Prop where
  order : cuts.Pairwise (fun a b => a.1 < b.1 ∧ a.2 < b.2)
  start : (0, 0) ∈ cuts
  finish : (m, n) ∈ cuts
  bound : ∀ cut ∈ cuts, cut.1 ≤ m ∧ cut.2 ≤ n

namespace Cuts

variable {a b : Nat × Nat}

/- Texts without letters have one cut. -/
lemma nil : Cuts [(0, 0)] 0 0 where
  order := pairwise_singleton _ _
  start := mem_singleton_self _
  finish := mem_singleton_self _
  bound := by
    intro cut hMem
    rw [mem_singleton.mp hMem]
    exact ⟨Nat.le_refl 0, Nat.le_refl 0⟩

variable {cuts : List (Nat × Nat)} {m n : Nat}

/- Letters at the ends of both texts make a new cut. -/
lemma snoc (hCuts : Cuts cuts m n) {k l : Nat} (hk : 0 < k) (hl : 0 < l) :
    Cuts (cuts ++ [(m + k, n + l)]) (m + k) (n + l) where
  order := by
    refine pairwise_append.mpr ⟨hCuts.order, pairwise_singleton _ _, ?_⟩
    intro a ha b hb
    rw [mem_singleton.mp hb]
    have hBound := hCuts.bound a ha
    exact ⟨by dsimp only; omega, by dsimp only; omega⟩
  start := mem_append_left _ hCuts.start
  finish := mem_append_right _ (mem_singleton_self _)
  bound := by
    intro cut hMem
    rcases mem_append.mp hMem with hMem | hMem
    · have hBound := hCuts.bound cut hMem
      omega
    · rw [mem_singleton.mp hMem]
      exact ⟨Nat.le_refl _, Nat.le_refl _⟩

variable (hCuts : Cuts cuts m n) (ha : a ∈ cuts) (hb : b ∈ cuts)

include hCuts ha hb

/- Two cuts are equal or in order. -/
lemma compare : a = b ∨ (a.1 < b.1 ∧ a.2 < b.2) ∨ (b.1 < a.1 ∧ b.2 < a.2) := by
  rcases mem_iff_getElem.mp ha with ⟨i, hi, rfl⟩
  rcases mem_iff_getElem.mp hb with ⟨j, hj, rfl⟩
  have hOrder := pairwise_iff_getElem.mp hCuts.order
  rcases Nat.lt_trichotomy i j with hLt | rfl | hGt
  · exact .inr (.inl (hOrder i j hi hj hLt))
  · exact .inl rfl
  · exact .inr (.inr (hOrder j i hj hi hGt))

lemma eq_of_fst (hSame : a.1 = b.1) : a = b := by
  rcases hCuts.compare ha hb with hEq | hLt | hGt
  · exact hEq
  · omega
  · omega

/- Cuts are in the same order in both texts. -/
lemma lt_iff : a.1 < b.1 ↔ a.2 < b.2 := by
  rcases hCuts.compare ha hb with rfl | hLt | hGt
  · omega
  · omega
  · omega

end Cuts

-- Starts of Lines

open Position

variable {α : Type} [DecidableEq α]

/- The offsets after line breaks, from an offset on. -/
def breaksFrom (nl : α) : Nat → List α → List Nat
  | _, [] => []
  | start, c :: rest =>
    if c = nl then
      (start + 1) :: breaksFrom nl (start + 1) rest
    else
      breaksFrom nl (start + 1) rest

/- The start of the text and the offsets after breaks. -/
def lineStarts (nl : α) (text : List α) : List Nat := 0 :: breaksFrom nl 0 text

lemma breaksFrom_append (nl : α) (start : Nat) (first second : List α) :
    breaksFrom nl start (first ++ second) =
      breaksFrom nl start first ++ breaksFrom nl (start + first.length) second := by
  induction first generalizing start with
  | nil => rfl
  | cons c rest ih =>
    have hLength : start + (c :: rest).length = start + 1 + rest.length := by
      rw [length_cons]
      omega
    rw [cons_append, breaksFrom, breaksFrom, ih, hLength]
    split
    · rfl
    · rfl

lemma lineStarts_append (nl : α) (first second : List α) :
    lineStarts nl (first ++ second) = lineStarts nl first ++ breaksFrom nl first.length second := by
  unfold lineStarts
  rw [breaksFrom_append, zero_add, cons_append]

lemma lt_of_mem_breaksFrom {nl : α} {start offset : Nat} {text : List α}
    (hMem : offset ∈ breaksFrom nl start text) :
    start < offset ∧ offset ≤ start + text.length := by
  induction text generalizing start with
  | nil => cases hMem
  | cons c rest ih =>
    rw [breaksFrom] at hMem
    rw [length_cons]
    split at hMem
    · rcases mem_cons.mp hMem with rfl | hMem
      · omega
      · have hRest := ih hMem
        omega
    · have hRest := ih hMem
      omega

/-
  After reading a text there is a start for each row, and the
  last one is a column away from the end.
-/
lemma lineStarts_read (nl : α) (text : List α) :
    (lineStarts nl text).length = (advance nl origin text).row + 1 ∧
      (advance nl origin text).column ≤ text.length ∧
      (lineStarts nl text)[(advance nl origin text).row]? =
        some (text.length - (advance nl origin text).column) := by
  induction text using List.reverseRecOn with
  | nil => exact ⟨rfl, le_refl 0, rfl⟩
  | append_singleton first c ih =>
    rcases ih with ⟨hLength, hColumn, hLast⟩
    have hEnd : (first ++ [c]).length = first.length + 1 := by rw [length_append, length_singleton]
    have hStep : advance nl (advance nl origin first) [c] = step nl (advance nl origin first) c :=
        rfl
    rw [advance_append, lineStarts_append, hEnd, hStep]
    unfold step
    by_cases hBreak : c = nl
    · have hNew : breaksFrom nl first.length [c] = [first.length + 1] := by
        rw [breaksFrom, if_pos hBreak, breaksFrom]
      rw [hNew, if_pos hBreak]
      refine ⟨?_, Nat.zero_le _, ?_⟩
      · rw [length_append, hLength]
        rfl
      dsimp only
      rw [getElem?_append_right (by omega), hLength, Nat.sub_self]
      rfl
    · have hNone : breaksFrom nl first.length [c] = [] := by
        rw [breaksFrom, if_neg hBreak, breaksFrom]
      rw [hNone, append_nil, if_neg hBreak]
      refine ⟨hLength, Nat.succ_le_succ hColumn, ?_⟩
      dsimp only
      rw [hLast]
      congr 1
      omega

-- Lines of Offsets

open Search

/-
  The line of an offset: one before the first start that is
  past the offset, and the first line if there is none.
-/
def lineAt (starts : List Nat) (offset : Nat) : Nat := lowerBound 1 (fun i => (starts[i]?).any (fun
    start => start ≤ offset)) starts.length 0 starts.length - 1

variable {nl : α} {text : List α} {offset : Nat}

lemma lineStarts_split (nl : α) {text : List α} {offset : Nat} (hOffset : offset ≤ text.length) :
    lineStarts nl text =
      lineStarts nl (text.take offset) ++ breaksFrom nl offset (text.drop offset) := by
  have hLength : (text.take offset).length = offset := length_take_of_le (by omega)
  have hSplit := lineStarts_append nl (text.take offset) (text.drop offset)
  rw [take_append_drop, hLength] at hSplit
  exact hSplit

lemma lineStarts_getElem (hOffset : offset ≤ text.length) :
    (lineStarts nl text)[(positionAt nl text offset).row]? =
      some (offset - (positionAt nl text offset).column) := by
  rcases lineStarts_read nl (text.take offset) with ⟨hCount, _, hLast⟩
  have hLength : (text.take offset).length = offset := length_take_of_le (by omega)
  rw [hLength] at hLast
  rw [lineStarts_split nl hOffset, positionAt, getElem?_append_left (by omega)]
  exact hLast

/- The search finds the row of an offset. -/
lemma lineAt_eq (hOffset : offset ≤ text.length) :
    lineAt (lineStarts nl text) offset = (positionAt nl text offset).row := by
  have hLength : (text.take offset).length = offset := length_take_of_le (by omega)
  rcases lineStarts_read nl (text.take offset) with ⟨hCount, _, _⟩
  change _ = (positionAt nl text offset).row + 1 at hCount
  have hSplit := lineStarts_split nl hOffset
  have hTotal := congrArg List.length hSplit
  rw [length_append] at hTotal
  have hFound := @lowerBound_eq 1 Nat.one_pos (fun i => ((lineStarts nl text)[i]?).any (fun start =>
      start ≤ offset)) ((positionAt nl text offset).row + 1) (lineStarts nl text).length 0
      (lineStarts nl text).length
  simp only [one_mul, mul_zero] at hFound
  unfold lineAt
  rw [hFound ?_ ?_ (Nat.zero_le _) (by omega) (by omega)]
  · rfl
  · intro j hj
    have hIn : j < (lineStarts nl (text.take offset)).length := by omega
    rw [hSplit, getElem?_append_left hIn, getElem?_eq_getElem hIn]
    refine decide_eq_true ?_
    have hMem := getElem_mem hIn
    rcases mem_cons.mp hMem with hZero | hBreak
    · omega
    have hBound := (lt_of_mem_breaksFrom hBreak).2
    rw [hLength, zero_add] at hBound
    exact hBound
  · intro j hj hEnd
    have hPast : (lineStarts nl (text.take offset)).length ≤ j := by omega
    have hIn : j - (lineStarts nl (text.take offset)).length <
        (breaksFrom nl offset (text.drop offset)).length := by omega
    rw [hSplit, getElem?_append_right hPast, getElem?_eq_getElem hIn]
    refine decide_eq_false ?_
    have hBound := (lt_of_mem_breaksFrom (getElem_mem hIn)).1
    omega

end Text
