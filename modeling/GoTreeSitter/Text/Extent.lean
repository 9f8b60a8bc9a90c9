import GoTreeSitter.Text.Position

/-
  Extents of a text under the replacement of one range, and the text of several extents.

  Main declarations:
    * `Text.Extent.shift`
    * `Text.slice_splice_after`
    * `Text.positionAt_splice_shift`
    * `Text.joined`
    * `Text.joined_clip`

  The range from `a` up to `b` is replaced by a text that ends at `c`. An extent outside the range
  is kept or shifted; the ends of one that meets it are clamped to the end of the new text.
  `joinedOffset` maps a position of the text to the number of letters of the extents in front of it.
-/

-- Extents

namespace Text

/- A start and a stop offset. -/
structure Extent where
  start : Nat
  stop : Nat
deriving DecidableEq

namespace Extent

variable (a b c : Nat) (x : Extent)

/- The extent is not reversed. -/
def Valid : Prop := x.start ≤ x.stop

/- The extent lies inside another one. -/
def Inside (y : Extent) : Prop := y.start ≤ x.start ∧ x.stop ≤ y.stop

/- The extent reaches into the range on both sides. -/
def Meets : Prop := a < x.stop ∧ x.start < b

instance (x : Extent) : Decidable x.Valid := by
  unfold Valid
  infer_instance

instance (x y : Extent) : Decidable (x.Inside y) := by
  unfold Inside
  infer_instance

/- An extent behind the range, moved with the text. -/
def shift : Extent where
  start := x.start - b + c
  stop := x.stop - b + c

/- An extent that meets the range, with clamped ends. -/
def clamp : Extent where
  start := if a < x.start then c else x.start
  stop := if x.stop ≤ b then c else x.stop - b + c

/- The extent after the replacement. -/
def move : Extent :=
  if x.stop ≤ a then
    x
  else if b ≤ x.start then
    x.shift b c
  else
    x.clamp a b c

variable {a b c : Nat} {x y : Extent}

/- Extents in front of the range are kept. -/
lemma move_of_stop_le (hStop : x.stop ≤ a) : move a b c x = x := by rw [move, if_pos hStop]

/- Extents behind the range are shifted. -/
lemma move_of_le_start (hStop : ¬ x.stop ≤ a) (hStart : b ≤ x.start) :
    move a b c x = x.shift b c := by rw [move, if_neg hStop, if_pos hStart]

lemma move_of_meets (hMeets : x.Meets a b) : move a b c x = x.clamp a b c := by
  rw [move, if_neg (Nat.not_le.mpr hMeets.1), if_neg (Nat.not_le.mpr hMeets.2)]

lemma shift_le_shift {m n : Nat} (hOrder : m ≤ n) : m - b + c ≤ n - b + c := by omega

lemma shift_valid (hx : x.Valid) : (x.shift b c).Valid := shift_le_shift hx

lemma shift_inside_shift (hInside : x.Inside y) : (x.shift b c).Inside (y.shift b c) :=
  ⟨shift_le_shift hInside.1, shift_le_shift hInside.2⟩

lemma clamp_valid (hb : a ≤ c) (hMeets : x.Meets a b) : (x.clamp a b c).Valid := by
  have hStop := hMeets.1
  unfold Valid clamp
  dsimp only
  split <;> split <;> omega

lemma move_le_move (hac : a ≤ c) (hx : x.Valid) (hy : y.Valid) (hOrder : x.stop ≤ y.start) :
    (move a b c x).stop ≤ (move a b c y).start := by
  unfold Valid at hx hy
  by_cases hxStop : x.stop ≤ a
  · -- In front of the range only the second one moves.
    rw [move_of_stop_le hxStop]
    unfold move shift clamp
    split
    · exact hOrder
    split
    · dsimp only
      omega
    · dsimp only
      split <;> omega
  have hyStop : ¬ y.stop ≤ a := by omega
  by_cases hyStart : b ≤ y.start
  · rw [move_of_le_start hyStop hyStart]
    unfold move shift clamp
    rw [if_neg hxStop]
    split
    · dsimp only
      omega
    · dsimp only
      split <;> omega
  -- Both meet the range, between them is the new text.
  have hxMeets : x.Meets a b := ⟨by omega, by omega⟩
  have hyMeets : y.Meets a b := ⟨by omega, by omega⟩
  rw [move_of_meets hxMeets, move_of_meets hyMeets]
  unfold clamp
  dsimp only
  refine le_of_eq ?_
  rw [if_pos (by omega), if_pos (by omega)]

lemma move_inside_move (hac : a ≤ c) (hx : x.Valid) (hInside : x.Inside y) (hMeets : y.Meets a b) :
    (move a b c x).Inside (move a b c y) := by
  rcases hInside with ⟨hStart, hStop⟩
  rcases hMeets with ⟨hyStop, hyStart⟩
  rw [move_of_meets ⟨hyStop, hyStart⟩]
  unfold Valid at hx
  by_cases hxStop : x.stop ≤ a
  · rw [move_of_stop_le hxStop]
    unfold Inside clamp
    dsimp only
    rw [if_neg (by omega)]
    refine ⟨hStart, ?_⟩
    split <;> omega
  by_cases hxStart : b ≤ x.start
  · rw [move_of_le_start hxStop hxStart]
    unfold Inside shift clamp
    dsimp only
    refine ⟨?_, ?_⟩ <;> split <;> omega
  have hxMeets : x.Meets a b := ⟨by omega, by omega⟩
  rw [move_of_meets hxMeets]
  unfold Inside clamp
  dsimp only
  refine ⟨?_, ?_⟩ <;> split <;> split <;> omega

end Extent

-- Covered Texts

open Position

variable {α : Type} {text replacement : List α} {a b : Nat}

lemma slice_splice_before {start stop : Nat} (hStop : stop ≤ a) (ha : a ≤ text.length) :
    slice (splice text a b replacement) start stop = slice text start stop := by
  unfold slice
  rw [take_splice_of_le text replacement hStop ha]

lemma slice_splice_after {start stop : Nat} (hStart : b ≤ start) (hOrder : start ≤ stop)
    (ha : a ≤ text.length) :
    slice (splice text a b replacement) (start - b + (a + replacement.length))
      (stop - b + (a + replacement.length)) =
      slice text start stop := by
  unfold slice
  rw [List.drop_take, List.drop_take]
  have hDrop : (splice text a b replacement).drop (a + replacement.length + (start - b)) =
      text.drop (b + (start - b)) := drop_splice_add text replacement ha (start - b)
  have hFrom : start - b + (a + replacement.length) = a + replacement.length + (start - b) :=
    add_comm _ _
  have hBack : b + (start - b) = start := Nat.add_sub_cancel' hStart
  have hLength : stop - b + (a + replacement.length) -
      (a + replacement.length + (start - b)) =
      stop - start := by omega
  rw [hFrom, hDrop, hBack, hLength]

variable [DecidableEq α]

/-
  The positions of an offset behind the range before and after the replacement: both are read from
  the end of the range through the same letters.
-/
lemma positionAt_splice_shift
    (nl : α)
    (text replacement : List α)
    {offset : Nat}
    (hOffset : b ≤ offset)
    (ha : a ≤ text.length) :
    ∃ rest,
      positionAt nl text offset = advance nl (positionAt nl text b) rest ∧
        positionAt nl (splice text a b replacement) (offset - b + (a + replacement.length)) =
          advance nl (positionAt nl (splice text a b replacement) (a + replacement.length))
            rest := by
  refine ⟨(text.drop b).take (offset - b), ?_, ?_⟩
  · rw [← positionAt_add, Nat.add_sub_cancel' hOffset]
  · rw [add_comm (offset - b), positionAt_splice_tail nl text replacement ha]

end Text

-- Joined Texts

namespace Text

open List

variable {α : Type} (text : List α) (xs : List Extent) (pos : Nat)

/- Nonempty extents inside a text, in order and without overlaps. -/
structure Separated (length : Nat) (xs : List Extent) : Prop where
  nonempty : ∀ x ∈ xs, x.start < x.stop
  bounded : ∀ x ∈ xs, x.stop ≤ length
  ordered : xs.Pairwise (fun x y => x.stop ≤ y.start)

/- The texts of the extents, one after another. -/
def joined : List α :=
  xs.flatMap (fun x => slice text x.start x.stop)

/- The number of joined letters in front of a position. -/
def joinedOffset : Nat :=
  (xs.map (fun x => min x.stop pos - x.start)).sum

@[simp]
lemma joined_nil : joined text [] = [] := rfl

@[simp]
lemma joined_cons (x : Extent) (xs : List Extent) :
    joined text (x :: xs) = slice text x.start x.stop ++ joined text xs := rfl

lemma joined_append (ys : List Extent) :
    joined text (xs ++ ys) = joined text xs ++ joined text ys := by simp [joined]

@[simp]
lemma joinedOffset_nil : joinedOffset [] pos = 0 := rfl

@[simp]
lemma joinedOffset_cons (x : Extent) (xs : List Extent) (pos : Nat) :
    joinedOffset (x :: xs) pos = (min x.stop pos - x.start) + joinedOffset xs pos := by
  simp [joinedOffset]

lemma joinedOffset_append (ys : List Extent) (pos : Nat) :
    joinedOffset (xs ++ ys) pos = joinedOffset xs pos + joinedOffset ys pos := by
  simp [joinedOffset]

namespace Separated

variable {length : Nat} {x : Extent} {xs ys : List Extent}

lemma tail (h : Separated length (x :: xs)) : Separated length xs where
  nonempty := fun y hy =>
    h.nonempty y (mem_cons_of_mem _ hy)
  bounded := fun y hy =>
    h.bounded y (mem_cons_of_mem _ hy)
  ordered := h.ordered.of_cons

lemma left (h : Separated length (xs ++ ys)) : Separated length xs where
  nonempty := fun y hy =>
    h.nonempty y (mem_append_left _ hy)
  bounded := fun y hy =>
    h.bounded y (mem_append_left _ hy)
  ordered := (pairwise_append.mp h.ordered).1

lemma stop_le_start (h : Separated length (xs ++ x :: ys)) {y : Extent} (hy : y ∈ xs) :
    y.stop ≤ x.start := (pairwise_append.mp h.ordered).2.2 y hy x (by simp)

lemma le_start (h : Separated length (xs ++ x :: ys)) {y : Extent} (hy : y ∈ ys) :
    x.stop ≤ y.start := (pairwise_cons.mp (pairwise_append.mp h.ordered).2.1).1 y hy

end Separated

-- Offsets

variable {text : List α} {xs : List Extent} {pos : Nat} {ys : List Extent}

lemma joinedOffset_mono {p q : Nat} (hOrder : p ≤ q) : joinedOffset xs p ≤ joinedOffset xs q := by
  induction xs with
  | nil => exact le_refl 0
  | cons x xs ih =>
    rw [joinedOffset_cons, joinedOffset_cons]
    omega

/- At most as much is passed as lies in front. -/
lemma joinedOffset_le {length : Nat} (h : Separated length xs) {low : Nat}
    (hLow : ∀ x ∈ xs, low ≤ x.start) :
    joinedOffset xs pos ≤ pos - low := by
  induction xs generalizing low with
  | nil => exact Nat.zero_le _
  | cons x xs ih =>
    have hStart := hLow x (by simp)
    have hNonempty := h.nonempty x (by simp)
    have hTail := ih h.tail (pairwise_cons.mp h.ordered).1
    rw [joinedOffset_cons]
    omega

/- Behind all extents everything has been passed. -/
lemma joinedOffset_of_stop_le (hBounded : ∀ x ∈ xs, x.stop ≤ text.length)
    (hPos : ∀ x ∈ xs, x.stop ≤ pos) :
    joinedOffset xs pos = (joined text xs).length := by
  induction xs with
  | nil => rfl
  | cons x xs ih =>
    have hTail := ih (fun y hy => hBounded y (mem_cons_of_mem _ hy))
      (fun y hy => hPos y (mem_cons_of_mem _ hy))
    have hStop := hPos x (by simp)
    have hLength := hBounded x (by simp)
    rw [joinedOffset_cons, joined_cons, length_append, length_slice text hLength,
      hTail, min_eq_left hStop]

/- In front of all extents nothing has been passed. -/
lemma joinedOffset_of_le_start (hPos : ∀ x ∈ xs, pos ≤ x.start) : joinedOffset xs pos = 0 := by
  induction xs with
  | nil => rfl
  | cons x xs ih =>
    have hTail := ih fun y hy => hPos y (mem_cons_of_mem _ hy)
    have hStart := hPos x (by simp)
    rw [joinedOffset_cons, hTail]
    omega

lemma joinedOffset_between (h : Separated text.length (xs ++ ys))
    (hBefore : ∀ x ∈ xs, x.stop ≤ pos) (hAfter : ∀ y ∈ ys, pos ≤ y.start) :
    joinedOffset (xs ++ ys) pos = (joined text xs).length := by
  rw [joinedOffset_append, joinedOffset_of_stop_le h.left.bounded hBefore,
    joinedOffset_of_le_start hAfter, add_zero]

section

variable {x : Extent} (h : Separated text.length (xs ++ x :: ys)) (hStart : x.start ≤ pos)
  (hStop : pos ≤ x.stop)

include h hStart hStop

lemma joinedOffset_of_mem :
    joinedOffset (xs ++ x :: ys) pos = (joined text xs).length + (pos - x.start) := by
  have hBefore : joinedOffset xs pos = (joined text xs).length := by
    apply joinedOffset_of_stop_le h.left.bounded
    intro y hy
    exact le_trans (h.stop_le_start hy) hStart
  have hAfter : joinedOffset ys pos = 0 := by
    apply joinedOffset_of_le_start
    intro y hy
    exact hStop.trans (h.le_start hy)
  rw [joinedOffset_append, joinedOffset_cons, hBefore, hAfter]
  omega

lemma drop_joined :
    (joined text (xs ++ x :: ys)).drop (joinedOffset (xs ++ x :: ys) pos) =
      slice text pos x.stop ++ joined text ys := by
  have hLength := h.bounded x (by simp)
  rw [joinedOffset_of_mem h hStart hStop, joined_append, joined_cons, drop_append,
    drop_of_length_le (Nat.le_add_right _ _),
    nil_append, Nat.add_sub_cancel_left,
    drop_append_of_le_length (by
      rw [length_slice text hLength]
      omega)]
  have hSlice : (slice text x.start x.stop).drop (pos - x.start) = slice text pos x.stop := by
    unfold slice
    rw [drop_drop, Nat.add_sub_cancel' hStart]
  rw [hSlice]

end

lemma joinedOffset_lt_of_included {x : Extent} (hx : x ∈ xs) {p q : Nat} (hStart : x.start ≤ p)
    (hStop : p < x.stop) (hOrder : p < q) :
    joinedOffset xs p < joinedOffset xs q := by
  induction xs with
  | nil => cases hx
  | cons y ys ih =>
    rw [joinedOffset_cons, joinedOffset_cons]
    rcases mem_cons.mp hx with rfl | hx
    · have hMono : joinedOffset ys p ≤ joinedOffset ys q := joinedOffset_mono hOrder.le
      omega
    · have hTail := ih hx
      omega

-- Clipped Texts

lemma slice_append {first second : List α} {a a' b b' : Nat} (ha : a ≤ first.length)
    (hb : b ≤ first.length) (ha' : a' = 0 ∨ a = first.length) (hb' : b' = 0 ∨ b = first.length) :
    slice (first ++ second) (a + a') (b + b') = slice first a b ++ slice second a' b' := by
  unfold slice
  rw [drop_take, drop_take, drop_take]
  rcases ha' with rfl | rfl
  · rw [add_zero, drop_append_of_le_length ha, drop_zero]
    rcases hb' with rfl | rfl
    · rw [add_zero, take_append_of_le_length (by
        rw [length_drop]
        omega), Nat.zero_sub, take_zero,
        append_nil]
    have hLength : first.length + b' - a = (first.drop a).length + b' := by
      rw [length_drop]
      omega
    have hAll : (first.drop a).take (first.length - a) = first.drop a := take_of_length_le (le_of_eq
        length_drop)
    rw [hLength, take_length_add_append, Nat.sub_zero, hAll]
  · rw [drop_append, drop_of_length_le (by omega), Nat.add_sub_cancel_left,
      nil_append, drop_length, take_nil, nil_append]
    rcases hb' with rfl | rfl
    · have hNone : b + 0 - (first.length + a') = 0 := by omega
      rw [hNone, Nat.zero_sub]
    · rw [Nat.add_sub_add_left]

/- A slice of a slice, cut at two positions of the text. -/
lemma slice_slice (text : List α) (start stop p q : Nat) :
    slice (slice text start stop) (min stop p - start) (min stop q - start) =
      slice text (max p start) (min q stop) := by
  unfold slice
  rw [drop_take, drop_take, drop_take, drop_take, drop_drop, take_take]
  by_cases hInside : max p start < min q stop
  · congr 1
    · omega
    · congr 1
      omega
  have hLeft : min (min stop q - start - (min stop p - start))
      (stop - start - (min stop p - start)) =
      0 := by omega
  have hRight : min q stop - max p start = 0 := by omega
  rw [hLeft, hRight, take_zero, take_zero]

/- Cutting every extent at two positions cuts the joined text at their offsets. -/
lemma joined_clip {text : List α} {xs : List Extent} (h : Separated text.length xs) (p q : Nat) :
    xs.flatMap (fun x => slice text (max p x.start) (min q x.stop)) =
      slice (joined text xs) (joinedOffset xs p) (joinedOffset xs q) := by
  induction xs with
  | nil => simp [slice]
  | cons x xs ih =>
    have hStop := h.bounded x (by simp)
    have hLater : ∀ y ∈ xs, x.stop ≤ y.start := (pairwise_cons.mp h.ordered).1
    have hRest : ∀ pos,
        joinedOffset xs pos = 0 ∨
          min x.stop pos - x.start = (slice text x.start x.stop).length := by
      intro pos
      by_cases hPos : pos ≤ x.stop
      · left
        apply joinedOffset_of_le_start
        intro y hy
        exact hPos.trans (hLater y hy)
      · right
        rw [length_slice text hStop]
        omega
    rw [flatMap_cons, ih h.tail, joined_cons, joinedOffset_cons, joinedOffset_cons,
      slice_append _ _ (hRest p) (hRest q), slice_slice]
    · rw [length_slice text hStop]
      omega
    · rw [length_slice text hStop]
      omega

end Text
