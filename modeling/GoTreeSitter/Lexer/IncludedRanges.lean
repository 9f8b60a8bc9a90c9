import GoTreeSitter.Tree.Changed

/-
  The normal form of included ranges.

  Main declarations:
    * `normalizeIncludedRanges`
    * `normalizeIncludedRanges_normal`

  What is left has gaps, so it is its own normal form.
-/

namespace GoTreeSitter

open List UInt32

variable {sort : List SourceRange → List SourceRange} (ranges : List SourceRange)

/- A range takes over the end of one that starts in it or where it ends. -/
def includedJoiner : Ranges.Joiner SourceRange where
  lo r := r.startByte.toNat
  hi r := r.endByte.toNat
  touches current r := r.startByte ≤ current.endByte
  join current r :=
    if r.endByte > current.endByte then
      { current with endByte := r.endByte, endPoint := r.endPoint }
    else current
  lo_le_of_touches a b hTouch := le_iff_toNat_le.mp (of_decide_eq_true hTouch)
  apart a b _ _ hApart := lt_iff_toNat_lt.mp (UInt32.not_le.mp (of_decide_eq_false hApart))
  lo_join a b _ := by split <;> rfl
  hi_join a b := by
    simp only [gt_iff_lt, lt_iff_toNat_lt]
    split_ifs with hLess
    · exact (max_eq_right hLess.le).symm
    · exact (max_eq_left (Nat.le_of_not_lt hLess)).symm

def dropEmptyRanges : List SourceRange := ranges.filter fun r => ¬ r.endByte ≤ r.startByte

/- The sort of the library is a parameter: it may leave equal ranges in any order. -/
def normalizeIncludedRanges (sort : List SourceRange → List SourceRange) : List SourceRange :=
  match sort (dropEmptyRanges ranges) with
  | [] => []
  | current :: rest => includedJoiner.coalesce current rest

/- A sort by the start and then by the end. -/
def SortsRanges (sort : List SourceRange → List SourceRange) : Prop :=
  ∀ ranges, (sort ranges).Perm ranges ∧ (sort ranges).Pairwise SourceRange.before

lemma mem_dropEmptyRanges {r : SourceRange} :
    r ∈ dropEmptyRanges ranges ↔ r ∈ ranges ∧ r.startByte.toNat + 1 ≤ r.endByte.toNat := by
  rw [dropEmptyRanges, mem_filter, decide_eq_true_iff, le_iff_toNat_le, not_le]
  rfl

lemma inRanges_dropEmptyRanges (b : Nat) :
    InRanges (dropEmptyRanges ranges) b ↔ InRanges ranges b := by
  constructor
  · rintro ⟨r, hr, hIn⟩
    exact ⟨r, mem_of_mem_filter hr, hIn⟩
  · rintro ⟨r, hr, hIn⟩
    exact ⟨r, (mem_dropEmptyRanges ranges).mpr ⟨hr, by omega⟩, hIn⟩

lemma SourceRange.before.antisymm {a b : SourceRange} (hAb : a.before b) (hBa : b.before a) :
    a.startByte = b.startByte ∧ a.endByte = b.endByte := by
  simp only [SourceRange.before, lt_iff_toNat_lt, le_iff_toNat_le, ← UInt32.toNat_inj] at *
  omega

/- No range is empty, and there is a gap behind each. -/
def Separated : Prop := (∀ r ∈ ranges, r.startByte < r.endByte) ∧
    ranges.Pairwise fun a b => a.startByte < b.startByte ∧ a.endByte < b.startByte

section

variable (hSort : SortsRanges sort)

include hSort

lemma separated_normalizeIncludedRanges :
    Separated (normalizeIncludedRanges ranges sort) ∧
      ∀ b, InRanges (normalizeIncludedRanges ranges sort) b ↔ InRanges ranges b := by
  rcases hSort (dropEmptyRanges ranges) with ⟨hPerm, hOrder⟩
  have hCovers := inRanges_dropEmptyRanges ranges
  have hFull : ∀ r ∈ sort (dropEmptyRanges ranges), r.startByte.toNat + 1 ≤ r.endByte.toNat :=
    fun r hr => ((mem_dropEmptyRanges ranges).mp (hPerm.mem_iff.mp hr)).2
  simp only [InRanges, ← hPerm.mem_iff] at hCovers
  unfold normalizeIncludedRanges
  generalize sort (dropEmptyRanges ranges) = sorted at hOrder hFull hCovers
  cases sorted with
  | nil => exact ⟨⟨by simp, .nil⟩, hCovers⟩
  | cons current rest =>
    have hStarts := hOrder.imp SourceRange.before.start_le
    have hAll := Ranges.Joiner.separated_coalesce (J := includedJoiner) hStarts hFull
    refine ⟨⟨fun r hr => lt_iff_toNat_lt.mpr (hAll.1 r hr).2, hAll.2.imp_of_mem ?_⟩, ?_⟩
    · intro a b ha _ hGap
      exact ⟨lt_iff_toNat_lt.mpr ((hAll.1 a ha).2.trans_lt hGap |> Nat.lt_of_succ_lt),
        lt_iff_toNat_lt.mpr hGap⟩
    · exact fun b =>
        (Ranges.Joiner.covers_coalesce (J := includedJoiner) hStarts b).trans (hCovers b)

variable {ranges}

/- Ranges with gaps between them are left alone. -/
lemma normalizeIncludedRanges_of_separated (hApart : Separated ranges) :
    normalizeIncludedRanges ranges sort = ranges := by
  have hKept : dropEmptyRanges ranges = ranges :=
    filter_eq_self.mpr fun r hr => decide_eq_true (UInt32.not_le.mpr (hApart.1 r hr))
  have hSame : sort ranges = ranges := by
    refine (hSort ranges).1.eq_of_pairwise ?_ (hSort ranges).2 (hApart.2.imp fun h => .inl h.1)
    have hStarts : (ranges.map SourceRange.startByte).Nodup :=
      pairwise_map.mpr (hApart.2.imp fun h => UInt32.ne_of_lt h.1)
    intro a b ha hb hAb hBa
    exact inj_on_of_nodup_map hStarts ((hSort ranges).1.mem_iff.mp ha) hb (hAb.antisymm hBa).1
  unfold normalizeIncludedRanges
  rw [hKept, hSame]
  cases ranges with
  | nil => rfl
  | cons current rest =>
    refine Ranges.Joiner.coalesce_eq_self (hApart.2.imp ?_)
    intro a b hGap
    exact decide_eq_false (UInt32.not_le.mpr hGap.2)

/- Equal ranges are the same if points are a function of bytes, so their order is no matter. -/
lemma normalizeIncludedRanges_perm {point : UInt32 → Point}
    (hPoints : ∀ r ∈ ranges, r.startPoint = point r.startByte ∧ r.endPoint = point r.endByte)
    {others : List SourceRange} (hPerm : others.Perm ranges) :
    normalizeIncludedRanges others sort = normalizeIncludedRanges ranges sort := by
  rcases hSort (dropEmptyRanges others) with ⟨hOthers, hOrder⟩
  rcases hSort (dropEmptyRanges ranges) with ⟨hRanges, hOrder'⟩
  have hSame := (hOthers.trans (hPerm.filter _)).trans hRanges.symm
  unfold normalizeIncludedRanges
  rw [hSame.eq_of_pairwise ?_ hOrder hOrder']
  intro a b ha hb hAb hBa
  have hA := hPoints a (mem_of_mem_filter (hRanges.mem_iff.mp (hSame.mem_iff.mp ha)))
  have hB := hPoints b (mem_of_mem_filter (hRanges.mem_iff.mp hb))
  rcases hAb.antisymm hBa with ⟨hStart, hEnd⟩
  rw [SourceRange.mk.injEq, hA.1, hA.2, hB.1, hB.2, hStart, hEnd]
  exact ⟨rfl, rfl, rfl, rfl⟩

end

/-
  The ranges returned have gaps and cover the same bytes. They are their own normal form and do not
  depend on the order of the given ones when points are a function of bytes.
-/
theorem normalizeIncludedRanges_normal (hSort : SortsRanges sort) :
    let out := normalizeIncludedRanges ranges sort
    Separated out ∧ (∀ b, InRanges out b ↔ InRanges ranges b) ∧
      normalizeIncludedRanges out sort = out ∧ ∀ point : UInt32 → Point, (∀ r ∈ ranges, r.startPoint
      = point r.startByte ∧ r.endPoint = point r.endByte) → ∀ others, others.Perm ranges →
      normalizeIncludedRanges others sort = out := by
  rcases separated_normalizeIncludedRanges ranges hSort with ⟨hApart, hCovers⟩
  exact ⟨hApart, hCovers, normalizeIncludedRanges_of_separated hSort hApart,
    fun _ hPoints _ => normalizeIncludedRanges_perm hSort hPoints⟩

/- Two ranges that touch are one range, in either order. -/
theorem normalizeIncludedRanges_normal_touching :
    let sort := insertionSort SourceRange.before
    let first : SourceRange := ⟨0, 2, ⟨0, 0⟩, ⟨0, 2⟩⟩
    let second : SourceRange := ⟨2, 5, ⟨0, 2⟩, ⟨0, 5⟩⟩
    normalizeIncludedRanges [second, first] sort =
      normalizeIncludedRanges [first, second] sort := by
  have hSort : SortsRanges (insertionSort SourceRange.before) :=
    fun ranges => ⟨perm_insertionSort _ ranges, pairwise_insertionSort _ ranges⟩
  exact (normalizeIncludedRanges_normal _ hSort).2.2.2 (⟨0, ·⟩) (by decide) _ (.swap _ _ _)

end GoTreeSitter
