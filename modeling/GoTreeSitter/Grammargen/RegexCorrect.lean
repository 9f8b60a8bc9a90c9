import GoTreeSitter.Grammargen.FragmentCorrect

/-
  Regular expressions become fragments for their texts.

  Main declarations:
    * `Spaced`
    * `BuildsFan`
    * `inRanges_complementRanges`
    * `BuildsFan.add`
    * `builds_regex`

  Merged ranges of characters are in order and do not touch, so that the gaps between them are the
  complement. The branches of a choice form a fan between the two states that are built first.
-/

-- Merged Ranges

namespace GoTreeSitter.Grammargen

open List

variable {done ranges : List RuneRange}

/- A code lies in one of the ranges. -/
def InRanges (ranges : List RuneRange) (x : Int) : Prop := ∃ r ∈ ranges, r.lo ≤ x ∧ x ≤ r.hi

/- Ranges in order with gaps between them. -/
def Spaced (ranges : List RuneRange) : Prop := ranges.Pairwise (fun a b => a.hi + 1 < b.lo)

/- No range is reversed. -/
def Ordered (ranges : List RuneRange) : Prop := ∀ r ∈ ranges, r.lo ≤ r.hi

lemma inRanges_append (left right : List RuneRange) (x : Int) :
    InRanges (left ++ right) x ↔ InRanges left x ∨ InRanges right x := by
  unfold InRanges
  simp only [mem_append, or_and_right, exists_or]

lemma inRanges_singleton (r : RuneRange) (x : Int) : InRanges [r] x ↔ r.lo ≤ x ∧ x ≤ r.hi := by
  unfold InRanges
  simp

lemma inRanges_cons (r : RuneRange) (rest : List RuneRange) (x : Int) :
    InRanges (r :: rest) x ↔ (r.lo ≤ x ∧ x ≤ r.hi) ∨ InRanges rest x := by
  rw [← singleton_append, inRanges_append, inRanges_singleton]

/- One more range, the last of which may be extended. -/
def mergeRange (acc : List RuneRange × RuneRange) (r : RuneRange) : List RuneRange × RuneRange :=
  if r.lo ≤ acc.2.hi + 1 then
    (acc.1, if acc.2.hi < r.hi then
      { acc.2 with hi := r.hi } else acc.2)
  else
    (acc.1 ++ [acc.2], r)

/- The ranges merged so far. -/
structure MergedRanges (done : List RuneRange) (acc : List RuneRange × RuneRange) : Prop where
  covers : ∀ x : Int, InRanges (acc.1 ++ [acc.2]) x ↔ InRanges done x
  spaced : Spaced (acc.1 ++ [acc.2])
  ordered : Ordered (acc.1 ++ [acc.2])
  last : ∃ r ∈ done, acc.2.lo = r.lo

variable {acc : List RuneRange × RuneRange} {r : RuneRange} {rest : List RuneRange}

lemma ordered_snoc {front : List RuneRange} :
    Ordered (front ++ [r]) ↔ Ordered front ∧ r.lo ≤ r.hi := by
  unfold Ordered
  rw [forall_mem_append, forall_mem_singleton]

lemma spaced_snoc {front : List RuneRange} :
    Spaced (front ++ [r]) ↔ Spaced front ∧ ∀ other ∈ front, other.hi + 1 < r.lo := by
  unfold Spaced
  simp only [pairwise_append, pairwise_singleton, true_and, forall_mem_singleton]

lemma merging_mergeRange (hMerging : MergedRanges done acc)
    (hSorted : ∀ other ∈ done, other.lo ≤ r.lo) (hOrdered : r.lo ≤ r.hi) :
    MergedRanges (done ++ [r]) (mergeRange acc r) := by
  rcases acc with ⟨front, last⟩
  rcases hMerging with ⟨hCovers, hSpaced, hFine, first, hFirst, hFrom⟩
  dsimp only at hCovers hSpaced hFine hFrom
  have hLe := hSorted first hFirst
  have hFront := spaced_snoc.mp hSpaced
  have hEach := ordered_snoc.mp hFine
  unfold mergeRange
  dsimp only
  split
  · generalize hNew : (if last.hi < r.hi then { last with hi := r.hi } else last) = new
    have hLo : new.lo = last.lo := by
      rw [← hNew]
      split
      · rfl
      · rfl
    have hHi : new.hi = max last.hi r.hi := by
      rw [← hNew]
      split
      · dsimp only
        omega
      · omega
    refine ⟨?_, ?_, ?_, first, mem_append_left _ hFirst, hLo.trans hFrom⟩
    · intro x
      rw [inRanges_append done, ← hCovers x]
      simp only [inRanges_append, inRanges_singleton, hLo, hHi, or_assoc]
      refine or_congr_right ?_
      omega
    · rw [spaced_snoc, hLo]
      exact hFront
    · rw [ordered_snoc, hLo, hHi]
      exact ⟨hEach.1, by omega⟩
  · refine ⟨?_, spaced_snoc.mpr ⟨hSpaced, ?_⟩, ordered_snoc.mpr ⟨hFine, hOrdered⟩, r,
      mem_append_right _ mem_cons_self, rfl⟩
    · intro x
      rw [inRanges_append, inRanges_append done]
      exact or_congr (hCovers x) Iff.rfl
    dsimp only
    refine forall_mem_append.mpr ⟨?_, forall_mem_singleton.mpr (by omega)⟩
    intro other hOther
    have hLt := hFront.2 other hOther
    omega

lemma merging_foldl (hMerging : MergedRanges done acc)
    (hSorted : (done ++ rest).Pairwise (fun a b => a.lo ≤ b.lo)) (hOrdered : Ordered rest) :
    MergedRanges (done ++ rest) (rest.foldl mergeRange acc) := by
  induction rest generalizing done acc with
  | nil =>
    rw [append_nil]
    exact hMerging
  | cons r rest ih =>
    rw [foldl_cons, append_cons]
    rw [append_cons] at hSorted
    have hAhead : ∀ other ∈ done, other.lo ≤ r.lo := by
      intro other hOther
      have hHead := (pairwise_append.mp hSorted).1
      exact (pairwise_append.mp hHead).2.2 other hOther r mem_cons_self
    exact ih (merging_mergeRange hMerging hAhead (hOrdered r mem_cons_self)) hSorted (fun other
      hOther => hOrdered other (mem_cons_of_mem r hOther))

lemma mergeRanges_merging (hOrdered : Ordered ranges) (hCons : ranges ≠ []) :
    ∃ acc,
      mergeRanges ranges = acc.1 ++ [acc.2] ∧
        ∃ sorted, sorted.Perm ranges ∧ MergedRanges sorted acc := by
  have hPerm := perm_insertionSort (fun a b : RuneRange => a.lo ≤ b.lo) ranges
  have hPair : (ranges.insertionSort fun a b => a.lo ≤ b.lo).Pairwise (fun a b => a.lo ≤ b.lo) := by
    exact pairwise_insertionSort _ ranges
  unfold mergeRanges
  generalize ranges.insertionSort (fun a b => a.lo ≤ b.lo) = sorted at hPerm hPair ⊢
  cases sorted with
  | nil => exact absurd hPerm.symm.eq_nil hCons
  | cons first rest =>
    have hSortedOrdered : Ordered (first :: rest) := fun r hr => hOrdered r (hPerm.mem_iff.mp hr)
    refine ⟨rest.foldl mergeRange ([], first), rfl, first :: rest, hPerm, ?_⟩
    have hStart : MergedRanges [first] ([], first) := by
      refine ⟨fun _ => Iff.rfl, pairwise_singleton _ _, ?_, first, mem_cons_self, rfl⟩
      intro r hr
      rw [mem_singleton.mp hr]
      exact hSortedOrdered first mem_cons_self
    exact merging_foldl hStart hPair (fun r hr => hSortedOrdered r (mem_cons_of_mem first hr))

lemma inRanges_mergeRanges (hOrdered : Ordered ranges) (x : Int) :
    InRanges (mergeRanges ranges) x ↔ InRanges ranges x := by
  by_cases hNil : ranges = []
  · rw [hNil]
    exact Iff.rfl
  rcases mergeRanges_merging hOrdered hNil with ⟨acc, hEq, sorted, hPerm, hMerging⟩
  rw [hEq, hMerging.covers]
  unfold InRanges
  simp [hPerm.mem_iff]

lemma spaced_mergeRanges (hOrdered : Ordered ranges) :
    Spaced (mergeRanges ranges) ∧ Ordered (mergeRanges ranges) := by
  by_cases hNil : ranges = []
  · rw [hNil]
    refine ⟨List.Pairwise.nil, ?_⟩
    intro r hr
    cases hr
  · rcases mergeRanges_merging hOrdered hNil with ⟨acc, hEq, _, _, hMerging⟩
    rw [hEq]
    exact ⟨hMerging.spaced, hMerging.ordered⟩

-- Complements

/- The gap before a range, and the code after it. -/
def addGap (acc : List RuneRange × Int) (r : RuneRange) : List RuneRange × Int :=
  (if acc.2 < r.lo then
      acc.1 ++ [⟨acc.2, r.lo - 1⟩]
    else
      acc.1,
    r.hi + 1)

/- The gaps before a position. -/
structure Gaps (done : List RuneRange) (acc : List RuneRange × Int) : Prop where
  gaps : ∀ x : Int, 0 ≤ x → (InRanges acc.1 x ↔ x < acc.2 ∧ ¬ InRanges done x)
  before : ∀ r ∈ done, r.hi < acc.2

variable {acc : List RuneRange × Int}

lemma gaps_addGap (hGaps : Gaps done acc) (hAhead : ∀ x, 0 ≤ x → x < acc.2 → x < r.lo)
    (hBehind : ∀ other ∈ done, other.hi < r.lo) (hOrdered : r.lo ≤ r.hi) :
    Gaps (done ++ [r]) (addGap acc r) := by
  rcases acc with ⟨front, pos⟩
  constructor
  · intro x hx
    have hOld := hGaps.gaps x hx
    have hLow := hAhead x hx
    have hDone : InRanges done x → x < pos ∧ x < r.lo := by
      rintro ⟨other, hOther, _, hHi⟩
      have hBefore := hGaps.before other hOther
      have hLo := hBehind other hOther
      omega
    unfold addGap
    rw [inRanges_append done, inRanges_singleton]
    split
    · rw [inRanges_append, inRanges_singleton, hOld]
      grind
    · grind
  · unfold addGap
    refine forall_mem_append.mpr ⟨?_, forall_mem_singleton.mpr (by omega)⟩
    intro other hOther
    have hLo := hBehind other hOther
    omega

lemma gaps_foldl (hGaps : Gaps done acc) (hAhead : ∀ r ∈ rest, ∀ x, 0 ≤ x → x < acc.2 → x < r.lo)
    (hSpaced : Spaced (done ++ rest)) (hOrdered : Ordered rest) :
    Gaps (done ++ rest) (rest.foldl addGap acc) := by
  induction rest generalizing done acc with
  | nil =>
    rw [append_nil]
    exact hGaps
  | cons r rest ih =>
    rw [foldl_cons, append_cons]
    rw [append_cons] at hSpaced
    have hSplit := pairwise_append.mp hSpaced
    have hBehind : ∀ other ∈ done, other.hi < r.lo := by
      intro other hOther
      have hLt := (pairwise_append.mp hSplit.1).2.2 other hOther r mem_cons_self
      omega
    refine ih (gaps_addGap hGaps (hAhead r mem_cons_self) hBehind (hOrdered r mem_cons_self)) ?_
        hSpaced (fun other hOther => hOrdered other (mem_cons_of_mem r hOther))
    intro next hNext x _ hx
    have hLt := hSplit.2.2 r (mem_append_right _ mem_cons_self) next hNext
    unfold addGap at hx
    omega

lemma complementRanges_eq (ranges : List RuneRange) :
    complementRanges ranges =
      (let gaps := (mergeRanges ranges).foldl addGap ([], 0)
        if gaps.2 ≤ maxSupportedRune then gaps.1 ++ [⟨gaps.2, maxSupportedRune⟩]
        else gaps.1) := rfl

lemma inRanges_complementRanges (hOrdered : Ordered ranges) {x : Int}
    (hx : 0 ≤ x ∧ x ≤ maxSupportedRune) :
    InRanges (complementRanges ranges) x ↔ ¬ InRanges ranges x := by
  rcases spaced_mergeRanges hOrdered with ⟨hSpaced, hMerged⟩
  have hStart : Gaps [] ([], 0) := by
    constructor
    · intro y hy
      constructor
      · rintro ⟨r, hr, _⟩
        cases hr
      · rintro ⟨hLt, _⟩
        omega
    · simp
  have hGaps : Gaps ([] ++ mergeRanges ranges) ((mergeRanges ranges).foldl addGap ([], 0)) :=
    gaps_foldl hStart (by
        intro r _ y hy hLt
        omega)
      hSpaced hMerged
  rw [← inRanges_mergeRanges hOrdered x, complementRanges_eq]
  generalize (mergeRanges ranges).foldl addGap ([], 0) = gaps at hGaps ⊢
  dsimp only
  have hAfter : InRanges (mergeRanges ranges) x → x < gaps.2 := by
    rintro ⟨r, hr, _, hHi⟩
    have hBefore := hGaps.before r hr
    omega
  have hFront := hGaps.gaps x hx.1
  split
  · rw [inRanges_append, inRanges_singleton, hFront]
    dsimp only
    constructor
    · rintro (⟨_, hNot⟩ | ⟨hGe, _⟩)
      · exact hNot
      intro hIn
      have hLt := hAfter hIn
      omega
    · intro hNot
      by_cases hLt : x < gaps.2
      · exact Or.inl ⟨hLt, hNot⟩
      · exact Or.inr ⟨by omega, hx.2⟩
  · rw [hFront]
    constructor
    · exact fun h => h.2
    · intro hNot
      exact ⟨by omega, hNot⟩

/- No gap is reversed. -/
lemma ordered_complementRanges (ranges : List RuneRange) : Ordered (complementRanges ranges) := by
  have hGaps : Ordered ((mergeRanges ranges).foldl addGap ([], 0)).1 := by
    refine List.foldlRecOn (motive := fun (acc : List RuneRange × Int) => Ordered acc.1) _ _ ?_ ?_
    · intro r hr
      cases hr
    intro acc hAcc r _
    unfold addGap
    split
    · refine ordered_snoc.mpr ⟨hAcc, ?_⟩
      dsimp only
      omega
    · exact hAcc
  rw [complementRanges_eq]
  dsimp only
  split_ifs with hLe
  · exact ordered_snoc.mpr ⟨hGaps, hLe⟩
  · exact hGaps

end GoTreeSitter.Grammargen

-- Branches

namespace GoTreeSitter.Grammargen

open Automata

/- The start and the end of a choice, which are built first. -/
def outerFragment (b : NfaBuilder) : NfaFragment where
  start := b.length
  stop := b.length + 1

lemma outerFragment_eq (b : NfaBuilder) : outerFragment b = ⟨b.length, (addState b).2.length⟩ := by
  rw [length_addState]
  rfl

/- The new states are the branches of a choice. There is a branch if building them has started. -/
structure BuildsFan (fine : Prop) (b b' : NfaBuilder) (sum : Language Char) (alive started : Prop) :
    Prop extends Extends fine b b' where
  two : b.length + 2 ≤ b'.length
  fan : Fan (nfaEdges b') (Set.Ico (b.length + 1) b'.length) b.length (b.length + 1) sum alive
  branch : started → (nfaEdges b' b.length none).Nonempty

variable {b b' b'' : NfaBuilder} {frag : NfaFragment} {sum lang : Language Char}
  {alive alive' started fine : Prop}

lemma buildsFan_start (b : NfaBuilder) :
    BuildsFan fine b (addState (addState b).2).2 0 True False := by
  have hCount : (addState (addState b).2).2.length = b.length + 2 := by
    rw [length_addState, length_addState]
  have hEdges : nfaEdges (addState (addState b).2).2 = nfaEdges b := by
    rw [nfaEdges_addState, nfaEdges_addState]
  refine ⟨(Extends.addState b).trans (Extends.addState _), hCount.symm.le, ?_, fun h => h.elim⟩
  have hPart : Set.Ico (b.length + 1) (addState (addState b).2).2.length = {b.length + 1} := by
    ext q
    rw [hCount, Set.mem_Ico, Set.mem_singleton_iff]
    omega
  rw [hPart, hEdges]
  refine Fan.start ?_ ?_ ?_
  · omega
  · exact nfaEdges_of_le le_rfl
  · exact nfaEdges_of_le (Nat.le_succ _)

/- One more branch. -/
lemma BuildsFan.add (hFan : BuildsFan fine b b' sum alive started)
    (hBuilds : Builds fine b' b'' frag lang alive') :
    BuildsFan fine b (addBranch (outerFragment b) frag b'') (sum + lang) (alive ∧ alive') True := by
  have hTwo := hFan.two
  have hGrows := hBuilds.grows
  have hStop := hBuilds.bounds.2
  have hNew : ∀ edge ∈ [(b.length, frag.start), (frag.stop, b.length + 1)],
      b.length ≤ edge.1 ∧ edge.1 < b''.length := by
    simp only [List.forall_mem_cons, List.not_mem_nil, false_implies, implies_true, and_true]
    omega
  obtain ⟨hExt, hLength, hEdges⟩ := (hFan.toExtends.trans hBuilds.toExtends).addEpsilons_spec hNew
  change
    BuildsFan fine b (addEpsilons [(b.length, frag.start), (frag.stop, b.length + 1)] b'') _ _ _
  simp only [List.mem_cons, Prod.mk.injEq, List.not_mem_nil, or_false] at hEdges
  refine ⟨hExt, by omega, ?_, fun _ => ⟨frag.start, (hEdges _ _ _).mpr (.inr ⟨rfl, .inl ⟨rfl,
    rfl⟩⟩)⟩⟩
  rw [hLength, ← Set.Ico_union_Ico_eq_Ico (by omega) hGrows]
  have hNe : b.length ≠ frag.stop := by omega
  have hOlder : Fan (nfaEdges b'') (Set.Ico (b.length + 1) b'.length) b.length (b.length + 1)
      sum alive := hFan.fan.congr (fun q hq => hBuilds.old q hq.2) (hBuilds.old b.length (by omega))
  refine hOlder.add hBuilds.piece ?_ ?_ ?_ ?_ ?_
  · simp
  · rintro ⟨hLe, _⟩
    omega
  · intro q hq hOther
    have hFront : q ≠ b.length := by
      rcases hq with ⟨hLe, _⟩ | ⟨hLe, _⟩
      · omega
      · omega
    funext a
    ext y
    simp [hEdges, hOther, hFront]
  · intro a y
    simp [hEdges, hNe]
  · intro a y
    simp [hEdges, hNe.symm]

/- A choice with a branch is a fragment. -/
lemma BuildsFan.finish (hFan : BuildsFan fine b b' sum alive True) :
    Builds fine b b' (outerFragment b) sum alive := by
  have hTwo := hFan.two
  refine ⟨hFan.toExtends, ?_⟩
  have hPart : Set.Ico b.length b'.length = insert b.length (Set.Ico (b.length + 1) b'.length) := by
    ext q
    rw [Set.mem_insert_iff, Set.mem_Ico, Set.mem_Ico]
    omega
  rw [hPart]
  exact hFan.fan.piece (hFan.branch trivial)

lemma BuildsFan.congr {sum' : Language Char} {started' : Prop}
    (hFan : BuildsFan fine b b' sum alive started) (hSum : sum = sum') (hAlive : alive' → alive)
    (hStarted : started' → started) :
    BuildsFan fine b b' sum' alive' started' := by
  subst hSum
  exact ⟨hFan.toExtends, hFan.two, { hFan.fan with
      live := fun h => hFan.fan.live (hAlive h) },
    fun h => hFan.branch (hStarted h)⟩

-- Expressions

lemma has_iff_inRanges (ranges : List RuneRange) (c : Char) :
    (∃ r ∈ ranges, r.Has c) ↔ InRanges ranges c.toNat := Iff.rfl

lemma toNat_le_maxSupportedRune (c : Char) :
    0 ≤ (c.toNat : Int) ∧ (c.toNat : Int) ≤ maxSupportedRune := by
  have hLt : c.toNat < 0x110000 := by
    rcases c.valid with hLow | ⟨_, hHigh⟩
    · exact lt_trans hLow (by decide)
    · exact hHigh
  unfold maxSupportedRune
  omega

/- What is built for a class. -/
def classRanges (runes : List RuneRange) (negate : Bool) : List RuneRange :=
  if negate then complementRanges runes else mergeRanges runes

lemma has_classRanges {runes : List RuneRange} (hOrdered : Ordered runes) (negate : Bool)
    (c : Char) :
    (∃ r ∈ classRanges runes negate, r.Has c) ↔ ClassHas runes negate c := by
  rw [has_iff_inRanges]
  unfold ClassHas classRanges
  cases negate with
  | false => exact inRanges_mergeRanges hOrdered c.toNat
  | true =>
    simp only [if_true]
    rw [inRanges_complementRanges hOrdered (toNat_le_maxSupportedRune c)]
    unfold InRanges RuneRange.Has
    simp

lemma ordered_classRanges {runes : List RuneRange} (hOrdered : Ordered runes) (negate : Bool) :
    Ordered (classRanges runes negate) := by
  cases negate with
  | false => exact (spaced_mergeRanges hOrdered).2
  | true => exact ordered_complementRanges runes

lemma ordered_single (value : Int) : Ordered [RuneRange.mk value value] := by
  intro r hr
  rw [List.mem_singleton.mp hr]

lemma ordered_dot : Ordered [RuneRange.mk 0 9, RuneRange.mk 11 maxSupportedRune] := by
  unfold Ordered
  decide

lemma has_literal (value : Int) (c : Char) :
    (∃ r ∈ [RuneRange.mk value value], r.Has c) ↔ (c.toNat : Int) = value := by
  rw [has_iff_inRanges, inRanges_singleton]
  dsimp only
  omega

lemma has_dot (c : Char) :
    (∃ r ∈ [RuneRange.mk 0 9, RuneRange.mk 11 maxSupportedRune], r.Has c) ↔ c ≠ '\n' := by
  rw [has_iff_inRanges, inRanges_cons, inRanges_singleton]
  have hBounds := toNat_le_maxSupportedRune c
  have hLine : c = '\n' ↔ c.toNat = 10 := by
    constructor
    · rintro rfl
      rfl
    · intro hNat
      exact Char.toNat_inj.mp hNat
  rw [ne_eq, hLine]
  dsimp only
  omega

lemma builds_leaf {ranges : List RuneRange} {p : Char → Prop} (hRanges : fine → Ordered ranges)
    (hHas : ∀ c, (∃ r ∈ ranges, r.Has c) ↔ p c) :
    BuildsAnywhere fine (buildRanges ranges) (charLang p) (∃ c, p c) := by
  have hSame : (fun c : Char => ∃ r ∈ ranges, r.Has c) = p := funext fun c => propext (hHas c)
  intro b
  have hBuilds := builds_ranges hRanges b
  refine hBuilds.congr (congrArg charLang hSame) ?_
  rintro ⟨c, hc⟩
  exact ⟨c, (hHas c).mpr hc⟩

lemma builds_nothing {build : NfaBuilder → NfaFragment × NfaBuilder} {alive : Prop}
    (hBuild : build = buildEpsilon) :
    BuildsAnywhere fine build 1 alive := by
  subst hBuild
  intro b
  exact (builds_epsilon b).congr rfl fun _ => trivial

/- What is built for the classes of an expression, if need be with ordered ranges. -/
def ClassesBuilt (fine : Prop) (cls : List RuneRange → Bool → Char → Prop) : Prop :=
  ∀ runes negate, (fine → LeafOrdered (.charClass runes negate)) →
    ∀ c, (∃ r ∈ classRanges runes negate, r.Has c) ↔ cls runes negate c

variable {cls : List RuneRange → Bool → Char → Prop}

mutual

/- An expression is built for its texts, by what is built for its classes. -/
lemma builds_regex
    (hClass : ClassesBuilt fine cls)
    (node : RegexNode)
    (hOrdered : fine → EveryLeaf LeafOrdered node) :
    BuildsAnywhere fine (buildFromRegexNode node) (regexLang cls node)
      (EveryLeaf (LeafAlive cls) node) := by
  match node with
  | .nil => exact builds_nothing rfl
  | .literal value => exact builds_leaf (fun _ => ordered_single value) (has_literal value)
  | .charClass runes negate =>
    exact builds_leaf
      (fun hFine => ordered_classRanges (fun r hr => (hOrdered hFine r hr).1) negate)
      (hClass runes negate hOrdered)
  | .dot =>
    intro b
    exact (builds_leaf (fun _ => ordered_dot) has_dot b).congr rfl fun _ => ⟨'a', by decide⟩
  | .seq [] => exact builds_nothing rfl
  | .seq (first :: rest) =>
    intro b
    exact builds_regexSeq hClass rest (fun h => (hOrdered h).2)
      (builds_regex hClass first (fun h => (hOrdered h).1) b)
  | .alt [] => exact builds_nothing rfl
  | .alt (first :: rest) =>
    intro b
    have hFirst := builds_regex hClass first (fun h => (hOrdered h).1) (addState (addState b).2).2
    have hOne := (buildsFan_start b).add hFirst
    have hRest := (builds_regexAlt hClass rest (fun h => (hOrdered h).2) hOne).finish
    rw [outerFragment_eq] at hRest
    refine hRest.congr ?_ ?_
    · exact congrArg (· + regexSum cls rest) (zero_add _)
    · rintro ⟨hChild, hRest⟩
      exact ⟨⟨trivial, hChild⟩, hRest⟩
  | .star [] => exact builds_nothing rfl
  | .star (child :: _) =>
    intro b
    exact (builds_regex hClass child hOrdered b).star
  | .plus [] => exact builds_nothing rfl
  | .plus (child :: _) =>
    intro b
    exact (builds_regex hClass child hOrdered b).plus
  | .question [] => exact builds_nothing rfl
  | .question (child :: _) =>
    intro b
    exact (builds_regex hClass child hOrdered b).optional
  | .count [] _ _ => exact builds_nothing rfl
  | .count (child :: _) minCount countMax =>
    intro b
    exact builds_count (builds_regex hClass child hOrdered) minCount countMax b

lemma builds_regexSeq
    (hClass : ClassesBuilt fine cls)
    (children : List RegexNode)
    (hOrdered : fine → EveryLeafOf LeafOrdered children)
    {b b' : NfaBuilder}
    {frag : NfaFragment}
    {lang : Language Char}
    {alive : Prop}
    (hCur : Builds fine b b' frag lang alive) :
    Builds fine b (buildRegexSeq children frag b').2 (buildRegexSeq children frag b').1
      (lang * regexProduct cls children) (alive ∧ EveryLeafOf (LeafAlive cls) children) := by
  match children with
  | [] =>
    refine hCur.congr ?_ fun h => h.1
    exact (mul_one lang).symm
  | child :: rest =>
    have hNext := hCur.join (builds_regex hClass child (fun h => (hOrdered h).1) b')
    refine (builds_regexSeq hClass rest (fun h => (hOrdered h).2) hNext).congr ?_ ?_
    · exact mul_assoc _ _ _
    · rintro ⟨hAlive, hChild, hRest⟩
      exact ⟨⟨hAlive, hChild⟩, hRest⟩

lemma builds_regexAlt
    (hClass : ClassesBuilt fine cls)
    (children : List RegexNode)
    (hOrdered : fine → EveryLeafOf LeafOrdered children)
    {b b' : NfaBuilder}
    {sum : Language Char}
    {alive started : Prop}
    (hFan : BuildsFan fine b b' sum alive started) :
    BuildsFan fine b (buildRegexAlt children (outerFragment b) b')
      (sum + regexSum cls children) (alive ∧ EveryLeafOf (LeafAlive cls) children) started := by
  match children with
  | [] =>
    refine hFan.congr ?_ (fun h => h.1) id
    exact (add_zero sum).symm
  | child :: rest =>
    have hNext := hFan.add (builds_regex hClass child (fun h => (hOrdered h).1) b')
    refine (builds_regexAlt hClass rest (fun h => (hOrdered h).2) hNext).congr ?_ ?_
      fun _ => trivial
    · exact add_assoc _ _ _
    · rintro ⟨hAlive, hChild, hRest⟩
      exact ⟨⟨hAlive, hChild⟩, hRest⟩

end

end GoTreeSitter.Grammargen
