import GoTreeSitter.Grammargen.LexCorrect

/-
  Whether an automaton accepts no more than another.

  Main declarations:
    * `wordTransitionsForRange`
    * `dfaAcceptsSubsetOf`
    * `reaches_pairs_iff`
    * `subsetConstruction_isDfa`
    * `dfaAcceptsSubsetOf_iff`

  The search goes over pairs of states that one text leads to. Runes are signed words of 32 bits,
  and `none` stands for the dead state of the automaton for words.
-/

-- Pairs of States

namespace GoTreeSitter.Grammargen

open Ranges List

variable (candidate word dfa : List DfaState)

def runeSucc (r : Int) : Int := if r = 2 ^ 31 - 1 then -2 ^ 31 else r + 1

def dfaStateAt (id : Nat) : DfaState := (dfa[id]?).getD {}

/- A piece of a range and the state for words that it leads to. -/
abbrev WordTransEntry : Type := Labeled (Option Nat)

/- What no transition is left for. -/
def remainingRange (pos hi : Int) : List WordTransEntry :=
  if pos ≤ hi then [⟨pos, hi, none⟩] else []

/- The range from `pos` to `hi` is split at the transitions. -/
def splitRange (hi : Int) : List DfaTransition → Int → List WordTransEntry
  | [], pos => remainingRange pos hi
  | wt :: rest, pos =>
    if wt.hi < pos then
      splitRange hi rest pos
    else if wt.lo > hi then
      remainingRange pos hi
    else
      let gap := if wt.lo > pos then [⟨pos, min (wt.lo - 1) hi, none⟩] else []
      let overlapLo := max pos wt.lo
      let overlapHi := min hi wt.hi
      let overlap := if overlapLo ≤ overlapHi then [⟨overlapLo, overlapHi, some wt.label⟩] else []
      let pos := runeSucc overlapHi
      gap ++ overlap ++ if pos > hi then [] else splitRange hi rest pos

def wordTransitionsForRange (wordState : Option Nat) (lo hi : Int) : List WordTransEntry :=
  match wordState with
  | none => [⟨lo, hi, none⟩]
  | some id => splitRange hi (dfaStateAt word id).transitions lo

/- The pairs after one more rune. -/
def nextPairs (cur : Nat × Option Nat) : List (Nat × Option Nat) :=
  (dfaStateAt candidate cur.1).transitions.flatMap (fun ct =>
    (wordTransitionsForRange word cur.2 ct.lo ct.hi).map (fun wt => (ct.label, wt.label)))

/- Where the candidate accepts, the automaton for words does. -/
def pairAgrees (cur : Nat × Option Nat) : Bool :=
  if 0 < (dfaStateAt candidate cur.1).accept then
    match cur.2 with
    | none => false
    | some id => (dfaStateAt word id).accept != 0
  else
    true

/- There is fuel for each pair of states, and for the empty stack. -/
def dfaAcceptsSubsetOf : Option Bool :=
  if candidate = [] then
    some true
  else if word = [] then
    some (candidate.all (fun s => ! decide (0 < s.accept)))
  else
    Graph.checkAll (nextPairs candidate word) (pairAgrees candidate word)
      (candidate.length * (word.length + 1) + 1) ([(0, some 0)], [(0, some 0)])

-- Texts of Runes

def followRune (state : Option Nat) (r : Int) : Option Nat :=
  state.bind (fun id => labelAt (dfaStateAt dfa id).transitions r)

def followRunes (w : List Int) : Option Nat :=
  w.foldl (followRune dfa) (some 0)

def AcceptsRunes (w : List Int) : Prop :=
  ∃ id : Nat, followRunes dfa w = some id ∧ 0 < (dfaStateAt dfa id).accept

/- Transitions are apart, below the largest rune, and lead to states. -/
structure IsDfa (dfa : List DfaState) : Prop where
  apart : ∀ state ∈ dfa, Apart state.transitions
  runes : ∀ state ∈ dfa, ∀ t ∈ state.transitions, t.hi < 2 ^ 31 - 1
  target : ∀ state ∈ dfa, ∀ t ∈ state.transitions, t.label < dfa.length
  accept : ∀ state ∈ dfa, 0 ≤ state.accept

variable {dfa candidate word : List DfaState}

lemma dfaStateAt_cases (dfa : List DfaState) (id : Nat) :
    dfaStateAt dfa id ∈ dfa ∨ dfaStateAt dfa id = {} := by
  unfold dfaStateAt
  cases hAt : dfa[id]? with
  | none => exact .inr rfl
  | some state => exact .inl (mem_of_getElem? hAt)

lemma IsDfa.apart_at (hDfa : IsDfa dfa) (id : Nat) : Apart (dfaStateAt dfa id).transitions := by
  rcases dfaStateAt_cases dfa id with hIn | hNone
  · exact hDfa.apart _ hIn
  · rw [hNone]
    exact apart_nil

lemma followRune_lt (hDfa : IsDfa dfa) {state : Option Nat} {r : Int} {next : Nat}
    (hNext : followRune dfa state r = some next) :
    next < dfa.length := by
  rcases Option.bind_eq_some_iff.mp hNext with ⟨id, _, hAt⟩
  rcases labelAt_eq_some hAt with ⟨t, ht, rfl, _⟩
  rcases dfaStateAt_cases dfa id with hIn | hNone
  · exact hDfa.target _ hIn t ht
  · simp [hNone] at ht

lemma followRunes_concat (dfa : List DfaState) (w : List Int) (r : Int) :
    followRunes dfa (w ++ [r]) = followRune dfa (followRunes dfa w) r := by
  unfold followRunes
  rw [foldl_append, foldl_cons, foldl_nil]

-- Splitting a Range

/- Each label in the range is the label of a piece. -/
lemma mem_splitRange {hi : Int} (hHi : hi < 2 ^ 31 - 1) {transitions : List DfaTransition}
    (hApart : Apart transitions) {pos : Int} (hPos : pos ≤ hi) (next : Option Nat) :
    (∃ e ∈ splitRange hi transitions pos, e.label = next) ↔
      ∃ x, pos ≤ x ∧ x ≤ hi ∧ labelAt transitions x = next := by
  induction transitions generalizing pos next with
  | nil =>
    unfold splitRange remainingRange
    rw [if_pos hPos]
    constructor
    · rintro ⟨e, he, rfl⟩
      rw [mem_singleton.mp he]
      exact ⟨pos, le_refl pos, hPos, rfl⟩
    · rintro ⟨x, _, _, rfl⟩
      exact ⟨_, mem_singleton_self _, rfl⟩
  | cons wt rest ih =>
    rcases hApart.tail with ⟨hRest, hAfter, hProper⟩
    unfold splitRange
    split
    · rw [ih hRest hPos]
      refine exists_congr fun x => and_congr_right fun hx => ?_
      rw [labelAt_cons, if_neg (by omega)]
    split
    · -- every transition that is left starts after the range
      have hNone : ∀ x, x ≤ hi → labelAt (wt :: rest) x = none := by
        intro x hx
        rw [labelAt_eq_none_iff, forall_mem_cons]
        refine ⟨by omega, fun r hr => ?_⟩
        have := hAfter r hr
        omega
      unfold remainingRange
      rw [if_pos hPos]
      constructor
      · rintro ⟨e, he, rfl⟩
        rw [mem_singleton.mp he]
        exact ⟨pos, le_refl pos, hPos, hNone pos hPos⟩
      · rintro ⟨x, _, hx, rfl⟩
        exact ⟨_, mem_singleton_self _, (hNone x hx).symm⟩
    have hSucc : runeSucc (min hi wt.hi) = min hi wt.hi + 1 := by
      unfold runeSucc
      rw [if_neg (by omega)]
    have hOverlap : max pos wt.lo ≤ min hi wt.hi := by omega
    dsimp only
    rw [hSucc, if_pos hOverlap]
    constructor
    · rintro ⟨e, he, rfl⟩
      rw [mem_append, mem_append] at he
      rcases he with (hGap | hPiece) | hMore
      · split at hGap
        · rw [mem_singleton.mp hGap]
          refine ⟨pos, le_refl pos, hPos, ?_⟩
          rw [labelAt_eq_none_iff, forall_mem_cons]
          refine ⟨by omega, fun r hr => ?_⟩
          have := hAfter r hr
          omega
        · cases hGap
      · rw [mem_singleton.mp hPiece]
        refine ⟨max pos wt.lo, by omega, by omega, ?_⟩
        rw [labelAt_cons, if_pos (by omega)]
      · split at hMore
        · cases hMore
        rcases (ih hRest (by omega) _).mp ⟨e, hMore, rfl⟩ with ⟨x, hx, hx', hLabel⟩
        refine ⟨x, by omega, hx', ?_⟩
        rw [labelAt_cons, if_neg (by omega), hLabel]
    · rintro ⟨x, hx, hx', rfl⟩
      rw [labelAt_cons]
      by_cases hIn : wt.lo ≤ x ∧ x ≤ wt.hi
      · rw [if_pos hIn]
        refine ⟨_, mem_append_left _ (mem_append_right _ (mem_singleton_self _)), rfl⟩
      rw [if_neg hIn]
      by_cases hBelow : x < wt.lo
      · have hNone : labelAt rest x = none := by
          rw [labelAt_eq_none_iff]
          intro r hr
          have := hAfter r hr
          omega
        rw [hNone, if_pos (by omega)]
        exact ⟨_, mem_append_left _ (mem_append_left _ (mem_singleton_self _)), rfl⟩
      · rw [if_neg (show ¬ min hi wt.hi + 1 > hi by omega)]
        rcases (ih hRest (show min hi wt.hi + 1 ≤ hi by omega) _).mpr
          ⟨x, by omega, hx', rfl⟩ with ⟨e, he, hLabel⟩
        exact ⟨e, mem_append_right _ he, hLabel⟩

lemma mem_wordTransitionsForRange (hWord : IsDfa word) {lo hi : Int} (hLo : lo ≤ hi)
    (hHi : hi < 2 ^ 31 - 1) (wordState next : Option Nat) :
    (∃ e ∈ wordTransitionsForRange word wordState lo hi, e.label = next) ↔
      ∃ x, lo ≤ x ∧ x ≤ hi ∧ followRune word wordState x = next := by
  cases wordState with
  | none =>
    constructor
    · rintro ⟨e, he, rfl⟩
      rw [mem_singleton.mp he]
      exact ⟨lo, le_refl lo, hLo, rfl⟩
    · rintro ⟨x, _, _, rfl⟩
      exact ⟨_, mem_singleton_self _, rfl⟩
  | some id => exact mem_splitRange hHi (hWord.apart_at id) hLo next

-- The Search

lemma mem_nextPairs (hCandidate : IsDfa candidate) (hWord : IsDfa word)
    {cur next : Nat × Option Nat} :
    next ∈ nextPairs candidate word cur ↔
      ∃ x,
        followRune candidate (some cur.1) x = some next.1 ∧ followRune word cur.2 x = next.2 := by
  have hPieces : ∀ ct ∈ (dfaStateAt candidate cur.1).transitions,
      next ∈
        (wordTransitionsForRange word cur.2 ct.lo ct.hi).map
          (fun wt => (ct.label, wt.label)) ↔
        ct.label = next.1 ∧ ∃ x, ct.lo ≤ x ∧ x ≤ ct.hi ∧ followRune word cur.2 x = next.2 := by
    intro ct hct
    have hHi : ct.hi < 2 ^ 31 - 1 := by
      rcases dfaStateAt_cases candidate cur.1 with hIn | hNone
      · exact hCandidate.runes _ hIn ct hct
      · simp [hNone] at hct
    rw [← mem_wordTransitionsForRange hWord ((hCandidate.apart_at cur.1).proper ct hct) hHi,
      mem_map]
    constructor
    · rintro ⟨wt, hwt, rfl⟩
      exact ⟨rfl, wt, hwt, rfl⟩
    · rintro ⟨hLabel, wt, hwt, hState⟩
      exact ⟨wt, hwt, Prod.ext hLabel hState⟩
  unfold nextPairs
  rw [mem_flatMap]
  constructor
  · rintro ⟨ct, hct, hNext⟩
    rcases (hPieces ct hct).mp hNext with ⟨hLabel, x, hLo, hHi, hState⟩
    refine ⟨x, ?_, hState⟩
    rw [← hLabel]
    exact labelAt_of_mem (hCandidate.apart_at cur.1) hct ⟨hLo, hHi⟩
  · rintro ⟨x, hFollow, hState⟩
    rcases labelAt_eq_some hFollow with ⟨ct, hct, hLabel, hLo, hHi⟩
    exact ⟨ct, hct, (hPieces ct hct).mpr ⟨hLabel, x, hLo, hHi, hState⟩⟩

/- The pairs that are met are those that some text leads to. -/
lemma reaches_pairs_iff (hCandidate : IsDfa candidate) (hWord : IsDfa word)
    (pair : Nat × Option Nat) :
    Graph.Reaches (nextPairs candidate word) (0, some 0) pair ↔
      ∃ w, followRunes candidate w = some pair.1 ∧ followRunes word w = pair.2 := by
  constructor
  · intro hReaches
    induction hReaches with
    | refl => exact ⟨[], rfl, rfl⟩
    | tail _ hEdge ih =>
      rcases ih with ⟨w, hLeft, hRight⟩
      rcases (mem_nextPairs hCandidate hWord).mp hEdge with ⟨x, hNext, hState⟩
      refine ⟨w ++ [x], ?_, ?_⟩
      · rw [followRunes_concat, hLeft, hNext]
      · rw [followRunes_concat, hRight, hState]
  rintro ⟨w, hLeft, hRight⟩
  induction w using List.reverseRecOn generalizing pair with
  | nil =>
    have hStart : pair = (0, some 0) := Prod.ext (Option.some.inj hLeft).symm hRight.symm
    rw [hStart]
    exact Graph.reaches_refl _ _
  | append_singleton w x ih =>
    rw [followRunes_concat] at hLeft hRight
    rcases Option.bind_eq_some_iff.mp hLeft with ⟨c, hc, _⟩
    rw [hc] at hLeft
    refine (ih (c, followRunes word w) hc rfl).tail ?_
    exact (mem_nextPairs hCandidate hWord).mpr ⟨x, hLeft, hRight⟩

lemma pairAgrees_iff (hWord : IsDfa word) (pair : Nat × Option Nat) :
    pairAgrees candidate word pair ↔
      (0 < (dfaStateAt candidate pair.1).accept →
        ∃ id, pair.2 = some id ∧ 0 < (dfaStateAt word id).accept) := by
  unfold pairAgrees
  split_ifs with hAccepts
  · cases hState : pair.2 with
    | none => simp [hAccepts]
    | some id =>
      have hSign : 0 ≤ (dfaStateAt word id).accept := by
        rcases dfaStateAt_cases word id with hIn | hNone
        · exact hWord.accept _ hIn
        · rw [hNone]
      simp only [bne_iff_ne, Option.some.injEq, exists_eq_left', hAccepts, forall_const]
      omega
  · simp [hAccepts]

/- All pairs of a state and a state or the dead state. -/
lemma nextPairs_within (hCandidate : IsDfa candidate) (hWord : IsDfa word) :
    ∀ m ∈ Finset.range candidate.length ×ˢ (Finset.range word.length).insertNone,
      ∀ n ∈ nextPairs candidate word m,
        n ∈ Finset.range candidate.length ×ˢ (Finset.range word.length).insertNone := by
  intro m _ n hn
  rcases (mem_nextPairs hCandidate hWord).mp hn with ⟨x, hNext, hState⟩
  rw [Finset.mem_product, Finset.mem_range, Finset.mem_insertNone]
  refine ⟨followRune_lt hCandidate hNext, fun id hid => Finset.mem_range.mpr ?_⟩
  rw [Option.mem_def.mp hid] at hState
  exact followRune_lt hWord hState

/- The search ends, and says whether each text that the candidate accepts is accepted as a word. -/
theorem dfaAcceptsSubsetOf_iff
    (hCandidate : IsDfa candidate)
    (hWord : IsDfa word)
    (hStart : word ≠ []) :
    ∃ answer : Bool,
      dfaAcceptsSubsetOf candidate word = some answer ∧
        (answer = true ↔ ∀ w : List Int, AcceptsRunes candidate w → AcceptsRunes word w) := by
  unfold dfaAcceptsSubsetOf
  rw [if_neg hStart]
  split
  · rename_i hEmpty
    refine ⟨true, rfl, fun _ w hAccepts => ?_, fun _ => rfl⟩
    rcases hAccepts with ⟨id, _, hAccept⟩
    simp [dfaStateAt, hEmpty] at hAccept
  rename_i hSome
  have hFloods : Graph.Floods (nextPairs candidate word)
      (Finset.range candidate.length ×ˢ (Finset.range word.length).insertNone)
      ([(0, some 0)], [(0, some 0)]) := by
    refine ⟨nodup_singleton _, ?_, fun n hn => hn, fun m hm hOff => absurd hm hOff⟩
    intro n hn
    have hLeft := length_pos_iff.mpr hSome
    have hRight := length_pos_iff.mpr hStart
    rw [mem_singleton.mp hn]
    simp [hLeft, hRight]
  have hFuel : (Finset.range candidate.length ×ˢ (Finset.range word.length).insertNone).card
      +
      1 <
      candidate.length * (word.length + 1) + 1 + 1 := by
    rw [Finset.card_product, Finset.card_insertNone, Finset.card_range, Finset.card_range]
    omega
  rcases Graph.checkAll_spec (nextPairs_within hCandidate hWord) hFloods
    (fun m hm hOff => absurd hm hOff) hFuel with ⟨answer, hAnswer, hIff⟩
  refine ⟨answer, hAnswer, hIff.trans ⟨?_, ?_⟩⟩
  · rintro hAll w ⟨id, hFollow, hAccept⟩
    have hPair := hAll _ (mem_singleton_self _) (id, followRunes word w)
      ((reaches_pairs_iff hCandidate hWord _).mpr ⟨w, hFollow, rfl⟩)
    exact (pairAgrees_iff hWord _).mp hPair hAccept
  intro hAll m hm pair hReaches
  rw [mem_singleton.mp hm] at hReaches
  rcases (reaches_pairs_iff hCandidate hWord pair).mp hReaches with ⟨w, hLeft, hRight⟩
  refine (pairAgrees_iff hWord pair).mpr fun hAccept => ?_
  rcases hAll w ⟨pair.1, hLeft, hAccept⟩ with ⟨id, hFollow, hAccepts⟩
  exact ⟨id, hRight.symm.trans hFollow, hAccepts⟩

-- What the Subset Construction Emits

/- Characters are below the largest rune. -/
def RunesBelow (n : Nfa) : Prop :=
  ∀ q : Nat, ∀ t ∈ n.transitions q, t.hi < 2 ^ 31 - 1

lemma accept_newDfaState_nonneg (n : Nfa) (S : List Nat) : 0 ≤ (newDfaState n S).accept := by
  have hBest := bestAccept_bestOf n S
  unfold newDfaState
  cases hPick : bestAccept n S with
  | none => exact Int.le_refl 0
  | some best =>
    rw [hPick] at hBest
    exact hBest.2.1.le

/- A transition is some range of the first automaton at its end, and leads to a known set. -/
lemma RowRight.inside
    {n : Nfa}
    {sets : List (List Nat)}
    {S : List Nat}
    {transitions : List DfaTransition}
    (hRow : RowRight n sets S transitions)
    (hRunes : RunesBelow n)
    {t : DfaTransition}
    (ht : t ∈ transitions) :
    t.hi < 2 ^ 31 - 1 ∧ t.label < sets.length := by
  have hNext := hRow.next t.hi
  rw [labelAt_of_mem hRow.apart ht ⟨hRow.apart.proper t ht, Int.le_refl _⟩] at hNext
  rcases hNext with ⟨seeds, hSome, hSeeds, hSet⟩
  rcases exists_mem_of_ne_nil seeds hSome with ⟨k, hk⟩
  rcases (hSeeds k).mp hk with ⟨q, _, edge, hEdge, _, _, _, hHi⟩
  have hBelow := hRunes q edge hEdge
  exact ⟨by omega, (List.getElem?_eq_some_iff.mp hSet).1⟩

/- The construction ends with an automaton that has a state. -/
lemma subsetConstruction_isDfa
    {n : Nfa}
    (hOrdered : EdgesOrdered n.states)
    (hRunes : RunesBelow n) :
    ∃ dfa : List DfaState,
      dfa ≠ [] ∧ IsDfa dfa ∧
        ∀ fuel : Nat, 2 ^ (n.targets.length + 1) ≤ fuel → subsetConstruction n fuel = some dfa := by
  rcases subsetConstruction_explored hOrdered with ⟨s, hExplored, hDone⟩
  have hLength := hExplored.known.length
  have hFirst := (List.getElem?_eq_some_iff.mp hExplored.known.first).1
  -- each state stands for a set that is expanded
  have hState : ∀ state ∈ s.dfaStates, ∃ S : List Nat,
      RowRight n s.stateSets S state.transitions ∧ state.accept = (newDfaState n S).accept := by
    intro state hMem
    rcases List.mem_iff_getElem?.mp hMem with ⟨i, hAt⟩
    have hLt : i < s.stateSets.length := hLength ▸ (List.getElem?_eq_some_iff.mp hAt).1
    have hSet := getElem?_eq_getElem hLt
    exact ⟨_, hExplored.rows i _ state hLt hSet hAt, (hExplored.known.accepts i _ state hSet hAt).1⟩
  refine ⟨s.dfaStates, ne_nil_of_length_pos (by omega), ⟨?_, ?_, ?_, ?_⟩, hDone⟩
  · intro state hMem
    rcases hState state hMem with ⟨S, hRow, _⟩
    exact hRow.apart
  · intro state hMem t ht
    rcases hState state hMem with ⟨S, hRow, _⟩
    exact (hRow.inside hRunes ht).1
  · intro state hMem t ht
    rcases hState state hMem with ⟨S, hRow, _⟩
    exact hLength ▸ (hRow.inside hRunes ht).2
  · intro state hMem
    rcases hState state hMem with ⟨S, _, hAccept⟩
    rw [hAccept]
    exact accept_newDfaState_nonneg n S

/- A keyword, and the words of small letters. -/
def keywordNfa : Nfa where
  states := [⟨[⟨105, 105, false, 1⟩], 0, 0, 0⟩, ⟨[⟨102, 102, false, 2⟩], 0, 0, 0⟩, ⟨[], 1, 0, 0⟩]
  start := 0

def wordNfa : Nfa where
  states := [⟨[⟨97, 122, false, 1⟩], 0, 0, 0⟩, ⟨[⟨0, 0, true, 0⟩], 1, 0, 0⟩]
  start := 0

theorem dfaAcceptsSubsetOf_keyword :
    ∃ keyword word : List DfaState,
      subsetConstruction keywordNfa 8 = some keyword ∧
        subsetConstruction wordNfa 8 = some word ∧
        dfaAcceptsSubsetOf keyword word = some true ∧
        dfaAcceptsSubsetOf word keyword = some false ∧
        ∀ w : List Int, AcceptsRunes keyword w → AcceptsRunes word w := by
  have hEdges : ∀ n ∈ [keywordNfa, wordNfa],
      (∀ state ∈ n.states, ∀ t ∈ state.transitions, t.lo ≤ t.hi) ∧
        ∀ state ∈ n.states, ∀ t ∈ state.transitions, t.hi < 2 ^ 31 - 1 := by decide
  have hDfa : ∀ n ∈ [keywordNfa, wordNfa], ∃ dfa : List DfaState,
      dfa ≠ [] ∧ IsDfa dfa ∧
        ∀ fuel : Nat, 2 ^ (n.targets.length + 1) ≤ fuel → subsetConstruction n fuel = some dfa := by
    intro n hn
    refine subsetConstruction_isDfa (hEdges n hn).1 ?_
    intro q t ht
    rcases mem_transitions.mp ht with ⟨state, hState, hIn⟩
    exact (hEdges n hn).2 state (mem_of_getElem? hState) t hIn
  rcases hDfa keywordNfa (by decide) with ⟨keyword, _, hKeyword, hKeywordDone⟩
  rcases hDfa wordNfa (by decide) with ⟨word, hStart, hWord, hWordDone⟩
  have hFirst := hKeywordDone 8 (by decide)
  have hSecond := hWordDone 8 (by decide)
  have hAnswers : ((subsetConstruction keywordNfa 8).bind fun keyword =>
      (subsetConstruction wordNfa 8).bind fun word =>
        (dfaAcceptsSubsetOf keyword word).bind fun answer =>
          (dfaAcceptsSubsetOf word keyword).map fun back => (answer, back)) =
      some (true, false) := by decide
  rw [hFirst, hSecond] at hAnswers
  rcases dfaAcceptsSubsetOf_iff hKeyword hWord hStart with ⟨answer, hAnswer, hIff⟩
  simp only [Option.bind_some, hAnswer, Option.map_eq_some_iff, Prod.mk.injEq] at hAnswers
  rcases hAnswers with ⟨back, hBack, rfl, rfl⟩
  exact ⟨keyword, word, hFirst, hSecond, hAnswer, hBack, hIff.mp rfl⟩

end GoTreeSitter.Grammargen
