import GoTreeSitter.Automata.Gluing
import GoTreeSitter.Grammargen.TerminalLanguage

/-
  Fragments of the automaton read the texts they are for.

  Main declarations:
    * `nfaEdges` and `nfaTag`
    * `Builds`
    * `builds_string`
    * `builds_count`

  Building appends states and changes nothing before them. The new states are a piece of the
  automaton, with the start and the end of the fragment.
-/

-- Edges

namespace GoTreeSitter.Grammargen

open List

variable {source : Nat}

/- A transition reads a character, or nothing. -/
def TransitionReads (t : NfaTransition) : Option Char → Prop
  | none => t.epsilon = true
  | some c => t.epsilon = false ∧ t.lo ≤ c.toNat ∧ (c.toNat : Int) ≤ t.hi

/- The edges of the states built so far. -/
def nfaEdges (b : NfaBuilder) (q : Nat) (a : Option Char) : Set Nat :=
  {y | ∃ state : NfaState, b[q]? = some state ∧ ∃ t ∈ state.transitions,
      TransitionReads t a ∧ t.nextState = y}

/- What a state accepts. -/
def nfaTag (b : NfaBuilder) (q : Nat) : Int × Int × Nat :=
  let state := (b[q]?).getD {}
  (state.accept, state.priority, state.tieOrder)

variable {b : NfaBuilder}

lemma nfaEdges_of_le {q : Nat} (hOut : b.length ≤ q) (a : Option Char) : nfaEdges b q a = ∅ := by
  rw [Set.eq_empty_iff_forall_notMem]
  rintro y ⟨state, hState, _⟩
  rw [getElem?_eq_none hOut] at hState
  cases hState

lemma nfaTag_of_le {q : Nat} (hOut : b.length ≤ q) : nfaTag b q = (0, 0, 0) := by
  unfold nfaTag
  rw [getElem?_eq_none hOut]
  rfl

lemma mem_nfaEdges_addTransition (hSource : source < b.length) (t : NfaTransition) (q : Nat)
    (a : Option Char) (y : Nat) :
    y ∈ nfaEdges (addTransition b source t) q a ↔
      y ∈ nfaEdges b q a ∨ (q = source ∧ TransitionReads t a ∧ y = t.nextState) := by
  by_cases hHere : q = source
  · subst hHere
    have hAt : (addTransition b q t)[q]? =
        some { b[q] with transitions := b[q].transitions ++ [t] } := by
      unfold addTransition
      rw [getElem?_modify, getElem?_eq_getElem hSource]
      simp
    unfold nfaEdges
    simp only [Set.mem_ofPred_eq, hAt, getElem?_eq_getElem hSource, Option.some.injEq,
      exists_eq_left', mem_append, mem_singleton]
    constructor
    · rintro ⟨other, hOther | rfl, hReads, rfl⟩
      · exact .inl ⟨other, hOther, hReads, rfl⟩
      · exact .inr ⟨trivial, hReads, rfl⟩
    rintro (⟨other, hOther, hReads, rfl⟩ | ⟨_, hReads, rfl⟩)
    · exact ⟨other, .inl hOther, hReads, rfl⟩
    · exact ⟨t, .inr rfl, hReads, rfl⟩
  · have hAt : (addTransition b source t)[q]? = b[q]? := by
      unfold addTransition
      rw [getElem?_modify]
      have hOther : source ≠ q := fun h => hHere h.symm
      simp [hOther]
    unfold nfaEdges
    simp [hAt, hHere]

section

variable (b : NfaBuilder)

/- A new state has no edges, like no state. -/
lemma nfaEdges_addState : nfaEdges (addState b).2 = nfaEdges b := by
  funext q a
  ext y
  unfold nfaEdges addState
  by_cases hLt : q < b.length
  · rw [Set.mem_ofPred_eq, Set.mem_ofPred_eq, getElem?_append_left hLt]
  constructor
  · rintro ⟨state, hState, t, ht, _⟩
    rw [getElem?_append_right (Nat.not_lt.mp hLt), getElem?_singleton] at hState
    split at hState
    · cases hState
      cases ht
    · cases hState
  · rintro ⟨state, hState, _⟩
    rw [getElem?_eq_none (Nat.not_lt.mp hLt)] at hState
    cases hState

lemma nfaTag_addState (q : Nat) : nfaTag (addState b).2 q = nfaTag b q := by
  by_cases hLt : q < b.length
  · unfold nfaTag addState
    rw [getElem?_append_left hLt]
  rw [nfaTag_of_le (Nat.not_lt.mp hLt)]
  unfold nfaTag addState
  rw [getElem?_append_right (Nat.not_lt.mp hLt), getElem?_singleton]
  split
  · rfl
  · rfl

@[simp]
lemma length_addState : (addState b).2.length = b.length + 1 := by
  unfold addState
  rw [length_append, length_singleton]

lemma length_addTransition (source : Nat) (t : NfaTransition) :
    (addTransition b source t).length = b.length := length_modify _ _ _

lemma nfaTag_addTransition (source : Nat) (t : NfaTransition) (q : Nat) :
    nfaTag (addTransition b source t) q = nfaTag b q := by
  unfold nfaTag addTransition
  rw [getElem?_modify]
  cases b[q]? with
  | none => rfl
  | some state =>
    by_cases hHere : source = q
    · simp [hHere]
    · simp [hHere]

end

lemma mem_nfaEdges_addEpsilon (hSource : source < b.length) (target q : Nat) (a : Option Char)
    (y : Nat) :
    y ∈ nfaEdges (addEpsilon b source target) q a ↔
      y ∈ nfaEdges b q a ∨ (q = source ∧ a = none ∧ y = target) := by
  unfold addEpsilon
  rw [mem_nfaEdges_addTransition hSource]
  cases a with
  | none => simp [TransitionReads]
  | some c => simp [TransitionReads]

lemma mem_nfaEdges_addCharRange (hSource : source < b.length) (lo hi : Int) (target q : Nat)
    (a : Option Char) (y : Nat) :
    y ∈ nfaEdges (addCharRange b source lo hi target) q a ↔
      y ∈ nfaEdges b q a ∨
        (q = source ∧ (∃ c, a = some c ∧ RuneRange.Has ⟨lo, hi⟩ c) ∧ y = target) := by
  unfold addCharRange
  rw [mem_nfaEdges_addTransition hSource]
  cases a with
  | none => simp [TransitionReads]
  | some c => simp [TransitionReads, RuneRange.Has]

-- Built Pieces

open Automata

variable {ranges : List RuneRange}

/- No edge has a reversed range. -/
def EdgesOrdered (b : NfaBuilder) : Prop := ∀ state ∈ b, ∀ t ∈ state.transitions, t.lo ≤ t.hi

lemma edgesOrdered_addState {b : NfaBuilder} (hOrdered : EdgesOrdered b) :
    EdgesOrdered (addState b).2 := by
  intro state hState t ht
  rcases mem_append.mp hState with hOld | hNew
  · exact hOrdered state hOld t ht
  · rw [mem_singleton.mp hNew] at ht
    cases ht

lemma edgesOrdered_addTransition {b : NfaBuilder} (hOrdered : EdgesOrdered b) (source : Nat)
    {t : NfaTransition} (hRange : t.lo ≤ t.hi) :
    EdgesOrdered (addTransition b source t) := by
  intro state hState t' ht'
  rcases mem_iff_getElem?.mp hState with ⟨q, hAt⟩
  unfold addTransition at hAt
  rw [getElem?_modify] at hAt
  cases hOld : b[q]? with
  | none => simp [hOld] at hAt
  | some old =>
    have hMem := mem_of_getElem? hOld
    rw [hOld] at hAt
    by_cases hHere : source = q
    · simp only [hHere, if_true, Option.map_eq_map, Option.map_some, Option.some.injEq] at hAt
      subst hAt
      rcases mem_append.mp ht' with hFirst | hLast
      · exact hOrdered old hMem t' hFirst
      · rw [mem_singleton.mp hLast]
        exact hRange
    · simp only [hHere, if_false, Option.map_eq_map, Option.map_some, Option.some.injEq] at hAt
      subst hAt
      exact hOrdered old hMem t' ht'

/- The new states of a builder, which keep the old ones. No edge is reversed if all is `fine`. -/
structure Extends (fine : Prop) (b b' : NfaBuilder) : Prop where
  grows : b.length ≤ b'.length
  old : ∀ q : Nat, q < b.length → nfaEdges b' q = nfaEdges b q
  tags : ∀ q : Nat, nfaTag b' q = nfaTag b q
  ordered : fine → EdgesOrdered b → EdgesOrdered b'

/- The new states are a fragment for a language. -/
structure Builds (fine : Prop) (b b' : NfaBuilder) (frag : NfaFragment) (lang : Language Char)
    (alive : Prop) : Prop extends Extends fine b b' where
  piece : Piece (nfaEdges b') (Set.Ico b.length b'.length) frag.start frag.stop lang alive

variable {b b' b'' : NfaBuilder} {frag frag' : NfaFragment} {lang lang' : Language Char}
  {alive alive' fine : Prop}

lemma Extends.trans (hFirst : Extends fine b b') (hSecond : Extends fine b' b'') :
    Extends fine b b'' where
  grows := hFirst.grows.trans hSecond.grows
  old := by
    intro q hq
    rw [hSecond.old q (hq.trans_le hFirst.grows)]
    exact hFirst.old q hq
  tags := by
    intro q
    rw [hSecond.tags]
    exact hFirst.tags q
  ordered := fun hFine h => hSecond.ordered hFine (hFirst.ordered hFine h)

lemma Extends.addState (b : NfaBuilder) : Extends fine b (addState b).2 where
  grows := by
    rw [length_addState]
    exact Nat.le_succ _
  old := by
    intro q _
    rw [nfaEdges_addState]
  tags := nfaTag_addState b
  ordered := fun _ => edgesOrdered_addState

section

variable (hExt : Extends fine b b') (hNew : b.length ≤ source) (hSource : source < b'.length)

include hExt hNew hSource

/- Edges from new states keep the old ones. -/
lemma Extends.addTransition {t : NfaTransition} (hRange : fine → t.lo ≤ t.hi) :
    Extends fine b (addTransition b' source t) where
  ordered := fun hFine h =>
    edgesOrdered_addTransition (hExt.ordered hFine h) source (hRange hFine)
  grows := by
    rw [length_addTransition]
    exact hExt.grows
  old := by
    intro q hq
    rw [← hExt.old q hq]
    funext a
    ext y
    rw [mem_nfaEdges_addTransition hSource]
    constructor
    · rintro (hOld | ⟨rfl, _⟩)
      · exact hOld
      · omega
    · exact .inl
  tags := by
    intro q
    rw [nfaTag_addTransition]
    exact hExt.tags q

lemma Extends.addEpsilon (target : Nat) : Extends fine b (addEpsilon b' source target) :=
  hExt.addTransition hNew hSource fun _ => Int.le_refl 0

lemma Extends.addCharRange {lo hi : Int} (hRange : fine → lo ≤ hi) (target : Nat) :
    Extends fine b (addCharRange b' source lo hi target) := hExt.addTransition hNew hSource hRange

end

@[simp]
lemma length_addEpsilon (b : NfaBuilder) (source target : Nat) :
    (addEpsilon b source target).length = b.length := length_addTransition _ _ _

lemma length_addCharRange (b : NfaBuilder) (source : Nat) (lo hi : Int) (target : Nat) :
    (addCharRange b source lo hi target).length = b.length := length_addTransition _ _ _

section

variable (hBuilds : Builds fine b b' frag lang alive)

include hBuilds

/- The start and the end of a fragment are new. -/
lemma Builds.bounds :
    (b.length ≤ frag.start ∧ frag.start < b'.length) ∧ b.length ≤ frag.stop ∧
      frag.stop < b'.length :=
  ⟨hBuilds.piece.entry_mem, hBuilds.piece.exit_mem⟩

lemma Builds.congr (hLang : lang = lang') (hAlive : alive' → alive) :
    Builds fine b b' frag lang' alive' := by
  subst hLang
  exact ⟨hBuilds.toExtends, hBuilds.piece.entry_mem, hBuilds.piece.exit_mem, hBuilds.piece.closed,
    hBuilds.piece.reads, fun h => hBuilds.piece.live (hAlive h)⟩

lemma Builds.piece_after (hExt : Extends fine b' b'') :
    Piece (nfaEdges b'') (Set.Ico b.length b'.length) frag.start frag.stop lang alive :=
  hBuilds.piece.congr (fun q hq => hExt.old q hq.2)

end

/- Two fragments with edges between them. -/
lemma Builds.linkPieces
    (hFirst : Builds fine b b' frag lang alive)
    (hSecond : Builds fine b' b'' frag' lang' alive')
    (labels : Set (Option Char))
    (last : NfaBuilder)
    (hLength : last.length = b''.length)
    (hExt : Extends fine b last)
    (hEdges : ∀ q a y,
      y ∈ nfaEdges last q a ↔
        y ∈ nfaEdges b'' q a ∨ (q = frag.stop ∧ a ∈ labels ∧ y = frag'.start)) :
    Builds fine b last ⟨frag.start, frag'.stop⟩ (lang * letters labels * lang')
      (alive ∧ alive' ∧ labels.Nonempty) := by
  refine ⟨hExt, ?_⟩
  have hUnion : Set.Ico b.length last.length =
      Set.Ico b.length b'.length ∪ Set.Ico b'.length b''.length := by
    rw [hLength, Set.Ico_union_Ico_eq_Ico hFirst.grows hSecond.grows]
  rw [hUnion]
  refine (hFirst.piece_after hSecond.toExtends).link hSecond.piece ?_ labels ?_ ?_
  · simp
  · intro q _ hNe
    funext a
    ext y
    rw [hEdges]
    simp [hNe]
  · intro a y
    rw [hEdges]
    simp

/- One fragment after another. -/
lemma Builds.join (hFirst : Builds fine b b' frag lang alive)
    (hSecond : Builds fine b' b'' frag' lang' alive') :
    Builds fine b (addEpsilon b'' frag.stop frag'.start) ⟨frag.start, frag'.stop⟩
      (lang * lang') (alive ∧ alive') := by
  have hStop := hFirst.bounds.2
  have hLt : frag.stop < b''.length := hStop.2.trans_le hSecond.grows
  have hLink := hFirst.linkPieces hSecond {none} _ (length_addEpsilon b'' frag.stop frag'.start)
      ((hFirst.toExtends.trans hSecond.toExtends).addEpsilon hStop.1 hLt _)
      (by
        intro q a y
        rw [mem_nfaEdges_addEpsilon hLt, Set.mem_singleton_iff])
  refine hLink.congr ?_ ?_
  · rw [letters_silent, mul_one]
  · simp

-- Simple Fragments

/- A new state reads nothing. -/
lemma builds_point (b : NfaBuilder) : Builds fine b (addState b).2 ⟨b.length, b.length⟩ 1 True := by
  refine ⟨Extends.addState b, ?_⟩
  have hPart : Set.Ico b.length (addState b).2.length = {b.length} := by
    ext q
    rw [length_addState, Set.mem_Ico, Set.mem_singleton_iff]
    omega
  rw [hPart]
  refine Piece.point fun a => ?_
  rw [nfaEdges_addState]
  exact nfaEdges_of_le le_rfl a

lemma builds_epsilon (b : NfaBuilder) :
    Builds fine b (buildEpsilon b).2 (buildEpsilon b).1 1 True := by
  refine ((builds_point b).join (builds_point (addState b).2)).congr (mul_one 1) ?_
  exact fun _ => ⟨trivial, trivial⟩

lemma foldl_addCharRange
    (hRanges : fine → ∀ r ∈ ranges, r.lo ≤ r.hi)
    (target : Nat)
    (hExt : Extends fine b b')
    (hNew : b.length ≤ source)
    (hSource : source < b'.length) :
    Extends fine b (ranges.foldl (fun b r => addCharRange b source r.lo r.hi target) b') ∧
      (ranges.foldl (fun b r => addCharRange b source r.lo r.hi target) b').length = b'.length ∧
      ∀ q a y,
        y ∈
          nfaEdges (ranges.foldl (fun b r => addCharRange b source r.lo r.hi target) b') q a ↔
          y ∈ nfaEdges b' q a ∨
            (q = source ∧ (∃ c, a = some c ∧ ∃ r ∈ ranges, r.Has c) ∧ y = target) := by
  induction ranges generalizing b' with
  | nil =>
    refine ⟨hExt, rfl, ?_⟩
    intro q a y
    simp
  | cons r ranges ih =>
    have hLength : (addCharRange b' source r.lo r.hi target).length = b'.length :=
      length_addCharRange _ _ _ _ _
    have hNext : Extends fine b (addCharRange b' source r.lo r.hi target) :=
      hExt.addCharRange hNew hSource (fun hFine => hRanges hFine r mem_cons_self) _
    rcases ih (fun hFine other hOther => hRanges hFine other (mem_cons_of_mem r hOther))
        hNext (hLength ▸ hSource) with
      ⟨hLast, hCount, hEdges⟩
    refine ⟨hLast, hCount.trans hLength, ?_⟩
    intro q a y
    rw [foldl_cons, hEdges, mem_nfaEdges_addCharRange hSource]
    constructor
    · rintro ((hOld | ⟨rfl, ⟨c, rfl, hHas⟩, rfl⟩) | ⟨rfl, ⟨c, rfl, other, hOther, hHas⟩, rfl⟩)
      · exact .inl hOld
      · exact .inr ⟨rfl, ⟨c, rfl, r, mem_cons_self, hHas⟩, rfl⟩
      · exact .inr ⟨rfl, ⟨c, rfl, other, mem_cons_of_mem r hOther, hHas⟩, rfl⟩
    rintro (hOld | ⟨rfl, ⟨c, rfl, other, hOther, hHas⟩, rfl⟩)
    · exact .inl (.inl hOld)
    rcases mem_cons.mp hOther with rfl | hRest
    · exact .inl (.inr ⟨rfl, ⟨c, rfl, hHas⟩, rfl⟩)
    · exact .inr ⟨rfl, ⟨c, rfl, other, hRest, hHas⟩, rfl⟩

lemma letters_chars (p : Char → Prop) :
    letters {a : Option Char | ∃ c, a = some c ∧ p c} = charLang p := by
  ext w
  constructor
  · rintro ⟨a, ⟨c, rfl, hc⟩, rfl⟩
    exact ⟨c, hc, rfl⟩
  · rintro ⟨c, hc, rfl⟩
    exact ⟨some c, ⟨c, rfl, hc⟩, rfl⟩

/- Two fragments with a character between them. -/
lemma Builds.linkRanges (hFirst : Builds fine b b' frag lang alive)
    (hSecond : Builds fine b' b'' frag' lang' alive') (hRanges : fine → ∀ r ∈ ranges, r.lo ≤ r.hi) :
    Builds fine b
      (ranges.foldl (fun b r => addCharRange b frag.stop r.lo r.hi frag'.start) b'')
      ⟨frag.start, frag'.stop⟩ (lang * charLang (fun c => ∃ r ∈ ranges, r.Has c) * lang')
      (alive ∧ alive' ∧ ∃ c, ∃ r ∈ ranges, r.Has c) := by
  have hStop := hFirst.bounds.2
  have hLt : frag.stop < b''.length := hStop.2.trans_le hSecond.grows
  rcases foldl_addCharRange hRanges frag'.start (hFirst.toExtends.trans hSecond.toExtends) hStop.1
      hLt with ⟨hExt, hLength, hEdges⟩
  have hLink := hFirst.linkPieces hSecond {a | ∃ c, a = some c ∧ ∃ r ∈ ranges, r.Has c}
      _ hLength hExt hEdges
  refine hLink.congr ?_ ?_
  · rw [letters_chars]
  · rintro ⟨hAlive, hAlive', c, hc⟩
    exact ⟨hAlive, hAlive', some c, c, rfl, hc⟩

lemma builds_ranges (hRanges : fine → ∀ r ∈ ranges, r.lo ≤ r.hi) (b : NfaBuilder) :
    Builds fine b (buildRanges ranges b).2 (buildRanges ranges b).1
      (charLang (fun c => ∃ r ∈ ranges, r.Has c)) (∃ c, ∃ r ∈ ranges, r.Has c) := by
  have hLink := (builds_point b).linkRanges (builds_point (addState b).2) hRanges
  refine hLink.congr ?_ ?_
  · rw [one_mul, mul_one]
  · simp

lemma has_single_iff (c c' : Char) : (∃ r ∈ [RuneRange.mk c.toNat c.toNat], r.Has c') ↔ c' = c := by
  simp only [mem_singleton, exists_eq_left, RuneRange.Has]
  constructor
  · rintro ⟨hLe, hGe⟩
    have hNat : c'.toNat = c.toNat := by omega
    exact Char.toNat_inj.mp hNat
  · rintro rfl
    exact ⟨Int.le_refl _, Int.le_refl _⟩

lemma charLang_single (c : Char) :
    charLang (fun c' => ∃ r ∈ [RuneRange.mk c.toNat c.toNat], r.Has c') = {[c]} := by
  ext w
  constructor
  · rintro ⟨c', hc, rfl⟩
    rw [(has_single_iff c c').mp hc]
    rfl
  · rintro rfl
    exact ⟨c, (has_single_iff c c).mpr rfl, rfl⟩

lemma singleton_mul_singleton (u v : List Char) : ({u} : Language Char) * {v} = {u ++ v} := by
  ext w
  rw [Language.mem_mul]
  constructor
  · rintro ⟨_, rfl, _, rfl, rfl⟩
    rfl
  · rintro rfl
    exact ⟨u, rfl, v, rfl, rfl⟩

lemma Builds.chars (hBuilds : Builds fine b b' frag lang alive) (chars : List Char) :
    Builds fine b (buildChars chars frag b').2 (buildChars chars frag b').1 (lang * {chars})
      alive := by
  induction chars generalizing b' frag lang alive with
  | nil =>
    refine hBuilds.congr ?_ id
    exact (mul_one lang).symm
  | cons c chars ih =>
    have hRange : ∀ r ∈ [RuneRange.mk c.toNat c.toNat], r.lo ≤ r.hi := by
      simp
    have hLink := hBuilds.linkRanges (builds_point b') fun _ => hRange
    have hNext : Builds fine b
        (addCharRange (addState b').2 frag.stop c.toNat c.toNat b'.length)
        ⟨frag.start, b'.length⟩ (lang * {[c]}) alive :=
      hLink.congr (by rw [charLang_single, mul_one])
        (fun h => ⟨h, trivial, c, (has_single_iff c c).mpr rfl⟩)
    refine (ih hNext).congr ?_ id
    rw [mul_assoc, singleton_mul_singleton]
    rfl

/- The fragment of a literal. -/
lemma builds_string (text : String) (b : NfaBuilder) :
    Builds fine b (buildString text b).2 (buildString text b).1 (stringLang text) True := by
  unfold buildString
  split_ifs with hEmpty
  · refine (builds_epsilon b).congr ?_ id
    rcases hEmpty with rfl | hNul
    · rfl
    · exact (if_pos hNul).symm
  · refine ((builds_point b).chars text.toList).congr ?_ id
    rw [one_mul]
    exact (if_neg fun h => hEmpty (.inr h)).symm

-- Repeated Fragments

open Computability

/- Silent edges, one after another. -/
def addEpsilons (edges : List (Nat × Nat)) (b : NfaBuilder) : NfaBuilder :=
  edges.foldl (fun b edge => addEpsilon b edge.1 edge.2) b

section

variable {edges : List (Nat × Nat)} (hExt : Extends fine b b')
  (hNew : ∀ edge ∈ edges, b.length ≤ edge.1 ∧ edge.1 < b'.length)

include hExt hNew

lemma Extends.addEpsilons_spec :
    Extends fine b (addEpsilons edges b') ∧ (addEpsilons edges b').length = b'.length ∧
      ∀ q a y,
        y ∈ nfaEdges (addEpsilons edges b') q a ↔
          y ∈ nfaEdges b' q a ∨ (a = none ∧ (q, y) ∈ edges) := by
  induction edges generalizing b' with
  | nil => exact ⟨hExt, rfl, by simp [addEpsilons]⟩
  | cons edge edges ih =>
    rw [forall_mem_cons] at hNew
    have hLength := length_addEpsilon b' edge.1 edge.2
    obtain ⟨hAll, hCount, hMem⟩ := ih (hExt.addEpsilon hNew.1.1 hNew.1.2 edge.2) (by
      rw [hLength]
      exact hNew.2)
    refine ⟨hAll, hCount.trans hLength, ?_⟩
    intro q a y
    refine (hMem q a y).trans ?_
    rw [mem_nfaEdges_addEpsilon hNew.1.2, mem_cons, Prod.ext_iff]
    tauto

/- New states with silent edges are a fragment if they are a piece. -/
lemma Extends.builds
    (hPiece : ∀ edges' : Nat → Option Char → Set Nat,
      (∀ q a y, y ∈ edges' q a ↔ y ∈ nfaEdges b' q a ∨ (a = none ∧ (q, y) ∈ edges)) →
        Piece edges' (Set.Ico b.length b'.length) frag.start frag.stop lang alive) :
    Builds fine b (addEpsilons edges b') frag lang alive := by
  obtain ⟨hAll, hCount, hMem⟩ := hExt.addEpsilons_spec hNew
  refine ⟨hAll, ?_⟩
  rw [hCount]
  exact hPiece _ hMem

end

section

variable (hInner : Builds fine b b' frag lang alive)

include hInner

/- A new start and a new end around a fragment. -/
lemma Builds.wrap (skip loop : Bool) :
    Builds fine b (wrapFragment skip loop frag b').2 (wrapFragment skip loop frag b').1
      (skipped skip + lang * repeated loop lang) alive := by
  have hStop := hInner.bounds.2
  have hCount : (addState (addState b').2).2.length = b'.length + 2 := by
    rw [length_addState, length_addState]
  have hWrap : wrapFragment skip loop frag b' =
      (⟨b'.length, b'.length + 1⟩, addEpsilons
        ((b'.length, frag.start) ::
          ((if skip = true then [(b'.length, b'.length + 1)] else []) ++
            (if loop = true then [(frag.stop, frag.start)] else []) ++
            [(frag.stop, b'.length + 1)])) (addState (addState b').2).2) := by
    have hNext : (addState (addState b').2).1 = b'.length + 1 := length_addState b'
    unfold wrapFragment
    dsimp only
    rw [hNext]
    cases skip <;> cases loop <;> rfl
  rw [hWrap]
  refine ((hInner.toExtends.trans (Extends.addState b')).trans (Extends.addState _)).builds ?_ ?_
  · intro edge hEdge
    rw [hCount]
    simp only [mem_cons, mem_append, mem_ite_nil_right, not_mem_nil, or_false] at hEdge
    rcases hEdge with rfl | (⟨_, rfl⟩ | ⟨_, rfl⟩) | rfl <;> simp only <;> omega
  intro edges' hMem
  have hEdges : ∀ q a y,
      y ∈ edges' q a ↔
        y ∈ nfaEdges b' q a ∨
          (a = none ∧
            (q = b'.length ∧ (y = frag.start ∨ (skip ∧ y = b'.length + 1)) ∨
              q = frag.stop ∧ (y = b'.length + 1 ∨ (loop ∧ y = frag.start)))) := by
    intro q a y
    rw [hMem, nfaEdges_addState, nfaEdges_addState]
    simp only [mem_cons, mem_append, mem_ite_nil_right, not_mem_nil, or_false, Prod.mk.injEq]
    tauto
  have hPart : Set.Ico b.length (addState (addState b').2).2.length =
      Set.Ico b.length b'.length ∪ {b'.length, b'.length + 1} := by
    ext q
    simp only [hCount, Set.mem_Ico, Set.mem_union, Set.mem_insert_iff, Set.mem_singleton_iff]
    omega
  rw [hPart]
  have hOther : frag.stop ≠ b'.length := by omega
  refine hInner.piece.wrap skip loop ?_ ?_ ?_ ?_ ?_ ?_ ?_
  · exact fun h => lt_irrefl _ h.2
  · simp
  · omega
  · intro q hq hNe
    funext a
    ext y
    have hLt := hq.2
    have hFront : q ≠ b'.length := by omega
    simp [hEdges, hNe, hFront]
  · intro a y
    simp [hEdges, hOther]
  · intro a y
    simp [hEdges, nfaEdges_of_le le_rfl a, hOther.symm]
  · intro a
    rw [Set.eq_empty_iff_forall_notMem]
    intro y
    have hBack : b'.length + 1 ≠ frag.stop := by omega
    simp [hEdges, nfaEdges_of_le (Nat.le_succ _) a, hBack]

lemma Builds.star :
    Builds fine b (starFragment frag b').2 (starFragment frag b').1 lang∗ alive := by
  refine (hInner.wrap true true).congr ?_ id
  exact Language.one_add_self_mul_kstar_eq_kstar lang

lemma Builds.plus :
    Builds fine b (plusFragment frag b').2 (plusFragment frag b').1 (lang * lang∗) alive := by
  refine (hInner.wrap false true).congr ?_ id
  exact zero_add (lang * lang∗)

lemma Builds.optional :
    Builds fine b (optionalFragment frag b').2 (optionalFragment frag b').1 (1 + lang) alive := by
  refine (hInner.wrap true false).congr ?_ id
  exact congrArg (1 + ·) (mul_one lang)

end

-- Counted Fragments

/- A fragment may be built anywhere. -/
def BuildsAnywhere (fine : Prop) (build : NfaBuilder → NfaFragment × NfaBuilder)
    (lang : Language Char) (alive : Prop) : Prop :=
  ∀ b : NfaBuilder, Builds fine b (build b).2 (build b).1 lang alive

variable {build : NfaBuilder → NfaFragment × NfaBuilder}

/- One copy that may be left out. -/
lemma Builds.optionalTail (hFirst : Builds fine b b' frag lang alive)
    (hSecond : Builds fine b' b'' frag' lang' alive') :
    Builds fine b
      (addEpsilons
        [(frag.stop, frag'.start), (frag.stop, b''.length), (frag'.stop, b''.length)]
        (addState b'').2) ⟨frag.start, b''.length⟩ (lang * (1 + lang')) (alive ∧ alive') := by
  have hStop := hFirst.bounds.2
  have hStop' := hSecond.bounds.2
  have hNe : frag.stop ≠ frag'.stop := by omega
  refine ((hFirst.toExtends.trans hSecond.toExtends).trans (Extends.addState b'')).builds ?_ ?_
  · simp only [forall_mem_cons, length_addState, not_mem_nil, false_implies, implies_true, and_true]
    omega
  intro edges' hMem
  have hPart : Set.Ico b.length (addState b'').2.length =
      Set.Ico b.length b'.length ∪ Set.Ico b'.length b''.length ∪ {b''.length} := by
    ext q
    simp only [length_addState, Set.mem_Ico, Set.mem_union, Set.mem_singleton_iff]
    omega
  simp only [mem_cons, Prod.mk.injEq, not_mem_nil, or_false, nfaEdges_addState] at hMem
  rw [hPart]
  refine (hFirst.piece_after hSecond.toExtends).tail hSecond.piece ?_ ?_ ?_ ?_ ?_ ?_
  · simp
  · rintro (⟨_, hLt⟩ | ⟨_, hLt⟩)
    · omega
    · omega
  · intro q _ hFirstNe hSecondNe
    funext a
    ext y
    simp [hMem, hFirstNe, hSecondNe]
  · intro a y
    simp [hMem, hNe]
  · intro a y
    simp [hMem, hNe.symm]
  intro a
  rw [Set.eq_empty_iff_forall_notMem]
  intro y
  have hFirstNe : b''.length ≠ frag.stop := by omega
  have hSecondNe : b''.length ≠ frag'.stop := by omega
  simp [hMem, nfaEdges_of_le le_rfl a, hFirstNe, hSecondNe]

section

variable (hBuild : BuildsAnywhere fine build lang alive)

include hBuild

lemma Builds.copies (n : Nat) (hCur : Builds fine b b' frag lang' alive) :
    ∃ last b'',
      buildCopies build n (some frag) b' = (some last, b'') ∧
        Builds fine b b'' last (lang' * lang ^ n) alive := by
  induction n generalizing b' frag lang' with
  | zero =>
    refine ⟨frag, b', rfl, hCur.congr ?_ id⟩
    rw [pow_zero, mul_one]
  | succ n ih =>
    have hNext := (hCur.join (hBuild b')).congr rfl fun h : alive => ⟨h, h⟩
    rcases ih hNext with ⟨last, b'', hEq, hLast⟩
    refine ⟨last, b'', hEq, hLast.congr ?_ id⟩
    rw [pow_succ', mul_assoc]

lemma builds_required (minCount : Nat) (b : NfaBuilder) :
    Builds fine b (buildRequired build minCount b).2 (buildRequired build minCount b).1
      (lang ^ minCount) alive := by
  unfold buildRequired
  cases minCount with
  | zero =>
    refine (builds_epsilon b).congr ?_ fun _ => trivial
    exact (pow_zero lang).symm
  | succ n =>
    rcases (hBuild b).copies hBuild n with ⟨last, b'', hEq, hLast⟩
    have hCopies : buildCopies build (n + 1) none b = (some last, b'') := hEq
    rw [hCopies]
    refine hLast.congr ?_ id
    exact (pow_succ' lang n).symm

lemma Builds.optionalCopies (n : Nat) (hCur : Builds fine b b' frag lang' alive) :
    Builds fine b (buildOptionalCopies build n frag b').2
      (buildOptionalCopies build n frag b').1 (lang' * (1 + lang) ^ n) alive := by
  induction n generalizing b' frag lang' with
  | zero =>
    refine hCur.congr ?_ id
    rw [pow_zero, mul_one]
  | succ n ih =>
    have hNext := (hCur.optionalTail (hBuild b')).congr rfl fun h : alive => ⟨h, h⟩
    refine (ih hNext).congr ?_ id
    rw [pow_succ', mul_assoc]

end

/- A loop through a new state after a fragment. -/
lemma Builds.ringTail (hFirst : Builds fine b b' frag lang alive)
    (hSecond : Builds fine b' b'' frag' lang' alive') :
    Builds fine b
      (addEpsilons
        [(frag.stop, b''.length), (b''.length, frag'.start), (frag'.stop, b''.length)]
        (addState b'').2) ⟨frag.start, b''.length⟩ (lang * lang'∗) (alive ∧ alive') := by
  have hStop := hFirst.bounds.2
  have hStop' := hSecond.bounds.2
  have hNe : frag'.stop ≠ b''.length := by omega
  have hState := hSecond.toExtends.trans (Extends.addState b'')
  have hNew : ∀ edge ∈ [(b''.length, frag'.start), (frag'.stop, b''.length)],
      b'.length ≤ edge.1 ∧ edge.1 < (addState b'').2.length := by
    simp only [forall_mem_cons, length_addState, not_mem_nil, false_implies, implies_true, and_true]
    omega
  -- the loop alone
  have hRing : Builds fine b'
      (addEpsilons [(b''.length, frag'.start), (frag'.stop, b''.length)] (addState b'').2)
      ⟨b''.length, b''.length⟩ lang'∗ alive' := by
    refine hState.builds hNew ?_
    intro edges' hMem
    have hPart : Set.Ico b'.length (addState b'').2.length =
        Set.Ico b'.length b''.length ∪ {b''.length} := by
      ext q
      simp only [length_addState, Set.mem_Ico, Set.mem_union, Set.mem_singleton_iff]
      omega
    simp only [mem_cons, Prod.mk.injEq, not_mem_nil, or_false, nfaEdges_addState] at hMem
    rw [hPart]
    refine hSecond.piece.ring ?_ ?_ ?_ ?_
    · exact fun h => lt_irrefl _ h.2
    · intro q hq hOther
      funext a
      ext y
      have hLt := hq.2
      have hHub : q ≠ b''.length := by omega
      simp [hMem, hOther, hHub]
    · intro a y
      simp [hMem, hNe]
    · intro a y
      simp [hMem, nfaEdges_of_le le_rfl a, hNe.symm]
  have hNewAll : ∀ edge ∈
      [(frag.stop, b''.length), (b''.length, frag'.start), (frag'.stop, b''.length)],
      b.length ≤ edge.1 ∧ edge.1 < (addState b'').2.length := by
    simp only [forall_mem_cons, length_addState, not_mem_nil, false_implies, implies_true, and_true]
    omega
  obtain ⟨hAll, hCount, hMem⟩ := (hFirst.toExtends.trans hState).addEpsilons_spec hNewAll
  obtain ⟨-, hCount', hMem'⟩ := hState.addEpsilons_spec hNew
  have hLink := hFirst.linkPieces hRing {none} _ (hCount.trans hCount'.symm) hAll (by
    intro q a y
    simp only [hMem, hMem', mem_cons, Prod.mk.injEq, not_mem_nil, or_false, Set.mem_singleton_iff]
    tauto)
  refine hLink.congr ?_ ?_
  · rw [letters_silent, mul_one]
  · simp

/- Copies that may be left out are at most so many copies. -/
lemma mem_one_add_pow (lang : Language Char) (n : Nat) (w : List Char) :
    w ∈ (1 + lang) ^ n ↔ ∃ k, k ≤ n ∧ w ∈ lang ^ k := by
  induction n generalizing w with
  | zero =>
    rw [pow_zero]
    constructor
    · simp
    rintro ⟨k, hk, hw⟩
    rw [Nat.le_zero.mp hk, pow_zero] at hw
    exact hw
  | succ n ih =>
    rw [pow_succ', add_mul, one_mul, Language.mem_add, ih, Language.mem_mul]
    constructor
    · rintro (⟨k, hk, hw⟩ | ⟨u, hu, v, hv, rfl⟩)
      · exact ⟨k, Nat.le_succ_of_le hk, hw⟩
      rcases (ih v).mp hv with ⟨k, hk, hv⟩
      refine ⟨k + 1, Nat.succ_le_succ hk, ?_⟩
      rw [pow_succ', Language.mem_mul]
      exact ⟨u, hu, v, hv, rfl⟩
    rintro ⟨k, hk, hw⟩
    cases k with
    | zero => exact .inl ⟨0, Nat.zero_le n, hw⟩
    | succ k =>
      rw [pow_succ', Language.mem_mul] at hw
      rcases hw with ⟨u, hu, v, hv, rfl⟩
      exact .inr ⟨u, hu, v, (ih v).mpr ⟨k, Nat.le_of_succ_le_succ hk, hv⟩, rfl⟩

lemma countLang_bounded (lang : Language Char) (minCount : Nat) {countMax : Int}
    (hMax : ¬ countMax < 0) :
    countLang lang minCount countMax =
      lang ^ minCount * (1 + lang) ^ (countMax.toNat - minCount) := by
  unfold countLang
  rw [if_neg hMax]
  ext w
  rw [Language.mem_mul]
  constructor
  · rintro ⟨n, hMin, hLe, hw⟩
    have hSplit : n = minCount + (n - minCount) := by omega
    rw [hSplit, pow_add, Language.mem_mul] at hw
    rcases hw with ⟨u, hu, v, hv, rfl⟩
    exact ⟨u, hu, v, (mem_one_add_pow lang _ v).mpr ⟨n - minCount, by omega, hv⟩, rfl⟩
  rintro ⟨u, hu, v, hv, rfl⟩
  rcases (mem_one_add_pow lang _ v).mp hv with ⟨k, hk, hv⟩
  refine ⟨minCount + k, by omega, by omega, ?_⟩
  rw [pow_add, Language.mem_mul]
  exact ⟨u, hu, v, hv, rfl⟩

lemma builds_count (hBuild : BuildsAnywhere fine build lang alive) (minCount : Nat)
    (countMax : Int) (b : NfaBuilder) :
    Builds fine b (buildCount build minCount countMax b).2
      (buildCount build minCount countMax b).1 (countLang lang minCount countMax) alive := by
  have hRequired := builds_required hBuild minCount b
  unfold buildCount
  dsimp only
  by_cases hNeg : countMax < 0
  · have hZero : countMax ≠ 0 := by omega
    have hLang : countLang lang minCount countMax =
        if 2 ≤ minCount then lang ^ minCount else lang ^ minCount * lang∗ := if_pos hNeg
    rw [if_neg hZero, if_pos hNeg, hLang]
    split_ifs with hTwo
    · exact hRequired
    · exact (hRequired.ringTail (hBuild _)).congr rfl fun h : alive => ⟨h, h⟩
  have hMax : ¬ (if countMax = 0 then (minCount : Int) else countMax) < 0 := by
    omega
  rw [if_neg hMax]
  refine (hRequired.optionalCopies hBuild _).congr ?_ id
  rw [countLang_bounded lang minCount hNeg]
  congr 2
  split
  · omega
  · rfl

end GoTreeSitter.Grammargen
