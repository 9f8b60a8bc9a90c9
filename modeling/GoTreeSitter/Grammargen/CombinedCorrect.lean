import GoTreeSitter.Grammargen.RuleCorrect

/-
  The automaton of all terminals.

  Main declarations:
    * `AcceptsAt`
    * `TerminalsIn`
    * `TerminalsIn.addFragment`
    * `buildCombinedNFA_recognizes`

  Literals that occur once share a trie, whose root is the start. Every other terminal is a piece
  below the root. Each terminal has a state of its own that accepts it.
-/

-- Accepting States

namespace GoTreeSitter.Grammargen

open List Set

open Automata

variable {b : NfaBuilder}

section

variable (b : NfaBuilder) (state : Nat) (pat : TerminalPattern)

lemma length_tagState (tieOrder : Nat) : (tagState b state pat tieOrder).length = b.length :=
  length_modify _ _ _

lemma getElem?_tagState (tieOrder q : Nat) :
    (tagState b state pat tieOrder)[q]? =
      (b[q]?).map (fun s =>
        if state = q then
          { s with
            accept := pat.symbolID
            priority := pat.priority
            tieOrder := tieOrder }
        else s) := by
  unfold tagState
  rw [getElem?_modify]
  cases b[q]? with
  | none => rfl
  | some s =>
    by_cases hHere : state = q
    · simp [hHere]
    · simp [hHere]

lemma nfaEdges_tagState (tieOrder : Nat) :
    nfaEdges (tagState b state pat tieOrder) = nfaEdges b := by
  funext q a
  ext y
  unfold nfaEdges
  rw [mem_ofPred_eq, mem_ofPred_eq, getElem?_tagState]
  cases b[q]? with
  | none => rfl
  | some s =>
    rw [Option.map_some]
    constructor
    · rintro ⟨s', hs', t, ht, hReads⟩
      cases hs'
      refine ⟨s, rfl, t, ?_, hReads⟩
      split at ht
      · exact ht
      · exact ht
    rintro ⟨s', hs', t, ht, hReads⟩
    cases hs'
    refine ⟨_, rfl, t, ?_, hReads⟩
    split
    · exact ht
    · exact ht

end

variable {state : Nat}

lemma nfaTag_tagState (hState : state < b.length) (pat : TerminalPattern) (tieOrder q : Nat) :
    nfaTag (tagState b state pat tieOrder) q =
      if state = q then (pat.symbolID, pat.priority, tieOrder) else nfaTag b q := by
  unfold nfaTag
  rw [getElem?_tagState]
  by_cases hHere : state = q
  · subst hHere
    rw [getElem?_eq_getElem hState]
    simp
  · simp [hHere]

lemma edgesOrdered_tagState (hOrdered : EdgesOrdered b) (state : Nat) (pat : TerminalPattern)
    (tieOrder : Nat) :
    EdgesOrdered (tagState b state pat tieOrder) := by
  intro s hs t ht
  rcases mem_iff_getElem?.mp hs with ⟨q, hAt⟩
  rw [getElem?_tagState, Option.map_eq_some_iff] at hAt
  rcases hAt with ⟨old, hOld, rfl⟩
  have hMem := mem_of_getElem? hOld
  split at ht
  · exact hOrdered old hMem t ht
  · exact hOrdered old hMem t ht

-- Terminals So Far

variable (parseRegex : RegexParser) (patterns : List TerminalPattern)

/- The state of a terminal, in the trie or in a piece. -/
def AcceptsAt (b : NfaBuilder) (nodes : Set Nat) (word : Nat → List Char) (pat : TerminalPattern)
    (state : Nat) : Prop :=
  match trieText patterns pat with
  | some text => state ∈ nodes ∧ word state = text.toList
  | none =>
    ∃ (part : Set Nat) (entry : Nat), part ⊆ Set.Iio b.length ∧ Disjoint nodes part ∧ Hangs
        (nfaEdges b) 0 part entry state (ruleLang parseRegex pat.rule) (RuleAlive parseRegex
        pat.rule)

/- The terminals that are in the automaton. -/
structure TerminalsIn (b : NfaBuilder) (nodes : Set Nat) (word : Nat → List Char)
    (edges : TrieEdges) (entered : List (TerminalPattern × Nat)) (stop : Nat → Nat) : Prop where
  state : TrieState b nodes 0 word edges
  ordered : EdgesOrdered b
  away : LeadsAway (nfaEdges b) nodes (Set.Iio b.length \ nodes)
  accepts : ∀ e ∈ entered, AcceptsAt parseRegex patterns b nodes word e.1 (stop e.2)
  tag : ∀ e ∈ entered, nfaTag b (stop e.2) = (e.1.symbolID, e.1.priority, e.2)
  untagged : ∀ q : Nat, (∀ e ∈ entered, stop e.2 ≠ q) → nfaTag b q = (0, 0, 0)
  live : ∀ q : Nat, q < b.length → q ≠ 0 → ∃ e ∈ entered, RuleAlive parseRegex e.1.rule →
      ∃ w : List Char, Reads (nfaEdges b) q w (stop e.2)

variable {parseRegex : RegexParser} {patterns : List TerminalPattern} {nodes : Set Nat}
  {word : Nat → List Char} {edges : TrieEdges} {entered : List (TerminalPattern × Nat)}
  {stop : Nat → Nat}

/- Edges stay among the states, and none goes to the start. -/
lemma TerminalsIn.target (hIn : TerminalsIn parseRegex patterns b nodes word edges entered stop)
    {q y : Nat} {a : Option Char} (hEdge : y ∈ nfaEdges b q a) :
    y < b.length ∧ y ≠ 0 := by
  have hRoot := hIn.state.trie.root_mem
  have hAway : y ∈ Set.Iio b.length \ nodes → y < b.length ∧ y ≠ 0 := by
    rintro ⟨hLt, hNot⟩
    refine ⟨hLt, ?_⟩
    rintro rfl
    exact hNot hRoot
  by_cases hNode : q ∈ nodes
  · cases a with
    | none => exact hAway (hIn.away.silent q hNode hEdge)
    | some c =>
      rcases (hIn.state.trie.child q hNode c y).mp hEdge with ⟨hy, hWord⟩
      refine ⟨hIn.state.bound y hy, ?_⟩
      rintro rfl
      rw [hIn.state.trie.word_root] at hWord
      exact append_ne_nil_of_right_ne_nil _ (cons_ne_nil c []) hWord.symm
  · by_cases hLt : q < b.length
    · exact hAway (hIn.away.closed q ⟨hLt, hNode⟩ a hEdge)
    · rw [nfaEdges_of_le (Nat.not_lt.mp hLt)] at hEdge
      exact hEdge.elim

variable {b b' : NfaBuilder} {pat : TerminalPattern} {i : Nat}

lemma acceptsAt_tagState {other : TerminalPattern} {state q tieOrder : Nat}
    (hAccepts : AcceptsAt parseRegex patterns b nodes word other q) :
    AcceptsAt parseRegex patterns (tagState b state pat tieOrder) nodes word other q := by
  unfold AcceptsAt at hAccepts ⊢
  rw [nfaEdges_tagState, length_tagState]
  exact hAccepts

lemma TrieState.tagState {root : Nat} (hState : TrieState b nodes root word edges) (state : Nat)
    (pat : TerminalPattern) (tieOrder : Nat) :
    TrieState (Grammargen.tagState b state pat tieOrder) nodes root word edges := by
  refine ⟨?_, ?_, ?_, hState.keys⟩
  · rw [nfaEdges_tagState]
    exact hState.trie
  · rw [length_tagState]
    exact hState.bound
  · rw [nfaEdges_tagState]
    exact hState.lookup

lemma TerminalsIn.tagged
    (hIn : TerminalsIn parseRegex patterns b nodes word edges entered stop)
    {b' : NfaBuilder}
    {nodes' : Set Nat}
    {word' : Nat → List Char}
    {edges' : TrieEdges}
    (hState : TrieState b' nodes' 0 word' edges')
    (hOrdered : EdgesOrdered b')
    (hAway : LeadsAway (nfaEdges b') nodes' (Set.Iio b'.length \ nodes'))
    (hAccepts : ∀ e ∈ entered, AcceptsAt parseRegex patterns b' nodes' word' e.1 (stop e.2))
    (hNew : AcceptsAt parseRegex patterns b' nodes' word' pat state)
    (hTags : ∀ q, nfaTag b' q = nfaTag b q)
    (hMore : ∀ q a, nfaEdges b q a ⊆ nfaEdges b' q a)
    (hLive : ∀ q,
      b.length ≤ q → q < b'.length → RuleAlive parseRegex pat.rule →
        ∃ w, Reads (nfaEdges b') q w state)
    (hLt : state < b'.length)
    (hApart : ∀ e ∈ entered, stop e.2 ≠ state)
    (hFresh : ∀ e ∈ entered, e.2 ≠ i) :
    TerminalsIn parseRegex patterns (tagState b' state pat i) nodes' word' edges'
      (entered ++ [(pat, i)]) (Function.update stop i state) := by
  have hOld : ∀ e ∈ entered, Function.update stop i state e.2 = stop e.2 :=
    fun e he => Function.update_of_ne (hFresh e he) _ _
  have hSelf : Function.update stop i state i = state := Function.update_self _ _ _
  refine ⟨hState.tagState state pat i, edgesOrdered_tagState hOrdered state pat i, ?_, ?_, ?_, ?_,
    ?_⟩
  · rw [nfaEdges_tagState, length_tagState]
    exact hAway
  · intro e he
    apply acceptsAt_tagState
    rcases mem_append.mp he with hBefore | hLast
    · rw [hOld e hBefore]
      exact hAccepts e hBefore
    · rw [mem_singleton.mp hLast, hSelf]
      exact hNew
  · intro e he
    rw [nfaTag_tagState hLt]
    rcases mem_append.mp he with hBefore | hLast
    · rw [hOld e hBefore, if_neg (Ne.symm (hApart e hBefore)), hTags]
      exact hIn.tag e hBefore
    · rw [mem_singleton.mp hLast, hSelf, if_pos rfl]
  · intro q hq
    have hHere := hq (pat, i) (mem_append_right _ (mem_singleton_self _))
    rw [hSelf] at hHere
    rw [nfaTag_tagState hLt, if_neg hHere, hTags]
    refine hIn.untagged q fun e he => ?_
    rw [← hOld e he]
    exact hq e (mem_append_left _ he)
  · intro q hq hNe
    rw [length_tagState] at hq
    rw [nfaEdges_tagState]
    by_cases hBefore : q < b.length
    · rcases hIn.live q hBefore hNe with ⟨e, he, hAlive⟩
      refine ⟨e, mem_append_left _ he, fun h => ?_⟩
      rcases hAlive h with ⟨w, hReads⟩
      rw [hOld e he]
      exact ⟨w, hReads.mono hMore⟩
    · refine ⟨(pat, i), mem_append_right _ (mem_singleton_self _), ?_⟩
      rw [hSelf]
      exact hLive q (Nat.not_lt.mp hBefore) hq

/- The state of a terminal is one of the states. -/
lemma AcceptsAt.lt (hState : TrieState b nodes 0 word edges)
    (hAccepts : AcceptsAt parseRegex patterns b nodes word pat state) :
    state < b.length := by
  unfold AcceptsAt at hAccepts
  split at hAccepts
  · exact hState.bound state hAccepts.1
  · rcases hAccepts with ⟨part, entry, hPart, _, hHangs⟩
    exact hPart hHangs.piece.exit_mem

-- Literals

variable {nodes nodes' : Set Nat} {word word' : Nat → List Char} {edges edges' : TrieEdges}

lemma TrieGrown.subset_edges {root : Nat} (hGrown : TrieGrown b b' nodes nodes' word word')
    (hState : TrieState b nodes root word edges) (hState' : TrieState b' nodes' root word' edges')
    (q : Nat) (a : Option Char) :
    nfaEdges b q a ⊆ nfaEdges b' q a := by
  intro y hy
  by_cases hLt : q < b.length
  · by_cases hNode : q ∈ nodes
    · cases a with
      | none =>
        rw [hGrown.silent q]
        exact hy
      | some c =>
        rcases (hState.trie.child q hNode c y).mp hy with ⟨hIn, hWord⟩
        refine (hState'.trie.child q (hGrown.subset hNode) c y).mpr ⟨hGrown.subset hIn, ?_⟩
        rw [hGrown.words y hIn, hGrown.words q hNode]
        exact hWord
    · rw [hGrown.others q hNode hLt]
      exact hy
  · rw [nfaEdges_of_le (Nat.not_lt.mp hLt)] at hy
    exact hy.elim

/- States that are no nodes stay as they are. -/
lemma TrieGrown.away (hGrown : TrieGrown b b' nodes nodes' word word') :
    Set.Iio b'.length \ nodes' = Set.Iio b.length \ nodes := by
  have hGrows := hGrown.grows
  ext q
  rw [hGrown.nodes_eq]
  simp only [mem_sdiff, mem_Iio, mem_union, mem_Ico]
  constructor
  · rintro ⟨hLt, hNot⟩
    refine ⟨?_, fun h => hNot (.inl h)⟩
    by_contra hOut
    exact hNot (.inr ⟨Nat.not_lt.mp hOut, hLt⟩)
  rintro ⟨hLt, hNot⟩
  refine ⟨hLt.trans_le hGrows, ?_⟩
  rintro (hIn | ⟨hLe, _⟩)
  · exact hNot hIn
  · omega

lemma AcceptsAt.grown (hAccepts : AcceptsAt parseRegex patterns b nodes word pat state)
    (hState : TrieState b nodes 0 word edges) (hState' : TrieState b' nodes' 0 word' edges')
    (hGrown : TrieGrown b b' nodes nodes' word word') :
    AcceptsAt parseRegex patterns b' nodes' word' pat state := by
  have hGrows := hGrown.grows
  unfold AcceptsAt at hAccepts ⊢
  split at hAccepts
  · refine ⟨hGrown.subset hAccepts.1, ?_⟩
    rw [hGrown.words state hAccepts.1]
    exact hAccepts.2
  rcases hAccepts with ⟨part, entry, hPart, hDisjoint, hHangs⟩
  have hDisjoint' : Disjoint nodes' part := by
    rw [hGrown.nodes_eq, disjoint_union_left]
    refine ⟨hDisjoint, ?_⟩
    rw [Set.disjoint_left]
    rintro q ⟨hLe, _⟩ hq
    exact Nat.not_lt.mpr hLe (hPart hq)
  refine ⟨part, entry, ?_, hDisjoint', hHangs.congr ?_ ?_ ?_⟩
  · intro q hq
    exact lt_of_lt_of_le (hPart hq) hGrows
  · intro q hq
    exact hGrown.others q (disjoint_right.mp hDisjoint hq) (hPart hq)
  · exact hGrown.subset_edges hState hState' 0 none hHangs.edge
  intro q _ a y hy hIn
  by_cases hNode : q ∈ nodes'
  · cases a with
    | none =>
      rw [hGrown.silent q] at hy
      exact hy
    | some c =>
      have hChild := ((hState'.trie.child q hNode c y).mp hy).1
      exact absurd hIn (disjoint_left.mp hDisjoint' hChild)
  by_cases hLt : q < b.length
  · have hOld : q ∉ nodes := fun h => hNode (hGrown.subset h)
    rw [hGrown.others q hOld hLt] at hy
    exact hy
  have hOut : b'.length ≤ q := by
    by_contra hIn'
    rw [hGrown.nodes_eq] at hNode
    exact hNode (.inr ⟨Nat.not_lt.mp hLt, Nat.not_le.mp hIn'⟩)
  rw [nfaEdges_of_le hOut] at hy
  exact hy.elim

variable {text : String}

lemma position_unique {e e' : TerminalPattern × Nat} (he : e ∈ patterns.zipIdx)
    (he' : e' ∈ patterns.zipIdx) (hText : trieText patterns e.1 = some text)
    (hText' : trieText patterns e'.1 = some text) :
    e = e' := by
  have hParts : ∀ pat,
      trieText patterns pat = some text →
        pat.rule.literal? = some text ∧ stringCount patterns text = 1 := by
    intro pat hPat
    unfold trieText at hPat
    split at hPat
    · cases hPat
    rename_i literal hLiteral
    split at hPat
    · rename_i hOnce
      cases hPat
      exact ⟨hLiteral, hOnce.2⟩
    · cases hPat
  have hMap : (patterns.zipIdx.filter (fun e => e.1.rule.literal? = some text)).map Prod.fst =
      patterns.filter (fun pat => pat.rule.literal? = some text) := by
    conv_rhs =>
      rw [← zipIdx_map_fst 0 patterns, filter_map]
    rfl
  have hCount : (patterns.zipIdx.filter (fun e => e.1.rule.literal? = some text)).length = 1 := by
    rw [← (hParts e.1 hText).2, stringCount, ← hMap, length_map]
  rcases length_eq_one_iff.mp hCount with ⟨only, hOnly⟩
  have hIs : ∀ e ∈ patterns.zipIdx, trieText patterns e.1 = some text → e = only := by
    intro e he hText
    have hMem : e ∈ patterns.zipIdx.filter (fun e => e.1.rule.literal? = some text) :=
        mem_filter.mpr ⟨he, decide_eq_true (hParts e.1 hText).1⟩
    rw [hOnly] at hMem
    exact mem_singleton.mp hMem
  rw [hIs e he hText, hIs e' he' hText']

lemma TerminalsIn.addLiteral
    (hIn : TerminalsIn parseRegex patterns b nodes word edges entered stop)
    (hText : trieText patterns pat = some text)
    (hAll : ∀ e ∈ entered ++ [(pat, i)], e ∈ patterns.zipIdx)
    (hFresh : ∀ e ∈ entered, e.2 ≠ i) :
    ∃ nodes' word' stop',
      TerminalsIn parseRegex patterns
        (tagState (trieInsert text.toList 0 edges b).2.2 (trieInsert text.toList 0 edges b).1
          pat i) nodes' word' (trieInsert text.toList 0 edges b).2.1 (entered ++ [(pat, i)])
        stop' := by
  rcases trieInsert_spec hIn.state hIn.state.trie.root_mem text.toList with
    ⟨nodes', word', hState, hGrown, hNode, hWord, hNew⟩
  rw [hIn.state.trie.word_root, nil_append] at hWord hNew
  generalize trieInsert text.toList 0 edges b = built at hState hGrown hNode hWord hNew ⊢
  rcases built with ⟨node, edges', b'⟩
  have hAway : LeadsAway (nfaEdges b') nodes' (Set.Iio b'.length \ nodes') := by
    rw [hGrown.away]
    refine ⟨?_, ?_, ?_⟩
    · intro q hq a
      rw [hGrown.others q hq.2 hq.1]
      exact hIn.away.closed q hq a
    · rw [← hGrown.away]
      exact disjoint_sdiff_right
    intro q hq
    rw [hGrown.silent q]
    by_cases hKnown : q ∈ nodes
    · exact hIn.away.silent q hKnown
    rw [hGrown.nodes_eq] at hq
    rw [nfaEdges_of_le (hq.resolve_left hKnown).1]
    exact empty_subset _
  have hAccepts : ∀ e ∈ entered, AcceptsAt parseRegex patterns b' nodes' word' e.1 (stop e.2) := fun
    e he => (hIn.accepts e he).grown hIn.state hState hGrown
  have hOwn : AcceptsAt parseRegex patterns b' nodes' word' pat node := by
    unfold AcceptsAt
    rw [hText]
    exact ⟨hNode, hWord⟩
  -- a node that accepts another terminal has its own word
  have hApart : ∀ e ∈ entered, stop e.2 ≠ node := by
    intro e he hSame
    have hAt := hAccepts e he
    unfold AcceptsAt at hAt
    rw [hSame] at hAt
    split at hAt
    · rename_i other hOther
      rw [hWord] at hAt
      rw [← String.toList_inj.mp hAt.2] at hOther
      have hEq := position_unique (hAll e (mem_append_left _ he))
        (hAll (pat, i) (mem_append_right _ (mem_singleton_self _))) hOther hText
      exact hFresh e he (congrArg Prod.snd hEq)
    · rcases hAt with ⟨part, entry, _, hDisjoint, hHangs⟩
      exact disjoint_left.mp hDisjoint hNode hHangs.piece.exit_mem
  refine ⟨nodes', word', _, hIn.tagged hState (hGrown.ordered hIn.ordered) hAway hAccepts hOwn
    hGrown.tags (hGrown.subset_edges hIn.state hState) ?_ (hState.bound node hNode) hApart hFresh⟩
  intro q hLe hq _
  have hqNew : q ∈ nodes' := by
    rw [hGrown.nodes_eq]
    exact .inr ⟨hLe, hq⟩
  have hqOld : q ∉ nodes := fun h => Nat.not_lt.mpr hLe (hIn.state.bound q h)
  rcases hNew q hqNew hqOld with ⟨v, hAppend⟩
  exact ⟨v, hState.trie.reads_between hqNew hNode (hWord.trans hAppend.symm)⟩

-- Other Terminals

variable {nodes : Set Nat} {word : Nat → List Char} {edges : TrieEdges} {frag : NfaFragment}
  {lang : Language Char} {alive : Prop}

lemma nfaTag_addEpsilon (b : NfaBuilder) (source target q : Nat) :
    nfaTag (addEpsilon b source target) q = nfaTag b q := nfaTag_addTransition b source _ q

lemma edge_below
    (hTarget : ∀ {q y : Nat} {a : Option Char}, y ∈ nfaEdges b q a → y < b.length ∧ y ≠ 0)
    (hBuilds : Builds True b b' frag lang alive)
    (hRoot : 0 < b.length)
    {q y : Nat}
    {a : Option Char}
    (hEdge : y ∈ nfaEdges (addEpsilon b' 0 frag.start) q a) :
    (q = 0 ∧ a = none ∧ y = frag.start) ∨ (y ∈ nfaEdges b q a ∧ q < b.length ∧ y < b.length) ∨
      (y ∈ nfaEdges b' q a ∧ q ∈ Set.Ico b.length b'.length ∧ y ∈ Set.Ico b.length b'.length) := by
  have hGrows := hBuilds.grows
  rw [mem_nfaEdges_addEpsilon (by omega)] at hEdge
  rcases hEdge with hOld | hNew
  · right
    by_cases hLt : q < b.length
    · left
      rw [hBuilds.old q hLt] at hOld
      exact ⟨hOld, hLt, (hTarget hOld).1⟩
    right
    have hIn : q ∈ Set.Ico b.length b'.length := by
      refine ⟨Nat.not_lt.mp hLt, ?_⟩
      by_contra hOut
      rw [nfaEdges_of_le (Nat.not_lt.mp hOut)] at hOld
      exact hOld
    exact ⟨hOld, hIn, hBuilds.piece.closed q hIn a hOld⟩
  · exact .inl hNew

lemma edges_below (hBuilds : Builds True b b' frag lang alive) (hRoot : 0 < b.length) {q : Nat}
    (hNe : q ≠ 0) :
    nfaEdges (addEpsilon b' 0 frag.start) q = nfaEdges b' q := by
  have hGrows := hBuilds.grows
  funext a
  ext y
  rw [mem_nfaEdges_addEpsilon (by omega)]
  simp [hNe]

lemma AcceptsAt.beside (hAccepts : AcceptsAt parseRegex patterns b nodes word pat state)
    (hTarget : ∀ {q y : Nat} {a : Option Char}, y ∈ nfaEdges b q a → y < b.length ∧ y ≠ 0)
    (hBuilds : Builds True b b' frag lang alive) (hRoot : 0 < b.length) :
    AcceptsAt parseRegex patterns (addEpsilon b' 0 frag.start) nodes word pat state := by
  have hGrows := hBuilds.grows
  have hStart := hBuilds.bounds.1
  unfold AcceptsAt at hAccepts ⊢
  split at hAccepts
  · exact hAccepts
  rcases hAccepts with ⟨part, entry, hPart, hDisjoint, hHangs⟩
  refine ⟨part, entry, ?_, hDisjoint, hHangs.congr ?_ ?_ ?_⟩
  · intro q hq
    rw [length_addEpsilon]
    exact lt_of_lt_of_le (hPart hq) hGrows
  · intro q hq
    have hNe : q ≠ 0 := by
      rintro rfl
      exact hHangs.root_notMem hq
    rw [edges_below hBuilds hRoot hNe]
    exact hBuilds.old q (hPart hq)
  · rw [mem_nfaEdges_addEpsilon (by omega), hBuilds.old 0 hRoot]
    exact .inl hHangs.edge
  · intro q _ a y hy hIn
    have hLt := hPart hIn
    rcases edge_below hTarget hBuilds hRoot hy with ⟨_, _, rfl⟩ | ⟨hOld, _⟩ | ⟨_, _, hLe, _⟩
    · exact absurd hStart.1 (Nat.not_le.mpr hLt)
    · exact hOld
    · exact absurd hLe (Nat.not_le.mpr hLt)

lemma TerminalsIn.addFragment
    (hIn : TerminalsIn parseRegex patterns b nodes word edges entered stop)
    (hText : trieText patterns pat = none)
    (hBuilds : Builds True b b' frag (ruleLang parseRegex pat.rule)
      (RuleAlive parseRegex pat.rule))
    (hFresh : ∀ e ∈ entered, e.2 ≠ i) :
    ∃ stop' : Nat → Nat,
      TerminalsIn parseRegex patterns (tagState (addEpsilon b' 0 frag.start) frag.stop pat i)
        nodes word edges (entered ++ [(pat, i)]) stop' := by
  have hGrows := hBuilds.grows
  have hStart := hBuilds.bounds.1
  have hStop := hBuilds.bounds.2
  have hBound := hIn.state.bound
  have hRoot : 0 < b.length := hBound 0 hIn.state.trie.root_mem
  have hTarget : ∀ {q y : Nat} {a : Option Char}, y ∈ nfaEdges b q a → y < b.length ∧ y ≠ 0 :=
    fun h => hIn.target h
  have hEdges := mem_nfaEdges_addEpsilon (hRoot.trans_le hGrows) frag.start
  have hMore : ∀ q a, nfaEdges b' q a ⊆ nfaEdges (addEpsilon b' 0 frag.start) q a := by
    intro q a y hy
    rw [hEdges]
    exact .inl hy
  have hLetters : ∀ q ∈ nodes, ∀ c,
      nfaEdges (addEpsilon b' 0 frag.start) q (some c) = nfaEdges b q (some c) := by
    intro q hq c
    ext y
    rw [hEdges, hBuilds.old q (hBound q hq)]
    simp
  have hState : TrieState (addEpsilon b' 0 frag.start) nodes 0 word edges := by
    refine ⟨hIn.state.trie.congr hLetters, ?_, ?_, hIn.state.keys⟩
    · intro q hq
      rw [length_addEpsilon]
      exact lt_of_lt_of_le (hBound q hq) hGrows
    intro q hq c y
    rw [hLetters q hq c]
    exact hIn.state.lookup q hq c y
  have hOutside : ∀ y ∈ Set.Ico b.length b'.length, y ∉ nodes := by
    rintro y ⟨hLe, _⟩ hy
    exact Nat.not_lt.mpr hLe (hBound y hy)
  have hAway : LeadsAway (nfaEdges (addEpsilon b' 0 frag.start)) nodes
      (Set.Iio (addEpsilon b' 0 frag.start).length \ nodes) := by
    rw [length_addEpsilon]
    refine ⟨?_, disjoint_sdiff_right, ?_⟩
    · rintro q ⟨_, hNot⟩ a y hy
      rcases edge_below hTarget hBuilds hRoot hy with ⟨rfl, _, _⟩ | ⟨hOld, hq, hLt⟩ | ⟨_, _, hy'⟩
      · exact absurd hIn.state.trie.root_mem hNot
      · have hTo := hIn.away.closed q ⟨hq, hNot⟩ a hOld
        exact ⟨hLt.trans_le hGrows, hTo.2⟩
      · exact ⟨hy'.2, hOutside y hy'⟩
    intro q hq y hy
    rcases edge_below hTarget hBuilds hRoot hy with ⟨_, _, rfl⟩ | ⟨hOld, _, hLt⟩ | ⟨_, hNew, _⟩
    · exact ⟨hStart.2, hOutside _ hStart⟩
    · have hTo := hIn.away.silent q hq hOld
      exact ⟨hLt.trans_le hGrows, hTo.2⟩
    · exact absurd hq (hOutside q hNew)
  have hOwn :
      AcceptsAt parseRegex patterns (addEpsilon b' 0 frag.start) nodes word pat frag.stop := by
    unfold AcceptsAt
    rw [hText]
    refine ⟨Set.Ico b.length b'.length, frag.start, ?_, ?_, ?_⟩
    · intro q hq
      rw [length_addEpsilon]
      exact hq.2
    · rw [Set.disjoint_right]
      exact hOutside
    refine ⟨hBuilds.piece.congr ?_, ?_, ?_, ?_⟩
    · rintro q ⟨hLe, _⟩
      exact edges_below hBuilds hRoot (by omega)
    · rintro ⟨hLe, _⟩
      omega
    · rw [hEdges]
      exact .inr ⟨rfl, rfl, rfl⟩
    intro q hq a y hy hyIn
    rcases edge_below hTarget hBuilds hRoot hy with hDoor | ⟨_, _, hLt⟩ | ⟨_, hqIn, _⟩
    · exact hDoor
    · exact absurd hyIn.1 (Nat.not_le.mpr hLt)
    · exact absurd hqIn hq
  refine ⟨_, hIn.tagged hState ?_ hAway (fun e he => (hIn.accepts e he).beside hTarget hBuilds
    hRoot) hOwn ?_ ?_ ?_ ?_ ?_ hFresh⟩
  · exact edgesOrdered_addTransition (hBuilds.ordered trivial hIn.ordered) 0 (Int.le_refl 0)
  · intro q
    rw [nfaTag_addEpsilon, hBuilds.tags]
  · intro q a y hy
    refine hMore q a ?_
    by_cases hLt : q < b.length
    · rw [hBuilds.old q hLt]
      exact hy
    · rw [nfaEdges_of_le (Nat.not_lt.mp hLt)] at hy
      exact hy.elim
  · intro q hLe hq hAlive
    rw [length_addEpsilon] at hq
    rcases hBuilds.piece.live hAlive q ⟨hLe, hq⟩ with ⟨w, hReads⟩
    exact ⟨w, hReads.mono hMore⟩
  · rw [length_addEpsilon]
    exact hStop.2
  · intro e he hSame
    have hLt := (hIn.accepts e he).lt hIn.state
    omega

-- All Terminals

variable {b : NfaBuilder} {entered rest : List (TerminalPattern × Nat)} {e : TerminalPattern × Nat}

lemma fresh_position (hAll : entered ++ e :: rest = patterns.zipIdx) :
    ∀ before ∈ entered, before.2 ≠ e.2 := by
  have hNodup : (patterns.zipIdx.map Prod.snd).Nodup := by
    rw [zipIdx_map_snd]
    exact nodup_range'
  rw [← hAll, map_append, nodup_append] at hNodup
  intro before hBefore
  exact hNodup.2.2 before.2 (mem_map_of_mem hBefore) e.2 (mem_map_of_mem mem_cons_self)

lemma TerminalsIn.addAll (hIn : TerminalsIn parseRegex patterns b nodes word edges entered stop)
    (hAll : entered ++ rest = patterns.zipIdx)
    (hFits : ∀ pat ∈ patterns, RuleFits parseRegex pat.rule) :
    ∃ b' nodes' word' edges' stop',
      addPatterns parseRegex patterns 0 rest edges b = .ok b' ∧
        TerminalsIn parseRegex patterns b' nodes' word' edges' patterns.zipIdx stop' := by
  induction rest generalizing b nodes word edges entered stop with
  | nil =>
    rw [append_nil] at hAll
    rw [← hAll]
    exact ⟨b, nodes, word, edges, stop, rfl, hIn⟩
  | cons e rest ih =>
    rcases e with ⟨pat, i⟩
    have hFresh := fresh_position hAll
    rw [append_cons] at hAll
    have hMem : ∀ e ∈ entered ++ [(pat, i)], e ∈ patterns.zipIdx := by
      intro e he
      rw [← hAll]
      exact mem_append_left _ he
    have hPat : pat ∈ patterns := fst_mem_of_mem_zipIdx (hMem (pat, i) (mem_append_right _
        (mem_singleton_self _)))
    rw [addPatterns]
    split
    · rename_i text hText
      rcases hIn.addLiteral hText hMem hFresh with ⟨nodes', word', stop', hNext⟩
      exact ih hNext hAll
    rename_i hText
    rcases builds_rule (patternsBuilt_fits parseRegex) pat.rule (hFits pat hPat) b with
      ⟨frag, b', hResult, hBuilds⟩
    rcases hIn.addFragment hText hBuilds hFresh with ⟨stop', hNext⟩
    rw [hResult]
    exact ih hNext hAll

variable (parseRegex patterns) in
/- The automaton reads each terminal at a state of its own, and no other state accepts. -/
structure Recognizes (n : Nfa) (stop : Nat → Nat) : Prop where
  ordered : EdgesOrdered n.states
  reads : ∀ e ∈ patterns.zipIdx, ∀ w : List Char, Reads (nfaEdges n.states) n.start w (stop e.2) ↔
      w ∈ ruleLang parseRegex e.1.rule
  tag : ∀ e ∈ patterns.zipIdx, nfaTag n.states (stop e.2) = (e.1.symbolID, e.1.priority, e.2)
  untagged : ∀ q : Nat, (∀ e ∈ patterns.zipIdx, stop e.2 ≠ q) → nfaTag n.states q = (0, 0, 0)
  live : patterns ≠ [] → (∀ pat ∈ patterns, RuleAlive parseRegex pat.rule) → ∀ (w : List Char) (q :
    Nat), Reads (nfaEdges n.states) n.start w q → ∃ pat ∈ patterns, ∃ v : List Char, w ++ v ∈
    ruleLang parseRegex pat.rule

lemma ruleLang_of_trieText {pat : TerminalPattern} (hText : trieText patterns pat = some text) :
    ruleLang parseRegex pat.rule = {text.toList} := by
  unfold trieText at hText
  split at hText
  · cases hText
  rename_i literal hLiteral
  split at hText
  · rename_i hOnce
    cases hText
    rw [ruleLang, ruleTexts_of_literal _ hLiteral, stringLang]
    exact if_neg hOnce.1
  · cases hText

section

variable (hIn : TerminalsIn parseRegex patterns b nodes word edges entered stop) (he : e ∈ entered)

include hIn he

lemma TerminalsIn.reads (w : List Char) :
    Reads (nfaEdges b) 0 w (stop e.2) ↔ w ∈ ruleLang parseRegex e.1.rule := by
  have hTrie := hIn.state.trie
  have hAt := hIn.accepts e he
  unfold AcceptsAt at hAt
  split at hAt
  · rename_i text hText
    rw [ruleLang_of_trieText hText]
    constructor
    · intro hReads
      have hWord := hTrie.word_of_reads hIn.away hReads hTrie.root_mem hAt.1
      rw [hTrie.word_root, nil_append, hAt.2] at hWord
      exact hWord.symm
    intro hw
    have hReads := hTrie.reads_word hAt.1
    rw [hAt.2, ← mem_singleton_iff.mp hw] at hReads
    exact hReads
  · rcases hAt with ⟨part, entry, _, _, hHangs⟩
    exact hHangs.reads (fun q a hBack => (hIn.target hBack).2 rfl) w

end

end GoTreeSitter.Grammargen
