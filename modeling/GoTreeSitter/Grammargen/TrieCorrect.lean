import GoTreeSitter.Automata.Trie
import GoTreeSitter.Grammargen.FragmentCorrect

/-
  Literals in tries.

  Main declarations:
    * `TrieState`
    * `TrieGrown`
    * `trieInsert_spec`
    * `builds_stringChoice`

  Inserting a text walks along its nodes and adds those that are missing. Nodes keep their words,
  and no other state changes.
-/

-- Insertion

namespace GoTreeSitter.Grammargen

open List Set

open Automata

variable {b b' b'' : NfaBuilder} {nodes nodes' nodes'' : Set Nat} {root : Nat}
  {word word' word'' : Nat → List Char} {edges edges' : TrieEdges}

/- The states of a trie and the map of its edges. -/
structure TrieState (b : NfaBuilder) (nodes : Set Nat) (root : Nat) (word : Nat → List Char)
    (edges : TrieEdges) : Prop where
  trie : Trie (nfaEdges b) nodes root word
  bound : ∀ q ∈ nodes, q < b.length
  lookup : ∀ q ∈ nodes, ∀ (c : Char) (y : Nat),
      edges.lookup (q, c) = some y ↔ y ∈ nfaEdges b q (some c)
  keys : ∀ (q : Nat) (c : Char) (y : Nat), edges.lookup (q, c) = some y → q ∈ nodes

/- New states are nodes, and nothing else changes. -/
structure TrieGrown (b b' : NfaBuilder) (nodes nodes' : Set Nat) (word word' : Nat → List Char) :
    Prop where
  grows : b.length ≤ b'.length
  nodes_eq : nodes' = nodes ∪ Set.Ico b.length b'.length
  words : ∀ q ∈ nodes, word' q = word q
  silent : ∀ q : Nat, nfaEdges b' q none = nfaEdges b q none
  others : ∀ q : Nat, q ∉ nodes → q < b.length → nfaEdges b' q = nfaEdges b q
  tags : ∀ q : Nat, nfaTag b' q = nfaTag b q
  ordered : EdgesOrdered b → EdgesOrdered b'

lemma TrieGrown.refl (b : NfaBuilder) (nodes : Set Nat) (word : Nat → List Char) :
    TrieGrown b b nodes nodes word word where
  grows := le_rfl
  nodes_eq := by rw [Ico_self, union_empty]
  words := fun _ _ => rfl
  silent := fun _ => rfl
  others := fun _ _ _ => rfl
  tags := fun _ => rfl
  ordered := id

lemma TrieGrown.trans (hFirst : TrieGrown b b' nodes nodes' word word')
    (hSecond : TrieGrown b' b'' nodes' nodes'' word' word'') :
    TrieGrown b b'' nodes nodes'' word word'' where
  grows := hFirst.grows.trans hSecond.grows
  nodes_eq := by
    rw [hSecond.nodes_eq, hFirst.nodes_eq, union_assoc,
      Ico_union_Ico_eq_Ico hFirst.grows hSecond.grows]
  words := by
    intro q hq
    rw [hSecond.words q (by
      rw [hFirst.nodes_eq]
      exact .inl hq)]
    exact hFirst.words q hq
  silent := by
    intro q
    rw [hSecond.silent]
    exact hFirst.silent q
  others := by
    intro q hq hLt
    have hNot : q ∉ nodes' := by
      rw [hFirst.nodes_eq]
      rintro (hIn | ⟨hLe, _⟩)
      · exact hq hIn
      · omega
    rw [hSecond.others q hNot (hLt.trans_le hFirst.grows)]
    exact hFirst.others q hq hLt
  tags := by
    intro q
    rw [hSecond.tags]
    exact hFirst.tags q
  ordered := fun h => hSecond.ordered (hFirst.ordered h)

lemma TrieGrown.subset (hGrown : TrieGrown b b' nodes nodes' word word') : nodes ⊆ nodes' := by
  rw [hGrown.nodes_eq]
  exact subset_union_left

lemma mem_nfaEdges_trieNode {cur : Nat} (hCur : cur < b.length) (c : Char) (q : Nat)
    (a : Option Char) (y : Nat) :
    y ∈ nfaEdges (addCharRange (addState b).2 cur c.toNat c.toNat b.length) q a ↔
      y ∈ nfaEdges b q a ∨ (q = cur ∧ a = some c ∧ y = b.length) := by
  rw [mem_nfaEdges_addCharRange (by
    rw [length_addState]
    omega), nfaEdges_addState]
  have hHas : (∃ c', a = some c' ∧ RuneRange.Has ⟨c.toNat, c.toNat⟩ c') ↔ a = some c := by
    constructor
    · rintro ⟨c', rfl, hHas⟩
      rw [(has_single_iff c c').mp ⟨_, mem_cons_self, hHas⟩]
    · rintro rfl
      exact ⟨c, rfl, Int.le_refl _, Int.le_refl _⟩
  rw [hHas]

lemma lookup_trieEdge (edges : TrieEdges) (cur : Nat) (c : Char) (next q : Nat) (c' : Char) :
    (((cur, c), next) :: edges).lookup (q, c') =
      if q = cur ∧ c' = c then some next else edges.lookup (q, c') := by
  rw [lookup_cons]
  split_ifs with hSame
  · rw [hSame.1, hSame.2, beq_self_eq_true]
  · rw [beq_eq_false_iff_ne.mpr (fun h => hSame (Prod.mk.injEq _ _ _ _ ▸ h))]

section NewNode

variable {cur : Nat} {c : Char} (hTrie : TrieState b nodes root word edges) (hCur : cur ∈ nodes)
  (hFind : edges.lookup (cur, c) = none)

include hTrie hCur

include hFind

lemma trie_trieNode :
    Trie (nfaEdges (addCharRange (addState b).2 cur c.toNat c.toNat b.length))
      (insert b.length nodes) root (Function.update word b.length (word cur ++ [c])) := by
  have hLt := hTrie.bound cur hCur
  have hEdges := mem_nfaEdges_trieNode hLt c
  refine hTrie.trie.add hCur (fun h => lt_irrefl _ (hTrie.bound _ h)) ?_ ?_ ?_ ?_
  · rw [eq_empty_iff_forall_notMem]
    intro y hy
    rw [(hTrie.lookup cur hCur c y).mpr hy] at hFind
    cases hFind
  · intro q _ hNe a
    ext y
    rw [hEdges]
    simp [hNe]
  · intro a y
    rw [hEdges]
    simp
  intro a
  rw [eq_empty_iff_forall_notMem]
  intro y
  rw [hEdges, nfaEdges_of_le le_rfl]
  have hNe : b.length ≠ cur := by omega
  simp [hNe]

lemma trieState_trieNode :
    TrieState (addCharRange (addState b).2 cur c.toNat c.toNat b.length)
      (insert b.length nodes) root (Function.update word b.length (word cur ++ [c]))
      (((cur, c), b.length) :: edges) := by
  have hLt := hTrie.bound cur hCur
  have hEdges := mem_nfaEdges_trieNode hLt c
  have hNew : b.length ∉ nodes := fun h => lt_irrefl _ (hTrie.bound _ h)
  refine ⟨trie_trieNode hTrie hCur hFind, ?_, ?_, ?_⟩
  · intro q hq
    rw [length_addCharRange, length_addState]
    rcases hq with rfl | hq
    · exact Nat.lt_succ_self _
    · exact Nat.lt_succ_of_lt (hTrie.bound q hq)
  · intro q hq c' y
    rw [hEdges, lookup_trieEdge]
    rcases hq with rfl | hq
    · -- the new node has no edges yet
      have hNe : b.length ≠ cur := by omega
      rw [if_neg fun h => hNe h.1, nfaEdges_of_le le_rfl]
      simp only [hNe, mem_empty_iff_false, false_and, or_false, iff_false]
      intro hSome
      exact hNew (hTrie.keys _ _ _ hSome)
    split_ifs with hSame
    · rcases hSame with ⟨rfl, rfl⟩
      have hNone : y ∉ nfaEdges b q (some c') := by
        intro hy
        rw [(hTrie.lookup q hCur c' y).mpr hy] at hFind
        cases hFind
      simp only [hNone, false_or, true_and, Option.some.injEq]
      exact eq_comm
    · rw [hTrie.lookup q hq]
      constructor
      · exact .inl
      rintro (hOld | ⟨hQ, hC, _⟩)
      · exact hOld
      · exact absurd ⟨hQ, Option.some.inj hC⟩ hSame
  · intro q c' y hSome
    rw [lookup_trieEdge] at hSome
    split_ifs at hSome with hSame
    · rw [hSame.1]
      exact .inr hCur
    · exact .inr (hTrie.keys q c' y hSome)

omit hFind

lemma trieGrown_trieNode :
    TrieGrown b (addCharRange (addState b).2 cur c.toNat c.toNat b.length) nodes
      (insert b.length nodes) word (Function.update word b.length (word cur ++ [c])) := by
  have hLt := hTrie.bound cur hCur
  have hEdges := mem_nfaEdges_trieNode hLt c
  have hCount : (addCharRange (addState b).2 cur c.toNat c.toNat b.length).length = b.length + 1 :=
      by rw [length_addCharRange, length_addState]
  refine ⟨?_, ?_, ?_, ?_, ?_, ?_, ?_⟩
  · omega
  · rw [hCount]
    ext q
    simp only [mem_insert_iff, mem_union, mem_Ico]
    constructor
    · rintro (rfl | hq)
      · exact .inr (by omega)
      · exact .inl hq
    rintro (hq | hq)
    · exact .inr hq
    · exact .inl (by omega)
  · intro q hq
    refine Function.update_of_ne ?_ _ _
    rintro rfl
    exact lt_irrefl _ (hTrie.bound _ hq)
  · intro q
    ext y
    rw [hEdges]
    simp
  · intro q hq _
    funext a
    ext y
    rw [hEdges]
    have hNe : q ≠ cur := by
      rintro rfl
      exact hq hCur
    simp [hNe]
  · intro q
    unfold addCharRange
    rw [nfaTag_addTransition, nfaTag_addState]
  · intro hOrdered
    exact edgesOrdered_addTransition (edgesOrdered_addState hOrdered) cur (Int.le_refl _)

end NewNode

/- The node after one more character. -/
lemma trieNext_spec
    (hTrie : TrieState b nodes root word edges)
    {cur : Nat}
    (hCur : cur ∈ nodes)
    (c : Char) :
    ∃ nodes' word',
      TrieState (trieNext c cur edges b).2.2 nodes' root word' (trieNext c cur edges b).2.1 ∧
        TrieGrown b (trieNext c cur edges b).2.2 nodes nodes' word word' ∧
        (trieNext c cur edges b).1 ∈ nodes' ∧
        word' (trieNext c cur edges b).1 = word cur ++ [c] ∧
        ∀ q ∈ nodes', q ∉ nodes → word' q <+: word cur ++ [c] := by
  unfold trieNext
  cases hFind : edges.lookup (cur, c) with
  | some next =>
    have hEdge := (hTrie.lookup cur hCur c next).mp hFind
    rcases (hTrie.trie.child cur hCur c next).mp hEdge with ⟨hNext, hWord⟩
    exact ⟨nodes, word, hTrie, TrieGrown.refl b nodes word,
      hNext, hWord, fun q hq hNot => absurd hq hNot⟩
  | none =>
    exact ⟨insert b.length nodes, Function.update word b.length (word cur ++ [c]),
      trieState_trieNode hTrie hCur hFind, trieGrown_trieNode hTrie hCur, .inl rfl,
      Function.update_self _ _ _, by
        rintro q (rfl | hq) hNot
        · rw [Function.update_self]
        · exact absurd hq hNot⟩

/- The node of a text. -/
lemma trieInsert_spec
    (hTrie : TrieState b nodes root word edges)
    {cur : Nat}
    (hCur : cur ∈ nodes)
    (chars : List Char) :
    ∃ nodes' word',
      TrieState (trieInsert chars cur edges b).2.2 nodes' root word'
        (trieInsert chars cur edges b).2.1 ∧
        TrieGrown b (trieInsert chars cur edges b).2.2 nodes nodes' word word' ∧
        (trieInsert chars cur edges b).1 ∈ nodes' ∧
        word' (trieInsert chars cur edges b).1 = word cur ++ chars ∧
        ∀ q ∈ nodes', q ∉ nodes → word' q <+: word cur ++ chars := by
  induction chars generalizing b nodes word edges cur with
  | nil =>
    refine ⟨nodes, word, hTrie, TrieGrown.refl b nodes word,
      hCur, ?_, fun q hq hNot => absurd hq hNot⟩
    rw [append_nil]
    rfl
  | cons c chars ih =>
    rcases trieNext_spec hTrie hCur c with ⟨nodes1, word1, hTrie1, hGrown1, hNext, hWord1, hNew1⟩
    rcases ih hTrie1 hNext with ⟨nodes2, word2, hTrie2, hGrown2, hLast, hWord2, hNew2⟩
    rw [hWord1, append_assoc] at hWord2 hNew2
    refine ⟨nodes2, word2, hTrie2, hGrown1.trans hGrown2, hLast, hWord2, ?_⟩
    intro q hq hNot
    by_cases hFirst : q ∈ nodes1
    · rw [hGrown2.words q hFirst]
      refine (hNew1 q hFirst hNot).trans ?_
      rw [prefix_append_right_inj]
      exact prefix_append [c] chars
    · exact hNew2 q hq hFirst

-- Choices of Literals

variable {b b' : NfaBuilder} {edges : TrieEdges} {nodes : Set Nat} {word : Nat → List Char}
  {texts : List String}

/- The texts of some literals. -/
def textsLang (texts : List String) : Language Char := {w | ∃ text ∈ texts, w = text.toList}

lemma mem_textsLang_append (texts : List String) (text : String) (w : List Char) :
    w ∈ textsLang (texts ++ [text]) ↔ w ∈ textsLang texts ∨ w = text.toList := by
  constructor
  · rintro ⟨before, hBefore, rfl⟩
    rcases mem_append.mp hBefore with hOld | hOwn
    · exact .inl ⟨before, hOld, rfl⟩
    · rw [mem_singleton.mp hOwn]
      exact .inr rfl
  · rintro (⟨before, hBefore, rfl⟩ | rfl)
    · exact ⟨before, mem_append_left _ hBefore, rfl⟩
    · exact ⟨text, mem_append_right _ (mem_singleton_self text), rfl⟩

/- The literals so far are in a trie, and the nodes of their texts lead to the end. -/
structure LiteralsIn (b b' : NfaBuilder) (nodes : Set Nat) (word : Nat → List Char)
    (edges : TrieEdges) (texts : List String) : Prop extends Extends True b b' where
  state : TrieState b' nodes b.length word edges
  two : b.length + 2 ≤ b'.length
  part : nodes ∪ {b.length + 1} = Set.Ico b.length b'.length
  back_notMem : b.length + 1 ∉ nodes
  sink : ∀ a : Option Char, nfaEdges b' (b.length + 1) a = ∅
  silent : ∀ q ∈ nodes, ∀ y : Nat, y ∈ nfaEdges b' q none ↔
      y = b.length + 1 ∧ word q ∈ textsLang texts
  on_way : ∀ q ∈ nodes, q ≠ b.length → ∃ text ∈ texts, word q <+: text.toList
  arrives : ∀ text ∈ texts, ∃ q ∈ nodes, word q = text.toList

lemma literalsIn_start (b : NfaBuilder) :
    LiteralsIn b (addState (addState b).2).2 {b.length} (fun _ => []) [] [] := by
  have hCount : (addState (addState b).2).2.length = b.length + 2 := by
    rw [length_addState, length_addState]
  have hEdges : nfaEdges (addState (addState b).2).2 = nfaEdges b := by
    rw [nfaEdges_addState, nfaEdges_addState]
  have hNone : ∀ q a, b.length ≤ q → nfaEdges (addState (addState b).2).2 q a = ∅ := by
    intro q a hq
    rw [hEdges]
    exact nfaEdges_of_le hq a
  refine ⟨(Extends.addState b).trans (Extends.addState _), ⟨?_, ?_, ?_, ?_⟩, le_of_eq
    hCount.symm, ?_, ?_, ?_, ?_, ?_, ?_⟩
  · exact Trie.single fun a => hNone b.length (some a) le_rfl
  · simp
  · intro q hq c y
    rw [mem_singleton_iff.mp hq, hNone b.length (some c) le_rfl]
    exact ⟨nofun, (fun h => False.elim h)⟩
  · simp
  · rw [hCount]
    ext q
    simp only [mem_union, mem_singleton_iff, mem_Ico]
    omega
  · simp
  · intro a
    exact hNone _ a (Nat.le_succ _)
  · intro q hq y
    rw [mem_singleton_iff.mp hq, hNone b.length none le_rfl]
    refine ⟨fun h => h.elim, ?_⟩
    rintro ⟨_, text, hText, _⟩
    cases hText
  · simp
  · simp

section

variable (hIn : LiteralsIn b b' nodes word edges texts)

include hIn

lemma LiteralsIn.add (text : String) :
    ∃ nodes' word',
      LiteralsIn b
        (addEpsilon (trieInsert text.toList b.length edges b').2.2
          (trieInsert text.toList b.length edges b').1 (b.length + 1)) nodes' word'
        (trieInsert text.toList b.length edges b').2.1 (texts ++ [text]) := by
  rcases trieInsert_spec hIn.state hIn.state.trie.root_mem text.toList with
    ⟨nodes', word', hState, hGrown, hNode, hWord, hNew⟩
  rw [hIn.state.trie.word_root, nil_append] at hWord hNew
  generalize trieInsert text.toList b.length edges b' = built at hState hGrown hNode hWord ⊢
  rcases built with ⟨node, edges', b''⟩
  dsimp only at hState hGrown hNode hWord ⊢
  have hLt := hState.bound node hNode
  have hTwo := hIn.two
  have hGrows := hGrown.grows
  have hEdges := mem_nfaEdges_addEpsilon hLt (b.length + 1)
  have hBack : b.length + 1 ∉ nodes' := by
    rw [hGrown.nodes_eq]
    rintro (hOld | ⟨hLe, _⟩)
    · exact hIn.back_notMem hOld
    · omega
  have hPart : nodes' ∪ {b.length + 1} = Set.Ico b.length b''.length := by
    rw [hGrown.nodes_eq, union_right_comm, hIn.part, Ico_union_Ico_eq_Ico (by omega) hGrows]
  have hNodeNew : b.length ≤ node := by
    have hMem : node ∈ Set.Ico b.length b''.length := by
      rw [← hPart]
      exact .inl hNode
    exact hMem.1
  have hExt' : Extends True b b'' := by
    refine ⟨by omega, ?_, ?_, fun _ h => hGrown.ordered (hIn.ordered trivial h)⟩
    · intro q hq
      rw [← hIn.old q hq]
      refine hGrown.others q ?_ (by omega)
      intro hMem
      have hPlace : q ∈ Set.Ico b.length b'.length := by
        rw [← hIn.part]
        exact .inl hMem
      have hLe := hPlace.1
      omega
    · intro q
      rw [hGrown.tags]
      exact hIn.tags q
  refine ⟨nodes', word', ⟨hExt'.addEpsilon hNodeNew hLt _,
    ⟨?_, ?_, ?_, hState.keys⟩, ?_, ?_, hBack, ?_, ?_, ?_, ?_⟩⟩
  · refine hState.trie.congr ?_
    intro q _ a
    ext y
    rw [hEdges]
    simp
  · intro q hq
    rw [length_addEpsilon]
    exact hState.bound q hq
  · intro q hq c y
    rw [hState.lookup q hq, hEdges]
    simp
  · rw [length_addEpsilon]
    omega
  · rw [length_addEpsilon]
    exact hPart
  · intro a
    rw [eq_empty_iff_forall_notMem]
    intro y
    rw [hEdges, hGrown.others (b.length + 1) hIn.back_notMem (by omega), hIn.sink a]
    have hNe : b.length + 1 ≠ node := by
      rintro rfl
      exact hBack hNode
    simp [hNe]
  · intro q hq y
    rw [hEdges, hGrown.silent q, mem_textsLang_append]
    have hOld : y ∈ nfaEdges b' q none ↔ y = b.length + 1 ∧ word' q ∈ textsLang texts := by
      by_cases hKnown : q ∈ nodes
      · rw [hGrown.words q hKnown]
        exact hIn.silent q hKnown y
      -- a text that is in already has an older node
      have hLe : b'.length ≤ q := by
        rw [hGrown.nodes_eq] at hq
        exact (hq.resolve_left hKnown).1
      rw [nfaEdges_of_le hLe]
      refine ⟨fun h => h.elim, ?_⟩
      rintro ⟨_, before, hBefore, hSame⟩
      rcases hIn.arrives before hBefore with ⟨p, hp, hAt⟩
      rw [← hAt, ← hGrown.words p hp] at hSame
      have hEq := hState.trie.inj q hq p (hGrown.subset hp) hSame
      rw [hEq] at hKnown
      exact absurd hp hKnown
    have hHere : q = node ↔ word' q = text.toList := by
      rw [← hWord]
      exact ⟨fun h => congrArg word' h, hState.trie.inj q hq node hNode⟩
    rw [hOld, hHere]
    tauto
  · intro q hq hNe
    by_cases hKnown : q ∈ nodes
    · rcases hIn.on_way q hKnown hNe with ⟨before, hBefore, hPrefix⟩
      rw [hGrown.words q hKnown]
      exact ⟨before, mem_append_left _ hBefore, hPrefix⟩
    · exact ⟨text, mem_append_right _ (mem_singleton_self text), hNew q hq hKnown⟩
  · intro before hBefore
    rcases mem_append.mp hBefore with hOld | hOwn
    · rcases hIn.arrives before hOld with ⟨p, hp, hAt⟩
      refine ⟨p, hGrown.subset hp, ?_⟩
      rw [hGrown.words p hp]
      exact hAt
    · rw [mem_singleton.mp hOwn]
      exact ⟨node, hNode, hWord⟩

lemma LiteralsIn.addAll (more : List String) :
    ∃ nodes' word' edges',
      LiteralsIn b (insertLiterals ⟨b.length, b.length + 1⟩ more edges b') nodes' word' edges'
        (texts ++ more) := by
  induction more generalizing b' nodes word edges texts with
  | nil =>
    rw [append_nil]
    exact ⟨nodes, word, edges, hIn⟩
  | cons text more ih =>
    rcases hIn.add text with ⟨nodes1, word1, hIn1⟩
    rcases ih hIn1 with ⟨nodes2, word2, edges2, hIn2⟩
    rw [append_assoc] at hIn2
    exact ⟨nodes2, word2, edges2, hIn2⟩

/- The trie accepts its texts. -/
lemma LiteralsIn.piece (hSome : texts ≠ []) :
    Piece (nfaEdges b') (Set.Ico b.length b'.length) b.length (b.length + 1) (textsLang texts)
      True := by
  have hTrie := hIn.state.trie
  rw [← hIn.part]
  -- the node of a text leads to the end
  have hEnd : ∀ q ∈ nodes, word q ∈ textsLang texts → Reads (nfaEdges b') q [] (b.length + 1) := by
    intro q hq hText
    exact Reads.single (a := none) ((hIn.silent q hq _).mpr ⟨rfl, hText⟩)
  refine ⟨.inl hTrie.root_mem, .inr rfl, ?_, ?_, ?_⟩
  · rintro q (hq | rfl) a y hEdge
    · cases a with
      | none => exact .inr ((hIn.silent q hq y).mp hEdge).1
      | some c => exact .inl ((hTrie.child q hq c y).mp hEdge).1
    · rw [hIn.sink a] at hEdge
      exact hEdge.elim
  · intro w
    constructor
    · intro hReads
      rcases hTrie.leaves hReads hTrie.root_mem hIn.back_notMem with
        ⟨q, hq, u, v, y, rfl, hWord, hEdge, hRest⟩
      rcases (hIn.silent q hq y).mp hEdge with ⟨rfl, hText⟩
      rw [(hRest.of_sink hIn.sink).1, append_nil]
      rw [hWord, hTrie.word_root] at hText
      exact hText
    rintro ⟨text, hText, rfl⟩
    rcases hIn.arrives text hText with ⟨q, hq, hWord⟩
    have hReads := hTrie.reads_word hq
    rw [hWord] at hReads
    have hAll := hReads.trans (hEnd q hq ⟨text, hText, hWord⟩)
    rw [append_nil] at hAll
    exact hAll
  · rintro - q (hq | rfl)
    · have hWay : ∃ text ∈ texts, word q <+: text.toList := by
        by_cases hRoot : q = b.length
        · rw [hRoot, hTrie.word_root]
          rcases exists_mem_of_ne_nil texts hSome with ⟨text, hText⟩
          exact ⟨text, hText, nil_prefix⟩
        · exact hIn.on_way q hq hRoot
      rcases hWay with ⟨text, hText, v, hAppend⟩
      rcases hIn.arrives text hText with ⟨p, hp, hWord⟩
      refine ⟨v, ?_⟩
      have hReads := hTrie.reads_between hq hp (hWord.trans hAppend.symm)
      have hAll := hReads.trans (hEnd p hp ⟨text, hText, hWord⟩)
      rw [append_nil] at hAll
      exact hAll
    · exact ⟨[], .done _⟩

end

lemma builds_stringChoice
    {fine : Prop}
    (b : NfaBuilder)
    (hSome : texts ≠ []) :
    Builds fine b (buildStringChoice texts b).2 (buildStringChoice texts b).1
      (textsLang texts) True := by
  rcases (literalsIn_start b).addAll texts with ⟨nodes, word, edges, hIn⟩
  have hFrag : buildStringChoice texts b =
      (⟨b.length, b.length + 1⟩, insertLiterals ⟨b.length, b.length + 1⟩ texts []
        (addState (addState b).2).2) := by
    rw [← length_addState b]
    rfl
  rw [hFrag]
  exact ⟨⟨hIn.grows, hIn.old, hIn.tags, fun _ => hIn.ordered trivial⟩, hIn.piece hSome⟩

end GoTreeSitter.Grammargen
