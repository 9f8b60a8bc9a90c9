import GoTreeSitter.Automata.Reads

/-
  Tries in automata.

  Main declarations:
    * `Automata.Trie`
    * `Automata.Hangs`
    * `Automata.Trie.add`
    * `Automata.Hangs.reads`

  A node of a trie stands for the word that is read on the way to it. Silent edges may lead out of a
  trie, but no edge leads back.
-/

-- Words of Nodes

namespace Automata

open List

variable {α σ : Type} {edges edges' : σ → Option α → Set σ} {nodes away : Set σ} {root : σ}
  {word : σ → List α}

/- Every node has its own word. -/
structure Trie (edges : σ → Option α → Set σ) (nodes : Set σ) (root : σ) (word : σ → List α) : Prop
    where
  root_mem : root ∈ nodes
  word_root : word root = []
  child : ∀ q ∈ nodes, ∀ (a : α) (y : σ), y ∈ edges q (some a) ↔ y ∈ nodes ∧ word y = word q ++ [a]
  inj : ∀ q ∈ nodes, ∀ q' ∈ nodes, word q = word q' → q = q'
  parent : ∀ q ∈ nodes, q ≠ root → ∃ p ∈ nodes, ∃ a : α, word q = word p ++ [a]

/- Silent edges of nodes lead away for good. -/
structure LeadsAway (edges : σ → Option α → Set σ) (nodes away : Set σ) : Prop where
  closed : ClosedUnder edges away
  disjoint : Disjoint nodes away
  silent : ∀ q ∈ nodes, edges q none ⊆ away

section

variable (hTrie : Trie edges nodes root word)

include hTrie

lemma Trie.exists_front {q : σ} {v : List α} {a : α} (hq : q ∈ nodes) (hWord : word q = v ++ [a]) :
    ∃ z ∈ nodes, word z = v := by
  have hNe : q ≠ root := by
    rintro rfl
    rw [hTrie.word_root] at hWord
    exact append_ne_nil_of_right_ne_nil _ (cons_ne_nil a []) hWord.symm
  rcases hTrie.parent q hq hNe with ⟨z, hz, b, hParent⟩
  exact ⟨z, hz, (append_inj' (hParent.symm.trans hWord) rfl).1⟩

lemma Trie.reads_between {p q : σ} {v : List α} (hp : p ∈ nodes) (hq : q ∈ nodes)
    (hWord : word q = word p ++ v) :
    Reads edges p v q := by
  induction v using List.reverseRecOn generalizing q with
  | nil =>
    rw [append_nil] at hWord
    rw [hTrie.inj q hq p hp hWord]
    exact .done p
  | append_singleton v a ih =>
    rw [← append_assoc] at hWord
    rcases hTrie.exists_front hq hWord with ⟨z, hz, hFront⟩
    have hEdge : q ∈ edges z (some a) := by
      rw [hTrie.child z hz]
      exact ⟨hq, by rw [hWord, hFront]⟩
    exact (ih hz hFront).trans (Reads.single hEdge)

lemma Trie.reads_word {q : σ} (hq : q ∈ nodes) : Reads edges root (word q) q := by
  refine hTrie.reads_between hTrie.root_mem hq ?_
  rw [hTrie.word_root, nil_append]

lemma Trie.word_of_reads (hAway : LeadsAway edges nodes away) {p q : σ} {w : List α}
    (hReads : Reads edges p w q) (hp : p ∈ nodes) (hq : q ∈ nodes) :
    word q = word p ++ w := by
  induction hReads with
  | done s => rw [append_nil]
  | @step p next q w a hEdge hRest ih =>
    cases a with
    | none =>
      have hGone := hAway.closed.mem hRest (hAway.silent p hp hEdge)
      exact absurd hGone (Set.disjoint_left.mp hAway.disjoint hq)
    | some letter =>
      rcases (hTrie.child p hp letter next).mp hEdge with ⟨hNext, hWord⟩
      rw [ih hNext hq, hWord, append_assoc]
      rfl

lemma Trie.leaves {p t : σ} {w : List α} (hReads : Reads edges p w t) (hp : p ∈ nodes)
    (ht : t ∉ nodes) :
    ∃ q ∈ nodes, ∃ u v y,
      w = u ++ v ∧ word q = word p ++ u ∧ y ∈ edges q none ∧ Reads edges y v t := by
  induction hReads with
  | done s => exact absurd hp ht
  | @step p next t w a hEdge hRest ih =>
    cases a with
    | none =>
      refine ⟨p, hp, [], w, next, rfl, ?_, hEdge, hRest⟩
      rw [append_nil]
    | some letter =>
      rcases (hTrie.child p hp letter next).mp hEdge with ⟨hNext, hWord⟩
      rcases ih hNext ht with ⟨q, hq, u, v, y, rfl, hAt, hRest'⟩
      refine ⟨q, hq, letter :: u, v, y, rfl, ?_, hRest'⟩
      rw [hAt, hWord, append_assoc]
      rfl

end

-- Growing Tries

variable {nodes : Set σ}

lemma Trie.single (hNone : ∀ a, edges root (some a) = ∅) :
    Trie edges {root} root (fun _ => []) where
  root_mem := rfl
  word_root := rfl
  child := by
    intro q hq a y
    rw [Set.mem_singleton_iff.mp hq, hNone a]
    refine ⟨fun h => h.elim, ?_⟩
    rintro ⟨_, hWord⟩
    exact absurd hWord.symm (append_ne_nil_of_right_ne_nil [] (cons_ne_nil a []))
  inj := by
    intro q hq q' hq' _
    rw [Set.mem_singleton_iff.mp hq, Set.mem_singleton_iff.mp hq']
  parent := by
    intro q hq hNe
    exact absurd hq hNe

lemma Trie.congr (hTrie : Trie edges nodes root word)
    (hSame : ∀ q ∈ nodes, ∀ a, edges' q (some a) = edges q (some a)) :
    Trie edges' nodes root word where
  root_mem := hTrie.root_mem
  word_root := hTrie.word_root
  child := by
    intro q hq a y
    rw [hSame q hq a]
    exact hTrie.child q hq a y
  inj := hTrie.inj
  parent := hTrie.parent

/- A new node for a letter that a node does not read. -/
lemma Trie.add
    [DecidableEq σ]
    (hTrie : Trie edges nodes root word)
    {p new : σ}
    {letter : α}
    (hp : p ∈ nodes)
    (hNew : new ∉ nodes)
    (hNone : edges p (some letter) = ∅)
    (hKeep : ∀ q ∈ nodes, q ≠ p → ∀ a, edges' q (some a) = edges q (some a))
    (hEdge : ∀ a y, y ∈ edges' p (some a) ↔ y ∈ edges p (some a) ∨ (a = letter ∧ y = new))
    (hSink : ∀ a, edges' new (some a) = ∅) :
    Trie edges' (insert new nodes) root (Function.update word new (word p ++ [letter])) := by
  have hOld : ∀ q ∈ nodes, Function.update word new (word p ++ [letter]) q = word q := by
    intro q hq
    refine Function.update_of_ne ?_ _ _
    rintro rfl
    exact hNew hq
  have hFresh : ∀ q ∈ nodes, word q ≠ word p ++ [letter] := by
    intro q hq hWord
    have hIn : q ∈ edges p (some letter) := (hTrie.child p hp letter q).mpr ⟨hq, hWord⟩
    rw [hNone] at hIn
    exact hIn
  have hSelf : Function.update word new (word p ++ [letter]) new = word p ++ [letter] :=
    Function.update_self _ _ _
  refine ⟨.inr hTrie.root_mem, ?_, ?_, ?_, ?_⟩
  · rw [hOld root hTrie.root_mem]
    exact hTrie.word_root
  · rintro q (rfl | hq) a y
    · rw [hSink a, hSelf]
      refine ⟨fun h => h.elim, ?_⟩
      rintro ⟨rfl | hy, hWord⟩
      · exact absurd hWord.symm (by simp)
      -- a node below the new one would have it as parent
      rw [hOld y hy] at hWord
      rcases hTrie.exists_front hy hWord with ⟨z, hz, hFront⟩
      exact absurd hFront (hFresh z hz)
    rw [hOld q hq]
    by_cases hHere : q = p
    · subst hHere
      rw [hEdge, hTrie.child q hq]
      constructor
      · rintro (⟨hy, hWord⟩ | ⟨rfl, rfl⟩)
        · exact ⟨.inr hy, (hOld y hy).trans hWord⟩
        · exact ⟨.inl rfl, hSelf⟩
      rintro ⟨rfl | hy, hWord⟩
      · rw [hSelf] at hWord
        right
        exact ⟨(List.cons.inj (append_cancel_left hWord)).1.symm, rfl⟩
      · rw [hOld y hy] at hWord
        exact .inl ⟨hy, hWord⟩
    · rw [hKeep q hq hHere a, hTrie.child q hq]
      constructor
      · rintro ⟨hy, hWord⟩
        exact ⟨.inr hy, (hOld y hy).trans hWord⟩
      rintro ⟨rfl | hy, hWord⟩
      · rw [hSelf] at hWord
        exact absurd (hTrie.inj q hq p hp (append_inj' hWord rfl).1.symm) hHere
      · rw [hOld y hy] at hWord
        exact ⟨hy, hWord⟩
  · rintro q (rfl | hq) q' (rfl | hq') hWord
    · rfl
    · rw [hSelf, hOld q' hq'] at hWord
      exact absurd hWord.symm (hFresh q' hq')
    · rw [hSelf, hOld q hq] at hWord
      exact absurd hWord (hFresh q hq)
    · rw [hOld q hq, hOld q' hq'] at hWord
      exact hTrie.inj q hq q' hq' hWord
  · rintro q (rfl | hq) hNe
    · refine ⟨p, .inr hp, letter, ?_⟩
      rw [hSelf, hOld p hp]
    rcases hTrie.parent q hq hNe with ⟨z, hz, a, hWord⟩
    refine ⟨z, .inr hz, a, ?_⟩
    rw [hOld q hq, hOld z hz]
    exact hWord

-- Pieces below a Root

variable {part : Set σ} {root entry exit : σ} {lang : Language α} {alive : Prop}

/- A piece that is entered from the root only. -/
structure Hangs (edges : σ → Option α → Set σ) (root : σ) (part : Set σ) (entry exit : σ)
    (lang : Language α) (alive : Prop) : Prop where
  piece : Piece edges part entry exit lang alive
  root_notMem : root ∉ part
  edge : entry ∈ edges root none
  door : ∀ q ∉ part, ∀ (a : Option α) (y : σ),
      y ∈ edges q a → y ∈ part → q = root ∧ a = none ∧ y = entry

variable (hHangs : Hangs edges root part entry exit lang alive)

include hHangs

/- The piece does not see new edges elsewhere. -/
lemma Hangs.congr (hSame : ∀ q ∈ part, edges' q = edges q) (hEdge : entry ∈ edges' root none)
    (hDoor : ∀ q ∉ part, ∀ a y, y ∈ edges' q a → y ∈ part → y ∈ edges q a) :
    Hangs edges' root part entry exit lang alive where
  piece := hHangs.piece.congr hSame
  root_notMem := hHangs.root_notMem
  edge := hEdge
  door := by
    intro q hq a y hy hIn
    exact hHangs.door q hq a y (hDoor q hq a y hy hIn) hIn

/- Without the root there is no way in. -/
lemma Hangs.mem_of_reads (hBack : ∀ q a, root ∉ edges q a) {p t : σ} {w : List α}
    (hReads : Reads edges p w t) (hp : p ≠ root) (ht : t ∈ part) :
    p ∈ part := by
  induction hReads with
  | done s => exact ht
  | @step p next t w a hEdge hRest ih =>
    have hNext : next ≠ root := by
      rintro rfl
      exact hBack p a hEdge
    by_contra hOut
    exact hp (hHangs.door p hOut a next hEdge (ih hNext ht)).1

/- From the root, the piece reads its language. -/
lemma Hangs.reads (hBack : ∀ q a, root ∉ edges q a) (w : List α) :
    Reads edges root w exit ↔ w ∈ lang := by
  rw [← hHangs.piece.reads w]
  constructor
  · intro hReads
    cases hReads with
    | done => exact absurd hHangs.piece.exit_mem hHangs.root_notMem
    | @step _ next _ w a hEdge hRest =>
      have hNext : next ≠ root := by
        rintro rfl
        exact hBack _ a hEdge
      have hIn := hHangs.mem_of_reads hBack hRest hNext hHangs.piece.exit_mem
      rcases hHangs.door root hHangs.root_notMem a next hEdge hIn with ⟨_, rfl, rfl⟩
      exact hRest
  · intro hReads
    exact (Reads.single (a := none) hHangs.edge).trans hReads

end Automata
