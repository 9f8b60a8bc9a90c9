import Mathlib

/-
  Words read along the edges of an automaton.

  Main declarations:
    * `Automata.Reads`
    * `Automata.ClosedUnder`
    * `Automata.reads_congr`
    * `Automata.Piece.first_new_edge`

  A piece is a part of an automaton that no edge leaves, with an entry, an exit and the language
  read between them. Later edges may leave the exit of a piece only.
-/

-- Reading

namespace Automata

variable {α σ : Type}

/- A word is read from one state to another. -/
inductive Reads (edges : σ → Option α → Set σ) : σ → List α → σ → Prop where
  | done (s : σ) : Reads edges s [] s
  | step {s t u : σ} {w : List α} (a : Option α) : t ∈ edges s a → Reads edges t w u →
      Reads edges s (a.toList ++ w) u

variable {edges edges' : σ → Option α → Set σ}

lemma Reads.trans {s t u : σ} {v w : List α} (hFirst : Reads edges s v t)
    (hSecond : Reads edges t w u) :
    Reads edges s (v ++ w) u := by
  induction hFirst with
  | done s => exact hSecond
  | step a hEdge _ ih =>
    rw [List.append_assoc]
    exact .step a hEdge (ih hSecond)

variable {s t : σ}

lemma Reads.single {a : Option α} (hEdge : t ∈ edges s a) : Reads edges s a.toList t := by
  have hStep := Reads.step a hEdge (.done t)
  rw [List.append_nil] at hStep
  exact hStep

lemma Reads.mono (hMore : ∀ q a, edges q a ⊆ edges' q a) {w : List α} (hReads : Reads edges s w t) :
    Reads edges' s w t := by
  induction hReads with
  | done s => exact .done s
  | step a hEdge _ ih => exact .step a (hMore _ a hEdge) ih

lemma Reads.of_sink {w : List α} (hSink : ∀ a, edges s a = ∅) (hReads : Reads edges s w t) :
    w = [] ∧ t = s := by
  cases hReads with
  | done => exact ⟨rfl, rfl⟩
  | step a hEdge _ =>
    rw [hSink a] at hEdge
    exact hEdge.elim

variable {M : εNFA α σ}

variable {s t : σ}

lemma reads_nil_iff :
    Reads edges s [] t ↔ Relation.ReflTransGen (fun p q => q ∈ edges p none) s t := by
  constructor
  · intro hReads
    generalize hWord : ([] : List α) = w at hReads
    induction hReads with
    | done s => exact Relation.ReflTransGen.refl
    | step a hEdge _ ih =>
      cases a with
      | none => exact Relation.ReflTransGen.head hEdge (ih hWord)
      | some letter => cases hWord
  · intro hSteps
    induction hSteps with
    | refl => exact .done s
    | tail _ hEdge ih => exact ih.trans (Reads.single (a := none) hEdge)

-- Closed Parts

variable {part : Set σ}

/- No edge leaves these states. -/
def ClosedUnder (edges : σ → Option α → Set σ) (part : Set σ) : Prop :=
  ∀ q ∈ part, ∀ a : Option α, edges q a ⊆ part

variable {s t : σ} {w : List α}

section

variable (hClosed : ClosedUnder edges part)

include hClosed

lemma ClosedUnder.mem (hReads : Reads edges s w t) (hStart : s ∈ part) : t ∈ part := by
  induction hReads with
  | done s => exact hStart
  | step a hEdge _ ih => exact ih (hClosed _ hStart a hEdge)

variable (hSame : ∀ q ∈ part, edges' q = edges q)

include hSame

/- Only the edges of a closed part matter there. -/
lemma Reads.congr_on (hReads : Reads edges s w t) (hStart : s ∈ part) : Reads edges' s w t := by
  induction hReads with
  | done s => exact .done s
  | step a hEdge _ ih =>
    refine .step a ?_ (ih (hClosed _ hStart a hEdge))
    rw [hSame _ hStart]
    exact hEdge

lemma ClosedUnder.congr : ClosedUnder edges' part := by
  intro q hq a
  rw [hSame q hq]
  exact hClosed q hq a

lemma reads_congr (hStart : s ∈ part) : Reads edges' s w t ↔ Reads edges s w t :=
  ⟨fun hReads => hReads.congr_on (hClosed.congr hSame) (fun q hq => (hSame q hq).symm) hStart,
    fun hReads => hReads.congr_on hClosed hSame hStart⟩

end

-- Pieces

/-
  A closed part with an entry, an exit and the language between them. If it is alive every state
  leads to the exit.
-/
structure Piece (edges : σ → Option α → Set σ) (part : Set σ) (entry exit : σ) (lang : Language α)
    (alive : Prop) : Prop where
  entry_mem : entry ∈ part
  exit_mem : exit ∈ part
  closed : ClosedUnder edges part
  reads : ∀ w : List α, Reads edges entry w exit ↔ w ∈ lang
  live : alive → ∀ q ∈ part, ∃ w : List α, Reads edges q w exit

variable {entry exit : σ} {lang : Language α} {alive : Prop}

lemma Piece.congr (hPiece : Piece edges part entry exit lang alive)
    (hSame : ∀ q ∈ part, edges' q = edges q) :
    Piece edges' part entry exit lang alive where
  entry_mem := hPiece.entry_mem
  exit_mem := hPiece.exit_mem
  closed := hPiece.closed.congr hSame
  reads := by
    intro w
    rw [reads_congr hPiece.closed hSame hPiece.entry_mem]
    exact hPiece.reads w
  live := by
    intro hAlive q hq
    rcases hPiece.live hAlive q hq with ⟨w, hReads⟩
    exact ⟨w, hReads.congr_on hPiece.closed hSame hq⟩

/- A single state without edges. -/
lemma Piece.point {s : σ} (hSink : ∀ a, edges s a = ∅) : Piece edges {s} s s 1 True where
  entry_mem := rfl
  exit_mem := rfl
  closed := by
    intro q hq a
    rw [Set.mem_singleton_iff.mp hq, hSink a]
    exact Set.empty_subset _
  reads := by
    intro w
    rw [Language.mem_one]
    constructor
    · intro hReads
      exact (hReads.of_sink hSink).1
    · rintro rfl
      exact .done s
  live := by
    intro _ q hq
    rw [Set.mem_singleton_iff.mp hq]
    exact ⟨[], .done s⟩

variable (hPiece : Piece edges part entry exit lang alive)
  (hKeep : ∀ q ∈ part, q ≠ exit → edges' q = edges q) {more : Option α → σ → Prop}
  (hExit : ∀ (a : Option α) (y : σ), y ∈ edges' exit a ↔ y ∈ edges exit a ∨ more a y)

include hPiece hKeep hExit

/- An edge from a piece is an old one, or a new one at the exit. -/
lemma Piece.edge_cases {q y : σ} {a : Option α} (hq : q ∈ part) (hEdge : y ∈ edges' q a) :
    (y ∈ edges q a ∧ y ∈ part) ∨ q = exit ∧ more a y := by
  by_cases hOld : y ∈ edges q a
  · exact .inl ⟨hOld, hPiece.closed q hq a hOld⟩
  by_cases hHere : q = exit
  · subst hHere
    exact .inr ⟨rfl, ((hExit a y).mp hEdge).resolve_left hOld⟩
  · rw [hKeep q hq hHere] at hEdge
    exact absurd hEdge hOld

variable {s t : σ} {w : List α}

/- The first edge that is new, if there is one, leaves the exit after a word of the piece. -/
lemma Piece.first_new_edge (hReads : Reads edges' s w t) (hStart : s ∈ part) :
    (t ∈ part ∧ Reads edges s w t) ∨
      ∃ u v a y,
        w = u ++ (a.toList ++ v) ∧ Reads edges s u exit ∧ more a y ∧ Reads edges' y v t := by
  induction hReads with
  | done s => exact .inl ⟨hStart, .done s⟩
  | @step s next t w a hEdge hRest ih =>
    rcases hPiece.edge_cases hKeep hExit hStart hEdge with ⟨hOld, hNext⟩ | ⟨rfl, hMore⟩
    · rcases ih hNext with ⟨hIn, hPlain⟩ | ⟨u, v, b, y, rfl, hLeave, hNew⟩
      · exact .inl ⟨hIn, .step a hOld hPlain⟩
      · refine .inr ⟨a.toList ++ u, v, b, y, ?_, .step a hOld hLeave, hNew⟩
        rw [List.append_assoc]
    · exact .inr ⟨[], w, a, next, rfl, .done s, hMore, hRest⟩

/- Old paths stay when edges leave the exit. -/
lemma Piece.reads_of_keep (hReads : Reads edges s w t) (hStart : s ∈ part) :
    Reads edges' s w t := by
  induction hReads with
  | done s => exact .done s
  | @step s next t w a hEdge _ ih =>
    refine .step a ?_ (ih (hPiece.closed s hStart a hEdge))
    by_cases hHere : s = exit
    · subst hHere
      exact (hExit a next).mpr (.inl hEdge)
    · rw [hKeep s hStart hHere]
      exact hEdge

/- What is reached from the exit is reached from everywhere. -/
lemma Piece.live_of_keep (hLeave : Reads edges' exit w t) (hAlive : alive) :
    ∀ q ∈ part, ∃ w, Reads edges' q w t := by
  intro q hq
  rcases hPiece.live hAlive q hq with ⟨u, hu⟩
  exact ⟨u ++ w, (hPiece.reads_of_keep hKeep hExit hu hq).trans hLeave⟩

end Automata
