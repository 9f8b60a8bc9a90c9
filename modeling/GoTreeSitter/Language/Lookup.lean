import GoTreeSitter.Language.Table
import GoTreeSitter.Search.Sorted

/-
  The tables a parser derives from those of its language.

  Key definitions include:
    * `Language.buildSmallTokenLookup`
    * `Language.buildSmallLookup`

  A small state may have a dense row for its low symbols and a sorted list of pairs for the rest. A
  state with neither is looked up by the walk over its sections.
-/

-- Dense Rows

namespace GoTreeSitter

def smallTokenDenseThreshold : Nat := 8
def cobolSmallTokenDenseThreshold : Nat := 12
def typeScriptSmallTokenDenseThreshold : Nat := 4

namespace Language

variable (lang : Language)

def isCobolLanguage : Bool :=
  lang.name == "cobol" || lang.name == "COBOL"

def compactSmallTokenRows : Bool := lang.isCobolLanguage

/- The number of symbols a dense row has place for. -/
def smallDenseLookupSymbolLimit : Nat :=
  if lang.generatedByGrammargen ∧ lang.symbolCount > lang.tokenCount then
    lang.symbolCount.toNat
  else
    lang.tokenCount.toNat

/- A value is written, and counted if the place was free. -/
def writeUsed (state : List UInt16 × Nat) (pair : Symbol × UInt16) : List UInt16 × Nat :=
  let sym := pair.1.toNat
  if sym < state.1.length then
    (state.1.set sym pair.2,
      if state.1[sym]? = some 0 then state.2 + 1 else state.2)
  else
    state

/- A row with all places, if more than a few are used. -/
def fullRow (threshold smallIdx : Nat) : List UInt16 :=
  let (row, used) := (lang.smallPairs smallIdx).foldl writeUsed
      (List.replicate lang.smallDenseLookupSymbolLimit 0, 0)
  if used > threshold then row else []

def buildSmallTokenLookupFullRows (threshold : Nat) : List (List UInt16) :=
  (List.range lang.smallParseTableMap.length).map (lang.fullRow threshold)

/- The tokens of a row that are in use. -/
structure TokenUse where
  seen : List Nat := []
  used : Nat := 0
  width : Nat := 0

/- A token is counted once.  The width is past the last. -/
def countToken (tokenCount : Nat) (use : TokenUse) (pair : Symbol × UInt16) : TokenUse :=
  let sym := pair.1.toNat
  if sym < tokenCount ∧ sym ∉ use.seen then
    { seen := sym :: use.seen
      used := use.used + 1
      width := max use.width (sym + 1) }
  else
    use

/- A row up to its last token, if more than a few are used. -/
def compactRow (threshold smallIdx : Nat) : List UInt16 :=
  let pairs := lang.smallPairs smallIdx
  let use := pairs.foldl (countToken lang.tokenCount.toNat) {}
  if use.used > threshold then
    Search.fillRow (List.replicate use.width 0) (pairs.map (fun pair => (pair.1.toNat, pair.2)))
  else
    []

def buildSmallTokenLookup : List (List UInt16) :=
  if lang.tokenCount = 0 ∨ lang.smallParseTableMap = [] ∨ lang.smallParseTable = [] then
    []
  else if lang.compactSmallTokenRows then
    (List.range lang.smallParseTableMap.length).map (lang.compactRow cobolSmallTokenDenseThreshold)
  else if lang.generatedByGrammargen then
    lang.buildSmallTokenLookupFullRows 0
  else if lang.name == "typescript" then
    lang.buildSmallTokenLookupFullRows typeScriptSmallTokenDenseThreshold
  else
    lang.buildSmallTokenLookupFullRows smallTokenDenseThreshold

-- Sorted Pairs

/-
  The number of pairs past the dense row. The count is 0 if a section is not there. Without a dense
  row the symbols are skipped, whether the table has them or not.
-/
def overflowTotal (table : List UInt16) (denseLimit : Nat) : Nat → Nat → Nat → Nat
  | 0, _, total => total
  | groups + 1, pos, total =>
    match table[pos + 1]? with
    | none => 0
    | some symbolCount =>
      if denseLimit = 0 then
        overflowTotal table denseLimit groups (pos + 2 + symbolCount.toNat)
          (total + symbolCount.toNat)
      else
        let syms := (table.drop (pos + 2)).take symbolCount.toNat
        overflowTotal table denseLimit groups (pos + 2 + syms.length)
          (total + (syms.filter (fun sym =>
            denseLimit ≤ sym.toNat)).length)

/- The pairs past a dense row. -/
def overflowPairs (denseLimit smallIdx : Nat) : List (Symbol × UInt16) :=
  (lang.smallPairs smallIdx).filter (fun pair =>
    denseLimit = 0 ∨ denseLimit ≤ pair.1.toNat)

def smallLookupRow (smallTokenLookup : List (List UInt16)) (smallIdx : Nat) :
    List (Symbol × UInt16) :=
  let denseLimit := (smallTokenLookup.getD smallIdx []).length
  match lang.smallParseTableMap[smallIdx]? with
  | none => []
  | some offset =>
    match lang.smallParseTable[offset.toNat]? with
    | none => []
    | some groupCount =>
      if overflowTotal lang.smallParseTable denseLimit
          groupCount.toNat (offset.toNat + 1) 0 = 0 then
        []
      else
        (lang.overflowPairs denseLimit smallIdx).insertionSort (fun a b => a.1 ≤ b.1)

def buildSmallLookup (smallTokenLookup : List (List UInt16)) : List (List (Symbol × UInt16)) :=
  (List.range lang.smallParseTableMap.length).map (lang.smallLookupRow smallTokenLookup)

end Language

-- Lookups

instance : LinearOrder Symbol where
  le_refl := UInt16.le_refl
  le_trans := fun _ _ _ => UInt16.le_trans
  le_antisymm := fun _ _ => UInt16.le_antisymm
  le_total := UInt16.le_total
  lt_iff_le_not_ge := by
    intro a b
    rw [UInt16.lt_iff_toNat_lt, UInt16.le_iff_toNat_le, UInt16.le_iff_toNat_le]
    omega
  toDecidableLE := inferInstance

/- The tables that lookups read. -/
structure ActionTableView where
  language : Language
  denseLimit : Nat
  smallBase : Nat
  smallTokenLookup : List (List UInt16)
  smallLookup : List (List (Symbol × UInt16))

variable (lang : Language) (view : ActionTableView) (state : StateID) (sym : Symbol)

namespace Language

/- The tables a new parser has. -/
def actionTableView : ActionTableView :=
  let derive := lang.smallParseTableMap ≠ [] ∧ lang.smallParseTable ≠ []
  let smallTokenLookup :=
    if derive then lang.buildSmallTokenLookup else []
  { language := lang
    denseLimit := lang.denseLimit
    smallBase := lang.largeStateCount.toNat
    smallTokenLookup := smallTokenLookup
    smallLookup :=
      if derive then lang.buildSmallLookup smallTokenLookup
      else [] }

/- The walk over the sections of a small state. -/
def walkActionIndex (smallIdx : Nat) (sym : Symbol) : UInt16 :=
  (Search.find sym (lang.smallPairs smallIdx)).getD 0

/- The action index without derived tables. -/
def linearActionIndex : UInt16 :=
  if state.toNat < lang.denseLimit then
    ((lang.parseTable.getD state.toNat [])[sym.toNat]?).getD 0
  else if state.toNat < lang.largeStateCount.toNat then
    0
  else
    lang.walkActionIndex (state.toNat - lang.largeStateCount.toNat) sym

end Language

namespace ActionTableView

/- Up to eight pairs are scanned, more are bisected. -/
def lookupPairs (pairs : List (Symbol × UInt16)) (sym : Symbol) : UInt16 :=
  if pairs.length ≤ 8 then
    (Search.scan sym pairs).getD 0
  else
    (Search.bisect sym pairs).getD 0

def lookupSmallRow (smallIdx : Nat) (sym : Symbol) : UInt16 :=
  match (view.smallTokenLookup.getD smallIdx [])[sym.toNat]? with
  | some idx => idx
  | none =>
    let pairs := view.smallLookup.getD smallIdx []
    if pairs = [] then
      view.language.walkActionIndex smallIdx sym
    else
      lookupPairs pairs sym

def lookupActionIndexSmall : UInt16 :=
  if state.toNat < view.smallBase ∨ view.language.smallParseTableMap.length
      ≤ state.toNat - view.smallBase then
    0
  else
    view.lookupSmallRow (state.toNat - view.smallBase) sym

/- The action index of a cell, or 0. -/
def lookupActionIndex : UInt16 :=
  if state.toNat < view.denseLimit then
    ((view.language.parseTable.getD state.toNat [])[sym.toNat]?).getD 0
  else
    view.lookupActionIndexSmall state sym

/- The used places of a dense row. -/
def rowPairs (row : List UInt16) : List (Symbol × UInt16) :=
  (row.zipIdx.filter (fun cell => cell.1 != 0)).map (fun cell => (UInt16.ofNat cell.2, cell.1))

/- The pairs are visited until the visitor has enough. -/
def visitPairs {σ : Type} (visit : σ → Symbol → UInt16 → σ × Bool) :
    List (Symbol × UInt16) → σ → σ × Bool
  | [], acc => (acc, true)
  | pair :: rest, acc =>
    match visit acc pair.1 pair.2 with
    | (next, true) => visitPairs visit rest next
    | (next, false) => (next, false)

/- The visits of a small state. -/
def forEachInSmallRow {σ : Type} (view : ActionTableView) (smallIdx : Nat)
    (visit : σ → Symbol → UInt16 → σ × Bool) (acc : σ) : σ :=
  let row := view.smallTokenLookup.getD smallIdx []
  let pairs := view.smallLookup.getD smallIdx []
  if row ≠ [] ∨ pairs ≠ [] then
    match visitPairs visit (rowPairs row) acc with
    | (next, true) => (visitPairs visit pairs next).1
    | (next, false) => next
  else
    (visitPairs visit (view.language.smallPairs smallIdx) acc).1

def forEachActionIndexInState {σ : Type} (view : ActionTableView) (state : StateID)
    (visit : σ → Symbol → UInt16 → σ × Bool) (acc : σ) : σ :=
  if state.toNat < view.denseLimit then
    (visitPairs visit (rowPairs (view.language.parseTable.getD state.toNat [])) acc).1
  else if state.toNat < view.smallBase ∨ view.language.smallParseTableMap.length
      ≤ state.toNat - view.smallBase then
    acc
  else
    view.forEachInSmallRow (state.toNat - view.smallBase) visit acc

end ActionTableView

end GoTreeSitter
