import GoTreeSitter.Query.Enumerate
import GoTreeSitter.Query.NodeMatcher

/-
  The index of the alternatives of a step.

  Main declarations:
    * `buildAlternationIndex`
    * `matchIndexedAlternation`
    * `run_eq_findSome`
    * `alternation_index_changes_nothing`

  Alternatives are filed by symbol, by text or as wildcards. A cursor over the lists for a node
  meets them in order, but it meets the wildcards at every node.
-/

-- The Cursor

namespace GoTreeSitter.Queries

open List

inductive IndexedAlternativeSource where
  | symbol
  | text
  | wildcard
  deriving DecidableEq

/- What is left of the three lists of a node. -/
structure IndexedAlternationCursor where
  symbolMatches : List Nat
  textMatches : List Nat
  wildcardMatches : List Nat

namespace IndexedAlternationCursor

/- The head of a list, if it comes before what was found. -/
def sooner (source : IndexedAlternativeSource) (nextAlt : Option (Nat × IndexedAlternativeSource)) :
    List Nat → Option (Nat × IndexedAlternativeSource)
  | [] => nextAlt
  | i :: _ => if ∀ found ∈ nextAlt, i < found.1 then some (i, source) else nextAlt

variable (c : IndexedAlternationCursor)

def next : Option (Nat × IndexedAlternativeSource) :=
  sooner .wildcard (sooner .text (sooner .symbol none c.symbolMatches) c.textMatches)
    c.wildcardMatches

def advance : IndexedAlternativeSource → IndexedAlternationCursor
  | .symbol => { c with symbolMatches := c.symbolMatches.tail }
  | .text => { c with textMatches := c.textMatches.tail }
  | .wildcard => { c with wildcardMatches := c.wildcardMatches.tail }

variable {α β : Type} (attempt : Nat → Option β)

/- The first alternative that an attempt succeeds with. -/
def run : Nat → IndexedAlternationCursor → Option β
  | 0, _ => none
  | fuel + 1, c =>
    match c.next with
    | none => none
    | some (nextAlt, source) => (attempt nextAlt).or (run fuel (c.advance source))

section

variable {source other : IndexedAlternativeSource} {i : Nat} {rest : List Nat}
  {nextAlt : Option (Nat × IndexedAlternativeSource)}

lemma sooner_cons (hFirst : ∀ found ∈ nextAlt, i < found.1) :
    sooner source nextAlt (i :: rest) = some (i, source) := if_pos hFirst

variable (hAfter : ∀ j ∈ rest, i < j)

include hAfter

lemma sooner_of_lt : sooner source (some (i, other)) rest = some (i, other) := by
  cases rest with
  | nil => rfl
  | cons j rest => exact if_neg fun h => lt_asymm (hAfter j mem_cons_self) (h (i, other) rfl)

lemma lt_of_mem_sooner (hFirst : ∀ found ∈ nextAlt, i < found.1) :
    ∀ found ∈ sooner source nextAlt rest, i < found.1 := by
  cases rest with
  | nil => exact hFirst
  | cons j rest =>
    rw [sooner]
    split
    · rintro found ⟨⟩
      exact hAfter j mem_cons_self
    · exact hFirst

end

variable (kind : α → Option IndexedAlternativeSource)

/- The numbers of the items in one of the lists. -/
def numbersOf (items : List (α × Nat)) (source : IndexedAlternativeSource) : List Nat :=
  (items.filter fun item => decide (kind item.1 = some source)).map Prod.snd

def ofItems (items : List (α × Nat)) : IndexedAlternationCursor :=
  ⟨numbersOf kind items .symbol, numbersOf kind items .text, numbersOf kind items .wildcard⟩

/- The cursor meets the items of the three lists in order. -/
lemma run_eq_findSome {items : List (α × Nat)} (hItems : items.Pairwise fun a b => a.2 < b.2)
    {fuel : Nat} (hFuel : items.length < fuel) :
    run attempt fuel (ofItems kind items) =
      items.findSome? fun item => if (kind item.1).isSome = true then attempt item.2 else none := by
  induction items generalizing fuel with
  | nil => cases fuel <;> rfl
  | cons item items ih =>
    rw [pairwise_cons] at hItems
    have hAfter : ∀ source, ∀ j ∈ numbersOf kind items source, item.2 < j := by
      intro source j hj
      obtain ⟨other, hOther, rfl⟩ := mem_map.mp hj
      exact hItems.1 other (mem_filter.mp hOther).1
    rw [length_cons] at hFuel
    obtain ⟨fuel, rfl⟩ : ∃ n, fuel = n + 1 := ⟨fuel - 1, by omega⟩
    have hHere : ∀ source,
        numbersOf kind (item :: items) source =
          if kind item.1 = some source then item.2 :: numbersOf kind items source
          else numbersOf kind items source := by
      intro source
      by_cases hSource : kind item.1 = some source <;> simp [numbersOf, hSource]
    cases hKind : kind item.1 with
    | none =>
      have hSame := ih hItems.2 (show items.length < fuel + 1 by omega)
      simpa [ofItems, hHere, hKind] using hSame
    | some source =>
      have hNext : (ofItems kind (item :: items)).next = some (item.2, source) := by
        have hFirst :
            ∀ found ∈ sooner .symbol none (numbersOf kind items .symbol), item.2 < found.1 :=
          lt_of_mem_sooner (hAfter _) (by simp)
        cases source with
        | symbol => simp [next, ofItems, hHere, hKind, sooner_cons, sooner_of_lt (hAfter _)]
        | text => simp [next, ofItems, hHere, hKind, sooner_cons hFirst, sooner_of_lt (hAfter _)]
        | wildcard =>
          simp [next, ofItems, hHere, hKind, sooner_cons (lt_of_mem_sooner (hAfter .text) hFirst)]
      have hRest := ih hItems.2 (show items.length < fuel by omega)
      rw [run, hNext]
      cases source <;> cases hAttempt : attempt item.2 <;>
        simp [advance, ofItems, hHere, hKind, hAttempt, ← hRest]

end IndexedAlternationCursor

-- The Index

open IndexedAlternationCursor

lemma findSome?_congr {α β : Type} {items : List α} {f g : α → Option β}
    (hSame : ∀ item ∈ items, f item = g item) :
    items.findSome? f = items.findSome? g := by
  rw [← head?_filterMap, ← head?_filterMap, filterMap_congr hSame]

/- Where an alternative is filed. -/
inductive AlternationBucket where
  | bySymbolNamed (symbol : Nat) (isNamed : Bool)
  | byText (text : String)
  | wildcard
  deriving DecidableEq

def bucketOf (alt : Alternative) : AlternationBucket :=
  if alt.head.symbol = 0 ∧ alt.head.textMatch = "" then .wildcard
  else if alt.head.textMatch ≠ "" then .byText alt.head.textMatch
  else .bySymbolNamed alt.head.symbol alt.head.isNamed

/- The numbers of the alternatives in a bucket, ascending. -/
def buildAlternationIndex (alternatives : List Alternative) (bucket : AlternationBucket) :
    List Nat :=
  (alternatives.zipIdx.filter fun entry => decide (bucketOf entry.1 = bucket)).map Prod.snd

structure AlternationMatchContext (N : Type) where
  lang : QueryLanguage
  tree : SyntaxTree N
  branch : BranchMatcher N
  predicates : List QueryPredicate
  step : QueryStep
  node : N
  place : Option (N × Nat)
  captures : List (Capture N)

namespace AlternationMatchContext

variable {N : Type} (c : AlternationMatchContext N)

def nodeNamed : Bool := c.tree.isNamed c.node

def nodeSymbol : Nat := c.lang.publicSymbolForNamedness (c.tree.symbol c.node) c.nodeNamed

def indexedAlternationCursor : IndexedAlternationCursor :=
  let idx := buildAlternationIndex c.step.alternatives
  ⟨idx (.bySymbolNamed c.nodeSymbol c.nodeNamed),
    if c.nodeNamed = true then [] else idx (.byText (c.tree.type c.node)), idx .wildcard⟩

/- The list in which an alternative is met. -/
def sourceOf (alt : Alternative) : Option IndexedAlternativeSource :=
  match bucketOf alt with
  | .wildcard => some .wildcard
  | .byText text => if c.nodeNamed = false ∧ text = c.tree.type c.node then some .text else none
  | .bySymbolNamed symbol isNamed =>
    if symbol = c.nodeSymbol ∧ isNamed = c.nodeNamed then some .symbol else none

lemma indexedAlternationCursor_eq :
    c.indexedAlternationCursor = ofItems c.sourceOf c.step.alternatives.zipIdx := by
  have hSame : ∀ bucket source,
      (∀ alt, bucketOf alt = bucket ↔ c.sourceOf alt = some source) →
        buildAlternationIndex c.step.alternatives bucket =
          numbersOf c.sourceOf c.step.alternatives.zipIdx source := by
    intro bucket source hBucket
    simp [buildAlternationIndex, numbersOf, hBucket]
  simp only [indexedAlternationCursor, ofItems, IndexedAlternationCursor.mk.injEq]
  refine ⟨hSame _ _ ?_, ?_, hSame _ _ ?_⟩
  · intro alt
    rw [sourceOf]
    cases bucketOf alt <;> simp
  · cases hNamed : c.nodeNamed with
    | true =>
      have hNone : ∀ alt, c.sourceOf alt ≠ some .text := by
        intro alt
        rw [sourceOf]
        cases bucketOf alt <;> simp [hNamed]
      simp [numbersOf, hNone]
    | false =>
      refine hSame _ _ ?_
      intro alt
      rw [sourceOf]
      cases bucketOf alt <;> simp [hNamed]
  · intro alt
    rw [sourceOf]
    cases bucketOf alt <;> simp

lemma isSome_sourceOf (alt : Alternative) :
    (c.sourceOf alt).isSome = isIndexed c.lang c.tree alt c.node := by
  grind [sourceOf, bucketOf, isIndexed, nodeNamed, nodeSymbol]

lemma isIndexed_eq {alt : Alternative} (hPresent : alt.head.isMissing = false)
    (hHead : c.lang.IsCanonical alt.head.symbol alt.head.isNamed)
    (hNode : c.nodeNamed ∨ ¬(bucketOf alt = .wildcard ∧ alt.head.isNamed)) :
    isIndexed c.lang c.tree alt c.node = alternativeMatchesNode c.lang c.tree alt c.node := by
  grind [isIndexed, alternativeMatchesNode, headMatches, bucketOf, nodeNamed,
    QueryLanguage.IsCanonical]

variable [DecidableEq N]

def alternativeMatches (alt : Alternative) : Option (List (Capture N)) :=
  if (alt.head.isMissing && !alternativeMatchesNode c.lang c.tree alt c.node) = true then none
  else if alternativeFieldMatches c.lang c.tree alt c.node c.place = true then
    c.branch c.predicates c.step alt c.node c.captures
  else none

def matchIndexedAlternation : Option (List (Capture N)) :=
  c.indexedAlternationCursor.run (fun i => c.step.alternatives[i]?.bind c.alternativeMatches)
    (c.step.alternatives.length + 1)

def matchLinearAlternation : Option (List (Capture N)) :=
  c.step.alternatives.findSome? fun alt =>
    if alternativeMatchesNode c.lang c.tree alt c.node = true then
      c.alternativeMatches alt
    else none

lemma matchIndexedAlternation_eq :
    c.matchIndexedAlternation =
      c.step.alternatives.findSome? fun alt =>
        if isIndexed c.lang c.tree alt c.node = true then c.alternativeMatches alt else none := by
  have hItems : c.step.alternatives.zipIdx.Pairwise fun a b => a.2 < b.2 := by
    rw [← pairwise_map (f := Prod.snd) (R := (· < ·)), zipIdx_map_snd]
    exact pairwise_lt_range'
  rw [matchIndexedAlternation, indexedAlternationCursor_eq,
    run_eq_findSome _ _ hItems (by rw [length_zipIdx]; omega)]
  conv_rhs => rw [← zipIdx_map_fst 0 c.step.alternatives, findSome?_map]
  refine findSome?_congr ?_
  rintro ⟨alt, i⟩ hEntry
  simp only [isSome_sourceOf, mk_mem_zipIdx_iff_getElem?.mp hEntry, Option.bind_some, Function.comp]

variable {c}

/-
  At a named node, or for alternatives without wildcards for named nodes, the index finds the branch
  that trying them in order finds.
-/
theorem alternation_index_changes_nothing
    (hError : c.lang.symbolNames.length ≤ errorSymbol)
    (hIndex : hasAlternationIndex c.step = true)
    (hSome : c.step.alternatives ≠ [])
    (hHeads : ∀ alt ∈ c.step.alternatives, ∃ test : NodeTest,
      test.resolve c.lang = some ⟨alt.head.symbol, alt.head.isNamed, alt.head.textMatch⟩)
    (hNode : c.nodeNamed = true ∨
      ∀ alt ∈ c.step.alternatives, ¬(bucketOf alt = .wildcard ∧ alt.head.isNamed = true)) :
    matchAlternationStep c.lang c.tree c.branch c.predicates c.step c.node c.place
      c.captures =
      c.matchIndexedAlternation ∧
      c.matchIndexedAlternation = c.matchLinearAlternation ∧
      nodeCanMatchStepShallow c.lang c.tree c.step c.node =
        c.step.alternatives.any fun alt => alternativeMatchesNode c.lang c.tree alt c.node := by
  have hPresent : ∀ alt ∈ c.step.alternatives, alt.head.isMissing = false := by
    simpa [hasAlternationIndex] using hIndex
  have hSame : ∀ alt ∈ c.step.alternatives,
      isIndexed c.lang c.tree alt c.node = alternativeMatchesNode c.lang c.tree alt c.node := by
    intro alt hAlt
    obtain ⟨test, hTest⟩ := hHeads alt hAlt
    exact c.isIndexed_eq (hPresent alt hAlt) (canonical_of_resolve hError hTest)
      (hNode.imp_right fun h => h alt hAlt)
  rw [matchIndexedAlternation_eq]
  refine ⟨?_, ?_, ?_⟩
  · rw [matchAlternationStep, triedAlternatives, ← head?_filterMap, filterMap_filter,
      head?_filterMap]
    refine findSome?_congr ?_
    intro alt hAlt
    simp [hIndex, alternativeMatches, hPresent alt hAlt]
  · refine findSome?_congr ?_
    intro alt hAlt
    rw [hSame alt hAlt]
  · rw [nodeCanMatchStepShallow, if_pos (by simpa using hSome), if_pos hIndex, Bool.eq_iff_iff,
      any_eq_true, any_eq_true]
    refine exists_congr ?_
    intro alt
    refine and_congr_right ?_
    intro hAlt
    rw [hSame alt hAlt]

end AlternationMatchContext

/- A language with lists of items in which a field may be. -/
def rowLanguage : QueryLanguage where
  symbolNames := ["end", "list", "item", ","]
  symbolNamed := [true, true, true, false]
  fieldNames := ["", "f"]
  supertypeSymbols := []
  supertypeChildren := fun _ => []
  isUpper := Char.isUpper

/- A list of three items, a comma and an item. The second item has an item in the field. -/
def rowTree : SyntaxTree (Fin 7) where
  symbol := fun node => if node = 0 then 1 else if node = 4 then 3 else 2
  isNamed := fun node => decide (node ≠ 4)
  isMissing := fun _ => false
  type := fun node => if node = 4 then "," else ""
  startByte := fun _ => 0
  endByte := fun _ => 0
  startPoint := fun _ => ⟨0, 0⟩
  endPoint := fun _ => ⟨0, 0⟩
  text := none
  parent := fun node => if node = 0 then none else if node = 6 then some 2 else some 0
  children := fun node => if node = 0 then [1, 2, 3, 4, 5] else if node = 2 then [6] else []
  fieldNameForChild := fun node _ => if node = 2 then "f" else ""
  rank := fun node => if node = 0 then 2 else if node = 2 then 1 else 0
  rank_lt := by decide
  depth := fun node => if node = 0 then 0 else if node = 6 then 2 else 1
  depth_lt := by decide
  mem_children := by decide

/- A wildcard for named nodes, or a list, at a node of the row. -/
def namedOrList (node : Fin 7) : AlternationMatchContext (Fin 7) where
  lang := rowLanguage
  tree := rowTree
  branch := fun _ _ _ node _ => some [{ name := "x", node }]
  predicates := []
  step := { alternatives := [.mk { isNamed := true } [] [],
    .mk { symbol := 1, isNamed := true } [] []] }
  node := node
  place := none
  captures := []

/- At an item the wildcard is found. -/
theorem alternation_index_changes_nothing_item :
    (namedOrList 1).matchIndexedAlternation = (namedOrList 1).matchLinearAlternation := by
  refine (AlternationMatchContext.alternation_index_changes_nothing (by decide) (by decide)
    (cons_ne_nil _ _) ?_ (.inl (by decide))).2.1
  intro alt hAlt
  rcases mem_pair.mp hAlt with rfl | rfl
  · exact ⟨.anyNamed, rfl⟩
  · exact ⟨.type "list", rfl⟩

/- At the comma it is found with the index only. -/
theorem index_accepts_anonymous_node :
    (namedOrList 4).matchLinearAlternation = none ∧
      (namedOrList 4).matchIndexedAlternation = some [{ name := "x", node := 4 }] := by
  decide

end GoTreeSitter.Queries
