import GoTreeSitter.Tree.Changed

/-
  Parsing the languages embedded in a document, afresh and after edits.

  Main declarations:
    * `InjectionParser`
    * `InjectionParser.findAndParseInjections`
    * `InjectionParser.incremental_eq_parse_iff`
    * `InjectionParser.chain_eq_of_kept`
    * `InjectionParser.injections_ordered_iff`

  The parsers and queries of single languages are given, over any type of trees. The two entry
  points differ in the loop over the regions they detect.
-/

-- The Two Entry Points

namespace GoTreeSitter

open List

/- A region in another language, with its tree if parsed. -/
structure Injection (τ : Type) where
  language : String
  ranges : List SourceRange
  tree : Option τ
deriving DecidableEq

structure InjectionResult (τ : Type) where
  tree : τ
  injections : List (Injection τ)
deriving DecidableEq

/- A node has a range and a text, with no blanks around it. -/
structure InjectionCapture where
  name : String
  node : Option (SourceRange × String)

structure InjectionMatch where
  setValues : List String
  captures : List InjectionCapture

/-
  What the entry points ask of the registered languages. A parse of a region has no result if it
  fails or, for a parse of the bytes alone, if it stops early.
-/
structure InjectionParser (τ : Type) where
  registered : String → Bool
  hasQuery : String → Bool
  maxDepth : Nat
  parseSource : String → Source → Except String τ
  reparse : String → Source → τ → Except String τ
  parseBytes : String → Source → SourceRange → Option τ
  parseRanges : String → Source → List SourceRange → Option τ
  exec : String → Source → τ → List InjectionMatch
  diffChangedRanges : τ → τ → List SourceRange

def defaultMaxInjectionDepth : Nat := 10

namespace InjectionParser

variable {τ : Type} (ip : InjectionParser τ) (source : Source) (lang : String)

def effectiveMaxDepth : Nat :=
  if ip.maxDepth = 0 then defaultMaxInjectionDepth
  else ip.maxDepth

/- The last content node counts, and the first name. -/
def injectionEntry (found : InjectionMatch) : Option (Injection τ) :=
  let last := found.captures.foldl (fun (seen : Option SourceRange × String) cap =>
      if cap.name = "injection.content" then
        (cap.node.map (·.1), seen.2)
      else if cap.name = "injection.language" ∧ seen.2 = ""
      then (seen.1, (cap.node.map (·.2)).getD "")
      else seen)
    (none, found.setValues.headD "")
  last.1.map fun r => ⟨last.2, [r], none⟩

/- The error that the source returns as well is never set. -/
def detectInjections (tree : τ) : List (Injection τ) :=
  if ip.hasQuery lang then
    (ip.exec lang source tree).filterMap injectionEntry
  else []

/- The tree of a region: one range is parsed by itself. -/
def parseChild (det : Injection τ) : Option τ :=
  match det.ranges with
  | [r] =>
    if r.startByte ≤ r.endByte ∧ r.endByte.toNat ≤ source.length then
      (ip.parseBytes det.language source r).or (ip.parseRanges det.language source det.ranges)
    else ip.parseRanges det.language source det.ranges
  | _ => ip.parseRanges det.language source det.ranges

/- A region, followed by the regions found in its tree. -/
def parseDetected (recurse : String → τ → List (Injection τ)) (det : Injection τ) :
    List (Injection τ) :=
  if det.language = "" ∨ ip.registered det.language = false
  then [det]
  else
    match ip.parseChild source det with
    | none => [det]
    | some tree =>
      if ip.hasQuery det.language then
        { det with tree := some tree } :: recurse det.language tree
      else [{ det with tree := some tree }]

/- The number counts the levels that are left. -/
def findAndParseInjections : Nat → String → τ → List (Injection τ)
  | 0, _, _ => []
  | depth + 1, lang, tree =>
    (ip.detectInjections source lang tree).flatMap
      (ip.parseDetected source (findAndParseInjections depth))

def parse : Except String (InjectionResult τ) :=
  if ip.registered lang = false then
    .error ("injection: language " ++ lang.quote ++ " not registered")
  else
    match ip.parseSource lang source with
    | .error e => .error ("injection: parsing " ++ lang.quote ++ ": " ++ e)
    | .ok tree => .ok ⟨tree, ip.findAndParseInjections source ip.effectiveMaxDepth lang tree⟩

/- The tree an old result has for the same region. -/
def findOldInjection (old : InjectionResult τ) (lang : String) (ranges : List SourceRange) :
    Option τ :=
  old.injections.findSome? fun inj =>
    if inj.language = lang ∧ inj.ranges = ranges then
      inj.tree
    else none

def overlapChanged (changedRanges ranges : List SourceRange) : Bool :=
  changedRanges.any fun cr => ranges.any fun r =>
    r.startByte < cr.endByte && r.endByte > cr.startByte

/- A region that no change touches keeps its old tree. -/
def reparseDetected (old : InjectionResult τ) (changedRanges : List SourceRange)
    (det : Injection τ) : Injection τ :=
  if det.language = "" ∨ ip.registered det.language = false
  then det
  else
    let kept :=
      if overlapChanged changedRanges det.ranges then none
      else findOldInjection old det.language det.ranges
    { det with
      tree := kept.or (ip.parseRanges det.language source det.ranges) }

def parseIncremental : Option (InjectionResult τ) → Except String (InjectionResult τ)
  | none => ip.parse source lang
  | some old =>
    if ip.registered lang = false then
      .error ("injection: language " ++ lang.quote ++ " not registered")
    else
      match ip.reparse lang source old.tree with
      | .error e => .error ("injection: incremental parsing " ++ lang.quote ++ ": " ++ e)
      | .ok tree =>
        .ok ⟨tree, (ip.detectInjections source lang tree).map (ip.reparseDetected source old
            (ip.diffChangedRanges old.tree tree))⟩

-- When They Agree

variable {ip : InjectionParser τ} {source : Source} {old : InjectionResult τ}
  {changedRanges : List SourceRange} {det : Injection τ}

/- If each gives something, then each gives one thing. -/
lemma flatMap_eq_map_iff {f : Injection τ → List (Injection τ)} (g : Injection τ → Injection τ)
    (hSome : ∀ a, f a ≠ []) (dets : List (Injection τ)) :
    dets.flatMap f = dets.map g ↔ ∀ a ∈ dets, f a = [g a] := by
  have hLength (dets : List (Injection τ)) : dets.length ≤ (dets.flatMap f).length := by
    induction dets with
    | nil => exact Nat.zero_le _
    | cons a rest ih =>
      have hFull := length_pos_of_ne_nil (hSome a)
      simp only [flatMap_cons, length_append, length_cons]
      omega
  induction dets with
  | nil => simp
  | cons a rest ih =>
    obtain ⟨first, nested, hFirst⟩ := exists_cons_of_ne_nil (hSome a)
    simp only [forall_mem_cons, flatMap_cons, map_cons, hFirst, cons_append, List.cons.injEq]
    constructor
    · intro ⟨hHead, hTail⟩
      -- The rest alone is as long as its images.
      have hRest := hLength rest
      have hSum := congrArg List.length hTail
      simp only [length_append, length_map] at hSum
      have hNone : nested = [] := length_eq_zero_iff.mp (by omega)
      rw [hNone, nil_append] at hTail
      exact ⟨⟨hHead, hNone⟩, ih.mp hTail⟩
    · intro ⟨⟨hHead, hNone⟩, hRest⟩
      rw [hNone, nil_append]
      exact ⟨hHead, ih.mpr hRest⟩

lemma parseDetected_ne_nil (ip : InjectionParser τ) (source : Source)
    (recurse : String → τ → List (Injection τ)) (det : Injection τ) :
    ip.parseDetected source recurse det ≠ [] := by
  unfold parseDetected
  repeat' split
  all_goals apply cons_ne_nil

/- With levels left, only a tree with no regions gives none. -/
lemma findAndParseInjections_eq_nil_iff {depth : Nat} {lang : String} {tree : τ} :
    ip.findAndParseInjections source depth lang tree = [] ↔
      depth = 0 ∨ ip.detectInjections source lang tree = [] := by
  cases depth with
  | zero => simp [findAndParseInjections]
  | succ depth =>
    simp only [findAndParseInjections, flatMap_eq_nil_iff,
      parseDetected_ne_nil, Nat.succ_ne_zero, false_or]
    rw [eq_nil_iff_forall_not_mem]

/-
  A region of a registered language comes out as from a fresh parse. An old tree that is kept is the
  region's tree. The parsers agree on a region by itself and within the text. Nothing is nested in
  the region, or no level is left.
-/
@[mk_iff]
structure Settled (ip : InjectionParser τ) (source : Source) (old : InjectionResult τ)
    (changedRanges : List SourceRange) (det : Injection τ) : Prop where
  kept : overlapChanged changedRanges det.ranges = false → ∀ tree, findOldInjection old det.language
    det.ranges = some tree → ip.parseChild source det = some tree
  parsed : overlapChanged changedRanges det.ranges = true ∨ findOldInjection old det.language
      det.ranges = none → ip.parseChild source det = ip.parseRanges det.language source det.ranges
  nested : ∀ tree, ip.parseChild source det = some tree → ip.hasQuery det.language = true →
    ip.effectiveMaxDepth = 1 ∨ ip.detectInjections source det.language tree = []

/- A region that is parsed again, or whose tree is kept. -/
lemma eq_kept_or_iff {changed : Bool} {fresh oldTree parsed : Option τ} :
    fresh = (if changed then none else oldTree).or parsed ↔
      (changed = false → ∀ tree, oldTree = some tree → fresh = some tree) ∧
        (changed ∨ oldTree = none → fresh = parsed) := by
  cases changed <;> cases oldTree <;> simp

lemma parseDetected_eq_iff {depth : Nat} (hDepth : ip.effectiveMaxDepth = depth + 1)
    (hLanguage : det.language ≠ "") (hKnown : ip.registered det.language) (hNew : det.tree = none) :
    ip.parseDetected source (ip.findAndParseInjections source depth) det =
      [ip.reparseDetected source old changedRanges det] ↔
      ip.Settled source old changedRanges det := by
  have hLeft : ¬ (det.language = "" ∨
      ip.registered det.language = false) := by simp [hLanguage, hKnown]
  have hNested (tree : τ) : ip.findAndParseInjections source depth det.language tree = [] ↔
      ip.effectiveMaxDepth = 1 ∨ ip.detectInjections source det.language tree = [] := by
    rw [findAndParseInjections_eq_nil_iff, hDepth, Nat.add_eq_right]
  rw [settled_iff, ← and_assoc, ← eq_kept_or_iff, parseDetected, reparseDetected, if_neg hLeft,
    if_neg hLeft]
  obtain ⟨language, ranges, tree⟩ := det
  cases hNew
  cases hChild : ip.parseChild source ⟨language, ranges, none⟩ with
  | none => simp
  | some tree =>
    cases hQuery : ip.hasQuery language with
    | false => simp
    | true => simp [hNested]

lemma tree_of_mem_detectInjections {lang : String} {tree : τ}
    (hDet : det ∈ ip.detectInjections source lang tree) :
    det.tree = none := by
  unfold detectInjections at hDet
  split at hDet
  · obtain ⟨found, -, hEntry⟩ := mem_filterMap.mp hDet
    obtain ⟨r, -, rfl⟩ := Option.map_eq_some_iff.mp hEntry
    rfl
  · cases hDet

/-
  Parsing after edits gives what parsing afresh gives if and
  only if each region of a registered language is settled.
-/
theorem incremental_eq_parse_iff
    (ip : InjectionParser τ)
    (source : Source)
    (lang : String)
    (old : InjectionResult τ)
    {tree : τ}
    (hKnown : ip.registered lang = true)
    (hParse : ip.parseSource lang source = .ok tree)
    (hReparse : ip.reparse lang source old.tree = .ok tree) :
    ip.parseIncremental source lang (some old) = ip.parse source lang ↔
      ∀ det ∈ ip.detectInjections source lang tree,
        det.language ≠ "" → ip.registered det.language = true →
          ip.Settled source old (ip.diffChangedRanges old.tree tree) det := by
  obtain ⟨depth, hDepth⟩ : ∃ depth, ip.effectiveMaxDepth = depth + 1 := by
    apply Nat.exists_eq_succ_of_ne_zero
    unfold effectiveMaxDepth defaultMaxInjectionDepth
    split <;> omega
  simp only [parseIncremental, parse, hParse, hReparse, hKnown, hDepth, findAndParseInjections,
    Bool.true_eq_false, if_false, Except.ok.injEq, InjectionResult.mk.injEq, true_and]
  rw [eq_comm, flatMap_eq_map_iff _ (parseDetected_ne_nil ip source _)]
  apply forall₂_congr
  intro det hDet
  by_cases hLeft : det.language ≠ "" ∧ ip.registered det.language = true
  · rw [parseDetected_eq_iff hDepth hLeft.1 hLeft.2 (tree_of_mem_detectInjections hDet)]
    simp [hLeft]
  -- A region in no known language is left as it is.
  have hLeave : det.language = "" ∨
      ip.registered det.language = false := by simpa [← or_iff_not_imp_left] using hLeft
  rw [parseDetected, reparseDetected, if_pos hLeave, if_pos hLeave]
  exact iff_of_true rfl fun hName hKnown => absurd ⟨hName, hKnown⟩ hLeft

/- Over syntax trees, with the ranges in which two of them differ. -/
def overSyntax (ip : InjectionParser SyntaxNode) : InjectionParser SyntaxNode :=
  { ip with diffChangedRanges := SyntaxNode.diffChangedRanges }

/-
  A region that may keep its old tree has the same nodes of the document around each of its bytes,
  before and after the edits, for trees whose differences the comparison can see.
-/
theorem chain_eq_of_kept
    (ip : InjectionParser SyntaxNode)
    {old tree : SyntaxNode}
    (hComparable : SyntaxNode.Comparable old tree)
    {det : Injection SyntaxNode}
    (hKept : overlapChanged (ip.overSyntax.diffChangedRanges old tree) det.ranges = false)
    {r : SourceRange}
    (hRange : r ∈ det.ranges)
    {b : Nat}
    (hStart : r.startByte.toNat ≤ b)
    (hEnd : b < r.endByte.toNat) :
    SyntaxNode.chain b old = SyntaxNode.chain b tree := by
  refine SyntaxNode.chain_eq_of_outside hComparable fun hIn => ?_
  obtain ⟨cr, hMem, hFrom, hTo⟩ := (inRanges_coalesceRanges _ b).mpr hIn
  have hOverlap :
      (decide (r.startByte < cr.endByte) && decide (r.endByte > cr.startByte)) = true := by
    rw [Bool.and_eq_true, decide_eq_true_eq, decide_eq_true_eq, UInt32.lt_iff_toNat_lt, gt_iff_lt,
      UInt32.lt_iff_toNat_lt]
    omega
  have hTrue : overlapChanged (ip.overSyntax.diffChangedRanges old tree) det.ranges = true :=
    any_eq_true.mpr ⟨cr, hMem, any_eq_true.mpr ⟨r, hRange, hOverlap⟩⟩
  rw [hKept] at hTrue
  cases hTrue

-- Order

/- Where the first range of a region starts and ends. -/
def startOf (inj : Injection τ) : UInt32 := (inj.ranges.head?.map SourceRange.startByte).getD 0

def Ordered (found : List (Injection τ)) : Prop := found.Pairwise fun a b => startOf a ≤ startOf b

/- A region of one line in a language. -/
def regionIn (lang : String) (first last : UInt32) : InjectionMatch :=
  ⟨[lang], [⟨"injection.content", some (⟨first, last, ⟨0, first⟩, ⟨0, last⟩⟩, "")⟩]⟩

/- The text of some ranges. -/
def textOf (text : Source) (ranges : List SourceRange) : Source :=
  ranges.flatMap fun r => (text.take r.endByte.toNat).drop r.startByte.toNat

/- The bytes in which two texts of one line differ. -/
def differences (old new : Source) : List SourceRange :=
  ((old.zip new).zipIdx.filter fun place => place.1.1 != place.1.2).map fun place =>
    let first := UInt32.ofNat place.2
    ⟨first, first + 1, ⟨0, first⟩, ⟨0, first + 1⟩⟩

/-
  A script in a page and, if scripts have a query, a style sheet in the script. A tree is the name
  of its language and the text that was parsed.
-/
def pageParser (scriptQuery : Bool) : InjectionParser (String × Source) where
  registered _ := true
  hasQuery lang :=
    lang == "html" || (scriptQuery && lang == "javascript")
  maxDepth := 0
  parseSource lang text := .ok (lang, text)
  reparse lang text _ := .ok (lang, text)
  parseBytes lang text r := some (lang, textOf text [r])
  parseRanges lang text ranges := some (lang, textOf text ranges)
  exec lang _ _ :=
    if lang == "html" then [regionIn "javascript" 1 3]
    else [regionIn "css" 2 3]
  diffChangedRanges old new := differences old.2 new.2

/- A page that did not change loses its style sheet. -/
theorem incremental_loses_nested :
    ∃ old,
      (pageParser true).parse [60, 32, 32, 62] "html" = .ok old ∧
        (pageParser true).parseIncremental [60, 32, 32, 62] "html" (some old) ≠ .ok old := by
  refine ⟨_, rfl, ?_⟩
  decide

/- The last byte of a page is replaced, and the tree of the script is kept. -/
theorem incremental_eq_parse_of_script :
    ∃ old,
      (pageParser false).parse [60, 32, 32, 62] "html" = .ok old ∧
        findOldInjection old "javascript" [⟨1, 3, ⟨0, 1⟩, ⟨0, 3⟩⟩] =
          some ("javascript", [32, 32]) ∧
        (pageParser false).parseIncremental [60, 32, 32, 47] "html" (some old) =
          (pageParser false).parse [60, 32, 32, 47] "html" := by
  refine ⟨_, rfl, rfl, ?_⟩
  rw [incremental_eq_parse_iff (pageParser false) _ _ _ rfl rfl rfl]
  intro det hDet _ _
  have hEntry : det = ⟨"javascript", [⟨1, 3, ⟨0, 1⟩, ⟨0, 3⟩⟩], none⟩ := by
    simpa [detectInjections, pageParser, injectionEntry, regionIn] using hDet
  subst hEntry
  constructor
  · intro _ tree hOld
    cases hOld
    rfl
  · intro _
    rfl
  · intro tree _ hQuery
    cases hQuery

end InjectionParser

end GoTreeSitter
